import Gradual.Grammar.Annotation

/-!
# The grammar of expressions and statements

Expressions and statements contain each other. Each production below is an ordinary parser over a `Nested`, the parsers for the
expressions and statements inside it, and uses it only after it has taken a token. The grammar nested `n + 1` deep is the
productions over the grammar nested `n` deep, so a bound on the tokens that are left bounds the nesting too.

Operators are grouped by precedence climbing: an operand on the right of an operator takes in only operators that bind tighter,
so operators of one precedence group to the left.
-/

namespace Gradual.Grammar

open Gradual.Parser

/-- The parsers for what stands inside a production: an expression whose operators bind at least so tightly, an operand with
its leading operators, and a statement. -/
structure Nested where
  expr : Nat → Parser Expr
  unary : Parser Expr
  stmt : Parser Stmt

/-- The operator that a token between two operands is. -/
def binaryOp? : Kind → Option BinaryOp
  | .mark .plus => some .add
  | .mark .minus => some .sub
  | .mark .star => some .mul
  | .mark .slash => some .div
  | .mark .percent => some .rem
  | .mark .eqEq => some .eq
  | .mark .notEq => some .ne
  | .mark .lt => some .lt
  | .mark .ltEq => some .le
  | .mark .gt => some .gt
  | .mark .gtEq => some .ge
  | .keyword .and => some .and
  | .keyword .or => some .or
  | _ => none

/-- The operator that a token before an operand is. -/
def unaryOp? : Kind → Option UnaryOp
  | .mark .minus => some .neg
  | .mark .bang => some .not
  | _ => none

/-! ## Blocks -/

/-- The next statement of a block, none at its closing brace. -/
def blockItem (g : Nested) : Parser (Option Stmt) := do
  let t ← peek
  match t.kind with
  | .mark .rbrace => pure none
  | .eof => throw (.grammar .unclosedBlock t.span)
  | _ => do
    let s ← g.stmt
    pure (some s)

/-- Statements in braces. -/
def block (g : Nested) : Parser Block := do
  let start ← expect (.mark .lbrace)
  let stmts ← bounded (many (blockItem g))
  let close ← expect (.mark .rbrace)
  pure ⟨stmts, start.span.join close.span⟩

/-! ## Expressions -/

/-- Arguments in parentheses, and where the closing one stands. -/
def arguments (g : Nested) : Parser (List Expr × Span) := do
  let _ ← expect (.mark .lparen)
  let args ← bounded (listUntil (.mark .rparen) (g.expr 0))
  let close ← expect (.mark .rparen)
  pure (args, close.span)

/-- The arguments of a method call, whose receiver and name were read. -/
def methodCall (g : Nested) (threading : Threading) (receiver : Expr) (method : String) : Parser Expr := do
  let t ← peek
  match t.kind with
  | .mark .lparen => do
    let (args, close) ← arguments g
    pure (.methodCall threading receiver method args (receiver.span.join close))
  | k => throw (.grammar (.expectedArguments method k) t.span)

/-- A name and its value in a let. -/
def binding (g : Nested) : Parser Binding := do
  let t ← next
  let n ← nameOf t
  let _ ← expect (.mark .eq)
  let value ← g.expr 0
  pure ⟨n, value, t.span.join value.span⟩

/-- `let a = 1, b = 2 { a + b }`. -/
def letIn (g : Nested) : Parser Expr := do
  let start ← expect (.keyword .letIn)
  let bindings ← bounded (commaSeparated (binding g))
  let body ← block g
  pure (.letIn bindings body (start.span.join body.span))

/-- A variable of a loop. -/
def loopVariable : Parser LocalName := do
  let t ← next
  let n ← nameOf t
  pure ⟨n, t.span⟩

/-- `for x in xs { x }`. -/
def forEach (g : Nested) : Parser Expr := do
  let start ← expect (.keyword .forEach)
  let vars ← bounded (commaSeparated loopVariable)
  let _ ← expect (.keyword .within)
  let iterable ← g.expr 0
  let body ← block g
  pure (.forEach vars iterable body (start.span.join body.span))

/-- A condition and its block. -/
def branch (g : Nested) : Parser Branch := do
  let condition ← g.expr 0
  let body ← block g
  pure ⟨condition, body⟩

/-- The next further branch of a conditional. -/
def elifItem (g : Nested) : Parser (Option Branch) := do
  if ← accept (.keyword .elif) then do
    let b ← branch g
    pure (some b)
  else pure none

/-- The block of a conditional without a condition, if there is one. -/
def otherwise (g : Nested) : Parser (Option Block) := do
  if ← accept (.keyword .otherwise) then do
    let b ← block g
    pure (some b)
  else pure none

/-- Where the last block of a conditional stands. -/
def lastBlockSpan (first : Branch) (others : List Branch) (fallback : Option Block) : Span :=
  match fallback with
  | some b => b.span
  | none => ((first :: others).getLast (by simp)).body.span

/-- `if c { 1 } elif d { 2 } else { 3 }`. -/
def conditional (g : Nested) : Parser Expr := do
  let start ← expect (.keyword .ifThen)
  let first ← branch g
  let others ← bounded (many (elifItem g))
  let fallback ← otherwise g
  pure (.cond (first :: others) fallback (start.span.join (lastBlockSpan first others fallback)))

/-- `fn(x: Number) -> x * 2`. -/
def lambda (g : Nested) : Parser Expr := do
  let start ← expect (.keyword .fn)
  let _ ← expect (.mark .lparen)
  let ps ← bounded (listUntil (.mark .rparen) lambdaParam)
  let _ ← expect (.mark .rparen)
  let _ ← expect (.mark .arrow)
  let body ← g.expr 0
  pure (.lambda ps body (start.span.join body.span))

/-- The next entry of a map, none at its closing brace; a comma may follow an entry. -/
def mapItem (g : Nested) : Parser (Option Entry) := do
  if ← check (.mark .rbrace) then pure none
  else do
    let key ← g.expr 0
    let value ← g.expr 0
    let _ ← accept (.mark .comma)
    pure (some ⟨key, value⟩)

/-- An expression that begins with the token `t`, which was taken. -/
def primaryFrom (g : Nested) (t : Token) : Parser Expr :=
  match t.kind with
  | .number v => pure (.literal (.number v) t.span)
  | .string s => pure (.literal (.string s) t.span)
  | .symbol s => pure (.literal (.symbol s) t.span)
  | .keyword .yes => pure (.literal (.bool true) t.span)
  | .keyword .no => pure (.literal (.bool false) t.span)
  | .keyword .nil => pure (.literal .nil t.span)
  | .name n => do
    if ← check (.mark .lparen) then do
      let (args, close) ← arguments g
      pure (.call n args (t.span.join close))
    else pure (.name n t.span)
  | .mark .lparen => do
    let inner ← g.expr 0
    let close ← expect (.mark .rparen)
    pure (.paren inner (t.span.join close.span))
  | .mark .lbracket => do
    let items ← bounded (listUntil (.mark .rbracket) (g.expr 0))
    let close ← expect (.mark .rbracket)
    pure (.vector items (t.span.join close.span))
  | .mark .mapOpen => do
    let entries ← bounded (many (mapItem g))
    let close ← expect (.mark .rbrace)
    pure (.map entries (t.span.join close.span))
  | k => throw (.grammar (.expectedExpression k) t.span)

/-- An expression without operators, members, keys and method calls of its own. -/
def primary (g : Nested) : Parser Expr := do
  let t ← peek
  match t.kind with
  | .mark .lbrace => do
    let b ← block g
    pure (.block b)
  | .keyword .letIn => letIn g
  | .keyword .forEach => forEach g
  | .keyword .ifThen => conditional g
  | .keyword .fn => lambda g
  | _ => do
    let t ← next
    primaryFrom g t

/-- The members, keys and method calls after an expression. -/
def chain (g : Nested) : Nat → Expr → Parser Expr
  | 0, _ => tooDeep
  | n + 1, e => do
    let t ← peek
    match t.kind with
    | .mark .dot => do
      let _ ← next
      let m ← next
      let field ← nameOf m
      if ← check (.mark .lparen) then do
        let call ← methodCall g .first e field
        chain g n call
      else chain g n (.member e field (e.span.join m.span))
    | .mark .arrow => do
      let _ ← next
      let method ← expectName
      let call ← methodCall g .last e method
      chain g n call
    | .mark .lbracket =>
      if e.isKeyed then do
        let _ ← next
        let key ← g.expr 0
        let close ← expect (.mark .rbracket)
        chain g n (.get e key (e.span.join close.span))
      else pure e
    | _ => pure e

/-- An operand with its leading operators. -/
def unary (g : Nested) : Parser Expr := do
  let t ← peek
  match unaryOp? t.kind with
  | some op => do
    let _ ← next
    let operand ← g.unary
    pure (.unary op operand (t.span.join operand.span))
  | none => do
    let e ← primary g
    bounded fun n => chain g n e

/-- The operators that bind at least as tightly as `least`, and their operands, after a first operand. -/
def climb (g : Nested) (least : Nat) : Nat → Expr → Parser Expr
  | 0, _ => tooDeep
  | n + 1, left => do
    let t ← peek
    match binaryOp? t.kind with
    | none => pure left
    | some op =>
      if op.precedence < least then pure left
      else do
        let _ ← next
        let right ← g.expr (op.precedence + 1)
        climb g least n (.binary op left right (left.span.join right.span))

/-- An expression whose operators bind at least as tightly as `least`. -/
def exprStep (g : Nested) (least : Nat) : Parser Expr := do
  let left ← unary g
  bounded fun n => climb g least n left

/-! ## Statements -/

/-- The names of generic parameters between angle brackets, if there are any. -/
def generics : Parser (List String) := do
  if ← accept (.mark .lt) then do
    let names ← bounded (commaSeparated expectName)
    let _ ← expect (.mark .gt)
    pure names
  else pure []

/-- `defn <T> f(x: T) -> T { x }`. -/
def functionDef (g : Nested) : Parser Stmt := do
  let start ← expect (.keyword .defn)
  let gs ← generics
  let n ← expectName
  let (ps, _) ← params
  let ret ← returnAnnotation
  let body ← block g
  pure (.function n gs ps ret body (start.span.join body.span))

/-- `defmethod m(x: Number) -> Number { x }`. -/
def method (g : Nested) : Parser Method := do
  let start ← expect (.keyword .defmethod)
  let n ← expectName
  let (ps, _) ← params
  let ret ← returnAnnotation
  let body ← block g
  pure ⟨n, ps, ret, body, start.span.join body.span⟩

/-- The next method of an implementation, none at its closing brace. -/
def methodItem (g : Nested) : Parser (Option Method) := do
  if ← check (.mark .rbrace) then pure none
  else do
    let m ← method g
    pure (some m)

/-- `implements Protocol { ... }`. -/
def implementation (g : Nested) : Parser Implementation := do
  let start ← expect (.keyword .implements)
  let protocol ← expectName
  let _ ← expect (.mark .lbrace)
  let methods ← bounded (many (methodItem g))
  let close ← expect (.mark .rbrace)
  pure ⟨protocol, methods, start.span.join close.span⟩

/-- The next implementation of a record. -/
def implementationItem (g : Nested) : Parser (Option Implementation) := do
  if ← check (.keyword .implements) then do
    let i ← implementation g
    pure (some i)
  else pure none

/-- Where a record ends: after its semicolon, or else its last implementation, or else its fields. -/
def recordEnd (fields : Span) (implementations : List Implementation) : Parser Nat := do
  let t ← peek
  match t.kind with
  | .mark .semi => do
    let _ ← next
    pure t.span.stop
  | _ => pure ((implementations.getLast?.map (·.span)).getD fields).stop

/-- `record Point(x: Number, y: Number) implements Shape { ... }`. -/
def recordDef (g : Nested) : Parser Stmt := do
  let start ← expect (.keyword .record)
  let n ← expectName
  let (fields, close) ← params
  let implementations ← bounded (many (implementationItem g))
  let stop ← recordEnd close implementations
  pure (.record n fields implementations ⟨start.span.start, stop⟩)

/-- `def x: Number = 1;`. -/
def define (g : Nested) : Parser Stmt := do
  let start ← expect (.keyword .define)
  let n ← expectName
  let ty ← (do if ← accept (.mark .colon) then some <$> annotation else pure none : Parser (Option Annotation))
  let _ ← expect (.mark .eq)
  let value ← g.expr 0
  let close ← expect (.mark .semi)
  pure (.define n ty value (start.span.join close.span))

/-- A statement; a semicolon may follow an expression. -/
def stmtStep (g : Nested) : Parser Stmt := do
  let t ← peek
  match t.kind with
  | .keyword .defn => functionDef g
  | .keyword .record => recordDef g
  | .keyword .define => define g
  | _ => do
    let e ← exprStep g 0
    let _ ← accept (.mark .semi)
    pure (.expr e)

/-! ## The grammar nested at most so deep -/

mutual

/-- An expression nested at most so deep. -/
def exprWithin : Nat → Nat → Parser Expr
  | 0, _ => tooDeep
  | n + 1, least => exprStep ⟨exprWithin n, unaryWithin n, stmtWithin n⟩ least

/-- An operand nested at most so deep. -/
def unaryWithin : Nat → Parser Expr
  | 0 => tooDeep
  | n + 1 => unary ⟨exprWithin n, unaryWithin n, stmtWithin n⟩

/-- A statement nested at most so deep. -/
def stmtWithin : Nat → Parser Stmt
  | 0 => tooDeep
  | n + 1 => stmtStep ⟨exprWithin n, unaryWithin n, stmtWithin n⟩

end

/-- The grammar nested at most so deep. -/
abbrev Nested.within (n : Nat) : Nested := ⟨exprWithin n, unaryWithin n, stmtWithin n⟩

/-- An expression. -/
def expr : Parser Expr := bounded fun n => exprWithin n 0

/-- A statement. -/
def stmt : Parser Stmt := bounded stmtWithin

end Gradual.Grammar
