import Gradual.Token.Reader

/-!
# Parsers: what is read from a reader, and why it could not be

A parser takes tokens from a reader and yields a value or an error; either way it leaves the reader where it stopped. The four
ways to touch the reader are those of `Reader`: take a token, look at it, take it if it is like a given kind, and insist on a
kind. A loop runs under a bound on its rounds, which `bounded` takes from what is left to read: a round takes at least one
token, so the bound is never reached.
-/

namespace Gradual

/-- What is wrong with a token that the grammar does not allow where it stands. -/
inductive GrammarCause where
  | expected (wanted found : Kind)
  | expectedName (found : Kind)
  | expectedType (found : Kind)
  | expectedExpression (found : Kind)
  | expectedArguments (method : String) (found : Kind)
  | unclosedBlock
  | tooDeep
  deriving DecidableEq

/-- The message of a cause. -/
def GrammarCause.message : GrammarCause → String
  | .expected w f => "expected " ++ w.text ++ ", found " ++ f.text
  | .expectedName f => "expected identifier, found " ++ f.text
  | .expectedType f => "expected type, found " ++ f.text
  | .expectedExpression f => "expected expression, found " ++ f.text
  | .expectedArguments m f => "expected '(' after method name '" ++ m ++ "', found " ++ f.text
  | .unclosedBlock => "unclosed block, expected `\x7d`"
  | .tooDeep => "nesting too deep"

/-- Why a text is not a program: a text that begins no token, or a token that the grammar does not allow. -/
inductive ParseError where
  | lexical (fault : Fault)
  | grammar (cause : GrammarCause) (span : Span)
  deriving DecidableEq

/-- A parser of values. -/
abbrev Parser (α : Type) : Type := EStateM ParseError Reader α

namespace Parser

variable {α : Type}

/-- A parser from an operation of the reader. -/
def ofReader (f : Reader → Except Fault α × Reader) : Parser α := fun r =>
  match f r with
  | (.ok a, r') => .ok a r'
  | (.error e, r') => .error (.lexical e) r'

/-- The next token, taken. -/
def next : Parser Token := ofReader Reader.next

/-- The next token, left in place. -/
def peek : Parser Token := ofReader Reader.peek

/-- Whether the next token is like `kind`. -/
def check (kind : Kind) : Parser Bool := ofReader (·.check kind)

/-- Takes the next token if it is like `kind`, and says whether it did. -/
def accept (kind : Kind) : Parser Bool := ofReader (·.accept kind)

/-- Takes the next token, which must be like `kind`. -/
def expect (kind : Kind) : Parser Token := do
  let t ← next
  if t.kind.isLike kind then pure t else throw (.grammar (.expected kind t.kind) t.span)

/-- The name that a token is. -/
def nameOf (t : Token) : Parser String :=
  match t.kind with
  | .name n => pure n
  | k => throw (.grammar (.expectedName k) t.span)

/-- Takes the next token, which must be a name. -/
def expectName : Parser String := do
  let t ← next
  nameOf t

/-- The failure of a parser whose bound was reached. -/
def tooDeep : Parser α := fun r => .error (.grammar .tooDeep ⟨r.offset, r.offset⟩) r

/-- Runs a bounded parser with a bound that what is left to read cannot reach. -/
def bounded (p : Nat → Parser α) : Parser α := fun r => p (r.size + 1) r

/-- As many items as there are: `item` yields none when there is no other. -/
def many (item : Parser (Option α)) : Nat → Parser (List α)
  | 0 => tooDeep
  | n + 1 => do
    match ← item with
    | none => pure []
    | some a => do
      let as ← many item n
      pure (a :: as)

/-- One or more items, separated by commas. -/
def commaSeparated (item : Parser α) : Nat → Parser (List α)
  | 0 => tooDeep
  | n + 1 => do
    let a ← item
    if ← accept (.mark .comma) then do
      let as ← commaSeparated item n
      pure (a :: as)
    else pure [a]

/-- Items up to a closing mark, which is left in place, separated by commas; a comma may stand before the closing mark. -/
def listUntil (close : Kind) (item : Parser α) : Nat → Parser (List α)
  | 0 => tooDeep
  | n + 1 => do
    if ← check close then pure []
    else do
      let a ← item
      if ← accept (.mark .comma) then do
        let as ← listUntil close item n
        pure (a :: as)
      else pure [a]

end Parser

end Gradual
