import Gradual.Number.Shortest
import Gradual.Text.Outline
import Gradual.Text.Quoted
import Gradual.Tree.Basic

/-!
# The outline of a program

The dump of a tree names every part of every node, the spans with them.
-/

namespace Gradual

open Text (Outline quoted)

/-- The outline of a span. -/
def Span.outline (s : Span) : Outline :=
  .record "Span" [("start", .atom (toString s.start)), ("end", .atom (toString s.stop))]

/-- The outline of a name or of any other text. -/
def textOutline (s : String) : Outline := .atom (quoted s)

mutual

/-- The outline of an annotation. -/
def Annotation.outline : Annotation → Outline
  | .named n as s =>
    .record "TypeAnnotation"
      [("kind", .record "Named" [("name", textOutline n), ("args", .list (outlineAnnotations as))]), ("span", s.outline)]
  | .function ps r s =>
    .record "TypeAnnotation"
      [("kind", .record "Function" [("params", .list (outlineAnnotations ps)), ("ret", r.outline)]), ("span", s.outline)]

/-- The outlines of annotations. -/
def outlineAnnotations : List Annotation → List Outline
  | [] => []
  | a :: as => a.outline :: outlineAnnotations as

end

/-- The outline of an annotation that may be missing. -/
def outlineAnnotation? (a : Option Annotation) : Outline := .option (a.map Annotation.outline)

/-- The outline of a parameter. -/
def Param.outline (p : Param) : Outline :=
  .record "Param" [("name", textOutline p.name), ("ty", p.ty.outline), ("span", p.span.outline)]

/-- The outline of a lambda's parameter. -/
def LambdaParam.outline (p : LambdaParam) : Outline :=
  .record "LambdaParam" [("name", textOutline p.name), ("ty", outlineAnnotation? p.ty), ("span", p.span.outline)]

/-- The outline of a loop's variable. -/
def LocalName.outline (n : LocalName) : Outline :=
  .record "LocalName" [("name", textOutline n.name), ("span", n.span.outline)]

/-- The outline of a literal. -/
def Literal.outline : Literal → Outline
  | .number v => .tuple "Number" [.atom (NumberLayout.dump.text v)]
  | .string s => .tuple "String" [textOutline s]
  | .symbol s => .tuple "Symbol" [textOutline s]
  | .bool b => .tuple "Bool" [.atom (if b then "true" else "false")]
  | .nil => .atom "Nil"

/-- The label of an operator between two operands. -/
def BinaryOp.label : BinaryOp → String
  | .add => "Add"
  | .sub => "Sub"
  | .mul => "Mul"
  | .div => "Div"
  | .rem => "Rem"
  | .eq => "Eq"
  | .ne => "Ne"
  | .lt => "Lt"
  | .le => "Le"
  | .gt => "Gt"
  | .ge => "Ge"
  | .and => "And"
  | .or => "Or"

/-- The label of an operator before one operand. -/
def UnaryOp.label : UnaryOp → String
  | .neg => "Neg"
  | .not => "Not"

/-- The label of a place for the receiver. -/
def Threading.label : Threading → String
  | .first => "First"
  | .last => "Last"

/-- The outline of an expression from that of its kind. -/
def outlineNode (kind : Outline) (s : Span) : Outline := .record "Expr" [("kind", kind), ("span", s.outline)]

/-- The outline of a call from those of its arguments. -/
def outlineCall (f : String) (args : List Outline) (s : Span) : Outline :=
  .record "FunctionCall" [("name", textOutline f), ("args", .list args), ("span", s.outline)]

/-- The outline of a statement from that of what it defines. -/
def outlineStmt (label : String) (definition : Outline) (s : Span) : Outline :=
  .record "Stmt" [("kind", .tuple label [definition]), ("span", s.outline)]

mutual

/-- The outline of an expression. -/
def Expr.outline : Expr → Outline
  | .literal v s => outlineNode v.outline s
  | .name n s => outlineNode (.tuple "Identifier" [textOutline n]) s
  | .binary op l r s =>
    outlineNode (.record "Binary" [("op", .atom op.label), ("left", l.outline), ("right", r.outline)]) s
  | .unary op e s => outlineNode (.record "Unary" [("op", .atom op.label), ("operand", e.outline)]) s
  | .call f as s => outlineNode (.tuple "Call" [outlineCall f (outlineExprs as) s]) s
  | .methodCall t r m as s =>
    outlineNode
      (.tuple "MethodCall"
        [.record "MethodCall"
          [("receiver", r.outline), ("call", outlineCall m (outlineExprs as) s), ("threading", .atom t.label)]]) s
  | .member e m s => outlineNode (.record "MemberGet" [("target", e.outline), ("member", textOutline m)]) s
  | .get c k s => outlineNode (.record "Get" [("collection", c.outline), ("key", k.outline)]) s
  | .vector es s => outlineNode (.tuple "Vector" [.list (outlineExprs es)]) s
  | .map es s => outlineNode (.tuple "Map" [.list (outlineEntries es)]) s
  | .block b => outlineNode (.tuple "Block" [b.outline]) b.span
  | .letIn bs b s =>
    outlineNode (.tuple "VarScope" [.record "VarScope" [("bindings", .list (outlineBindings bs)), ("body", b.outline)]]) s
  | .forEach vs e b s =>
    outlineNode
      (.tuple "ForLoop"
        [.record "ForLoop"
          [("vars", .list (vs.map LocalName.outline)), ("iterable", e.outline), ("body", b.outline)]]) s
  | .cond bs o s =>
    outlineNode
      (.tuple "Conditional"
        [.record "Conditional" [("branches", .list (outlineBranches bs)), ("else_block", .option (outlineBlock? o))]]) s
  | .lambda ps e s =>
    outlineNode
      (.tuple "Lambda" [.record "Lambda" [("params", .list (ps.map LambdaParam.outline)), ("body", e.outline)]]) s
  | .paren e s => outlineNode (.tuple "Paren" [e.outline]) s

/-- The outlines of expressions. -/
def outlineExprs : List Expr → List Outline
  | [] => []
  | e :: es => e.outline :: outlineExprs es

/-- The outlines of the entries of a map. -/
def outlineEntries : List Entry → List Outline
  | [] => []
  | ⟨k, v⟩ :: es => .tuple "" [k.outline, v.outline] :: outlineEntries es

/-- The outlines of the bindings of a let. -/
def outlineBindings : List Binding → List Outline
  | [] => []
  | ⟨n, v, s⟩ :: bs =>
    .record "Binding" [("name", textOutline n), ("value", v.outline), ("span", s.outline)] :: outlineBindings bs

/-- The outlines of the branches of a conditional. -/
def outlineBranches : List Branch → List Outline
  | [] => []
  | ⟨c, b⟩ :: bs => .record "Branch" [("condition", c.outline), ("body", b.outline)] :: outlineBranches bs

/-- The outline of a block that may be missing. -/
def outlineBlock? : Option Block → Option Outline
  | none => none
  | some b => some b.outline

/-- The outline of a block. -/
def Block.outline : Block → Outline
  | ⟨ss, s⟩ => .record "Block" [("stmts", .list (outlineStmts ss)), ("span", s.outline)]

/-- The outlines of statements. -/
def outlineStmts : List Stmt → List Outline
  | [] => []
  | s :: ss => s.outline :: outlineStmts ss

/-- The outlines of methods. -/
def outlineMethods : List Method → List Outline
  | [] => []
  | ⟨n, ps, r, b, s⟩ :: ms =>
    .record "MethodDef"
      [("name", textOutline n), ("params", .list (ps.map Param.outline)), ("return_type", outlineAnnotation? r),
        ("body", b.outline), ("span", s.outline)] :: outlineMethods ms

/-- The outlines of implementations. -/
def outlineImplementations : List Implementation → List Outline
  | [] => []
  | ⟨p, ms, s⟩ :: is =>
    .record "Implementation" [("protocol", textOutline p), ("methods", .list (outlineMethods ms)), ("span", s.outline)] ::
      outlineImplementations is

/-- The outline of a statement. -/
def Stmt.outline : Stmt → Outline
  | .function n gs ps r b s =>
    outlineStmt "FunctionDef"
      (.record "FunctionDef"
        [("name", textOutline n), ("generic_parameters", .list (gs.map textOutline)),
          ("params", .list (ps.map Param.outline)), ("return_type", outlineAnnotation? r), ("body", b.outline),
          ("span", s.outline)]) s
  | .record n fs is s =>
    outlineStmt "RecordDef"
      (.record "RecordDef"
        [("name", textOutline n), ("fields", .list (fs.map Param.outline)),
          ("implementations", .list (outlineImplementations is)), ("span", s.outline)]) s
  | .define n ty v s =>
    outlineStmt "Def"
      (.record "DefAssignment"
        [("name", textOutline n), ("ty", outlineAnnotation? ty), ("value", v.outline), ("span", s.outline)]) s
  | .expr e => outlineStmt "Expr" e.outline e.span

end

/-- The outline of an import. -/
def Import.outline (i : Import) : Outline :=
  .record "ImportStatement" [("path", .list (i.path.map textOutline)), ("span", i.span.outline)]

/-- The outline of a program. -/
def Program.outline (p : Program) : Outline :=
  .record "SourceCode"
    [("imports", .list (p.imports.map Import.outline)), ("body", .list (outlineStmts p.body)), ("span", p.span.outline)]

/-- The dump of a program, on many lines. -/
def Program.dump (p : Program) : String := p.outline.block ""

end Gradual
