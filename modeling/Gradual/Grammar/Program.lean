import Gradual.Grammar.Expr

/-!
# The grammar of programs

A program is imports followed by statements, up to the end of the text.
-/

namespace Gradual

namespace Grammar

open Gradual.Parser

/-- The next name of an import's path. -/
def pathItem : Parser (Option String) := do
  if ← accept (.mark .dot) then do
    let n ← expectName
    pure (some n)
  else pure none

/-- `import shapes.plane.Point;`. -/
def importDef : Parser Import := do
  let start ← expect (.keyword .imports)
  let first ← expectName
  let others ← bounded (many pathItem)
  let close ← expect (.mark .semi)
  pure ⟨first :: others, start.span.join close.span⟩

/-- The next import of a program. -/
def importItem : Parser (Option Import) := do
  if ← check (.keyword .imports) then do
    let i ← importDef
    pure (some i)
  else pure none

/-- The next statement of a program, none at the end of the text. -/
def stmtItem : Parser (Option Stmt) := do
  if ← check .eof then pure none
  else do
    let s ← stmt
    pure (some s)

/-- A program. -/
def program : Parser Program := do
  let start ← peek
  let imports ← bounded (many importItem)
  let body ← bounded (many stmtItem)
  let close ← peek
  pure ⟨imports, body, ⟨start.span.start, close.span.stop⟩⟩

end Grammar

/-- The program that a source is. -/
def parse (source : String) : Except ParseError Program :=
  match Grammar.program (Reader.ofSource source) with
  | .ok p _ => .ok p
  | .error e _ => .error e

end Gradual
