import Gradual.Text.Outline
import Gradual.Text.Quoted
import Gradual.Types.Basic

/-!
# The text and the outline of types

The text of a type is what messages show, and reads as an annotation; the outline is what dumps and log events show.
-/

namespace Gradual

open Text (Outline quoted)

namespace Ty

mutual

/-- The text of a type. -/
def text : Ty → String
  | .simple n => n
  | .parameter p => p.name
  | .applied n as => n ++ "<" ++ textAll as ++ ">"
  | .function ps r => "(" ++ textAll ps ++ ") -> " ++ text r

/-- The texts of types, separated by commas. -/
def textAll : List Ty → String
  | [] => ""
  | [a] => text a
  | a :: as => text a ++ ", " ++ textAll as

end

/-- The texts of types that may be unknown, separated by commas. -/
def textOfKnown (ts : List (Option Ty)) : String :=
  ", ".intercalate (ts.map fun t => (t.map text).getD "_")

end Ty

/-- The outline of a generic parameter. -/
def GenericParameter.outline (p : GenericParameter) : Outline :=
  .record "GenericParameter" [("name", .atom (quoted p.name)), ("owner", .atom (quoted p.ownerText))]

namespace Ty

mutual

/-- The outline of a type. -/
def outline : Ty → Outline
  | .simple n => .tuple "Simple" [.atom (quoted n)]
  | .parameter p => .tuple "GenericParameter" [p.outline]
  | .applied n as => .record "GenericType" [("name", .atom (quoted n)), ("args", .list (outlineAll as))]
  | .function ps r => .record "FunctionType" [("params", .list (outlineAll ps)), ("ret", outline r)]

/-- The outlines of types. -/
def outlineAll : List Ty → List Outline
  | [] => []
  | a :: as => outline a :: outlineAll as

end

end Ty

end Gradual
