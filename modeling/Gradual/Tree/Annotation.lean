import Gradual.Text.Span

/-!
# Annotations: types as a program writes them

An annotation is a name, a name applied to arguments, or a function type. Its text is a form that reads back as the same
annotation.
-/

namespace Gradual

/-- A type as written: `Number`, `Map<String, T>`, `(T) -> U`. -/
inductive Annotation where
  | named (name : String) (args : List Annotation) (span : Span)
  | function (params : List Annotation) (ret : Annotation) (span : Span)

namespace Annotation

/-- Where an annotation stands. -/
def span : Annotation → Span
  | .named _ _ s => s
  | .function _ _ s => s

/-- Whether an annotation is a function type. -/
def isFunction : Annotation → Bool
  | .named .. => false
  | .function .. => true

mutual

/-- The text of an annotation. -/
def text : Annotation → String
  | .named n [] _ => n
  | .named n as _ => n ++ "<" ++ textAll as ++ ">"
  | .function ps r _ => "(" ++ textAll ps ++ ") -> " ++ text r

/-- The texts of annotations, separated by commas. -/
def textAll : List Annotation → String
  | [] => ""
  | [a] => text a
  | a :: as => text a ++ ", " ++ textAll as

end

end Annotation

end Gradual
