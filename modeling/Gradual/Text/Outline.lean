/-!
# Outlines: the written form of nested data

An outline is a tree of named records, named tuples and lists over atoms that are already text. It is written on one line, or
on many: one line for each part, four blanks deeper than the whole, each part followed by a comma.
-/

namespace Gradual.Text

/-- Nested data ready to be written. -/
inductive Outline where
  | atom (text : String)
  | record (name : String) (fields : List (String × Outline))
  | tuple (name : String) (items : List Outline)
  | list (items : List Outline)

namespace Outline

/-- An optional part: `None`, or the part as a one-place tuple. -/
def option : Option Outline → Outline
  | none => .atom "None"
  | some o => .tuple "Some" [o]

mutual

/-- The outline on one line. -/
def line : Outline → String
  | .atom t => t
  | .record n fs => n ++ " \x7b " ++ lineFields fs ++ " \x7d"
  | .tuple n os => n ++ "(" ++ lineItems os ++ ")"
  | .list os => "[" ++ lineItems os ++ "]"

/-- The fields of a record on one line, separated by commas. -/
def lineFields : List (String × Outline) → String
  | [] => ""
  | [(f, o)] => f ++ ": " ++ line o
  | (f, o) :: rest => f ++ ": " ++ line o ++ ", " ++ lineFields rest

/-- Items on one line, separated by commas. -/
def lineItems : List Outline → String
  | [] => ""
  | [o] => line o
  | o :: rest => line o ++ ", " ++ lineItems rest

end

mutual

/-- The outline on many lines; `pad` stands before its last line, the first line being placed by what holds it. -/
def block (pad : String) : Outline → String
  | .atom t => t
  | .record n fs => n ++ " \x7b\n" ++ blockFields (pad ++ "    ") fs ++ pad ++ "\x7d"
  | .tuple n os => n ++ "(\n" ++ blockItems (pad ++ "    ") os ++ pad ++ ")"
  | .list [] => "[]"
  | .list os => "[\n" ++ blockItems (pad ++ "    ") os ++ pad ++ "]"

/-- The fields of a record, each on its own lines. -/
def blockFields (pad : String) : List (String × Outline) → String
  | [] => ""
  | (f, o) :: rest => pad ++ f ++ ": " ++ block pad o ++ ",\n" ++ blockFields pad rest

/-- Items, each on its own lines. -/
def blockItems (pad : String) : List Outline → String
  | [] => ""
  | o :: rest => pad ++ block pad o ++ ",\n" ++ blockItems pad rest

end

end Outline

end Gradual.Text
