import Gradual.Types.Declaration

/-!
# Scopes: what the names of a program stand for

A scope is a chain of levels, the innermost first. A level has three name spaces (variables, functions and types) and the
layouts of the records among its types. A variable without a type and a function without a declaration are known by name only.
The nearest level that binds a name decides what it stands for; at one level a value name is sought among the variables first.
-/

namespace Gradual

/-- What one level of a scope binds, the latest binding of a name first. -/
structure Level where
  vars : List (String × Option Ty)
  functions : List (String × Option Declaration)
  types : List (String × Ty)
  records : List (String × RecordLayout)

/-- What a name stands for in an expression. -/
inductive Value where
  | variable (ty : Option Ty)
  | function (declaration : Option Declaration)
  deriving DecidableEq

namespace Level

/-- A level without bindings. -/
def empty : Level := ⟨[], [], [], []⟩

/-- Whether a level binds a variable of that name. -/
def hasVariable (l : Level) (name : String) : Bool := (l.vars.lookup name).isSome

/-- Whether a level binds a function of that name. -/
def hasFunction (l : Level) (name : String) : Bool := (l.functions.lookup name).isSome

/-- Whether a level binds a type of that name. -/
def hasType (l : Level) (name : String) : Bool := (l.types.lookup name).isSome

/-- Whether a level binds a value of that name. -/
def hasValue (l : Level) (name : String) : Bool := l.hasVariable name || l.hasFunction name

/-- What a level binds a value name to. -/
def value? (l : Level) (name : String) : Option Value :=
  match l.vars.lookup name with
  | some ty => some (.variable ty)
  | none => (l.functions.lookup name).map .function

end Level

/-- A level and the levels around it. -/
structure Scope where
  level : Level
  outer : List Level

namespace Scope

/-- One level without bindings. -/
def empty : Scope := ⟨.empty, []⟩

/-- The scope with a level without bindings inside it. -/
def child (s : Scope) : Scope := ⟨.empty, s.level :: s.outer⟩

/-- The scope around the innermost level, if there is one. -/
def parent? (s : Scope) : Option Scope :=
  match s.outer with
  | [] => none
  | l :: ls => some ⟨l, ls⟩

/-- The number of levels around the innermost one. -/
def depth (s : Scope) : Nat := s.outer.length

/-- The levels of a scope, the innermost first. -/
def levels (s : Scope) : List Level := s.level :: s.outer

/-! ## Bindings at the innermost level -/

/-- Binds a variable. -/
def addVariable (s : Scope) (name : String) (ty : Option Ty) : Scope :=
  { s with level := { s.level with vars := (name, ty) :: s.level.vars } }

/-- Binds a function. -/
def addFunction (s : Scope) (name : String) (d : Option Declaration) : Scope :=
  { s with level := { s.level with functions := (name, d) :: s.level.functions } }

/-- Binds a type. -/
def addType (s : Scope) (name : String) (ty : Ty) : Scope :=
  { s with level := { s.level with types := (name, ty) :: s.level.types } }

/-- Binds the type of a record and its layout. -/
def addRecord (s : Scope) (r : RecordLayout) : Scope :=
  let s := s.addType r.name r.type
  { s with level := { s.level with records := (r.name, r) :: s.level.records } }

/-- Binds a parameter: one of function type as a function, any other as a variable. -/
def addParameter (s : Scope) (name : String) (ty : Ty) : Scope :=
  match Declaration.ofFunctionType? name ty with
  | some d => s.addFunction name (some d)
  | none => s.addVariable name (some ty)

/-! ## What a name stands for -/

/-- The nearest variable of that name: its type, if it has one. -/
def variableEntry? (s : Scope) (name : String) : Option (Option Ty) := s.levels.findSome? (·.vars.lookup name)

/-- The nearest function of that name: its declaration, if it has one. -/
def functionEntry? (s : Scope) (name : String) : Option (Option Declaration) := s.levels.findSome? (·.functions.lookup name)

/-- The nearest type of that name. -/
def type? (s : Scope) (name : String) : Option Ty := s.levels.findSome? (·.types.lookup name)

/-- What the nearest level that binds the name as a value binds it to. -/
def value? (s : Scope) (name : String) : Option Value := s.levels.findSome? (·.value? name)

/-- The layout of the record that a name stands for as a type; a nearer type that is no record hides it. -/
def recordNamed? (s : Scope) (name : String) : Option RecordLayout :=
  (s.levels.find? (·.hasType name)).bind (·.records.lookup name)

/-- The layout of the record that a type is. -/
def record? (s : Scope) : Ty → Option RecordLayout
  | .simple n => s.recordNamed? n
  | _ => none

end Scope

/-- What a call can be checked against: a declaration, or nothing but the name. -/
inductive Callee where
  | typed (declaration : Declaration)
  | untyped
  deriving DecidableEq

/-- What a name stands for in a call. A variable of function type is called like a function with nameless parameters; any other
variable, like a function without a declaration, accepts every call. -/
def Scope.callee? (s : Scope) (name : String) : Option Callee :=
  (s.value? name).map fun
    | .function (some d) => .typed d
    | .function none => .untyped
    | .variable ty =>
      match ty.bind (Declaration.ofFunctionType? name) with
      | some d => .typed d
      | none => .untyped

end Gradual
