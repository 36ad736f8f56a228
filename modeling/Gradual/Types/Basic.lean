import Gradual.Types.Parameter

/-!
# Types

A type is a name, a generic parameter, a name applied to arguments, or a function type. Whether a value of one type may stand
where another is expected is asked by `Ty.implements`, never by equality: a generic parameter is then known by its name alone,
arguments and results go the same way as the whole, and the parameters of a function type go the other way.
-/

namespace Gradual

/-- A type. -/
inductive Ty where
  | simple (name : String)
  | parameter (param : GenericParameter)
  | applied (name : String) (args : List Ty)
  | function (params : List Ty) (ret : Ty)

namespace Ty

/-! ## Equality -/

mutual

/-- Whether two types are equal. -/
def decEq : (a b : Ty) → Decidable (a = b)
  | .simple a, .simple b => if h : a = b then isTrue (by rw [h]) else isFalse (by simpa using h)
  | .parameter a, .parameter b => if h : a = b then isTrue (by rw [h]) else isFalse (by simpa using h)
  | .applied n as, .applied m bs =>
    match decEqAll as bs with
    | isTrue h => if h' : n = m then isTrue (by rw [h, h']) else isFalse (by simp [h'])
    | isFalse h => isFalse (by simp [h])
  | .function ps r, .function qs s =>
    match decEqAll ps qs, decEq r s with
    | isTrue h, isTrue h' => isTrue (by rw [h, h'])
    | isFalse h, _ => isFalse (by simp [h])
    | _, isFalse h => isFalse (by simp [h])
  | .simple _, .parameter _ | .simple _, .applied _ _ | .simple _, .function _ _ => isFalse (by simp)
  | .parameter _, .simple _ | .parameter _, .applied _ _ | .parameter _, .function _ _ => isFalse (by simp)
  | .applied _ _, .simple _ | .applied _ _, .parameter _ | .applied _ _, .function _ _ => isFalse (by simp)
  | .function _ _, .simple _ | .function _ _, .parameter _ | .function _ _, .applied _ _ => isFalse (by simp)

/-- Whether two lists of types are equal. -/
def decEqAll : (as bs : List Ty) → Decidable (as = bs)
  | [], [] => isTrue rfl
  | a :: as, b :: bs =>
    match decEq a b, decEqAll as bs with
    | isTrue h, isTrue h' => isTrue (by rw [h, h'])
    | isFalse h, _ => isFalse (by simp [h])
    | _, isFalse h => isFalse (by simp [h])
  | [], _ :: _ | _ :: _, [] => isFalse (by simp)

end

instance : DecidableEq Ty := decEq

/-! ## The types of literals -/

/-- The type of numbers. -/
def number : Ty := .simple "Number"

/-- The type of texts. -/
def string : Ty := .simple "String"

/-- The type of symbols. -/
def symbol : Ty := .simple "Symbol"

/-- The type of truth values. -/
def boolean : Ty := .simple "Boolean"

/-- The type of the one value `nil`. -/
def nil : Ty := .simple "Nil"

/-! ## Relations -/

mutual

/-- Whether a value of type `a` may stand where `b` is expected. -/
def implements (a b : Ty) : Bool :=
  match a, b with
  | .simple n, .simple m => n == m
  | .parameter p, .parameter q => p.name == q.name
  | .applied n as, .applied m bs => n == m && allImplement as bs
  | .function ps r, .function qs s => allImplement qs ps && implements r s
  | _, _ => false
termination_by sizeOf a + sizeOf b

/-- Whether two lists are as long, and each type of the first implements its partner. -/
def allImplement (as bs : List Ty) : Bool :=
  match as, bs with
  | [], [] => true
  | a :: as, b :: bs => implements a b && allImplement as bs
  | _, _ => false
termination_by sizeOf as + sizeOf bs

end

/-- Whether each of two types implements the other. -/
def isCompatibleWith (a b : Ty) : Bool := a.implements b && b.implements a

/-! ## Parts -/

/-- The types that a type is built from directly. -/
def children : Ty → List Ty
  | .simple _ | .parameter _ => []
  | .applied _ as => as
  | .function ps r => ps ++ [r]

mutual

/-- Whether a generic parameter inside a type satisfies `p`. -/
def anyParameter (p : GenericParameter → Bool) : Ty → Bool
  | .simple _ => false
  | .parameter q => p q
  | .applied _ as => anyParameterIn p as
  | .function ps r => anyParameterIn p ps || anyParameter p r

/-- Whether a generic parameter inside one of several types satisfies `p`. -/
def anyParameterIn (p : GenericParameter → Bool) : List Ty → Bool
  | [] => false
  | a :: as => anyParameter p a || anyParameterIn p as

end

/-- Whether a type is or contains a generic parameter. -/
def isGeneric (a : Ty) : Bool := a.anyParameter fun _ => true

/-- Whether a type mentions an unknown. -/
def isOpen (a : Ty) : Bool := a.anyParameter GenericParameter.isUnknown

mutual

/-- Whether `needle` is a type or occurs inside it. -/
def contains (a needle : Ty) : Bool :=
  match a with
  | .simple n => decide (Ty.simple n = needle)
  | .parameter q => decide (Ty.parameter q = needle)
  | .applied n as => decide (Ty.applied n as = needle) || containsIn as needle
  | .function ps r => decide (Ty.function ps r = needle) || containsIn ps needle || contains r needle

/-- Whether `needle` is or occurs inside one of several types. -/
def containsIn (as : List Ty) (needle : Ty) : Bool :=
  match as with
  | [] => false
  | a :: as => contains a needle || containsIn as needle

end

/-- Whether a type is a function type. -/
def isFunction : Ty → Bool
  | .function .. => true
  | _ => false

/-- The generic parameter that a type is. -/
def parameter? : Ty → Option GenericParameter
  | .parameter p => some p
  | _ => none

mutual

/-- A type with generic parameters replaced; those that `f` does not map stay. -/
def substitute (f : GenericParameter → Option Ty) : Ty → Ty
  | .simple n => .simple n
  | .parameter p => (f p).getD (.parameter p)
  | .applied n as => .applied n (substituteAll f as)
  | .function ps r => .function (substituteAll f ps) (substitute f r)

/-- Several types with generic parameters replaced. -/
def substituteAll (f : GenericParameter → Option Ty) : List Ty → List Ty
  | [] => []
  | a :: as => substitute f a :: substituteAll f as

end

/-- The type of the elements of a sequence type. -/
def element? : Ty → Option Ty
  | .applied n [a] => if n == "Vector" || n == "List" then some a else none
  | _ => none

end Ty

end Gradual
