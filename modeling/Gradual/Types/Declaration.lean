import Gradual.Text.Span
import Gradual.Types.Basic

/-!
# Declarations: the signatures that calls are checked against

A declaration is plain or generic. A generic one lists its generic parameters, and where it is used they become unknowns of that
use (`Declaration.instantiate`), so that the parameters of a function stay apart from the unknowns of a call to itself. A
declaration has as many names as types for its parameters; `Declaration.make` refuses anything else.
-/

namespace Gradual

/-- A fault of the checker itself: a tree that no text yields, or a declaration out of joint. -/
inductive InternalError where
  | emptyImport (span : Span)
  | malformedDeclaration (name : String) (names types : Nat)
  deriving DecidableEq

/-- The message of an internal error. -/
def InternalError.message : InternalError → String
  | .emptyImport s => "invalid source tree at " ++ s.text ++ ": ImportStatement"
  | .malformedDeclaration n names types =>
    "declaration of '" ++ n ++ "' has " ++ toString names ++ " parameter name(s) but " ++ toString types ++
      " parameter type(s)"

/-- The signature of a function; `generics` are its generic parameters, if it is generic. -/
structure Declaration where
  name : String
  generics : Option (List GenericParameter)
  names : List String
  types : List Ty
  ret : Ty
  deriving DecidableEq

/-- `"0"`, `"1"` and so on, for parameters without a name. -/
def positionalNames (count : Nat) : List String := (List.range count).map toString

namespace Declaration

/-- A declaration with as many parameter names as parameter types. -/
def make (name : String) (generics : Option (List GenericParameter)) (names : List String) (types : List Ty) (ret : Ty) :
    Except InternalError Declaration :=
  if names.length = types.length then .ok ⟨name, generics, names, types, ret⟩
  else .error (.malformedDeclaration name names.length types.length)

/-- A function type as a declaration, its parameters named by their positions. -/
def ofFunctionType? (name : String) : Ty → Option Declaration
  | .function ps r => some ⟨name, none, positionalNames ps.length, ps, r⟩
  | _ => none

/-- The number of parameters. -/
def arity (d : Declaration) : Nat := d.types.length

/-- Whether a declaration is generic, be its list of generic parameters empty or not. -/
def isGeneric (d : Declaration) : Bool := d.generics.isSome

/-- The generic parameters of a declaration, none for a plain one. -/
def parameters (d : Declaration) : List GenericParameter := d.generics.getD []

/-- Whether a generic parameter belongs to a declaration. -/
def owns (d : Declaration) (p : GenericParameter) : Bool := d.parameters.contains p

/-- The declaration as the type of a value. -/
def functionType (d : Declaration) : Ty := .function d.types d.ret

/-- The positions of the parameters whose types mention a generic parameter. -/
def positionsOf (d : Declaration) (p : GenericParameter) : List Nat :=
  (List.range d.types.length).filter fun i => d.types[i]?.any (·.contains (.parameter p))

/-- Each generic parameter that some position mentions, with those positions, in the order of declaration. -/
def positions (d : Declaration) : List (GenericParameter × List Nat) :=
  (d.parameters.map fun p => (p, d.positionsOf p)).filter fun (_, is) => !is.isEmpty

/-- The unknown that a generic parameter of the declaration becomes at `site`. -/
def unknownOf? (d : Declaration) (site : String) (p : GenericParameter) : Option Ty :=
  if d.owns p then some (.parameter (p.unknownAt site)) else none

/-- The declaration for one use, its generic parameters being unknowns of that use; a plain declaration stays as it is. -/
def instantiate (d : Declaration) (site : String) : Declaration :=
  match d.generics with
  | none => d
  | some ps =>
    { d with
      generics := some (ps.map (·.unknownAt site))
      types := d.types.map (Ty.substitute (d.unknownOf? site))
      ret := d.ret.substitute (d.unknownOf? site) }

end Declaration

/-- The name of a record and the types of its fields, in order. -/
structure RecordLayout where
  name : String
  fields : List (String × Ty)
  deriving DecidableEq

namespace RecordLayout

/-- The type of the record's values. -/
def type (r : RecordLayout) : Ty := .simple r.name

/-- The type of the first field of that name. -/
def field? (r : RecordLayout) (name : String) : Option Ty := r.fields.lookup name

/-- The function that makes a value of the record from its fields. -/
def constructor (r : RecordLayout) : Declaration :=
  ⟨r.name, none, r.fields.map (·.1), r.fields.map (·.2), r.type⟩

end RecordLayout

end Gradual
