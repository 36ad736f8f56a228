import Gradual.Types.Declaration
import Gradual.Types.Text

/-!
# Calls: argument types against a declaration

The type of an argument may be unknown before the program runs. Such an argument fits every parameter and tells nothing about
generic parameters. A call error says why a call does not fit a declaration, without saying where the call stands.
-/

namespace Gradual

/-- The types of a call's arguments, as far as they are known. -/
abbrev ArgTypes : Type := List (Option Ty)

/-- Why a call does not fit a declaration. -/
inductive CallError where
  | argumentCount (expected actual : Nat)
  | parameterType (parameter : String) (expected actual : Ty)
  | notFunction (parameter : String) (expected actual : Ty)
  | inconsistent (parameter : GenericParameter) (types : List Ty)
  | unsolved (args : ArgTypes)
  | noCommonType (types : List Ty)
  deriving DecidableEq

/-- The message of a call error. -/
def CallError.message : CallError → String
  | .argumentCount e a => "expected " ++ toString e ++ " argument(s), found " ++ toString a
  | .parameterType p e a => "parameter '" ++ p ++ "' has type " ++ e.text ++ " but was given " ++ a.text
  | .notFunction p e a => "parameter '" ++ p ++ "' expects a function " ++ e.text ++ " but was given " ++ a.text
  | .inconsistent p _ => "generic parameter " ++ p.name ++ " bound to inconsistent types"
  | .unsolved _ => "generic parameters cannot be solved"
  | .noCommonType _ => "no common type"

namespace Ty

/-- Whether a type is itself an unknown. -/
def isUnknown (t : Ty) : Bool := t.parameter?.any GenericParameter.isUnknown

/-- Whether every type of a list is compatible with the first. -/
def agree : List Ty → Bool
  | [] => true
  | t :: ts => (t :: ts).all (·.isCompatibleWith t)

/-- The types of a list without repeats, each where it stands first. -/
def distinct (ts : List Ty) : List Ty := ts.foldl (fun seen t => if seen.contains t then seen else seen ++ [t]) []

end Ty

/-- An argument of known type, and the parameter it is passed to. -/
structure Passed where
  parameter : String
  declared : Ty
  argument : Ty

namespace Passed

/-- Whether a parameter takes part in solving: its declared type is generic, or the argument mentions an unknown. -/
def isSolved (p : Passed) : Bool := p.declared.isGeneric || p.argument.isOpen

/-- Whether an argument fits as it is. -/
def fits (p : Passed) : Bool := p.argument.implements p.declared

/-- The error of an argument that does not fit as it is. -/
def mismatch (p : Passed) : CallError := .parameterType p.parameter p.declared p.argument

end Passed

namespace Declaration

/-- The arguments of known type, in order. -/
def passed (d : Declaration) (args : ArgTypes) : List Passed :=
  ((d.names.zip d.types).zip args).filterMap fun ((n, t), a) => a.map (⟨n, t, ·⟩)

/-- A call has as many arguments as there are parameters. -/
def checkCount (d : Declaration) (args : ArgTypes) : Except CallError Unit :=
  if d.arity = args.length then .ok () else .error (.argumentCount d.arity args.length)

end Declaration

end Gradual
