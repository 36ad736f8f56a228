import Gradual.Call.Partition

/-!
# The check of a call

An argument of a plain declaration must implement its parameter's type. A call of a generic declaration asks whether there are
types for the generic parameters under which that holds. The check instantiates the declaration for the call and then, in this
order: arguments for parameters without unknowns on either side must implement them; the shapes of the others must match; the
types that arguments bind a generic parameter to directly must agree; and no chain of constraints may lead from a type to an
incompatible one.
-/

namespace Gradual.Declaration

/-- The site of the unknowns that a callee's generic parameters become. -/
def callSite : String := "call"

/-- The first argument, without unknowns on either side, that does not implement its parameter's type is an error. -/
def checkPlain (d : Declaration) (args : ArgTypes) : Except CallError Unit :=
  match (d.passed args).find? fun p => !p.isSolved && !p.fits with
  | some p => .error p.mismatch
  | none => .ok ()

/-- The shapes of the arguments that take part in solving must match. -/
def checkShapes (d : Declaration) (args : ArgTypes) : Except CallError Unit :=
  ((d.passed args).filter Passed.isSolved).forM fun p => Ty.matchShape p.parameter p.declared p.argument

/-- The types without unknowns that arguments bind a generic parameter to directly must agree. -/
def checkBindings (d : Declaration) (args : ArgTypes) : Except CallError Unit :=
  d.positions.forM fun (p, is) =>
    let bound := (d.bindings args p is).filter (!·.isOpen)
    if Ty.agree bound then .ok () else .error (.inconsistent p (Ty.distinct bound))

/-- No chain of constraints may lead from a type without unknowns to an incompatible one. -/
def checkConsistency (constraints : List Constraint) (args : ArgTypes) : Except CallError Unit :=
  if (Partition.ofConstraints constraints).isConsistent then .ok () else .error (.unsolved args)

/-- The check of a call against an instantiated declaration of its arity. -/
def checkInstance (d : Declaration) (args : ArgTypes) : Except CallError Unit := do
  d.checkPlain args
  d.checkShapes args
  d.checkBindings args
  checkConsistency (d.constraints args) args

/-- An error of an instantiated declaration in terms of the declared one. -/
def declaredError : CallError → CallError
  | .inconsistent p ts => .inconsistent p.origin ts
  | e => e

/-- The check of a call against a generic declaration. -/
def checkGenericCall (d : Declaration) (args : ArgTypes) : Except CallError Unit := do
  d.checkCount args
  ((d.instantiate callSite).checkInstance args).mapError declaredError

/-- The check of a call against a plain declaration. -/
def checkPlainCall (d : Declaration) (args : ArgTypes) : Except CallError Unit := do
  d.checkCount args
  match (d.passed args).find? (!·.fits) with
  | some p => .error p.mismatch
  | none => .ok ()

/-- The check of a call. -/
def checkCall (d : Declaration) (args : ArgTypes) : Except CallError Unit :=
  if d.isGeneric then d.checkGenericCall args else d.checkPlainCall args

end Gradual.Declaration
