import Gradual.Call.Check

/-!
# The type of a call's result

The generic parameters in the declared result are replaced by the types that the arguments bind them to. The result is unknown
when a parameter it needs is bound only through arguments of unknown type, or only to types that still mention unknowns. There
is no common type when nothing binds a parameter of the result, or when incompatible types do.
-/

namespace Gradual.Declaration

/-- Whether an argument of unknown type stands at a position of one of the generic parameters among some types. -/
def fedByUnknown (d : Declaration) (args : ArgTypes) (members : List Ty) : Bool :=
  members.any fun t =>
    match t.parameter? with
    | some p => ((d.positions.lookup p).getD []).any fun i => args[i]? = some none
    | none => false

/-- The type that a partition gives a generic parameter of an instantiated declaration, if it is known. -/
def solve (d : Declaration) (args : ArgTypes) (partition : Partition) (p : GenericParameter) : Except CallError (Option Ty) :=
  let members := partition.classOf (.parameter p)
  let rigid := members.filter (!·.isUnknown)
  let closed := rigid.filter (!·.isOpen)
  match closed with
  | [] => if d.fedByUnknown args members || !rigid.isEmpty then .ok none else .error (.noCommonType [])
  | t :: _ => if Ty.agree closed then .ok (some t) else .error (.noCommonType (Ty.distinct closed))

/-- The types of several generic parameters in order; the first one that is not known leaves the whole unknown. -/
def solveAll (d : Declaration) (args : ArgTypes) (partition : Partition) :
    List GenericParameter → Except CallError (Option (List (GenericParameter × Ty)))
  | [] => .ok (some [])
  | p :: ps => do
    match ← d.solve args partition p with
    | none => pure none
    | some t => do
      match ← solveAll d args partition ps with
      | none => pure none
      | some rest => pure (some ((p, t) :: rest))

/-- The type of a call's result against an instantiated declaration of its arity. -/
def resultOfInstance (d : Declaration) (args : ArgTypes) : Except CallError (Option Ty) := do
  let needed := d.parameters.filter fun p => d.ret.contains (.parameter p)
  match ← d.solveAll args (.ofConstraints (d.constraints args)) needed with
  | none => pure none
  | some found => pure (some (d.ret.substitute fun p => found.lookup p))

/-- The type of a call's result, none when it is unknown. -/
def resultType (d : Declaration) (args : ArgTypes) : Except CallError (Option Ty) := do
  d.checkCount args
  if d.ret.isGeneric then (d.instantiate callSite).resultOfInstance args else pure (some d.ret)

end Gradual.Declaration
