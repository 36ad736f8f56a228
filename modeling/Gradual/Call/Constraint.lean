import Gradual.Call.Basic

/-!
# Constraints: what an argument says about generic parameters

A declared type and the type of an argument are walked side by side. First their shapes must match, a generic parameter on the
declared side and an unknown on the argument's matching every shape. Then each place where one side is a generic parameter
yields a constraint, that parameter with the type on the other side, and two of them where both sides are parameters.
-/

namespace Gradual

/-- A generic parameter and a type it must agree with. -/
abbrev Constraint : Type := GenericParameter × Ty

namespace Ty

mutual

/-- The shape of a declared type must be the shape of the argument; errors name the parameter and the parts that differ. -/
def matchShape (parameter : String) (declared argument : Ty) : Except CallError Unit :=
  if argument.isUnknown then .ok ()
  else
    match declared with
    | .parameter _ => .ok ()
    | .simple n =>
      if argument.implements (.simple n) then .ok () else .error (.parameterType parameter (.simple n) argument)
    | .function ps r =>
      match argument with
      | .function qs s =>
        if ps.length = qs.length then do
          matchShapes parameter ps qs
          matchShape parameter r s
        else .error (.parameterType parameter (.function ps r) (.function qs s))
      | a => .error (.notFunction parameter (.function ps r) a)
    | .applied n as =>
      match argument with
      | .applied m bs =>
        if m = n ∧ as.length = bs.length then matchShapes parameter as bs
        else .error (.parameterType parameter (.applied n as) (.applied m bs))
      | a => .error (.parameterType parameter (.applied n as) a)

/-- The shapes of two lists of types must match, pair by pair. -/
def matchShapes (parameter : String) (declared arguments : List Ty) : Except CallError Unit :=
  match declared, arguments with
  | d :: ds, a :: as => do
    matchShape parameter d a
    matchShapes parameter ds as
  | _, _ => .ok ()

end

mutual

/-- The constraints that an argument puts on the generic parameters of both sides, from left to right. -/
def constraints (declared argument : Ty) : List Constraint :=
  match declared, argument with
  | .parameter d, .parameter a => [(d, .parameter a), (a, .parameter d)]
  | .parameter d, t => [(d, t)]
  | t, .parameter a => [(a, t)]
  | .simple _, _ => []
  | .applied _ ds, t => constraintsAll ds t.children
  | .function ps r, t => constraintsAll ps t.children ++ ((t.children.drop ps.length).head?.map (constraints r)).getD []

/-- The constraints of two lists of types, pair by pair. -/
def constraintsAll (declared arguments : List Ty) : List Constraint :=
  match declared, arguments with
  | d :: ds, a :: as => constraints d a ++ constraintsAll ds as
  | _, _ => []

end

end Ty

/-- The constraints of an argument. -/
def Passed.constraints (p : Passed) : List Constraint := p.declared.constraints p.argument

namespace Declaration

/-- The constraints of all arguments that take part in solving. -/
def constraints (d : Declaration) (args : ArgTypes) : List Constraint :=
  ((d.passed args).filter Passed.isSolved).flatMap Passed.constraints

/-- The types that the arguments at the positions of a generic parameter bind it to, in order. -/
def bindings (d : Declaration) (args : ArgTypes) (p : GenericParameter) (positions : List Nat) : List Ty :=
  let found := positions.flatMap fun i =>
    match d.types[i]?, args[i]? with
    | some t, some (some a) => t.constraints a
    | _, _ => []
  (found.filter (·.1 = p)).map (·.2)

end Declaration

end Gradual
