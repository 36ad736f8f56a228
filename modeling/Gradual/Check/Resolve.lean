import Gradual.Check.Issue
import Gradual.Scope.Basic
import Gradual.Tree.Basic

/-!
# Resolution: annotations and signatures in a scope

An annotation becomes a type by looking up its names. A function or a method has a declaration exactly when the type of its
result is written; without one it is known by name only. A method's receiver is its first parameter, `self`.
-/

namespace Gradual

/-- The outcome of making a declaration. -/
def Outcome.ofInternal {α : Type} (r : Except InternalError α) : Outcome α := r.mapError .internal

namespace Scope

mutual

/-- The type that an annotation stands for. -/
def resolve (s : Scope) : Annotation → Outcome Ty
  | .named n as span =>
    match s.type? n with
    | none => .error ((Cause.unknownType n).at span)
    | some base => if as.isEmpty then .ok base else do
      let ts ← resolveAll s as
      pure (.applied n ts)
  | .function ps r _ => do
    let ts ← resolveAll s ps
    let t ← resolve s r
    pure (.function ts t)

/-- The types that annotations stand for, in order. -/
def resolveAll (s : Scope) : List Annotation → Outcome (List Ty)
  | [] => .ok []
  | a :: as => do
    let t ← resolve s a
    let ts ← resolveAll s as
    pure (t :: ts)

end

/-- The level inside `s` that binds the generic parameters of the function `owner` as types. -/
def withGenerics (s : Scope) (owner : String) (generics : List String) : Scope :=
  generics.foldl (fun s n => s.addType n (.parameter (.declared n owner))) s.child

/-- The types of parameters, in order. -/
def paramTypes (s : Scope) (params : List Param) : Outcome (List Ty) := s.resolveAll (params.map (·.ty))

/-- The declaration of a function in a scope that binds its generic parameters; none when its result is not annotated. -/
def functionDeclaration (s : Scope) (name : String) (generics : List String) (params : List Param)
    (ret : Option Annotation) : Outcome (Option Declaration) :=
  match ret with
  | none => .ok none
  | some ret => do
    let types ← s.paramTypes params
    let result ← s.resolve ret
    let parameters := if generics.isEmpty then none else some (generics.map (GenericParameter.declared · name))
    let d ← Outcome.ofInternal (Declaration.make name parameters (params.map (·.name)) types result)
    pure (some d)

/-- The declaration of a method of the record type `receiver`; none when its result is not annotated. -/
def methodDeclaration (s : Scope) (receiver : Ty) (name : String) (params : List Param) (ret : Option Annotation) :
    Outcome (Option Declaration) :=
  match ret with
  | none => .ok none
  | some ret => do
    let types ← s.paramTypes params
    let result ← s.resolve ret
    let d ← Outcome.ofInternal
      (Declaration.make name none ("self" :: params.map (·.name)) (receiver :: types) result)
    pure (some d)

/-- The layout of a record. -/
def recordLayout (s : Scope) (name : String) (fields : List Param) : Outcome RecordLayout := do
  let types ← s.paramTypes fields
  pure ⟨name, (fields.map (·.name)).zip types⟩

/-- The type of a member of a value; unknown unless the value is of a record in scope, which must have that field. -/
def memberType (s : Scope) (target : Option Ty) (field : String) (span : Span) : Outcome (Option Ty) :=
  match target.bind s.record? with
  | none => .ok none
  | some r =>
    match r.field? field with
    | some t => .ok (some t)
    | none => .error ((Cause.unknownVariable field).at span)

/-- The site of the unknowns of a generic function that is passed as argument number `index`. -/
def argumentSite (index : Nat) : String := "arg" ++ toString index

/-- The signature of a generic function that is named as an argument where the generic declaration `d` expects a function: its
generic parameters are unknowns of the call. -/
def passedSignature? (s : Scope) (d : Declaration) (index : Nat) : Expr → Option Ty
  | .name n _ =>
    if d.isGeneric && d.types[index]?.any Ty.isFunction then
      match s.value? n with
      | some (.function (some passed)) =>
        if passed.isGeneric then some (passed.instantiate (argumentSite index)).functionType else none
      | _ => none
    else none
  | _ => none

/-- The type of argument number `index` of a call of `d`: the signature of a generic function named there, or else the type
`own` of the argument by itself. -/
def argType (s : Scope) (d : Declaration) (index : Nat) (e : Expr) (own : Outcome (Option Ty)) : Outcome (Option Ty) :=
  match s.passedSignature? d index e with
  | some t => .ok (some t)
  | none => own

end Scope

end Gradual
