import Gradual.Types.Declaration
import Gradual.Proofs.Types.Erasure

/-!
# Instances of declarations

A closed declaration mentions no unknown. Its instance at a site is the declaration with its own generic parameters made unknowns
of that site, and nothing else changed: so the unknowns of an instance are exactly those (`unknown_of_instance`), and a
substitution of them is an assignment to the generic parameters of the declaration (`instance_substitute`).
-/

namespace Gradual

namespace GenericParameter

@[simp] theorem isUnknown_unknownAt (p : GenericParameter) (site : String) : (p.unknownAt site).isUnknown = true := rfl

@[simp] theorem site_unknownAt (p : GenericParameter) (site : String) : (p.unknownAt site).site = some site := rfl

/-- A declared parameter is the origin of each of its unknowns. -/
theorem origin_unknownAt {p : GenericParameter} (h : p.isUnknown = false) (site : String) :
    (p.unknownAt site).origin = p := by
  obtain ⟨n, o, s⟩ := p
  obtain rfl : s = none := by simpa [isUnknown] using h
  rfl

end GenericParameter

namespace Declaration

/-- A declaration mentions no unknown. -/
structure Closed (d : Declaration) : Prop where
  parameters : ∀ p ∈ d.parameters, p.isUnknown = false
  types : ∀ t ∈ d.types, t.isOpen = false
  ret : d.ret.isOpen = false

/-- The function type of a closed declaration mentions no unknown. -/
theorem Closed.functionType {d : Declaration} (h : d.Closed) : d.functionType.isOpen = false :=
  (Ty.isOpen_function_eq_false_iff d.types d.ret).2 ⟨h.types, h.ret⟩

variable (d : Declaration)

/-- A declaration owns the generic parameters that it lists. -/
theorem owns_iff (p : GenericParameter) : d.owns p = true ↔ p ∈ d.parameters := List.contains_iff_mem

/-- An instance has the names of the declaration. -/
theorem instantiate_names (site : String) : (d.instantiate site).names = d.names := by
  unfold instantiate
  split <;> rfl

/-- A plain declaration has no generic parameter to make an unknown of. -/
theorem unknownOf?_of_plain {d : Declaration} (h : d.generics = none) (site : String) :
    d.unknownOf? site = fun _ => none := by
  funext p
  simp [unknownOf?, owns, parameters, h]

/-- The parameter types of an instance: those of the declaration with its generic parameters made unknowns. -/
theorem instantiate_types (site : String) :
    (d.instantiate site).types = d.types.map (Ty.substitute (d.unknownOf? site)) := by
  unfold instantiate
  split
  · rename_i h
    rw [unknownOf?_of_plain h]
    exact ((List.map_congr_left fun t _ => Ty.substitute_none t).trans (List.map_id _)).symm
  · rfl

/-- A type of an instance is one of the declaration, with the declaration's generic parameters made unknowns. -/
theorem exists_of_instance_types {d : Declaration} {site : String} {i : Nat} {u : Ty}
    (hu : (d.instantiate site).types[i]? = some u) : ∃ w, d.types[i]? = some w ∧ u = w.substitute (d.unknownOf? site) := by
  rw [instantiate_types, List.getElem?_map, Option.map_eq_some_iff] at hu
  obtain ⟨w, hw, rfl⟩ := hu
  exact ⟨w, hw, rfl⟩

/-- The result type of an instance. -/
theorem instantiate_ret (site : String) : (d.instantiate site).ret = d.ret.substitute (d.unknownOf? site) := by
  unfold instantiate
  split
  · rename_i h
    rw [unknownOf?_of_plain h, Ty.substitute_none]
  · rfl

/-- The function type of an instance is the instance of the function type. -/
theorem functionType_instantiate (site : String) :
    (d.instantiate site).functionType = d.functionType.substitute (d.unknownOf? site) := by
  simp [functionType, Ty.substitute, instantiate_types, instantiate_ret]

/-- The generic parameters of an instance. -/
theorem instantiate_parameters (site : String) :
    (d.instantiate site).parameters = d.parameters.map (·.unknownAt site) := by
  unfold instantiate
  split
  · rename_i h
    simp [parameters, h]
  · rename_i ps h
    simp [parameters, h]

/-- The generic parameters of an instance are unknowns. -/
theorem isUnknown_of_mem_instantiate (d : Declaration) {site : String} {p : GenericParameter}
    (hp : p ∈ (d.instantiate site).parameters) : p.isUnknown = true := by
  rw [instantiate_parameters, List.mem_map] at hp
  obtain ⟨q, -, rfl⟩ := hp
  rfl

/-- The unknowns in a type without unknowns of which an instance is made are unknowns of that site, made of the declaration's own
generic parameters. -/
theorem unknown_of_instance {d : Declaration} {site : String} {t : Ty} (ht : t.isOpen = false) {p : GenericParameter}
    (hc : (t.substitute (d.unknownOf? site)).contains (.parameter p) = true) (hp : p.isUnknown = true) :
    ∃ q ∈ d.parameters, t.contains (.parameter q) = true ∧ p = q.unknownAt site := by
  obtain ⟨q, hq, hqp⟩ := Ty.contains_substitute hc
  by_cases ho : d.owns q = true
  · rw [unknownOf?, if_pos ho] at hqp
    have : q.unknownAt site = p := by simpa [Ty.contains] using hqp
    exact ⟨q, (d.owns_iff q).1 ho, hq, this.symm⟩
  · rw [unknownOf?, if_neg ho] at hqp
    have : q = p := by simpa [Ty.contains] using hqp
    rw [← this, (Ty.isOpen_eq_false_iff t).1 ht q hq] at hp
    cases hp

/-! ## Assignments -/

/-- An assignment of types to the generic parameters of a declaration, as a substitution; other generic parameters stay. -/
def assignOwn (s : GenericParameter → Ty) (p : GenericParameter) : Option Ty := if d.owns p then some (s p) else none

/-- A substitution of the unknowns of an instance assigns to the generic parameters of the declaration, in every type without
unknowns. -/
theorem instance_substitute {d : Declaration} {site : String} {s : GenericParameter → Ty} {f : GenericParameter → Option Ty}
    (hown : ∀ p ∈ d.parameters, f (p.unknownAt site) = some (s p)) (hrigid : ∀ p, p.isUnknown = false → f p = none)
    {t : Ty} (ht : t.isOpen = false) : (t.substitute (d.unknownOf? site)).substitute f = t.substitute (d.assignOwn s) := by
  rw [Ty.substitute_substitute]
  refine Ty.substitute_congr fun p hp => ?_
  by_cases ho : d.owns p = true
  · simp [unknownOf?, assignOwn, ho, Ty.substitute, hown p ((d.owns_iff p).1 ho)]
  · simp [unknownOf?, assignOwn, ho, Ty.substitute, hrigid p ((Ty.isOpen_eq_false_iff t).1 ht p hp)]

end Declaration

/-- An assignment of types to unknowns, as a substitution; declared generic parameters stay. -/
def assignUnknowns (t : GenericParameter → Ty) (p : GenericParameter) : Option Ty := if p.isUnknown then some (t p) else none

/-- An assignment to unknowns leaves a type without unknowns as it is. -/
theorem substitute_assignUnknowns {a : Ty} (h : a.isOpen = false) (t : GenericParameter → Ty) :
    a.substitute (assignUnknowns t) = a := by
  rw [Ty.substitute_congr (g := fun _ => none), Ty.substitute_none]
  intro p hp
  simp [assignUnknowns, (Ty.isOpen_eq_false_iff a).1 h p hp]

end Gradual
