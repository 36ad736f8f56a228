import Mathlib
import Gradual.Check.Resolve
import Gradual.Proofs.Call.Check
import Gradual.Proofs.Types.Instance

/-!
# Which calls of generic declarations are accepted

A call of a generic declaration asks for types for its generic parameters under which every argument of known type implements its
parameter's type. Where the arguments mention no unknowns, the check accepts exactly the calls for which there are such types
(`checkGenericCall_ok_iff_exists_assignment`). Where generic functions are passed as arguments, their generic parameters are
unknowns too, and a call for which there are types for all of them is accepted (`checkGenericCall_ok_of_assignment`).

A solution makes the two sides of every constraint equal up to owners, so it does that along every chain of constraints. The other
way, a consistent set of constraints gives each unknown the type without unknowns that a chain leads to.
-/

namespace Gradual

/-- The site of an argument is not that of a call. -/
theorem Scope.argumentSite_ne_callSite (i : Nat) : Scope.argumentSite i ≠ Declaration.callSite := by
  intro h
  have := congrArg String.toList h
  simp [Scope.argumentSite, Declaration.callSite] at this

/-- Arguments at different places have different sites. -/
theorem Scope.argumentSite_injective {i j : Nat} (h : Scope.argumentSite i = Scope.argumentSite j) : i = j := by
  have hr : i.repr = j.repr := by simpa [Scope.argumentSite] using h
  have hd : Nat.toDigits 10 i = Nat.toDigits 10 j := by rw [← Nat.toList_repr, hr, Nat.toList_repr]
  rw [← Nat.ofDigitChars_ten_toDigits (n := i), hd, Nat.ofDigitChars_ten_toDigits]

namespace Declaration

/-- Where an argument takes no part in solving, neither it nor its parameter's type mentions an unknown. -/
theorem isOpen_of_not_solved {p : Passed} (h : p.isSolved = false) :
    p.declared.isOpen = false ∧ p.argument.isOpen = false := by
  rw [Passed.isSolved, Bool.or_eq_false_iff] at h
  refine ⟨?_, h.2⟩
  rw [Ty.isOpen_eq_false_iff]
  intro q hq
  have := (Ty.isGeneric_iff p.declared).2 ⟨q, hq⟩
  rw [h.1] at this
  cases this

/-! ## Every solvable call is accepted -/

/-- A substitution that makes the arguments of known type equal to their parameters' types makes linked types equal. -/
theorem substitute_eq_of_linked {d : Declaration} {args : ArgTypes} {g : GenericParameter → Option Ty}
    (h : ∀ (i : Nat) (u a : Ty), d.types[i]? = some u → args[i]? = some (some a) → u.substitute g = a.substitute g) {x y : Ty}
    (hl : Linked (d.constraints args) x y) : x.substitute g = y.substitute g := by
  refine hl.eq_of_respects (·.substitute g) fun c hc => ?_
  obtain ⟨p, hp, -, hc⟩ := (d.mem_constraints_iff args c).1 hc
  obtain ⟨i, -, ht, ha⟩ := (d.mem_passed_iff args p).1 hp
  exact Ty.substitute_eq_of_mem_constraints (h i p.declared p.argument ht ha) hc

/-- A type without unknowns goes to itself up to owners when every generic parameter that is no unknown does. -/
theorem substitute_of_closed {g : GenericParameter → Option Ty}
    (hg : ∀ p, p.isUnknown = false → g p = some (.parameter (.declared p.name ""))) {t : Ty} (ht : t.isOpen = false) :
    t.substitute g = t.eraseOwners := by
  refine Ty.substitute_congr fun p hp => ?_
  rw [hg p ((Ty.isOpen_eq_false_iff t).1 ht p hp)]

/-- An argument that takes no part in solving fits when a substitution makes it equal to its parameter's type. -/
theorem fits_of_substitute_eq {g : GenericParameter → Option Ty}
    (hg : ∀ p, p.isUnknown = false → g p = some (.parameter (.declared p.name ""))) {p : Passed} (hs : p.isSolved = false)
    (h : p.declared.substitute g = p.argument.substitute g) : p.fits = true := by
  obtain ⟨hdo, hao⟩ := isOpen_of_not_solved hs
  rw [Passed.fits, Ty.implements_iff, ← substitute_of_closed hg hao, ← substitute_of_closed hg hdo, h]

/-- The shape of an argument matches when a substitution makes it equal to its parameter's type. -/
theorem matchShape_of_passed {g : GenericParameter → Option Ty}
    (hg : ∀ p, p.isUnknown = false → g p = some (.parameter (.declared p.name ""))) {p : Passed}
    (h : p.declared.substitute g = p.argument.substitute g) : Ty.matchShape p.parameter p.declared p.argument = .ok () := by
  refine Ty.matchShape_of_substitute_eq _ (fun q hq => ?_) h
  simp [Ty.substitute, hg q hq, Ty.parameter?]

/-- An instantiated declaration accepts the arguments that a substitution makes equal to their parameters' types, when it takes a
type without unknowns to itself up to owners. -/
theorem checkInstance_ok_of_substitution (d : Declaration) (args : ArgTypes) {g : GenericParameter → Option Ty}
    (hg : ∀ p, p.isUnknown = false → g p = some (.parameter (.declared p.name "")))
    (h : ∀ (i : Nat) (u a : Ty), d.types[i]? = some u → args[i]? = some (some a) → u.substitute g = a.substitute g) :
    d.checkInstance args = .ok () := by
  have hpassed : ∀ p ∈ d.passed args, p.declared.substitute g = p.argument.substitute g := by
    intro p hp
    obtain ⟨i, -, ht, ha⟩ := (d.mem_passed_iff args p).1 hp
    exact h i p.declared p.argument ht ha
  rw [checkInstance_ok_iff]
  refine ⟨fun p hp hs => fits_of_substitute_eq hg hs (hpassed p hp), fun p hp _ => matchShape_of_passed hg (hpassed p hp), ?_, ?_⟩
  · rintro p - t u ⟨i, w, a, hw, ha, -, hc⟩ ⟨j, v, b, hv, hb, -, hc'⟩ ht hu
    rw [← substitute_of_closed hg ht, ← substitute_of_closed hg hu,
      ← Ty.substitute_eq_of_mem_constraints (h i w a hw ha) hc, ← Ty.substitute_eq_of_mem_constraints (h j v b hv hb) hc']
  · intro a b hl ha hb
    rw [← substitute_of_closed hg ha, ← substitute_of_closed hg hb, substitute_eq_of_linked h hl]

/-- Types for the generic parameters of a declaration and for unknowns, as one substitution in an instance of it: the unknowns of
the call are assigned to by `s`, all others by `t`. -/
def assignCall (s t : GenericParameter → Ty) (p : GenericParameter) : Option Ty :=
  if p.site = some callSite then some (s p.origin) else assignUnknowns t p

/-- An assignment for a call leaves declared parameters alone. -/
theorem assignCall_of_rigid (s t : GenericParameter → Ty) {p : GenericParameter} (hp : p.isUnknown = false) :
    assignCall s t p = none := by
  have hs : p.site = none := by simpa [GenericParameter.isUnknown] using hp
  simp [assignCall, assignUnknowns, hs, hp]

/-- An assignment for a call gives the unknown of a parameter what is assigned to the parameter. -/
theorem assignCall_unknownAt (s t : GenericParameter → Ty) {p : GenericParameter} (hp : p.isUnknown = false) :
    assignCall s t (p.unknownAt callSite) = some (s p) := by
  simp [assignCall, GenericParameter.origin_unknownAt hp]

/-- Up to owners, an assignment for a call gives a declared parameter its name. -/
theorem upToOwners_assignCall (s t : GenericParameter → Ty) (p : GenericParameter) (hp : p.isUnknown = false) :
    Ty.upToOwners (assignCall s t) p = some (.parameter (.declared p.name "")) := by
  rw [Ty.upToOwners, assignCall_of_rigid s t hp]
  rfl

/-- The types of an instance under such a substitution are those of the declaration under the assignment. -/
theorem instance_assignCall {d : Declaration} (hd : d.Closed) (s t : GenericParameter → Ty) {u : Ty} (hu : u.isOpen = false) :
    (u.substitute (d.unknownOf? callSite)).substitute (assignCall s t) = u.substitute (d.assignOwn s) :=
  instance_substitute (fun p hp => assignCall_unknownAt s t (hd.parameters p hp)) (fun _ hp => assignCall_of_rigid s t hp) hu

/-- Types under which an argument implements a declared type make it equal, up to owners, to the type in the instance, where the
argument mentions no unknown of the call. -/
theorem instance_eq_of_implements {d : Declaration} (hd : d.Closed) {w a : Ty} (hw : w.isOpen = false)
    (hsite : ∀ p, a.contains (.parameter p) = true → p.site ≠ some callSite) {s t : GenericParameter → Ty}
    (h : (a.substitute (assignUnknowns t)).implements (w.substitute (d.assignOwn s)) = true) :
    (w.substitute (d.unknownOf? callSite)).substitute (Ty.upToOwners (assignCall s t)) =
      a.substitute (Ty.upToOwners (assignCall s t)) := by
  have hargument : a.substitute (assignCall s t) = a.substitute (assignUnknowns t) := by
    refine Ty.substitute_congr fun p hp => ?_
    simp [assignCall, hsite p hp]
  rw [Ty.substitute_upToOwners, Ty.substitute_upToOwners, instance_assignCall hd s t hw, hargument]
  exact ((Ty.implements_iff _ _).1 h).symm

/-- Types under which every argument of known type implements its parameter's type make the two equal up to owners, where no
argument mentions an unknown of the call. -/
theorem substitute_eq_of_implements {d : Declaration} {args : ArgTypes} (hd : d.Closed)
    (hsite : ∀ a, some a ∈ args → ∀ p, a.contains (.parameter p) = true → p.site ≠ some callSite)
    {s t : GenericParameter → Ty}
    (h : ∀ (i : Nat) (u a : Ty), d.types[i]? = some u → args[i]? = some (some a) →
      (a.substitute (assignUnknowns t)).implements (u.substitute (d.assignOwn s)) = true)
    (i : Nat) (u a : Ty) (hu : (d.instantiate callSite).types[i]? = some u) (ha : args[i]? = some (some a)) :
    u.substitute (Ty.upToOwners (assignCall s t)) = a.substitute (Ty.upToOwners (assignCall s t)) := by
  obtain ⟨w, hw, rfl⟩ := exists_of_instance_types hu
  exact instance_eq_of_implements hd (hd.types w (List.mem_of_getElem? hw)) (hsite a (List.mem_of_getElem? ha)) (h i w a hw ha)

/-- A call of a generic declaration is accepted when there are types for its generic parameters and for the unknowns of its
arguments, none of which is an unknown of the call, under which every argument of known type implements its parameter's type. -/
theorem checkGenericCall_ok_of_solution {d : Declaration} {args : ArgTypes} (hd : d.Closed) (hn : args.length = d.arity)
    (hsite : ∀ a, some a ∈ args → ∀ p, a.contains (.parameter p) = true → p.site ≠ some callSite)
    {s t : GenericParameter → Ty}
    (h : ∀ (i : Nat) (u a : Ty), d.types[i]? = some u → args[i]? = some (some a) →
      (a.substitute (assignUnknowns t)).implements (u.substitute (d.assignOwn s)) = true) :
    d.checkGenericCall args = .ok () :=
  (d.checkGenericCall_ok_iff args).2 ⟨hn.symm, checkInstance_ok_of_substitution _ _ (upToOwners_assignCall s t)
    (substitute_eq_of_implements hd hsite h)⟩

/-! ## Every accepted call without unknowns in its arguments is solvable -/

open Classical in
/-- The type without unknowns that a chain of constraints leads to from an unknown, if there is one. -/
noncomputable def linkedType (cs : List Constraint) (p : GenericParameter) : Ty :=
  if h : ∃ t : Ty, t.isOpen = false ∧ Linked cs (.parameter p) t then h.choose else .parameter p

/-- Every type without unknowns that is linked to an unknown is, up to owners, the one chosen for it. -/
theorem eraseOwners_linkedType {cs : List Constraint} (hc : Consistent cs) {p : GenericParameter} {t : Ty}
    (ht : t.isOpen = false) (hl : Linked cs (.parameter p) t) : (linkedType cs p).eraseOwners = t.eraseOwners := by
  have hex : ∃ t : Ty, t.isOpen = false ∧ Linked cs (.parameter p) t := ⟨t, ht, hl⟩
  rw [linkedType, dif_pos hex]
  exact hc _ _ (hex.choose_spec.2.symm.trans hl) hex.choose_spec.1 ht

/-- The types that consistent constraints lead to from unknowns make equal, up to owners, what meets at a generic parameter in an
argument without unknowns and its parameter's type. -/
theorem eraseOwners_eq_of_meets {d : Declaration} {args : ArgTypes} (hc : Consistent (d.constraints args)) {p : Passed}
    (hp : p ∈ d.passed args) (hs : p.isSolved = true) (hm : Ty.matchShape p.parameter p.declared p.argument = .ok ())
    (ha : p.argument.isOpen = false) {x y : Ty} (hxy : Ty.Meets p.declared p.argument x y)
    (hpar : x.parameter? ≠ none ∨ y.parameter? ≠ none) :
    (x.substitute (assignUnknowns (linkedType (d.constraints args)))).eraseOwners = y.eraseOwners := by
  have hy : y.isOpen = false := Ty.isOpen_eq_false_of_contains ha hxy.contains.2
  obtain ⟨q, rfl⟩ := hxy.exists_parameter hm hy hpar
  have hmem : (q, y) ∈ d.constraints args :=
    (d.mem_constraints_iff args _).2 ⟨p, hp, hs, (Ty.mem_constraints_iff _ _ _).2 ⟨_, _, hxy, Or.inl ⟨rfl, rfl⟩⟩⟩
  have hl : Linked (d.constraints args) (.parameter q) y := Linked.of_mem hmem
  by_cases hq : q.isUnknown = true
  · have he : (Ty.parameter q).substitute (assignUnknowns (linkedType (d.constraints args))) =
        linkedType (d.constraints args) q := by
      simp [Ty.substitute, assignUnknowns, hq]
    rw [he]
    exact eraseOwners_linkedType hc hy hl
  · have hq' : (Ty.parameter q).isOpen = false := by simpa using hq
    rw [substitute_assignUnknowns hq']
    exact hc _ _ hl hq' hy

/-- The types that the constraints of an accepted call lead to from its unknowns make every argument implement its parameter's
type, when the arguments mention no unknowns. -/
theorem implements_of_checkInstance_ok {d : Declaration} {args : ArgTypes} (hn : d.names.length = d.types.length)
    (ha : ∀ a, some a ∈ args → a.isOpen = false) (h : d.checkInstance args = .ok ()) {i : Nat} {u a : Ty}
    (hu : d.types[i]? = some u) (hi : args[i]? = some (some a)) :
    a.implements (u.substitute (assignUnknowns (linkedType (d.constraints args)))) = true := by
  obtain ⟨hplain, hshapes, -, hcons⟩ := (d.checkInstance_ok_iff args).1 h
  have hao : a.isOpen = false := ha a (List.mem_of_getElem? hi)
  have hlt : i < d.names.length := hn ▸ (List.getElem?_eq_some_iff.1 hu).1
  have hp : (⟨d.names[i], u, a⟩ : Passed) ∈ d.passed args :=
    (d.mem_passed_iff args _).2 ⟨i, List.getElem?_eq_getElem hlt, hu, hi⟩
  by_cases hs : (⟨d.names[i], u, a⟩ : Passed).isSolved = true
  · have hm := hshapes _ hp hs
    have he : u.substitute (Ty.upToOwners (assignUnknowns (linkedType (d.constraints args)))) =
        a.substitute (Ty.upToOwners (assignUnknowns (linkedType (d.constraints args)))) := by
      refine Ty.substitute_eq_of_meets hm fun x y hxy hpar => ?_
      have hy : y.isOpen = false := Ty.isOpen_eq_false_of_contains hao hxy.contains.2
      rw [Ty.substitute_upToOwners, Ty.substitute_upToOwners, substitute_assignUnknowns hy]
      exact eraseOwners_eq_of_meets hcons hp hs hm hao hxy hpar
    rw [Ty.substitute_upToOwners, Ty.substitute_upToOwners, substitute_assignUnknowns hao] at he
    exact (Ty.implements_iff _ _).2 he.symm
  · have hs' : (⟨d.names[i], u, a⟩ : Passed).isSolved = false := by simpa using hs
    have hfits := hplain _ hp hs'
    rw [substitute_assignUnknowns (isOpen_of_not_solved hs').1]
    exact hfits

/-! ## The two statements -/

/-- Where no argument mentions an unknown, a call of a generic declaration is accepted exactly when it has as many arguments as
there are parameters and there are types for the generic parameters under which every argument of known type implements its
parameter's type. Generic parameters that the declaration does not own, in its types or in the arguments, are types like any
other. -/
theorem checkGenericCall_ok_iff_exists_assignment (d : Declaration) (args : ArgTypes) (hd : d.Closed)
    (hn : d.names.length = d.types.length) (ha : ∀ a, some a ∈ args → a.isOpen = false) :
    d.checkGenericCall args = .ok () ↔ args.length = d.arity ∧
      ∃ s : GenericParameter → Ty, ∀ (i : Nat) (u a : Ty), d.types[i]? = some u → args[i]? = some (some a) →
        a.implements (u.substitute (d.assignOwn s)) = true := by
  constructor
  · intro h
    obtain ⟨hlen, hinst⟩ := (d.checkGenericCall_ok_iff args).1 h
    refine ⟨hlen.symm, fun p => linkedType ((d.instantiate callSite).constraints args) (p.unknownAt callSite), ?_⟩
    intro i u a hu hi
    have hu' : (d.instantiate callSite).types[i]? = some (u.substitute (d.unknownOf? callSite)) := by
      rw [instantiate_types, List.getElem?_map, hu]
      rfl
    have hn' : (d.instantiate callSite).names.length = (d.instantiate callSite).types.length := by
      rw [instantiate_names, instantiate_types, List.length_map, hn]
    have hsat := implements_of_checkInstance_ok hn' ha hinst hu' hi
    rwa [instance_substitute (fun p _ => ?_) (fun p hp => ?_) (hd.types u (List.mem_of_getElem? hu))] at hsat
    · simp [assignUnknowns]
    · simp [assignUnknowns, hp]
  · rintro ⟨hlen, s, hs⟩
    refine checkGenericCall_ok_of_solution (s := s) (t := .parameter) hd hlen (fun a hm p hp => ?_) fun i u a hu hi => ?_
    · have := (Ty.isOpen_eq_false_iff a).1 (ha a hm) p hp
      intro hsite
      simp [GenericParameter.isUnknown, hsite] at this
    · rw [substitute_assignUnknowns (ha a (List.mem_of_getElem? hi))]
      exact hs i u a hu hi

/-- `<T, U> map(xs: Vector<T>, f: (T) -> U) -> Vector<U>`. -/
def mapSignature : Declaration :=
  ⟨"map", some [.declared "T" "map", .declared "U" "map"], ["xs", "f"],
    [.applied "Vector" [.parameter (.declared "T" "map")],
      .function [.parameter (.declared "T" "map")] (.parameter (.declared "U" "map"))],
    .applied "Vector" [.parameter (.declared "U" "map")]⟩

/-- Inside a function with a generic parameter `T` of its own, `map` takes a vector of that `T` and a function from it to numbers;
it takes no function from texts for a vector of numbers. -/
theorem map_assignments :
    (∃ s : GenericParameter → Ty, ∀ (i : Nat) (u a : Ty), mapSignature.types[i]? = some u →
      ([some (.applied "Vector" [.parameter (.declared "T" "wrap")]),
        some (.function [.parameter (.declared "T" "wrap")] .number)] : ArgTypes)[i]? = some (some a) →
      a.implements (u.substitute (mapSignature.assignOwn s)) = true) ∧
    ¬∃ s : GenericParameter → Ty, ∀ (i : Nat) (u a : Ty), mapSignature.types[i]? = some u →
      ([some (.applied "Vector" [.number]), some (.function [.string] .string)] : ArgTypes)[i]? = some (some a) →
      a.implements (u.substitute (mapSignature.assignOwn s)) = true := by
  have hd : mapSignature.Closed := ⟨by decide, by decide, by decide⟩
  constructor
  · have h := checkGenericCall_ok_iff_exists_assignment mapSignature
      [some (.applied "Vector" [.parameter (.declared "T" "wrap")]),
        some (.function [.parameter (.declared "T" "wrap")] .number)] hd rfl (by simp; decide)
    exact (h.1 (by cbv)).2
  · have h := checkGenericCall_ok_iff_exists_assignment mapSignature
      [some (.applied "Vector" [.number]), some (.function [.string] .string)] hd rfl (by simp; decide)
    intro hs
    have hok := h.2 ⟨rfl, hs⟩
    have herr : mapSignature.checkGenericCall [some (.applied "Vector" [.number]), some (.function [.string] .string)] =
        .error (.inconsistent (.declared "T" "map") [.number, .string]) := by cbv
    rw [hok] at herr
    cases herr

/-- Where arguments mention unknowns of generic functions that are passed, a call of a generic declaration is accepted when it has
as many arguments as there are parameters and there are types for the generic parameters and for all those unknowns under which
every argument of known type implements its parameter's type. -/
theorem checkGenericCall_ok_of_assignment (d : Declaration) (args : ArgTypes) (hd : d.Closed)
    (hlen : args.length = d.arity)
    (hsite : ∀ a, some a ∈ args → ∀ p, a.contains (.parameter p) = true → p.isUnknown = true →
      ∃ j, p.site = some (Scope.argumentSite j))
    (h : ∃ s t : GenericParameter → Ty, ∀ (i : Nat) (u a : Ty), d.types[i]? = some u → args[i]? = some (some a) →
      (a.substitute (assignUnknowns t)).implements (u.substitute (d.assignOwn s)) = true) :
    d.checkGenericCall args = .ok () := by
  obtain ⟨s, t, hst⟩ := h
  refine checkGenericCall_ok_of_solution hd hlen (fun a ha p hp hcall => ?_) hst
  obtain ⟨j, hj⟩ := hsite a ha p hp (by simp [GenericParameter.isUnknown, hcall])
  exact Scope.argumentSite_ne_callSite j (Option.some.inj (hj.symm.trans hcall))

/-- `<T, U> apply(x: T, f: (T) -> U) -> U`. -/
def applySignature : Declaration :=
  ⟨"apply", some [.declared "T" "apply", .declared "U" "apply"], ["x", "f"],
    [.parameter (.declared "T" "apply"), .function [.parameter (.declared "T" "apply")] (.parameter (.declared "U" "apply"))],
    .parameter (.declared "U" "apply")⟩

/-- A number and the generic identity may be passed to `apply`: numbers for all unknowns show it. -/
theorem apply_identity_ok :
    applySignature.checkGenericCall [some .number,
      some (.function [.parameter ⟨"T", "identity", some "arg1"⟩] (.parameter ⟨"T", "identity", some "arg1"⟩))] = .ok () := by
  refine checkGenericCall_ok_of_assignment _ _ ⟨by decide, by decide, by decide⟩ rfl ?_
    ⟨fun _ => .number, fun _ => .number, ?_⟩
  · intro a ha p hp hu
    refine ⟨1, ?_⟩
    rcases List.mem_cons.1 ha with ha | ha
    · obtain rfl := Option.some.inj ha
      simp [Ty.contains, Ty.number] at hp
    · obtain rfl := Option.some.inj (List.mem_singleton.1 ha)
      obtain rfl : (⟨"T", "identity", some "arg1"⟩ : GenericParameter) = p := by simpa [Ty.contains] using hp
      rfl
  · intro i u a hu ha
    rcases i with _ | _ | i
    · obtain rfl := Option.some.inj hu
      obtain rfl := Option.some.inj (Option.some.inj ha)
      cbv
    · obtain rfl := Option.some.inj hu
      obtain rfl := Option.some.inj (Option.some.inj ha)
      cbv
    · simp [applySignature] at hu

end Declaration

end Gradual
