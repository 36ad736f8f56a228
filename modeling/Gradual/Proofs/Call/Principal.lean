import Mathlib
import Gradual.Proofs.Call.Result
import Gradual.Proofs.Call.Solvable

/-!
# The result of a call and the solutions of the call

The result of an accepted call is the declared result with the types put in that chains of constraints lead to
(`exists_assignment_of_resultType`), and it is found where a chain leads to a type without unknowns from every generic parameter
of the declared result (`exists_resultType`). A solution of the call makes linked types equal up to owners, so a result that is
found is the one that every solution gives (`resultType_principal`). Arguments that are the parameters' types under an assignment
link each generic parameter to what is assigned to it, and to no other type without unknowns, so their call has the declared
result under that assignment (`resultType_argsUnder`).
-/

namespace Gradual

namespace Ty

/-- What two substitutions put for a generic parameter of a type meets in the two types that they make of it. -/
theorem Meets.of_contains {t : Ty} {p : GenericParameter} (h : t.contains (.parameter p) = true)
    (f g : GenericParameter → Option Ty) :
    Meets (t.substitute f) (t.substitute g) ((parameter p).substitute f) ((parameter p).substitute g) := by
  induction t using ind_children with
  | h t ih =>
    rcases (contains_iff t _).1 h with rfl | ⟨c, hc, hp⟩
    · exact .here _ _
    · have ht : t.parameter? = none := parameter?_of_child hc
      obtain ⟨i, hi⟩ := List.getElem?_of_mem hc
      have hchild : ∀ f : GenericParameter → Option Ty, (t.substitute f).children[i]? = some (c.substitute f) := by
        intro f
        rw [children_substitute f ht, List.getElem?_map, hi]
        rfl
      exact .child (parameter?_substitute f ht) (parameter?_substitute g ht) (hchild f) (hchild g) (ih c hc hp)

end Ty

namespace Declaration

variable {d : Declaration} {args : ArgTypes}

/-! ## Assignments -/

/-- What an assignment makes of a type depends only on what it gives the generic parameters in the type. -/
theorem substitute_assignOwn_congr {s s' : GenericParameter → Ty} {t : Ty}
    (h : ∀ p ∈ d.parameters, t.contains (.parameter p) = true → s p = s' p) :
    t.substitute (d.assignOwn s) = t.substitute (d.assignOwn s') := by
  refine Ty.substitute_congr fun p hp => ?_
  by_cases ho : d.owns p = true
  · simp [assignOwn, ho, h p ((d.owns_iff p).1 ho) hp]
  · simp [assignOwn, ho]

/-- The same up to owners. -/
theorem eraseOwners_assignOwn_congr {s s' : GenericParameter → Ty} {t : Ty}
    (h : ∀ p ∈ d.parameters, t.contains (.parameter p) = true → (s p).eraseOwners = (s' p).eraseOwners) :
    (t.substitute (d.assignOwn s)).eraseOwners = (t.substitute (d.assignOwn s')).eraseOwners := by
  rw [← Ty.substitute_upToOwners, ← Ty.substitute_upToOwners]
  refine Ty.substitute_congr fun p hp => ?_
  by_cases ho : d.owns p = true
  · simp [Ty.upToOwners, assignOwn, ho, h p ((d.owns_iff p).1 ho) hp]
  · simp [Ty.upToOwners, assignOwn, ho]

/-- An assignment of types without unknowns makes no unknowns. -/
theorem isOpen_assignOwn {s : GenericParameter → Ty} (hs : ∀ p ∈ d.parameters, (s p).isOpen = false) {u : Ty}
    (hu : u.isOpen = false) : (u.substitute (d.assignOwn s)).isOpen = false := by
  rw [Ty.isOpen_eq_false_iff]
  intro q hq
  obtain ⟨p, hp, hq⟩ := Ty.contains_substitute hq
  by_cases ho : d.owns p = true
  · rw [assignOwn, if_pos ho] at hq
    exact (Ty.isOpen_eq_false_iff _).1 (hs p ((d.owns_iff p).1 ho)) q hq
  · rw [assignOwn, if_neg ho] at hq
    obtain rfl : p = q := by simpa [Ty.contains] using hq
    exact (Ty.isOpen_eq_false_iff u).1 hu p hp

/-! ## What a result is -/

/-- The constraints of an accepted call are consistent. -/
theorem consistent_of_checkGenericCall_ok (h : d.checkGenericCall args = .ok ()) :
    Consistent ((d.instantiate callSite).constraints args) := by
  obtain ⟨-, hinst⟩ := (d.checkGenericCall_ok_iff args).1 h
  obtain ⟨-, -, -, hc⟩ := (checkInstance_ok_iff _ args).1 hinst
  exact hc

/-- The generic parameters of the instance that its result needs are the unknowns of those in the declared result. -/
theorem mem_needed_iff (hd : d.Closed) (q : GenericParameter) :
    (q ∈ (d.instantiate callSite).parameters.filter fun p => (d.instantiate callSite).ret.contains (.parameter p)) ↔
      ∃ p ∈ d.parameters, d.ret.contains (.parameter p) = true ∧ q = p.unknownAt callSite := by
  rw [List.mem_filter, instantiate_parameters, instantiate_ret, List.mem_map]
  constructor
  · rintro ⟨⟨p, -, rfl⟩, hp⟩
    exact unknown_of_instance hd.ret hp rfl
  · rintro ⟨p, hp, hret, rfl⟩
    refine ⟨⟨p, hp, rfl⟩, ?_⟩
    have hcontains := Ty.contains_substitute_of_contains hret (d.unknownOf? callSite)
    simpa [Ty.substitute, unknownOf?, (d.owns_iff p).2 hp] using hcontains

/-- Types are found for several generic parameters when one is found for each. -/
theorem exists_solveAll {partition : Partition} {ps : List GenericParameter}
    (h : ∀ p ∈ ps, ∃ t, d.solve args partition p = .ok (some t)) : ∃ found, d.solveAll args partition ps = .ok (some found) := by
  induction ps with
  | nil => exact ⟨[], rfl⟩
  | cons p ps ih =>
    obtain ⟨⟨t, ht⟩, hps⟩ := List.forall_mem_cons.1 h
    obtain ⟨found, hfound⟩ := ih hps
    refine ⟨(p, t) :: found, ?_⟩
    rw [solveAll, ht]
    simp only [hfound, bind, Except.bind, pure, Except.pure]

/-- A call has a known result when a chain of constraints leads from every generic parameter of the declared result to a type
without unknowns. -/
theorem exists_resultType (hd : d.Closed) (hlen : d.arity = args.length)
    (hc : Consistent ((d.instantiate callSite).constraints args))
    (h : ∀ p ∈ d.parameters, d.ret.contains (.parameter p) = true →
      ∃ t, t.isOpen = false ∧ Linked ((d.instantiate callSite).constraints args) (.parameter (p.unknownAt callSite)) t) :
    ∃ t, d.resultType args = .ok (some t) := by
  have hsolve : ∀ q ∈ (d.instantiate callSite).parameters.filter fun p => (d.instantiate callSite).ret.contains (.parameter p),
      ∃ t, (d.instantiate callSite).solve args (.ofConstraints ((d.instantiate callSite).constraints args)) q = .ok (some t) := by
    intro q hq
    obtain ⟨p, hp, hret, rfl⟩ := (mem_needed_iff hd q).1 hq
    obtain ⟨t, ht, hl⟩ := h p hp hret
    obtain ⟨u, hu, -, -⟩ := solve_of_closed _ args hc hl ht
    exact ⟨u, hu⟩
  obtain ⟨found, hfound⟩ := exists_solveAll hsolve
  unfold resultType checkCount
  rw [if_pos hlen]
  by_cases hg : d.ret.isGeneric = true
  · refine ⟨(d.instantiate callSite).ret.substitute fun p => found.lookup p, ?_⟩
    simp only [hg, resultOfInstance, hfound, bind, Except.bind, pure, Except.pure, if_true]
  · exact ⟨d.ret, by simp only [hg, bind, Except.bind, pure, Except.pure]; rfl⟩

/-- The known result of a call is the declared result under the types that chains of constraints lead to. -/
theorem exists_assignment_of_resultType (hd : d.Closed) {t : Ty} (h : d.resultType args = .ok (some t)) :
    ∃ s : GenericParameter → Ty, t = d.ret.substitute (d.assignOwn s) ∧
      ∀ p ∈ d.parameters, d.ret.contains (.parameter p) = true → (s p).isOpen = false ∧
        Linked ((d.instantiate callSite).constraints args) (.parameter (p.unknownAt callSite)) (s p) := by
  rw [resultType, bind_eq_ok_iff] at h
  obtain ⟨-, -, h⟩ := h
  split at h
  · rw [resultOfInstance, bind_eq_ok_iff] at h
    obtain ⟨_ | found, hfound, h⟩ := h
    · cases h
    obtain rfl := Option.some.inj (Except.ok.inj h)
    -- Each generic parameter of the declared result has a type that was found for its unknown.
    have htype : ∀ p ∈ d.parameters, d.ret.contains (.parameter p) = true → ∃ u, found.lookup (p.unknownAt callSite) = some u ∧
        u.isOpen = false ∧ Linked ((d.instantiate callSite).constraints args) (.parameter (p.unknownAt callSite)) u := by
      intro p hp hret
      obtain ⟨u, hu, hsolve⟩ := (lookup_of_solveAll _ args hfound (p.unknownAt callSite)).1
        ((mem_needed_iff hd _).2 ⟨p, hp, hret, rfl⟩)
      obtain ⟨ho, hl, -⟩ := linked_of_solve _ args hsolve
      exact ⟨u, hu, ho, hl⟩
    refine ⟨fun p => (found.lookup (p.unknownAt callSite)).getD (.parameter p), ?_, fun p hp hret => ?_⟩
    · rw [instantiate_ret, Ty.substitute_substitute]
      refine Ty.substitute_congr fun p hret => ?_
      by_cases hp : d.owns p = true
      · obtain ⟨u, hu, -, -⟩ := htype p ((d.owns_iff p).1 hp) hret
        simp [unknownOf?, assignOwn, hp, Ty.substitute, hu]
      · have hnot : found.lookup p = none := by
          refine (lookup_of_solveAll _ args hfound p).2 fun hm => ?_
          obtain ⟨q, -, -, rfl⟩ := (mem_needed_iff hd p).1 hm
          have := (Ty.isOpen_eq_false_iff _).1 hd.ret _ hret
          cases this
        simp [unknownOf?, assignOwn, hp, Ty.substitute, hnot]
    · obtain ⟨u, hu, ho, hl⟩ := htype p hp hret
      simp only [hu, Option.getD_some]
      exact ⟨ho, hl⟩
  · rename_i hplain
    obtain rfl := Option.some.inj (Except.ok.inj h)
    have hnone : ∀ p, d.ret.contains (.parameter p) ≠ true := fun p hp => hplain ((Ty.isGeneric_iff _).2 ⟨p, hp⟩)
    refine ⟨.parameter, ?_, fun p _ hp => absurd hp (hnone p)⟩
    rw [Ty.substitute_congr fun p hp => absurd hp (hnone p), Ty.substitute_none]

/-! ## Every solution gives the result -/

/-- What every solution of a call gives a generic parameter is, up to owners, the type without unknowns that a chain of
constraints leads to from it. -/
theorem eraseOwners_eq_of_linked (hd : d.Closed)
    (hsite : ∀ a, some a ∈ args → ∀ p, a.contains (.parameter p) = true → p.site ≠ some callSite)
    {s t : GenericParameter → Ty}
    (h : ∀ (i : Nat) (u a : Ty), d.types[i]? = some u → args[i]? = some (some a) →
      (a.substitute (assignUnknowns t)).implements (u.substitute (d.assignOwn s)) = true)
    {p : GenericParameter} (hp : p ∈ d.parameters) {u : Ty} (hu : u.isOpen = false)
    (hl : Linked ((d.instantiate callSite).constraints args) (.parameter (p.unknownAt callSite)) u) :
    u.eraseOwners = (s p).eraseOwners := by
  have heq := substitute_eq_of_linked (substitute_eq_of_implements hd hsite h) hl
  rw [substitute_of_closed (upToOwners_assignCall s t) hu, Ty.substitute_upToOwners, Ty.substitute,
    assignCall_unknownAt s t (hd.parameters p hp)] at heq
  exact heq.symm

/-- The unknowns of generic functions that are passed are no unknowns of the call. -/
theorem site_ne_callSite
    (hsite : ∀ a, some a ∈ args → ∀ p, a.contains (.parameter p) = true → p.isUnknown = true →
      ∃ j, p.site = some (Scope.argumentSite j))
    (a : Ty) (ha : some a ∈ args) (p : GenericParameter) (hp : a.contains (.parameter p) = true) : p.site ≠ some callSite := by
  intro hcall
  obtain ⟨j, hj⟩ := hsite a ha p hp (by simp [GenericParameter.isUnknown, hcall])
  exact Scope.argumentSite_ne_callSite j (Option.some.inj (hj.symm.trans hcall))

/-- An accepted call of a generic declaration has a result, an unknown result, or none because nothing binds a generic parameter
of the declared result. A result is principal: whichever types for the generic parameters, and for the unknowns of generic
functions that are passed, make every argument of known type implement its parameter's type, the declared result under them is
compatible with it. -/
theorem resultType_principal {d : Declaration} {args : ArgTypes} (hd : d.Closed) (hg : d.isGeneric = true)
    (hsite : ∀ a, some a ∈ args → ∀ p, a.contains (.parameter p) = true → p.isUnknown = true →
      ∃ j, p.site = some (Scope.argumentSite j))
    (h : d.checkGenericCall args = .ok ()) :
    (∃ r, d.resultType args = .ok (some r) ∧ ∀ s t : GenericParameter → Ty,
      (∀ (i : Nat) (u a : Ty), d.types[i]? = some u → args[i]? = some (some a) →
        (a.substitute (assignUnknowns t)).implements (u.substitute (d.assignOwn s)) = true) →
      r.isCompatibleWith (d.ret.substitute (d.assignOwn s)) = true) ∨
    d.resultType args = .ok none ∨ d.resultType args = .error (.noCommonType []) := by
  cases hr : d.resultType args with
  | error e =>
    have hcall : d.checkCall args = .ok () := by rw [checkCall, if_pos hg, h]
    exact .inr (.inr (by rw [resultType_error_of_checkCall_ok hg hcall hr]))
  | ok o =>
    cases o with
    | none => exact .inr (.inl rfl)
    | some r =>
      refine .inl ⟨r, rfl, fun s t hst => ?_⟩
      obtain ⟨s₀, rfl, hs₀⟩ := exists_assignment_of_resultType hd hr
      rw [Ty.isCompatibleWith_iff]
      refine eraseOwners_assignOwn_congr fun p hp hret => ?_
      obtain ⟨ho, hl⟩ := hs₀ p hp hret
      exact eraseOwners_eq_of_linked hd (site_ne_callSite hsite) hst hp ho hl

/-- A vector of the `T` of an enclosing function, and the generic identity as it is passed second. -/
def identityArgs : ArgTypes :=
  [some (.applied "Vector" [.parameter (.declared "T" "wrap")]),
    some (.function [.parameter ⟨"T", "identity", some "arg1"⟩] (.parameter ⟨"T", "identity", some "arg1"⟩))]

/-- Mapping the identity over the vector gives such a vector, whichever types show that it may be done. -/
theorem map_identity_principal :
    mapSignature.checkGenericCall identityArgs = .ok () ∧
      mapSignature.resultType identityArgs = .ok (some (.applied "Vector" [.parameter (.declared "T" "wrap")])) ∧
      ∀ s t : GenericParameter → Ty,
        (∀ (i : Nat) (u a : Ty), mapSignature.types[i]? = some u → identityArgs[i]? = some (some a) →
          (a.substitute (assignUnknowns t)).implements (u.substitute (mapSignature.assignOwn s)) = true) →
        (Ty.applied "Vector" [.parameter (.declared "T" "wrap")]).isCompatibleWith
          (mapSignature.ret.substitute (mapSignature.assignOwn s)) = true := by
  have hcheck : mapSignature.checkGenericCall identityArgs = .ok () := by cbv
  have hresult : mapSignature.resultType identityArgs = .ok (some (.applied "Vector" [.parameter (.declared "T" "wrap")])) := by
    cbv
  have hsite : ∀ a, some a ∈ identityArgs → ∀ p, a.contains (.parameter p) = true → p.isUnknown = true →
      ∃ j, p.site = some (Scope.argumentSite j) := by
    intro a ha p hp hu
    rcases List.mem_cons.1 ha with ha | ha
    · obtain rfl := Option.some.inj ha
      obtain rfl : GenericParameter.declared "T" "wrap" = p := by simpa [Ty.contains] using hp
      cases hu
    · obtain rfl := Option.some.inj (List.mem_singleton.1 ha)
      obtain rfl : (⟨"T", "identity", some "arg1"⟩ : GenericParameter) = p := by simpa [Ty.contains] using hp
      exact ⟨1, rfl⟩
  refine ⟨hcheck, hresult, ?_⟩
  rcases resultType_principal ⟨by decide, by decide, by decide⟩ rfl hsite hcheck with ⟨r, hr, hprincipal⟩ | hr | hr
  · rw [hresult] at hr
    obtain rfl := Option.some.inj (Except.ok.inj hr)
    exact hprincipal
  · rw [hresult] at hr
    cases hr
  · rw [hresult] at hr
    cases hr

/-! ## Arguments under an assignment -/

/-- The types of the parameters under an assignment, as the types of arguments. -/
def argsUnder (d : Declaration) (s : GenericParameter → Ty) : ArgTypes :=
  d.types.map fun u => some (u.substitute (d.assignOwn s))

/-- An argument under an assignment is the type of its parameter under it. -/
theorem argsUnder_eq_some {s : GenericParameter → Ty} {i : Nat} {u a : Ty} (hu : d.types[i]? = some u)
    (ha : (d.argsUnder s)[i]? = some (some a)) : a = u.substitute (d.assignOwn s) := by
  rw [argsUnder, List.getElem?_map, hu] at ha
  exact (Option.some.inj (Option.some.inj ha)).symm

/-- Such arguments link each generic parameter that occurs in a parameter's type to what is assigned to it. -/
theorem linked_argsUnder (hn : d.names.length = d.types.length) (s : GenericParameter → Ty) {p : GenericParameter}
    (hp : p ∈ d.parameters) {u : Ty} (hu : u ∈ d.types) (hup : u.contains (.parameter p) = true) :
    Linked ((d.instantiate callSite).constraints (d.argsUnder s)) (.parameter (p.unknownAt callSite)) (s p) := by
  have ho : d.owns p = true := (d.owns_iff p).2 hp
  obtain ⟨i, hi⟩ := List.getElem?_of_mem hu
  have hlt : i < d.names.length := hn ▸ (List.getElem?_eq_some_iff.1 hi).1
  let a : Passed := ⟨d.names[i], u.substitute (d.unknownOf? callSite), u.substitute (d.assignOwn s)⟩
  have hpassed : a ∈ (d.instantiate callSite).passed (d.argsUnder s) := by
    refine (mem_passed_iff _ _ _).2 ⟨i, ?_, ?_, ?_⟩
    · rw [instantiate_names]
      exact List.getElem?_eq_getElem hlt
    · rw [instantiate_types, List.getElem?_map, hi]
      rfl
    · rw [argsUnder, List.getElem?_map, hi]
      rfl
  have hmeets := Ty.Meets.of_contains hup (d.unknownOf? callSite) (d.assignOwn s)
  have hunknown : (Ty.parameter p).substitute (d.unknownOf? callSite) = .parameter (p.unknownAt callSite) := by
    simp [Ty.substitute, unknownOf?, ho]
  have hassigned : (Ty.parameter p).substitute (d.assignOwn s) = s p := by simp [Ty.substitute, assignOwn, ho]
  rw [hunknown, hassigned] at hmeets
  have hsolved : a.isSolved = true := by
    have hgeneric : a.declared.isGeneric = true := (Ty.isGeneric_iff _).2 ⟨_, hmeets.contains.1⟩
    rw [Passed.isSolved, hgeneric, Bool.true_or]
  have hmem : (p.unknownAt callSite, s p) ∈ a.constraints :=
    (Ty.mem_constraints_iff _ _ _).2 ⟨_, _, hmeets, .inl ⟨rfl, rfl⟩⟩
  exact Linked.of_mem ((mem_constraints_iff _ _ _).2 ⟨a, hpassed, hsolved, hmem⟩)

/-- They link it to no other type without unknowns. -/
theorem eq_of_linked_argsUnder (hd : d.Closed) {s : GenericParameter → Ty} (hs : ∀ p ∈ d.parameters, (s p).isOpen = false)
    {p : GenericParameter} (hp : p ∈ d.parameters) {t : Ty} (ht : t.isOpen = false)
    (hl : Linked ((d.instantiate callSite).constraints (d.argsUnder s)) (.parameter (p.unknownAt callSite)) t) : t = s p := by
  -- With no other unknowns about, the substitution is exact: it leaves a type without unknowns as it is, owners with it.
  have hfix : ∀ {a : Ty}, a.isOpen = false → a.substitute (assignCall s .parameter) = a := by
    intro a ha
    rw [Ty.substitute_congr fun p hp => by rw [assignCall_of_rigid _ _ ((Ty.isOpen_eq_false_iff a).1 ha p hp)],
      Ty.substitute_none]
  have heq := substitute_eq_of_linked (g := assignCall s .parameter) ?_ hl
  · rw [hfix ht, Ty.substitute, assignCall_unknownAt s _ (hd.parameters p hp)] at heq
    exact heq.symm
  · intro i u a hu ha
    obtain ⟨w, hw, rfl⟩ := exists_of_instance_types hu
    have hwo : w.isOpen = false := hd.types w (List.mem_of_getElem? hw)
    rw [argsUnder_eq_some hw ha, instance_assignCall hd s _ hwo, hfix (isOpen_assignOwn hs hwo)]

/-- A call whose arguments have the parameters' types under an assignment of types without unknowns is accepted, and its result is
the declared result under that assignment, provided each generic parameter in the declared result occurs in a parameter's type. -/
theorem resultType_argsUnder {d : Declaration} (hd : d.Closed) (hn : d.names.length = d.types.length)
    (hret : ∀ p ∈ d.parameters, d.ret.contains (.parameter p) = true → ∃ u ∈ d.types, u.contains (.parameter p) = true)
    {s : GenericParameter → Ty} (hs : ∀ p ∈ d.parameters, (s p).isOpen = false) :
    d.checkGenericCall (d.argsUnder s) = .ok () ∧
      d.resultType (d.argsUnder s) = .ok (some (d.ret.substitute (d.assignOwn s))) := by
  have hclosed : ∀ a, some a ∈ d.argsUnder s → a.isOpen = false := by
    intro a ha
    obtain ⟨u, hu, rfl⟩ : ∃ u ∈ d.types, u.substitute (d.assignOwn s) = a := by simpa [argsUnder] using ha
    exact isOpen_assignOwn hs (hd.types u hu)
  have hlen : (d.argsUnder s).length = d.arity := by rw [argsUnder, List.length_map]; rfl
  have hcheck : d.checkGenericCall (d.argsUnder s) = .ok () := by
    refine checkGenericCall_ok_of_solution (s := s) (t := .parameter) hd hlen (fun a ha p hp hsite => ?_) fun i u a hu ha => ?_
    · have := (Ty.isOpen_eq_false_iff a).1 (hclosed a ha) p hp
      simp [GenericParameter.isUnknown, hsite] at this
    · rw [substitute_assignUnknowns (hclosed a (List.mem_of_getElem? ha)), argsUnder_eq_some hu ha, Ty.implements_iff]
  have hc := consistent_of_checkGenericCall_ok hcheck
  have hlinked : ∀ p ∈ d.parameters, d.ret.contains (.parameter p) = true → ∃ t, t.isOpen = false ∧
      Linked ((d.instantiate callSite).constraints (d.argsUnder s)) (.parameter (p.unknownAt callSite)) t := by
    intro p hp hpr
    obtain ⟨u, hu, hup⟩ := hret p hp hpr
    exact ⟨s p, hs p hp, linked_argsUnder hn s hp hu hup⟩
  obtain ⟨t, ht⟩ := exists_resultType hd hlen.symm hc hlinked
  obtain ⟨s₀, rfl, hs₀⟩ := exists_assignment_of_resultType hd ht
  have hresult : d.ret.substitute (d.assignOwn s₀) = d.ret.substitute (d.assignOwn s) := by
    refine substitute_assignOwn_congr fun p hp hpr => ?_
    obtain ⟨ho, hl⟩ := hs₀ p hp hpr
    exact eq_of_linked_argsUnder hd hs hp ho hl
  exact ⟨hcheck, hresult ▸ ht⟩

/-- The `U` of `map` itself for `T`, and the `T` of an enclosing function for `U`. -/
def crossedTypes (p : GenericParameter) : Ty :=
  if p = .declared "T" "map" then .parameter (.declared "U" "map") else .parameter (.declared "T" "wrap")

/-- A call of `map` whose arguments are its parameters' types with `U` and `T` crossed has the declared result under that
assignment. -/
theorem map_crossed_result :
    mapSignature.argsUnder crossedTypes = [some (.applied "Vector" [.parameter (.declared "U" "map")]),
        some (.function [.parameter (.declared "U" "map")] (.parameter (.declared "T" "wrap")))] ∧
      mapSignature.checkGenericCall (mapSignature.argsUnder crossedTypes) = .ok () ∧
      mapSignature.resultType (mapSignature.argsUnder crossedTypes) =
        .ok (some (mapSignature.ret.substitute (mapSignature.assignOwn crossedTypes))) :=
  ⟨by cbv, resultType_argsUnder ⟨by decide, by decide, by decide⟩ rfl (by decide) (by decide)⟩

end Declaration

end Gradual
