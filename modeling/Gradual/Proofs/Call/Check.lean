import Gradual.Call.Check
import Gradual.Proofs.Call.Constraint
import Gradual.Proofs.Call.Linked

/-!
# What the check of a call asks

The four stages of the check of a call against an instantiated declaration, each as a statement about the arguments of known type:
those without unknowns on either side fit as they are, the shapes of the others match, what arguments bind a generic parameter to
directly agrees, and the constraints are consistent (`checkInstance_ok_iff`). A failed check tells which stage failed, and at what
(`checkInstance_error`).
-/

namespace Gradual.Declaration

variable (d : Declaration) (args : ArgTypes)

/-! ## Arguments of known type -/

/-- An argument is passed when it, its parameter's name and its parameter's type stand at one place. -/
theorem mem_passed_iff (p : Passed) :
    p ∈ d.passed args ↔ ∃ i : Nat, d.names[i]? = some p.parameter ∧ d.types[i]? = some p.declared ∧
      args[i]? = some (some p.argument) := by
  unfold passed
  rw [List.mem_filterMap]
  constructor
  · rintro ⟨⟨⟨n, t⟩, a⟩, hm, hp⟩
    obtain ⟨i, hi⟩ := List.getElem?_of_mem hm
    rw [List.getElem?_zip_eq_some, List.getElem?_zip_eq_some] at hi
    obtain ⟨b, rfl, rfl⟩ := Option.map_eq_some_iff.1 hp
    exact ⟨i, hi.1.1, hi.1.2, hi.2⟩
  · rintro ⟨i, hn, ht, ha⟩
    refine ⟨((p.parameter, p.declared), some p.argument), List.mem_of_getElem? (i := i) ?_, rfl⟩
    exact List.getElem?_zip_eq_some.2 ⟨List.getElem?_zip_eq_some.2 ⟨hn, ht⟩, ha⟩

/-- The constraints of a call are those of its arguments that take part in solving. -/
theorem mem_constraints_iff (c : Constraint) :
    c ∈ d.constraints args ↔ ∃ p ∈ d.passed args, p.isSolved = true ∧ c ∈ p.constraints := by
  simp [constraints, and_assoc]

/-! ## The stages -/

/-- The arguments that take no part in solving must fit as they are. -/
theorem checkPlain_ok_iff :
    d.checkPlain args = .ok () ↔ ∀ p ∈ d.passed args, p.isSolved = false → p.fits = true := by
  unfold checkPlain
  split
  · rename_i p hp
    have hm := List.mem_of_find?_eq_some hp
    have hs := List.find?_some hp
    simp only [Bool.and_eq_true, Bool.not_eq_true'] at hs
    refine ⟨(fun h => nomatch h), fun h => ?_⟩
    rw [h p hm hs.1] at hs
    exact absurd hs.2 (by decide)
  · rename_i hn
    simp only [List.find?_eq_none, Bool.and_eq_true, Bool.not_eq_true', not_and, Bool.not_eq_false] at hn
    exact ⟨fun _ => hn, fun _ => rfl⟩

/-- The shapes of the arguments that take part in solving must match. -/
theorem checkShapes_ok_iff :
    d.checkShapes args = .ok () ↔
      ∀ p ∈ d.passed args, p.isSolved = true → Ty.matchShape p.parameter p.declared p.argument = .ok () := by
  unfold checkShapes
  rw [forM_eq_ok_iff]
  simp

/-- An argument binds a generic parameter directly to a type: its declared type contains the parameter, and the two meet. -/
def Binds (p : GenericParameter) (t : Ty) : Prop :=
  ∃ (i : Nat) (u a : Ty), d.types[i]? = some u ∧ args[i]? = some (some a) ∧ u.contains (.parameter p) = true ∧
    (p, t) ∈ u.constraints a

/-- The positions of a generic parameter are those of the types that contain it. -/
theorem mem_positionsOf_iff (p : GenericParameter) (i : Nat) :
    i ∈ d.positionsOf p ↔ ∃ u, d.types[i]? = some u ∧ u.contains (.parameter p) = true := by
  simp only [positionsOf, List.mem_filter, List.mem_range, Option.any_eq_true]
  constructor
  · exact fun h => h.2
  · rintro ⟨u, hu, hc⟩
    exact ⟨(List.getElem?_eq_some_iff.1 hu).1, u, hu, hc⟩

/-- The types at the positions of a generic parameter are those that arguments bind it to. -/
theorem mem_bindings_iff (p : GenericParameter) (t : Ty) :
    t ∈ d.bindings args p (d.positionsOf p) ↔ d.Binds args p t := by
  simp only [bindings, List.mem_map, List.mem_filter, List.mem_flatMap, mem_positionsOf_iff, decide_eq_true_eq]
  constructor
  · rintro ⟨c, ⟨⟨i, ⟨u, hu, hc⟩, hm⟩, rfl⟩, rfl⟩
    rw [hu] at hm
    split at hm
    · rename_i u' a h₁ h₂
      rw [Option.some.injEq] at h₁
      exact ⟨i, u, a, hu, h₂, hc, h₁ ▸ hm⟩
    · simp at hm
  · rintro ⟨i, u, a, hu, ha, hc, hm⟩
    exact ⟨(p, t), ⟨⟨i, ⟨u, hu, hc⟩, by simpa [hu, ha] using hm⟩, rfl⟩, rfl⟩

/-- The types without unknowns that arguments bind a generic parameter to directly must be equal up to owners. -/
theorem checkBindings_ok_iff :
    d.checkBindings args = .ok () ↔ ∀ p ∈ d.parameters, ∀ t u, d.Binds args p t → d.Binds args p u →
      t.isOpen = false → u.isOpen = false → t.eraseOwners = u.eraseOwners := by
  unfold checkBindings
  rw [forM_eq_ok_iff]
  simp only [positions, List.mem_filter, List.mem_map]
  constructor
  · intro h p hp t u ht hu hto huo
    have hne : (!(d.positionsOf p).isEmpty) = true := by
      obtain ⟨i, w, a, hw, -, hc, -⟩ := ht
      have := (d.mem_positionsOf_iff p i).2 ⟨w, hw, hc⟩
      simp [List.ne_nil_of_mem this]
    have := h (p, d.positionsOf p) ⟨⟨p, hp, rfl⟩, hne⟩
    simp only [ite_eq_ok_iff, Partition.agree_iff, List.mem_filter, Bool.not_eq_true', mem_bindings_iff] at this
    exact this t ⟨ht, hto⟩ u ⟨hu, huo⟩
  · rintro h _ ⟨⟨p, hp, rfl⟩, -⟩
    simp only [ite_eq_ok_iff, Partition.agree_iff, List.mem_filter, Bool.not_eq_true', mem_bindings_iff]
    exact fun t ht u hu => h p hp t u ht.1 hu.1 ht.2 hu.2

/-- Constraints pass the check when they are consistent. -/
theorem checkConsistency_ok_iff (cs : List Constraint) : checkConsistency cs args = .ok () ↔ Consistent cs := by
  unfold checkConsistency
  rw [← Partition.isConsistent_iff, ite_eq_ok_iff]

/-- What the check of a call against an instantiated declaration asks. -/
theorem checkInstance_ok_iff :
    d.checkInstance args = .ok () ↔
      (∀ p ∈ d.passed args, p.isSolved = false → p.fits = true) ∧
      (∀ p ∈ d.passed args, p.isSolved = true → Ty.matchShape p.parameter p.declared p.argument = .ok ()) ∧
      (∀ p ∈ d.parameters, ∀ t u, d.Binds args p t → d.Binds args p u →
        t.isOpen = false → u.isOpen = false → t.eraseOwners = u.eraseOwners) ∧
      Consistent (d.constraints args) := by
  unfold checkInstance
  rw [seq_eq_ok_iff, seq_eq_ok_iff, seq_eq_ok_iff, checkPlain_ok_iff, checkShapes_ok_iff, checkBindings_ok_iff,
    checkConsistency_ok_iff]

/-- The check of a call of a generic declaration succeeds when there are as many arguments as parameters and the check against
the declaration instantiated for the call does. -/
theorem checkGenericCall_ok_iff :
    d.checkGenericCall args = .ok () ↔ d.arity = args.length ∧ (d.instantiate callSite).checkInstance args = .ok () := by
  unfold checkGenericCall checkCount
  rw [seq_eq_ok_iff, mapError_eq_ok_iff, ite_eq_ok_iff]

/-- The check of a call of a plain declaration succeeds when there are as many arguments as parameters and each of known type
fits. -/
theorem checkPlainCall_ok_iff {d : Declaration} {args : ArgTypes} :
    d.checkPlainCall args = .ok () ↔ d.arity = args.length ∧ ∀ p ∈ d.passed args, p.fits = true := by
  unfold checkPlainCall checkCount
  rw [seq_eq_ok_iff, ite_eq_ok_iff]
  refine and_congr_right' ?_
  split
  · rename_i p hp
    have hm := List.mem_of_find?_eq_some hp
    have hf := List.find?_some hp
    refine ⟨(fun h => nomatch h), fun h => ?_⟩
    simp [h p hm] at hf
  · rename_i hn
    simp only [List.find?_eq_none, Bool.not_eq_true', Bool.not_eq_false] at hn
    exact ⟨fun _ => hn, fun _ => rfl⟩

/-! ## Errors -/

variable {d args} {e : CallError}

/-- The first stage fails at an argument that takes no part in solving and does not fit. -/
theorem checkPlain_error (h : d.checkPlain args = .error e) :
    ∃ p ∈ d.passed args, p.isSolved = false ∧ p.fits = false ∧ e = p.mismatch := by
  unfold checkPlain at h
  split at h
  · rename_i p hp
    have hs := List.find?_some hp
    simp only [Bool.and_eq_true, Bool.not_eq_true'] at hs
    exact ⟨p, List.mem_of_find?_eq_some hp, hs.1, hs.2, (Except.error.inj h).symm⟩
  · cases h

/-- The second stage fails at an argument that takes part in solving and whose shape does not match. -/
theorem checkShapes_error (h : d.checkShapes args = .error e) :
    ∃ p ∈ d.passed args, p.isSolved = true ∧ Ty.matchShape p.parameter p.declared p.argument = .error e := by
  obtain ⟨p, hp, he⟩ := exists_mem_of_forM_eq_error h
  obtain ⟨hp, hs⟩ := List.mem_filter.1 hp
  exact ⟨p, hp, hs, he⟩

/-- The third stage fails at a generic parameter, with all the types without unknowns that arguments bind it to directly, each
once; two of them are not equal up to owners. -/
theorem checkBindings_error (h : d.checkBindings args = .error e) :
    ∃ p ∈ d.parameters, ∃ ts : List Ty, e = .inconsistent p ts ∧ ts.Nodup ∧
      (∀ t, t ∈ ts ↔ d.Binds args p t ∧ t.isOpen = false) ∧ ∃ t ∈ ts, ∃ u ∈ ts, t.eraseOwners ≠ u.eraseOwners := by
  obtain ⟨⟨p, is⟩, hm, he⟩ := exists_mem_of_forM_eq_error h
  simp only [positions, List.mem_filter, List.mem_map, Prod.mk.injEq] at hm
  obtain ⟨⟨q, hq, rfl, rfl⟩, -⟩ := hm
  dsimp only at he
  split at he
  · cases he
  rename_i hagree
  simp only [Partition.agree_iff, not_forall] at hagree
  obtain ⟨t, ht, u, hu, htu⟩ := hagree
  obtain ⟨hmem, hnodup⟩ := Ty.distinct_spec ((d.bindings args q (d.positionsOf q)).filter (!·.isOpen))
  refine ⟨q, hq, _, (Except.error.inj he).symm, hnodup, fun t => ?_, t, (hmem t).2 ht, u, (hmem u).2 hu, htu⟩
  rw [hmem, List.mem_filter, mem_bindings_iff, Bool.not_eq_true']

/-- The ways in which the check of a call against an instantiated declaration fails. -/
theorem checkInstance_error (h : d.checkInstance args = .error e) :
    (∃ p ∈ d.passed args, p.isSolved = false ∧ p.fits = false ∧ e = p.mismatch) ∨
    (∃ p ∈ d.passed args, p.isSolved = true ∧ Ty.matchShape p.parameter p.declared p.argument = .error e) ∨
    (∃ p ∈ d.parameters, ∃ ts : List Ty, e = .inconsistent p ts ∧ ts.Nodup ∧
      (∀ t, t ∈ ts ↔ d.Binds args p t ∧ t.isOpen = false) ∧ ∃ t ∈ ts, ∃ u ∈ ts, t.eraseOwners ≠ u.eraseOwners) ∨
    e = .unsolved args := by
  unfold checkInstance checkConsistency at h
  simp only [bind_eq_error_iff] at h
  rcases h with h | ⟨_, -, h | ⟨_, -, h | ⟨_, -, h⟩⟩⟩
  · exact Or.inl (checkPlain_error h)
  · exact Or.inr (Or.inl (checkShapes_error h))
  · exact Or.inr (Or.inr (Or.inl (checkBindings_error h)))
  · split at h
    · cases h
    · exact Or.inr (Or.inr (Or.inr (Except.error.inj h).symm))

/-- The check of a call of a generic declaration fails for the number of arguments, or as the check against the declaration
instantiated for the call does. -/
theorem checkGenericCall_error (h : d.checkGenericCall args = .error e) :
    (d.arity ≠ args.length ∧ e = .argumentCount d.arity args.length) ∨
    ∃ e', (d.instantiate callSite).checkInstance args = .error e' ∧ e = declaredError e' := by
  unfold checkGenericCall checkCount at h
  rw [bind_eq_error_iff] at h
  rcases h with h | ⟨_, -, h⟩
  · split at h
    · cases h
    · rename_i hn
      exact Or.inl ⟨hn, (Except.error.inj h).symm⟩
  · obtain ⟨e', he', rfl⟩ := mapError_eq_error_iff.1 h
    exact Or.inr ⟨e', he', rfl⟩

end Gradual.Declaration
