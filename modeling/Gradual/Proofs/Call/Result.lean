import Gradual.Call.Result
import Gradual.Proofs.Call.Check
import Gradual.Proofs.Types.Instance

/-!
# What the constraints of a call say about its result

The type that the constraints of a call give a generic parameter is a type without unknowns that a chain of constraints leads to
from it, where all such types are equal up to owners; it is unknown when a chain leads to a type that is no unknown, or to a
generic parameter at whose position an argument of unknown type stands; and otherwise there is none (`solve_outcome`). So an
accepted call fails to have a result only because nothing binds a generic parameter (`resultType_error_of_checkCall_ok`), and a
result mentions no unknowns (`isOpen_resultType`).
-/

namespace Gradual.Declaration

variable (d : Declaration) (args : ArgTypes)

/-- The positions listed for a generic parameter of a declaration are those of the types that mention it. -/
theorem mem_lookup_positions_iff (p : GenericParameter) (i : Nat) :
    i ∈ (d.positions.lookup p).getD [] ↔ p ∈ d.parameters ∧ i ∈ d.positionsOf p := by
  unfold positions
  induction d.parameters with
  | nil => simp
  | cons q qs ih =>
    rw [List.map_cons, List.filter_cons, List.mem_cons]
    by_cases hq : d.positionsOf q = []
    · simp only [hq, List.isEmpty_nil, Bool.not_true, Bool.false_eq_true, if_false, ih]
      constructor
      · exact fun h => ⟨Or.inr h.1, h.2⟩
      · rintro ⟨rfl | h, hi⟩
        · simp [hq] at hi
        · exact ⟨h, hi⟩
    · have hne : (!(d.positionsOf q).isEmpty) = true := by simpa using hq
      rw [if_pos hne, lookup_cons_ite]
      by_cases hp : p = q
      · simp [hp]
      · simp [hp, ih]

/-- An argument of unknown type stands at the place of a parameter whose type mentions `p`, a generic parameter of `d`. -/
def Fed (p : GenericParameter) : Prop :=
  p ∈ d.parameters ∧ ∃ (i : Nat) (u : Ty), d.types[i]? = some u ∧ u.contains (.parameter p) = true ∧ args[i]? = some none

/-- A class is fed by an unknown argument when a parameter in it is. -/
theorem fedByUnknown_iff (members : List Ty) :
    d.fedByUnknown args members = true ↔ ∃ p, .parameter p ∈ members ∧ d.Fed args p := by
  unfold fedByUnknown Fed
  rw [List.any_eq_true]
  constructor
  · rintro ⟨t, ht, h⟩
    cases t with
    | parameter p =>
      simp only [Ty.parameter?, List.any_eq_true, mem_lookup_positions_iff, mem_positionsOf_iff, decide_eq_true_eq] at h
      obtain ⟨i, ⟨hp, u, hu, hc⟩, hi⟩ := h
      exact ⟨p, ht, hp, i, u, hu, hc, hi⟩
    | _ => simp [Ty.parameter?] at h
  · rintro ⟨p, hp, hmem, i, u, hu, hc, hi⟩
    refine ⟨.parameter p, hp, ?_⟩
    simp only [Ty.parameter?, List.any_eq_true, mem_lookup_positions_iff, mem_positionsOf_iff, decide_eq_true_eq]
    exact ⟨i, ⟨hmem, u, hu, hc⟩, hi⟩

/-- The members of a class that are no unknowns and mention none are those that mention none. -/
theorem mem_closed_iff (cs : List Constraint) (p : GenericParameter) (t : Ty) :
    t ∈ (((Partition.ofConstraints cs).classOf (.parameter p)).filter (!·.isUnknown)).filter (!·.isOpen) ↔
      Linked cs (.parameter p) t ∧ t.isOpen = false := by
  rw [List.mem_filter, List.mem_filter, Partition.mem_classOf_iff, Bool.not_eq_true', Bool.not_eq_true']
  constructor
  · exact fun h => ⟨h.1.1, h.2⟩
  · rintro ⟨hl, ho⟩
    cases hu : t.isUnknown with
    | false => exact ⟨⟨hl, rfl⟩, ho⟩
    | true =>
      rw [Ty.isOpen_of_isUnknown hu] at ho
      cases ho

/-- What constraints give a generic parameter. It has a type where chains lead to types without unknowns that are all equal up to
owners, and no common type where they are not. Where every chain leads to a type with unknowns its type is unknown, if a chain
leads to a type that is no unknown or to a generic parameter at whose position an argument of unknown type stands, and otherwise
it has none. -/
theorem solve_outcome (cs : List Constraint) (p : GenericParameter) :
    (∃ t, d.solve args (.ofConstraints cs) p = .ok (some t) ∧ t.isOpen = false ∧ Linked cs (.parameter p) t ∧
      ∀ a, Linked cs (.parameter p) a → a.isOpen = false → a.eraseOwners = t.eraseOwners) ∨
    (∃ ts, d.solve args (.ofConstraints cs) p = .error (.noCommonType ts) ∧
      (∀ t ∈ ts, Linked cs (.parameter p) t ∧ t.isOpen = false) ∧ ∃ a ∈ ts, ∃ b ∈ ts, a.eraseOwners ≠ b.eraseOwners) ∨
    ((∀ t, Linked cs (.parameter p) t → t.isOpen = true) ∧ d.solve args (.ofConstraints cs) p = .ok none ∧
      ((∃ q, Linked cs (.parameter p) (.parameter q) ∧ d.Fed args q) ∨ ∃ t, Linked cs (.parameter p) t ∧ t.isUnknown = false)) ∨
    ((∀ t, Linked cs (.parameter p) t → t.isOpen = true) ∧ d.solve args (.ofConstraints cs) p = .error (.noCommonType []) ∧
      (∀ t, Linked cs (.parameter p) t → t.isUnknown = true) ∧
      ∀ q, Linked cs (.parameter p) (.parameter q) → ¬d.Fed args q) := by
  have hclosed := mem_closed_iff cs p
  have hrigid : ∀ t, t ∈ ((Partition.ofConstraints cs).classOf (.parameter p)).filter (!·.isUnknown) ↔
      Linked cs (.parameter p) t ∧ t.isUnknown = false := by
    intro t
    rw [List.mem_filter, Partition.mem_classOf_iff, Bool.not_eq_true']
  have hfed := d.fedByUnknown_iff args ((Partition.ofConstraints cs).classOf (.parameter p))
  simp only [Partition.mem_classOf_iff] at hfed
  unfold solve
  dsimp only
  split
  · rename_i hnil
    have hopen : ∀ t, Linked cs (.parameter p) t → t.isOpen = true := by
      intro t ht
      by_contra ho
      have hm := (hclosed t).2 ⟨ht, Bool.eq_false_iff.2 ho⟩
      rw [hnil] at hm
      cases hm
    refine Or.inr (Or.inr ?_)
    split
    · rename_i hcond
      refine Or.inl ⟨hopen, rfl, ?_⟩
      rcases Bool.or_eq_true_iff.1 hcond with hf | hr
      · exact Or.inl (hfed.1 hf)
      · rw [Bool.not_eq_true', List.isEmpty_eq_false_iff_exists_mem] at hr
        obtain ⟨t, ht⟩ := hr
        exact Or.inr ⟨t, (hrigid t).1 ht⟩
    · rename_i hcond
      rw [Bool.or_eq_true_iff, not_or, Bool.not_eq_true', Bool.not_eq_false, List.isEmpty_iff] at hcond
      refine Or.inr ⟨hopen, rfl, fun t ht => ?_, fun q hq hf => hcond.1 (hfed.2 ⟨q, hq, hf⟩)⟩
      by_contra hu
      have hm := (hrigid t).2 ⟨ht, Bool.eq_false_iff.2 hu⟩
      rw [hcond.2] at hm
      cases hm
  · rename_i t ts hcons
    have ht : t ∈ t :: ts := List.mem_cons_self
    rw [← hcons] at ht
    by_cases hagree :
        Ty.agree ((((Partition.ofConstraints cs).classOf (.parameter p)).filter (!·.isUnknown)).filter (!·.isOpen)) = true
    · rw [if_pos hagree]
      rw [Partition.agree_iff] at hagree
      obtain ⟨hl, ho⟩ := (hclosed t).1 ht
      exact Or.inl ⟨t, rfl, ho, hl, fun a ha hao => hagree a ((hclosed a).2 ⟨ha, hao⟩) t ht⟩
    · rw [if_neg hagree]
      rw [Partition.agree_iff] at hagree
      simp only [not_forall] at hagree
      obtain ⟨a, ha, b, hb, hab⟩ := hagree
      obtain ⟨hmem, -⟩ := Ty.distinct_spec
        ((((Partition.ofConstraints cs).classOf (.parameter p)).filter (!·.isUnknown)).filter (!·.isOpen))
      refine Or.inr (Or.inl ⟨_, rfl, fun t ht => (hclosed t).1 ((hmem t).1 ht), a, (hmem a).2 ha, b, (hmem b).2 hb, hab⟩)

/-- Where chains of constraints lead to types without unknowns, and these are all equal up to owners, the generic parameter has
such a type. -/
theorem solve_of_agreeing {cs : List Constraint} {p : GenericParameter} {t : Ty} (hl : Linked cs (.parameter p) t)
    (ht : t.isOpen = false)
    (hc : ∀ a, Linked cs (.parameter p) a → a.isOpen = false → a.eraseOwners = t.eraseOwners) :
    ∃ u, d.solve args (.ofConstraints cs) p = .ok (some u) ∧ u.isOpen = false ∧ Linked cs (.parameter p) u := by
  rcases d.solve_outcome args cs p with ⟨u, hu, ho, hlu, -⟩ | ⟨ts, -, hts, a, ha, b, hb, hab⟩ | ⟨hopen, -⟩ | ⟨hopen, -⟩
  · exact ⟨u, hu, ho, hlu⟩
  · rw [hc a (hts a ha).1 (hts a ha).2, hc b (hts b hb).1 (hts b hb).2] at hab
    exact absurd rfl hab
  · rw [hopen t hl] at ht
    cases ht
  · rw [hopen t hl] at ht
    cases ht

/-- Where a chain of consistent constraints leads to a type without unknowns, the generic parameter has such a type. -/
theorem solve_of_closed {cs : List Constraint} (hc : Consistent cs) {p : GenericParameter} {t : Ty}
    (hl : Linked cs (.parameter p) t) (ht : t.isOpen = false) :
    ∃ u, d.solve args (.ofConstraints cs) p = .ok (some u) ∧ u.isOpen = false ∧ Linked cs (.parameter p) u :=
  d.solve_of_agreeing args hl ht fun a ha hao => hc a t (ha.symm.trans hl) hao ht

/-- Where every chain of constraints leads to a type with unknowns, the generic parameter has no known type: its type is unknown,
or it has none. -/
theorem solve_of_open {cs : List Constraint} {p : GenericParameter} (hopen : ∀ t, Linked cs (.parameter p) t → t.isOpen = true) :
    (d.solve args (.ofConstraints cs) p = .ok none ∧
      ((∃ q, Linked cs (.parameter p) (.parameter q) ∧ d.Fed args q) ∨ ∃ t, Linked cs (.parameter p) t ∧ t.isUnknown = false)) ∨
    (d.solve args (.ofConstraints cs) p = .error (.noCommonType []) ∧ (∀ t, Linked cs (.parameter p) t → t.isUnknown = true) ∧
      ∀ q, Linked cs (.parameter p) (.parameter q) → ¬d.Fed args q) := by
  rcases d.solve_outcome args cs p with ⟨t, -, ho, hl, -⟩ | ⟨ts, -, hts, a, ha, -⟩ | ⟨-, h⟩ | ⟨-, h⟩
  · rw [hopen t hl] at ho
    cases ho
  · have ho := (hts a ha).2
    rw [hopen a (hts a ha).1] at ho
    cases ho
  · exact Or.inl h
  · exact Or.inr h

/-- The type of a generic parameter is one that a chain of constraints leads to, and all types without unknowns that chains lead
to are equal to it up to owners. -/
theorem linked_of_solve {cs : List Constraint} {p : GenericParameter} {t : Ty}
    (h : d.solve args (.ofConstraints cs) p = .ok (some t)) :
    t.isOpen = false ∧ Linked cs (.parameter p) t ∧
      ∀ a, Linked cs (.parameter p) a → a.isOpen = false → a.eraseOwners = t.eraseOwners := by
  rcases d.solve_outcome args cs p with ⟨u, hu, hspec⟩ | ⟨ts, hts, -⟩ | ⟨-, hn, -⟩ | ⟨-, he, -⟩
  · rw [h] at hu
    obtain rfl := Option.some.inj (Except.ok.inj hu)
    exact hspec
  · rw [h] at hts
    cases hts
  · rw [h] at hn
    cases hn
  · rw [h] at he
    cases he

/-- Where the type of a generic parameter is unknown, every chain of constraints leads to a type with unknowns. -/
theorem isOpen_of_solve_none {cs : List Constraint} {p : GenericParameter}
    (h : d.solve args (.ofConstraints cs) p = .ok none) (t : Ty) (ht : Linked cs (.parameter p) t) : t.isOpen = true := by
  rcases d.solve_outcome args cs p with ⟨u, hu, -⟩ | ⟨ts, hts, -⟩ | ⟨hopen, -⟩ | ⟨hopen, -⟩
  · rw [h] at hu
    cases hu
  · rw [h] at hts
    cases hts
  · exact hopen t ht
  · exact hopen t ht

/-- What consistent constraints give a generic parameter: a type without unknowns, nothing known, or nothing at all. -/
theorem solve_cases {cs : List Constraint} (hc : Consistent cs) (p : GenericParameter) :
    (∃ t, d.solve args (.ofConstraints cs) p = .ok (some t) ∧ t.isOpen = false ∧ Linked cs (.parameter p) t) ∨
      (∀ t, Linked cs (.parameter p) t → t.isOpen = true) ∧
        (d.solve args (.ofConstraints cs) p = .ok none ∨ d.solve args (.ofConstraints cs) p = .error (.noCommonType [])) := by
  by_cases h : ∀ t, Linked cs (.parameter p) t → t.isOpen = true
  · right
    exact ⟨h, (d.solve_of_open args h).imp And.left And.left⟩
  · left
    simp only [not_forall, Bool.not_eq_true] at h
    obtain ⟨t, hl, ht⟩ := h
    exact d.solve_of_closed args hc hl ht

/-- Generic parameters have no types only because one of them has none. -/
theorem exists_solve_error {partition : Partition} {ps : List GenericParameter} {e : CallError}
    (h : d.solveAll args partition ps = .error e) : ∃ p ∈ ps, d.solve args partition p = .error e := by
  induction ps with
  | nil => cases h
  | cons p ps ih =>
    rw [solveAll, bind_eq_error_iff] at h
    rcases h with h | ⟨r, -, h⟩
    · exact ⟨p, List.mem_cons_self, h⟩
    · cases r with
      | none => cases h
      | some t =>
        rcases bind_eq_error_iff.1 h with h | ⟨r, -, h⟩
        · obtain ⟨q, hq, h⟩ := ih h
          exact ⟨q, List.mem_cons_of_mem p hq, h⟩
        · cases r <;> cases h

/-- A call has no result for the number of its arguments, or because a generic parameter of the result has no type. -/
theorem resultType_error {d : Declaration} {args : ArgTypes} {e : CallError} (h : d.resultType args = .error e) :
    (d.arity ≠ args.length ∧ e = .argumentCount d.arity args.length) ∨
    ∃ p, (d.instantiate callSite).solve args (.ofConstraints ((d.instantiate callSite).constraints args)) p = .error e := by
  rw [resultType, checkCount] at h
  rcases bind_eq_error_iff.1 h with h | ⟨-, -, h⟩
  · split at h
    · cases h
    · rename_i hlen
      exact Or.inl ⟨hlen, (Except.error.inj h).symm⟩
  · split at h
    · rw [resultOfInstance, bind_eq_error_iff] at h
      rcases h with h | ⟨r, -, h⟩
      · obtain ⟨p, -, hp⟩ := exists_solve_error _ _ h
        exact Or.inr ⟨p, hp⟩
      · cases r <;> cases h
    · cases h

/-- An accepted call has a result unless nothing binds a generic parameter of the result. -/
theorem resultType_error_of_checkCall_ok {d : Declaration} {args : ArgTypes} (hg : d.isGeneric = true)
    (h : d.checkCall args = .ok ()) {e : CallError} (he : d.resultType args = .error e) : e = .noCommonType [] := by
  rw [checkCall, if_pos hg, checkGenericCall_ok_iff, checkInstance_ok_iff] at h
  obtain ⟨hlen, -, -, -, hc⟩ := h
  rcases resultType_error he with ⟨hne, -⟩ | ⟨p, hp⟩
  · exact absurd hlen hne
  rcases solve_cases (d.instantiate callSite) args hc p with ⟨t, ht, -⟩ | ⟨-, ht | ht⟩
  · rw [ht] at hp; cases hp
  · rw [ht] at hp; cases hp
  · rw [ht] at hp; exact (Except.error.inj hp).symm

/-! ## A result mentions no unknowns -/

/-- What a parameter is solved to mentions no unknown. -/
theorem isOpen_of_solve {partition : Partition} {p : GenericParameter} {t : Ty}
    (h : d.solve args partition p = .ok (some t)) : t.isOpen = false := by
  unfold solve at h
  dsimp only at h
  split at h
  · split at h <;> simp at h
  · rename_i u us hcons
    split at h
    · obtain rfl := Option.some.inj (Except.ok.inj h)
      have hm : u ∈ u :: us := List.mem_cons_self
      rw [← hcons, List.mem_filter] at hm
      simpa using hm.2
    · cases h

/-- Where all of several generic parameters have known types, the types found are theirs. -/
theorem lookup_of_solveAll {partition : Partition} {ps : List GenericParameter} {found : List (GenericParameter × Ty)}
    (h : d.solveAll args partition ps = .ok (some found)) (p : GenericParameter) :
    (p ∈ ps → ∃ t, found.lookup p = some t ∧ d.solve args partition p = .ok (some t)) ∧ (p ∉ ps → found.lookup p = none) := by
  induction ps generalizing found with
  | nil =>
    obtain rfl := Option.some.inj (Except.ok.inj h)
    simp
  | cons q qs ih =>
    rw [solveAll, bind_eq_ok_iff] at h
    obtain ⟨_ | t, ht, h⟩ := h
    · cases h
    obtain ⟨_ | rest, hrest, h⟩ := bind_eq_ok_iff.1 h
    · cases h
    obtain rfl := Option.some.inj (Except.ok.inj h)
    rw [lookup_cons_ite, List.mem_cons]
    by_cases hp : p = q
    · subst hp
      exact ⟨fun _ => ⟨t, if_pos rfl, ht⟩, fun hn => absurd (Or.inl rfl) hn⟩
    · rw [if_neg hp]
      exact ⟨fun hm => (ih hrest).1 (hm.resolve_left hp), fun hn => (ih hrest).2 fun hm => hn (Or.inr hm)⟩

/-- The declared result mentions no unknowns once the types of those it needs are put in. -/
theorem isOpen_substitute_found {d : Declaration} (hd : d.Closed) {args : ArgTypes} {partition : Partition}
    {found : List (GenericParameter × Ty)}
    (h : (d.instantiate callSite).solveAll args partition
      ((d.instantiate callSite).parameters.filter fun p => (d.instantiate callSite).ret.contains (.parameter p)) =
        .ok (some found)) :
    ((d.instantiate callSite).ret.substitute fun p => found.lookup p).isOpen = false := by
  rw [Ty.isOpen_eq_false_iff]
  intro q hq
  obtain ⟨p, hp, hq⟩ := Ty.contains_substitute hq
  obtain ⟨hfound, hnot⟩ := lookup_of_solveAll _ _ h p
  by_cases hmem : p ∈ (d.instantiate callSite).parameters
  · obtain ⟨t, ht, hsolve⟩ := hfound (List.mem_filter.2 ⟨hmem, hp⟩)
    rw [ht] at hq
    exact (Ty.isOpen_eq_false_iff t).1 (isOpen_of_solve _ _ hsolve) q hq
  · rw [hnot fun hm => hmem (List.mem_filter.1 hm).1] at hq
    obtain rfl : p = q := by simpa [Ty.contains] using hq
    cases hu : p.isUnknown with
    | false => rfl
    | true =>
      rw [instantiate_ret] at hp
      obtain ⟨o, ho, -, rfl⟩ := unknown_of_instance hd.ret hp hu
      rw [instantiate_parameters] at hmem
      exact absurd (List.mem_map_of_mem ho) hmem

/-- The result of a call of a declaration without unknowns mentions none, whatever the arguments are. -/
theorem isOpen_resultType {d : Declaration} (hd : d.Closed) {args : ArgTypes} {t : Ty} (h : d.resultType args = .ok (some t)) :
    t.isOpen = false := by
  rw [resultType, bind_eq_ok_iff] at h
  obtain ⟨-, -, h⟩ := h
  split at h
  · rw [resultOfInstance, bind_eq_ok_iff] at h
    obtain ⟨_ | found, hfound, h⟩ := h
    · cases h
    obtain rfl := Option.some.inj (Except.ok.inj h)
    exact isOpen_substitute_found hd hfound
  · obtain rfl := Option.some.inj (Except.ok.inj h)
    exact hd.ret

end Gradual.Declaration
