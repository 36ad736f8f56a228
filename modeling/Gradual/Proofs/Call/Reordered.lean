import Mathlib
import Gradual.Proofs.Call.Principal

/-!
# Calls of declarations that list their generic parameters in another order

The generic parameters that a result needs are solved one after the other, and the first that has no known type decides. What each
of them is solved to does not hang on the order (`Reordered.solve_eq`). So another order gives the same result where all have
known types, and a result of the same sort unless the type of one is unknown while another has none (`resultType_reordered_iff`):
then the order decides which of the two is seen first.
-/

namespace Gradual

namespace Declaration

variable {d d' : Declaration} {args : ArgTypes}

/-- Two generic declarations that differ only in the order of their generic parameters. -/
structure Reordered (d d' : Declaration) : Prop where
  name : d'.name = d.name
  names : d'.names = d.names
  types : d'.types = d.types
  ret : d'.ret = d.ret
  generics : ∃ ps qs, d.generics = some ps ∧ d'.generics = some qs ∧ ps.Perm qs

/-- Results of one sort: the same known type, an unknown type, no common type, or a wrong number of arguments. -/
inductive SameSort : Except CallError (Option Ty) → Except CallError (Option Ty) → Prop
  | known (t : Ty) : SameSort (.ok (some t)) (.ok (some t))
  | unknown : SameSort (.ok none) (.ok none)
  | noCommonType (ts ts' : List Ty) : SameSort (.error (.noCommonType ts)) (.error (.noCommonType ts'))
  | argumentCount (expected actual : Nat) :
      SameSort (.error (.argumentCount expected actual)) (.error (.argumentCount expected actual))

/-- The generic parameters that the result needs, in the order of the declaration. -/
def needed (d : Declaration) : List GenericParameter := d.parameters.filter fun p => d.ret.contains (.parameter p)

/-- The type of a generic parameter is unknown: every chain of constraints leads to a type with unknowns, and one leads to a type
that is no unknown itself, or to a generic parameter that an argument of unknown type stands for. -/
structure Undetermined (d : Declaration) (args : ArgTypes) (p : GenericParameter) : Prop where
  isOpen : ∀ t, Linked (d.constraints args) (.parameter p) t → t.isOpen = true
  bound : (∃ q, Linked (d.constraints args) (.parameter p) (.parameter q) ∧ d.Fed args q) ∨
    ∃ t, Linked (d.constraints args) (.parameter p) t ∧ t.isUnknown = false

/-- A generic parameter has no type: chains of constraints lead to different types without unknowns, or they lead to unknowns
alone, and to none that an argument of unknown type stands for. -/
inductive Typeless (d : Declaration) (args : ArgTypes) (p : GenericParameter) : Prop
  | different {a b : Ty} (ha : Linked (d.constraints args) (.parameter p) a) (hb : Linked (d.constraints args) (.parameter p) b)
      (hao : a.isOpen = false) (hbo : b.isOpen = false) (hab : a.eraseOwners ≠ b.eraseOwners) : Typeless d args p
  | unbound (h : ∀ t, Linked (d.constraints args) (.parameter p) t → t.isUnknown = true)
      (hfed : ∀ q, Linked (d.constraints args) (.parameter p) (.parameter q) → ¬d.Fed args q) : Typeless d args p

/-! ## What one generic parameter is solved to -/

/-- The type of a parameter is unknown exactly when it is undetermined. -/
theorem solve_eq_none_iff (p : GenericParameter) :
    d.solve args (.ofConstraints (d.constraints args)) p = .ok none ↔ d.Undetermined args p := by
  rcases d.solve_outcome args (d.constraints args) p with
    ⟨t, ht, ho, hl, -⟩ | ⟨ts, hts, hmem, a, ha, -⟩ | ⟨hopen, hn, hbound⟩ | ⟨hopen, hn, hun, hfed⟩
  · rw [ht]
    refine iff_of_false (by simp) fun h => ?_
    rw [h.isOpen t hl] at ho
    cases ho
  · rw [hts]
    refine iff_of_false (by simp) fun h => ?_
    obtain ⟨hl, ho⟩ := hmem a ha
    rw [h.isOpen a hl] at ho
    cases ho
  · exact iff_of_true hn ⟨hopen, hbound⟩
  · rw [hn]
    refine iff_of_false (by simp) fun h => ?_
    rcases h.bound with ⟨q, hq, hf⟩ | ⟨t, ht, hu⟩
    · exact hfed q hq hf
    · rw [hun t ht] at hu
      cases hu

/-- A parameter has no common type exactly when it is typeless. -/
theorem solve_eq_error_iff (p : GenericParameter) :
    (∃ ts, d.solve args (.ofConstraints (d.constraints args)) p = .error (.noCommonType ts)) ↔ d.Typeless args p := by
  rcases d.solve_outcome args (d.constraints args) p with
    ⟨t, ht, ho, hl, hall⟩ | ⟨ts, hts, hmem, a, ha, b, hb, hab⟩ | ⟨hopen, hn, hbound⟩ | ⟨hopen, hn, hun, hfed⟩
  · rw [ht]
    refine iff_of_false (by simp) fun h => ?_
    cases h with
    | different ha hb hao hbo hab => exact hab ((hall _ ha hao).trans (hall _ hb hbo).symm)
    | unbound hun _ =>
      rw [Ty.isOpen_of_isUnknown (hun t hl)] at ho
      cases ho
  · exact iff_of_true ⟨ts, hts⟩ (.different (hmem a ha).1 (hmem b hb).1 (hmem a ha).2 (hmem b hb).2 hab)
  · rw [hn]
    refine iff_of_false (by simp) fun h => ?_
    cases h with
    | different ha _ hao _ _ =>
      rw [hopen _ ha] at hao
      cases hao
    | unbound hun hfed =>
      rcases hbound with ⟨q, hq, hf⟩ | ⟨t, ht, hu⟩
      · exact hfed q hq hf
      · rw [hun t ht] at hu
        cases hu
  · exact iff_of_true ⟨[], hn⟩ (.unbound hun hfed)

/-- A generic parameter that has no type has no common type. -/
theorem exists_noCommonType_of_solve {p : GenericParameter} {q : Partition} {e : CallError} (h : d.solve args q p = .error e) :
    ∃ ts, e = .noCommonType ts := by
  unfold solve at h
  dsimp only at h
  split at h
  · split at h
    · cases h
    · exact ⟨[], (Except.error.inj h).symm⟩
  · split at h
    · cases h
    · exact ⟨_, (Except.error.inj h).symm⟩

/-! ## What does not hang on the order -/

namespace Reordered

/-- The two declarations have the same generic parameters. -/
theorem mem_parameters_iff (h : d.Reordered d') (p : GenericParameter) : p ∈ d'.parameters ↔ p ∈ d.parameters := by
  obtain ⟨ps, qs, hps, hqs, hperm⟩ := h.generics
  simp only [parameters, hps, hqs, Option.getD_some]
  exact hperm.symm.mem_iff

/-- At a site the two declarations have the same unknowns. -/
theorem unknownOf?_eq (h : d.Reordered d') (site : String) : d'.unknownOf? site = d.unknownOf? site := by
  funext p
  simp only [unknownOf?, owns_iff, h.mem_parameters_iff]

/-- The uses of the two declarations at a site differ only in the order of their generic parameters. -/
theorem instantiate (h : d.Reordered d') (site : String) : (d.instantiate site).Reordered (d'.instantiate site) := by
  obtain ⟨ps, qs, hps, hqs, hperm⟩ := h.generics
  have hu := h.unknownOf?_eq site
  refine ⟨?_, ?_, ?_, ?_, ps.map (·.unknownAt site), qs.map (·.unknownAt site), ?_, ?_, hperm.map _⟩
  · simp only [Declaration.instantiate, hps, hqs, h.name]
  · rw [instantiate_names, instantiate_names, h.names]
  · rw [instantiate_types, instantiate_types, hu, h.types]
  · rw [instantiate_ret, instantiate_ret, hu, h.ret]
  · simp only [Declaration.instantiate, hps]
  · simp only [Declaration.instantiate, hqs]

/-- Calls of the two declarations are under the same constraints. -/
theorem constraints_eq (h : d.Reordered d') (args : ArgTypes) : d'.constraints args = d.constraints args := by
  simp only [constraints, passed, h.names, h.types]

/-- Unknown arguments feed the same classes in calls of the two declarations. -/
theorem fedByUnknown_eq (h : d.Reordered d') (args : ArgTypes) (members : List Ty) :
    d'.fedByUnknown args members = d.fedByUnknown args members := by
  rw [Bool.eq_iff_iff, fedByUnknown_iff, fedByUnknown_iff]
  simp only [Fed, h.mem_parameters_iff, h.types]

/-- What a parameter is solved to does not hang on the order. -/
theorem solve_eq (h : d.Reordered d') (args : ArgTypes) (q : Partition) (p : GenericParameter) :
    d'.solve args q p = d.solve args q p := by
  simp only [solve, h.fedByUnknown_eq]

/-- What several parameters are solved to, in a given order, does not hang on the order of the declaration. -/
theorem solveAll_eq (h : d.Reordered d') (args : ArgTypes) (q : Partition) (ps : List GenericParameter) :
    d'.solveAll args q ps = d.solveAll args q ps := by
  induction ps with
  | nil => rfl
  | cons p ps ih => rw [solveAll, solveAll, h.solve_eq, ih]

/-- The results of the two declarations need the same parameters, in some order. -/
theorem perm_needed (h : d.Reordered d') : d.needed.Perm d'.needed := by
  obtain ⟨ps, qs, hps, hqs, hperm⟩ := h.generics
  simp only [needed, parameters, hps, hqs, Option.getD_some, h.ret]
  exact hperm.filter _

end Reordered

/-! ## The first that has no known type -/

/-- The result is unknown only because the type of a generic parameter that it needs is. -/
theorem exists_solve_none {q : Partition} {ps : List GenericParameter} (h : d.solveAll args q ps = .ok none) :
    ∃ p ∈ ps, d.solve args q p = .ok none := by
  induction ps with
  | nil => cases h
  | cons p ps ih =>
    rw [solveAll, bind_eq_ok_iff] at h
    obtain ⟨_ | t, ht, h⟩ := h
    · exact ⟨p, List.mem_cons_self, ht⟩
    obtain ⟨_ | rest, hrest, h⟩ := bind_eq_ok_iff.1 h
    · obtain ⟨r, hr, hnone⟩ := ih hrest
      exact ⟨r, List.mem_cons_of_mem p hr, hnone⟩
    · cases h

section Orders

variable {q : Partition} {ps qs : List GenericParameter} {p : GenericParameter} {e : CallError}

/-- Where the type of a generic parameter is unknown and none has no type, the result is unknown. -/
theorem solveAll_eq_none (hp : p ∈ ps) (hnone : d.solve args q p = .ok none) (hno : ∀ r ∈ ps, ∀ e, d.solve args q r ≠ .error e) :
    d.solveAll args q ps = .ok none := by
  cases h : d.solveAll args q ps with
  | error e =>
    obtain ⟨r, hr, he⟩ := exists_solve_error d args h
    exact absurd he (hno r hr e)
  | ok found =>
    cases found with
    | none => rfl
    | some found =>
      obtain ⟨t, -, ht⟩ := (lookup_of_solveAll d args h p).1 hp
      rw [hnone] at ht
      cases ht

/-- Where a generic parameter has no type and the type of none is unknown, there is no common type. -/
theorem exists_solveAll_error (hp : p ∈ ps) (herror : d.solve args q p = .error e) (hno : ∀ r ∈ ps, d.solve args q r ≠ .ok none) :
    ∃ ts, d.solveAll args q ps = .error (.noCommonType ts) := by
  cases h : d.solveAll args q ps with
  | error e =>
    obtain ⟨r, -, he⟩ := exists_solve_error d args h
    obtain ⟨ts, rfl⟩ := exists_noCommonType_of_solve he
    exact ⟨ts, rfl⟩
  | ok found =>
    cases found with
    | none =>
      obtain ⟨r, hr, hnone⟩ := exists_solve_none h
      exact absurd hnone (hno r hr)
    | some found =>
      obtain ⟨t, -, ht⟩ := (lookup_of_solveAll d args h p).1 hp
      rw [herror] at ht
      cases ht

/-- Types found for the same generic parameters in two orders are the same. -/
theorem lookup_eq_of_perm (hperm : ps.Perm qs) {found found' : List (GenericParameter × Ty)}
    (h : d.solveAll args q ps = .ok (some found)) (h' : d.solveAll args q qs = .ok (some found')) :
    (fun p => found.lookup p) = fun p => found'.lookup p := by
  funext p
  obtain ⟨hin, hout⟩ := lookup_of_solveAll d args h p
  obtain ⟨hin', hout'⟩ := lookup_of_solveAll d args h' p
  by_cases hp : p ∈ ps
  · obtain ⟨t, ht, hs⟩ := hin hp
    obtain ⟨t', ht', hs'⟩ := hin' (hperm.mem_iff.1 hp)
    rw [hs] at hs'
    rw [ht, ht', Option.some.inj (Except.ok.inj hs')]
  · rw [hout hp, hout' (mt hperm.mem_iff.2 hp)]

/-- The declared result with the types that were found for its generic parameters. -/
def resultOfFound (ret : Ty) (found : Option (List (GenericParameter × Ty))) : Option Ty :=
  found.map fun found => ret.substitute fun p => found.lookup p

/-- The result of an instance is its declared result with what the needed parameters are solved to. -/
theorem resultOfInstance_eq (d : Declaration) (args : ArgTypes) :
    d.resultOfInstance args = (d.solveAll args (.ofConstraints (d.constraints args)) d.needed).map (resultOfFound d.ret) := by
  change (d.solveAll args (.ofConstraints (d.constraints args)) d.needed >>= _) = _
  cases d.solveAll args (.ofConstraints (d.constraints args)) d.needed with
  | error e => rfl
  | ok found => cases found <;> rfl

/-- Solved in another order, the generic parameters give a result of the same sort, unless the type of one of them is unknown and
another has none. -/
theorem sameSort_of_perm (hperm : ps.Perm qs)
    (hnot : ∀ p ∈ ps, d.solve args q p = .ok none → ∀ r ∈ ps, ∀ e, d.solve args q r ≠ .error e) (ret : Ty) :
    SameSort ((d.solveAll args q ps).map (resultOfFound ret)) ((d.solveAll args q qs).map (resultOfFound ret)) := by
  by_cases hunknown : ∃ p ∈ ps, d.solve args q p = .ok none
  · obtain ⟨p, hp, hnone⟩ := hunknown
    have hno := hnot p hp hnone
    rw [solveAll_eq_none hp hnone hno, solveAll_eq_none (hperm.mem_iff.1 hp) hnone fun r hr => hno r (hperm.mem_iff.2 hr)]
    exact .unknown
  have hno : ∀ p ∈ ps, d.solve args q p ≠ .ok none := fun p hp hnone => hunknown ⟨p, hp, hnone⟩
  by_cases hfailed : ∃ p ∈ ps, ∃ e, d.solve args q p = .error e
  · obtain ⟨p, hp, e, he⟩ := hfailed
    obtain ⟨ts, hts⟩ := exists_solveAll_error hp he hno
    obtain ⟨ts', hts'⟩ := exists_solveAll_error (hperm.mem_iff.1 hp) he fun r hr => hno r (hperm.mem_iff.2 hr)
    rw [hts, hts']
    exact .noCommonType ts ts'
  have hknown : ∀ p ∈ ps, ∃ t, d.solve args q p = .ok (some t) := by
    intro p hp
    cases h : d.solve args q p with
    | error e => exact absurd ⟨p, hp, e, h⟩ hfailed
    | ok t =>
      cases t with
      | none => exact absurd h (hno p hp)
      | some t => exact ⟨t, rfl⟩
  obtain ⟨found, hfound⟩ := exists_solveAll hknown
  obtain ⟨found', hfound'⟩ := exists_solveAll fun p hp => hknown p (hperm.mem_iff.2 hp)
  rw [hfound, hfound']
  simp only [Except.map, resultOfFound, Option.map_some, lookup_eq_of_perm hperm hfound hfound']
  exact .known _

end Orders

/-! ## Results -/

/-- The result of a generic type is that of the instance at the call. -/
theorem resultType_of_isGeneric (hlen : d.arity = args.length) (hret : d.ret.isGeneric = true) :
    d.resultType args = (d.instantiate callSite).resultOfInstance args := by
  rw [resultType, checkCount, if_pos hlen, if_pos hret]
  rfl

/-- A result that needs a parameter has a generic type. -/
theorem isGeneric_of_mem_needed {p : GenericParameter} (hp : p ∈ (d.instantiate callSite).needed) : d.ret.isGeneric = true := by
  have hcontains := (List.mem_filter.1 hp).2
  rw [instantiate_ret] at hcontains
  obtain ⟨o, ho, -⟩ := Ty.contains_substitute hcontains
  exact (Ty.isGeneric_iff d.ret).2 ⟨o, ho⟩

section First

variable {p : GenericParameter} {ps : List GenericParameter}

/-- A first generic parameter of unknown type decides the result. -/
theorem resultType_of_undetermined (hlen : d.arity = args.length) (hfirst : (d.instantiate callSite).needed = p :: ps)
    (h : (d.instantiate callSite).Undetermined args p) : d.resultType args = .ok none := by
  have hp : p ∈ (d.instantiate callSite).needed := hfirst ▸ List.mem_cons_self
  rw [resultType_of_isGeneric hlen (isGeneric_of_mem_needed hp), resultOfInstance_eq, hfirst, solveAll, (solve_eq_none_iff p).2 h]
  rfl

/-- A first generic parameter without a type decides the result. -/
theorem resultType_of_typeless (hlen : d.arity = args.length) (hfirst : (d.instantiate callSite).needed = p :: ps)
    (h : (d.instantiate callSite).Typeless args p) : ∃ ts, d.resultType args = .error (.noCommonType ts) := by
  have hp : p ∈ (d.instantiate callSite).needed := hfirst ▸ List.mem_cons_self
  obtain ⟨ts, hts⟩ := (solve_eq_error_iff p).2 h
  refine ⟨ts, ?_⟩
  rw [resultType_of_isGeneric hlen (isGeneric_of_mem_needed hp), resultOfInstance_eq, hfirst, solveAll, hts]
  rfl

/-- A generic parameter that the result needs is the first of them in some order. -/
theorem exists_reordered_first (hp : p ∈ (d.instantiate callSite).needed) :
    ∃ d' ps, d.Reordered d' ∧ (d'.instantiate callSite).needed = p :: ps := by
  obtain ⟨hmem, hret⟩ := List.mem_filter.1 hp
  rw [instantiate_parameters, List.mem_map] at hmem
  obtain ⟨o, ho, rfl⟩ := hmem
  obtain ⟨os, hos⟩ : ∃ os, d.generics = some os := by
    cases hg : d.generics with
    | none => simp [parameters, hg] at ho
    | some os => exact ⟨os, rfl⟩
  have hmem : o ∈ os := by simpa [parameters, hos] using ho
  have h : d.Reordered { d with generics := some (o :: os.erase o) } :=
    ⟨rfl, rfl, rfl, rfl, os, _, hos, rfl, List.perm_cons_erase hmem⟩
  refine ⟨_,
    ((os.erase o).map (·.unknownAt callSite)).filter fun p => (d.instantiate callSite).ret.contains (.parameter p), h, ?_⟩
  rw [needed, instantiate_parameters, (h.instantiate callSite).ret]
  exact List.filter_cons_of_pos hret

end First

namespace Reordered

/-- The two declarations take as many arguments. -/
theorem arity_eq (h : d.Reordered d') : d'.arity = d.arity := by rw [arity, arity, h.types]

/-- The two declarations leave the same parameters undetermined. -/
theorem undetermined_iff (h : d.Reordered d') (p : GenericParameter) : d'.Undetermined args p ↔ d.Undetermined args p := by
  rw [← solve_eq_none_iff, ← solve_eq_none_iff, h.constraints_eq, h.solve_eq]

/-- The two declarations leave the same parameters typeless. -/
theorem typeless_iff (h : d.Reordered d') (p : GenericParameter) : d'.Typeless args p ↔ d.Typeless args p := by
  rw [← solve_eq_error_iff, ← solve_eq_error_iff, h.constraints_eq, h.solve_eq]

/-- Results of instances are of the same sort, unless one needed parameter is undetermined while another is typeless. -/
theorem sameSort_resultOfInstance (h : d.Reordered d')
    (hnot : ∀ p ∈ d.needed, d.Undetermined args p → ∀ r ∈ d.needed, ¬d.Typeless args r) :
    SameSort (d.resultOfInstance args) (d'.resultOfInstance args) := by
  rw [resultOfInstance_eq, resultOfInstance_eq, h.solveAll_eq, h.constraints_eq, h.ret]
  refine sameSort_of_perm h.perm_needed ?_ d.ret
  intro p hp hnone r hr e he
  obtain ⟨ts, rfl⟩ := exists_noCommonType_of_solve he
  exact hnot p hp ((solve_eq_none_iff p).1 hnone) r hr ((solve_eq_error_iff r).1 ⟨ts, he⟩)

/-- Results of calls are of the same sort, unless one needed parameter is undetermined while another is typeless. -/
theorem sameSort_resultType (h : d.Reordered d')
    (hnot : d.arity = args.length → ∀ p ∈ (d.instantiate callSite).needed, (d.instantiate callSite).Undetermined args p →
      ∀ r ∈ (d.instantiate callSite).needed, ¬(d.instantiate callSite).Typeless args r) :
    SameSort (d.resultType args) (d'.resultType args) := by
  by_cases hlen : d.arity = args.length
  · by_cases hret : d.ret.isGeneric = true
    · rw [resultType_of_isGeneric hlen hret, resultType_of_isGeneric (h.arity_eq.trans hlen) (h.ret ▸ hret)]
      exact (h.instantiate callSite).sameSort_resultOfInstance (hnot hlen)
    · rw [resultType, resultType, checkCount, checkCount, h.arity_eq, h.ret, if_pos hlen, if_neg hret, if_neg hret]
      exact .known d.ret
  · rw [resultType, resultType, checkCount, checkCount, h.arity_eq, if_neg hlen]
    exact .argumentCount d.arity args.length

end Reordered

/-- Listing the generic parameters of a declaration in another order leaves the sort of a call's result as it is, unless the
number of arguments is right, the type of one generic parameter that the result needs is unknown, and another of them has none. -/
theorem resultType_reordered_iff (d : Declaration) (args : ArgTypes) :
    (∀ d', d.Reordered d' → SameSort (d.resultType args) (d'.resultType args)) ↔
      ¬(d.arity = args.length ∧
        (∃ p ∈ (d.instantiate callSite).needed, (d.instantiate callSite).Undetermined args p) ∧
        ∃ p ∈ (d.instantiate callSite).needed, (d.instantiate callSite).Typeless args p) := by
  constructor
  · rintro hsame ⟨hlen, ⟨p, hp, hundetermined⟩, q, hq, htypeless⟩
    obtain ⟨d₁, ps, h₁, hfirst₁⟩ := exists_reordered_first hp
    obtain ⟨d₂, qs, h₂, hfirst₂⟩ := exists_reordered_first hq
    have hsort₁ := hsame d₁ h₁
    have hsort₂ := hsame d₂ h₂
    have hnone := resultType_of_undetermined (h₁.arity_eq.trans hlen) hfirst₁
      (((h₁.instantiate callSite).undetermined_iff p).2 hundetermined)
    obtain ⟨ts, hts⟩ := resultType_of_typeless (h₂.arity_eq.trans hlen) hfirst₂
      (((h₂.instantiate callSite).typeless_iff q).2 htypeless)
    rw [hnone] at hsort₁
    rw [hts] at hsort₂
    -- One result is of one sort, and the two orders show two.
    generalize d.resultType args = r at hsort₁ hsort₂
    cases hsort₁
    cases hsort₂
  · intro hnot d' h
    exact h.sameSort_resultType fun hlen p hp hu q hq ht => hnot ⟨hlen, ⟨p, hp, hu⟩, q, hq, ht⟩

/-- A function that makes a pair of a value of type `T`, while nothing gives the type `U` of the other half. -/
def pairSignature (ps : List GenericParameter) : Declaration :=
  ⟨"pair", some ps, ["a"], [.parameter (.declared "T" "pair")],
    .applied "Pair" [.parameter (.declared "T" "pair"), .parameter (.declared "U" "pair")]⟩

/-- The result for an argument of unknown type is unknown if `T` is listed first, and there is none if `U` is. -/
theorem pair_reordered :
    (pairSignature [.declared "T" "pair", .declared "U" "pair"]).Reordered
        (pairSignature [.declared "U" "pair", .declared "T" "pair"]) ∧
      (pairSignature [.declared "T" "pair", .declared "U" "pair"]).resultType [none] = .ok none ∧
      (pairSignature [.declared "U" "pair", .declared "T" "pair"]).resultType [none] = .error (.noCommonType []) ∧
      ¬SameSort (.ok none) (.error (.noCommonType [])) :=
  ⟨⟨rfl, rfl, rfl, rfl, _, _, rfl, rfl, .swap _ _ _⟩, by cbv, by cbv, by rintro ⟨⟩⟩

end Declaration

end Gradual
