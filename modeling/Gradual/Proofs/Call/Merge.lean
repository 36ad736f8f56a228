import Gradual.Proofs.Call.Forget
import Gradual.Proofs.Call.Renamed

/-!
# Calls in which declared parameters become one

`GenericParameter.merge σ K` renames declared parameters by any function `σ`, so that two of them may become one, and the unknowns
of each site by a permutation. An instantiated call that fits does so when parameters are merged (`checkInstance_ok_of_merge`),
and of its result no more is known, with its names merged (`Merged.resultType`). The converse fails: types that differ may be one
type once they are merged.

Merging must not make one of two types that mention unknowns, since constraints would then be linked that were not. It does not
where the unknowns in a type tell what its declared parameters were (`Ty.RestoredBy`): then different types of this kind stay
different (`Ty.eq_of_merge`), and a chain of merged constraints leads from a type to what chains led to before (`merged_eq`).
-/

namespace Gradual

/-! ## Merged parameters -/

namespace GenericParameter

/-- A generic parameter under another name: `σ` renames declared parameters, and `K` the unknowns of each site. -/
def merge (σ : String → String) (K : String → Equiv.Perm String) (p : GenericParameter) : GenericParameter :=
  { p with name := p.site.elim σ (fun site => K site) p.name }

variable (σ : String → String) (K : String → Equiv.Perm String) {p q : GenericParameter}

@[simp] theorem isUnknown_merge (p : GenericParameter) : (p.merge σ K).isUnknown = p.isUnknown := rfl

/-- A declared parameter is renamed by `σ`. -/
theorem merge_of_declared (hp : p.site = none) : p.merge σ K = p.renameName σ := by
  simp [merge, renameName, hp]

/-- An unknown is renamed by the permutation of its site. -/
theorem merge_of_site {site : String} (hp : p.site = some site) : p.merge σ K = p.renameName (K site) := by
  simp [merge, renameName, hp]

/-- Where all unknowns have one site, renaming them apart from the declared parameters is merging. -/
theorem renameApart_eq_merge {k : Equiv.Perm String} {site : String} (hk : K site = k)
    (hp : p.site = none ∨ p.site = some site) : p.renameApart σ k = p.merge σ K := by
  rcases hp with hp | hp
  · rw [renameApart_of_declared σ k hp, merge_of_declared σ K hp]
  · rw [renameApart_of_unknown σ k hp, merge_of_site σ K hp, hk]

variable {σ K}

/-- Nothing is merged with an unknown. -/
theorem eq_of_merge (hp : p.isUnknown = true) (h : q.merge σ K = p.merge σ K) : q = p := by
  obtain ⟨n, o, s⟩ := p
  obtain ⟨n', o', s'⟩ := q
  cases s with
  | none => cases hp
  | some site =>
    simp only [merge, GenericParameter.mk.injEq] at h
    obtain ⟨hn, rfl, rfl⟩ := h
    rw [(K site).injective hn]

end GenericParameter

/-! ## Merged types -/

namespace Ty

variable {σ : String → String} {K : String → Equiv.Perm String} {M : String → String → String} {a b : Ty}

/-- Wherever a type mentions an unknown, `M` gives its declared parameters the names back that `σ` took from them. -/
def RestoredBy (σ : String → String) (M : String → String → String) (t : Ty) : Prop :=
  ∀ (p q : GenericParameter) (site : String), t.contains (.parameter p) = true → t.contains (.parameter q) = true →
    p.site = none → q.site = some site → M site (σ p.name) = p.name

/-- A parameter mentions itself only. -/
theorem restoredBy_parameter (p : GenericParameter) : RestoredBy σ M (.parameter p) := by
  intro q q' site hq hq' hn hs
  obtain rfl : p = q := by simpa [contains] using hq
  obtain rfl : p = q' := by simpa [contains] using hq'
  rw [hn] at hs
  cases hs

/-- The names in a part of a type are given back where those of the type are. -/
theorem RestoredBy.of_contains (h : RestoredBy σ M a) (hb : a.contains b = true) : RestoredBy σ M b :=
  fun p q site hp hq => h p q site (contains_trans hb hp) (contains_trans hb hq)

/-- Types that mention unknowns, and whose names are given back, stay different. -/
theorem eq_of_merge (ha : RestoredBy σ M a) (hb : RestoredBy σ M b) (hopen : a.isOpen = true)
    (h : a.rename (.merge σ K) = b.rename (.merge σ K)) : a = b := by
  obtain ⟨q, hqa, hqu⟩ := (isOpen_iff a).1 hopen
  have hqb : b.contains (.parameter q) = true := by
    obtain ⟨q', hq', he⟩ := (contains_rename_iff b _).1 (h ▸ (contains_rename_iff a _).2 ⟨q, hqa, rfl⟩)
    exact GenericParameter.eq_of_merge hqu he ▸ hq'
  obtain ⟨site, hsite⟩ := Option.isSome_iff_exists.1 hqu
  -- One renaming takes both types back, as both mention the unknown `q`.
  have hback : ∀ t : Ty, RestoredBy σ M t → t.contains (.parameter q) = true →
      (t.rename (.merge σ K)).rename (.merge (M site) fun s => (K s).symm) = t := by
    intro t ht hq
    rw [rename_rename]
    refine rename_eq_self fun p hp => ?_
    cases hs : p.site with
    | none =>
      rw [GenericParameter.merge_of_declared σ K hs, GenericParameter.merge_of_declared (p := p.renameName σ) _ _ hs]
      simp only [GenericParameter.renameName, ht p q site hp hq hs hsite]
    | some s =>
      rw [GenericParameter.merge_of_site σ K hs, GenericParameter.merge_of_site (p := p.renameName (K s)) _ _ hs]
      simp only [GenericParameter.renameName, Equiv.symm_apply_apply]
  rw [← hback a ha hqa, ← hback b hb hqb, h]

/-- Owners may be forgotten before or after names change. -/
theorem eraseOwners_relabel (σ : String → String) (t : Ty) : (t.relabel σ).eraseOwners = t.eraseOwners.relabel σ := by
  unfold eraseOwners relabel
  rw [substitute_rename, rename_substitute]
  rfl

/-- A type without unknowns has only declared parameters to be merged. -/
theorem merge_of_closed (ha : a.isOpen = false) : a.rename (.merge σ K) = a.relabel σ :=
  rename_congr_of_closed ha fun _ hp => GenericParameter.merge_of_declared σ K hp

/-- Owners may be forgotten before or after declared parameters are merged. -/
theorem eraseOwners_merge (ha : a.isOpen = false) : (a.rename (.merge σ K)).eraseOwners = a.eraseOwners.relabel σ := by
  rw [merge_of_closed ha, eraseOwners_relabel]

/-- A type that implements another does so when parameters are merged. -/
theorem implements_of_merge (ha : a.isOpen = false) (hb : b.isOpen = false) (h : a.implements b = true) :
    (a.rename (.merge σ K)).implements (b.rename (.merge σ K)) = true := by
  rw [implements_iff] at h ⊢
  rw [eraseOwners_merge ha, eraseOwners_merge hb, h]

end Ty

/-- Whatever is known of the second type is known of the first, under the names that `σ` gives. -/
def VaguerAs (σ : String → String) (t t' : Option Ty) : Prop := Vaguer (t.map (Ty.relabel σ)) t'

namespace VaguerAs

variable {σ : String → String} {t t' : Option Ty}

/-- A type that is unknown is known less than any. -/
theorem unknown (σ : String → String) (t : Option Ty) : VaguerAs σ t none := Vaguer.unknown _

/-- A type that is like another under the names that `σ` gives is known no less. -/
theorem known {a b : Ty} (h : Ty.Like (a.relabel σ) b) : VaguerAs σ (some a) (some b) := Vaguer.known h

/-- A type under the names that `σ` gives is known no less. -/
theorem relabel (σ : String → String) (t : Option Ty) : VaguerAs σ t (t.map (Ty.relabel σ)) := Vaguer.refl _

/-- A type that `σ` leaves as it is is known no less. -/
theorem of_fixed {a : Ty} (h : a.relabel σ = a) : VaguerAs σ (some a) (some a) := known (Or.inl h)

/-- Where no names change, a type is known less as it stands. -/
theorem id_iff : VaguerAs id t t' ↔ Vaguer t t' := by
  rw [VaguerAs, Ty.map_relabel_id]

/-- The unknowns in a type may be renamed in any way where there are none. -/
theorem iff_of_closed (k : String → String) (ht : ∀ a, t = some a → a.isOpen = false) :
    VaguerAs σ t t' ↔ Vaguer (t.map (Ty.rename (.renameApart σ k))) t' := by
  have hsame : t.map (Ty.rename (.renameApart σ k)) = t.map (Ty.relabel σ) := Option.map_congr fun a ha =>
    Ty.rename_congr_of_closed (ht a ha) fun _ hp => GenericParameter.renameApart_of_declared σ k hp
  rw [VaguerAs, hsame]

/-- A type that is known was known to be like it, under the names that `σ` gives. -/
theorem exists_like {b : Ty} (h : VaguerAs σ t (some b)) : ∃ a, t = some a ∧ Ty.Like (a.relabel σ) b := by
  obtain ⟨c, hc, hl⟩ := h b rfl
  obtain ⟨a, rfl, rfl⟩ := Option.map_eq_some_iff.1 hc
  exact ⟨a, rfl, hl⟩

/-- A part of a type is known less when the type is. -/
theorem bind {f : Ty → Option Ty} (h : VaguerAs σ t t') (hf : ∀ a, f (a.relabel σ) = (f a).map (Ty.relabel σ))
    (hl : ∀ a b, Ty.Like a b → Vaguer (f a) (f b)) : VaguerAs σ (t.bind f) (t'.bind f) := by
  have hpart : (t.bind f).map (Ty.relabel σ) = (t.map (Ty.relabel σ)).bind f := by
    cases t with
    | none => rfl
    | some a => exact (hf a).symm
  rw [VaguerAs, hpart]
  exact Vaguer.bind h hl

/-- A type that is known less mentions unknowns only if the type does. -/
theorem isOpen (h : VaguerAs σ t t') (ht : ∀ a, t = some a → a.isOpen = false) : ∀ b, t' = some b → b.isOpen = false := by
  rintro b rfl
  obtain ⟨a, ha, hl⟩ := h.exists_like
  rw [← hl.isOpen_eq, Ty.isOpen_rename (GenericParameter.isUnknown_renameName σ)]
  exact ht a ha

end VaguerAs

/-! ## Chains of merged constraints -/

/-- The chains of merged constraints lead where the merged chains led. -/
theorem Linked.rename {cs : List Constraint} (f : GenericParameter → GenericParameter) {a b : Ty} (h : Linked cs a b) :
    Linked (cs.map (Constraint.rename f)) (a.rename f) (b.rename f) := by
  induction h with
  | rel x y hxy =>
    obtain ⟨c, hc, rfl, rfl⟩ := hxy
    exact .of_mem (List.mem_map_of_mem hc)
  | refl x => exact .refl _
  | symm x y _ ih => exact ih.symm
  | trans x y z _ _ ih₁ ih₂ => exact ih₁.trans ih₂

section Merged

variable {σ : String → String} {K : String → Equiv.Perm String} {M : String → String → String} {cs : List Constraint}

/-- What a merged type leads to: if it mentions no unknown itself, up to owners, and else what the constraints `cs` led to from
the type that was merged, with its names merged. -/
def merged (σ : String → String) (K : String → Equiv.Perm String) (M : String → String → String) (cs : List Constraint)
    (b e : Ty) : Prop :=
  b.isOpen = false ∧ b.eraseOwners = e ∨
    b.isOpen = true ∧ ∃ a, a.RestoredBy σ M ∧ a.rename (.merge σ K) = b ∧ ∃ e₀, reached cs a e₀ ∧ e₀.relabel σ = e

/-- A merged type leads to what is reached from the type, with its names merged. -/
theorem merged_rename (hc : Consistent cs) {a : Ty} (ha : a.RestoredBy σ M) :
    merged σ K M cs (a.rename (.merge σ K)) = fun e => ∃ e₀, reached cs a e₀ ∧ e₀.relabel σ = e := by
  have hopen : (a.rename (.merge σ K)).isOpen = a.isOpen := Ty.isOpen_rename (GenericParameter.isUnknown_merge σ K) a
  funext e
  unfold merged
  rw [hopen]
  cases ho : a.isOpen with
  | false =>
    rw [Ty.eraseOwners_merge ho, reached_of_closed hc ho]
    simp
  | true =>
    refine propext ⟨?_, fun he => Or.inr ⟨rfl, a, ha, rfl, he⟩⟩
    rintro (⟨hf, -⟩ | ⟨-, b, hb, hba, he⟩)
    · cases hf
    · rwa [Ty.eq_of_merge ha hb ho hba.symm]

/-- Merged constraints link only types that lead to the same. -/
theorem merged_eq (hc : Consistent cs) (hcs : ∀ c ∈ cs, c.2.RestoredBy σ M) {x y : Ty}
    (h : Linked (cs.map (Constraint.rename (.merge σ K))) x y) : merged σ K M cs x = merged σ K M cs y := by
  refine h.eq_of_respects (merged σ K M cs) ?_
  rw [List.forall_mem_map]
  intro c hm
  have hleft : merged σ K M cs (.parameter (c.1.merge σ K)) = _ :=
    merged_rename (a := .parameter c.1) hc (Ty.restoredBy_parameter c.1)
  have hright : merged σ K M cs (c.2.rename (.merge σ K)) = _ := merged_rename hc (hcs c hm)
  rw [Constraint.rename, hleft, hright, reached_of_linked (.of_mem hm)]

/-- Consistent constraints stay consistent when parameters are merged. -/
theorem consistent_of_merge (hc : Consistent cs) (hcs : ∀ c ∈ cs, c.2.RestoredBy σ M) :
    Consistent (cs.map (Constraint.rename (.merge σ K))) := by
  intro a b hl ha hb
  have hm := congrFun (merged_eq hc hcs hl) b.eraseOwners
  simp only [merged, ha, hb, true_and, Bool.false_eq_true, false_and, or_false, eq_iff_iff, iff_true] at hm
  exact hm

/-- Where chains led from a parameter to types with unknowns only, merged chains do. -/
theorem isOpen_of_linked_merge (hc : Consistent cs) (hcs : ∀ c ∈ cs, c.2.RestoredBy σ M) {p : GenericParameter}
    (hp : ∀ t, Linked cs (.parameter p) t → t.isOpen = true) {t : Ty}
    (ht : Linked (cs.map (Constraint.rename (.merge σ K))) (.parameter (p.merge σ K)) t) : t.isOpen = true := by
  by_contra ho
  rw [Bool.not_eq_true] at ho
  have hreached : merged σ K M cs (.parameter (p.merge σ K)) t.eraseOwners := by
    rw [merged_eq hc hcs ht]
    exact Or.inl ⟨ho, rfl⟩
  have hparameter : merged σ K M cs (.parameter (p.merge σ K)) = _ :=
    merged_rename (a := .parameter p) hc (Ty.restoredBy_parameter p)
  rw [hparameter] at hreached
  obtain ⟨e, ⟨u, hu, huo, -⟩, -⟩ := hreached
  rw [hp u hu] at huo
  cases huo

end Merged

/-! ## Instantiated calls -/

namespace Declaration

section Instance

variable {σ : String → String} {K : String → Equiv.Perm String} {M : String → String → String} {d : Declaration} {ts : ArgTypes}

/-- The types in the constraints of a call are parts of its types and of its arguments. -/
theorem restoredBy_of_mem_constraints (hd : ∀ t ∈ d.types, t.RestoredBy σ M) (hts : ∀ t, some t ∈ ts → t.RestoredBy σ M)
    {c : Constraint} (hc : c ∈ d.constraints ts) : c.2.RestoredBy σ M := by
  obtain ⟨i, u, a, x, y, hu, ha, hm, ⟨-, rfl⟩ | ⟨-, rfl⟩⟩ := meets_of_mem_constraints hc
  · exact (hts a (List.mem_of_getElem? ha)).of_contains hm.contains.2
  · exact (hd u (List.mem_of_getElem? hu)).of_contains hm.contains.1

/-- What an unknown is bound to when parameters are merged is what it was bound to, merged. -/
theorem binds_of_merge {p : GenericParameter} (hp : p.isUnknown = true) {t : Ty}
    (h : (d.rename (.merge σ K)).Binds (ts.rename (.merge σ K)) (p.merge σ K) t) :
    ∃ u, d.Binds ts p u ∧ u.rename (.merge σ K) = t := by
  obtain ⟨i, w, a, hw, ha, hcontains, hc⟩ := h
  rw [rename, List.getElem?_map, Option.map_eq_some_iff] at hw
  obtain ⟨w, hw, rfl⟩ := hw
  rw [ArgTypes.getElem?_rename, Option.map_eq_some_iff] at ha
  obtain ⟨a, ha, ha'⟩ := ha
  obtain ⟨a, rfl, rfl⟩ := Option.map_eq_some_iff.1 ha'
  rw [Ty.constraints_rename, List.mem_map] at hc
  obtain ⟨⟨q, u⟩, hc, he⟩ := hc
  obtain ⟨hq, rfl⟩ := Prod.mk.inj he
  obtain rfl := GenericParameter.eq_of_merge hp hq
  obtain ⟨o, ho, he⟩ := (Ty.contains_rename_iff w _).1 hcontains
  exact ⟨u, ⟨i, w, a, hw, ha, GenericParameter.eq_of_merge hp he ▸ ho, hc⟩, rfl⟩

/-- An instantiated call that fits does so when declared parameters are merged. -/
theorem checkInstance_ok_of_merge (hunknown : ∀ p ∈ d.parameters, p.isUnknown = true)
    (hd : ∀ t ∈ d.types, t.RestoredBy σ M) (hts : ∀ t, some t ∈ ts → t.RestoredBy σ M) (hok : d.checkInstance ts = .ok ()) :
    (d.rename (.merge σ K)).checkInstance (ts.rename (.merge σ K)) = .ok () := by
  have hrigid := GenericParameter.isUnknown_merge σ K
  obtain ⟨hplain, hshapes, hbinds, hc⟩ := (d.checkInstance_ok_iff ts).1 hok
  refine (checkInstance_ok_iff _ _).2 ⟨?_, ?_, ?_, ?_⟩
  · rw [passed_rename, List.forall_mem_map]
    intro p hp hs
    rw [Passed.isSolved_rename hrigid] at hs
    obtain ⟨hdeclared, hargument⟩ := isOpen_of_not_solved hs
    exact Ty.implements_of_merge hargument hdeclared (hplain p hp hs)
  · rw [passed_rename, List.forall_mem_map]
    intro p hp hs
    rw [Passed.isSolved_rename hrigid] at hs
    exact (Ty.matchShape_rename hrigid _ _ _).2 (hshapes p hp hs)
  · rw [parameters_rename, List.forall_mem_map]
    intro p hp t u ht hu hto huo
    obtain ⟨v, hv, rfl⟩ := binds_of_merge (hunknown p hp) ht
    obtain ⟨w, hw, rfl⟩ := binds_of_merge (hunknown p hp) hu
    rw [Ty.isOpen_rename hrigid] at hto huo
    rw [Ty.eraseOwners_merge hto, Ty.eraseOwners_merge huo, hbinds p hp v w hv hw hto huo]
  · rw [constraints_rename hrigid]
    exact consistent_of_merge hc fun c hm => restoredBy_of_mem_constraints hd hts hm

/-- A parameter at whose position an argument of unknown type stands keeps it under another name. -/
theorem Fed.rename {p : GenericParameter} (h : d.Fed ts p) (f : GenericParameter → GenericParameter) :
    (d.rename f).Fed (ts.rename f) (f p) := by
  obtain ⟨hp, i, u, hu, hcontains, hi⟩ := h
  refine ⟨?_, i, u.rename f, ?_, (Ty.contains_rename_iff u _).2 ⟨p, hcontains, rfl⟩, ?_⟩
  · rw [parameters_rename]
    exact List.mem_map_of_mem hp
  · rw [Declaration.rename, List.getElem?_map, hu, Option.map_some]
  · rw [ArgTypes.getElem?_rename, hi, Option.map_some, Option.map_none]

/-- The type that a call which fits gives a generic parameter is the same, merged, when declared parameters are merged. -/
theorem solve_of_merge (hd : ∀ t ∈ d.types, t.RestoredBy σ M) (hts : ∀ t, some t ∈ ts → t.RestoredBy σ M)
    (hc : Consistent (d.constraints ts)) {p : GenericParameter} {r : Option Ty}
    (hr : d.solve ts (.ofConstraints (d.constraints ts)) p = .ok r) :
    ∃ r', (d.rename (.merge σ K)).solve (ts.rename (.merge σ K))
      (.ofConstraints ((d.rename (.merge σ K)).constraints (ts.rename (.merge σ K)))) (p.merge σ K) = .ok r' ∧
        Vaguer (r.map (Ty.rename (.merge σ K))) r' := by
  have hrigid := GenericParameter.isUnknown_merge σ K
  have hrestored : ∀ c ∈ d.constraints ts, c.2.RestoredBy σ M := fun c hm => restoredBy_of_mem_constraints hd hts hm
  have hc' := consistent_of_merge (K := K) hc hrestored
  rw [constraints_rename hrigid]
  cases r with
  | some t =>
    obtain ⟨ht, hl, -⟩ := linked_of_solve d ts hr
    have hl' := hl.rename (.merge σ K)
    have ht' : (t.rename (.merge σ K)).isOpen = false := (Ty.isOpen_rename hrigid t).trans ht
    obtain ⟨u, hu, huo, hlu⟩ := (d.rename (.merge σ K)).solve_of_closed (ts.rename (.merge σ K)) hc' hl' ht'
    exact ⟨some u, hu, .known (Or.inr ⟨ht', huo, hc' _ _ (hl'.symm.trans hlu) ht' huo⟩)⟩
  | none =>
    have hopen := isOpen_of_solve_none d ts hr
    have hopen' : ∀ t, Linked ((d.constraints ts).map (Constraint.rename (.merge σ K))) (.parameter (p.merge σ K)) t →
        t.isOpen = true := fun t ht => isOpen_of_linked_merge hc hrestored hopen ht
    rcases (d.rename (.merge σ K)).solve_of_open (ts.rename (.merge σ K)) hopen' with ⟨hn, -⟩ | ⟨-, hall, hfed⟩
    · exact ⟨none, hn, .unknown _⟩
    · rcases d.solve_of_open ts hopen with ⟨-, ⟨q, hq, hqf⟩ | ⟨t, ht, hu⟩⟩ | ⟨herr, -⟩
      · exact absurd (hqf.rename (.merge σ K)) (hfed _ (hq.rename (.merge σ K)))
      · have hunknown := hall _ (ht.rename (.merge σ K))
        rw [Ty.isUnknown_rename hrigid, hu] at hunknown
        cases hunknown
      · rw [herr] at hr
        cases hr

/-- A call of a generic declaration that is accepted is accepted when declared parameters are merged. -/
theorem checkGenericCall_of_merge {d' : Declaration}
    (hinst : d'.instantiate callSite = (d.instantiate callSite).rename (.merge σ K)) (harity : d'.arity = d.arity)
    (hd : ∀ t ∈ (d.instantiate callSite).types, t.RestoredBy σ M)
    (hts : ∀ t, some t ∈ ts → t.RestoredBy σ M) (hok : d.checkGenericCall ts = .ok ()) :
    d'.checkGenericCall (ts.rename (.merge σ K)) = .ok () := by
  obtain ⟨hlen, hok⟩ := (d.checkGenericCall_ok_iff ts).1 hok
  refine (d'.checkGenericCall_ok_iff _).2 ⟨?_, ?_⟩
  · rw [harity, ArgTypes.length_rename, hlen]
  · rw [hinst]
    exact checkInstance_ok_of_merge (fun p hp => d.isUnknown_of_mem_instantiate hp) hd hts hok

/-- Merging declared parameters leaves the unknowns at their sites. -/
theorem Sited.merge (h : Sited ts) (σ : String → String) (K : String → Equiv.Perm String) : Sited (ts.rename (.merge σ K)) := by
  intro i a ha q hq hu
  rw [ArgTypes.getElem?_rename, Option.map_eq_some_iff] at ha
  obtain ⟨t, ht, ha⟩ := ha
  obtain ⟨b, rfl, rfl⟩ := Option.map_eq_some_iff.1 ha
  obtain ⟨p, hp, rfl⟩ := (Ty.contains_rename_iff b _).1 hq
  exact h i b ht p hp hu

/-- A call of a plain declaration that is accepted is accepted when names change and less is known of the arguments, also by a
declaration whose parameters have the same types up to owners. -/
theorem checkPlainCall_ok_of_vaguerAs {d' : Declaration} {ts' : ArgTypes} (hn : d.names = d'.names)
    (ht : d.types.map (fun t => (t.relabel σ).eraseOwners) = d'.types.map Ty.eraseOwners) (h : List.Forall₂ (VaguerAs σ) ts ts')
    (hok : d.checkPlainCall ts = .ok ()) : d'.checkPlainCall ts' = .ok () := by
  obtain ⟨hlen, hfits⟩ := checkPlainCall_ok_iff.1 hok
  have hrenamed : (d.rename (.renameName σ)).checkPlainCall (ts.rename (.renameName σ)) = .ok () := by
    refine checkPlainCall_ok_iff.2 ⟨?_, ?_⟩
    · simpa [arity, rename] using hlen
    · rw [passed_rename, List.forall_mem_map]
      intro p hp
      have hf := hfits p hp
      rw [Passed.fits, Ty.implements_iff] at hf ⊢
      exact (Ty.eraseOwners_relabel σ _).trans (hf ▸ (Ty.eraseOwners_relabel σ _).symm)
  refine checkPlainCall_ok_of_vaguer (d := d.rename (.renameName σ)) hn ?_ (List.forall₂_map_left_iff.2 h) hrenamed
  simpa [rename, Function.comp_def] using ht

end Instance

/-! ## Declarations and arguments -/

/-- No two parameters from around a generic declaration become one in it. -/
def KeptApart (σ : String → String) (d : Declaration) : Prop :=
  d.isGeneric = true → ∃ μ : String → String, ∀ p, d.functionType.contains (.parameter p) = true → d.owns p = false →
    p.site = none → μ (σ p.name) = p.name

/-- The second declaration is the first with `σ` applied to the names of generic parameters from around it, and some permutation
to those of its own, and no two parameters become one. -/
structure Merged (σ : String → String) (d d' : Declaration) : Prop where
  renamed : d.Renamed σ d'
  apart : d.KeptApart σ

/-- Where no names change, no parameters become one. -/
theorem keptApart_id (d : Declaration) : d.KeptApart id := fun _ => ⟨id, fun _ _ _ _ => rfl⟩

/-- Where no two names become one, no two parameters do. -/
theorem keptApart_of_injective {σ : String → String} (hσ : Function.Injective σ) (d : Declaration) : d.KeptApart σ :=
  fun _ => ⟨Function.invFun σ, fun p _ _ _ => Function.leftInverse_invFun hσ p.name⟩

/-- In a declaration that is itself under other names, no parameters become one. -/
theorem keptApart_of_renamed_self {σ : String → String} {d : Declaration} (h : Renamed σ d d) : d.KeptApart σ := by
  obtain ⟨k, hk⟩ := h
  refine fun _ => ⟨id, fun p hp ho hs => ?_⟩
  have hused : (d.instantiate callSite).Mentions p := by
    rw [instantiate_eq_rename, mentions_rename_iff]
    exact ⟨p, Or.inr hp, inUse_of_not_owns ho callSite⟩
  have hkept := eq_of_rename_eq_self (hk callSite).symm hused
  rwa [GenericParameter.renameApart_of_declared σ k hs, GenericParameter.renameName_eq_self_iff] at hkept

/-- A plain declaration has no unknowns where it is used. -/
theorem keptApart_of_plain {d : Declaration} (hg : d.isGeneric = false) (σ : String → String) : d.KeptApart σ :=
  fun hgeneric => absurd (hg.symm.trans hgeneric) Bool.false_ne_true

/-- A declaration is itself where no names change. -/
theorem merged_refl (d : Declaration) : Merged id d d := ⟨d.renamed_refl, d.keptApart_id⟩

/-- The type of an argument is known less under the names that `σ` gives declared parameters and `k` its unknowns. Where there are
unknowns in it, `μ` gives the declared parameters their names back. -/
structure ArgumentMergedBy (σ : String → String) (k : Equiv.Perm String) (μ : String → String) (t t' : Option Ty) : Prop where
  vaguer : Vaguer (t.map (Ty.rename (.renameApart σ k))) t'
  restored : ∀ a, t = some a → a.isOpen = true → ∀ p, a.contains (.parameter p) = true → p.site = none → μ (σ p.name) = p.name

/-- The type of an argument is known less under the names that `σ` gives declared parameters and some permutation its unknowns. No
two declared parameters become one in a type with unknowns. -/
def MergedArgument (σ : String → String) (t t' : Option Ty) : Prop :=
  ∃ (k : Equiv.Perm String) (μ : String → String), ArgumentMergedBy σ k μ t t'

section Arguments

variable {σ : String → String} {ts ts' : ArgTypes}

/-- Each argument has a renaming of its own. -/
theorem exists_mergedBy (h : List.Forall₂ (MergedArgument σ) ts ts') :
    ∃ (κ : Nat → Equiv.Perm String) (μs : Nat → String → String),
      ∀ i : Nat, Option.Rel (ArgumentMergedBy σ (κ i) (μs i)) ts[i]? ts'[i]? := by
  have hargs : ∀ i : Nat, ∃ (k : Equiv.Perm String) (μ : String → String),
      Option.Rel (ArgumentMergedBy σ k μ) ts[i]? ts'[i]? := by
    intro i
    have hi := rel_getElem? h i
    generalize ts[i]? = o at hi ⊢
    generalize ts'[i]? = o' at hi ⊢
    cases hi with
    | none => exact ⟨Equiv.refl String, id, .none⟩
    | some hm =>
      obtain ⟨k, μ, hm⟩ := hm
      exact ⟨k, μ, .some hm⟩
  choose κ μs hargs using hargs
  exact ⟨κ, μs, hargs⟩

variable {κ : Nat → Equiv.Perm String} {μs : Nat → String → String} (hs : Sited ts)
  (h : ∀ i : Nat, Option.Rel (ArgumentMergedBy σ (κ i) (μs i)) ts[i]? ts'[i]?)

include hs h

/-- The types of arguments are known less under one renaming that does at each site what the renaming of the argument does. -/
theorem Sited.vaguer_of_mergedBy {K : String → Equiv.Perm String} (hK : ∀ i, K (Scope.argumentSite i) = κ i) :
    List.Forall₂ Vaguer (ts.rename (.merge σ K)) ts' := by
  refine forall₂_of_rel_getElem? fun i => ?_
  have hi := h i
  rw [ArgTypes.getElem?_rename]
  generalize hti : ts[i]? = o at hi ⊢
  generalize ts'[i]? = o' at hi ⊢
  cases hi with
  | none => exact .none
  | @some t t' hm =>
    refine .some ?_
    cases t with
    | none => exact hm.vaguer
    | some a =>
      have hsame : a.rename (.merge σ K) = a.rename (.renameApart σ (κ i)) := Ty.rename_congr fun p hp =>
        (GenericParameter.renameApart_eq_merge σ K (hK i) (hs.site_of_argument hti hp)).symm
      rw [Option.map_some, hsame]
      exact hm.vaguer

/-- Names are given back in the types of all arguments, as the unknowns in a type tell which argument it is of. -/
theorem Sited.restoredBy_of_mergedBy {M : String → String → String} (hM : ∀ i, M (Scope.argumentSite i) = μs i) {t : Ty}
    (ht : some t ∈ ts) : t.RestoredBy σ M := by
  intro p q site hp hq hpn hqs
  obtain ⟨i, hti⟩ := List.mem_iff_getElem?.1 ht
  have hqu : q.isUnknown = true := by rw [GenericParameter.isUnknown, hqs, Option.isSome_some]
  have hsite := Option.some.inj (hqs.symm.trans (hs i t hti q hq hqu))
  have hi := h i
  rw [hti] at hi
  generalize ts'[i]? = o' at hi
  cases hi with
  | some hm =>
    rw [hsite, hM]
    exact hm.restored t rfl ((Ty.isOpen_iff t).2 ⟨q, hq, hqu⟩) p hp hpn

end Arguments

/-- The declared parameters in a use of a generic declaration are given their names back. -/
theorem KeptApart.exists_restored {σ : String → String} {d : Declaration} (h : d.KeptApart σ) (hg : d.isGeneric = true) :
    ∃ μ : String → String, ∀ (site : String) (p : GenericParameter),
      (d.instantiate site).functionType.contains (.parameter p) = true → p.site = none → μ (σ p.name) = p.name := by
  obtain ⟨μ, hμ⟩ := h hg
  refine ⟨μ, fun site p hp hs => ?_⟩
  rw [instantiate_eq_rename, functionType_rename, Ty.contains_rename_iff] at hp
  obtain ⟨q, hq, rfl⟩ := hp
  cases ho : d.owns q with
  | true =>
    rw [inUse_of_owns ho, GenericParameter.site_unknownAt] at hs
    cases hs
  | false =>
    rw [inUse_of_not_owns ho] at hs ⊢
    exact hμ q hq ho hs

/-- Names are given back in the types of a use, whose unknowns are those of the call. -/
theorem Closed.restoredBy_of_use {σ : String → String} {d : Declaration} (hd : d.Closed) {M : String → String → String}
    (hM : ∀ p, (d.instantiate callSite).functionType.contains (.parameter p) = true → p.site = none →
      M callSite (σ p.name) = p.name) {t : Ty} (ht : t ∈ (d.instantiate callSite).types) : t.RestoredBy σ M := by
  intro p q site hp hq hpn hqs
  have hsite : site = callSite := by
    rcases hd.site_of_use (mentions_of_types ht hq) with hn | hcall
    · rw [hqs] at hn
      cases hn
    · exact Option.some.inj (hqs.symm.trans hcall)
  rw [hsite]
  exact hM p (Ty.contains_of_child (List.mem_append_left _ ht) hp) hpn

namespace Merged

variable {σ : String → String} {d d' : Declaration} {ts ts' : ArgTypes} (h : Merged σ d d') (hd : d.Closed)
  (hg : d.isGeneric = true) (hs : Sited ts) (ha : List.Forall₂ (MergedArgument σ) ts ts')

include h hd hg hs ha

/-- One renaming merges the instance for a call and the types of its arguments, and names are given back in all of them. -/
theorem exists_merge : ∃ (K : String → Equiv.Perm String) (M : String → String → String),
    d'.instantiate callSite = (d.instantiate callSite).rename (.merge σ K) ∧
      List.Forall₂ Vaguer (ts.rename (.merge σ K)) ts' ∧
        (∀ t ∈ (d.instantiate callSite).types, t.RestoredBy σ M) ∧ ∀ t, some t ∈ ts → t.RestoredBy σ M := by
  obtain ⟨k, hk⟩ := h.renamed
  obtain ⟨μ, hμ⟩ := h.apart.exists_restored hg
  obtain ⟨κ, μs, hargs⟩ := exists_mergedBy ha
  obtain ⟨K, hKcall, hKargs⟩ := exists_sites k κ
  obtain ⟨M, hMcall, hMargs⟩ := exists_sites μ μs
  refine ⟨K, M, ?_, hs.vaguer_of_mergedBy hargs hKargs, ?_, fun t => hs.restoredBy_of_mergedBy hargs hMargs⟩
  · refine (hk callSite).trans (rename_congr fun p hp => ?_)
    exact GenericParameter.renameApart_eq_merge σ K hKcall (hd.site_of_use hp)
  · exact fun t => hd.restoredBy_of_use (hMcall ▸ hμ callSite)

/-- A call of a generic declaration that is accepted is accepted when declared parameters are merged and less is known of
the arguments. -/
theorem checkCall (hok : d.checkCall ts = .ok ()) : d'.checkCall ts' = .ok () := by
  obtain ⟨K, M, hinst, hv, htypes, hargs⟩ := h.exists_merge hd hg hs ha
  rw [Declaration.checkCall, if_pos hg] at hok
  rw [Declaration.checkCall, if_pos (h.renamed.isGeneric_eq.trans hg)]
  exact checkGenericCall_ok_of_vaguer hv (checkGenericCall_of_merge hinst h.renamed.arity_eq htypes hargs hok)

/-- The result of an accepted call of a generic declaration is known less under the names that `σ` gives when declared parameters
are merged and less is known of the arguments. -/
theorem resultType (hd' : d'.Closed) (hok : d.checkCall ts = .ok ()) :
    Follows (VaguerAs σ) (d.resultType ts) (d'.resultType ts') := by
  obtain ⟨K, M, hinst, hv, htypes, hargs⟩ := h.exists_merge hd hg hs ha
  rw [Declaration.checkCall, if_pos hg] at hok
  have hok' := checkGenericCall_of_merge hinst h.renamed.arity_eq htypes hargs hok
  obtain ⟨hlen, hinstance⟩ := (d.checkGenericCall_ok_iff ts).1 hok
  obtain ⟨-, -, -, hc⟩ := ((d.instantiate callSite).checkInstance_ok_iff ts).1 hinstance
  intro r hr
  have hclosed : ∀ t, r = some t → t.rename (.merge σ K) = t.relabel σ := by
    rintro t rfl
    exact Ty.merge_of_closed (isOpen_resultType hd hr)
  have hmerged : ∃ r', d'.resultType (ts.rename (.merge σ K)) = .ok r' ∧ VaguerAs σ r r' := by
    unfold Declaration.resultType checkCount at hr ⊢
    rw [h.renamed.arity_eq, ArgTypes.length_rename, h.renamed.ret_isGeneric_eq]
    simp only [hlen, if_true, ok_bind] at hr ⊢
    split at hr
    · rename_i hgr
      rw [if_pos hgr]
      obtain ⟨r', hr', hvr⟩ := resultOfInstance_follows hd hd' hinst (GenericParameter.isUnknown_merge σ K)
        (fun p q hp he => GenericParameter.eq_of_merge hp he)
        (fun p _ r hr => hinst ▸ solve_of_merge (K := K) htypes hargs hc hr) hr
      refine ⟨r', hr', ?_⟩
      cases r with
      | none => exact hvr
      | some t =>
        rw [Option.map_some, hclosed t rfl] at hvr
        exact hvr
    · rename_i hgr
      rw [if_neg hgr]
      rw [Bool.not_eq_true] at hgr
      have hret : d.ret.relabel σ = d.ret := Ty.rename_eq_self_of_plain hgr
      obtain rfl := Except.ok.inj hr
      exact ⟨some d.ret, by rw [h.renamed.ret_eq hgr]; rfl, .of_fixed hret⟩
  obtain ⟨r₁, hr₁, hv₁⟩ := hmerged
  obtain ⟨r', hr', hv'⟩ := resultType_follows hd' (hs.merge σ K) hv hok' hr₁
  exact ⟨r', hr', hv₁.trans hv'⟩

end Merged

end Declaration

end Gradual
