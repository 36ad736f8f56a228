import Gradual.Proofs.Call.Result
import Gradual.Proofs.Call.Solvable
import Gradual.Proofs.Types.Signature
import Gradual.Proofs.Types.Vaguer

/-!
# Forgetting the types of arguments

A call that is accepted stays accepted when less is known of its arguments (`checkCall_ok_of_vaguer`), and its result is then
known less and nothing else (`resultType_follows`). Where the types of arguments are dropped and nothing else changes, that is so
of every call that has a result (`call_of_drops`).

Fewer arguments give fewer constraints, and an argument known up to owners gives the same ones up to owners. So a chain of the
constraints that are left leads only to where, up to owners, a chain of all constraints led (`reached_eq`), and what was
consistent stays so. A generic parameter that had a type, or an unknown one, is not left without any: a chain that is broken was
broken at an argument of unknown type, which stands at a position of a generic parameter on the chain.
-/

namespace Gradual

namespace Ty

/-- The constraints of arguments that are like each other are like each other. -/
theorem Like.constraints {d a b : Ty} (h : Like a b) {c : Constraint} (hc : c ∈ d.constraints a) :
    ∃ c' ∈ d.constraints b, Like (.parameter c.1) (.parameter c'.1) ∧ Like c.2 c'.2 := by
  rcases h with rfl | ⟨ha, hb, he⟩
  · exact ⟨c, hc, .refl _, .refl _⟩
  obtain ⟨x, y, hm, hxy⟩ := (mem_constraints_iff d a c).1 hc
  obtain ⟨z, hz, hyz⟩ := hm.transfer he
  have hlike : Like y z :=
    Or.inr ⟨isOpen_eq_false_of_contains ha hm.contains.2, isOpen_eq_false_of_contains hb hz.contains.2, hyz⟩
  rcases hxy with ⟨rfl, rfl⟩ | ⟨rfl, rfl⟩
  · exact ⟨(c.1, z), (mem_constraints_iff d b _).2 ⟨_, z, hz, Or.inl ⟨rfl, rfl⟩⟩, .refl _, hlike⟩
  · cases z with
    | parameter q => exact ⟨(q, c.2), (mem_constraints_iff d b _).2 ⟨c.2, _, hz, Or.inr ⟨rfl, rfl⟩⟩, hlike, .refl _⟩
    | _ => simp at hyz

/-- What is an unknown is a parameter. -/
theorem eq_parameter_of_isUnknown {t : Ty} (h : t.isUnknown = true) : ∃ p, t = .parameter p ∧ p.isUnknown = true := by
  cases t with
  | parameter p => exact ⟨p, rfl, h⟩
  | _ => cases h

/-- An unknown is like itself only. -/
theorem Like.eq_of_isUnknown {a b : Ty} (h : Like a b) (ha : a.isUnknown = true) : a = b := by
  rcases h with rfl | ⟨ho, -⟩
  · rfl
  · rw [isOpen_of_isUnknown ha] at ho
    cases ho

/-- The shapes of arguments that are like each other match the same types. -/
theorem Like.matchShape {n : String} {d a b : Ty} (h : Like a b) (hm : Ty.matchShape n d a = .ok ()) :
    Ty.matchShape n d b = .ok () := by
  rcases h with rfl | ⟨ha, hb, he⟩
  · exact hm
  · exact matchShape_of_eraseOwners hm he ha hb

end Ty

/-! ## Chains of fewer constraints -/

/-- What chains of constraints lead to from a type: the types without unknowns, up to owners. -/
def reached (cs : List Constraint) (x e : Ty) : Prop := ∃ y, Linked cs x y ∧ y.isOpen = false ∧ y.eraseOwners = e

section Reached

variable {cs cs' : List Constraint} {x y : Ty}

/-- Linked types reach the same. -/
theorem reached_of_linked (h : Linked cs x y) : reached cs x = reached cs y := by
  funext e
  refine propext ⟨?_, ?_⟩
  · rintro ⟨z, hz, ho, he⟩
    exact ⟨z, h.symm.trans hz, ho, he⟩
  · rintro ⟨z, hz, ho, he⟩
    exact ⟨z, h.trans hz, ho, he⟩

/-- From a type without unknowns consistent constraints lead to itself only. -/
theorem reached_of_closed (hc : Consistent cs) (hx : x.isOpen = false) : reached cs x = fun e => x.eraseOwners = e := by
  funext e
  refine propext ⟨?_, fun he => ⟨x, .refl x, hx, he⟩⟩
  rintro ⟨z, hz, ho, rfl⟩
  exact hc x z hz hx ho

/-- Types that are like each other reach the same when the constraints are consistent. -/
theorem reached_of_like (hc : Consistent cs) (h : Ty.Like x y) : reached cs x = reached cs y := by
  rcases h with rfl | ⟨hx, hy, he⟩
  · rfl
  · rw [reached_of_closed hc hx, reached_of_closed hc hy, he]

/-- Constraints that are like some of the consistent constraints `cs` link only types from which `cs` leads to the same. -/
theorem reached_eq (hc : Consistent cs)
    (h : ∀ c ∈ cs', ∃ c' ∈ cs, Ty.Like (.parameter c.1) (.parameter c'.1) ∧ Ty.Like c.2 c'.2) (hl : Linked cs' x y) :
    reached cs x = reached cs y := by
  refine hl.eq_of_respects (reached cs) fun c hm => ?_
  obtain ⟨c', hc', h₁, h₂⟩ := h c hm
  calc reached cs (.parameter c.1) = reached cs (.parameter c'.1) := reached_of_like hc h₁
    _ = reached cs c'.2 := reached_of_linked (.of_mem hc')
    _ = reached cs c.2 := (reached_of_like hc h₂).symm

/-- Constraints that are like some of consistent constraints are consistent. -/
theorem consistent_of_like (hc : Consistent cs)
    (h : ∀ c ∈ cs', ∃ c' ∈ cs, Ty.Like (.parameter c.1) (.parameter c'.1) ∧ Ty.Like c.2 c'.2) : Consistent cs' := by
  intro a b hl ha hb
  have hr := reached_eq hc h hl
  rw [reached_of_closed hc ha, reached_of_closed hc hb] at hr
  have : b.eraseOwners = b.eraseOwners ↔ a.eraseOwners = b.eraseOwners := by rw [congrFun hr b.eraseOwners]
  exact this.1 rfl

end Reached

/-! ## Arguments of which less is known -/

section Arguments

variable {ts ts' : ArgTypes}

/-- An argument whose type is known was known to have a type that is like it. -/
theorem exists_like_of_known (h : List.Forall₂ Vaguer ts ts') {i : Nat} {b : Ty} (hb : ts'[i]? = some (some b)) :
    ∃ a, ts[i]? = some (some a) ∧ Ty.Like a b := by
  have hr := rel_getElem? h i
  rw [hb] at hr
  generalize hi : ts[i]? = x at hr
  cases hr with
  | some hv =>
    obtain ⟨a, rfl, hl⟩ := hv b rfl
    exact ⟨a, rfl, hl⟩

/-- The type of an argument is forgotten, or known up to owners. -/
theorem forgotten_or_like (h : List.Forall₂ Vaguer ts ts') {i : Nat} {a : Ty} (ha : ts[i]? = some (some a)) :
    ts'[i]? = some none ∨ ∃ b, ts'[i]? = some (some b) ∧ Ty.Like a b := by
  have hr := rel_getElem? h i
  rw [ha] at hr
  generalize hi : ts'[i]? = x at hr
  cases hr with
  | @some _ t' hv =>
    cases t' with
    | none => exact Or.inl rfl
    | some b => exact Or.inr ⟨b, rfl, hv.like⟩

/-- An argument of unknown type stays one. -/
theorem unknown_of_unknown (h : List.Forall₂ Vaguer ts ts') {i : Nat} (hi : ts[i]? = some none) : ts'[i]? = some none := by
  have hr := rel_getElem? h i
  rw [hi] at hr
  generalize ts'[i]? = x at hr
  cases hr with
  | some hv => rw [hv.eq_none]

end Arguments

namespace Declaration

variable {d : Declaration} {ts ts' : ArgTypes}

/-- An argument that is passed was passed, with a type that is like its type. -/
theorem passed_of_vaguer (h : List.Forall₂ Vaguer ts ts') {p : Passed} (hp : p ∈ d.passed ts') :
    ∃ a, ⟨p.parameter, p.declared, a⟩ ∈ d.passed ts ∧ Ty.Like a p.argument := by
  obtain ⟨i, hn, ht, hb⟩ := (d.mem_passed_iff ts' p).1 hp
  obtain ⟨a, ha, hl⟩ := exists_like_of_known h hb
  exact ⟨a, (d.mem_passed_iff ts _).2 ⟨i, hn, ht, ha⟩, hl⟩

/-- Whether a parameter takes part in solving is the same for arguments that are like each other. -/
theorem isSolved_of_like {n : String} {u a b : Ty} (h : Ty.Like a b) :
    (⟨n, u, a⟩ : Passed).isSolved = (⟨n, u, b⟩ : Passed).isSolved := by
  simp only [Passed.isSolved, h.isOpen_eq]

/-- A constraint of a call of which less is known is like one of the call. -/
theorem constraint_of_vaguer (h : List.Forall₂ Vaguer ts ts') {c : Constraint} (hc : c ∈ d.constraints ts') :
    ∃ c' ∈ d.constraints ts, Ty.Like (.parameter c.1) (.parameter c'.1) ∧ Ty.Like c.2 c'.2 := by
  obtain ⟨p, hp, hs, hc⟩ := (d.mem_constraints_iff ts' c).1 hc
  obtain ⟨a, ha, hl⟩ := passed_of_vaguer h hp
  obtain ⟨c', hc', hlike⟩ := hl.symm.constraints hc
  refine ⟨c', (d.mem_constraints_iff ts c').2 ⟨⟨p.parameter, p.declared, a⟩, ha, ?_, hc'⟩, hlike⟩
  rw [isSolved_of_like hl]
  exact hs

/-- What an argument of a call of which less is known binds an unknown to was bound to it, up to owners. -/
theorem binds_of_vaguer (h : List.Forall₂ Vaguer ts ts') {p : GenericParameter} (hp : p.isUnknown = true) {t : Ty}
    (hb : d.Binds ts' p t) : ∃ t', d.Binds ts p t' ∧ Ty.Like t t' := by
  obtain ⟨i, u, b, hu, hb, hcontains, hc⟩ := hb
  obtain ⟨a, ha, hl⟩ := exists_like_of_known h hb
  obtain ⟨⟨q, t'⟩, hc', hq, ht'⟩ := hl.symm.constraints hc
  obtain rfl := Ty.parameter.inj (hq.eq_of_isUnknown hp)
  exact ⟨t', ⟨i, u, a, hu, ha, hcontains, hc'⟩, ht'⟩

/-- An instantiated declaration that accepts a call accepts it when less is known of the arguments. -/
theorem checkInstance_ok_of_vaguer (hunknown : ∀ p ∈ d.parameters, p.isUnknown = true) (h : List.Forall₂ Vaguer ts ts')
    (hok : d.checkInstance ts = .ok ()) : d.checkInstance ts' = .ok () := by
  obtain ⟨hplain, hshapes, hbinds, hc⟩ := (d.checkInstance_ok_iff ts).1 hok
  refine (d.checkInstance_ok_iff ts').2 ⟨?_, ?_, ?_, consistent_of_like hc fun c hm => constraint_of_vaguer h hm⟩
  · intro p hp hs
    obtain ⟨a, ha, hl⟩ := passed_of_vaguer h hp
    have hfits := hplain _ ha ((isSolved_of_like hl).trans hs)
    rw [Passed.fits, Ty.implements_iff] at hfits ⊢
    exact hl.eraseOwners_eq.symm.trans hfits
  · intro p hp hs
    obtain ⟨a, ha, hl⟩ := passed_of_vaguer h hp
    exact hl.matchShape (hshapes _ ha ((isSolved_of_like hl).trans hs))
  · intro p hp t u ht hu hto huo
    obtain ⟨t', ht', hlt⟩ := binds_of_vaguer h (hunknown p hp) ht
    obtain ⟨u', hu', hlu⟩ := binds_of_vaguer h (hunknown p hp) hu
    have he := hbinds p hp t' u' ht' hu' (hlt.isOpen_eq ▸ hto) (hlu.isOpen_eq ▸ huo)
    rw [hlt.eraseOwners_eq, he, hlu.eraseOwners_eq]

/-- A call of a generic declaration that is accepted is accepted when less is known of the arguments. -/
theorem checkGenericCall_ok_of_vaguer (h : List.Forall₂ Vaguer ts ts') (hok : d.checkGenericCall ts = .ok ()) :
    d.checkGenericCall ts' = .ok () := by
  obtain ⟨hlen, hinst⟩ := (d.checkGenericCall_ok_iff ts).1 hok
  refine (d.checkGenericCall_ok_iff ts').2 ⟨hlen.trans h.length_eq, ?_⟩
  exact checkInstance_ok_of_vaguer (fun p hp => d.isUnknown_of_mem_instantiate hp) h hinst

/-- A call of a plain declaration that is accepted is accepted when less is known of the arguments, also by a declaration whose
parameters have the same types up to owners. -/
theorem checkPlainCall_ok_of_vaguer {d' : Declaration} (hn : d.names = d'.names)
    (ht : d.types.map Ty.eraseOwners = d'.types.map Ty.eraseOwners) (h : List.Forall₂ Vaguer ts ts')
    (hok : d.checkPlainCall ts = .ok ()) : d'.checkPlainCall ts' = .ok () := by
  obtain ⟨hlen, hfits⟩ := checkPlainCall_ok_iff.1 hok
  have harity : d.arity = d'.arity := by simpa [arity] using congrArg List.length ht
  refine checkPlainCall_ok_iff.2 ⟨harity.symm.trans (hlen.trans h.length_eq), fun p hp => ?_⟩
  obtain ⟨i, hpn, hpt, hpa⟩ := (d'.mem_passed_iff ts' p).1 hp
  obtain ⟨a, ha, hl⟩ := exists_like_of_known h hpa
  obtain ⟨u, hu, he⟩ := exists_getElem?_of_map_eq ht.symm hpt
  have hf := hfits ⟨p.parameter, u, a⟩ ((d.mem_passed_iff ts _).2 ⟨i, hn ▸ hpn, hu, ha⟩)
  rw [Passed.fits, Ty.implements_iff] at hf ⊢
  rw [← hl.eraseOwners_eq, hf, he]

/-- A call that is accepted is accepted when less is known of the arguments. -/
theorem checkCall_ok_of_vaguer (h : List.Forall₂ Vaguer ts ts') (hok : d.checkCall ts = .ok ()) : d.checkCall ts' = .ok () := by
  unfold checkCall at hok ⊢
  split at hok
  · rename_i hg
    rw [if_pos hg]
    exact checkGenericCall_ok_of_vaguer h hok
  · rename_i hg
    rw [if_neg hg]
    exact checkPlainCall_ok_of_vaguer rfl rfl h hok

/-! ## The result of a call of which less is known -/

/-- The unknowns in the type of an argument have the site of that argument. -/
def Sited (ts : ArgTypes) : Prop :=
  ∀ (i : Nat) (a : Ty), ts[i]? = some (some a) → ∀ q, a.contains (.parameter q) = true → q.isUnknown = true →
    q.site = some (Scope.argumentSite i)

/-- The generic parameters in the type of an argument are declared, or they have the site of that argument. -/
theorem Sited.site_of_argument (hs : Sited ts) {i : Nat} {a : Ty} (ha : ts[i]? = some (some a)) {p : GenericParameter}
    (hp : a.contains (.parameter p) = true) : p.site = none ∨ p.site = some (Scope.argumentSite i) := by
  cases hu : p.isUnknown with
  | false => exact Or.inl (by simpa [GenericParameter.isUnknown] using hu)
  | true => exact Or.inr (hs i a ha p hp hu)

/-- The unknowns of arguments that are known less have their sites still. -/
theorem Sited.of_vaguer (hs : Sited ts) (h : List.Forall₂ Vaguer ts ts') : Sited ts' := by
  intro i b hb q hq hu
  obtain ⟨a, ha, hl⟩ := exists_like_of_known h hb
  rcases hl with rfl | ⟨-, hbo, -⟩
  · exact hs i a ha q hq hu
  · rw [(Ty.isOpen_eq_false_iff b).1 hbo q hq] at hu
    cases hu

/-- The unknowns in the types of a declaration instantiated for a call have the site of calls, and are its generic parameters. -/
theorem unknown_of_types (hd : d.Closed) {i : Nat} {u : Ty} (hu : (d.instantiate callSite).types[i]? = some u)
    {q : GenericParameter} (hq : u.contains (.parameter q) = true) (hun : q.isUnknown = true) :
    q.site = some callSite ∧ q ∈ (d.instantiate callSite).parameters := by
  obtain ⟨w, hw, rfl⟩ := exists_of_instance_types hu
  obtain ⟨o, ho, -, rfl⟩ := unknown_of_instance (hd.types w (List.mem_of_getElem? hw)) hq hun
  refine ⟨rfl, ?_⟩
  rw [instantiate_parameters]
  exact List.mem_map_of_mem ho

/-- The two ends of a constraint of a call met in an argument and its parameter's type. -/
theorem meets_of_mem_constraints {c : Constraint} (hc : c ∈ d.constraints ts) :
    ∃ (i : Nat) (u a x y : Ty), d.types[i]? = some u ∧ ts[i]? = some (some a) ∧ Ty.Meets u a x y ∧
      (x = .parameter c.1 ∧ y = c.2 ∨ y = .parameter c.1 ∧ x = c.2) := by
  obtain ⟨p, hp, -, hc⟩ := (d.mem_constraints_iff ts c).1 hc
  obtain ⟨i, -, ht, ha⟩ := (d.mem_passed_iff ts p).1 hp
  obtain ⟨x, y, hm, hxy⟩ := (Ty.mem_constraints_iff _ _ c).1 hc
  exact ⟨i, p.declared, p.argument, x, y, ht, ha, hm, hxy⟩

/-- An unknown that a chain leads to from an unknown of the call is one of the call, or of an argument whose type is known. -/
theorem site_of_linked (hd : d.Closed) (hs : Sited ts) {p q : GenericParameter} (hp : p.site = some callSite)
    (hl : Linked ((d.instantiate callSite).constraints ts) (.parameter p) (.parameter q)) (hq : q.isUnknown = true) :
    q.site = some callSite ∨ ∃ (i : Nat) (a : Ty), ts[i]? = some (some a) ∧ q.site = some (Scope.argumentSite i) := by
  -- Both ends of every constraint are such unknowns, where they are unknowns at all.
  let φ : Ty → Prop := fun x => ∀ q, x = .parameter q → q.isUnknown = true →
    q.site = some callSite ∨ ∃ (i : Nat) (a : Ty), ts[i]? = some (some a) ∧ q.site = some (Scope.argumentSite i)
  have hφ : φ (.parameter p) = φ (.parameter q) := by
    refine hl.eq_of_respects φ fun c hc => ?_
    obtain ⟨i, u, a, x, y, hu, ha, hm, hxy⟩ := meets_of_mem_constraints hc
    have hx : φ x := by
      rintro o rfl ho
      exact Or.inl (unknown_of_types hd hu hm.contains.1 ho).1
    have hy : φ y := by
      rintro o rfl ho
      exact Or.inr ⟨i, a, ha, hs i a ha o hm.contains.2 ho⟩
    rcases hxy with ⟨rfl, rfl⟩ | ⟨rfl, rfl⟩
    · exact propext (iff_of_true hx hy)
    · exact propext (iff_of_true hy hx)
  have hpφ : φ (.parameter p) := by
    intro o ho _
    obtain rfl := Ty.parameter.inj ho
    exact Or.inl hp
  exact (hφ ▸ hpφ) q rfl hq

/-- A constraint of a call is like one that is left, or it comes from an argument whose type is forgotten. -/
theorem constraint_kept_or_forgotten (h : List.Forall₂ Vaguer ts ts') {c : Constraint} (hc : c ∈ d.constraints ts) :
    (∃ c' ∈ d.constraints ts', Ty.Like (.parameter c.1) (.parameter c'.1) ∧ Ty.Like c.2 c'.2) ∨
    ∃ (i : Nat) (u a x y : Ty), d.types[i]? = some u ∧ ts[i]? = some (some a) ∧ ts'[i]? = some none ∧ Ty.Meets u a x y ∧
      (x = .parameter c.1 ∧ y = c.2 ∨ y = .parameter c.1 ∧ x = c.2) := by
  obtain ⟨p, hp, hs, hc⟩ := (d.mem_constraints_iff ts c).1 hc
  obtain ⟨i, hn, ht, ha⟩ := (d.mem_passed_iff ts p).1 hp
  rcases forgotten_or_like h ha with hnone | ⟨b, hb, hl⟩
  · right
    obtain ⟨x, y, hm, hxy⟩ := (Ty.mem_constraints_iff _ _ c).1 hc
    exact ⟨i, p.declared, p.argument, x, y, ht, ha, hnone, hm, hxy⟩
  · left
    obtain ⟨c', hc', hlike⟩ := hl.constraints hc
    refine ⟨c', (d.mem_constraints_iff ts' c').2 ⟨⟨p.parameter, p.declared, b⟩, ?_, ?_, hc'⟩, hlike⟩
    · exact (d.mem_passed_iff ts' _).2 ⟨i, hn, ht, hb⟩
    · rw [← isSolved_of_like hl]
      exact hs

/-- Where the chains that are left lead from an unknown of the call to unknowns only, and to none at whose position an argument of
unknown type stands, no chain was broken. -/
theorem linked_of_all_unknown (hd : d.Closed) (hs : Sited ts) (h : List.Forall₂ Vaguer ts ts') {p : GenericParameter}
    (hp : p.site = some callSite)
    (hall : ∀ x, Linked ((d.instantiate callSite).constraints ts') (.parameter p) x → x.isUnknown = true)
    (hfed : ∀ q, Linked ((d.instantiate callSite).constraints ts') (.parameter p) (.parameter q) →
      ¬(d.instantiate callSite).Fed ts' q) {x : Ty}
    (hl : Linked ((d.instantiate callSite).constraints ts) (.parameter p) x) :
    Linked ((d.instantiate callSite).constraints ts') (.parameter p) x := by
  let φ : Ty → Prop := Linked ((d.instantiate callSite).constraints ts') (.parameter p)
  have hφ : φ (.parameter p) = φ x := by
    refine hl.eq_of_respects φ fun c hc => propext ?_
    rcases constraint_kept_or_forgotten h hc with ⟨c', hc', h₁, h₂⟩ | ⟨i, u, a, y, z, hu, ha, hnone, hm, hyz⟩
    · -- One end of a constraint that is left is an unknown, so the other is, and the constraint itself is left.
      have hlink : Linked ((d.instantiate callSite).constraints ts') (.parameter c'.1) c'.2 := .of_mem hc'
      constructor
      · intro h₀
        have e₁ := h₁.eq_of_isUnknown (hall _ h₀)
        have h₃ : φ c'.2 := Linked.trans (e₁ ▸ h₀) hlink
        rw [← h₂.symm.eq_of_isUnknown (hall _ h₃)]
        exact h₃
      · intro h₀
        have e₂ := h₂.eq_of_isUnknown (hall _ h₀)
        have h₃ : φ (.parameter c'.1) := Linked.trans (e₂ ▸ h₀) hlink.symm
        rw [← h₁.symm.eq_of_isUnknown (hall _ h₃)]
        exact h₃
    · -- Neither end of a constraint that is gone is on a chain that is left.
      have hy : ¬φ y := by
        intro h₀
        obtain ⟨q, rfl, hq⟩ := Ty.eq_parameter_of_isUnknown (hall y h₀)
        exact hfed q h₀ ⟨(unknown_of_types hd hu hm.contains.1 hq).2, i, u, hu, hm.contains.1, hnone⟩
      have hz : ¬φ z := by
        intro h₀
        obtain ⟨q, rfl, hq⟩ := Ty.eq_parameter_of_isUnknown (hall z h₀)
        have hsite := hs i a ha q hm.contains.2 hq
        rcases site_of_linked hd (hs.of_vaguer h) hp h₀ hq with hcall | ⟨j, b, hb, hj⟩
        · exact Scope.argumentSite_ne_callSite i (Option.some.inj (hsite.symm.trans hcall))
        · obtain rfl := Scope.argumentSite_injective (Option.some.inj (hsite.symm.trans hj))
          rw [hnone] at hb
          cases hb
      rcases hyz with ⟨rfl, rfl⟩ | ⟨rfl, rfl⟩
      · exact iff_of_false hy hz
      · exact iff_of_false hz hy
  exact hφ.mp (Linked.refl (.parameter p))

/-- The type that a call gives a generic parameter is known less when less is known of the arguments, provided that chains that
are left lead to no types without unknowns but to those, up to owners, that chains led to before. -/
theorem solve_follows (hd : d.Closed) (hs : Sited ts) (h : List.Forall₂ Vaguer ts ts') {p : GenericParameter}
    (hp : p.site = some callSite)
    (hreached : ∀ e, reached ((d.instantiate callSite).constraints ts') (.parameter p) e →
      reached ((d.instantiate callSite).constraints ts) (.parameter p) e)
    {r : Option Ty}
    (hr : (d.instantiate callSite).solve ts (.ofConstraints ((d.instantiate callSite).constraints ts)) p = .ok r) :
    ∃ r', (d.instantiate callSite).solve ts' (.ofConstraints ((d.instantiate callSite).constraints ts')) p = .ok r' ∧
      Vaguer r r' := by
  by_cases hopen : ∀ t, Linked ((d.instantiate callSite).constraints ts') (.parameter p) t → t.isOpen = true
  · rcases (d.instantiate callSite).solve_of_open ts' hopen with ⟨hn, -⟩ | ⟨-, hall, hfed⟩
    · exact ⟨none, hn, .unknown r⟩
    · have hkept : ∀ x, Linked ((d.instantiate callSite).constraints ts) (.parameter p) x →
          Linked ((d.instantiate callSite).constraints ts') (.parameter p) x :=
        fun x hx => linked_of_all_unknown hd hs h hp hall hfed hx
      -- All chains are left, so the generic parameter had no type before.
      rcases (d.instantiate callSite).solve_of_open ts fun t ht => hopen t (hkept t ht) with ⟨-, hq | ht⟩ | ⟨herr, -⟩
      · obtain ⟨q, hq, hmem, i, u, hu, hcontains, hi⟩ := hq
        exact absurd ⟨hmem, i, u, hu, hcontains, unknown_of_unknown h hi⟩ (hfed q (hkept _ hq))
      · obtain ⟨t, ht, hu⟩ := ht
        rw [hall t (hkept t ht)] at hu
        cases hu
      · rw [herr] at hr
        cases hr
  · simp only [not_forall, Bool.not_eq_true] at hopen
    obtain ⟨t, hl, ht⟩ := hopen
    -- What the chains that are left lead to, all chains lead to, up to owners.
    obtain ⟨y, hly, hyo, -⟩ := hreached _ ⟨t, hl, ht, rfl⟩
    cases r with
    | none =>
      rw [isOpen_of_solve_none _ ts hr y hly] at hyo
      cases hyo
    | some a =>
      obtain ⟨hao, -, hagree⟩ := linked_of_solve _ ts hr
      have hagree' : ∀ b, Linked ((d.instantiate callSite).constraints ts') (.parameter p) b → b.isOpen = false →
          b.eraseOwners = a.eraseOwners := by
        intro b hlb hbo
        obtain ⟨z, hlz, hzo, hze⟩ := hreached _ ⟨b, hlb, hbo, rfl⟩
        rw [← hze, hagree z hlz hzo]
      obtain ⟨b, hb, hbo, hlb⟩ := (d.instantiate callSite).solve_of_agreeing ts' hl ht fun b hlb hbo => by
        rw [hagree' b hlb hbo, hagree' t hl ht]
      exact ⟨some b, hb, .known (Or.inr ⟨hao, hbo, (hagree' b hlb hbo).symm⟩)⟩

/-- Where each of several generic parameters stays of unknown type under another name, all of them together do. -/
theorem solveAll_follows {d' : Declaration} {f : GenericParameter → GenericParameter} {q q' : Partition}
    {ps : List GenericParameter}
    (h : ∀ p ∈ ps, ∀ r, d.solve ts q p = .ok r → ∃ r', d'.solve ts' q' (f p) = .ok r' ∧ (r = none → r' = none))
    {x : Option (List (GenericParameter × Ty))} (hx : d.solveAll ts q ps = .ok x) :
    ∃ x', d'.solveAll ts' q' (ps.map f) = .ok x' ∧ (x = none → x' = none) := by
  induction ps generalizing x with
  | nil =>
    obtain rfl := Except.ok.inj hx
    exact ⟨some [], rfl, by rintro ⟨⟩⟩
  | cons p ps ih =>
    rw [List.forall_mem_cons] at h
    obtain ⟨r, hr, hx⟩ := bind_eq_ok_iff.1 hx
    obtain ⟨r', hr', hkept⟩ := h.1 r hr
    rw [List.map_cons, solveAll, hr', ok_bind]
    cases r' with
    | none => exact ⟨none, rfl, fun _ => rfl⟩
    | some t' =>
      cases r with
      | none => cases hkept rfl
      | some t =>
        obtain ⟨rest, hrest, hx⟩ := bind_eq_ok_iff.1 hx
        obtain ⟨rest', hrest', hn⟩ := ih h.2 hrest
        dsimp only
        rw [hrest', ok_bind]
        cases rest' with
        | none => exact ⟨none, rfl, fun _ => rfl⟩
        | some found' =>
          cases rest with
          | none => cases hn rfl
          | some found =>
            obtain rfl := Except.ok.inj hx
            exact ⟨_, rfl, by rintro ⟨⟩⟩

/-- What was found for a generic parameter is, up to owners, what is found for it under another name, where the types of the
parameters are known less and no other parameter takes the name of one of them. -/
theorem eraseOwners_found_follows {d' : Declaration} {f : GenericParameter → GenericParameter} {q q' : Partition}
    {ps : List GenericParameter}
    (h : ∀ p ∈ ps, ∀ r, d.solve ts q p = .ok r → ∃ r', d'.solve ts' q' (f p) = .ok r' ∧ Vaguer (r.map (Ty.rename f)) r')
    (hinj : ∀ p ∈ ps, ∀ o, f o = f p → o = p) {found found' : List (GenericParameter × Ty)}
    (hx : d.solveAll ts q ps = .ok (some found)) (hx' : d'.solveAll ts' q' (ps.map f) = .ok (some found'))
    (p : GenericParameter) :
    (((found.lookup p).getD (.parameter p)).rename f).eraseOwners =
      ((found'.lookup (f p)).getD (.parameter (f p))).eraseOwners := by
  obtain ⟨hfound, hnot⟩ := lookup_of_solveAll _ _ hx p
  obtain ⟨hfound', hnot'⟩ := lookup_of_solveAll _ _ hx' (f p)
  by_cases hm : p ∈ ps
  · obtain ⟨t, ht, hst⟩ := hfound hm
    obtain ⟨t', ht', hst'⟩ := hfound' (List.mem_map_of_mem hm)
    obtain ⟨r', hr', hv⟩ := h p hm _ hst
    obtain rfl := Except.ok.inj (hst'.symm.trans hr')
    rw [ht, ht']
    exact hv.like.eraseOwners_eq
  · have hm' : f p ∉ ps.map f := by
      rw [List.mem_map]
      rintro ⟨o, ho, he⟩
      exact hm (hinj o ho p he.symm ▸ ho)
    rw [hnot hm, hnot' hm']
    rfl

/-- The result of an instantiated call is known less where the types that it gives its generic parameters are, also under other
names of generic parameters, as long as no other parameter takes the name of an unknown. -/
theorem resultOfInstance_follows {d' : Declaration} (hd : d.Closed) (hd' : d'.Closed) {f : GenericParameter → GenericParameter}
    (hinst : d'.instantiate callSite = (d.instantiate callSite).rename f) (hf : ∀ p, (f p).isUnknown = p.isUnknown)
    (hinj : ∀ p q, p.isUnknown = true → f q = f p → q = p)
    (hsolve : ∀ p ∈ (d.instantiate callSite).parameters, ∀ r,
      (d.instantiate callSite).solve ts (.ofConstraints ((d.instantiate callSite).constraints ts)) p = .ok r →
      ∃ r', (d'.instantiate callSite).solve ts' (.ofConstraints ((d'.instantiate callSite).constraints ts')) (f p) = .ok r' ∧
        Vaguer (r.map (Ty.rename f)) r')
    {r : Option Ty} (hr : (d.instantiate callSite).resultOfInstance ts = .ok r) :
    ∃ r', (d'.instantiate callSite).resultOfInstance ts' = .ok r' ∧ Vaguer (r.map (Ty.rename f)) r' := by
  have hown := ownInResult_rename (d := d.instantiate callSite) fun p hp q he => hinj p q (d.isUnknown_of_mem_instantiate hp) he
  rw [← hinst] at hown
  rw [resultOfInstance] at hr ⊢
  obtain ⟨x, hx, hr⟩ := bind_eq_ok_iff.1 hr
  obtain ⟨x', hx', hn⟩ := solveAll_follows (f := f) (fun p hp r hr => by
    obtain ⟨r', hr', hv⟩ := hsolve p (List.mem_filter.1 hp).1 r hr
    exact ⟨r', hr', fun hnone => by rw [hnone] at hv; exact hv.eq_none⟩) hx
  rw [hown, hx', ok_bind]
  cases x' with
  | none => exact ⟨none, rfl, .unknown _⟩
  | some found' =>
    cases x with
    | none => cases hn rfl
    | some found =>
      obtain rfl := Except.ok.inj hr
      have hclosed : (((d.instantiate callSite).ret.substitute fun p => found.lookup p).rename f).isOpen = false := by
        rw [Ty.isOpen_rename hf]
        exact isOpen_substitute_found hd hx
      have hclosed' : ((d'.instantiate callSite).ret.substitute fun p => found'.lookup p).isOpen = false :=
        isOpen_substitute_found hd' (hown ▸ hx')
      refine ⟨_, rfl, .known (Or.inr ⟨hclosed, hclosed', ?_⟩)⟩
      have hret : (d'.instantiate callSite).ret = (d.instantiate callSite).ret.rename f := by rw [hinst, rename]
      rw [hret, Ty.rename_substitute, Ty.substitute_rename, ← Ty.substitute_upToOwners, ← Ty.substitute_upToOwners]
      refine Ty.substitute_congr fun p _ => ?_
      simp only [Ty.upToOwners, Option.getD_some]
      exact eraseOwners_found_follows (fun p hp => hsolve p (List.mem_filter.1 hp).1)
        (fun p hp q => hinj p q (d.isUnknown_of_mem_instantiate (List.mem_filter.1 hp).1)) hx hx' p

/-- The result of a call is known less when less is known of the arguments, provided that from every generic parameter chains that
are left lead to no types without unknowns but to those, up to owners, that chains led to before. -/
theorem resultType_of_reached (hd : d.Closed) (hs : Sited ts) (h : List.Forall₂ Vaguer ts ts')
    (hreached : ∀ (p : GenericParameter) (e : Ty), reached ((d.instantiate callSite).constraints ts') (.parameter p) e →
      reached ((d.instantiate callSite).constraints ts) (.parameter p) e)
    {r : Option Ty} (hr : d.resultType ts = .ok r) : ∃ r', d.resultType ts' = .ok r' ∧ Vaguer r r' := by
  obtain ⟨hcount, hr⟩ := seq_eq_ok_iff.1 hr
  have hlen : d.arity = ts.length := ite_eq_ok_iff.1 hcount
  rw [resultType, checkCount, if_pos (hlen.trans h.length_eq), ok_bind]
  split at hr
  · rename_i hg
    rw [if_pos hg]
    have hsolve : ∀ p ∈ (d.instantiate callSite).parameters, ∀ r,
        (d.instantiate callSite).solve ts (.ofConstraints ((d.instantiate callSite).constraints ts)) p = .ok r →
        ∃ r', (d.instantiate callSite).solve ts' (.ofConstraints ((d.instantiate callSite).constraints ts')) p = .ok r' ∧
          Vaguer (r.map (Ty.rename fun p => p)) r' := by
      intro p hp r hr
      rw [instantiate_parameters, List.mem_map] at hp
      obtain ⟨o, -, rfl⟩ := hp
      rw [Ty.map_rename_id]
      exact solve_follows hd hs h rfl (hreached _) hr
    have hresult := resultOfInstance_follows (f := fun p => p) hd hd (rename_id _).symm (fun _ => rfl) (fun _ _ _ he => he)
      hsolve hr
    rwa [Ty.map_rename_id] at hresult
  · rename_i hg
    rw [if_neg hg]
    exact ⟨r, hr, .refl r⟩

/-- The result of an accepted call of a generic declaration is known less when less is known of the arguments. -/
theorem resultType_follows (hd : d.Closed) (hs : Sited ts) (h : List.Forall₂ Vaguer ts ts')
    (hok : d.checkGenericCall ts = .ok ()) {r : Option Ty} (hr : d.resultType ts = .ok r) :
    ∃ r', d.resultType ts' = .ok r' ∧ Vaguer r r' := by
  obtain ⟨-, hinst⟩ := (d.checkGenericCall_ok_iff ts).1 hok
  obtain ⟨-, -, -, hc⟩ := ((d.instantiate callSite).checkInstance_ok_iff ts).1 hinst
  refine resultType_of_reached hd hs h (fun p e hp => ?_) hr
  obtain ⟨y, hl, ho, rfl⟩ := hp
  rw [reached_eq hc (fun c hm => constraint_of_vaguer h hm) hl, reached_of_closed hc ho]

/-! ## Dropping the types of arguments -/

/-- The type of an argument is kept, or dropped. -/
def Drops (t t' : Option Ty) : Prop := t' = t ∨ t' = none

/-- A type that is dropped is known less. -/
theorem Drops.vaguer {t t' : Option Ty} (h : Drops t t') : Vaguer t t' := by
  rcases h with rfl | rfl
  · exact .refl _
  · exact .unknown t

/-- The constraints that are left when types of arguments are dropped were there before. -/
theorem constraints_of_drops (h : List.Forall₂ Drops ts ts') {c : Constraint} (hc : c ∈ d.constraints ts') :
    c ∈ d.constraints ts := by
  obtain ⟨p, hp, hs, hc⟩ := (d.mem_constraints_iff ts' c).1 hc
  obtain ⟨i, hn, ht, ha⟩ := (d.mem_passed_iff ts' p).1 hp
  have hkept : ts[i]? = some (some p.argument) := by
    have hr := rel_getElem? h i
    rw [ha] at hr
    generalize ts[i]? = x at hr
    cases hr with
    | some hdrop =>
      rcases hdrop with he | he
      · rw [he]
      · cases he
  exact (d.mem_constraints_iff ts c).2 ⟨p, (d.mem_passed_iff ts p).2 ⟨i, hn, ht, hkept⟩, hs, hc⟩

/-- Dropping the types of arguments does no harm. A call that was accepted is accepted. A call that had a result, be it accepted
or not, has one: it is unknown, or both are known and compatible. -/
theorem call_of_drops {d : Declaration} {args args' : ArgTypes} (hd : d.Closed) (hs : Sited args)
    (h : List.Forall₂ Drops args args') :
    (d.checkCall args = .ok () → d.checkCall args' = .ok ()) ∧
    ∀ r, d.resultType args = .ok r → ∃ r', d.resultType args' = .ok r' ∧
      (r' = none ∨ ∃ t t', r = some t ∧ r' = some t' ∧ t.isCompatibleWith t' = true) := by
  have hv : List.Forall₂ Vaguer args args' := h.imp fun _ _ hdrop => hdrop.vaguer
  refine ⟨checkCall_ok_of_vaguer hv, fun r hr => ?_⟩
  have hreached : ∀ (p : GenericParameter) (e : Ty), reached ((d.instantiate callSite).constraints args') (.parameter p) e →
      reached ((d.instantiate callSite).constraints args) (.parameter p) e := by
    rintro p e ⟨y, hl, ho, he⟩
    exact ⟨y, hl.mono fun c hc => constraints_of_drops h hc, ho, he⟩
  obtain ⟨r', hr', hvague⟩ := resultType_of_reached hd hs hv hreached hr
  exact ⟨r', hr', hvague.compatible⟩

/-- The generic identity as the second argument of a call. -/
def identitySecond : Ty :=
  .function [.parameter ⟨"T", "identity", some "arg1"⟩] (.parameter ⟨"T", "identity", some "arg1"⟩)

/-- A number and the generic identity are passed to `apply`. Without the number nothing is known of the result: its type came to
it through the unknowns of the identity, and the chain now ends at an argument of unknown type. -/
theorem apply_without_number :
    applySignature.resultType [some .number, some identitySecond] = .ok (some .number) ∧
    applySignature.checkCall [none, some identitySecond] = .ok () ∧
    ∃ r', applySignature.resultType [none, some identitySecond] = .ok r' ∧
      (r' = none ∨ ∃ t t', some Ty.number = some t ∧ r' = some t' ∧ t.isCompatibleWith t' = true) := by
  have hs : Sited [some .number, some identitySecond] := by
    intro i a ha q hq hu
    rcases i with _ | _ | i
    · obtain rfl := Option.some.inj (Option.some.inj ha)
      simp [Ty.contains, Ty.number] at hq
    · obtain rfl := Option.some.inj (Option.some.inj ha)
      obtain rfl : (⟨"T", "identity", some "arg1"⟩ : GenericParameter) = q := by
        simpa [identitySecond, Ty.contains] using hq
      rfl
    · cases ha
  have hresult : applySignature.resultType [some .number, some identitySecond] = .ok (some .number) := by cbv
  obtain ⟨hcheck, hkept⟩ := call_of_drops (d := applySignature) ⟨by decide, by decide, by decide⟩ hs
    (.cons (Or.inr rfl) (.cons (Or.inl rfl) .nil))
  exact ⟨hresult, hcheck (by cbv), hkept _ hresult⟩

end Declaration

end Gradual
