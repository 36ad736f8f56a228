import Gradual.Check.Typing
import Gradual.Proofs.Basic
import Gradual.Proofs.Types.Erasure

/-!
# Knowing less of a type

A type as far as it is known may be known less: not at all, or up to the owners of its generic parameters. `Ty.Like` relates types
that every test takes for one, and `Vaguer t t'` says that whatever is known of `t'` is known of `t`. A type that mentions
unknowns is like itself only, since constraints tell unknowns apart by their owners and sites.
-/

namespace Gradual

namespace Ty

/-- Two types are the same, or neither mentions an unknown and they are the same up to the owners of generic parameters. -/
def Like (a b : Ty) : Prop := a = b ∨ a.isOpen = false ∧ b.isOpen = false ∧ a.eraseOwners = b.eraseOwners

/-- The parts of types that are equal up to owners are equal up to owners. -/
theorem children_map_eraseOwners {a b : Ty} (h : a.eraseOwners = b.eraseOwners) :
    a.children.map eraseOwners = b.children.map eraseOwners := by
  cases a <;> cases b <;> simp_all [children]

namespace Like

variable {a b : Ty}

/-- A type is like itself. -/
theorem refl (a : Ty) : Like a a := Or.inl rfl

/-- Being like goes both ways. -/
theorem symm (h : Like a b) : Like b a := by
  rcases h with rfl | ⟨ha, hb, he⟩
  · exact refl a
  · exact Or.inr ⟨hb, ha, he.symm⟩

/-- What is like what is like a type is like the type. -/
theorem trans {c : Ty} (h : Like a b) (h' : Like b c) : Like a c := by
  rcases h with rfl | ⟨ha, hb, he⟩
  · exact h'
  · rcases h' with rfl | ⟨-, hc, he'⟩
    · exact Or.inr ⟨ha, hb, he⟩
    · exact Or.inr ⟨ha, hc, he.trans he'⟩

/-- Types that are like each other are the same up to owners. -/
theorem eraseOwners_eq (h : Like a b) : a.eraseOwners = b.eraseOwners := by
  rcases h with rfl | ⟨-, -, he⟩
  · rfl
  · exact he

/-- Of two types that are like each other both mention unknowns, or neither does. -/
theorem isOpen_eq (h : Like a b) : a.isOpen = b.isOpen := by
  rcases h with rfl | ⟨ha, hb, -⟩
  · rfl
  · rw [ha, hb]

/-- Parts at one place of types that are like each other are like each other. -/
theorem child (h : Like a b) {i : Nat} {c d : Ty} (hc : a.children[i]? = some c) (hd : b.children[i]? = some d) : Like c d := by
  rcases h with rfl | ⟨ha, hb, he⟩
  · obtain rfl := Option.some.inj (hc.symm.trans hd)
    exact refl c
  · refine Or.inr ⟨?_, ?_, eq_of_map_eq (children_map_eraseOwners he) hc hd⟩
    · exact isOpen_eq_false_of_contains ha (contains_of_child (List.mem_of_getElem? hc) (contains_self c))
    · exact isOpen_eq_false_of_contains hb (contains_of_child (List.mem_of_getElem? hd) (contains_self d))

/-- A type that is like a name is that name. -/
theorem eq_simple {n : String} (h : Like (.simple n) b) : b = .simple n := by
  have he := h.eraseOwners_eq
  cases b <;> simp_all

/-- A type that is like an application applies the same name to as many types. -/
theorem eq_applied {n : String} {as : List Ty} (h : Like (.applied n as) b) :
    ∃ bs, b = .applied n bs ∧ as.length = bs.length := by
  have he := h.eraseOwners_eq
  cases b with
  | applied m bs =>
    rw [eraseOwners_applied, eraseOwners_applied, Ty.applied.injEq] at he
    exact ⟨bs, by rw [he.1], by simpa using congrArg List.length he.2⟩
  | _ => simp at he

/-- A type that is like a function type is one, with parameters that are equal up to owners and a result that is like its
result. -/
theorem eq_function {ps : List Ty} {r : Ty} (h : Like (.function ps r) b) :
    ∃ qs r', b = .function qs r' ∧ ps.map eraseOwners = qs.map eraseOwners ∧ Like r r' := by
  have he := h.eraseOwners_eq
  cases b with
  | function qs r' =>
    rw [eraseOwners_function, eraseOwners_function, Ty.function.injEq] at he
    have hlen : ps.length = qs.length := by simpa using congrArg List.length he.1
    refine ⟨qs, r', rfl, he.1, h.child (i := ps.length) ?_ ?_⟩
    · simp [children]
    · simp [children, hlen]
  | _ => simp at he

/-- Functions with the same parameters and results that are like each other are like each other. -/
theorem function {ps : List Ty} (hps : ∀ p ∈ ps, p.isOpen = false) (h : Like a b) : Like (.function ps a) (.function ps b) := by
  rcases h with rfl | ⟨ha, hb, he⟩
  · exact refl _
  · refine Or.inr ⟨(isOpen_function_eq_false_iff ps a).2 ⟨hps, ha⟩, (isOpen_function_eq_false_iff ps b).2 ⟨hps, hb⟩, ?_⟩
    rw [eraseOwners_function, eraseOwners_function, he]

end Like

end Ty

/-- Whatever is known of the second type is known of the first. -/
def Vaguer (t t' : Option Ty) : Prop := ∀ b, t' = some b → ∃ a, t = some a ∧ Ty.Like a b

namespace Vaguer

/-- A type that is unknown is known less than any. -/
theorem unknown (t : Option Ty) : Vaguer t none := fun _ h => nomatch h

/-- A type that is like another is known no less. -/
theorem known {a b : Ty} (h : Ty.Like a b) : Vaguer (some a) (some b) := by
  intro c hc
  obtain rfl := Option.some.inj hc
  exact ⟨a, rfl, h⟩

/-- A type is known no less than it is. -/
theorem refl (t : Option Ty) : Vaguer t t := fun b hb => ⟨b, hb, .refl b⟩

/-- What is known less than what is known less is known less. -/
theorem trans {t t' t'' : Option Ty} (h : Vaguer t t') (h' : Vaguer t' t'') : Vaguer t t'' := by
  intro c hc
  obtain ⟨b, hb, hbc⟩ := h' c hc
  obtain ⟨a, ha, hab⟩ := h b hb
  exact ⟨a, ha, hab.trans hbc⟩

/-- Types of which the second is known less are like each other. -/
theorem like {a b : Ty} (h : Vaguer (some a) (some b)) : Ty.Like a b := by
  obtain ⟨c, hc, hl⟩ := h b rfl
  obtain rfl := Option.some.inj hc
  exact hl

/-- Of what is unknown nothing becomes known. -/
theorem eq_none {t' : Option Ty} (h : Vaguer none t') : t' = none := by
  cases t' with
  | none => rfl
  | some b =>
    obtain ⟨a, ha, -⟩ := h b rfl
    cases ha

/-- What follows from types that are like each other is known less when they are. -/
theorem bind {t t' : Option Ty} (h : Vaguer t t') {f g : Ty → Option Ty} (hf : ∀ a b, Ty.Like a b → Vaguer (f a) (g b)) :
    Vaguer (t.bind f) (t'.bind g) := by
  cases t' with
  | none => exact unknown _
  | some b =>
    obtain ⟨a, rfl, hl⟩ := h b rfl
    exact hf a b hl

/-- A type that is known less is unknown, or both are known and compatible with each other. -/
theorem compatible {t t' : Option Ty} (h : Vaguer t t') :
    t' = none ∨ ∃ a b, t = some a ∧ t' = some b ∧ a.isCompatibleWith b = true := by
  cases t' with
  | none => exact Or.inl rfl
  | some b =>
    obtain ⟨a, rfl, hl⟩ := h b rfl
    exact Or.inr ⟨a, b, rfl, rfl, (Ty.isCompatibleWith_iff a b).2 hl.eraseOwners_eq⟩

end Vaguer

/-! ## Elements and entries -/

namespace Ty.Like

variable {a b : Ty}

/-- The elements of sequences that are like each other are known alike. -/
theorem vaguer_element (h : Like a b) : Vaguer a.element? b.element? := by
  intro e he
  cases b with
  | applied n bs =>
    obtain ⟨as, rfl, hlen⟩ := h.symm.eq_applied
    match as, bs, hlen with
    | [c], [d], _ =>
      simp only [Ty.element?] at he ⊢
      split at he
      · rename_i hn
        obtain rfl := Option.some.inj he
        exact ⟨c, if_pos hn, h.child (i := 0) rfl rfl⟩
      · cases he
    | [], [], _ => simp [Ty.element?] at he
    | _ :: _ :: _, _ :: _ :: _, _ => simp [Ty.element?] at he
  | _ => simp [Ty.element?] at he

/-- The entries of collections that are like each other are known alike. -/
theorem vaguer_entry (h : Like a b) : Vaguer (Ty.entry? a) (Ty.entry? b) := by
  intro e he
  cases b with
  | applied n bs =>
    obtain ⟨as, rfl, hlen⟩ := h.symm.eq_applied
    match as, bs, hlen with
    | [c], [d], _ =>
      have hone : ∀ x : Ty, Ty.entry? (.applied n [x]) = (Ty.applied n [x]).element? := by
        intro x
        unfold Ty.entry?
        cases (Ty.applied n [x]).element? <;> rfl
      rw [hone] at he ⊢
      exact h.vaguer_element e he
    | [_, c], [_, d], _ =>
      simp only [Ty.entry?, Ty.element?] at he ⊢
      split at he
      · rename_i hn
        obtain rfl := Option.some.inj he
        exact ⟨c, if_pos hn, h.child (i := 1) rfl rfl⟩
      · cases he
    | [], [], _ => simp [Ty.entry?, Ty.element?] at he
    | _ :: _ :: _ :: _, _ :: _ :: _ :: _, _ => simp [Ty.entry?, Ty.element?] at he
  | _ => simp [Ty.entry?, Ty.element?] at he

end Ty.Like

end Gradual
