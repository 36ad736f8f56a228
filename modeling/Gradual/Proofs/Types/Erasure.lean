import Gradual.Types.Basic

/-!
# Types up to the owners of their generic parameters

`Ty.implements` looks at the name of a generic parameter and not at its owner, and its base cases are symmetric, so the turn at
the parameters of a function type changes nothing: a type implements another exactly when the two are equal after the owners of
their generic parameters are forgotten (`implements_iff`), which makes it an equivalence and, where there are no generic
parameters, plain equality (`implements_equality_up_to_owners`). Forgetting owners is a substitution, so it composes with every
other one (`substitute_substitute`). The functions on lists of types that stand beside those on types are the list operations they
look like.
-/

namespace Gradual.Ty

/-! ## Induction on types -/

/-- Induction on types, with the hypothesis for every type in the lists that a type holds. -/
@[elab_as_elim, induction_eliminator]
theorem ind {P : Ty → Prop} (simple : ∀ n, P (.simple n)) (parameter : ∀ p, P (.parameter p))
    (applied : ∀ n as, (∀ a ∈ as, P a) → P (.applied n as))
    (function : ∀ ps r, (∀ p ∈ ps, P p) → P r → P (.function ps r)) (t : Ty) : P t :=
  match t with
  | .simple n => simple n
  | .parameter p => parameter p
  | .applied n as => applied n as fun a _ => ind simple parameter applied function a
  | .function ps r =>
    function ps r (fun p _ => ind simple parameter applied function p) (ind simple parameter applied function r)

/-- Induction on types by their direct parts, for what looks at no more of a type. -/
theorem ind_children {P : Ty → Prop} (h : ∀ t, (∀ c ∈ t.children, P c) → P t) (t : Ty) : P t := by
  induction t with
  | simple n => exact h _ (by simp [children])
  | parameter p => exact h _ (by simp [children])
  | applied n as ih => exact h _ ih
  | function ps r ih ihr =>
    refine h _ fun c hc => ?_
    rcases List.mem_append.1 hc with hc | hc
    · exact ih c hc
    · exact List.mem_singleton.1 hc ▸ ihr

/-! ## Lists of types -/

@[simp] theorem anyParameterIn_eq (p : GenericParameter → Bool) (as : List Ty) :
    anyParameterIn p as = as.any (anyParameter p) := by
  induction as with
  | nil => rfl
  | cons a as ih => rw [anyParameterIn, ih, List.any_cons]

@[simp] theorem containsIn_eq (as : List Ty) (needle : Ty) : containsIn as needle = as.any (·.contains needle) := by
  induction as with
  | nil => rfl
  | cons a as ih => rw [containsIn, ih, List.any_cons]

@[simp] theorem substituteAll_eq (f : GenericParameter → Option Ty) (as : List Ty) :
    substituteAll f as = as.map (substitute f) := by
  induction as with
  | nil => rfl
  | cons a as ih => rw [substituteAll, ih, List.map_cons]

/-! ## What a type contains -/

/-- A type contains itself and what its parts contain. -/
theorem contains_iff (t x : Ty) : t.contains x = true ↔ t = x ∨ ∃ c ∈ t.children, c.contains x = true := by
  cases t <;> simp [contains, children, or_and_right, exists_or, or_assoc]

@[simp] theorem contains_self (t : Ty) : t.contains t = true := (contains_iff t t).2 (Or.inl rfl)

/-- A type contains what its parts contain. -/
theorem contains_of_child {t c x : Ty} (hc : c ∈ t.children) (h : c.contains x = true) : t.contains x = true :=
  (contains_iff t x).2 (Or.inr ⟨c, hc, h⟩)

/-- The parts of the parts of a type are parts of it. -/
theorem contains_trans {a b c : Ty} (hab : a.contains b = true) (hbc : b.contains c = true) : a.contains c = true := by
  induction a using ind_children with
  | h a ih =>
    rcases (contains_iff _ _).1 hab with rfl | ⟨d, hd, h⟩
    · exact hbc
    · exact contains_of_child hd (ih d hd h)

/-- A type mentions a generic parameter with a property exactly when it contains one. -/
theorem anyParameter_iff (f : GenericParameter → Bool) (t : Ty) :
    t.anyParameter f = true ↔ ∃ p, t.contains (.parameter p) = true ∧ f p = true := by
  induction t with
  | simple n => simp [anyParameter, contains]
  | parameter q => simp [anyParameter, contains]
  | applied n as ih =>
    simp only [anyParameter, anyParameterIn_eq, List.any_eq_true, contains, containsIn_eq, Bool.or_eq_true,
      decide_eq_true_eq, reduceCtorEq, false_or]
    constructor
    · rintro ⟨a, ha, h⟩
      obtain ⟨p, hp, hf⟩ := (ih a ha).1 h
      exact ⟨p, ⟨a, ha, hp⟩, hf⟩
    · rintro ⟨p, ⟨a, ha, hp⟩, hf⟩
      exact ⟨a, ha, (ih a ha).2 ⟨p, hp, hf⟩⟩
  | function ps r ih ihr =>
    simp only [anyParameter, anyParameterIn_eq, List.any_eq_true, contains, containsIn_eq, Bool.or_eq_true,
      decide_eq_true_eq, reduceCtorEq, false_or]
    constructor
    · rintro (⟨a, ha, h⟩ | h)
      · obtain ⟨p, hp, hf⟩ := (ih a ha).1 h
        exact ⟨p, Or.inl ⟨a, ha, hp⟩, hf⟩
      · obtain ⟨p, hp, hf⟩ := ihr.1 h
        exact ⟨p, Or.inr hp, hf⟩
    · rintro ⟨p, ⟨a, ha, hp⟩ | hp, hf⟩
      · exact Or.inl ⟨a, ha, (ih a ha).2 ⟨p, hp, hf⟩⟩
      · exact Or.inr (ihr.2 ⟨p, hp, hf⟩)

/-- A type is generic when it contains a generic parameter. -/
theorem isGeneric_iff (t : Ty) : t.isGeneric = true ↔ ∃ p, t.contains (.parameter p) = true := by
  simp [isGeneric, anyParameter_iff]

/-- A type is open when it contains an unknown. -/
theorem isOpen_iff (t : Ty) : t.isOpen = true ↔ ∃ p, t.contains (.parameter p) = true ∧ p.isUnknown = true :=
  anyParameter_iff _ t

/-- A type is closed exactly when the generic parameters it contains are none of them unknowns. -/
theorem isOpen_eq_false_iff (t : Ty) :
    t.isOpen = false ↔ ∀ p, t.contains (.parameter p) = true → p.isUnknown = false := by
  rw [← Bool.not_eq_true, isOpen_iff]
  simp

@[simp] theorem isOpen_parameter (p : GenericParameter) : (Ty.parameter p).isOpen = p.isUnknown := rfl

/-- A type applied to others is closed exactly when they are. -/
theorem isOpen_applied_eq_false_iff (n : String) (as : List Ty) :
    (Ty.applied n as).isOpen = false ↔ ∀ a ∈ as, a.isOpen = false := by
  simp [isOpen, anyParameter]

/-- A function type is closed exactly when its parameters and its result are. -/
theorem isOpen_function_eq_false_iff (ps : List Ty) (r : Ty) :
    (Ty.function ps r).isOpen = false ↔ (∀ p ∈ ps, p.isOpen = false) ∧ r.isOpen = false := by
  simp [isOpen, anyParameter]

/-- The parts of a type without unknowns have none. -/
theorem isOpen_eq_false_of_contains {a b : Ty} (ha : a.isOpen = false) (h : a.contains b = true) : b.isOpen = false := by
  rw [isOpen_eq_false_iff] at ha ⊢
  exact fun p hp => ha p (contains_trans h hp)

/-! ## Substitution -/

/-- What a substitution makes of a type depends only on what it makes of the generic parameters that the type contains. -/
theorem substitute_congr {f g : GenericParameter → Option Ty} {t : Ty}
    (h : ∀ p, t.contains (.parameter p) = true → (f p).getD (.parameter p) = (g p).getD (.parameter p)) :
    t.substitute f = t.substitute g := by
  induction t with
  | simple n => rfl
  | parameter p => exact h p (contains_self _)
  | applied n as ih =>
    simp only [substitute, substituteAll_eq, applied.injEq, true_and]
    exact List.map_congr_left fun a ha => ih a ha fun p hp => h p (contains_of_child ha hp)
  | function ps r ih ihr =>
    simp only [substitute, substituteAll_eq, function.injEq]
    refine ⟨List.map_congr_left fun a ha => ih a ha fun p hp => h p (contains_of_child ?_ hp), ihr fun p hp => h p ?_⟩
    · exact List.mem_append_left _ ha
    · exact contains_of_child (List.mem_append_right _ (List.mem_singleton_self r)) hp

/-- Replacing no generic parameter changes nothing. -/
theorem substitute_none (t : Ty) : t.substitute (fun _ => none) = t := by
  induction t with
  | simple n => rfl
  | parameter p => rfl
  | applied n as ih =>
    simp only [substitute, substituteAll_eq, applied.injEq, true_and]
    exact (List.map_congr_left fun a ha => ih a ha).trans (List.map_id as)
  | function ps r ih ihr =>
    simp only [substitute, substituteAll_eq, function.injEq, ihr, and_true]
    exact (List.map_congr_left fun a ha => ih a ha).trans (List.map_id ps)

/-- One substitution after another is the substitution that replaces by what the second makes of the first. -/
theorem substitute_substitute (f g : GenericParameter → Option Ty) (t : Ty) :
    (t.substitute f).substitute g = t.substitute fun p => some (((f p).getD (.parameter p)).substitute g) := by
  induction t with
  | simple n => rfl
  | parameter p => rfl
  | applied n as ih =>
    simp only [substitute, substituteAll_eq, List.map_map, applied.injEq, true_and]
    exact List.map_congr_left fun a ha => ih a ha
  | function ps r ih ihr =>
    simp only [substitute, substituteAll_eq, List.map_map, function.injEq, ihr, and_true]
    exact List.map_congr_left fun a ha => ih a ha

/-- What replaces the generic parameters of a type contains all the generic parameters that a substitution leaves. -/
theorem contains_substitute {f : GenericParameter → Option Ty} {t : Ty} {p : GenericParameter}
    (h : (t.substitute f).contains (.parameter p) = true) :
    ∃ q, t.contains (.parameter q) = true ∧ ((f q).getD (.parameter q)).contains (.parameter p) = true := by
  induction t with
  | simple n => simp [substitute, contains] at h
  | parameter q => exact ⟨q, contains_self _, h⟩
  | applied n as ih =>
    simp only [substitute, substituteAll_eq, contains, containsIn_eq, reduceCtorEq, decide_false, Bool.false_or,
      List.any_eq_true, List.mem_map] at h
    obtain ⟨_, ⟨a, ha, rfl⟩, hc⟩ := h
    obtain ⟨q, hq, hp⟩ := ih a ha hc
    exact ⟨q, contains_of_child ha hq, hp⟩
  | function ps r ih ihr =>
    simp only [substitute, substituteAll_eq, contains, containsIn_eq, reduceCtorEq, decide_false, Bool.false_or,
      Bool.or_eq_true, List.any_eq_true, List.mem_map] at h
    rcases h with ⟨_, ⟨a, ha, rfl⟩, hc⟩ | hc
    · obtain ⟨q, hq, hp⟩ := ih a ha hc
      exact ⟨q, contains_of_child (List.mem_append_left _ ha) hq, hp⟩
    · obtain ⟨q, hq, hp⟩ := ihr hc
      exact ⟨q, contains_of_child (List.mem_append_right _ (List.mem_singleton_self r)) hq, hp⟩

/-- A type that has parts is no generic parameter. -/
theorem parameter?_of_child {t c : Ty} (hc : c ∈ t.children) : t.parameter? = none := by
  cases t with
  | parameter p => cases hc
  | _ => rfl

/-- The parts of a type under a substitution, unless the type is a generic parameter. -/
theorem children_substitute (f : GenericParameter → Option Ty) {t : Ty} (h : t.parameter? = none) :
    (t.substitute f).children = t.children.map (substitute f) := by
  cases t with
  | parameter p => cases h
  | _ => simp [substitute, children]

/-- What a substitution puts for a generic parameter of a type is contained in what it makes of the type. -/
theorem contains_substitute_of_contains {t : Ty} {p : GenericParameter} (h : t.contains (.parameter p) = true)
    (f : GenericParameter → Option Ty) : (t.substitute f).contains ((parameter p).substitute f) = true := by
  induction t using ind_children with
  | h t ih =>
    rcases (contains_iff t _).1 h with rfl | ⟨c, hc, hp⟩
    · exact contains_self _
    · refine contains_of_child ?_ (ih c hc hp)
      rw [children_substitute f (parameter?_of_child hc)]
      exact List.mem_map_of_mem hc

/-! ## Forgetting owners -/

/-- A type with the owners of its generic parameters forgotten, and whether they are unknowns. -/
def eraseOwners (t : Ty) : Ty := t.substitute fun p => some (.parameter (.declared p.name ""))

@[simp] theorem eraseOwners_simple (n : String) : (simple n).eraseOwners = .simple n := rfl

@[simp] theorem eraseOwners_parameter (p : GenericParameter) :
    (parameter p).eraseOwners = .parameter (.declared p.name "") := rfl

@[simp] theorem eraseOwners_applied (n : String) (as : List Ty) :
    (applied n as).eraseOwners = .applied n (as.map eraseOwners) := by
  simp [eraseOwners, substitute]

@[simp] theorem eraseOwners_function (ps : List Ty) (r : Ty) :
    (function ps r).eraseOwners = .function (ps.map eraseOwners) r.eraseOwners := by
  simp [eraseOwners, substitute]

/-- A substitution followed by forgetting owners. -/
def upToOwners (f : GenericParameter → Option Ty) (p : GenericParameter) : Option Ty :=
  some ((f p).getD (.parameter p)).eraseOwners

/-- Substituting up to owners is substituting, and forgetting owners then. -/
theorem substitute_upToOwners (f : GenericParameter → Option Ty) (t : Ty) :
    t.substitute (upToOwners f) = (t.substitute f).eraseOwners :=
  (substitute_substitute f _ t).symm

/-- A list implements another, place by place, exactly when the two are equal up to owners, provided that holds of the types in
them. -/
theorem allImplement_iff {as bs : List Ty}
    (h : ∀ a ∈ as, ∀ b ∈ bs, a.implements b = true ↔ a.eraseOwners = b.eraseOwners) :
    allImplement as bs = true ↔ as.map eraseOwners = bs.map eraseOwners := by
  induction as generalizing bs with
  | nil => cases bs <;> simp [allImplement]
  | cons a as ih =>
    cases bs with
    | nil => simp [allImplement]
    | cons b bs =>
      simp only [allImplement, Bool.and_eq_true, List.map_cons, List.cons.injEq]
      rw [h a List.mem_cons_self b List.mem_cons_self,
        ih fun x hx y hy => h x (List.mem_cons_of_mem a hx) y (List.mem_cons_of_mem b hy)]

/-- A type implements another, and is implemented by it, exactly when the two are equal up to owners. Both directions go through
the induction together, as they change places at the parameters of a function type. -/
theorem implements_both (a : Ty) :
    ∀ b, (a.implements b = true ↔ a.eraseOwners = b.eraseOwners) ∧ (b.implements a = true ↔ b.eraseOwners = a.eraseOwners) := by
  induction a with
  | simple n => intro b; cases b <;> simp [implements]
  | parameter p => intro b; cases b <;> simp [implements, GenericParameter.declared]
  | applied n as ih =>
    intro b
    cases b with
    | applied m bs =>
      simp only [implements, Bool.and_eq_true, beq_iff_eq, eraseOwners_applied, applied.injEq]
      rw [allImplement_iff fun a ha b _ => (ih a ha b).1, allImplement_iff fun b _ a ha => (ih a ha b).2]
      exact ⟨Iff.rfl, Iff.rfl⟩
    | _ => simp [implements]
  | function ps r ih ihr =>
    intro b
    cases b with
    | function qs s =>
      simp only [implements, Bool.and_eq_true, eraseOwners_function, function.injEq]
      rw [allImplement_iff fun a ha b _ => (ih a ha b).1, allImplement_iff fun b _ a ha => (ih a ha b).2, (ihr s).1, (ihr s).2]
      exact ⟨and_congr_left' eq_comm, and_congr_left' eq_comm⟩
    | _ => simp [implements]

/-- A type implements another exactly when the two are equal up to the owners of their generic parameters. -/
theorem implements_iff (a b : Ty) : a.implements b = true ↔ a.eraseOwners = b.eraseOwners :=
  (implements_both a b).1

/-- Types are compatible exactly when they are equal up to the owners of their generic parameters. -/
theorem isCompatibleWith_iff (a b : Ty) : a.isCompatibleWith b = true ↔ a.eraseOwners = b.eraseOwners := by
  rw [isCompatibleWith, Bool.and_eq_true, implements_iff, implements_iff]
  exact ⟨fun h => h.1, fun h => ⟨h, h.symm⟩⟩

/-! ## Implementing as an equality -/

/-- Forgetting owners takes no generic parameter away. -/
theorem isGeneric_eraseOwners (t : Ty) : t.eraseOwners.isGeneric = t.isGeneric := by
  rw [Bool.eq_iff_iff, isGeneric_iff, isGeneric_iff]
  constructor
  · rintro ⟨p, hp⟩
    obtain ⟨q, hq, -⟩ := contains_substitute hp
    exact ⟨q, hq⟩
  · rintro ⟨p, hp⟩
    exact ⟨_, contains_substitute_of_contains hp _⟩

/-- A type without generic parameters has no owners to forget. -/
theorem eraseOwners_of_not_isGeneric {t : Ty} (h : t.isGeneric = false) : t.eraseOwners = t := by
  have hnone : ∀ p, t.contains (.parameter p) ≠ true := by
    intro p hp
    rw [(isGeneric_iff t).2 ⟨p, hp⟩] at h
    cases h
  rw [eraseOwners, substitute_congr fun p hp => absurd hp (hnone p), substitute_none]

/-- Only a type without generic parameters is equal to one up to owners, and then to the letter. -/
theorem eraseOwners_eq_iff_of_not_isGeneric {a : Ty} (h : a.isGeneric = false) (b : Ty) :
    a.eraseOwners = b.eraseOwners ↔ a = b := by
  refine ⟨fun hab => ?_, fun hab => by rw [hab]⟩
  have hb : b.isGeneric = false := by rw [← isGeneric_eraseOwners, ← hab, isGeneric_eraseOwners, h]
  rwa [eraseOwners_of_not_isGeneric h, eraseOwners_of_not_isGeneric hb] at hab

/-- To implement a type is to be equal to it up to the owners of generic parameters. So it is an equivalence, though the
parameters of function types are compared the other way around, it is the same as to be compatible, and it is plain equality for
types without generic parameters. -/
theorem implements_equality_up_to_owners :
    (∀ a b : Ty, a.implements b = true ↔ a.eraseOwners = b.eraseOwners) ∧
      (Equivalence fun a b : Ty => a.implements b = true) ∧
      (∀ a b : Ty, a.isCompatibleWith b = a.implements b) ∧
      ∀ a b : Ty, a.isGeneric = false → (a.implements b = true ↔ a = b) := by
  refine ⟨implements_iff, ?_, fun a b => ?_, fun a b h => ?_⟩
  · simp only [implements_iff]
    exact ⟨fun _ => rfl, fun h => h.symm, fun h h' => h.trans h'⟩
  · rw [Bool.eq_iff_iff, isCompatibleWith_iff, implements_iff]
  · rw [implements_iff, eraseOwners_eq_iff_of_not_isGeneric h]

end Gradual.Ty
