import Mathlib.Data.List.Forall2

/-!
# Look-ups and outcomes

What the proofs use of lists and of computations that may fail: a look-up in a list of pairs, case by case, the partners in two
lists with equal images or with related members, and the conditions under which a sequence of steps succeeds or two sequences have
related outcomes.
-/

namespace Gradual

/-! ## Look-ups -/

section Lookup

variable {κ α β : Type} [DecidableEq κ]

/-- A look-up finds the first pair of its key. -/
theorem lookup_cons_ite (k x : κ) (a : α) (l : List (κ × α)) :
    ((k, a) :: l).lookup x = if x = k then some a else l.lookup x := by
  by_cases h : x = k
  · simp [h]
  · simp [List.lookup_cons, beq_eq_false_iff_ne.2 h, h]

/-- A look-up where the values were changed. -/
theorem lookup_map_snd (f : α → β) (x : κ) (l : List (κ × α)) :
    (l.map fun m => (m.1, f m.2)).lookup x = (l.lookup x).map f := by
  induction l with
  | nil => rfl
  | cons m l ih =>
    rw [List.map_cons, lookup_cons_ite, lookup_cons_ite, ih]
    by_cases h : x = m.1 <;> simp [h]

/-- A look-up where the keys were changed, different ones to different ones. -/
theorem lookup_map_fst {κ' : Type} [DecidableEq κ'] {f : κ → κ'} (hf : Function.Injective f) (x : κ) (l : List (κ × α)) :
    (l.map fun m => (f m.1, m.2)).lookup (f x) = l.lookup x := by
  induction l with
  | nil => rfl
  | cons m l ih =>
    rw [List.map_cons, lookup_cons_ite, lookup_cons_ite, ih]
    simp only [hf.eq_iff]

/-- Where each member stands once, it is found where it stands. -/
theorem idxOf?_eq_some_iff_getElem? {l : List κ} (h : l.Nodup) {x : κ} {i : Nat} : l.idxOf? x = some i ↔ l[i]? = some x := by
  rw [List.idxOf?_eq_some_iff, List.getElem?_eq_some_iff]
  constructor
  · rintro ⟨hi, hx, -⟩
    exact ⟨hi, hx⟩
  · rintro ⟨hi, hx⟩
    refine ⟨hi, hx, fun j hj hjx => ?_⟩
    have hj' : j < l.length := Nat.lt_trans hj hi
    have : j = i := (List.getElem?_inj hj' h).1 (by rw [List.getElem?_eq_getElem hj', List.getElem?_eq_getElem hi, hjx, hx])
    omega

end Lookup

/-! ## Lists with equal images -/

/-- In two lists with equal images, what stands at a place of one has its partner in the other. -/
theorem exists_getElem?_of_map_eq {α β γ : Type} {f : α → γ} {g : β → γ} {as : List α} {bs : List β}
    (h : as.map f = bs.map g) {i : Nat} {a : α} (ha : as[i]? = some a) : ∃ b, bs[i]? = some b ∧ f a = g b := by
  have hi : (as.map f)[i]? = some (f a) := by rw [List.getElem?_map, ha]; rfl
  rw [h, List.getElem?_map, Option.map_eq_some_iff] at hi
  obtain ⟨b, hb, he⟩ := hi
  exact ⟨b, hb, he.symm⟩

/-- In two lists with equal images, what stands at one place has one image. -/
theorem eq_of_map_eq {α β γ : Type} {f : α → γ} {g : β → γ} {as : List α} {bs : List β} (h : as.map f = bs.map g) {i : Nat}
    {a : α} {b : β} (ha : as[i]? = some a) (hb : bs[i]? = some b) : f a = g b := by
  obtain ⟨b', hb', he⟩ := exists_getElem?_of_map_eq h ha
  rw [hb, Option.some.injEq] at hb'
  exact hb' ▸ he

/-! ## Lists with related members -/

section Related

variable {α β γ δ : Type}

/-- Where related things are related in another way, so are those that may be missing. -/
theorem rel_imp {α β : Type} {R S : α → β → Prop} {x : Option α} {y : Option β} (h : Option.Rel R x y)
    (hRS : ∀ a b, x = some a → y = some b → R a b → S a b) : Option.Rel S x y := by
  cases h with
  | none => exact .none
  | some h => exact .some (hRS _ _ rfl rfl h)

/-- Related values are both there, or neither is. -/
theorem rel_isSome {R : α → β → Prop} {x : Option α} {y : Option β} (h : Option.Rel R x y) : x.isSome = y.isSome := by
  cases h <;> rfl

/-- Values that are related by equality are equal. -/
theorem eq_of_rel_eq {x y : Option α} (h : Option.Rel Eq x y) : x = y := by
  cases h with
  | some h => rw [h]
  | none => rfl

/-- What stands at one place of two lists with related members is related. -/
theorem rel_getElem? {R : α → β → Prop} {as : List α} {bs : List β} (h : List.Forall₂ R as bs) (i : Nat) :
    Option.Rel R as[i]? bs[i]? := by
  induction h generalizing i with
  | nil => exact .none
  | cons hab _ ih =>
    cases i with
    | zero => exact .some hab
    | succ i => exact ih i

/-- Lists whose elements are related at every position are related one by one. -/
theorem forall₂_of_rel_getElem? {R : α → β → Prop} {as : List α} {bs : List β} (h : ∀ i : Nat, Option.Rel R as[i]? bs[i]?) :
    List.Forall₂ R as bs := by
  induction as generalizing bs with
  | nil =>
    cases bs with
    | nil => exact .nil
    | cons b bs => cases h 0
  | cons a as ih =>
    cases bs with
    | nil => cases h 0
    | cons b bs =>
      refine .cons ?_ (ih fun i => h (i + 1))
      cases h 0 with
      | some hab => exact hab

/-- What is found first in two lists with related members is related, when what the members give is. -/
theorem rel_findSome? {R : α → β → Prop} {Q : γ → δ → Prop} {as : List α} {bs : List β} (h : List.Forall₂ R as bs)
    {f : α → Option γ} {g : β → Option δ} (hf : ∀ a b, R a b → Option.Rel Q (f a) (g b)) :
    Option.Rel Q (as.findSome? f) (bs.findSome? g) := by
  induction h with
  | nil => exact .none
  | @cons a b as bs hab _ ih =>
    rw [List.findSome?_cons, List.findSome?_cons]
    have hq := hf a b hab
    generalize f a = x at hq ⊢
    generalize g b = y at hq ⊢
    cases hq with
    | some hq => exact .some hq
    | none => exact ih

end Related

/-! ## Outcomes -/

section Except

variable {ε α β : Type}

/-- A step that succeeds leaves what follows it. -/
theorem ok_bind (a : α) (f : α → Except ε β) : (.ok a >>= f) = f a := rfl

/-- A sequence of two steps succeeds when the first does and the second does from what the first yields. -/
theorem bind_eq_ok_iff {x : Except ε α} {f : α → Except ε β} {b : β} :
    (x >>= f) = .ok b ↔ ∃ a, x = .ok a ∧ f a = .ok b := by
  cases x with
  | error e => simp [bind, Except.bind]
  | ok a => simp [bind, Except.bind]

/-- A sequence whose first step yields nothing succeeds when both steps do. -/
theorem seq_eq_ok_iff {x : Except ε Unit} {f : Unit → Except ε β} {b : β} : (x >>= f) = .ok b ↔ x = .ok () ∧ f () = .ok b := by
  rw [bind_eq_ok_iff]
  exact ⟨fun ⟨_, h⟩ => h, fun h => ⟨(), h⟩⟩

/-- A sequence of two steps fails when the first does, or when the second does from what the first yields. -/
theorem bind_eq_error_iff {x : Except ε α} {f : α → Except ε β} {e : ε} :
    (x >>= f) = .error e ↔ x = .error e ∨ ∃ a, x = .ok a ∧ f a = .error e := by
  cases x with
  | error e => simp [bind, Except.bind]
  | ok a => simp [bind, Except.bind]

/-- Sequences with one first step are equal when they go on alike from what it yields. -/
theorem bind_eq_of_ok {x : Except ε α} {f g : α → Except ε β} (h : ∀ a, x = .ok a → f a = g a) : x >>= f = x >>= g := by
  cases x with
  | error e => rfl
  | ok a => exact h a rfl

/-- A test succeeds when its condition holds. -/
theorem ite_eq_ok_iff {c : Prop} [Decidable c] {e : ε} : (if c then .ok () else .error e : Except ε Unit) = .ok () ↔ c := by
  by_cases h : c <;> simp [h]

/-- Another view of what a step yields is one of something that it yielded. -/
theorem map_eq_ok_iff {x : Except ε α} {f : α → β} {b : β} : x.map f = .ok b ↔ ∃ a, x = .ok a ∧ f a = b := by
  cases x <;> simp [Except.map]

/-- Another view of the errors leaves the successes as they are. -/
theorem mapError_eq_ok_iff {ε' : Type} {x : Except ε α} {f : ε → ε'} {a : α} : x.mapError f = .ok a ↔ x = .ok a := by
  cases x <;> simp [Except.mapError]

/-- Another view of the errors is one of an error that there was. -/
theorem mapError_eq_error_iff {ε' : Type} {x : Except ε α} {f : ε → ε'} {e : ε'} :
    x.mapError f = .error e ↔ ∃ e', x = .error e' ∧ f e' = e := by
  cases x <;> simp [Except.mapError]

/-- A step for every member of a list succeeds when each of them does. -/
theorem forM_eq_ok_iff {l : List α} {f : α → Except ε Unit} : l.forM f = .ok () ↔ ∀ a ∈ l, f a = .ok () := by
  induction l with
  | nil => simp [List.forM, pure, Except.pure]
  | cons a l ih =>
    rw [List.forM, seq_eq_ok_iff, List.forall_mem_cons]
    exact and_congr_right' ih

/-- A step for every member of a list fails as it does for one of them. -/
theorem exists_mem_of_forM_eq_error {l : List α} {f : α → Except ε Unit} {e : ε} (h : l.forM f = .error e) :
    ∃ a ∈ l, f a = .error e := by
  induction l with
  | nil => cases h
  | cons a l ih =>
    rw [List.forM, bind_eq_error_iff] at h
    rcases h with h | ⟨_, -, h⟩
    · exact ⟨a, List.mem_cons_self, h⟩
    · obtain ⟨b, hb, he⟩ := ih h
      exact ⟨b, List.mem_cons_of_mem a hb, he⟩

/-- What follows from the value that a step yields, and nothing where the step fails. -/
def following (x : Except ε α) (f : α → List β) : List β :=
  match x with
  | .ok a => f a
  | .error _ => []

/-- What may follow is what follows a success. -/
theorem mem_following_iff {x : Except ε α} {f : α → List β} {b : β} : b ∈ following x f ↔ ∃ a, x = .ok a ∧ b ∈ f a := by
  cases x with
  | error e => simp [following]
  | ok a => simp [following]

/-- Two outcomes are related: both fail with one error, or both succeed and what they yield is related. -/
inductive Related (R : α → β → Prop) : Except ε α → Except ε β → Prop
  | ok {a : α} {b : β} (h : R a b) : Related R (.ok a) (.ok b)
  | error (e : ε) : Related R (.error e) (.error e)

/-- Related outcomes go on to one outcome when what they yield does. -/
theorem Related.bind_eq {γ : Type} {R : α → β → Prop} {x : Except ε α} {y : Except ε β} (h : Related R x y)
    {f : α → Except ε γ} {g : β → Except ε γ} (hf : ∀ a b, R a b → f a = g b) : x >>= f = y >>= g := by
  cases h with
  | ok h => exact hf _ _ h
  | error e => rfl

/-- Outcomes that start alike are related when what they go on to is. -/
theorem Related.bind_left {γ : Type} {R : β → γ → Prop} (x : Except ε α) {f : α → Except ε β} {g : α → Except ε γ}
    (hf : ∀ a, Related R (f a) (g a)) : Related R (x >>= f) (x >>= g) := by
  cases x with
  | error e => exact .error e
  | ok a => exact hf a

/-- Related outcomes go on to related outcomes when what they yield does. -/
theorem Related.bind {γ δ : Type} {R : α → β → Prop} {Q : γ → δ → Prop} {x : Except ε α} {y : Except ε β} (h : Related R x y)
    {f : α → Except ε γ} {g : β → Except ε δ} (hf : ∀ a b, R a b → Related Q (f a) (g b)) :
    Related Q (x >>= f) (y >>= g) := by
  cases h with
  | ok h => exact hf _ _ h
  | error e => exact .error e

/-- Two outcomes agree: both fail, for whatever reasons, or both succeed and what they yield is related. -/
inductive Agree (R : α → β → Prop) : Except ε α → Except ε β → Prop
  | ok {a : α} {b : β} (h : R a b) : Agree R (.ok a) (.ok b)
  | error (e e' : ε) : Agree R (.error e) (.error e')

namespace Agree

variable {R : α → β → Prop} {x : Except ε α} {y : Except ε β}

/-- Outcomes that agree agree in every way that follows. -/
theorem mono {Q : α → β → Prop} (h : Agree R x y) (hq : ∀ a b, x = .ok a → R a b → Q a b) : Agree Q x y := by
  cases h with
  | ok h => exact .ok (hq _ _ rfl h)
  | error e e' => exact .error e e'

/-- An outcome agrees with itself. -/
theorem refl_eq (x : Except ε α) : Agree Eq x x := by
  cases x with
  | ok a => exact .ok rfl
  | error e => exact .error e e

/-- Sequences agree when each step does, from what the steps before it yield. -/
theorem bind {γ δ : Type} {Q : γ → δ → Prop} (h : Agree R x y) {f : α → Except ε γ} {g : β → Except ε δ}
    (hf : ∀ a b, x = .ok a → R a b → Agree Q (f a) (g b)) : Agree Q (x >>= f) (y >>= g) := by
  cases h with
  | ok h => exact hf _ _ rfl h
  | error e e' => exact .error e e'

/-- Outcomes that start alike agree when what they go on to does. -/
theorem bind_left {γ δ : Type} {Q : γ → δ → Prop} (x : Except ε α) {f : α → Except ε γ} {g : α → Except ε δ}
    (hf : ∀ a, x = .ok a → Agree Q (f a) (g a)) : Agree Q (x >>= f) (x >>= g) := by
  cases x with
  | ok a => exact hf a rfl
  | error e => exact .error e e

/-- Outcomes that yield the same go on alike. -/
theorem bind_eq {γ : Type} {x x' : Except ε α} (h : Agree Eq x x') (f : α → Except ε γ) : Agree Eq (x >>= f) (x' >>= f) :=
  h.bind fun a _ _ hab => hab ▸ refl_eq (f a)

/-- Outcomes agree still when their errors are told in other words. -/
theorem mapError {ε' : Type} (h : Agree R x y) (f g : ε → ε') : Agree R (x.mapError f) (y.mapError g) := by
  cases h with
  | ok h => exact .ok h
  | error e e' => exact .error _ _

/-- What an outcome that agrees with itself yields is related to itself. -/
theorem self {x : Except ε α} {R : α → α → Prop} (h : Agree R x x) {a : α} (hx : x = .ok a) : R a a := by
  subst hx
  cases h with
  | ok h => exact h

/-- What is asked of outcomes that yield the same holds of both or of neither. -/
theorem exists_congr {x x' : Except ε α} (h : Agree Eq x x') (P : α → Prop) : (∃ a, x = .ok a ∧ P a) ↔ ∃ a, x' = .ok a ∧ P a := by
  cases h with
  | ok h => rw [h]
  | error e e' => simp

end Agree

/-- Where the first outcome is a success, so is the second, and what they yield is related. -/
def Follows (R : α → β → Prop) (x : Except ε α) (y : Except ε β) : Prop := ∀ a, x = .ok a → ∃ b, y = .ok b ∧ R a b

/-- Of two outcomes that agree the second follows the first. -/
theorem Agree.follows {R : α → β → Prop} {x : Except ε α} {y : Except ε β} (h : Agree R x y) : Follows R x y := by
  intro a ha
  cases h with
  | ok h => exact ⟨_, rfl, Except.ok.inj ha ▸ h⟩
  | error e e' => cases ha

/-- A success follows a success when their values are related. -/
theorem Follows.ok {R : α → β → Prop} {a : α} {b : β} (h : R a b) : Follows R (.ok a : Except ε α) (.ok b : Except ε β) := by
  intro c hc
  exact ⟨b, rfl, Except.ok.inj hc ▸ h⟩

/-- Anything follows an error. -/
theorem Follows.error {R : α → β → Prop} (e : ε) (y : Except ε β) : Follows R (.error e) y := fun _ h => nomatch h

/-- A sequence follows another when each step does, from what the steps before it yield. -/
theorem Follows.bind {γ δ : Type} {R : α → β → Prop} {Q : γ → δ → Prop} {x : Except ε α} {y : Except ε β} (h : Follows R x y)
    {f : α → Except ε γ} {g : β → Except ε δ} (hf : ∀ a b, x = .ok a → R a b → Follows Q (f a) (g b)) :
    Follows Q (x >>= f) (y >>= g) := by
  intro c hc
  obtain ⟨a, ha, hc⟩ := bind_eq_ok_iff.1 hc
  obtain ⟨b, hb, hab⟩ := h a ha
  obtain ⟨d, hd, hcd⟩ := hf a b ha hab c hc
  exact ⟨d, bind_eq_ok_iff.2 ⟨b, hb, hd⟩, hcd⟩

/-- Outcomes of which the second follows the first, and is no success where the first is none, agree. -/
theorem Agree.of_follows {R : α → β → Prop} {x : Except ε α} {y : Except ε β} (h : Follows R x y)
    (h' : ∀ b, y = .ok b → ∃ a, x = .ok a) : Agree R x y := by
  cases x with
  | ok a =>
    obtain ⟨b, rfl, hab⟩ := h a rfl
    exact .ok hab
  | error e =>
    cases y with
    | error e' => exact .error e e'
    | ok b =>
      obtain ⟨a, ha⟩ := h' b rfl
      cases ha

end Except

end Gradual
