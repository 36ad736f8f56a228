import Mathlib.Logic.Basic
import Gradual.Call.Constraint
import Gradual.Proofs.Basic
import Gradual.Proofs.Types.Erasure

/-!
# What the walk over a declared type and an argument finds

`Ty.Meets d a x y` says that the walk over `d` and `a` side by side comes to the parts `x` and `y` at one place. The constraints
are the meetings at which one side is a generic parameter (`mem_constraints_iff`), and shapes match when at every other meeting
the two parts are built alike (`matchShape_iff`). So a substitution makes the two types equal exactly when it does so at every
constraint and the shapes match (`substitute_eq_of_meets`, `Meets.substitute_eq`, `matchShape_of_substitute_eq`).
-/

namespace Gradual.Ty

/-- An unknown mentions an unknown. -/
theorem isOpen_of_isUnknown {t : Ty} (h : t.isUnknown = true) : t.isOpen = true := by
  cases t <;> simp_all [isUnknown, parameter?]

/-! ## Lists without repeats -/

/-- Types that were seen, and one more if it is new. -/
def withSeen (seen : List Ty) (t : Ty) : List Ty := if seen.contains t then seen else seen ++ [t]

/-- What is seen with a type is what was seen, and the type. -/
theorem mem_withSeen_iff (seen : List Ty) (t x : Ty) : x ∈ withSeen seen t ↔ x ∈ seen ∨ x = t := by
  unfold withSeen
  split
  · rename_i h
    rw [List.contains_iff_mem] at h
    exact ⟨Or.inl, fun hx => hx.elim id fun he => he ▸ h⟩
  · simp

/-- Every type is seen once. -/
theorem nodup_withSeen {seen : List Ty} (h : seen.Nodup) (t : Ty) : (withSeen seen t).Nodup := by
  unfold withSeen
  split
  · exact h
  · rename_i hn
    rw [List.contains_iff_mem] at hn
    refine List.nodup_append.2 ⟨h, by simp, ?_⟩
    rintro x hx y hy rfl
    exact hn (List.mem_singleton.1 hy ▸ hx)

/-- The types of a list without repeats are those of the list, and each stands there once. -/
theorem distinct_spec (ts : List Ty) : (∀ x, x ∈ distinct ts ↔ x ∈ ts) ∧ (distinct ts).Nodup := by
  have hfold : ∀ seen : List Ty, seen.Nodup →
      (∀ x, x ∈ ts.foldl withSeen seen ↔ x ∈ seen ∨ x ∈ ts) ∧ (ts.foldl withSeen seen).Nodup := by
    induction ts with
    | nil => exact fun seen hn => ⟨by simp, hn⟩
    | cons t ts ih =>
      intro seen hn
      obtain ⟨hmem, hnodup⟩ := ih (withSeen seen t) (nodup_withSeen hn t)
      refine ⟨fun x => ?_, hnodup⟩
      rw [List.foldl_cons, hmem, mem_withSeen_iff, List.mem_cons, or_assoc]
  obtain ⟨hmem, hnodup⟩ := hfold [] List.nodup_nil
  exact ⟨fun x => (hmem x).trans (by simp), hnodup⟩

/-! ## How a type is built -/

/-- Two types are built alike: by one constructor, with one name, from as many parts. No generic parameter is. -/
def SameHead : Ty → Ty → Prop
  | .simple n, .simple m => n = m
  | .applied n as, .applied m bs => n = m ∧ as.length = bs.length
  | .function ps _, .function qs _ => ps.length = qs.length
  | _, _ => False

/-- Types built alike have as many parts. -/
theorem SameHead.length_eq {a b : Ty} (h : SameHead a b) : a.children.length = b.children.length := by
  cases a <;> cases b <;> simp_all [SameHead, children]

/-- A type with a head in common with another is no parameter. -/
theorem SameHead.left {a b : Ty} (h : SameHead a b) : a.parameter? = none := by
  cases a <;> simp_all [SameHead, parameter?]

/-- A type that another has its head in common with is no parameter. -/
theorem SameHead.right {a b : Ty} (h : SameHead a b) : b.parameter? = none := by
  cases a <;> cases b <;> simp_all [SameHead, parameter?]

/-- Having a head in common passes on. -/
theorem SameHead.trans {a b c : Ty} (h : SameHead a b) (h' : SameHead b c) : SameHead a c := by
  cases a <;> cases b <;> simp only [SameHead] at h <;> cases c <;> simp only [SameHead] at h' <;> simp_all [SameHead]

/-- A substitution makes two types, none of them a generic parameter, equal exactly when they are built alike and it makes their
parts equal. -/
theorem substitute_eq_iff (f : GenericParameter → Option Ty) {a b : Ty} (ha : a.parameter? = none)
    (hb : b.parameter? = none) :
    a.substitute f = b.substitute f ↔ SameHead a b ∧ a.children.map (substitute f) = b.children.map (substitute f) := by
  cases a with
  | parameter p => simp [parameter?] at ha
  | simple n => cases b <;> simp_all [SameHead, substitute, parameter?, children]
  | applied n as =>
    cases b with
    | parameter q => simp [parameter?] at hb
    | applied m bs =>
      simp only [substitute, substituteAll_eq, applied.injEq, SameHead, children, and_assoc]
      constructor
      · rintro ⟨h₁, h₂⟩
        exact ⟨h₁, by simpa using congrArg List.length h₂, h₂⟩
      · rintro ⟨h₁, -, h₂⟩
        exact ⟨h₁, h₂⟩
    | _ => simp [SameHead, substitute]
  | function ps r =>
    cases b with
    | parameter q => simp [parameter?] at hb
    | function qs s =>
      simp only [substitute, substituteAll_eq, function.injEq, SameHead, children, List.map_append, List.map_cons,
        List.map_nil]
      constructor
      · rintro ⟨h₁, h₂⟩
        exact ⟨by simpa using congrArg List.length h₁, by rw [h₁, h₂]⟩
      · rintro ⟨h₁, h₂⟩
        have := List.append_inj h₂ (by simpa using h₁)
        exact ⟨this.1, by simpa using this.2⟩
    | _ => simp [SameHead, substitute]

/-- A substitution leaves what is no generic parameter no generic parameter. -/
theorem parameter?_substitute {t : Ty} (f : GenericParameter → Option Ty) (h : t.parameter? = none) :
    (t.substitute f).parameter? = none := by
  cases t with
  | parameter p => simp [parameter?] at h
  | _ => rfl

/-- What a substitution that puts generic parameters for generic parameters leaves no generic parameter was none. -/
theorem parameter?_of_substitute {t : Ty} {f : GenericParameter → Option Ty}
    (hf : ∀ p, ((parameter p).substitute f).parameter? ≠ none) (h : (t.substitute f).parameter? = none) :
    t.parameter? = none := by
  cases t with
  | parameter p => exact absurd h (hf p)
  | _ => rfl

/-- Of two types that are equal up to owners, both or none are generic parameters. -/
theorem parameter?_eq_none_of_eraseOwners {a b : Ty} (h : a.eraseOwners = b.eraseOwners) (ha : a.parameter? = none) :
    b.parameter? = none := by
  cases b with
  | parameter q => cases a <;> simp_all [parameter?]
  | _ => rfl

/-- Two types that are equal up to owners, and no generic parameters, are built alike from parts that are. -/
theorem sameHead_of_eraseOwners {a b : Ty} (h : a.eraseOwners = b.eraseOwners) (ha : a.parameter? = none) :
    SameHead a b ∧ a.children.map eraseOwners = b.children.map eraseOwners :=
  (substitute_eq_iff _ ha (parameter?_eq_none_of_eraseOwners h ha)).1 h

/-! ## Meetings -/

/-- Walking over a declared type and an argument side by side, the parts `x` and `y` meet. The walk goes on to the parts of two
types, in order and as far as both have some, unless one of the two is a generic parameter. -/
inductive Meets : Ty → Ty → Ty → Ty → Prop
  | here (d a : Ty) : Meets d a d a
  | child {d a d' a' x y : Ty} {i : Nat} (hd : d.parameter? = none) (ha : a.parameter? = none)
      (hd' : d.children[i]? = some d') (ha' : a.children[i]? = some a') (h : Meets d' a' x y) : Meets d a x y

namespace Meets

variable {d a x y : Ty}

/-- What meets is contained in the types that are walked over. -/
theorem contains (h : Meets d a x y) : d.contains x = true ∧ a.contains y = true := by
  induction h with
  | here d a => exact ⟨contains_self d, contains_self a⟩
  | child _ _ hd' ha' _ ih =>
    exact ⟨contains_of_child (List.mem_of_getElem? hd') ih.1, contains_of_child (List.mem_of_getElem? ha') ih.2⟩

/-- A substitution that makes the two types equal makes equal what meets in them. -/
theorem substitute_eq (h : Meets d a x y) {f : GenericParameter → Option Ty} (he : d.substitute f = a.substitute f) :
    x.substitute f = y.substitute f := by
  induction h with
  | here d a => exact he
  | child hd ha hd' ha' _ ih =>
    exact ih (eq_of_map_eq ((substitute_eq_iff f hd ha).1 he).2 hd' ha')

/-- In an argument that is equal up to owners the same parts are met, up to owners. -/
theorem transfer (h : Meets d a x y) {b : Ty} (he : a.eraseOwners = b.eraseOwners) :
    ∃ z, Meets d b x z ∧ y.eraseOwners = z.eraseOwners := by
  induction h generalizing b with
  | here d a => exact ⟨b, here d b, he⟩
  | child hd ha hd' ha' _ ih =>
    obtain ⟨b', hb', he'⟩ := exists_getElem?_of_map_eq (sameHead_of_eraseOwners he ha).2 ha'
    obtain ⟨z, hz, hyz⟩ := ih he'
    exact ⟨z, child hd (parameter?_eq_none_of_eraseOwners he ha) hd' hb' hz, hyz⟩

/-- What meets in a type under a substitution that puts generic parameters for generic parameters is what the substitution makes
of what meets in the type. -/
theorem of_substitute {f : GenericParameter → Option Ty} (hf : ∀ p, ((parameter p).substitute f).parameter? ≠ none) {w : Ty}
    (h : Meets (w.substitute f) a x y) : ∃ z, Meets w a z y ∧ x = z.substitute f := by
  generalize hd : w.substitute f = d at h
  induction h generalizing w with
  | here d a => exact ⟨w, here w a, hd.symm⟩
  | child hd₀ ha hd' ha' _ ih =>
    subst hd
    have hw : w.parameter? = none := parameter?_of_substitute hf hd₀
    rw [children_substitute f hw, List.getElem?_map, Option.map_eq_some_iff] at hd'
    obtain ⟨w', hw', hd'⟩ := hd'
    obtain ⟨z, hz, hxz⟩ := ih hd'
    exact ⟨z, child hw ha hw' ha' hz, hxz⟩

end Meets

/-! ## Constraints are meetings with a generic parameter -/

/-- The constraints of lists are those of their pairs. -/
theorem constraintsAll_eq (ds as : List Ty) :
    constraintsAll ds as = (ds.zip as).flatMap fun m => m.1.constraints m.2 := by
  induction ds generalizing as with
  | nil => cases as <;> simp [constraintsAll]
  | cons d ds ih =>
    cases as with
    | nil => simp [constraintsAll]
    | cons a as => simp [constraintsAll, ih]

/-- The constraints of a list of parameters followed by those of the result are the constraints of all parts. -/
theorem constraintsAll_concat (ps : List Ty) (r : Ty) (as : List Ty) :
    constraintsAll ps as ++ ((as.drop ps.length).head?.map (constraints r)).getD [] = constraintsAll (ps ++ [r]) as := by
  induction ps generalizing as with
  | nil => cases as <;> simp [constraintsAll]
  | cons p ps ih =>
    cases as with
    | nil => simp [constraintsAll]
    | cons a as => simp [constraintsAll, ← ih as]

/-- Between two types that are no generic parameters, the constraints are those of their parts, pair by pair. -/
theorem constraints_eq {d a : Ty} (hd : d.parameter? = none) (ha : a.parameter? = none) :
    d.constraints a = (d.children.zip a.children).flatMap fun m => m.1.constraints m.2 := by
  rw [← constraintsAll_eq]
  cases a with
  | parameter q => simp [parameter?] at ha
  | _ =>
    cases d with
    | parameter p => simp [parameter?] at hd
    | simple n => simp [constraints, children, constraintsAll]
    | applied n as => simp [constraints, children]
    | function ps r => rw [constraints, constraintsAll_concat] <;> simp [children]

/-- Where one side is a generic parameter the walk ends, with a constraint for each side that is one. -/
theorem mem_constraints_parameter_iff {d a : Ty} (h : d.parameter? ≠ none ∨ a.parameter? ≠ none) (c : Constraint) :
    c ∈ d.constraints a ↔ d = .parameter c.1 ∧ a = c.2 ∨ a = .parameter c.1 ∧ d = c.2 := by
  obtain ⟨p, t⟩ := c
  cases d with
  | parameter q => cases a <;> simp [constraints, eq_comm]
  | _ =>
    cases a with
    | parameter q => simp [constraints, eq_comm]
    | _ => simp [parameter?] at h

/-- The constraints are the meetings at which one side is a generic parameter. -/
theorem mem_constraints_iff (d a : Ty) (c : Constraint) :
    c ∈ d.constraints a ↔ ∃ x y, Meets d a x y ∧ (x = .parameter c.1 ∧ y = c.2 ∨ y = .parameter c.1 ∧ x = c.2) := by
  constructor
  · intro h
    induction d using ind_children generalizing a with
    | h d ih =>
      by_cases hp : d.parameter? = none ∧ a.parameter? = none
      · rw [constraints_eq hp.1 hp.2, List.mem_flatMap] at h
        obtain ⟨⟨d', a'⟩, hz, hc⟩ := h
        obtain ⟨i, hi⟩ := List.getElem?_of_mem hz
        rw [List.getElem?_zip_eq_some] at hi
        obtain ⟨x, y, hm, hxy⟩ := ih d' (List.mem_of_getElem? hi.1) a' hc
        exact ⟨x, y, .child hp.1 hp.2 hi.1 hi.2 hm, hxy⟩
      · rw [not_and_or] at hp
        exact ⟨d, a, .here d a, (mem_constraints_parameter_iff hp c).1 h⟩
  · rintro ⟨x, y, hm, hxy⟩
    induction hm with
    | here d a =>
      refine (mem_constraints_parameter_iff ?_ c).2 hxy
      rcases hxy with ⟨rfl, -⟩ | ⟨rfl, -⟩ <;> simp [parameter?]
    | @child d a d' a' x y i hd ha hd' ha' _ ih =>
      rw [constraints_eq hd ha, List.mem_flatMap]
      exact ⟨(d', a'), List.mem_of_getElem? (List.getElem?_zip_eq_some.2 ⟨hd', ha'⟩), ih hxy⟩

/-- A substitution that makes two types equal makes equal the two sides of each of their constraints. -/
theorem substitute_eq_of_mem_constraints {f : GenericParameter → Option Ty} {d a : Ty} (h : d.substitute f = a.substitute f)
    {c : Constraint} (hc : c ∈ d.constraints a) : (parameter c.1).substitute f = c.2.substitute f := by
  obtain ⟨x, y, hm, ⟨rfl, rfl⟩ | ⟨rfl, rfl⟩⟩ := (mem_constraints_iff d a c).1 hc
  · exact hm.substitute_eq h
  · exact (hm.substitute_eq h).symm

/-! ## Shapes -/

/-- The shapes of lists match when those of their pairs do. -/
theorem matchShapes_iff (n : String) (ds as : List Ty) :
    matchShapes n ds as = .ok () ↔
      ∀ (i : Nat) (d a : Ty), ds[i]? = some d → as[i]? = some a → matchShape n d a = .ok () := by
  induction ds generalizing as with
  | nil => simp [matchShapes]
  | cons d ds ih =>
    cases as with
    | nil => simp [matchShapes]
    | cons a as =>
      rw [matchShapes, seq_eq_ok_iff]
      constructor
      · rintro ⟨h, hs⟩ i d' a' hd' ha'
        cases i with
        | zero => simp_all
        | succ i => exact (ih as).1 hs i d' a' hd' ha'
      · intro h
        exact ⟨h 0 d a rfl rfl, (ih as).2 fun i d' a' hd' ha' => h (i + 1) d' a' hd' ha'⟩

/-- The shapes of lists of one length, each with one more type, match when those of the lists and of the last types do. -/
theorem matchShapes_concat_iff (n : String) {ps qs : List Ty} (h : ps.length = qs.length) (r s : Ty) :
    matchShapes n (ps ++ [r]) (qs ++ [s]) = .ok () ↔ matchShapes n ps qs = .ok () ∧ matchShape n r s = .ok () := by
  induction ps generalizing qs with
  | nil =>
    obtain rfl : qs = [] := List.eq_nil_of_length_eq_zero h.symm
    simp [matchShapes, seq_eq_ok_iff]
  | cons p ps ih =>
    cases qs with
    | nil => simp at h
    | cons q qs =>
      simp only [List.cons_append, matchShapes, seq_eq_ok_iff, ih (Nat.succ.inj h), and_assoc]

/-- Shapes match when the argument is an unknown, when the declared type is a generic parameter, and when both are built alike
from parts whose shapes match. -/
theorem matchShape_iff (n : String) (d a : Ty) :
    matchShape n d a = .ok () ↔ a.isUnknown = true ∨ d.parameter? ≠ none ∨
      SameHead d a ∧ ∀ (i : Nat) (d' a' : Ty), d.children[i]? = some d' → a.children[i]? = some a' →
        matchShape n d' a' = .ok () := by
  rw [← matchShapes_iff]
  by_cases hu : a.isUnknown = true
  · rw [matchShape.eq_def, if_pos hu]
    simp [hu]
  · rw [matchShape.eq_def, if_neg hu]
    cases d with
    | parameter p => simp [parameter?]
    | simple m =>
      cases a with
      | simple m' =>
        simp only [hu, parameter?, implements, SameHead, children, matchShapes, beq_iff_eq]
        split
        · rename_i h
          simp [h]
        · rename_i h
          simp [Ne.symm h]
      | _ => simp [hu, parameter?, implements, SameHead]
    | applied m ds =>
      cases a with
      | applied m' as =>
        simp only [hu, parameter?, SameHead, children, eq_comm]
        split
        · rename_i h
          simp [h]
        · rename_i h
          simp [h]
      | _ => simp [hu, parameter?, SameHead]
    | function ps r =>
      cases a with
      | function qs s =>
        simp only [hu, parameter?, SameHead, children]
        split
        · rename_i h
          rw [matchShapes_concat_iff n h, seq_eq_ok_iff]
          simp [h]
        · rename_i h
          simp [h]
      | _ => simp [hu, parameter?, SameHead]

/-- The shapes of lists differ where those of a pair do. -/
theorem exists_of_matchShapes_error {n : String} {ds as : List Ty} {e : CallError} (h : matchShapes n ds as = .error e) :
    ∃ (i : Nat) (d a : Ty), ds[i]? = some d ∧ as[i]? = some a ∧ matchShape n d a = .error e := by
  induction ds generalizing as with
  | nil => simp [matchShapes] at h
  | cons d ds ih =>
    cases as with
    | nil => simp [matchShapes] at h
    | cons a as =>
      rw [matchShapes, bind_eq_error_iff] at h
      rcases h with h | ⟨_, -, h⟩
      · exact ⟨0, d, a, rfl, rfl, h⟩
      · obtain ⟨i, d', a', hd', ha', he⟩ := ih h
        exact ⟨i + 1, d', a', hd', ha', he⟩

/-- Shapes that do not match differ at a meeting: the error names the two parts that meet there, of which the declared one is no
generic parameter. -/
theorem exists_meets_of_matchShape_error {n : String} {d a : Ty} {e : CallError} (h : matchShape n d a = .error e) :
    ∃ x y, Meets d a x y ∧ x.parameter? = none ∧ (e = .parameterType n x y ∨ e = .notFunction n x y) := by
  induction d using ind_children generalizing a with
  | h d ih =>
    -- An error about parts of the two types is one at a meeting of those parts.
    have hparts : ∀ {i : Nat} {d' a' : Ty}, d.parameter? = none → a.parameter? = none → d.children[i]? = some d' →
        a.children[i]? = some a' → matchShape n d' a' = .error e →
        ∃ x y, Meets d a x y ∧ x.parameter? = none ∧ (e = .parameterType n x y ∨ e = .notFunction n x y) := by
      intro i d' a' hd ha hd' ha' he
      obtain ⟨x, y, hxy, hx⟩ := ih d' (List.mem_of_getElem? hd') he
      exact ⟨x, y, .child hd ha hd' ha' hxy, hx⟩
    have hhere : d.parameter? = none → e = .parameterType n d a ∨ e = .notFunction n d a →
        ∃ x y, Meets d a x y ∧ x.parameter? = none ∧ (e = .parameterType n x y ∨ e = .notFunction n x y) :=
      fun hd he => ⟨d, a, .here d a, hd, he⟩
    rw [matchShape.eq_def] at h
    split at h
    · cases h
    cases d with
    | parameter p => cases h
    | simple m =>
      simp only at h
      split at h
      · cases h
      · exact hhere rfl (Or.inl (Except.error.inj h).symm)
    | applied m ds =>
      cases a with
      | applied m' as =>
        simp only at h
        split at h
        · obtain ⟨i, d', a', hd', ha', he⟩ := exists_of_matchShapes_error h
          exact hparts rfl rfl hd' ha' he
        · exact hhere rfl (Or.inl (Except.error.inj h).symm)
      | _ => exact hhere rfl (Or.inl (Except.error.inj h).symm)
    | function ps r =>
      cases a with
      | function qs s =>
        simp only at h
        split at h
        · rename_i hl
          rw [bind_eq_error_iff] at h
          rcases h with h | ⟨_, -, h⟩
          · obtain ⟨i, d', a', hd', ha', he⟩ := exists_of_matchShapes_error h
            refine hparts (i := i) rfl rfl ?_ ?_ he
            · rw [children, List.getElem?_append_left (List.getElem?_eq_some_iff.1 hd').1, hd']
            · rw [children, List.getElem?_append_left (List.getElem?_eq_some_iff.1 ha').1, ha']
          · exact hparts (i := ps.length) rfl rfl (by simp [children]) (by simp [children, hl]) h
        · exact hhere rfl (Or.inl (Except.error.inj h).symm)
      | _ => exact hhere rfl (Or.inr (Except.error.inj h).symm)

/-- Where shapes match, the shapes of what meets match. -/
theorem Meets.matchShape {n : String} {d a x y : Ty} (h : Meets d a x y) (hs : Ty.matchShape n d a = .ok ()) :
    Ty.matchShape n x y = .ok () := by
  induction h with
  | here d a => exact hs
  | child hd ha hd' ha' _ ih =>
    rcases (matchShape_iff n _ _).1 hs with hu | hp | ⟨-, hc⟩
    · simp [isUnknown, ha] at hu
    · exact absurd hd hp
    · exact ih (hc _ _ _ hd' ha')

/-- Where shapes match, a generic parameter that is no unknown meets none but a generic parameter of the declared type. -/
theorem Meets.exists_parameter {n : String} {d a x y : Ty} (h : Meets d a x y) (hs : Ty.matchShape n d a = .ok ())
    (hy : y.isOpen = false) (hp : x.parameter? ≠ none ∨ y.parameter? ≠ none) : ∃ p, x = .parameter p := by
  have hx : x.parameter? ≠ none := by
    rcases (matchShape_iff n x y).1 (h.matchShape hs) with hu | hx | ⟨hh, -⟩
    · cases y with
      | parameter q => simp_all [isUnknown, parameter?]
      | _ => simp [isUnknown, parameter?] at hu
    · exact hx
    · exact hp.resolve_right fun hn => hn hh.right
  cases x with
  | parameter p => exact ⟨p, rfl⟩
  | _ => exact absurd rfl hx

/-- A substitution that makes the two types equal, and leaves what is no unknown a generic parameter, shows that their shapes
match. -/
theorem matchShape_of_substitute_eq (n : String) {f : GenericParameter → Option Ty}
    (hf : ∀ p, p.isUnknown = false → ((parameter p).substitute f).parameter? ≠ none) {d a : Ty}
    (h : d.substitute f = a.substitute f) : matchShape n d a = .ok () := by
  induction d using ind_children generalizing a with
  | h d ih =>
    rw [matchShape_iff]
    by_cases hu : a.isUnknown = true
    · exact Or.inl hu
    by_cases hd : d.parameter? = none
    · have ha : a.parameter? = none := by
        cases a with
        | parameter q =>
          have hq := hf q (by simpa [isUnknown, parameter?] using hu)
          rw [← h] at hq
          exact absurd (parameter?_substitute f hd) hq
        | _ => rfl
      obtain ⟨hh, hc⟩ := (substitute_eq_iff f hd ha).1 h
      exact Or.inr (Or.inr ⟨hh, fun i d' a' hd' ha' => ih d' (List.mem_of_getElem? hd') (eq_of_map_eq hc hd' ha')⟩)
    · exact Or.inr (Or.inl hd)

/-- A substitution makes two types of matching shapes equal when it makes equal what meets at their generic parameters. -/
theorem substitute_eq_of_meets {n : String} {f : GenericParameter → Option Ty} {d a : Ty} (h : matchShape n d a = .ok ())
    (hm : ∀ x y, Meets d a x y → (x.parameter? ≠ none ∨ y.parameter? ≠ none) → x.substitute f = y.substitute f) :
    d.substitute f = a.substitute f := by
  induction d using ind_children generalizing a with
  | h d ih =>
    rcases (matchShape_iff n d a).1 h with hu | hd | ⟨hh, hc⟩
    · refine hm d a (.here d a) (Or.inr ?_)
      intro hn
      simp [isUnknown, hn] at hu
    · exact hm d a (.here d a) (Or.inl hd)
    · refine (substitute_eq_iff f hh.left hh.right).2 ⟨hh, List.ext_getElem? fun i => ?_⟩
      rw [List.getElem?_map, List.getElem?_map]
      cases hd : d.children[i]? with
      | none =>
        have hi := List.getElem?_eq_none_iff.1 hd
        rw [hh.length_eq] at hi
        rw [List.getElem?_eq_none_iff.2 hi]
      | some d' =>
        have hi : i < a.children.length := hh.length_eq ▸ (List.getElem?_eq_some_iff.1 hd).1
        have ha := List.getElem?_eq_getElem hi
        rw [ha, Option.map_some, Option.map_some, Option.some.injEq]
        exact ih d' (List.mem_of_getElem? hd) (hc i d' _ hd ha) fun x y hxy hp =>
          hm x y (.child hh.left hh.right hd ha hxy) hp

/-- The shape of an argument without unknowns does not depend on the owners of its generic parameters. -/
theorem matchShape_of_eraseOwners {n : String} {d a b : Ty} (h : matchShape n d a = .ok ())
    (he : a.eraseOwners = b.eraseOwners) (ha : a.isOpen = false) (hb : b.isOpen = false) : matchShape n d b = .ok () := by
  induction d using ind_children generalizing a b with
  | h d ih =>
    rw [matchShape_iff]
    rcases (matchShape_iff n d a).1 h with hu | hd | ⟨hh, hc⟩
    · cases a with
      | parameter p => simp_all [isUnknown, parameter?]
      | _ => simp [isUnknown, parameter?] at hu
    · exact Or.inr (Or.inl hd)
    · obtain ⟨hab, hcab⟩ := sameHead_of_eraseOwners he hh.right
      refine Or.inr (Or.inr ⟨hh.trans hab, fun i d' b' hd' hb' => ?_⟩)
      obtain ⟨a', ha', he'⟩ := exists_getElem?_of_map_eq hcab.symm hb'
      have hao := isOpen_eq_false_of_contains ha (contains_of_child (List.mem_of_getElem? ha') (contains_self a'))
      have hbo := isOpen_eq_false_of_contains hb (contains_of_child (List.mem_of_getElem? hb') (contains_self b'))
      exact ih d' (List.mem_of_getElem? hd') (hc i d' a' hd' ha') he'.symm hao hbo

end Gradual.Ty
