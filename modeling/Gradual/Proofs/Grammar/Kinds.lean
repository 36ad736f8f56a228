import Gradual.Grammar.Parser
import Gradual.Proofs.Grammar.Parser

/-!
# What parsers make of kinds

A parser tells tokens apart by their kinds alone. `Parser.Parses` says that a parser succeeds wherever tokens of some kinds lie
ahead: it yields a value with a property, and leaves tokens of other kinds ahead. Such statements chain along a sequence, so that
what a production does with a text is found from top to bottom, no reader being mentioned.
-/

namespace Gradual

namespace Reader

/-- The kinds of the tokens that lie ahead of a reader, the end of the text with them. -/
def Ahead (r : Reader) (ks : List Kind) : Prop := ∃ ts, r.drain = .ok ts ∧ ts.map (·.kind) = ks

variable {r : Reader} {k : Kind} {ks : List Kind}

/-- A token of the first kind ahead is taken. -/
theorem Ahead.next (h : r.Ahead (k :: ks)) (hk : k ≠ .eof) : ∃ t r', r.next = (.ok t, r') ∧ t.kind = k ∧ r'.Ahead ks := by
  obtain ⟨ts, hd, hts⟩ := h
  obtain ⟨t, us, rfl, rfl, rfl⟩ := List.map_eq_cons_iff.1 hts
  obtain ⟨r', hnext, hrest⟩ := next_of_drain_cons hd hk
  exact ⟨t, r', hnext, rfl, us, hrest, rfl⟩

/-- A look ahead shows a token of the first kind ahead, and takes none. -/
theorem Ahead.peek (h : r.Ahead (k :: ks)) :
    ∃ t r', r.peek = (.ok t, r') ∧ r'.next = r.next ∧ t.kind = k ∧ r'.Ahead (k :: ks) := by
  obtain ⟨ts, hd, hts⟩ := h
  obtain ⟨t, us, rfl, rfl, rfl⟩ := List.map_eq_cons_iff.1 hts
  obtain ⟨r', hpeek, hrest⟩ := peek_of_drain_cons hd
  exact ⟨t, r', hpeek, (next_of_peek hpeek).1, rfl, t :: us, hrest, rfl⟩

/-- What lies ahead of a reader is no longer than a bound for what is left to it. -/
theorem Ahead.length_le (h : r.Ahead ks) : ks.length ≤ r.size + 1 := by
  obtain ⟨ts, hd, rfl⟩ := h
  have hlength := length_of_drain hd
  have hsize := left_le_size r
  rw [List.length_map]
  omega

end Reader

namespace Parser

variable {α β : Type} {k m : Kind} {ks ls ms : List Kind}

/-- Wherever tokens of these kinds lie ahead, the parser yields a value with a property and leaves those ahead. -/
def Parses (ks : List Kind) (p : Parser α) (ls : List Kind) (P : α → Prop) : Prop :=
  ∀ r, r.Ahead ks → ∃ a r', p r = .ok a r' ∧ r'.Ahead ls ∧ P a

/-! ## Sequences -/

/-- A value is yielded, and nothing is taken. -/
theorem Parses.pure {a : α} {P : α → Prop} (h : P a) : Parses ks (pure a) ks P := by
  intro r hr
  exact ⟨a, r, rfl, hr, h⟩

/-- What a sequence makes of kinds follows from its parts. -/
theorem Parses.bind {p : Parser α} {f : α → Parser β} {P : α → Prop} {Q : β → Prop} (hp : Parses ks p ms P)
    (hf : ∀ a, P a → Parses ms (f a) ls Q) : Parses ks (p >>= f) ls Q := by
  intro r hr
  obtain ⟨a, r₁, ha, hr₁, hP⟩ := hp r hr
  obtain ⟨b, r', hb, hr', hQ⟩ := hf a hP r₁ hr₁
  refine ⟨b, r', ?_, hr', hQ⟩
  rw [bind_of_ok ha, hb]

/-- A bound that what is left cannot reach is one that what lies ahead cannot. -/
theorem parses_bounded {p : Nat → Parser α} {P : α → Prop} (h : ∀ n, ks.length ≤ n → Parses ks (p n) ls P) :
    Parses ks (bounded p) ls P := by
  intro r hr
  exact h (r.size + 1) hr.length_le r hr

/-! ## Tokens -/

/-- The next token is taken. -/
theorem parses_next (hk : k ≠ .eof) : Parses (k :: ks) next ks (·.kind = k) := by
  intro r hr
  obtain ⟨t, r', hnext, ht, hr'⟩ := hr.next hk
  exact ⟨t, r', next_ok_iff.2 hnext, hr', ht⟩

/-- A look ahead takes no token. -/
theorem parses_peek : Parses (k :: ks) peek (k :: ks) (·.kind = k) := by
  intro r hr
  obtain ⟨t, r', hpeek, -, ht, hr'⟩ := hr.peek
  refine ⟨t, r', ?_, hr', ht⟩
  rw [peek, ofReader, hpeek]

/-- A look whether a kind comes next tells so. -/
theorem parses_check : Parses (k :: ks) (check m) (k :: ks) (· = k.isLike m) := by
  intro r hr
  obtain ⟨t, r', hpeek, -, ht, hr'⟩ := hr.peek
  refine ⟨k.isLike m, r', ?_, hr', rfl⟩
  rw [check, ofReader, Reader.check, hpeek, ← ht]

/-- A token of the kind that is sought is accepted. -/
theorem parses_accept (hm : m.isFixed = true) : Parses (m :: ks) (accept m) ks (· = true) := by
  intro r hr
  obtain ⟨t, r₁, hpeek, hsame, ht, hr₁⟩ := hr.peek
  obtain ⟨u, r', hnext, -, hr'⟩ := hr₁.next (Kind.ne_eof_of_isFixed hm)
  refine ⟨true, r', ?_, hr', rfl⟩
  rw [accept, ofReader, Reader.accept, hpeek]
  simp [ht, Kind.isLike_self hm, hnext]

/-- A token of another kind is left in place. -/
theorem parses_accept_other (hk : k.isLike m = false) : Parses (k :: ks) (accept m) (k :: ks) (· = false) := by
  intro r hr
  obtain ⟨t, r', hpeek, -, ht, hr'⟩ := hr.peek
  refine ⟨false, r', ?_, hr', rfl⟩
  rw [accept, ofReader, Reader.accept, hpeek]
  simp [ht, hk]

/-- A fixed kind that comes next is taken. -/
theorem parses_expect (hm : m.isFixed = true) : Parses (m :: ks) (expect m) ks (·.kind = m) := by
  refine (parses_next (Kind.ne_eof_of_isFixed hm)).bind ?_
  intro t ht
  rw [ht, Kind.isLike_self hm, if_pos rfl]
  exact .pure ht

/-- The token of a name gives the name. -/
theorem parses_nameOf {t : Token} {n : String} (ht : t.kind = .name n) : Parses ks (nameOf t) ks (· = n) := by
  rw [nameOf, ht]
  exact .pure rfl

/-- A name that comes next is taken. -/
theorem parses_expectName {n : String} : Parses (.name n :: ks) expectName ks (· = n) := by
  refine (parses_next (by simp)).bind ?_
  intro t ht
  exact parses_nameOf ht

/-! ## Lists -/

/-- Kinds with commas between them. -/
def commaKinds (kss : List (List Kind)) : List Kind := [.mark .comma].intercalate kss

@[simp] theorem commaKinds_singleton (ks : List Kind) : commaKinds [ks] = ks := by
  simp [commaKinds]

@[simp] theorem commaKinds_cons_cons (ks ls : List Kind) (kss : List (List Kind)) :
    commaKinds (ks :: ls :: kss) = ks ++ .mark .comma :: commaKinds (ls :: kss) := by
  simp [commaKinds, List.intercalate]

/-- The items of a list stand between the commas. -/
theorem length_le_commaKinds {kss : List (List Kind)} (h : ks ∈ kss) : ks.length ≤ (commaKinds kss).length := by
  induction kss with
  | nil => cases h
  | cons ls kss ih =>
    cases kss with
    | nil =>
      obtain rfl := List.mem_singleton.1 h
      simp
    | cons ms kss =>
      rw [commaKinds_cons_cons, List.length_append, List.length_cons]
      rcases List.mem_cons.1 h with rfl | h
      · omega
      · have := ih h
        omega

/-- Items with commas between them are read as a list up to a closing mark, when each is read where a comma or the mark follows
and none begins with the mark. -/
theorem parses_listUntil {δ : Type} {item : Parser α} {y : α → List Kind} {φ : α → δ} {close : Mark} {as : List α}
    (hclose : close ≠ .comma)
    (hitem : ∀ a ∈ as, ∀ m ∈ [Mark.comma, close], ∀ ks, Parses (y a ++ .mark m :: ks) item (.mark m :: ks) (φ · = φ a))
    (hfirst : ∀ a ∈ as, ∃ k ks, y a = k :: ks ∧ k ≠ .mark close) {n : Nat}
    (hn : (commaKinds (as.map y) ++ .mark close :: ks).length ≤ n) :
    Parses (commaKinds (as.map y) ++ .mark close :: ks) (listUntil (.mark close) item n) (.mark close :: ks)
      (·.map φ = as.map φ) := by
  induction as generalizing n with
  | nil =>
    cases n with
    | zero => simp at hn
    | succ n =>
      refine parses_check.bind ?_
      rintro _ rfl
      rw [Kind.isLike_self rfl, if_pos rfl]
      exact .pure rfl
  | cons a as ih =>
    cases n with
    | zero => simp at hn
    | succ n =>
      rw [List.forall_mem_cons] at hitem hfirst
      obtain ⟨k, ls, hk, hne⟩ := hfirst.1
      have hlike : k.isLike (.mark close) = false := Kind.isLike_eq_false rfl hne
      have hcheck : ∀ us, Parses (y a ++ us) (check (.mark close)) (y a ++ us) (· = false) := by
        intro us
        rw [hk, List.cons_append, ← hlike]
        exact parses_check
      cases as with
      | nil =>
        rw [List.map_singleton, commaKinds_singleton]
        refine (hcheck _).bind ?_
        rintro _ rfl
        refine (hitem.1 close (by simp) ks).bind ?_
        intro b hb
        have hother : (Kind.mark close).isLike (.mark .comma) = false := Kind.isLike_eq_false rfl (by simpa using hclose)
        refine (parses_accept_other hother).bind ?_
        rintro _ rfl
        exact .pure (by simp [hb])
      | cons a' as =>
        rw [List.map_cons, List.map_cons, commaKinds_cons_cons, List.append_assoc, List.cons_append] at hn ⊢
        refine (hcheck _).bind ?_
        rintro _ rfl
        refine (hitem.1 .comma (by simp) _).bind ?_
        intro b hb
        refine (parses_accept rfl).bind ?_
        rintro _ rfl
        have hrest : (commaKinds ((a' :: as).map y) ++ .mark close :: ks).length ≤ n := by
          rw [List.length_append, List.length_cons] at hn
          rw [List.map_cons]
          omega
        refine (ih hitem.2 hfirst.2 hrest).bind ?_
        intro bs hbs
        exact .pure (by simp [hb, hbs])

/-- Items with commas between them, at least one, are read up to a mark that is no comma, when each is read where a comma or the
mark follows. -/
theorem parses_commaSeparated {δ : Type} {item : Parser α} {y : α → List Kind} {φ : α → δ} {close : Mark}
    {as : List α} (hne : as ≠ []) (hclose : close ≠ .comma)
    (hitem : ∀ a ∈ as, ∀ m ∈ [Mark.comma, close], ∀ ks, Parses (y a ++ .mark m :: ks) item (.mark m :: ks) (φ · = φ a)) {n : Nat}
    (hn : (commaKinds (as.map y) ++ .mark close :: ks).length ≤ n) :
    Parses (commaKinds (as.map y) ++ .mark close :: ks) (commaSeparated item n) (.mark close :: ks) (·.map φ = as.map φ) := by
  induction as generalizing n with
  | nil => exact absurd rfl hne
  | cons a as ih =>
    cases n with
    | zero => simp at hn
    | succ n =>
      rw [List.forall_mem_cons] at hitem
      cases as with
      | nil =>
        rw [List.map_singleton, commaKinds_singleton]
        refine (hitem.1 close (by simp) ks).bind ?_
        intro b hb
        have hother : (Kind.mark close).isLike (.mark .comma) = false := Kind.isLike_eq_false rfl (by simpa using hclose)
        refine (parses_accept_other hother).bind ?_
        rintro _ rfl
        exact .pure (by simp [hb])
      | cons a' as =>
        rw [List.map_cons, List.map_cons, commaKinds_cons_cons, List.append_assoc, List.cons_append] at hn ⊢
        refine (hitem.1 .comma (by simp) _).bind ?_
        intro b hb
        refine (parses_accept rfl).bind ?_
        rintro _ rfl
        have hrest : (commaKinds ((a' :: as).map y) ++ .mark close :: ks).length ≤ n := by
          rw [List.length_append, List.length_cons] at hn
          rw [List.map_cons]
          omega
        refine (ih (List.cons_ne_nil _ _) hitem.2 hrest).bind ?_
        intro bs hbs
        exact .pure (by simp [hb, hbs])

end Parser

end Gradual
