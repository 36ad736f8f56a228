import Gradual.Grammar.Parser
import Gradual.Proofs.Token.Stream
import Gradual.Proofs.Tree.Phrase

/-!
# What parsers read

`Parser.Writes` says of a parser that the tokens it takes write what it yields: they spell the phrases of the value, with nothing
taken besides and nothing left out. Each way to touch the reader and each loop gets its statement here, so that a production of
the grammar needs only to be read from top to bottom.
-/

namespace Gradual

open Reader (Reads)

namespace Parser

variable {α β : Type} {r r' : Reader} {t : Token}

/-! ## Sequences -/

/-- A sequence of two parsers succeeds when the first does and the second does from where the first stops. -/
theorem bind_ok_iff {p : Parser α} {f : α → Parser β} {b : β} :
    (p >>= f) r = .ok b r' ↔ ∃ a r₁, p r = .ok a r₁ ∧ f a r₁ = .ok b r' := by
  change EStateM.bind p f r = .ok b r' ↔ _
  unfold EStateM.bind
  cases p r with
  | ok a r₁ =>
    constructor
    · intro h
      exact ⟨a, r₁, rfl, h⟩
    · rintro ⟨a', r₁', h, h'⟩
      obtain ⟨rfl, rfl⟩ := EStateM.Result.ok.inj h
      exact h'
  | error e r₁ => simp

/-- A parser goes on with what it yields. -/
theorem bind_of_ok {p : Parser α} {f : α → Parser β} {a : α} (h : p r = .ok a r') : (p >>= f) r = f a r' := by
  change EStateM.bind p f r = _
  rw [EStateM.bind, h]

/-- A parser that fails does not go on. -/
theorem bind_of_error {p : Parser α} {f : α → Parser β} {e : ParseError} (h : p r = .error e r') :
    (p >>= f) r = .error e r' := by
  change EStateM.bind p f r = _
  rw [EStateM.bind, h]

/-- A parser that only yields a value leaves the reader as it is. -/
theorem pure_ok_iff {a b : α} : (pure a : Parser α) r = .ok b r' ↔ a = b ∧ r = r' := by
  change EStateM.Result.ok a r = .ok b r' ↔ _
  simp

/-- A parser that fails yields nothing. -/
theorem throw_ne_ok {e : ParseError} {a : α} : (throw e : Parser α) r ≠ .ok a r' := by
  intro h
  change EStateM.Result.error e r = .ok a r' at h
  cases h

/-- A parser that has reached its bound yields nothing. -/
theorem tooDeep_ne_ok {a : α} : (tooDeep : Parser α) r ≠ .ok a r' := by
  intro h
  cases h

/-! ## Tokens -/

/-- Taking a token is what the reader does. -/
theorem next_ok_iff : next r = .ok t r' ↔ r.next = (.ok t, r') := by
  unfold next ofReader
  split <;> rename_i h <;> simp [h]

/-- Only one token can be taken next. -/
theorem next_ok_unique {u : Token} {r₁ : Reader} (h : r.next = (.ok t, r₁)) (hn : next r = .ok u r') : u = t ∧ r' = r₁ := by
  simpa [h, eq_comm] using next_ok_iff.1 hn

/-- A look ahead shows the token that is taken next. -/
theorem peek_ok (h : peek r = .ok t r') : Reads r [] r' ∧ ∃ r₁, r'.next = (.ok t, r₁) := by
  unfold peek ofReader at h
  split at h
  · rename_i u r₂ hp
    simp only [EStateM.Result.ok.injEq] at h
    obtain ⟨rfl, rfl⟩ := h
    obtain ⟨hn, r₁, hr⟩ := Reader.next_of_peek hp
    exact ⟨.same hn, r₁, hn.trans hr⟩
  · simp at h

/-- A question about the next token takes nothing. -/
theorem check_ok {k : Kind} {b : Bool} (h : check k r = .ok b r') :
    Reads r [] r' ∧ ∃ t r₁, r'.next = (.ok t, r₁) ∧ b = t.kind.isLike k := by
  simp only [check, ofReader, Reader.check] at h
  cases hp : r.peek with
  | mk x r₂ =>
    rw [hp] at h
    cases x with
    | error f => simp at h
    | ok t =>
      simp only [EStateM.Result.ok.injEq] at h
      obtain ⟨rfl, rfl⟩ := h
      obtain ⟨hn, r₁, hr⟩ := Reader.next_of_peek hp
      exact ⟨.same hn, t, r₁, hn.trans hr, rfl⟩

/-- A token that is accepted is taken, and nothing is taken otherwise. -/
theorem accept_ok {k : Kind} {b : Bool} (hk : k.isFixed = true) (h : accept k r = .ok b r') :
    (b = true ∧ ∃ t, t.kind = k ∧ Reads r [t] r') ∨ (b = false ∧ Reads r [] r') := by
  simp only [accept, ofReader, Reader.accept] at h
  cases hp : r.peek with
  | mk x r₂ =>
    rw [hp] at h
    cases x with
    | error f => simp at h
    | ok t =>
      obtain ⟨hn, r₁, hr⟩ := Reader.next_of_peek hp
      by_cases ht : t.kind.isLike k = true
      · simp only [ht, if_true, hn, hr, EStateM.Result.ok.injEq] at h
        obtain ⟨rfl, rfl⟩ := h
        have hkind := Kind.eq_of_isLike hk ht
        exact .inl ⟨rfl, t, hkind, .single hr (hkind ▸ Kind.ne_eof_of_isFixed hk)⟩
      · simp only [ht] at h
        obtain ⟨rfl, rfl⟩ := EStateM.Result.ok.inj h
        exact .inr ⟨rfl, .same hn⟩

/-- A token that is taken for a name is that name. -/
theorem nameOf_ok {n : String} (h : nameOf t r = .ok n r') : t.kind = .name n ∧ r = r' := by
  unfold nameOf at h
  generalize t.kind = k at h
  split at h
  · obtain ⟨rfl, rfl⟩ := pure_ok_iff.1 h
    exact ⟨rfl, rfl⟩
  · exact absurd h throw_ne_ok

/-! ## Phrases between two readers -/

/-- What lies between two readers writes phrases. -/
def Between (r : Reader) (ps : List Phrase) (r' : Reader) : Prop := ∃ ts, Reads r ts r' ∧ Spells ps ts

/-- What lies between two readers writes phrases, and a span runs over it. -/
def Stretch (r : Reader) (s : Span) (ps : List Phrase) (r' : Reader) : Prop := ∃ ts, Reads r ts r' ∧ Spells ps ts ∧ Covers s ts

/-- What is written in one stretch and in the next is written in both together. -/
theorem Between.trans {r₁ : Reader} {ps qs : List Phrase} (h : Between r ps r₁) (h' : Between r₁ qs r') :
    Between r (ps ++ qs) r' := by
  obtain ⟨ts, hr, hs⟩ := h
  obtain ⟨us, hr', hs'⟩ := h'
  exact ⟨ts ++ us, hr.trans hr', hs.append hs'⟩

/-- What is written in a stretch can be taken apart anywhere. -/
theorem Between.of_append {ps qs : List Phrase} (h : Between r (ps ++ qs) r') :
    ∃ r₁, Between r ps r₁ ∧ Between r₁ qs r' := by
  obtain ⟨ts, hr, hs⟩ := h
  obtain ⟨us, vs, rfl, hps, hqs⟩ := hs.of_append
  obtain ⟨r₁, hus, hvs⟩ := hr.of_append
  exact ⟨r₁, ⟨us, hus, hps⟩, vs, hvs, hqs⟩

/-- With no token in between nothing is written. -/
theorem Between.of_same (h : Reads r [] r') : Between r [] r' := ⟨[], h, .nil⟩

/-- Between the ends of a node lie the tokens that its span runs over. -/
theorem Between.stretch {s : Span} {ps : List Phrase} (h : Between r [.node s ps] r') : Stretch r s [.node s ps] r' := by
  obtain ⟨ts, hr, hs⟩ := h
  exact ⟨ts, hr, hs, hs.of_one.1⟩

namespace Stretch

variable {s s' : Span} {ps qs us : List Phrase} {r₁ r₂ : Reader}

/-- What is written over a span is written. -/
theorem between (h : Stretch r s ps r') : Between r ps r' := by
  obtain ⟨ts, hr, hs, -⟩ := h
  exact ⟨ts, hr, hs⟩

/-- A node of that span. -/
theorem node (h : Stretch r s ps r') : Between r [.node s ps] r' := by
  obtain ⟨ts, hr, hs, hc⟩ := h
  exact ⟨ts, hr, .one hc hs⟩

/-- One token in a slot that accepts it. -/
theorem slot {u : Slot} (hu : u.Accepts [t.kind]) (h : Reads r [t] r') : Stretch r t.span [.slot u] r' :=
  ⟨[t], h, .taken hu, .token t⟩

/-- One token, of its own kind. -/
theorem token {k : Kind} (hk : t.kind = k) (h : Reads r [t] r') : Stretch r t.span [.token k] r' :=
  slot (congrArg (fun k => [k]) hk) h

/-- What is read after a look ahead. -/
theorem of_same (h : Reads r [] r₁) (h' : Stretch r₁ s ps r') : Stretch r s ps r' := by
  obtain ⟨ts, hr, hs, hc⟩ := h'
  exact ⟨ts, h.trans hr, hs, hc⟩

/-- A look ahead changes nothing. -/
theorem then_same (h : Stretch r s ps r₁) (h' : Reads r₁ [] r') : Stretch r s ps r' := by
  obtain ⟨ts, hr, hs, hc⟩ := h
  refine ⟨ts, ?_, hs, hc⟩
  simpa using hr.trans h'

/-- A look ahead and an optional token that is missing change nothing. -/
theorem missing (h : Stretch r s ps r₁) (h' : Reads r₁ [] r') (m : Mark) : Stretch r s (ps ++ [.optional m]) r' := by
  obtain ⟨ts, hr, hs, hc⟩ := h
  refine ⟨ts, ?_, ?_, hc⟩
  · simpa using hr.trans h'
  · simpa using hs.append (.absent m)

/-- The span of a first and that of a last stretch, joined, run over all that lies between. -/
theorem join (h : Stretch r s ps r₁) (hm : Between r₁ qs r₂) (h' : Stretch r₂ s' us r') :
    Stretch r (s.join s') (ps ++ qs ++ us) r' := by
  obtain ⟨ts, hr, hs, hc⟩ := h
  obtain ⟨ms, hmr, hms⟩ := hm
  obtain ⟨vs, hr', hs', hc'⟩ := h'
  exact ⟨ts ++ ms ++ vs, (hr.trans hmr).trans hr', (hs.append hms).append hs', .join hc ms hc'⟩

/-- The span from the start of a first to the end of a last stretch runs over all that lies between. -/
theorem ends (h : Stretch r s ps r₁) (hm : Between r₁ qs r₂) (h' : Stretch r₂ s' us r') :
    Stretch r ⟨s.start, s'.stop⟩ (ps ++ qs ++ us) r' := by
  obtain ⟨ts, hr, hs, hc⟩ := h
  obtain ⟨ms, hmr, hms⟩ := hm
  obtain ⟨vs, hr', hs', hc'⟩ := h'
  exact ⟨ts ++ ms ++ vs, (hr.trans hmr).trans hr', (hs.append hms).append hs', .ends hc ms hc'⟩

end Stretch

/-- A token that was taken is a stretch of its own. -/
theorem stretch_of_next {k : Kind} (h : next r = .ok t r') (hk : t.kind = k) (hne : k ≠ .eof) : Stretch r t.span [.token k] r' :=
  .token hk (.single (next_ok_iff.1 h) (hk ▸ hne))

/-- The next token, taken, when it is a name. -/
theorem stretch_of_name {n : String} {r₁ : Reader} (h : next r = .ok t r₁) (hn : nameOf t r₁ = .ok n r') :
    Stretch r t.span [.name n] r' := by
  obtain ⟨hkind, rfl⟩ := nameOf_ok hn
  exact stretch_of_next h hkind (by simp)

/-- A token that was insisted on is of that kind. -/
theorem stretch_of_expect {k : Kind} (hk : k.isFixed = true) (h : expect k r = .ok t r') : Stretch r t.span [.token k] r' := by
  obtain ⟨u, r₁, hu, h⟩ := bind_ok_iff.1 h
  split at h
  · rename_i hlike
    obtain ⟨rfl, rfl⟩ := pure_ok_iff.1 h
    exact stretch_of_next hu (Kind.eq_of_isLike hk hlike) (Kind.ne_eof_of_isFixed hk)
  · exact absurd h throw_ne_ok

/-! ## Parsers that write what they yield -/

/-- A parser whose tokens write the phrases of what it yields, and whose values have a property. -/
def Writes (p : Parser α) (f : α → List Phrase) (P : α → Prop) : Prop :=
  ∀ r a r', p r = .ok a r' → Between r (f a) r' ∧ P a

/-- A name is written. -/
theorem writes_expectName : Writes expectName (fun n => [.name n]) fun _ => True := by
  intro r n r' h
  obtain ⟨t, r₁, ht, h⟩ := bind_ok_iff.1 h
  exact ⟨(stretch_of_name ht h).between, trivial⟩

/-! ## Loops -/

/-- As many items as there are write their phrases one after the other. -/
theorem writes_many {item : Parser (Option α)} {f : α → List Phrase} {P : α → Prop}
    (h : Writes item (fun o => o.elim [] f) fun o => ∀ a ∈ o, P a) (n : Nat) :
    Writes (many item n) (fun as => as.flatMap f) fun as => ∀ a ∈ as, P a := by
  induction n with
  | zero =>
    intro r as r' hr
    exact absurd hr tooDeep_ne_ok
  | succ n ih =>
    intro r as r' hr
    obtain ⟨o, r₁, ho, hr⟩ := bind_ok_iff.1 hr
    obtain ⟨hitem, hp⟩ := h _ _ _ ho
    cases o with
    | none =>
      obtain ⟨rfl, rfl⟩ := pure_ok_iff.1 hr
      exact ⟨hitem, by simp⟩
    | some a =>
      obtain ⟨as, r₂, has, hr⟩ := bind_ok_iff.1 hr
      obtain ⟨rfl, rfl⟩ := pure_ok_iff.1 hr
      obtain ⟨hrest, hps⟩ := ih _ _ _ has
      exact ⟨hitem.trans hrest, List.forall_mem_cons.2 ⟨hp a rfl, hps⟩⟩

/-- The items end where there is no other. -/
theorem many_ok_last {item : Parser (Option α)} {n : Nat} {as : List α} (h : many item n r = .ok as r') :
    ∃ r₁, item r₁ = .ok none r' := by
  induction n generalizing r as with
  | zero => exact absurd h tooDeep_ne_ok
  | succ n ih =>
    obtain ⟨o, r₁, ho, h⟩ := bind_ok_iff.1 h
    cases o with
    | none =>
      obtain ⟨rfl, rfl⟩ := pure_ok_iff.1 h
      exact ⟨r, ho⟩
    | some a =>
      obtain ⟨as, r₂, has, h⟩ := bind_ok_iff.1 h
      obtain ⟨rfl, rfl⟩ := pure_ok_iff.1 h
      exact ih has

/-- Items separated by commas are written so, and there is at least one. -/
theorem writes_commaSeparated {item : Parser α} {f : α → Phrase} {P : α → Prop} (h : Writes item (fun a => [f a]) P) (n : Nat) :
    Writes (commaSeparated item n) (fun as => (as.map f).intersperse (.mark .comma)) fun as => as ≠ [] ∧ ∀ a ∈ as, P a := by
  induction n with
  | zero =>
    intro r as r' hr
    exact absurd hr tooDeep_ne_ok
  | succ n ih =>
    intro r as r' hr
    obtain ⟨a, r₁, ha, hr⟩ := bind_ok_iff.1 hr
    obtain ⟨hitem, hp⟩ := h _ _ _ ha
    obtain ⟨b, r₂, hb, hr⟩ := bind_ok_iff.1 hr
    rcases accept_ok rfl hb with ⟨rfl, t, ht, hcomma⟩ | ⟨rfl, hsame⟩
    · obtain ⟨as, r₃, has, hr⟩ := bind_ok_iff.1 hr
      obtain ⟨rfl, rfl⟩ := pure_ok_iff.1 hr
      obtain ⟨hrest, hne, hps⟩ := ih _ _ _ has
      obtain ⟨a', as, rfl⟩ := List.exists_cons_of_ne_nil hne
      exact ⟨(hitem.trans (Stretch.token ht hcomma).between).trans hrest, by simp, List.forall_mem_cons.2 ⟨hp, hps⟩⟩
    · obtain ⟨rfl, rfl⟩ := pure_ok_iff.1 hr
      exact ⟨hitem.trans (.of_same hsame), by simp, by simpa using hp⟩

/-- A mark that is taken if it comes next is written, or left out. -/
theorem Between.optional {m : Mark} {b : Bool} (h : accept (.mark m) r = .ok b r') : Between r [.optional m] r' := by
  rcases accept_ok rfl h with ⟨-, t, ht, hr⟩ | ⟨-, hr⟩
  · exact ⟨[t], hr, .present ht⟩
  · exact ⟨[], hr, .absent m⟩

/-- Items up to a closing mark are written as a list, in which a comma may follow the last. -/
theorem writes_listUntil {close : Kind} {item : Parser α} {f : α → Phrase} {P : α → Prop}
    (h : Writes item (fun a => [f a]) P) (n : Nat) :
    Writes (listUntil close item n) (fun as => Phrase.listed (as.map f)) fun as => ∀ a ∈ as, P a := by
  induction n with
  | zero =>
    intro r as r' hr
    exact absurd hr tooDeep_ne_ok
  | succ n ih =>
    intro r as r' hr
    obtain ⟨c, r₀, hc, hr⟩ := bind_ok_iff.1 hr
    obtain ⟨hlook, -⟩ := check_ok hc
    cases c with
    | true =>
      obtain ⟨rfl, rfl⟩ := pure_ok_iff.1 hr
      exact ⟨.of_same hlook, by simp⟩
    | false =>
      obtain ⟨a, r₁, ha, hr⟩ := bind_ok_iff.1 hr
      obtain ⟨hitem, hp⟩ := h _ _ _ ha
      obtain ⟨b, r₂, hb, hr⟩ := bind_ok_iff.1 hr
      have hfirst := (Between.of_same hlook).trans hitem
      cases b with
      | false =>
        obtain ⟨rfl, rfl⟩ := pure_ok_iff.1 hr
        exact ⟨hfirst.trans (.optional hb), by simpa using hp⟩
      | true =>
        obtain ⟨as, r₃, has, hr⟩ := bind_ok_iff.1 hr
        obtain ⟨rfl, rfl⟩ := pure_ok_iff.1 hr
        obtain ⟨hrest, hps⟩ := ih _ _ _ has
        refine ⟨?_, List.forall_mem_cons.2 ⟨hp, hps⟩⟩
        cases as with
        | nil => exact (hfirst.trans (.optional hb)).trans hrest
        | cons a' as =>
          rcases accept_ok rfl hb with ⟨-, t, ht, hcomma⟩ | ⟨hf, -⟩
          · exact (hfirst.trans (Stretch.token ht hcomma).between).trans hrest
          · cases hf

/-- A bounded parser writes what it writes under every bound. -/
theorem writes_bounded {p : Nat → Parser α} {f : α → List Phrase} {P : α → Prop} (h : ∀ n, Writes (p n) f P) :
    Writes (bounded p) f P := fun r a r' hr => h _ r a r' hr

end Parser

end Gradual
