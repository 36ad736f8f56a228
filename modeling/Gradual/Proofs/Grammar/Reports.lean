import Gradual.Proofs.Grammar.Program
import Gradual.Proofs.Token.Placed

/-!
# What the grammar reports, and what its bounds are for

A parser that fails reports a fault that it met, or a token that it was looking at or has taken: so the span that it reports has
every property that the spans of all tokens and faults have. It never reports that something is nested too deep. Its bounds come
from what is left to read, and every round of a loop and every step into a nested production takes a token first.

For the same reason it does not matter which bound it is. Both are said at once, of two parsers with different bounds: they do the
same wherever fewer tokens are ahead than both bounds allow (`Parser.Alike`). Two sequences do the same if their parts do, and
what follows a token needs to do the same with one token less ahead only.
-/

namespace Gradual

open Reader (Reads)

/-- An error about a span with a property, and not about the depth of nesting. -/
def ParseError.IsAbout (V : Span → Prop) : ParseError → Prop
  | .lexical f => V f.span
  | .grammar c s => c ≠ .tooDeep ∧ V s

namespace Parser

variable {α β : Type} {V : Span → Prop} {n : Nat} {p q : Parser α} {r r' : Reader} {t : Token} {e : ParseError}

/-- What a parser comes to from a reader: it has read on, or it reports a span with a property. -/
def Fares (V : Span → Prop) (r : Reader) : EStateM.Result ParseError Reader α → Prop
  | .ok _ r' => ∃ ts, Reads r ts r'
  | .error e _ => e.IsAbout V

/-- What two parsers come to from a reader: the same, and they fare well. -/
def Coincide (V : Span → Prop) (r : Reader) (x y : EStateM.Result ParseError Reader α) : Prop := x = y ∧ Fares V r x

/-- Two parsers that do the same and fare well wherever fewer than `n` tokens are ahead. -/
def Alike (V : Span → Prop) (n : Nat) (p q : Parser α) : Prop := ∀ r, r.Shows V → r.left < n → Coincide V r (p r) (q r)

/-! ## Sequences -/

/-- What fares well after some tokens fares well from before them. -/
theorem Fares.of_reads {ts : List Token} {x : EStateM.Result ParseError Reader α} (hr : Reads r ts r') (h : Fares V r' x) :
    Fares V r x := by
  cases x with
  | ok a r₁ =>
    obtain ⟨us, hus⟩ := h
    exact ⟨ts ++ us, hr.trans hus⟩
  | error e r₁ => exact h

/-- What coincides after some tokens coincides from before them. -/
theorem Coincide.of_reads {ts : List Token} {x y : EStateM.Result ParseError Reader α} (hr : Reads r ts r')
    (h : Coincide V r' x y) : Coincide V r x y := ⟨h.1, .of_reads hr h.2⟩

/-- A parser that only yields a value coincides with itself. -/
theorem Coincide.pure (a : α) : Coincide V r ((pure a : Parser α) r) ((pure a : Parser α) r) := ⟨rfl, [], .refl r⟩

/-- A sequence of two parsers, of which the second starts where the first stops. -/
theorem Coincide.bind {k k' : α → Parser β} (h : Coincide V r (p r) (q r))
    (hk : ∀ a r₁ ts, p r = .ok a r₁ → Reads r ts r₁ → Coincide V r₁ (k a r₁) (k' a r₁)) :
    Coincide V r ((p >>= k) r) ((q >>= k') r) := by
  obtain ⟨heq, hfares⟩ := h
  cases hp : p r with
  | ok a r₁ =>
    rw [hp] at hfares
    obtain ⟨ts, hts⟩ := hfares
    rw [bind_of_ok hp, bind_of_ok (heq.symm.trans hp)]
    exact .of_reads hts (hk a r₁ ts hp hts)
  | error e r₁ =>
    rw [hp] at hfares
    rw [bind_of_error hp, bind_of_error (heq.symm.trans hp)]
    exact ⟨rfl, hfares⟩

/-- What is alike with so many tokens ahead is alike with fewer. -/
theorem Alike.mono {m : Nat} (h : Alike V n p q) (hm : m ≤ n) : Alike V m p q :=
  fun r hv hn => h r hv (Nat.lt_of_lt_of_le hn hm)

/-- With nothing ahead there is nothing to compare. -/
theorem Alike.none_ahead : Alike V 0 p q := fun _ _ hn => absurd hn (Nat.not_lt_zero _)

/-- What is alike with one token more ahead is alike. -/
theorem Alike.weaken (h : Alike V (n + 1) p q) : Alike V n p q := h.mono (Nat.le_succ n)

/-- A parser that only yields a value is alike. -/
theorem Alike.pure (a : α) : Alike V n (pure a : Parser α) (pure a) := fun _ _ _ => .pure a

/-- A failure that is about a span with the property. -/
theorem Alike.throw {c : GrammarCause} {s : Span} (hc : c ≠ .tooDeep) (hs : V s) :
    Alike V n (throw (.grammar c s) : Parser α) (throw (.grammar c s)) := fun _ _ _ => ⟨rfl, hc, hs⟩

/-- After some tokens, so many less are ahead. -/
theorem Alike.after {ts : List Token} (h : Alike V n p q) (hv : r.Shows V) (hts : Reads r ts r') (hn : r.left < n + ts.length) :
    Coincide V r' (p r') (q r') := by
  have hleft := hts.left_eq
  exact h r' (hv.of_reads hts) (by omega)

/-- Two sequences do the same if their parts do. -/
theorem Alike.bind {k k' : α → Parser β} (h : Alike V n p q) (hk : ∀ a, Alike V n (k a) (k' a)) :
    Alike V n (p >>= k) (q >>= k') := by
  intro r hv hn
  refine .bind (h r hv hn) ?_
  intro a r₁ ts _ hts
  exact (hk a).after hv hts (by omega)

/-- A parser that takes at least one token. -/
def Takes (p : Parser α) : Prop := ∀ r a r', p r = .ok a r' → ∃ t ts, Reads r (t :: ts) r'

/-- After a parser that takes a token, one token less is ahead. -/
theorem Alike.then {k k' : α → Parser β} (h : Alike V (n + 1) p q) (htakes : Takes p) (hk : ∀ a, Alike V n (k a) (k' a)) :
    Alike V (n + 1) (p >>= k) (q >>= k') := by
  intro r hv hn
  refine .bind (h r hv hn) ?_
  intro a r₁ _ ha _
  obtain ⟨t, ts, hts⟩ := htakes _ _ _ ha
  exact (hk a).after hv hts (by rw [List.length_cons]; omega)

/-- What writes something that needs a token takes one. -/
theorem Between.takes {q : Phrase} {ps : List Phrase} (hq : q.isSolid = true) (h : Between r (q :: ps) r') :
    ∃ t ts, Reads r (t :: ts) r' := by
  obtain ⟨ts, hts, hspells⟩ := h
  obtain ⟨t, us, rfl⟩ := List.exists_cons_of_ne_nil (hspells.ne_nil hq)
  exact ⟨t, us, hts⟩

/-- A parser takes a token if what it yields is written with one. -/
theorem takes_of_writes {f : α → Phrase} {P : α → Prop} (h : Writes p (fun a => [f a]) P) (hf : ∀ a, (f a).isSolid = true) :
    Takes p := by
  intro r a r' hr
  exact (h _ _ _ hr).1.takes (hf a)

/-! ## Tokens -/

/-- A fault that the reader meets is what the parser reports. -/
theorem next_of_fault {f : Fault} (h : r.next = (.error f, r')) : next r = .error (.lexical f) r' := by
  rw [next, ofReader, h]

/-- A token that is taken: the end of the text is refused, and after any other one token less is ahead. -/
theorem Alike.next_bind {k k' : Token → Parser β} (hk : ∀ t, V t.span → t.kind ≠ .eof → Alike V n (k t) (k' t))
    (heof : ∀ t r, t.kind = .eof →
      ∃ c, c ≠ .tooDeep ∧ k t r = .error (.grammar c t.span) r ∧ k' t r = .error (.grammar c t.span) r) :
    Alike V (n + 1) (next >>= k) (next >>= k') := by
  intro r hv hn
  obtain ⟨htoken, hfault⟩ := hv [] r (.refl r)
  cases hr : r.next with
  | mk x r₁ =>
    cases x with
    | error f =>
      rw [bind_of_error (next_of_fault hr), bind_of_error (next_of_fault hr)]
      exact ⟨rfl, hfault f r₁ hr⟩
    | ok t =>
      rw [bind_of_ok (next_ok_iff.2 hr), bind_of_ok (next_ok_iff.2 hr)]
      by_cases hkind : t.kind = .eof
      · obtain ⟨c, hc, hfail, hfail'⟩ := heof t r₁ hkind
        rw [hfail, hfail']
        exact ⟨rfl, hc, htoken t r₁ hr⟩
      · have hread := Reads.single hr hkind
        exact .of_reads hread ((hk t (htoken t r₁ hr) hkind).after hv hread hn)

/-- The name of a token, or a report of that token. -/
theorem alike_nameOf (ht : V t.span) : Alike V n (nameOf t) (nameOf t) := by
  unfold nameOf
  split
  · exact .pure _
  · exact .throw (by simp) ht

/-- The end of the source is reported where a name should stand. -/
theorem nameOf_of_eof (r : Reader) (ht : t.kind = .eof) : nameOf t r = .error (.grammar (.expectedName .eof) t.span) r := by
  rw [nameOf, ht]
  rfl

/-- A name that is taken. -/
theorem Alike.name_bind {k k' : Token → String → Parser β} (hk : ∀ t m, V t.span → Alike V n (k t m) (k' t m)) :
    Alike V n (next >>= fun t => nameOf t >>= k t) (next >>= fun t => nameOf t >>= k' t) := by
  refine .weaken (.next_bind ?_ ?_)
  · intro t ht _
    exact .bind (alike_nameOf ht) fun m => hk t m ht
  · intro t r ht
    have hfail := nameOf_of_eof r ht
    exact ⟨.expectedName .eof, by simp, bind_of_error hfail, bind_of_error hfail⟩

/-- A name reports only what it is shown. -/
theorem alike_expectName : Alike V n expectName expectName := by
  refine .weaken (.next_bind ?_ ?_)
  · intro t ht _
    exact alike_nameOf ht
  · intro t r ht
    exact ⟨.expectedName .eof, by simp, nameOf_of_eof r ht, nameOf_of_eof r ht⟩

/-- A fixed token reports only what it is shown. -/
theorem alike_expect {w : Kind} (hw : w.isFixed = true) : Alike V n (expect w) (expect w) := by
  refine .weaken (.next_bind ?_ ?_)
  · intro t ht _
    split
    · exact .pure t
    · exact .throw (by simp) ht
  · intro t r ht
    have hno : t.kind.isLike w = false := by
      rw [ht]
      cases w <;> simp_all [Kind.isLike, Kind.isFixed]
    have hfail : (if t.kind.isLike w then pure t else throw (.grammar (.expected w t.kind) t.span) : Parser Token) r =
        .error (.grammar (.expected w .eof) t.span) r := by
      rw [hno, ht]
      rfl
    exact ⟨.expected w .eof, by simp, hfail, hfail⟩

/-- A fixed token is taken. -/
theorem takes_expect {w : Kind} (hw : w.isFixed = true) : Takes (expect w) := by
  intro r t r' h
  exact (stretch_of_expect hw h).between.takes rfl

/-- A name takes its token. -/
theorem takes_expectName : Takes expectName := takes_of_writes writes_expectName fun _ => rfl

/-- Two parsers that do the same and fare well where that token comes next. -/
def AlikeAt (V : Span → Prop) (t : Token) (n : Nat) (p q : Parser α) : Prop :=
  ∀ r r₁, r.Shows V → r.left < n → r.next = (.ok t, r₁) → Coincide V r (p r) (q r)

/-- What is alike is alike where a certain token comes next. -/
theorem Alike.at (h : Alike V n p q) : AlikeAt V t n p q := fun r _ hv hn _ => h r hv hn

/-- A look ahead. -/
theorem Alike.peek_bind {k k' : Token → Parser β} (hk : ∀ t, V t.span → AlikeAt V t n (k t) (k' t)) :
    Alike V n (peek >>= k) (peek >>= k') := by
  intro r hv hn
  obtain ⟨htoken, hfault⟩ := hv [] r (.refl r)
  cases hr : peek r with
  | error e r₁ =>
    rw [bind_of_error hr, bind_of_error hr]
    unfold peek ofReader at hr
    split at hr
    · cases hr
    · rename_i f r₂ hf
      cases hr
      exact ⟨rfl, hfault f _ (Reader.next_of_peek_fault hf)⟩
  | ok t r₁ =>
    rw [bind_of_ok hr, bind_of_ok hr]
    obtain ⟨hread, r₂, ht⟩ := peek_ok hr
    have hleft := hread.left_eq
    rw [List.length_nil] at hleft
    rw [hread.next_eq] at ht
    exact .of_reads hread (hk t (htoken t r₂ ht) r₁ r₂ (hv.of_reads hread) (by omega) (hread.next_eq.trans ht))

/-- The token that was looked at, taken. -/
theorem AlikeAt.next_bind {k k' : Token → Parser β} (ht : t.kind ≠ .eof) (hk : Alike V n (k t) (k' t)) :
    AlikeAt V t (n + 1) (next >>= k) (next >>= k') := by
  intro r r₁ hv hn hr
  rw [bind_of_ok (next_ok_iff.2 hr), bind_of_ok (next_ok_iff.2 hr)]
  have hread := Reads.single hr ht
  exact .of_reads hread (hk.after hv hread hn)

/-- A look whether a token comes next reports only what it is shown. -/
theorem alike_check (w : Kind) : Alike V n (check w) (check w) := by
  intro r hv _
  refine ⟨rfl, ?_⟩
  cases hr : check w r with
  | ok b r₁ => exact ⟨[], (check_ok hr).1⟩
  | error e r₁ =>
    simp only [check, ofReader, Reader.check] at hr
    cases hp : r.peek with
    | mk x r₂ =>
      cases x with
      | ok t =>
        rw [hp] at hr
        cases hr
      | error f =>
        rw [hp] at hr
        cases hr
        exact (hv [] r (.refl r)).2 f _ (Reader.next_of_peek_fault hp)

/-- Taking a token if it comes next reports only what it is shown. -/
theorem alike_accept {w : Kind} (hw : w.isFixed = true) : Alike V n (accept w) (accept w) := by
  intro r hv _
  refine ⟨rfl, ?_⟩
  cases hr : accept w r with
  | ok b r₁ =>
    rcases accept_ok hw hr with ⟨-, t, -, hts⟩ | ⟨-, hts⟩
    · exact ⟨[t], hts⟩
    · exact ⟨[], hts⟩
  | error e r₁ =>
    simp only [accept, ofReader, Reader.accept] at hr
    cases hp : r.peek with
    | mk x r₂ =>
      cases x with
      | ok t =>
        rw [hp] at hr
        by_cases hlike : t.kind.isLike w = true <;> simp [hlike] at hr
      | error f =>
        rw [hp] at hr
        cases hr
        exact (hv [] r (.refl r)).2 f _ (Reader.next_of_peek_fault hp)

/-! ## Loops and bounds -/

/-- Two bounded parsers that do the same and fare well under all bounds that what is ahead does not reach. -/
def AlikeWithin (V : Span → Prop) (n : Nat) (p q : Nat → Parser α) : Prop := ∀ m m', Alike V (min n (min m m')) (p m) (q m')

/-- What is ahead does not reach the bound of a bounded parser. -/
theorem AlikeWithin.bounded {p q : Nat → Parser α} (h : AlikeWithin V n p q) : Alike V n (bounded p) (bounded q) := by
  intro r hv hn
  have hsize := r.left_le_size
  exact h _ _ r hv (by omega)

/-- Two loops under bounds that what is ahead does not reach: it is enough that each round leaves one token less ahead of the
rounds that follow. -/
theorem alike_rounds {σ : Type} {p q : Nat → σ → Parser α}
    (hstep : ∀ k m m', k < n → (∀ s, Alike V k (p m s) (q m' s)) → ∀ s, Alike V (k + 1) (p (m + 1) s) (q (m' + 1) s)) (s : σ) :
    AlikeWithin V n (p · s) (q · s) := by
  intro m
  induction m generalizing n s with
  | zero =>
    intro m'
    simp only [Nat.zero_min, Nat.min_zero]
    exact .none_ahead
  | succ m ih =>
    intro m'
    cases n with
    | zero =>
      rw [Nat.zero_min]
      exact .none_ahead
    | succ n =>
      cases m' with
      | zero =>
        simp only [Nat.min_zero]
        exact .none_ahead
      | succ m' =>
        simp only [Nat.add_min_add_right]
        refine hstep _ m m' (by omega) ?_ s
        intro s
        exact ih (fun k i j hk => hstep k i j (by omega)) s m'

/-- A loop whose rounds each take a token. -/
theorem alike_many {item item' : Parser (Option α)} (h : Alike V n item item')
    (htakes : ∀ r a r', item r = .ok (some a) r' → ∃ t ts, Reads r (t :: ts) r') : AlikeWithin V n (many item) (many item') := by
  refine alike_rounds (p := fun m (_ : Unit) => many item m) (q := fun m (_ : Unit) => many item' m) ?_ ()
  intro k m m' hk ih _ r hv hn
  refine .bind (h r hv (by omega)) ?_
  intro o r₁ _ ho _
  cases o with
  | none => exact .pure []
  | some a =>
    obtain ⟨t, ts, hts⟩ := htakes _ _ _ ho
    have hrest : Alike V k (many item m >>= fun as => pure (a :: as)) (many item' m' >>= fun as => pure (a :: as)) :=
      .bind (ih ()) fun as => .pure (a :: as)
    exact hrest.after hv hts (by rw [List.length_cons]; omega)

/-- Items with commas in between are alike if the items are, and each takes a token. -/
theorem alike_commaSeparated {item item' : Parser α} (h : Alike V n item item') (htakes : Takes item) :
    AlikeWithin V n (commaSeparated item) (commaSeparated item') := by
  refine alike_rounds (p := fun m (_ : Unit) => commaSeparated item m) (q := fun m (_ : Unit) => commaSeparated item' m) ?_ ()
  intro k m m' hk ih _
  refine .then (h.mono hk) htakes ?_
  intro a
  refine .bind (alike_accept rfl) ?_
  intro b
  split
  · exact .bind (ih ()) fun _ => .pure _
  · exact .pure _

/-- Items up to a closing token are alike if the items are, and each takes a token. -/
theorem alike_listUntil {item item' : Parser α} (close : Kind) (h : Alike V n item item') (htakes : Takes item) :
    AlikeWithin V n (listUntil close item) (listUntil close item') := by
  refine alike_rounds (p := fun m (_ : Unit) => listUntil close item m) (q := fun m (_ : Unit) => listUntil close item' m) ?_ ()
  intro k m m' hk ih _
  refine .bind (alike_check close) ?_
  intro c
  split
  · exact .pure _
  · refine .then (h.mono hk) htakes ?_
    intro a
    refine .bind (alike_accept rfl) ?_
    intro b
    split
    · exact .bind (ih ()) fun _ => .pure _
    · exact .pure _

/-- A bounded parser whose bound does not matter where it is above the number of tokens that are ahead: the parser comes to the
same under all such bounds, and not to the failure of a bound. -/
def Suffices (p : Nat → Parser α) : Prop :=
  ∀ r m, r.left < m → p m r = bounded p r ∧ ∀ s r', p m r ≠ .error (.grammar .tooDeep s) r'

/-- The bound of a parser does not matter if it does the same under any two bounds that what is ahead does not reach. -/
theorem suffices_of_alike {p : Nat → Parser α} (h : ∀ n, AlikeWithin (fun _ => True) n p p) : Suffices p := by
  intro r m hm
  have hsize := r.left_le_size
  obtain ⟨hsame, hfares⟩ := h m m (r.size + 1) r (.all r) (by omega)
  refine ⟨hsame, ?_⟩
  intro s r' hdeep
  rw [hdeep] at hfares
  exact hfares.1 rfl

end Parser

end Gradual
