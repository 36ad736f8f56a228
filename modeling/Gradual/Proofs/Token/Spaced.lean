import Gradual.Proofs.Text.Position
import Gradual.Proofs.Token.Blanks
import Gradual.Proofs.Token.Tiling

/-!
# Readers of a text and of the same text with blanks put in

Two readers of which one has blanks put into its text take the same tokens as long as they stand before the blanks
(`Reader.Spaced.next`). Behind them they stand at different offsets, before the same text. From there on they take tokens of the
same kinds if both or neither stand right after a name (`Reader.Parallel.kinds_eq`), because this is all that what was read before
has to do with what is read next.
-/

namespace Gradual

open Piece (Blanks Begins)

/-! ## Texts and bytes -/

/-- A text without bytes is empty. -/
theorem eq_nil_of_byteSize_le {cs : List Char} (h : byteSize cs ≤ 0) : cs = [] := by
  by_contra hne
  have hpos := byteSize_pos hne
  omega

/-- A text that goes no further than the first part of another is the front of it. -/
theorem exists_append_of_byteSize_le {cs ds es fs : List Char} (h : cs ++ ds = es ++ fs) (hle : byteSize cs ≤ byteSize es) :
    ∃ gs, es = cs ++ gs ∧ ds = gs ++ fs := by
  rcases List.append_eq_append_iff.1 h with ⟨gs, hes, hds⟩ | ⟨gs, rfl, rfl⟩
  · exact ⟨gs, hes, hds⟩
  · rw [byteSize_append] at hle
    obtain rfl : gs = [] := eq_nil_of_byteSize_le (by omega)
    exact ⟨[], by simp, rfl⟩

/-- A text is split at an offset in one way. -/
theorem append_inj_of_byteSize {cs ds es fs : List Char} (h : cs ++ ds = es ++ fs) (hsize : byteSize cs = byteSize es) :
    cs = es ∧ ds = fs := by
  obtain ⟨gs, rfl, rfl⟩ := exists_append_of_byteSize_le h hsize.le
  rw [byteSize_append] at hsize
  obtain rfl : gs = [] := eq_nil_of_byteSize_le (by omega)
  exact ⟨(List.append_nil _).symm, rfl⟩

/-! ## Kinds without regard to offsets -/

namespace Reader

variable {r r' r₁ r₁' : Reader} {t : Token} {ts : List Token} {w tail mid : List Char}

/-- The kinds of all tokens ahead, the end of the text with them, or the text of the first fault. -/
def kinds (r : Reader) : Except String (List Kind) :=
  match r.drain with
  | .ok ts => .ok (ts.map (·.kind))
  | .error f => .error f.text

/-- The kinds ahead are those of the tokens ahead. -/
theorem kinds_of_drain (h : r.drain = .ok ts) : r.kinds = .ok (ts.map (·.kind)) := by rw [kinds, h]

/-- A fault that comes next is what the kinds ahead tell. -/
theorem kinds_of_fault {f : Fault} (h : r.next = (.error f, r₁)) : r.kinds = .error f.text := by
  rw [kinds, drain_of_fault h]

/-- At the end of the text only the end is ahead. -/
theorem kinds_of_eof (h : r.next = (.ok t, r₁)) (ht : t.kind = .eof) : r.kinds = .ok [.eof] := by
  rw [kinds, drain_of_next h, if_pos ht, ← ht]
  rfl

/-- The kinds of tokens that are taken come before those of what lies ahead then. -/
theorem Reads.kinds (h : Reads r ts r₁) : r.kinds = r₁.kinds.map (ts.map (·.kind) ++ ·) := by
  rw [Reader.kinds, Reader.kinds, h.drain]
  cases r₁.drain with
  | ok us => simp [Except.map]
  | error f => rfl

/-! ## What stands before a reader -/

/-- A reader that took every token it looked at: at most the name of a symbol that was split is pending, and no name ended behind
where the reader stands. -/
structure Settled (r : Reader) : Prop where
  pending : r.pending = [] ∨ ∃ n k, r.pending = [⟨.name n, ⟨k, r.offset⟩⟩] ∧ r.nameEnd = some r.offset
  nameEnd : ∀ e ∈ r.nameEnd, e ≤ r.offset

/-- A reader at the start of a source is settled. -/
theorem settled_ofSource (source : String) : (ofSource source).Settled := ⟨.inl rfl, by simp [ofSource]⟩

/-- A reader that stands right after a name, with nothing pending. -/
structure AfterName (r : Reader) : Prop where
  pending : r.pending = []
  nameEnd : r.nameEnd = some r.offset

/-- What is to be said after a token was taken: where it ended the reader stands, a symbol that was split apart. -/
structure Settles (r : Reader) (t : Token) (r₁ : Reader) : Prop where
  settled : r₁.Settled
  offset_le : r.offset ≤ r₁.offset
  start_le : r.pending = [] → r.offset ≤ t.span.start
  stop_le : r.offset ≤ t.span.stop
  named : ∀ n, t.kind = .name n → t.span.stop = r₁.offset ∧ r₁.AfterName

/-- A token that is classified settles a reader. -/
theorem settles_classify {kind : Kind} (hp : r₁.pending = []) (hle : r.offset ≤ r₁.offset) :
    Settles r (r₁.classify kind ⟨r.offset, r₁.offset⟩).1 (r₁.classify kind ⟨r.offset, r₁.offset⟩).2 := by
  unfold classify
  split
  · rename_i s
    split
    · exact ⟨⟨.inr ⟨s, r.offset + 1, by rw [hp], rfl⟩, by simp⟩, hle, fun _ => Nat.le_refl _, Nat.le_succ _, by simp⟩
    · exact ⟨⟨.inl hp, by simp⟩, hle, fun _ => Nat.le_refl _, hle, by simp⟩
  · exact ⟨⟨.inl hp, by simp⟩, hle, fun _ => Nat.le_refl _, hle, fun _ _ => ⟨rfl, hp, rfl⟩⟩
  · rename_i hname
    exact ⟨⟨.inl hp, by simp⟩, hle, fun _ => Nat.le_refl _, hle, fun n hn => absurd hn (hname n)⟩

/-- Skipping a piece keeps a reader settled. -/
theorem Settled.skip (h : r.Settled) (hp : r.pending = []) (p : Piece) : (r.skip p).Settled := by
  refine ⟨.inl hp, ?_⟩
  intro e he
  exact Nat.le_trans (h.nameEnd e he) (Nat.le_add_right _ _)

/-- A token that is scanned settles a reader. -/
theorem Settled.scan (h : r.Settled) (hp : r.pending = []) (hs : r.scan = (.ok t, r₁)) : Settles r t r₁ := by
  fun_induction Reader.scan r with
  | case1 r hr =>
    cases hs
    exact ⟨h, Nat.le_refl _, fun _ => Nat.le_refl _, Nat.le_refl _, by simp⟩
  | case2 r c cs hr p hlex ih =>
    have hle : r.offset ≤ (r.skip p).offset := Nat.le_add_right _ _
    obtain ⟨hsettled, hoffset, hstart, hstop, hnamed⟩ := ih (h.skip hp p) hp hs
    exact ⟨hsettled, Nat.le_trans hle hoffset, fun _ => Nat.le_trans hle (hstart hp), Nat.le_trans hle hstop, hnamed⟩
  | case3 r c cs hr p span hlex => cases hs
  | case4 r c cs hr p span kind hlex t' r' hclass =>
    cases hs
    have hsettles : Settles r ((r.skip p).classify kind span).1 ((r.skip p).classify kind span).2 :=
      settles_classify hp (Nat.le_add_right _ _)
    rwa [hclass] at hsettles

/-- Taking a token keeps a reader settled. -/
theorem Settled.next (h : r.Settled) (hn : r.next = (.ok t, r₁)) : Settles r t r₁ := by
  rcases h.pending with hp | ⟨n, k, hp, hend⟩
  · rw [Reader.next, hp] at hn
    exact h.scan hp hn
  · rw [Reader.next, hp] at hn
    cases hn
    exact ⟨⟨.inl rfl, h.nameEnd⟩, Nat.le_refl _, by simp [hp], Nat.le_refl _, fun _ _ => ⟨rfl, rfl, hend⟩⟩

/-- No token that is taken ends before the reader. -/
theorem Settled.offset_le {s : Reader} (h : r.Settled) (hr : Reads r (ts ++ [t]) s) : r.offset ≤ t.span.stop := by
  induction ts generalizing r with
  | nil =>
    cases hr with
    | take hn _ _ => exact (h.next hn).stop_le
  | cons u us ih =>
    cases hr with
    | take hn _ hrest =>
      have hsettles := h.next hn
      exact Nat.le_trans hsettles.offset_le (ih hsettles.settled hrest)

/-! ## Before the blanks -/

/-- Two readers at the same place, of which the second has blanks put into its text. -/
structure Spaced (w tail mid : List Char) (r r' : Reader) : Prop where
  rest : r.rest = mid ++ tail
  rest' : r'.rest = mid ++ (w ++ tail)
  offset : r'.offset = r.offset
  nameEnd : r'.nameEnd = r.nameEnd
  pending : r'.pending = r.pending

/-- Before the blanks both readers stand right after a name, or neither. -/
theorem Spaced.afterName (h : Spaced w tail mid r r') (hr : r.AfterName) : r'.AfterName :=
  ⟨h.pending.trans hr.pending, by rw [h.nameEnd, h.offset, hr.nameEnd]⟩

/-- Before the blanks a token is classified alike. -/
theorem Spaced.classify (h : Spaced w tail mid r r') (kind : Kind) (s : Span) :
    (r'.classify kind s).1 = (r.classify kind s).1 ∧ Spaced w tail mid (r.classify kind s).2 (r'.classify kind s).2 := by
  unfold Reader.classify
  rw [h.nameEnd]
  split
  · split
    · exact ⟨rfl, h.rest, h.rest', h.offset, rfl, by rw [h.pending]⟩
    · exact ⟨rfl, h.rest, h.rest', h.offset, rfl, h.pending⟩
  · exact ⟨rfl, h.rest, h.rest', h.offset, rfl, h.pending⟩
  · exact ⟨rfl, h.rest, h.rest', h.offset, rfl, h.pending⟩

/-- A piece that a token is found in has a character. -/
theorem Found.text_ne_nil {k : Nat} {text : List Char} (h : Found k text t ts) : text ≠ [] := by
  cases h with
  | token hne _ => exact hne
  | halves _ htext =>
    rw [htext]
    exact List.cons_ne_nil _ _

/-- A piece that ends before the blanks is the first of both texts. -/
theorem Spaced.piece (hw : Blanks w) (h : Spaced w tail mid r r') {c : Char} {cs : List Char} (hr : r.rest = c :: cs) {p : Piece}
    (hp : Piece.first c cs = p) (hl : p.lexeme ≠ .fault) (hle : byteSize p.text ≤ byteSize mid)
    (hlayout : p.lexeme = .layout → byteSize p.text < byteSize mid) :
    ∃ mid₁ c' cs' p', r'.rest = c' :: cs' ∧ Piece.first c' cs' = p' ∧ p'.lexeme = p.lexeme ∧ p'.text = p.text ∧
      byteSize p.text + byteSize mid₁ = byteSize mid ∧ Spaced w tail mid₁ (r.skip p) (r'.skip p') := by
  subst hp
  have hsplit : (Piece.first c cs).text ++ (Piece.first c cs).rest = mid ++ tail := by rw [Piece.first_append, ← hr, h.rest]
  obtain ⟨mid₁, rfl, hrest⟩ := exists_append_of_byteSize_le hsplit hle
  rw [byteSize_append] at hlayout ⊢
  have hbegins : Begins (Piece.first c cs).lexeme (Piece.first c cs).text (mid₁ ++ tail) :=
    ⟨c, cs, by rw [← hrest]; exact Piece.first_append c cs, by rw [← hrest]⟩
  have hmid : mid₁ ≠ [] ∨ (Piece.first c cs).lexeme ≠ .layout := by
    by_cases hlex : (Piece.first c cs).lexeme = .layout
    · left
      rintro rfl
      have hlt := hlayout hlex
      rw [byteSize_nil] at hlt
      omega
    · exact .inr hlex
  obtain ⟨c', cs', hcons, hf⟩ := hbegins.insert hw hl hmid
  refine ⟨mid₁, c', cs', _, ?_, hf, rfl, rfl, rfl, hrest, rfl, ?_, h.nameEnd, h.pending⟩
  · rw [h.rest', List.append_assoc]
    exact hcons
  · rw [skip, skip, h.offset]

/-- Before the blanks the same token is scanned, and the readers stand at the same place after it. A token behind layout is not
empty, so the blanks are not right behind the layout. -/
theorem Spaced.scan (hw : Blanks w) (h : Spaced w tail mid r r') (hp : r.pending = []) (hs : r.scan = (.ok t, r₁))
    (ht : t.kind ≠ .eof) (hle : r₁.offset ≤ r.offset + byteSize mid) :
    ∃ mid₁ r₁', r'.scan = (.ok t, r₁') ∧ r₁.offset + byteSize mid₁ = r.offset + byteSize mid ∧ Spaced w tail mid₁ r₁ r₁' := by
  revert mid r'
  fun_induction Reader.scan r with
  | case1 r hr =>
    cases hs
    exact absurd rfl ht
  | case2 r c cs hr p hlex ih =>
    intro mid r' h hle
    have hoffset : (r.skip p).offset = r.offset + byteSize p.text := rfl
    have hlt : (r.skip p).offset < r₁.offset := by
      rcases scan_cases (r := r.skip p) hp hs with ⟨-, rfl⟩ | ⟨gap, text, -, -, hfound, hend⟩
      · exact absurd rfl ht
      · have hpos := byteSize_pos hfound.text_ne_nil
        omega
    obtain ⟨mid₁, c', cs', p', hr', hp', hlex', htext, hsize, hskip⟩ :=
      h.piece hw hr (p := p) rfl (by rw [hlex]; simp) (by omega) fun _ => by omega
    obtain ⟨mid₂, r₁', hs', hsize', hspaced⟩ := ih hp hs hskip (by omega)
    refine ⟨mid₂, r₁', ?_, by omega, hspaced⟩
    rw [scan_of_rest_cons hr', hp', read, hlex', hlex]
    exact hs'
  | case3 r c cs hr p span hlex => cases hs
  | case4 r c cs hr p span kind hlex t' r₂ hclass =>
    intro mid r' h hle
    cases hs
    have hoffset : r₁.offset = r.offset + byteSize p.text := by
      have hclassified := (classify_rest (r.skip p) kind span).2
      rw [hclass] at hclassified
      exact hclassified
    obtain ⟨mid₁, c', cs', p', hr', hp', hlex', htext, hsize, hskip⟩ :=
      h.piece hw hr (p := p) rfl (by rw [hlex]; simp) (by omega) (by rw [hlex]; simp)
    obtain ⟨htoken, hspaced⟩ := hskip.classify kind span
    rw [hclass] at htoken hspaced
    refine ⟨mid₁, _, ?_, by omega, hspaced⟩
    rw [scan_of_rest_cons hr', hp', read, hlex', hlex, htext, h.offset]
    simp only
    rw [htoken]

/-- Two readers take the same token where it ends before the blanks. -/
theorem Spaced.next (hw : Blanks w) (h : Spaced w tail mid r r') (hsettled : r.Settled) (hn : r.next = (.ok t, r₁))
    (ht : t.kind ≠ .eof) (hle : r₁.offset ≤ r.offset + byteSize mid) :
    ∃ mid₁ r₁', r'.next = (.ok t, r₁') ∧ r₁.offset + byteSize mid₁ = r.offset + byteSize mid ∧ Spaced w tail mid₁ r₁ r₁' := by
  rcases hsettled.pending with hp | ⟨n, k, hp, -⟩
  · rw [Reader.next, hp] at hn
    rw [Reader.next, h.pending, hp]
    exact h.scan hw hp hn ht hle
  · rw [Reader.next, hp] at hn
    cases hn
    exact ⟨mid, { r' with pending := [] }, by rw [Reader.next, h.pending, hp], rfl, h.rest, h.rest', h.offset, h.nameEnd, rfl⟩

/-- Two readers take the same tokens up to a name that ends before the blanks, and both then stand right after it. -/
theorem Spaced.reads (hw : Blanks w) (h : Spaced w tail mid r r') (hsettled : r.Settled)
    {x : String} {i j : Nat} {us : List Token}
    {s : Reader} (hr : Reads r (ts ++ ⟨.name x, ⟨i, j⟩⟩ :: us) s) (hj : j ≤ r.offset + byteSize mid) :
    ∃ mid₁ q q', Reads r (ts ++ [⟨.name x, ⟨i, j⟩⟩]) q ∧ Reads r' (ts ++ [⟨.name x, ⟨i, j⟩⟩]) q' ∧ Reads q us s ∧
      Spaced w tail mid₁ q q' ∧ q.AfterName ∧ q.offset = j ∧ j + byteSize mid₁ = r.offset + byteSize mid := by
  induction ts generalizing mid r r' with
  | nil =>
    cases hr with
    | take hn hne hrest =>
      obtain ⟨hstop, hafter⟩ := (hsettled.next hn).named x rfl
      obtain ⟨mid₁, q', hn', hsize, hspaced⟩ := h.next hw hsettled hn hne (by rw [← hstop]; exact hj)
      exact ⟨mid₁, _, q', .single hn hne, .single hn' hne, hrest, hspaced, hafter, hstop.symm, by rw [← hsize, ← hstop]⟩
  | cons t ts ih =>
    cases hr with
    | take hn hne hrest =>
      rename_i r₁
      have hsettles := hsettled.next hn
      have hbefore : r₁.offset ≤ j := by
        have hread : ts ++ ⟨.name x, ⟨i, j⟩⟩ :: us = ts ++ [⟨.name x, ⟨i, j⟩⟩] ++ us := by simp
        obtain ⟨q, hq, -⟩ := (hread ▸ hrest : Reads r₁ (ts ++ [⟨.name x, ⟨i, j⟩⟩] ++ us) s).of_append
        exact hsettles.settled.offset_le hq
      obtain ⟨mid₁, r₁', hn', hsize, hspaced⟩ := h.next hw hsettled hn hne (Nat.le_trans hbefore hj)
      obtain ⟨mid₂, q, q', hq, hq', hus, hspaced', hafter, hoffset, hsize'⟩ :=
        ih hspaced hsettles.settled hrest (by omega)
      exact ⟨mid₂, q, q', .take hn hne hq, .take hn' hne hq', hus, hspaced', hafter, hoffset, by omega⟩

/-! ## Behind the blanks -/

/-- Two readers before the same text, with tokens of the same kinds pending, and no name that ended behind them. -/
structure Abreast (r r' : Reader) : Prop where
  rest : r'.rest = r.rest
  pending : r'.pending.map (·.kind) = r.pending.map (·.kind)
  nameEnd : ∀ e ∈ r.nameEnd, e ≤ r.offset
  nameEnd' : ∀ e ∈ r'.nameEnd, e ≤ r'.offset

/-- Two readers before the same text, with tokens of the same kinds pending. Both or neither stand right after a name. -/
structure Parallel (r r' : Reader) : Prop where
  rest : r'.rest = r.rest
  pending : r'.pending.map (·.kind) = r.pending.map (·.kind)
  glued : r'.nameEnd = some r'.offset ↔ r.nameEnd = some r.offset
  nameEnd : ∀ e ∈ r.nameEnd, e ≤ r.offset
  nameEnd' : ∀ e ∈ r'.nameEnd, e ≤ r'.offset

/-- Readers in parallel are abreast. -/
theorem Parallel.abreast (h : Parallel r r') : Abreast r r' := ⟨h.rest, h.pending, h.nameEnd, h.nameEnd'⟩

/-- What is read next by two readers is of the same kind, or the same fault. -/
inductive ParallelNext : Except Fault Token × Reader → Except Fault Token × Reader → Prop
  | token {t t' : Token} {r r' : Reader} (ht : t'.kind = t.kind) (h : Parallel r r') : ParallelNext (.ok t, r) (.ok t', r')
  | fault {f f' : Fault} {r r' : Reader} (hf : f'.text = f.text) : ParallelNext (.error f, r) (.error f', r')

/-- Behind layout neither reader stands right after a name. -/
theorem Abreast.skip (h : Abreast r r') {p : Piece} (hp : p.text ≠ []) : Parallel (r.skip p) (r'.skip p) := by
  have hpos := byteSize_pos hp
  refine ⟨rfl, h.pending, ?_, ?_, ?_⟩
  · refine iff_of_false ?_ ?_
    · intro he
      have hle := h.nameEnd' _ he
      simp only [Reader.skip] at hle
      omega
    · intro he
      have hle := h.nameEnd _ he
      simp only [Reader.skip] at hle
      omega
  · intro e he
    exact Nat.le_trans (h.nameEnd e he) (Nat.le_add_right _ _)
  · intro e he
    exact Nat.le_trans (h.nameEnd' e he) (Nat.le_add_right _ _)

/-- A token is classified in the same way; for a symbol, if both or neither readers stand right after a name. -/
theorem Abreast.classify (h : Abreast r r') (p : Piece) (kind : Kind)
    (hglued : ∀ s, kind = .symbol s → (r'.nameEnd = some r'.offset ↔ r.nameEnd = some r.offset)) :
    ParallelNext
      (.ok ((r.skip p).classify kind ⟨r.offset, r.offset + byteSize p.text⟩).1,
        ((r.skip p).classify kind ⟨r.offset, r.offset + byteSize p.text⟩).2)
      (.ok ((r'.skip p).classify kind ⟨r'.offset, r'.offset + byteSize p.text⟩).1,
        ((r'.skip p).classify kind ⟨r'.offset, r'.offset + byteSize p.text⟩).2) := by
  cases kind with
  | symbol s =>
    by_cases hr : r.nameEnd = some r.offset
    · have hr' := (hglued s rfl).2 hr
      simp only [Reader.classify, Reader.skip, hr, hr', if_true]
      exact .token rfl ⟨rfl, by simp [h.pending], by simp, by simp, by simp⟩
    · have hr' := mt (hglued s rfl).1 hr
      simp only [Reader.classify, Reader.skip, hr, hr', if_false]
      exact .token rfl ⟨rfl, h.pending, by simp, by simp, by simp⟩
  | name n => exact .token rfl ⟨rfl, h.pending, by simp [Reader.classify, Reader.skip], by simp [Reader.classify, Reader.skip],
      by simp [Reader.classify, Reader.skip]⟩
  | _ => exact .token rfl ⟨rfl, h.pending, by simp [Reader.classify], by simp [Reader.classify], by simp [Reader.classify]⟩

/-- Readers in parallel scan tokens of the same kinds, and are in parallel after them. -/
theorem Parallel.scan (h : Parallel r r') : ParallelNext r.scan r'.scan := by
  revert r'
  fun_induction Reader.scan r with
  | case1 r hr =>
    intro r' h
    rw [scan_of_rest_nil (h.rest.trans hr)]
    exact .token rfl h
  | case2 r c cs hr p hlex =>
    rename_i ih
    intro r' h
    rw [scan_of_rest_cons (h.rest.trans hr), read, show (Piece.first c cs).lexeme = .layout from hlex]
    exact ih (h.abreast.skip (Piece.text_first_ne_nil c cs))
  | case3 r c cs hr p span =>
    rename_i hlex
    intro r' h
    rw [scan_of_rest_cons (h.rest.trans hr), read, show (Piece.first c cs).lexeme = .fault from hlex]
    exact .fault rfl
  | case4 r c cs hr p span kind hlex t r₁ =>
    rename_i hclass
    intro r' h
    rw [scan_of_rest_cons (h.rest.trans hr), read, show (Piece.first c cs).lexeme = .token kind from hlex]
    have hnext := h.abreast.classify p kind fun _ _ => h.glued
    rw [hclass] at hnext
    exact hnext

/-- Readers in parallel take tokens of the same kinds, and are in parallel after them. -/
theorem Parallel.next (h : Parallel r r') : ParallelNext r.next r'.next := by
  have hpending := h.pending
  unfold Reader.next
  cases hp : r.pending with
  | nil =>
    rw [hp, List.map_nil, List.map_eq_nil_iff] at hpending
    rw [hpending]
    exact h.scan
  | cons t ts =>
    rw [hp, List.map_cons] at hpending
    obtain ⟨t', ts', hp', ht, hts⟩ := List.map_eq_cons_iff.1 hpending
    rw [hp']
    exact .token ht ⟨h.rest, hts, h.glued, h.nameEnd, h.nameEnd'⟩

/-- Two readers that take next what is of the same kind, or the same fault, take tokens of the same kinds from there on, if what
they take after it is of the same kinds. -/
theorem ParallelNext.kinds_eq (h : ParallelNext r.next r'.next)
    (ih : ∀ t r₁ r₁', r.next = (.ok t, r₁) → t.kind ≠ .eof → Parallel r₁ r₁' → r₁'.kinds = r₁.kinds) : r'.kinds = r.kinds := by
  generalize hx : r.next = x at h ih
  generalize hx' : r'.next = x' at h
  cases h with
  | @token t t' r₁ r₁' hkind hrest =>
    by_cases ht : t.kind = .eof
    · rw [kinds_of_eof hx ht, kinds_of_eof hx' (hkind.trans ht)]
    · have hread := Reads.single hx ht
      have hread' := Reads.single hx' (by rwa [hkind])
      rw [hread.kinds, hread'.kinds, ih t r₁ r₁' rfl ht hrest, List.map_singleton, List.map_singleton, hkind]
  | fault htext => rw [kinds_of_fault hx, kinds_of_fault hx', htext]

/-- Two readers before the same text take tokens of the same kinds, up to the end of the text or the same fault. -/
theorem Parallel.kinds_eq (h : Parallel r r') : r'.kinds = r.kinds := by
  induction hsize : r.size using Nat.strong_induction_on generalizing r r' with
  | _ n ih =>
    subst hsize
    exact h.next.kinds_eq fun t r₁ r₁' hn ht hrest => ih _ (next_size hn ht) hrest rfl

end Reader

end Gradual
