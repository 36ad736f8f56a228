import Gradual.Proofs.Token.Glued

/-!
# Layout between tokens

Blanks that are put in where a token ends leave the kinds of all tokens as they are (`kinds_of_blanks_between`), unless they part
what is read as one: a name and the colon glued to it, or the two halves of a symbol that was split. Before the blanks both
readers take the same tokens. Where a reader then stands is where the last token ended (`Reader.Step`), so behind the blanks the
other one stands before the same text. What is read from there on hangs on the blanks only where a symbol would be glued to a
name.
-/

namespace Gradual

open Piece (Blanks)

/-- The offsets at what is glued to a name: between the name and the colon, and between the halves of a symbol that was split. -/
inductive Joint (ts : List Token) : Nat → Prop
  | glued {x : String} {i j : Nat} (h : [⟨.name x, ⟨i, j⟩⟩, ⟨.mark .colon, ⟨j, j + 1⟩⟩] <:+: ts) : Joint ts j
  | halves {x n : String} {i j k : Nat}
      (h : [⟨.name x, ⟨i, j⟩⟩, ⟨.mark .colon, ⟨j, j + 1⟩⟩, ⟨.name n, ⟨j + 1, k⟩⟩] <:+: ts) : Joint ts (j + 1)

/-! ## Layout at the end of a text -/

namespace Piece

variable {c : Char} {cs w : List Char}

/-- The blanks at the front of a text, if there are any, as a piece. -/
def blanks (cs : List Char) : Piece := ⟨.layout, cs.takeWhile isBlank, cs.dropWhile isBlank⟩

/-- The blanks at the front and what follows them make up the text. -/
theorem blanks_append (cs : List Char) : (blanks cs).text ++ (blanks cs).rest = cs := List.takeWhile_append_dropWhile

/-- A piece that begins with a blank is the blanks at the front. -/
theorem first_of_isBlank (hc : isBlank c = true) : first c cs = blanks (c :: cs) := by
  rw [first, if_pos hc, blanks, List.takeWhile_cons_of_pos hc, List.dropWhile_cons_of_pos hc]

/-- What is dropped from a text, and more, leaves something only of what was added. -/
theorem mem_of_mem_dropWhile_append {p : Char → Bool} (h : cs.dropWhile p = []) {d : Char} (hd : d ∈ (cs ++ w).dropWhile p) :
    d ∈ w := by
  rw [List.dropWhile_append, h] at hd
  exact (List.dropWhile_sublist p).subset hd

/-- Blanks behind layout that ends a text are layout too, if perhaps no part of the same piece. -/
theorem first_append_blanks (hlex : (first c cs).lexeme = .layout) (hrest : (first c cs).rest = []) (hw : Blanks w) :
    (first c (cs ++ w)).lexeme = .layout ∧ ∀ d ∈ (first c (cs ++ w)).rest, isBlank d = true := by
  rcases first_of_layout hlex with hb | ⟨rfl, hpiece⟩
  · rw [first_of_isBlank hb] at hrest ⊢
    exact ⟨rfl, fun d hd => hw.isBlank d (mem_of_mem_dropWhile_append hrest hd)⟩
  · rw [hpiece] at hlex hrest
    change (slash (cs ++ w)).lexeme = .layout ∧ ∀ d ∈ (slash (cs ++ w)).rest, isBlank d = true
    unfold slash at hlex hrest
    split at hlex
    · exact ⟨rfl, fun d hd => hw.isBlank d (mem_of_mem_dropWhile_append hrest hd)⟩
    · rename_i ds
      split at hlex
      · rename_i text rest hbody
        obtain rfl : rest = [] := by simpa only [hbody] using hrest
        have hends : commentBody? (ds ++ w) = some (text, w) := by
          have hsplit := commentBody?_append hbody
          rw [List.append_nil] at hsplit
          rw [← hsplit]
          exact commentBody?_closed hbody w
        rw [List.cons_append, slash, hends]
        exact ⟨rfl, hw.isBlank⟩
      · cases hlex
    · cases hlex

end Piece

namespace Reader

variable {r r' r₁ : Reader} {t : Token} {us ts : List Token} {w tail mid : List Char}

/-- Where kinds lie ahead, tokens of these kinds do. -/
theorem exists_drain_of_kinds {ks : List Kind} (h : r.kinds = .ok ks) : ∃ ts, r.drain = .ok ts ∧ ts.map (·.kind) = ks := by
  unfold kinds at h
  split at h
  · rename_i ts hd
    exact ⟨ts, hd, Except.ok.inj h⟩
  · cases h

/-- Layout at the front of the text is passed over. -/
theorem kinds_skip {c : Char} {cs : List Char} (hp : r.pending = []) (hr : r.rest = c :: cs)
    (hlex : (Piece.first c cs).lexeme = .layout) : (r.skip (Piece.first c cs)).kinds = r.kinds := by
  rw [kinds, kinds, drain_congr (next_of_layout hp hr hlex)]

/-- At the end of the text, with nothing pending, only the end is ahead. -/
theorem kinds_of_rest_nil (hp : r.pending = []) (hr : r.rest = []) : r.kinds = .ok [.eof] := by
  have hnext : r.next = (.ok ⟨.eof, ⟨r.offset, r.offset⟩⟩, r) := by rw [next, hp, scan_of_rest_nil hr]
  exact kinds_of_eof hnext rfl

/-- Without blanks at the front, nothing is skipped. -/
theorem skip_blanks_of_text_nil (h : (Piece.blanks r.rest).text = []) : r.skip (Piece.blanks r.rest) = r := by
  have happend := Piece.blanks_append r.rest
  rw [h, List.nil_append] at happend
  rw [skip, h, happend]
  rfl

/-- Blanks at the front of the text are passed over, if there are any. -/
theorem kinds_skip_blanks (hp : r.pending = []) : (r.skip (Piece.blanks r.rest)).kinds = r.kinds := by
  by_cases htext : (Piece.blanks r.rest).text = []
  · rw [skip_blanks_of_text_nil htext]
  · obtain ⟨c, cs, hr⟩ : ∃ c cs, r.rest = c :: cs := by
      refine List.exists_cons_of_ne_nil fun hr => htext ?_
      rw [hr]
      rfl
    have hc : Piece.isBlank c = true := by
      by_contra hc
      exact htext (by rw [hr, Piece.blanks, List.takeWhile_cons_of_neg hc])
    have hfirst : Piece.first c cs = Piece.blanks r.rest := by rw [hr, Piece.first_of_isBlank hc]
    rw [← hfirst]
    exact kinds_skip hp hr (by rw [hfirst]; rfl)

/-- Nothing is read from blanks. -/
theorem kinds_of_rest_blank (hp : r.pending = []) (hr : ∀ c ∈ r.rest, Piece.isBlank c = true) : r.kinds = .ok [.eof] := by
  rw [← kinds_skip_blanks hp]
  exact kinds_of_rest_nil hp (List.dropWhile_eq_nil_iff.2 hr)

/-- Where nothing is left but layout, nothing is read after blanks at the end of the text either. -/
theorem Spaced.kinds_of_eof (hw : Blanks w) (h : Spaced w [] mid r r') (hp : r.pending = []) (hs : r.scan = (.ok t, r₁))
    (ht : t.kind = .eof) : r'.kinds = .ok [.eof] := by
  have hp' : r'.pending = [] := h.pending.trans hp
  revert mid r'
  fun_induction Reader.scan r with
  | case1 r hr =>
    intro r' mid h hp'
    obtain rfl : mid = [] := by simpa [hr] using h.rest.symm
    refine kinds_of_rest_blank hp' ?_
    rw [h.rest']
    simpa using hw.isBlank
  | case2 r c cs hr p hlex ih =>
    intro r' mid h hp'
    have hsplit : p.text ++ p.rest = mid := by rw [← List.append_nil mid, ← h.rest, hr]; exact Piece.first_append c cs
    by_cases hrest : p.rest = []
    · have hr' : r'.rest = c :: (cs ++ w) := by
        rw [h.rest', ← List.append_nil mid, ← h.rest, hr]
        simp
      obtain ⟨hlex', hblank⟩ := Piece.first_append_blanks hlex hrest hw
      rw [← kinds_skip hp' hr' hlex']
      exact kinds_of_rest_blank hp' hblank
    · have hlt : byteSize p.text < byteSize mid := by
        have hpos := byteSize_pos hrest
        rw [← hsplit, byteSize_append]
        omega
      obtain ⟨mid₁, c', cs', p', hr', rfl, hlex', -, -, hskip⟩ :=
        h.piece hw hr (p := p) rfl (by rw [hlex]; simp) (by omega) fun _ => hlt
      rw [← kinds_skip hp' hr' (hlex'.trans hlex)]
      exact ih hp hs hskip hp'
  | case3 r c cs hr p span hlex => cases hs
  | case4 r c cs hr p span kind hlex t' r' hclass =>
    intro r' mid h hp'
    cases hs
    have hfound : Found r.offset p.text ((r.skip p).classify kind span).1 ((r.skip p).classify kind span).2.pending :=
      found_classify hp (Piece.text_first_ne_nil c cs) (Piece.isWritten_first c cs kind hlex)
    rw [hclass] at hfound
    have hne : t.kind ≠ .eof := hfound.ne_eof t List.mem_cons_self
    exact absurd ht hne

/-! ## Steps -/

/-- What a reader takes: a token that ends where it then stands, or the first half of a symbol that stands right after a name. -/
inductive Step (r : Reader) : Token → Reader → Prop
  | whole {t : Token} {r₁ : Reader} (hstop : t.span.stop = r₁.offset) (hp : r₁.pending = [])
      (hname : ∀ e ∈ r₁.nameEnd, ∃ x i, t = ⟨.name x, ⟨i, e⟩⟩) : Step r t r₁
  | half {n : String} {j : Nat} {r₁ : Reader} (hp : r.pending = []) (hname : r.nameEnd = some j)
      (hp₁ : r₁.pending = [⟨.name n, ⟨j + 1, r₁.offset⟩⟩]) : Step r ⟨.mark .colon, ⟨j, j + 1⟩⟩ r₁

/-- A piece that is classified as a token is a step. -/
theorem step_classify (hp : r.pending = []) (p : Piece) (kind : Kind) :
    Step r ((r.skip p).classify kind ⟨r.offset, r.offset + byteSize p.text⟩).1
      ((r.skip p).classify kind ⟨r.offset, r.offset + byteSize p.text⟩).2 := by
  have hp' : (r.skip p).pending = [] := hp
  unfold classify
  split
  · rename_i s
    split
    · rename_i hglued
      exact .half hp hglued (by rw [hp']; rfl)
    · exact .whole rfl hp' (by simp)
  · exact .whole rfl hp' (by simp)
  · exact .whole rfl hp' (by simp)

/-- A token that is scanned is a step, and passing over layout before it forgets no name. -/
theorem step_of_scan (hp : r.pending = []) (hs : r.scan = (.ok t, r₁)) (ht : t.kind ≠ .eof) : Step r t r₁ := by
  fun_induction Reader.scan r with
  | case1 r hr =>
    cases hs
    exact absurd rfl ht
  | case2 r c cs hr p hlex ih =>
    cases ih hp hs with
    | whole hstop hp₁ hname => exact .whole hstop hp₁ hname
    | half _ hname hp₁ => exact .half hp hname hp₁
  | case3 r c cs hr p span hlex => cases hs
  | case4 r c cs hr p span kind hlex t' r' hclass =>
    cases hs
    have hstep := step_classify hp p kind
    rwa [hclass] at hstep

/-- A token that is taken by a settled reader is a step. -/
theorem Settled.step (h : r.Settled) (hn : r.next = (.ok t, r₁)) (ht : t.kind ≠ .eof) : Step r t r₁ := by
  rcases h.pending with hp | ⟨n, k, hp, hend⟩
  · rw [Reader.next, hp] at hn
    exact step_of_scan hp hn ht
  · rw [Reader.next, hp] at hn
    cases hn
    exact .whole rfl rfl (by simp [hend])

/-- A reader that stands behind tokens: the name it remembers is the last of them. -/
def Recalls (us : List Token) (r : Reader) : Prop :=
  r.pending = [] → ∀ e ∈ r.nameEnd, ∃ x i, [⟨.name x, ⟨i, e⟩⟩] <:+ us

/-- After a step a reader recalls the token that was taken. -/
theorem Recalls.step (hs : Step r t r₁) : Recalls (us ++ [t]) r₁ := by
  intro hp e he
  cases hs with
  | whole _ _ hname =>
    obtain ⟨x, i, rfl⟩ := hname e he
    exact ⟨x, i, List.suffix_append us _⟩
  | half _ _ hp₁ =>
    rw [hp] at hp₁
    cases hp₁

/-- No token that lies ahead ends before the reader. -/
theorem Settled.le_stop (h : r.Settled) (hd : r.drain = .ok ts) (ht : t ∈ ts) : r.offset ≤ t.span.stop := by
  induction ts generalizing r with
  | nil => cases ht
  | cons u ts ih =>
    obtain ⟨v, r₁, hn, hv⟩ := next_of_drain hd
    have hsettles := h.next hn
    rcases hv with ⟨-, he⟩ | ⟨-, us, hus, he⟩
    · obtain ⟨rfl, rfl⟩ := List.cons.inj he
      obtain rfl := List.mem_singleton.1 ht
      exact hsettles.stop_le
    · obtain ⟨rfl, rfl⟩ := List.cons.inj he
      rcases List.mem_cons.1 ht with rfl | ht
      · exact hsettles.stop_le
      · exact Nat.le_trans hsettles.offset_le (ih hsettles.settled hus ht)

/-! ## Right behind the blanks -/

/-- Two readers before the same text take tokens of the same kinds if it begins with no symbol, also where only one of them stands
right after a name. -/
theorem Abreast.kinds_eq (h : Abreast r r') (hp : r.pending = []) (hp' : r'.pending = [])
    (hglued : ∀ c cs n, r.rest = c :: cs → (Piece.first c cs).lexeme = .token (.symbol n) →
      (r'.nameEnd = some r'.offset ↔ r.nameEnd = some r.offset)) : r'.kinds = r.kinds := by
  cases hr : r.rest with
  | nil => rw [kinds_of_rest_nil hp hr, kinds_of_rest_nil hp' (h.rest.trans hr)]
  | cons c cs =>
    have hr' := h.rest.trans hr
    cases hl : (Piece.first c cs).lexeme with
    | layout =>
      rw [← kinds_skip hp hr hl, ← kinds_skip hp' hr' hl]
      exact (h.skip (Piece.text_first_ne_nil c cs)).kinds_eq
    | fault =>
      refine ParallelNext.kinds_eq ?_ fun _ _ _ _ _ hrest => hrest.kinds_eq
      rw [next, next, hp, hp', scan_of_rest_cons hr, scan_of_rest_cons hr', read, read, hl]
      exact .fault rfl
    | token kind =>
      refine ParallelNext.kinds_eq ?_ fun _ _ _ _ _ hrest => hrest.kinds_eq
      rw [next, next, hp, hp', scan_of_rest_cons hr, scan_of_rest_cons hr', read, read, hl]
      exact h.classify _ kind fun s hs => hglued c cs s hr (hs ▸ hl)

/-- Blanks where a reader stands change nothing of what is read, unless it stands right after a name and before a symbol. Behind
all blanks, those put in and those that were there, both readers stand before the same text, and a reader that still stands right
after a name has passed over none. -/
theorem Spaced.kinds_of_blanks (hw : Blanks w) (h : Spaced w tail [] r r') (hsettled : r.Settled) (hp : r.pending = [])
    (hno : ∀ c cs n, r.rest = c :: cs → (Piece.first c cs).lexeme = .token (.symbol n) → r.nameEnd ≠ some r.offset) :
    r'.kinds = r.kinds := by
  have hp' : r'.pending = [] := h.pending.trans hp
  have hrest : r.rest = tail := h.rest
  have hrest' : r'.rest = w ++ tail := h.rest'
  rw [← kinds_skip_blanks hp', ← kinds_skip_blanks hp]
  have hsame : (Piece.blanks r'.rest).rest = (Piece.blanks r.rest).rest := by
    rw [hrest', hrest]
    exact List.dropWhile_append_of_pos hw.isBlank
  have hlt : ∀ e ∈ r'.nameEnd, e < r'.offset + byteSize (Piece.blanks r'.rest).text := by
    intro e he
    have hle : e ≤ r.offset := hsettled.nameEnd e (h.nameEnd ▸ he)
    have htext : (Piece.blanks r'.rest).text = w ++ tail.takeWhile Piece.isBlank := by
      rw [hrest']
      exact List.takeWhile_append_of_pos hw.isBlank
    have hpos := byteSize_pos hw.ne_nil
    rw [htext, byteSize_append, h.offset]
    omega
  have hsettled' := hsettled.skip hp (Piece.blanks r.rest)
  refine Abreast.kinds_eq ⟨hsame, congrArg _ (hp'.trans hp.symm), hsettled'.nameEnd, fun e he => (hlt e he).le⟩ hp hp' ?_
  intro c cs n hr hlex
  refine iff_of_false (fun he => Nat.lt_irrefl _ (hlt _ he)) ?_
  intro hglued
  have hle : r.offset + byteSize (Piece.blanks r.rest).text ≤ r.offset := hsettled.nameEnd _ hglued
  have hnil : (Piece.blanks r.rest).text = [] := eq_nil_of_byteSize_le (by omega)
  rw [skip_blanks_of_text_nil hnil] at hr hglued
  exact hno c cs n hr hlex hglued

/-! ## Up to the blanks -/

/-- The token that is taken next is the first of those that lie ahead. -/
theorem exists_cons_of_drain (hd : r.drain = .ok ts) (hn : r.next.1 = .ok t) : ∃ ws, ts = t :: ws := by
  obtain ⟨u, r₁, hu, hts⟩ := next_of_drain hd
  rw [hu] at hn
  obtain rfl := Except.ok.inj hn
  rcases hts with ⟨-, rfl⟩ | ⟨-, ws, -, rfl⟩
  · exact ⟨[], rfl⟩
  · exact ⟨ws, rfl⟩

/-- Right after a name a symbol is taken as a colon, which is a joint. -/
theorem joint_of_symbol (hp : r.pending = []) (hrecalls : Recalls us r) (hd : r.drain = .ok ts) {c : Char} {cs : List Char}
    {n : String} (hr : r.rest = c :: cs) (hlex : (Piece.first c cs).lexeme = .token (.symbol n))
    (hglued : r.nameEnd = some r.offset) : Joint (us ++ ts) r.offset := by
  obtain ⟨x, i, vs, rfl⟩ := hrecalls hp r.offset hglued
  have hcolon : r.next.1 = .ok ⟨.mark .colon, ⟨r.offset, r.offset + 1⟩⟩ := by
    rw [next, hp, scan_of_rest_cons hr, read, hlex]
    simp only [classify, skip, hglued, if_true]
  obtain ⟨ws, rfl⟩ := exists_cons_of_drain hd hcolon
  exact .glued (x := x) (i := i) ⟨vs, ws, by simp⟩

/-- Behind the first half of a symbol that stands right after a name is a joint. -/
theorem joint_of_half {n : String} {j : Nat} (hp : r.pending = []) (hname : r.nameEnd = some j) (hrecalls : Recalls us r)
    (hp₁ : r₁.pending = [⟨.name n, ⟨j + 1, r₁.offset⟩⟩]) (hd : r₁.drain = .ok ts) :
    Joint (us ++ ⟨.mark .colon, ⟨j, j + 1⟩⟩ :: ts) (j + 1) := by
  obtain ⟨x, i, vs, rfl⟩ := hrecalls hp j hname
  have hhalf : r₁.next.1 = .ok ⟨.name n, ⟨j + 1, r₁.offset⟩⟩ := by rw [next, hp₁]
  obtain ⟨ws, rfl⟩ := exists_cons_of_drain hd hhalf
  exact .halves (x := x) (n := n) (i := i) (k := r₁.offset) ⟨vs, ws, by simp⟩

/-- Where blanks are put in behind the end of the text, nothing else is left to read. -/
theorem Spaced.tail_eq_nil (h : Spaced w tail mid r r') (hp : r.pending = []) (hs : r.scan = (.ok t, r₁)) (ht : t.kind = .eof)
    (hstop : t.span.stop = r.offset + byteSize mid) : tail = [] := by
  rcases scan_cases hp hs with ⟨-, rfl⟩ | ⟨gap, text, -, -, hfound, -⟩
  · have hend : r.offset + byteSize r.rest = r.offset + byteSize mid := hstop
    rw [h.rest, byteSize_append] at hend
    exact eq_nil_of_byteSize_le (by omega)
  · exact absurd ht (hfound.ne_eof t List.mem_cons_self)

/-- The two readers take tokens of the same kinds where the blanks stand behind a token and at no joint. By induction on the
tokens that lie ahead, up to the one before the blanks. -/
theorem Spaced.kinds_eq (hw : Blanks w) (h : Spaced w tail mid r r') (hsettled : r.Settled) (hrecalls : Recalls us r)
    (hd : r.drain = .ok ts) (ht : t ∈ ts) (hstop : t.span.stop = r.offset + byteSize mid) (hj : ¬Joint (us ++ ts) t.span.stop) :
    r'.kinds = r.kinds := by
  induction ts generalizing mid r r' us with
  | nil => cases ht
  | cons u ts ih =>
    obtain ⟨v, r₁, hn, ⟨heof, he⟩ | ⟨hne, ts', hts, he⟩⟩ := next_of_drain hd
    · obtain ⟨rfl, rfl⟩ := List.cons.inj he
      obtain rfl := List.mem_singleton.1 ht
      rcases hsettled.pending with hp | ⟨n, k, hp, -⟩
      · have hs : r.scan = (.ok t, r₁) := by rwa [Reader.next, hp] at hn
        obtain rfl := h.tail_eq_nil hp hs heof hstop
        rw [h.kinds_of_eof hw hp hs heof, Reader.kinds_of_eof hn heof]
      · rw [Reader.next, hp] at hn
        cases hn
        cases heof
    · obtain ⟨rfl, rfl⟩ := List.cons.inj he
      have hstep := hsettled.step hn hne
      have hsettles := hsettled.next hn
      have hsplit : us ++ u :: ts = us ++ [u] ++ ts := by simp
      rcases List.mem_cons.1 ht with rfl | ht
      · cases hstep with
        | whole hend hp₁ hname =>
          obtain ⟨mid₁, r₁', hn', hsize, hspaced⟩ := h.next hw hsettled hn hne (by omega)
          obtain rfl : mid₁ = [] := eq_nil_of_byteSize_le (by omega)
          rw [hsplit, hend] at hj
          rw [(Reads.single hn hne).kinds, (Reads.single hn' hne).kinds, hspaced.kinds_of_blanks hw hsettles.settled hp₁]
          intro c cs n hr hlex hglued
          exact hj (joint_of_symbol hp₁ (Recalls.step (.whole (r := r) hend hp₁ hname)) hts hr hlex hglued)
        | half hp hname hp₁ => exact absurd (joint_of_half hp hname hrecalls hp₁ hts) hj
      · have hle : r₁.offset ≤ t.span.stop := hsettles.settled.le_stop hts ht
        obtain ⟨mid₁, r₁', hn', hsize, hspaced⟩ := h.next hw hsettled hn hne (by omega)
        rw [hsplit] at hj
        rw [(Reads.single hn hne).kinds, (Reads.single hn' hne).kinds,
          ih hspaced hsettles.settled (Recalls.step hstep) hts ht (by omega) hj]

end Reader

/-- Layout between tokens does not matter. In a source that is read without a fault, where a token ends and what follows is not
glued to it as a colon to a name or as one half of a symbol to the other, blanks can be put in, and any run of them leaves the
kinds of all tokens as they are. -/
theorem kinds_of_blanks_between {source : String} {ts : List Token} {t : Token} {w : List Char} (hts : tokenize source = .ok ts)
    (ht : t ∈ ts) (hj : ¬Joint ts t.span.stop) (hw : Blanks w) :
    (∃ spaced, Inserts w t.span.stop source spaced) ∧
      ∀ spaced, Inserts w t.span.stop source spaced →
        ∃ ts', tokenize spaced = .ok ts' ∧ ts'.map (·.kind) = ts.map (·.kind) := by
  refine ⟨?_, ?_⟩
  · obtain ⟨m, hlined⟩ := lined_of_tokenize hts
    obtain ⟨before, after, hsource, hsize⟩ := exists_append_of_isValid (hlined.fits ht).stop
    exact ⟨String.ofList (before ++ (w ++ after)), before, after, hsource, hsize, String.toList_ofList⟩
  · rintro spaced ⟨before, after, hsource, hsize, hinserted⟩
    have hstart : Reader.Spaced w after before (Reader.ofSource source) (Reader.ofSource spaced) :=
      ⟨hsource, hinserted, rfl, rfl, rfl⟩
    have hzero : (Reader.ofSource source).offset = 0 := rfl
    have hrecalls : Reader.Recalls [] (Reader.ofSource source) := by
      intro _ e he
      cases he
    have hkinds := hstart.kinds_eq hw (Reader.settled_ofSource source) hrecalls hts ht (by omega) hj
    exact Reader.exists_drain_of_kinds (hkinds.trans (Reader.kinds_of_drain hts))

/-- The tokens of a symbol that is glued to a name and of what would begin a comment if it were closed. -/
def openComment : List Token :=
  [⟨.name "x", ⟨0, 1⟩⟩, ⟨.mark .colon, ⟨1, 2⟩⟩, ⟨.name "a", ⟨2, 3⟩⟩, ⟨.mark .slash, ⟨3, 4⟩⟩, ⟨.mark .star, ⟨4, 5⟩⟩,
    ⟨.keyword .nil, ⟨5, 8⟩⟩, ⟨.eof, ⟨8, 8⟩⟩]

/-- Between a slash and a star that begin no comment blanks change nothing. They stand at no joint, though there are two before
them. -/
theorem openComment_spaced :
    tokenize "x:a/*nil" = .ok openComment ∧ ¬Joint openComment 4 ∧
      ∃ ts, tokenize "x:a/ \t\n*nil" = .ok ts ∧ ts.map (·.kind) = openComment.map (·.kind) := by
  have hts : tokenize "x:a/*nil" = .ok openComment := Reader.drain_of_drainWithin (n := 7) (by cbv)
  have hslash : ⟨.mark .slash, ⟨3, 4⟩⟩ ∈ openComment := by simp [openComment]
  have hjoint : ¬Joint openComment 4 := by
    intro h
    generalize hk : 4 = k at h
    cases h with
    | glued h => simp [openComment, List.infix_cons_iff, List.cons_prefix_cons] at h; omega
    | halves h => simp [openComment, List.infix_cons_iff, List.cons_prefix_cons] at h; omega
  have hblanks : Blanks [' ', '\t', '\n'] := ⟨by simp, by simp [Piece.isBlank]⟩
  have hspaced : Inserts [' ', '\t', '\n'] 4 "x:a/*nil" "x:a/ \t\n*nil" :=
    ⟨"x:a/".toList, "*nil".toList, by decide, by decide, by decide⟩
  exact ⟨hts, hjoint, (kinds_of_blanks_between hts hslash hjoint hblanks).2 _ hspaced⟩

end Gradual
