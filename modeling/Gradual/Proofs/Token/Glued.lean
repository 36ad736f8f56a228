import Gradual.Proofs.Basic
import Gradual.Proofs.Token.Placed
import Gradual.Proofs.Token.Spaced

/-!
# Annotations glued to their names

A symbol right after a name is split into a colon and a name. The name keeps the characters of the symbol: it is not cut again,
and not looked up among the keywords. So a blank behind the colon makes no difference exactly if the name is one that is cut so by
itself (`kinds_spaced_iff`): not for `x:nil`, where `nil` is a name and becomes a keyword, and not for `x:a-b`, where `a-b` is one
name and becomes three tokens.
-/

namespace Gradual

open Piece (Blanks)

/-- A text is another with some characters put in at an offset. -/
def Inserts (w : List Char) (k : Nat) (source spaced : String) : Prop :=
  ∃ before after, source.toList = before ++ after ∧ byteSize before = k ∧ spaced.toList = before ++ (w ++ after)

/-! ## Pieces -/

namespace Piece

variable {c d : Char} {cs ds w : List Char} {n : String}

/-- What a piece is cut off of begins with its text. -/
theorem eq_of_text_cons {text : List Char} (h : (first c cs).text = d :: text) : c = d ∧ text ++ (first c cs).rest = cs := by
  have hsplit := first_append c cs
  rw [h] at hsplit
  obtain ⟨hc, hcs⟩ := List.cons.inj hsplit
  exact ⟨hc.symm, hcs⟩

/-- What is cut off as a symbol is a colon and a word. -/
theorem first_of_symbol (h : (first c cs).lexeme = .token (.symbol n)) :
    ∃ d ds, c = ':' ∧ cs = d :: ds ∧ isNameStart d = true ∧ n = String.ofList (d :: (word isSymbolChar ds).1) ∧
      (first c cs).rest = (word isSymbolChar ds).2 := by
  obtain ⟨ds, htext⟩ := text_first_of_symbol h
  obtain ⟨rfl, -⟩ := eq_of_text_cons htext
  have hcolon : first ':' cs = colon cs := rfl
  rw [hcolon] at h ⊢
  cases cs with
  | nil => cases h
  | cons d ds =>
    by_cases hd : isNameStart d = true
    · rw [colon, if_pos hd] at h ⊢
      cases h
      exact ⟨d, ds, rfl, rfl, hd, rfl, rfl⟩
    · simp only [colon, if_neg hd] at h
      cases h

/-- A colon that is cut off by itself stands before no name. -/
theorem first_of_colon (h : (first c cs).lexeme = .token (.mark .colon)) :
    (first c cs).text = [':'] ∧ (first c cs).rest = cs ∧ ∀ d ∈ cs.head?, isNameStart d = false := by
  have htext : (first c cs).text = [':'] := by
    have hwritten := isWritten_first c cs _ h
    generalize (first c cs).text = text at hwritten
    cases hwritten
    rfl
  obtain ⟨rfl, hrest⟩ := eq_of_text_cons htext
  refine ⟨htext, hrest, ?_⟩
  have hcolon : first ':' cs = colon cs := rfl
  rw [hcolon] at h
  rintro d hd
  obtain ⟨ds, rfl⟩ := List.head?_eq_some_iff.1 hd
  by_contra hname
  rw [Bool.not_eq_false] at hname
  simp only [colon, if_pos hname] at h
  cases h

/-- What is cut as a name begins as names do. -/
theorem isNameStart_of_name (h : (first c cs).lexeme = .token (.name n)) : isNameStart c = true := by
  have hwritten := isWritten_first c cs _ h
  generalize htext : (first c cs).text = text at hwritten
  cases hwritten with
  | name hn =>
    generalize n.toList = w at hn htext
    cases hn with
    | plain hc _ => exact (eq_of_text_cons htext).1 ▸ hc
    | marked hc _ _ => exact (eq_of_text_cons htext).1 ▸ hc

/-- Where the word of a symbol is also a word of the characters of names, it is cut off as one. -/
theorem word_of_symbol (h : Word isNameChar (d :: (word isSymbolChar ds).1)) : word isNameChar ds = word isSymbolChar ds := by
  rcases word_cases isSymbolChar ds with ⟨vs, e, rest, rfl, hvs, hpe, he, hword⟩ | ⟨vs, rest, rfl, hvs, hrest, hword⟩
  · rw [hword] at h ⊢
    refine word_marked ?_ (isNameChar_of_isNameEnd he) he
    generalize hu : vs ++ [e] = u at h
    cases h with
    | plain _ hall =>
      have hno := hall e (by rw [← hu]; simp)
      rw [isNameChar_of_isNameEnd he] at hno
      cases hno
    | marked _ hall _ =>
      obtain ⟨rfl, -⟩ := List.append_inj' hu rfl
      exact hall
  · rw [hword] at h ⊢
    refine word_plain ?_ ?_
    · cases h with
      | plain _ hall => exact hall
      | @marked _ e us _ hall he =>
        have hno := hvs e (by simp)
        rw [isSymbolChar_of_isNameEnd he] at hno
        cases hno
    · intro c hc
      obtain ⟨hsymbol, hend⟩ := hrest c hc
      refine ⟨?_, hend⟩
      by_contra hname
      rw [Bool.not_eq_false] at hname
      rw [isSymbolChar_of_isNameChar c hname] at hsymbol
      cases hsymbol

end Piece

/-! ## Readers -/

namespace Reader

variable {r r₁ r₂ : Reader} {t : Token} {n : String} {w : List Char}

/-- A reader right after a name is settled. -/
theorem AfterName.settled (h : r.AfterName) : r.Settled := by
  refine ⟨.inl h.pending, ?_⟩
  rw [h.nameEnd]
  simp

/-- Two readers that stand right after names, before the same text. -/
theorem AfterName.parallel {r' : Reader} (h : r.AfterName) (h' : r'.AfterName) (hrest : r'.rest = r.rest) : Parallel r r' :=
  ⟨hrest, by rw [h.pending, h'.pending], iff_of_true h'.nameEnd h.nameEnd, h.settled.nameEnd, h'.settled.nameEnd⟩

/-- A token that begins where the reader stands is cut off its text at once. -/
theorem classify_of_scan (h : r.Settled) (hp : r.pending = []) (hs : r.scan = (.ok t, r₁)) (ht : t.kind ≠ .eof)
    (hstart : t.span.start ≤ r.offset) :
    ∃ c cs kind, r.rest = c :: cs ∧ (Piece.first c cs).lexeme = .token kind ∧
      (r.skip (Piece.first c cs)).classify kind ⟨r.offset, r.offset + byteSize (Piece.first c cs).text⟩ = (t, r₁) := by
  cases hr : r.rest with
  | nil =>
    rw [scan_of_rest_nil hr] at hs
    cases hs
    exact absurd rfl ht
  | cons c cs =>
    refine ⟨c, cs, ?_⟩
    rw [scan_of_rest_cons hr, read] at hs
    cases hl : (Piece.first c cs).lexeme with
    | layout =>
      rw [hl] at hs
      have hafter := ((h.skip hp _).scan hp hs).start_le hp
      have hpos := byteSize_pos (Piece.text_first_ne_nil c cs)
      simp only [Reader.skip] at hafter
      omega
    | fault =>
      rw [hl] at hs
      cases hs
    | token kind =>
      rw [hl] at hs
      cases hs
      exact ⟨kind, rfl, rfl, rfl⟩

/-- No name stands where no name can begin. -/
theorem next_ne_name {k : Nat} (hp : r.pending = []) (hend : r.nameEnd = none)
    (hno : ∀ d ∈ r.rest.head?, Piece.isNameStart d = false) : r.next ≠ (.ok ⟨.name n, ⟨r.offset, k⟩⟩, r₁) := by
  intro hn
  have hscan : r.scan = (.ok ⟨.name n, ⟨r.offset, k⟩⟩, r₁) := by rwa [next, hp] at hn
  obtain ⟨c, cs, kind, hr, hl, hclass⟩ := classify_of_scan ⟨.inl hp, by simp [hend]⟩ hp hscan (by simp) (Nat.le_refl _)
  have hname : kind = .name n := by
    unfold classify at hclass
    split at hclass
    · rw [if_neg (by simp [skip, hend])] at hclass
      cases hclass
    · exact congrArg (·.1.kind) hclass
    · exact congrArg (·.1.kind) hclass
  subst hname
  have hstart := hno c (by rw [hr]; rfl)
  rw [Piece.isNameStart_of_name hl] at hstart
  cases hstart

/-- A name, a colon and a name that stand side by side are a name and a symbol that was split, since a colon by itself stands
before no name. -/
theorem glued_of_next {k : Nat} (h : r.AfterName) (hc : r.next = (.ok ⟨.mark .colon, ⟨r.offset, r.offset + 1⟩⟩, r₁))
    (hn : r₁.next = (.ok ⟨.name n, ⟨r.offset + 1, k⟩⟩, r₂)) :
    ∃ d ds, r.rest = ':' :: d :: ds ∧ Piece.isNameStart d = true ∧
      n = String.ofList (d :: (Piece.word Piece.isSymbolChar ds).1) ∧ r₂.AfterName ∧
      r₂.rest = (Piece.word Piece.isSymbolChar ds).2 := by
  have hscan : r.scan = (.ok ⟨.mark .colon, ⟨r.offset, r.offset + 1⟩⟩, r₁) := by rwa [next, h.pending] at hc
  obtain ⟨c, cs, kind, hr, hl, hclass⟩ := classify_of_scan h.settled h.pending hscan (by simp) (Nat.le_refl _)
  unfold classify at hclass
  split at hclass
  · rename_i s
    obtain ⟨d, ds, rfl, rfl, hd, rfl, hrest⟩ := Piece.first_of_symbol hl
    have hglued : (r.skip (Piece.first ':' (d :: ds))).nameEnd = some r.offset := h.nameEnd
    rw [if_pos hglued] at hclass
    obtain ⟨-, rfl⟩ := Prod.mk.inj hclass
    obtain ⟨ht, rfl⟩ := Prod.mk.inj hn
    obtain ⟨hkind, -⟩ := Token.mk.inj (Except.ok.inj ht)
    exact ⟨d, ds, hr, hd, (Kind.name.inj hkind).symm, ⟨h.pending, rfl⟩, hrest⟩
  · cases hclass
  · obtain ⟨ht, rfl⟩ := Prod.mk.inj hclass
    obtain ⟨rfl, -⟩ := Token.mk.inj ht
    obtain ⟨htext, hrest, hno⟩ := Piece.first_of_colon hl
    rw [← hrest] at hno
    have hoffset : (r.skip (Piece.first c cs)).offset = r.offset + 1 := by
      rw [skip, htext]
      rfl
    rw [← hoffset] at hn
    exact absurd hn (next_ne_name h.pending rfl hno)

/-- Tokens that lie ahead can be taken, up to the end of the text. -/
theorem reads_of_drain {ts us : List Token} (h : r.drain = .ok (ts ++ us)) (hts : ∀ t ∈ ts, t.kind ≠ .eof) :
    ∃ r', Reads r ts r' ∧ r'.drain = .ok us := by
  induction ts generalizing r with
  | nil => exact ⟨r, .refl r, h⟩
  | cons t ts ih =>
    obtain ⟨ht, hts⟩ := List.forall_mem_cons.1 hts
    obtain ⟨r₁, hn, hd⟩ := next_of_drain_cons h ht
    obtain ⟨r', hr, hus⟩ := ih hd hts
    exact ⟨r', .take hn ht hr, hus⟩

/-- A colon, blanks and a word: the word is cut off by itself, as a keyword or a name. -/
theorem reads_spaced (hw : Blanks w) (h : r.Settled) (hp : r.pending = []) {d : Char} {ds : List Char}
    (hr : r.rest = ':' :: (w ++ d :: ds)) (hd : Piece.isNameStart d = true) :
    ∃ ts r', Reads r ts r' ∧ ts.map (·.kind) = [.mark .colon, Piece.wordKind (d :: (Piece.word Piece.isNameChar ds).1)] ∧
      r'.rest = (Piece.word Piece.isNameChar ds).2 ∧
      ∀ n, Piece.wordKind (d :: (Piece.word Piece.isNameChar ds).1) = .name n → r'.AfterName := by
  obtain ⟨b, bs, rfl⟩ := List.exists_cons_of_ne_nil hw.ne_nil
  obtain ⟨hb, hbs⟩ := List.forall_mem_cons.1 hw.isBlank
  have hcolon : Piece.first ':' (b :: (bs ++ d :: ds)) = ⟨.token (.mark .colon), [':'], b :: (bs ++ d :: ds)⟩ := by
    change Piece.colon (b :: (bs ++ d :: ds)) = _
    rw [Piece.colon, if_neg (by rw [Piece.isNameStart_of_isBlank b hb]; simp)]
  have hblanks : Piece.first b (bs ++ d :: ds) = ⟨.layout, b :: bs, d :: ds⟩ := by
    have hhead : ∀ c ∈ (d :: ds).head?, Piece.isBlank c = false := by
      rintro c ⟨⟩
      exact Piece.isBlank_of_isNameStart hd
    obtain ⟨htake, hdrop⟩ := Piece.span_append hbs hhead
    rw [Piece.first, if_pos hb, htake, hdrop]
  have hname : Piece.first d ds = ⟨.token (Piece.wordKind (d :: (Piece.word Piece.isNameChar ds).1)),
      d :: (Piece.word Piece.isNameChar ds).1, (Piece.word Piece.isNameChar ds).2⟩ := Piece.first_of_isNameStart hd ds
  have hkind : (∀ s, Piece.wordKind (d :: (Piece.word Piece.isNameChar ds).1) ≠ .symbol s) ∧
      Piece.wordKind (d :: (Piece.word Piece.isNameChar ds).1) ≠ .eof := by
    unfold Piece.wordKind
    split <;> simp
  obtain ⟨t, r₁, hnext, ht, hp₁, hr₁⟩ := next_of_first hp hr hcolon (by simp)
  have hskip : (r₁.skip ⟨.layout, b :: bs, d :: ds⟩).next = r₁.next := by
    rw [← hblanks]
    exact next_of_layout hp₁ hr₁ (by rw [hblanks])
  obtain ⟨u, r₂, hnext', hu, -, hr₂⟩ := next_of_first (r := r₁.skip ⟨.layout, b :: bs, d :: ds⟩) hp₁ rfl hname hkind.1
  have hsettled : (r₁.skip ⟨.layout, b :: bs, d :: ds⟩).Settled := (h.next hnext).settled.skip hp₁ _
  refine ⟨[t, u], r₂, ?_, by simp [ht, hu], hr₂, ?_⟩
  · exact .take hnext (by simp [ht]) (.single (hskip.symm.trans hnext') (by rw [hu]; exact hkind.2))
  · intro n hn
    exact ((hsettled.next hnext').named n (hu.trans hn)).2

end Reader

/-! ## Glued and spaced -/

/-- The kinds of all tokens of a source, the end of the text with them, or the text of its first fault. -/
def kindsOf (source : String) : Except String (List Kind) := (Reader.ofSource source).kinds

/-- The word that is cut off behind blanks is the name of a symbol exactly if that name is cut so by itself. -/
theorem Piece.wordKind_eq_name_iff {d : Char} {ds : List Char} {n : String} (hd : isNameStart d = true)
    (hn : n = String.ofList (d :: (word isSymbolChar ds).1)) :
    wordKind (d :: (word isNameChar ds).1) = .name n ↔ PlainName n := by
  constructor
  · intro h
    have hword := word_word hd isNameChar ds
    unfold wordKind at h
    split at h
    · cases h
    · rename_i hkey
      obtain rfl := Kind.name.inj h
      exact ⟨by rwa [String.toList_ofList], hkey⟩
  · rintro ⟨hword, hkey⟩
    rw [hn, String.toList_ofList] at hword
    rw [word_of_symbol hword, wordKind, ← hn, hkey]

/-- What is read of a source up to the name of a symbol that was split, and of the source with blanks behind the colon: there the
name has the kind of a word. -/
theorem exists_kinds_spaced {source spaced : String} {us : List Token} {x n : String} {i j k : Nat} {r : Reader} {w : List Char}
    (hreads : Reader.Reads (Reader.ofSource source)
      (us ++ [⟨.name x, ⟨i, j⟩⟩, ⟨.mark .colon, ⟨j, j + 1⟩⟩, ⟨.name n, ⟨j + 1, k⟩⟩]) r)
    (hw : Blanks w) (hspaced : Inserts w (j + 1) source spaced) :
    ∃ (ks : List Kind) (kind : Kind) (q q' : Reader), kindsOf source = q.kinds.map (ks ++ [.mark .colon, .name n] ++ ·) ∧
      kindsOf spaced = q'.kinds.map (ks ++ [.mark .colon, kind] ++ ·) ∧ (kind = .name n ↔ PlainName n) ∧
      (PlainName n → q.Parallel q') := by
  obtain ⟨before, after, hsource, hsize, hinserted⟩ := hspaced
  have hstart : Reader.Spaced w after before (Reader.ofSource source) (Reader.ofSource spaced) :=
    ⟨hsource, hinserted, rfl, rfl, rfl⟩
  have hzero : (Reader.ofSource source).offset = 0 := rfl
  obtain ⟨mid, q, q', hq, hq', hrest, hboth, hafter, rfl, hmid⟩ :=
    hstart.reads hw (Reader.settled_ofSource source) hreads (by omega)
  cases hrest with
  | take hc hce hrest =>
    cases hrest with
    | @take _ q₂ _ _ _ hn hne _ =>
      obtain ⟨d, ds, hr, hd, hword, hafter₂, hr₂⟩ := Reader.glued_of_next hafter hc hn
      have hsplit : [':'] ++ d :: ds = mid ++ after := by rw [← hboth.rest, hr]; rfl
      have hcolon : byteSize [':'] = 1 := rfl
      obtain ⟨rfl, rfl⟩ := append_inj_of_byteSize hsplit (by omega)
      have hafter' := hboth.afterName hafter
      obtain ⟨vs, q₂', hvs, hkinds, hr₂', hnamed⟩ := Reader.reads_spaced hw hafter'.settled hafter'.pending hboth.rest' hd
      have hiff := Piece.wordKind_eq_name_iff hd hword
      refine ⟨us.map (·.kind) ++ [.name x], _, q₂, q₂', ?_, ?_, hiff, ?_⟩
      · rw [kindsOf, (hq.trans (.take hc hce (.single hn hne))).kinds, List.map_append, List.map_append]
        rfl
      · rw [kindsOf, (hq'.trans hvs).kinds, List.map_append, List.map_append, hkinds]
        rfl
      · intro hplain
        refine hafter₂.parallel (hnamed n (hiff.2 hplain)) ?_
        have hsame := hplain.word
        rw [hword, String.toList_ofList] at hsame
        rw [hr₂, hr₂', Piece.word_of_symbol hsame]

/-- A name, and a symbol right after it, that is read as a colon and the name `n`. Blanks put in behind the colon change nothing
of what is read, whatever follows, if `n` is a name that is cut so by itself. If the source has no fault, they change nothing
exactly then. -/
theorem kinds_spaced_iff {source spaced : String} {us : List Token} {x n : String} {i j k : Nat} {r : Reader} {w : List Char}
    (hreads : Reader.Reads (Reader.ofSource source)
      (us ++ [⟨.name x, ⟨i, j⟩⟩, ⟨.mark .colon, ⟨j, j + 1⟩⟩, ⟨.name n, ⟨j + 1, k⟩⟩]) r)
    (hw : Blanks w) (hspaced : Inserts w (j + 1) source spaced) :
    (PlainName n → kindsOf spaced = kindsOf source) ∧
      ∀ ts, tokenize source = .ok ts → (kindsOf spaced = kindsOf source ↔ PlainName n) := by
  obtain ⟨ks, kind, q, q', hglued, hapart, hiff, hparallel⟩ := exists_kinds_spaced hreads hw hspaced
  have hplain (hn : PlainName n) : kindsOf spaced = kindsOf source := by
    rw [hglued, hapart, hiff.2 hn, (hparallel hn).kinds_eq]
  refine ⟨hplain, ?_⟩
  intro ts hts
  refine ⟨?_, hplain⟩
  intro heq
  have hok : kindsOf source = .ok (ts.map (·.kind)) := Reader.kinds_of_drain hts
  rw [heq, hok] at hapart
  rw [hok] at hglued
  obtain ⟨ls, -, hls⟩ := map_eq_ok_iff.1 hglued.symm
  obtain ⟨ls', -, hls'⟩ := map_eq_ok_iff.1 hapart.symm
  obtain ⟨hfront, -⟩ := List.append_inj (hls'.trans hls.symm) (by simp)
  exact hiff.1 (by simpa using hfront)

/-- The second name of a chain: the symbol after it is split too. -/
theorem chain_spaced : kindsOf "a:b: c" = kindsOf "a:b:c" ∧
    kindsOf "a:b:c" = .ok [.name "a", .mark .colon, .name "b", .mark .colon, .name "c", .eof] := by
  have hdrain : tokenize "a:b:c" = .ok ([⟨.name "a", ⟨0, 1⟩⟩, ⟨.mark .colon, ⟨1, 2⟩⟩] ++
      [⟨.name "b", ⟨2, 3⟩⟩, ⟨.mark .colon, ⟨3, 4⟩⟩, ⟨.name "c", ⟨4, 5⟩⟩] ++ [⟨.eof, ⟨5, 5⟩⟩]) :=
    Reader.drain_of_drainWithin (n := 6) (by cbv)
  obtain ⟨r, hreads, -⟩ := Reader.reads_of_drain hdrain (by simp)
  have hplain : PlainName "c" := ⟨.plain rfl (by simp), by decide⟩
  have hspaced : Inserts [' '] 4 "a:b:c" "a:b: c" := ⟨"a:b:".toList, "c".toList, by decide, by decide, by decide⟩
  exact ⟨(kinds_spaced_iff hreads ⟨by simp, by simp [Piece.isBlank]⟩ hspaced).1 hplain, Reader.kinds_of_drain hdrain⟩

/-- A glued `nil` is a name and a spaced one a keyword, and a glued `a-b` is one name and a spaced one three tokens. -/
theorem keyword_and_hyphen_spaced :
    (Inserts [' '] 2 "x:nil" "x: nil" ∧
      tokenize "x:nil" = .ok [⟨.name "x", ⟨0, 1⟩⟩, ⟨.mark .colon, ⟨1, 2⟩⟩, ⟨.name "nil", ⟨2, 5⟩⟩, ⟨.eof, ⟨5, 5⟩⟩] ∧
      kindsOf "x: nil" = .ok [.name "x", .mark .colon, .keyword .nil, .eof] ∧ kindsOf "x: nil" ≠ kindsOf "x:nil") ∧
    (Inserts [' '] 2 "x:a-b" "x: a-b" ∧
      tokenize "x:a-b" = .ok [⟨.name "x", ⟨0, 1⟩⟩, ⟨.mark .colon, ⟨1, 2⟩⟩, ⟨.name "a-b", ⟨2, 5⟩⟩, ⟨.eof, ⟨5, 5⟩⟩] ∧
      kindsOf "x: a-b" = .ok [.name "x", .mark .colon, .name "a", .mark .minus, .name "b", .eof] ∧
      kindsOf "x: a-b" ≠ kindsOf "x:a-b") := by
  have hnil : tokenize "x:nil" = .ok [⟨.name "x", ⟨0, 1⟩⟩, ⟨.mark .colon, ⟨1, 2⟩⟩, ⟨.name "nil", ⟨2, 5⟩⟩, ⟨.eof, ⟨5, 5⟩⟩] :=
    Reader.drain_of_drainWithin (n := 4) (by cbv)
  have hnil' : tokenize "x: nil" = .ok [⟨.name "x", ⟨0, 1⟩⟩, ⟨.mark .colon, ⟨1, 2⟩⟩, ⟨.keyword .nil, ⟨3, 6⟩⟩, ⟨.eof, ⟨6, 6⟩⟩] :=
    Reader.drain_of_drainWithin (n := 4) (by cbv)
  have hminus : tokenize "x:a-b" = .ok [⟨.name "x", ⟨0, 1⟩⟩, ⟨.mark .colon, ⟨1, 2⟩⟩, ⟨.name "a-b", ⟨2, 5⟩⟩, ⟨.eof, ⟨5, 5⟩⟩] :=
    Reader.drain_of_drainWithin (n := 4) (by cbv)
  have hminus' : tokenize "x: a-b" = .ok
      [⟨.name "x", ⟨0, 1⟩⟩, ⟨.mark .colon, ⟨1, 2⟩⟩, ⟨.name "a", ⟨3, 4⟩⟩, ⟨.mark .minus, ⟨4, 5⟩⟩,
      ⟨.name "b", ⟨5, 6⟩⟩, ⟨.eof, ⟨6, 6⟩⟩] := Reader.drain_of_drainWithin (n := 6) (by cbv)
  refine ⟨⟨⟨"x:".toList, "nil".toList, by decide, by decide, by decide⟩, hnil, Reader.kinds_of_drain hnil', ?_⟩,
    ⟨"x:".toList, "a-b".toList, by decide, by decide, by decide⟩, hminus, Reader.kinds_of_drain hminus', ?_⟩
  · rw [kindsOf, kindsOf, Reader.kinds_of_drain hnil, Reader.kinds_of_drain hnil']
    simp
  · rw [kindsOf, kindsOf, Reader.kinds_of_drain hminus, Reader.kinds_of_drain hminus']
    simp

end Gradual
