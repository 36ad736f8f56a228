import Gradual.Proofs.Token.Cuts

/-!
# Blanks put into a text

A text is cut from the left, and how far a piece goes hangs on what follows it: on the first character after it, on the first two
after the digits of a number, and on all that follows a slash and a star, which begin a comment only if it is closed somewhere.
Blanks that are put in behind a token, or further on, change none of this (`Piece.Begins.insert`). Behind layout they would go on
with it.
-/

namespace Gradual

namespace Piece

variable {p : Char → Bool} {c : Char} {cs text rest rest' mid w tail : List Char} {l : Lexeme}

/-- A run of blanks, at least one. -/
structure Blanks (w : List Char) : Prop where
  ne_nil : w ≠ []
  isBlank : ∀ c ∈ w, isBlank c = true

/-- The blanks one by one. -/
theorem forall_isBlank {P : Char → Prop} :
    (∀ c, isBlank c = true → P c) ↔ P ' ' ∧ P '\t' ∧ P '\n' ∧ P '\r' ∧ P '\x0c' := by
  simp only [isBlank, Bool.or_eq_true, beq_iff_eq]
  grind

/-- A blank goes on with no name. -/
theorem isNameChar_of_isBlank : ∀ c, isBlank c = true → isNameChar c = false := forall_isBlank.2 (by decide)

/-- A blank goes on with no symbol. -/
theorem isSymbolChar_of_isBlank : ∀ c, isBlank c = true → isSymbolChar c = false := forall_isBlank.2 (by decide)

/-- A blank ends no name. -/
theorem isNameEnd_of_isBlank : ∀ c, isBlank c = true → isNameEnd c = false := forall_isBlank.2 (by decide)

/-- A blank begins no name. -/
theorem isNameStart_of_isBlank : ∀ c, isBlank c = true → isNameStart c = false := forall_isBlank.2 (by decide)

/-- A blank is no digit. -/
theorem isDigit_of_isBlank : ∀ c, isBlank c = true → c.isDigit = false := forall_isBlank.2 (by decide)

/-- A blank is no second character of a mark. -/
theorem markOfPair?_of_isBlank (c : Char) : ∀ d, isBlank d = true → markOfPair? c d = none := by
  refine forall_isBlank.2 ?_
  simp [markOfPair?]

/-! ## What follows a piece -/

/-- A text begins as another does, or with a blank. -/
def Opens (rest rest' : List Char) : Prop := ∀ d ∈ rest'.head?, isBlank d = true ∨ d ∈ rest.head?

/-- What follows, with blanks in front, begins with a blank if there are any. -/
theorem Blanks.head? (hw : Blanks w) : ∀ d ∈ (w ++ tail).head?, Piece.isBlank d = true := by
  obtain ⟨b, bs, rfl⟩ := List.exists_cons_of_ne_nil hw.ne_nil
  rintro d ⟨⟩
  exact hw.isBlank b List.mem_cons_self

/-- Blanks further on leave the first character as it is. -/
theorem head?_insert (hmid : mid ≠ []) : (mid ++ (w ++ tail)).head? = (mid ++ tail).head? := by
  obtain ⟨m, ms, rfl⟩ := List.exists_cons_of_ne_nil hmid
  rfl

/-- With blanks put in, what follows begins as before, or with a blank. -/
theorem Blanks.opens (hw : Blanks w) : Opens (mid ++ tail) (mid ++ (w ++ tail)) := by
  intro d hd
  by_cases hmid : mid = []
  · subst hmid
    exact .inl (hw.head? d hd)
  · rw [head?_insert hmid] at hd
    exact .inr hd

/-- What holds of blanks and of the first character of a text holds of the first character of one that opens so. -/
theorem Opens.forall {P : Char → Prop} (h : Opens rest rest') (hblank : ∀ c, isBlank c = true → P c)
    (hrest : ∀ c ∈ rest.head?, P c) : ∀ c ∈ rest'.head?, P c := by
  intro c hc
  rcases h c hc with hb | hc
  · exact hblank c hb
  · exact hrest c hc

/-! ## The sorts of pieces -/

/-- A word ends with a closing mark, or before what neither goes on with it nor closes it. -/
theorem word_cases (p : Char → Bool) (cs : List Char) :
    (∃ vs e rest, cs = vs ++ e :: rest ∧ (∀ v ∈ vs, p v = true) ∧ p e = false ∧ isNameEnd e = true ∧
      word p cs = (vs ++ [e], rest)) ∨
    ∃ vs rest, cs = vs ++ rest ∧ (∀ v ∈ vs, p v = true) ∧ (∀ c ∈ rest.head?, p c = false ∧ isNameEnd c = false) ∧
      word p cs = (vs, rest) := by
  have htake : ∀ v ∈ cs.takeWhile p, p v = true := fun v hv => List.mem_takeWhile_imp hv
  have hsplit := List.takeWhile_append_dropWhile (p := p) (l := cs)
  have hhead : ∀ c ∈ (cs.dropWhile p).head?, p c = false := head?_dropWhile
  unfold word
  split
  · rename_i d ds hd
    rw [hd] at hsplit hhead
    have hp : p d = false := hhead d rfl
    split
    · rename_i he
      exact .inl ⟨_, d, ds, hsplit.symm, htake, hp, he, rfl⟩
    · rename_i he
      refine .inr ⟨_, d :: ds, hsplit.symm, htake, ?_, rfl⟩
      rintro c ⟨⟩
      exact ⟨hp, by simpa using he⟩
  · rename_i hd
    rw [hd] at hsplit
    exact .inr ⟨_, [], hsplit.symm, htake, by simp, rfl⟩

/-- A word goes as far before a rest that opens alike. -/
theorem word_opens (hp : ∀ c, isBlank c = true → p c = false) (ho : Opens (word p cs).2 rest') :
    word p ((word p cs).1 ++ rest') = ((word p cs).1, rest') := by
  rcases word_cases p cs with ⟨vs, e, rest, -, hvs, hpe, he, hword⟩ | ⟨vs, rest, -, hvs, hrest, hword⟩
  · rw [hword, List.append_assoc]
    exact word_marked hvs hpe he
  · rw [hword] at ho ⊢
    exact word_plain hvs (ho.forall (fun c hc => ⟨hp c hc, isNameEnd_of_isBlank c hc⟩) hrest)

/-- A name goes as far before a rest that opens alike. -/
theorem name_opens (h : name c cs = ⟨l, text, rest⟩) (ho : Opens rest rest') :
    ∃ ds, text ++ rest' = c :: ds ∧ name c ds = ⟨l, text, rest'⟩ := by
  simp only [name, Piece.mk.injEq] at h
  obtain ⟨rfl, rfl, rfl⟩ := h
  refine ⟨_, List.cons_append, ?_⟩
  rw [name, word_opens isNameChar_of_isBlank ho]

/-- A colon, or a symbol, goes as far before a rest that opens alike. -/
theorem colon_opens (h : colon cs = ⟨l, text, rest⟩) (ho : Opens rest rest') :
    ∃ ds, text ++ rest' = ':' :: ds ∧ colon ds = ⟨l, text, rest'⟩ := by
  have hbare (hno : ∀ c ∈ rest'.head?, isNameStart c = false) : colon rest' = ⟨.token (.mark .colon), [':'], rest'⟩ := by
    cases rest' with
    | nil => rfl
    | cons d ds => simp [colon, hno d rfl]
  unfold colon at h
  split at h
  · rename_i d ds
    split at h
    · rename_i hd
      simp only [Piece.mk.injEq] at h
      obtain ⟨rfl, rfl, rfl⟩ := h
      refine ⟨d :: ((word isSymbolChar ds).1 ++ rest'), rfl, ?_⟩
      rw [colon, if_pos hd, word_opens isSymbolChar_of_isBlank ho]
    · rename_i hd
      simp only [Piece.mk.injEq] at h
      obtain ⟨rfl, rfl, rfl⟩ := h
      exact ⟨rest', rfl, hbare (ho.forall isNameStart_of_isBlank (by simpa using hd))⟩
  · simp only [Piece.mk.injEq] at h
    obtain ⟨rfl, rfl, rfl⟩ := h
    exact ⟨rest', rfl, hbare (ho.forall isNameStart_of_isBlank (by simp))⟩

/-- A mark of one or two characters goes as far before a rest that opens alike. -/
theorem pair_opens (h : pair c cs = ⟨l, text, rest⟩) (ho : Opens rest rest') :
    ∃ ds, text ++ rest' = c :: ds ∧ pair c ds = ⟨l, text, rest'⟩ := by
  have hsingle (hs : single c rest = ⟨l, text, rest⟩) (hno : ∀ d ∈ rest.head?, markOfPair? c d = none) :
      ∃ ds, text ++ rest' = c :: ds ∧ pair c ds = ⟨l, text, rest'⟩ := by
    have htext : text = [c] ∧ single c rest' = ⟨l, text, rest'⟩ := by
      unfold single at hs ⊢
      split at hs <;> cases hs <;> exact ⟨rfl, rfl⟩
    obtain ⟨rfl, hs'⟩ := htext
    exact ⟨rest', rfl, (pair_single (ho.forall (markOfPair?_of_isBlank c) hno)).trans hs'⟩
  have hrest (ds : List Char) : (single c ds).rest = ds := by
    unfold single
    split <;> rfl
  unfold pair at h
  split at h
  · rename_i d ds
    split at h
    · rename_i m hm
      cases h
      exact ⟨d :: rest', rfl, by rw [pair, hm]⟩
    · rename_i hm
      obtain rfl : d :: ds = rest := by rw [← hrest (d :: ds), h]
      exact hsingle h (by simpa using hm)
  · obtain rfl : [] = rest := by rw [← hrest [], h]
    exact hsingle h (by simp)

/-- The text of a literal that is closed does not hang on what follows. -/
theorem stringBody_closed (h : stringBody cs = (true, text, rest)) (rest' : List Char) :
    stringBody (text ++ rest') = (true, text, rest') := by
  fun_induction stringBody cs generalizing text with
  | case1 => cases h
  | case2 cs =>
    cases h
    rfl
  | case3 d cs hd => cases h
  | case4 d cs hd closed t r hbody ih =>
    cases h
    have hnewline : (d == '\n') = false := by simpa using hd
    rw [List.cons_append, List.cons_append, stringBody, hnewline, ih hbody]
    rfl
  | case5 c cs hquote hslash closed t r hbody ih =>
    cases h
    have hrest : ∀ d ds, c = '\\' → t ++ rest' = d :: ds → False := by
      rintro d ds rfl -
      cases cs with
      | nil => cases hbody
      | cons d ds => exact hslash d ds rfl rfl
    rw [List.cons_append, stringBody.eq_4 _ _ hquote hrest, ih hbody]

/-- A text between quotes goes as far before any rest. -/
theorem string_opens (h : string cs = ⟨l, text, rest⟩) (hl : l ≠ .fault) (rest' : List Char) :
    ∃ ds, text ++ rest' = '"' :: ds ∧ string ds = ⟨l, text, rest'⟩ := by
  unfold string at h
  split at h
  · rename_i t r hbody
    cases h
    refine ⟨_, List.cons_append, ?_⟩
    rw [string, stringBody_closed hbody]
  · cases h
    exact absurd rfl hl

/-- A fraction goes as far before a rest that opens alike. -/
theorem fraction?_opens {digits : List Char} (h : fraction? cs = some (digits, rest)) (ho : Opens rest rest') :
    fraction? ('.' :: (digits ++ rest')) = some (digits, rest') := by
  unfold fraction? at h
  split at h
  · rename_i d ds
    split at h
    · rename_i hd
      obtain ⟨rfl, rfl⟩ := Prod.mk.inj (Option.some.inj h)
      have hdigits : ∀ c ∈ ds.takeWhile Char.isDigit, c.isDigit = true := fun c hc => List.mem_takeWhile_imp hc
      obtain ⟨htake, hdrop⟩ := span_append hdigits (ho.forall isDigit_of_isBlank head?_dropWhile)
      rw [List.cons_append, fraction?, if_pos hd, htake, hdrop]
    · cases h
  · cases h

/-- Blanks make no fraction, also where they stand between a point and a digit. -/
theorem fraction?_insert (hw : Blanks w) (h : fraction? (mid ++ tail) = none) : fraction? (mid ++ (w ++ tail)) = none := by
  obtain ⟨b, bs, rfl⟩ := List.exists_cons_of_ne_nil hw.ne_nil
  have hb : isBlank b = true := hw.isBlank b List.mem_cons_self
  have hpoint : b ≠ '.' := by
    rintro rfl
    cases hb
  cases mid with
  | nil => simp [fraction?, hpoint]
  | cons m ms =>
    cases ms with
    | nil =>
      by_cases hm : m = '.'
      · simp [fraction?, hm, isDigit_of_isBlank b hb]
      · simp [fraction?, hm]
    | cons d ds =>
      by_cases hm : m = '.'
      · subst hm
        simp only [List.cons_append, fraction?] at h ⊢
        split at h
        · cases h
        · rename_i hd
          rw [if_neg hd]
      · simp [fraction?, hm]

/-- A number goes as far when blanks are put in behind it, or further on. -/
theorem number_insert (hw : Blanks w) (h : number c cs = ⟨l, text, mid ++ tail⟩) :
    ∃ ds, text ++ (mid ++ (w ++ tail)) = c :: ds ∧ number c ds = ⟨l, text, mid ++ (w ++ tail)⟩ := by
  have hdigits : ∀ d ∈ cs.takeWhile Char.isDigit, d.isDigit = true := fun d hd => List.mem_takeWhile_imp hd
  unfold number at h
  split at h
  · rename_i digits rest hf
    simp only [Piece.mk.injEq] at h
    obtain ⟨rfl, rfl, rfl⟩ := h
    have hpoint : ∀ d ∈ ('.' :: (digits ++ (mid ++ (w ++ tail)))).head?, d.isDigit = false := by
      rintro d ⟨⟩
      rfl
    obtain ⟨htake, hdrop⟩ := span_append hdigits hpoint
    refine ⟨cs.takeWhile Char.isDigit ++ '.' :: (digits ++ (mid ++ (w ++ tail))), by simp, ?_⟩
    rw [number, hdrop, htake, fraction?_opens hf hw.opens]
  · rename_i hf
    simp only [Piece.mk.injEq] at h
    obtain ⟨rfl, rfl, hrest⟩ := h
    have hhead : ∀ d ∈ (mid ++ tail).head?, d.isDigit = false := hrest ▸ head?_dropWhile
    obtain ⟨htake, hdrop⟩ := span_append hdigits (hw.opens.forall isDigit_of_isBlank hhead)
    rw [hrest] at hf
    refine ⟨cs.takeWhile Char.isDigit ++ (mid ++ (w ++ tail)), rfl, ?_⟩
    rw [number, hdrop, htake, fraction?_insert hw hf]

/-- The text of a comment that is closed does not hang on what follows. -/
theorem commentBody?_closed (h : commentBody? cs = some (text, rest)) (rest' : List Char) :
    commentBody? (text ++ rest') = some (text, rest') := by
  fun_induction commentBody? cs generalizing text with
  | case1 cs =>
    obtain ⟨rfl, -⟩ := Prod.mk.inj (Option.some.inj h)
    rfl
  | case2 c cs hc ih =>
    obtain ⟨⟨t, r⟩, ht, he⟩ := Option.map_eq_some_iff.1 h
    obtain ⟨rfl, rfl⟩ := Prod.mk.inj he
    have hsplit := commentBody?_append ht
    have hopen : ∀ ds, c = '*' → t ++ rest' = '/' :: ds → False := by
      intro ds hstar hslash
      obtain ⟨body, rfl, -⟩ := commentBody?_eq_some ht
      cases body with
      | nil => cases hslash
      | cons b body =>
        obtain ⟨rfl, -⟩ := List.cons.inj hslash
        exact hc _ hstar hsplit.symm
    rw [List.cons_append, commentBody?.eq_2 _ _ hopen, ih ht]
    rfl
  | case3 => cases h

/-- A comment is not closed when it is closed neither here nor further on. -/
theorem commentBody?_cons_eq_none :
    commentBody? (c :: cs) = none ↔ ¬(c = '*' ∧ cs.head? = some '/') ∧ commentBody? cs = none := by
  by_cases h : c = '*' ∧ cs.head? = some '/'
  · obtain ⟨rfl, hhead⟩ := h
    obtain ⟨ds, rfl⟩ := List.head?_eq_some_iff.1 hhead
    simp [commentBody?]
  · have hopen : ∀ ds, c = '*' → cs = '/' :: ds → False := by
      rintro ds rfl rfl
      exact h ⟨rfl, rfl⟩
    rw [commentBody?.eq_2 _ _ hopen, Option.map_eq_none_iff]
    simp [h]

/-- Blanks close no comment. -/
theorem commentBody?_insert (hw : Blanks w) (h : commentBody? (mid ++ tail) = none) :
    commentBody? (mid ++ (w ++ tail)) = none := by
  induction mid with
  | nil =>
    have hblanks (bs : List Char) (hbs : ∀ b ∈ bs, isBlank b = true) : commentBody? (bs ++ tail) = none := by
      induction bs with
      | nil => exact h
      | cons b bs ih =>
        obtain ⟨hb, hbs⟩ := List.forall_mem_cons.1 hbs
        refine commentBody?_cons_eq_none.2 ⟨?_, ih hbs⟩
        rintro ⟨rfl, -⟩
        cases hb
    exact hblanks w hw.isBlank
  | cons m mid ih =>
    obtain ⟨hopen, hmid⟩ := commentBody?_cons_eq_none.1 h
    refine commentBody?_cons_eq_none.2 ⟨?_, ih hmid⟩
    rintro ⟨hstar, hslash⟩
    have hopens : Opens (mid ++ tail) (mid ++ (w ++ tail)) := hw.opens
    rcases hopens _ hslash with hb | hhead
    · cases hb
    · exact hopen ⟨hstar, hhead⟩

/-- A slash before what begins no comment is a mark. -/
theorem slash_bare (h : ∀ d ∈ rest.head?, d ≠ '/' ∧ d ≠ '*') : slash rest = ⟨.token (.mark .slash), ['/'], rest⟩ := by
  rw [slash]
  · rintro ds rfl
    exact (h '/' rfl).1 rfl
  · rintro ds rfl
    exact (h '*' rfl).2 rfl

/-- A slash, or a comment, goes as far when blanks are put in behind it or further on, unless they would go on with layout. -/
theorem slash_insert (hw : Blanks w) (hmid : mid ≠ [] ∨ l ≠ .layout) (h : slash cs = ⟨l, text, mid ++ tail⟩) :
    ∃ ds, text ++ (mid ++ (w ++ tail)) = '/' :: ds ∧ slash ds = ⟨l, text, mid ++ (w ++ tail)⟩ := by
  have hblank : ∀ c, isBlank c = true → c ≠ '/' ∧ c ≠ '*' := forall_isBlank.2 (by decide)
  unfold slash at h
  split at h
  · rename_i ds
    simp only [Piece.mk.injEq] at h
    obtain ⟨rfl, rfl, hrest⟩ := h
    have hne : mid ≠ [] := hmid.resolve_right (not_not_intro rfl)
    have hhead : ∀ d ∈ (mid ++ (w ++ tail)).head?, decide (d ≠ '\n') = false := by
      rw [head?_insert hne, ← hrest]
      exact head?_dropWhile
    obtain ⟨htake, hdrop⟩ := span_append (fun d hd => List.mem_takeWhile_imp hd) hhead
    refine ⟨'/' :: (ds.takeWhile (fun d => decide (d ≠ '\n')) ++ (mid ++ (w ++ tail))), rfl, ?_⟩
    rw [slash, htake, hdrop]
  · rename_i ds
    split at h
    · rename_i t r hbody
      simp only [Piece.mk.injEq] at h
      obtain ⟨rfl, rfl, rfl⟩ := h
      refine ⟨'*' :: (t ++ (mid ++ (w ++ tail))), rfl, ?_⟩
      rw [slash, commentBody?_closed hbody]
    · rename_i hbody
      simp only [Piece.mk.injEq] at h
      obtain ⟨rfl, rfl, hrest⟩ := h
      refine ⟨mid ++ (w ++ tail), rfl, ?_⟩
      cases mid with
      | nil =>
        refine slash_bare ?_
        intro d hd
        exact hblank d (hw.head? d hd)
      | cons m mid =>
        obtain ⟨rfl, rfl⟩ := List.cons.inj hrest
        rw [List.cons_append, slash, commentBody?_insert hw hbody]
  · rename_i hline hblock
    simp only [Piece.mk.injEq] at h
    obtain ⟨rfl, rfl, rfl⟩ := h
    refine ⟨mid ++ (w ++ tail), rfl, ?_⟩
    refine slash_bare (hw.opens.forall hblank ?_)
    intro d hd
    obtain ⟨ds, hds⟩ := List.head?_eq_some_iff.1 hd
    refine ⟨?_, ?_⟩
    · rintro rfl
      exact hline ds hds
    · rintro rfl
      exact hblock ds hds

/-! ## The first piece -/

/-- A text begins with a piece. -/
def Begins (l : Lexeme) (text rest : List Char) : Prop := ∃ c cs, text ++ rest = c :: cs ∧ first c cs = ⟨l, text, rest⟩

/-- Blanks behind the first piece of a text, or further on, leave it as it is; layout must not be right before them. The sort of
the piece hangs on its first character alone. -/
theorem Begins.insert (hw : Blanks w) (h : Begins l text (mid ++ tail)) (hl : l ≠ .fault) (hmid : mid ≠ [] ∨ l ≠ .layout) :
    Begins l text (mid ++ (w ++ tail)) := by
  obtain ⟨c, cs, hsplit, h⟩ := h
  suffices hs : ∃ ds, text ++ (mid ++ (w ++ tail)) = c :: ds ∧ first c ds = ⟨l, text, mid ++ (w ++ tail)⟩ by
    obtain ⟨ds, hds, hf⟩ := hs
    exact ⟨c, ds, hds, hf⟩
  unfold first at h ⊢
  split at h
  · simp only [Piece.mk.injEq] at h
    obtain ⟨rfl, rfl, hrest⟩ := h
    have hne : mid ≠ [] := hmid.resolve_right (not_not_intro rfl)
    have hhead : ∀ d ∈ (mid ++ (w ++ tail)).head?, isBlank d = false := by
      rw [head?_insert hne, ← hrest]
      exact head?_dropWhile
    obtain ⟨htake, hdrop⟩ := span_append (fun d hd => List.mem_takeWhile_imp hd) hhead
    refine ⟨cs.takeWhile isBlank ++ (mid ++ (w ++ tail)), rfl, ?_⟩
    rw [if_pos (by assumption), htake, hdrop]
  rename_i hblank
  simp only [if_neg hblank]
  split at h
  · rename_i hdigit
    simp only [if_pos hdigit]
    exact number_insert hw h
  rename_i hdigit
  simp only [if_neg hdigit]
  split at h
  · rename_i hname
    simp only [if_pos hname]
    exact name_opens h hw.opens
  rename_i hname
  simp only [if_neg hname]
  split at h
  · rename_i hquote
    subst hquote
    simp only [if_true]
    exact string_opens h hl _
  rename_i hquote
  simp only [if_neg hquote]
  split at h
  · rename_i hcolon
    subst hcolon
    simp only [if_true]
    exact colon_opens h hw.opens
  rename_i hcolon
  simp only [if_neg hcolon]
  split at h
  · rename_i hslash
    subst hslash
    simp only [if_true]
    exact slash_insert hw hmid h
  rename_i hslash
  simp only [if_neg hslash]
  exact pair_opens h hw.opens

end Piece

end Gradual
