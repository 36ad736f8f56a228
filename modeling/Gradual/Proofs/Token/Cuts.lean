import Mathlib
import Gradual.Proofs.Token.Stream
import Gradual.Proofs.Token.Written

/-!
# Texts that are cut into known kinds

`Reader.Cuts text ks after` says that a reader with `text` before it takes tokens of the kinds `ks` and then stands before
`after`. What a text is cut into hangs on the first character after it: a name goes on with a name character, and `<` with `=`. So
the lemmas for a name and for a mark ask what follows, and `Cuts.append` puts texts together from left to right. A whole text that
is cut so is tokenized to those kinds and the end of the text (`Cuts.tokenize`).
-/

namespace Gradual

/-- A name that is cut so by itself: a word of the characters of names, and no keyword. -/
structure PlainName (n : String) : Prop where
  word : Word Piece.isNameChar n.toList
  not_keyword : Keyword.ofSpelling? n = none

/-! ## First pieces -/

namespace Piece

/-- The members of a class at the front of a text that goes on with none. -/
theorem span_append {p : Char → Bool} {cs after : List Char} (h : ∀ c ∈ cs, p c = true)
    (hafter : ∀ c ∈ after.head?, p c = false) : (cs ++ after).takeWhile p = cs ∧ (cs ++ after).dropWhile p = after := by
  rw [List.takeWhile_append_of_pos h, List.dropWhile_append_of_pos h]
  cases after with
  | nil => simp
  | cons d ds => simp [hafter d rfl]

/-- A word ends before a character that neither goes on with it nor may close it. -/
theorem word_plain {p : Char → Bool} {cs after : List Char} (h : ∀ c ∈ cs, p c = true)
    (hafter : ∀ c ∈ after.head?, p c = false ∧ isNameEnd c = false) : word p (cs ++ after) = (cs, after) := by
  obtain ⟨htake, hdrop⟩ := span_append h fun c hc => (hafter c hc).1
  rw [word, htake, hdrop]
  cases after with
  | nil => rfl
  | cons d ds => simp [(hafter d rfl).2]

/-- A closing mark ends a word, whatever follows. -/
theorem word_marked {p : Char → Bool} {cs after : List Char} {e : Char} (h : ∀ c ∈ cs, p c = true) (hp : p e = false)
    (he : isNameEnd e = true) : word p (cs ++ e :: after) = (cs ++ [e], after) := by
  have hhead : ∀ c ∈ (e :: after).head?, p c = false := by
    rintro c ⟨⟩
    exact hp
  obtain ⟨htake, hdrop⟩ := span_append h hhead
  rw [word, htake, hdrop]
  simp [he]

/-- What ends a name does not go on with it. -/
theorem isNameChar_of_isNameEnd {c : Char} (h : isNameEnd c = true) : isNameChar c = false := by
  simp only [isNameEnd, Bool.or_eq_true, beq_iff_eq] at h
  rcases h with rfl | rfl <;> rfl

/-- What ends a name does not go on with a symbol. -/
theorem isSymbolChar_of_isNameEnd {c : Char} (h : isNameEnd c = true) : isSymbolChar c = false := by
  simp only [isNameEnd, Bool.or_eq_true, beq_iff_eq] at h
  rcases h with rfl | rfl <;> rfl

/-- What begins a name is no blank. -/
theorem isBlank_of_isNameStart {c : Char} (h : isNameStart c = true) : isBlank c = false := by
  by_contra hb
  simp only [Bool.not_eq_false, isBlank, Bool.or_eq_true, beq_iff_eq] at hb
  rcases hb with (((rfl | rfl) | rfl) | rfl) | rfl <;> cases h

/-- What begins like a name is cut off as a name or a keyword. -/
theorem first_of_isNameStart {c : Char} (h : isNameStart c = true) (cs : List Char) : first c cs = name c cs := by
  have hdigit : c.isDigit = false := by
    rw [isNameStart, Bool.or_eq_true, beq_iff_eq] at h
    rcases h with h | rfl
    · simp only [Char.isAlpha, Char.isUpper, Char.isLower, Char.isDigit] at h ⊢
      grind
    · rfl
  rw [first, isBlank_of_isNameStart h, hdigit, h]
  rfl

/-- A word that is no keyword is cut off as a name, where no character follows that would go on with it. -/
theorem first_name {n : String} (h : PlainName n) {after : List Char}
    (hafter : ∀ c ∈ after.head?, isNameChar c = false ∧ isNameEnd c = false) :
    ∃ c cs, n.toList ++ after = c :: cs ∧ first c cs = ⟨.token (.name n), n.toList, after⟩ := by
  have hkind : wordKind n.toList = .name n := by rw [wordKind, String.ofList_toList, h.not_keyword]
  have hword := h.word
  generalize n.toList = w at hword hkind ⊢
  cases hword with
  | @plain c cs hc h =>
    refine ⟨c, cs ++ after, rfl, ?_⟩
    simp only [first_of_isNameStart hc, name, word_plain h hafter, hkind]
  | @marked c e cs hc h he =>
    refine ⟨c, cs ++ e :: after, by simp, ?_⟩
    simp only [first_of_isNameStart hc, name, word_marked h (isNameChar_of_isNameEnd he) he, hkind]

/-- A character that makes no pair with the one after it is cut off by itself. -/
theorem pair_single {c : Char} {after : List Char} (h : ∀ d ∈ after.head?, markOfPair? c d = none) :
    pair c after = single c after := by
  cases after with
  | nil => rfl
  | cons d ds => rw [pair, h d rfl]

end Piece

namespace Reader

variable {r r' : Reader} {c : Char} {cs text us after rest : List Char} {k : Kind} {ks ls : List Kind}

/-! ## The next token -/

/-- A token at the front of the text is taken next; a symbol apart, nothing of it is left pending. -/
theorem next_of_first (hp : r.pending = []) (hr : r.rest = c :: cs) (hf : Piece.first c cs = ⟨.token k, text, rest⟩)
    (hk : ∀ s, k ≠ .symbol s) : ∃ t r', r.next = (.ok t, r') ∧ t.kind = k ∧ r'.pending = [] ∧ r'.rest = rest := by
  rw [next, hp, scan_of_rest_cons hr, hf]
  refine ⟨_, _, rfl, ?_⟩
  cases k with
  | symbol s => exact absurd rfl (hk s)
  | _ => exact ⟨rfl, hp, rfl⟩

/-- Layout at the front of the text is passed over. -/
theorem next_of_layout (hp : r.pending = []) (hr : r.rest = c :: cs) (hf : (Piece.first c cs).lexeme = .layout) :
    (r.skip (Piece.first c cs)).next = r.next := by
  have hskip : (r.skip (Piece.first c cs)).pending = [] := hp
  rw [next, hskip, next, hp, scan_of_rest_cons hr, read, hf]

/-! ## Texts that are cut -/

/-- A reader before a text takes tokens of these kinds, and then stands before what is after the text. -/
def Cuts (text : List Char) (ks : List Kind) (after : List Char) : Prop :=
  ∀ r : Reader, r.pending = [] → r.rest = text ++ after →
    ∃ ts r', Reads r ts r' ∧ ts.map (·.kind) = ks ∧ r'.pending = [] ∧ r'.rest = after

/-- No text is cut into no tokens. -/
theorem Cuts.nil (after : List Char) : Cuts [] [] after := by
  intro r hp hr
  exact ⟨[], r, .refl r, rfl, hp, hr⟩

/-- Texts are cut one after the other. -/
theorem Cuts.append (h : Cuts text ks (us ++ after)) (h' : Cuts us ls after) : Cuts (text ++ us) (ks ++ ls) after := by
  intro r hp hr
  rw [List.append_assoc] at hr
  obtain ⟨ts, r₁, hts, rfl, hp₁, hr₁⟩ := h r hp hr
  obtain ⟨ts', r₂, hts', rfl, hp₂, hr₂⟩ := h' r₁ hp₁ hr₁
  exact ⟨ts ++ ts', r₂, hts.trans hts', List.map_append, hp₂, hr₂⟩

/-- A text that is cut off as one token. -/
theorem cuts_of_first (h : ∃ c cs, text ++ after = c :: cs ∧ Piece.first c cs = ⟨.token k, text, after⟩) (hk : ∀ s, k ≠ .symbol s)
    (heof : k ≠ .eof) : Cuts text [k] after := by
  obtain ⟨c, cs, hsplit, hf⟩ := h
  intro r hp hr
  rw [hsplit] at hr
  obtain ⟨t, r', hnext, rfl, hp', hr'⟩ := next_of_first hp hr hf hk
  exact ⟨[t], r', .single hnext heof, rfl, hp', hr'⟩

/-- A plain name, where no character follows that would go on with it. -/
theorem cuts_name {n : String} (h : PlainName n)
    (hafter : ∀ c ∈ after.head?, Piece.isNameChar c = false ∧ Piece.isNameEnd c = false) : Cuts n.toList [.name n] after :=
  cuts_of_first (Piece.first_name h hafter) (by simp) (by simp)

/-- A mark of one character that is no colon and no slash, where it makes no pair with what follows. -/
theorem cuts_mark {m : Mark} (hfirst : ∀ cs, Piece.first c cs = Piece.pair c cs) (hm : Piece.markOfChar? c = some m)
    (hafter : ∀ d ∈ after.head?, Piece.markOfPair? c d = none) : Cuts [c] [.mark m] after := by
  refine cuts_of_first ⟨c, after, rfl, ?_⟩ (by simp) (by simp)
  rw [hfirst, Piece.pair_single hafter, Piece.single, hm]

/-- An arrow is cut as its mark, whatever follows. -/
theorem cuts_arrow (after : List Char) : Cuts ['-', '>'] [.mark .arrow] after :=
  cuts_of_first ⟨'-', '>' :: after, rfl, rfl⟩ (by simp) (by simp)

/-- A blank before something else is passed over. -/
theorem cuts_blank (hafter : ∀ c ∈ after.head?, Piece.isBlank c = false) : Cuts [' '] [] after := by
  intro r hp hr
  have hdrop : after.dropWhile Piece.isBlank = after :=
    (Piece.span_append (List.forall_mem_nil _) hafter).2
  have hf : Piece.first ' ' after = ⟨.layout, ' ' :: after.takeWhile Piece.isBlank, after⟩ := by
    rw [Piece.first, hdrop]
    rfl
  have hlayout : (Piece.first ' ' after).lexeme = .layout := by rw [hf]
  refine ⟨[], r.skip (Piece.first ' ' after), .same (next_of_layout hp hr hlayout), rfl, hp, ?_⟩
  rw [hf]
  rfl

/-- The tokens of a text that is cut whole. -/
theorem Cuts.tokenize {source : String} (h : Cuts source.toList ks []) :
    ∃ ts, Gradual.tokenize source = .ok ts ∧ ts.map (·.kind) = ks ++ [.eof] := by
  obtain ⟨ts, r', hreads, rfl, hp, hr⟩ := h (ofSource source) rfl (List.append_nil _).symm
  have hend : r'.next = (.ok ⟨.eof, ⟨r'.offset, r'.offset⟩⟩, r') := by rw [next, hp, scan_of_rest_nil hr]
  refine ⟨ts ++ [⟨.eof, ⟨r'.offset, r'.offset⟩⟩], ?_, List.map_append⟩
  rw [Gradual.tokenize, hreads.drain, drain_of_next hend]
  rfl

end Reader

end Gradual
