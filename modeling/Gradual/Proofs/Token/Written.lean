import Mathlib.Data.List.Infix
import Mathlib.Data.List.TakeWhile
import Gradual.Token.Piece

/-!
# What the pieces of a text are

Layout is blanks and comments (`Layout`), and every kind of token but the end of the text is written in its own way (`Written`).
Both are said without regard to how a text is cut: a piece that is cut off as layout is layout (`Layout.piece`), and one that is
cut off as a token is written as that token is (`Piece.isWritten_first`).
-/

namespace Gradual

/-! ## Layout -/

/-- A text is layout before another text: it is made of blanks, of comments that go to the end of their line or of the text, and
of comments between marks, each up to the first closing mark after its opening mark. -/
inductive Layout : List Char → List Char → Prop
  | empty (after : List Char) : Layout [] after
  | blank {c : Char} {cs after : List Char} (hc : Piece.isBlank c = true) (h : Layout cs after) : Layout (c :: cs) after
  | line {text cs after : List Char} (hline : '\n' ∉ text) (hend : ∀ c ∈ (cs ++ after).head?, c = '\n')
      (h : Layout cs after) : Layout ('/' :: '/' :: text ++ cs) after
  | block {text cs after : List Char} (hfirst : ¬['*', '/'] <:+: text ++ ['*']) (h : Layout cs after) :
      Layout ('/' :: '*' :: text ++ '*' :: '/' :: cs) after

/-- Blanks before layout are layout. -/
theorem Layout.blanks {bs cs after : List Char} (hb : ∀ b ∈ bs, Piece.isBlank b = true) (h : Layout cs after) :
    Layout (bs ++ cs) after := by
  induction bs with
  | nil => exact h
  | cons b bs ih =>
    rw [List.forall_mem_cons] at hb
    exact .blank hb.1 (ih hb.2)

namespace Piece

/-- What is left after the members of a class begins with no member of it. -/
theorem head?_dropWhile {p : Char → Bool} {cs : List Char} : ∀ c ∈ (cs.dropWhile p).head?, p c = false := by
  intro c hc
  have h := List.head?_dropWhile_not p cs
  rw [Option.mem_def.1 hc] at h
  simpa using h

/-- The text of a block comment ends with the first closing mark: one that stood earlier would stand where the body was found to
go on. -/
theorem commentBody?_eq_some {cs text rest : List Char} (h : commentBody? cs = some (text, rest)) :
    ∃ body, text = body ++ ['*', '/'] ∧ ¬['*', '/'] <:+: body ++ ['*'] := by
  fun_induction commentBody? cs generalizing text rest with
  | case1 cs =>
    obtain ⟨rfl, -⟩ := Prod.mk.inj (Option.some.inj h)
    refine ⟨[], rfl, fun hi => ?_⟩
    have := hi.length_le
    simp at this
  | case2 c cs hc ih =>
    obtain ⟨⟨t, r⟩, ht, he⟩ := Option.map_eq_some_iff.1 h
    obtain ⟨rfl, rfl⟩ := Prod.mk.inj he
    obtain ⟨body, rfl, hbody⟩ := ih ht
    refine ⟨c :: body, rfl, fun hi => ?_⟩
    rcases List.infix_cons_iff.1 hi with hp | hi
    · have hsplit := commentBody?_append ht
      obtain ⟨u, hu⟩ := hp
      obtain ⟨hstar, htail⟩ := List.cons.inj hu
      refine hc (u ++ '/' :: r) hstar.symm ?_
      have hbegin : '/' :: u = body ++ ['*'] := htail
      calc cs = body ++ ['*'] ++ '/' :: r := by rw [← hsplit]; simp
        _ = '/' :: (u ++ '/' :: r) := by rw [← hbegin]; rfl
    · exact hbody hi
  | case3 => cases h

/-! ## Layout is cut off as layout -/

/-- A comment that is cut off is layout before what is layout after it. -/
theorem layout_slash {cs gap after : List Char} (hlex : (slash cs).lexeme = .layout) (hrest : (slash cs).rest = gap ++ after)
    (h : Layout gap after) : Layout ((slash cs).text ++ gap) after := by
  unfold slash at hlex hrest ⊢
  split at hlex
  · rename_i ds
    refine .line (fun hn => ?_) (fun c hc => ?_) h
    · simpa using List.mem_takeWhile_imp hn
    · rw [← hrest] at hc
      simpa using head?_dropWhile c hc
  · rename_i ds
    split at hlex
    · rename_i text rest hbody
      obtain ⟨body, rfl, hfirst⟩ := commentBody?_eq_some hbody
      simp only [hbody] at hrest ⊢
      simpa using Layout.block hfirst h
    · cases hlex
  · cases hlex

/-- What is cut off as layout begins with a blank, or is a comment. -/
theorem first_of_layout {c : Char} {cs : List Char} (h : (first c cs).lexeme = .layout) :
    isBlank c = true ∨ c = '/' ∧ first c cs = slash cs := by
  unfold first number name string colon pair single at h ⊢
  grind

end Piece

/-- What is cut off as layout is layout before what is layout after it. -/
theorem Layout.piece {c : Char} {cs gap after : List Char} (hlex : (Piece.first c cs).lexeme = .layout)
    (hrest : (Piece.first c cs).rest = gap ++ after) (h : Layout gap after) : Layout ((Piece.first c cs).text ++ gap) after := by
  rcases Piece.first_of_layout hlex with hb | ⟨-, hpiece⟩
  · have hpiece : Piece.first c cs = ⟨.layout, c :: cs.takeWhile Piece.isBlank, cs.dropWhile Piece.isBlank⟩ := by
      rw [Piece.first, if_pos hb]
    rw [hpiece]
    exact .blank hb (.blanks (fun b hm => List.mem_takeWhile_imp hm) h)
  · rw [hpiece] at hlex hrest ⊢
    exact Piece.layout_slash hlex hrest h

/-! ## Tokens -/

/-- The character that a backslash before a character stands for. -/
def escaped : Char → Char
  | 'n' => '\n'
  | 't' => '\t'
  | 'r' => '\r'
  | '0' => '\x00'
  | c => c

/-- What stands between the quotes of a literal, and the text that it denotes: a quote or a backslash stands there only after a
backslash, and a backslash never before a newline. -/
inductive Escaped : List Char → List Char → Prop
  | empty : Escaped [] []
  | plain {c : Char} {cs ds : List Char} (hquote : c ≠ '"') (hslash : c ≠ '\\') (h : Escaped cs ds) : Escaped (c :: cs) (c :: ds)
  | escape {c : Char} {cs ds : List Char} (hc : c ≠ '\n') (h : Escaped cs ds) :
      Escaped ('\\' :: c :: cs) (escaped c :: ds)

/-- The digits of a number: at least one. -/
structure Digits (ds : List Char) : Prop where
  ne_nil : ds ≠ []
  isDigit : ∀ d ∈ ds, d.isDigit = true

/-- A word of a class of characters: a letter or an underscore, characters of the class, and perhaps a closing `?` or `!`. -/
inductive Word (p : Char → Bool) : List Char → Prop
  | plain {c : Char} {cs : List Char} (hc : Piece.isNameStart c = true) (h : ∀ d ∈ cs, p d = true) : Word p (c :: cs)
  | marked {c e : Char} {cs : List Char} (hc : Piece.isNameStart c = true) (h : ∀ d ∈ cs, p d = true)
      (he : Piece.isNameEnd e = true) : Word p (c :: (cs ++ [e]))

/-- How the kinds of tokens are written; the end of the text is not. A name may have the characters of a symbol, of which it can
be a part. -/
inductive Written : Kind → List Char → Prop
  | keyword (w : Keyword) : Written (.keyword w) w.spelling.toList
  | mark (m : Mark) : Written (.mark m) m.spelling.toList
  | whole {ds : List Char} (h : Digits ds) : Written (.number (.ofDecimal ds [])) ds
  | decimal {ds es : List Char} (h : Digits ds) (h' : Digits es) : Written (.number (.ofDecimal ds es)) (ds ++ '.' :: es)
  | string {cs ds : List Char} (h : Escaped cs ds) : Written (.string (String.ofList ds)) ('"' :: cs ++ ['"'])
  | symbol {n : String} (h : Word Piece.isSymbolChar n.toList) : Written (.symbol n) (':' :: n.toList)
  | name {n : String} (h : Word Piece.isSymbolChar n.toList) : Written (.name n) n.toList

namespace Word

variable {p q : Char → Bool} {cs : List Char}

/-- A word has a character. -/
theorem ne_nil (h : Word p cs) : cs ≠ [] := by
  cases h with
  | plain => exact List.cons_ne_nil _ _
  | marked => exact List.cons_ne_nil _ _

/-- A word stays one when more characters are allowed. -/
theorem mono (h : Word p cs) (hpq : ∀ c, p c = true → q c = true) : Word q cs := by
  cases h with
  | plain hc h => exact .plain hc fun d hd => hpq d (h d hd)
  | marked hc h he => exact .marked hc (fun d hd => hpq d (h d hd)) he

end Word

namespace Piece

/-- A backslash and the character after it stand for one character. -/
theorem unescape_escape (c : Char) (cs : List Char) : unescape ('\\' :: c :: cs) = escaped c :: unescape cs := by
  unfold escaped
  split
  · rfl
  · rfl
  · rfl
  · rfl
  · rw [unescape] <;> assumption

/-- A character that is no backslash stands for itself. -/
theorem unescape_plain {c : Char} (hc : c ≠ '\\') (cs : List Char) : unescape (c :: cs) = c :: unescape cs := by
  rw [unescape] <;> intros <;> contradiction

/-- A literal that is closed denotes the text between its quotes with the escapes resolved. -/
theorem stringBody_eq_true {cs text rest : List Char} (h : stringBody cs = (true, text, rest)) :
    ∃ body, text = body ++ ['"'] ∧ Escaped body (unescape body) := by
  fun_induction stringBody cs generalizing text rest with
  | case1 => cases h
  | case2 cs =>
    cases h
    exact ⟨[], rfl, .empty⟩
  | case3 d cs hd => cases h
  | case4 d cs hd closed t r hbody ih =>
    cases h
    obtain ⟨body, rfl, he⟩ := ih hbody
    refine ⟨'\\' :: d :: body, rfl, ?_⟩
    rw [unescape_escape]
    exact .escape (by simpa using hd) he
  | case5 c cs hquote hslash closed t r hbody ih =>
    cases h
    obtain ⟨body, rfl, he⟩ := ih hbody
    have hne : c ≠ '\\' := by
      rintro rfl
      cases cs with
      | nil => cases hbody
      | cons d ds => exact hslash d ds rfl rfl
    refine ⟨c :: body, rfl, ?_⟩
    rw [unescape_plain hne]
    exact .plain hquote hne he

/-- A mark of one character is spelled by it. -/
theorem spelling_of_markOfChar? {c : Char} {m : Mark} (h : markOfChar? c = some m) : m.spelling.toList = [c] := by
  unfold markOfChar? at h
  split at h <;> cases h <;> rfl

/-- A mark of two characters is spelled by them. -/
theorem spelling_of_markOfPair? {c d : Char} {m : Mark} (h : markOfPair? c d = some m) : m.spelling.toList = [c, d] := by
  unfold markOfPair? at h
  split at h <;> cases h <;> rfl

/-- What follows the first character of a word makes a word with it. -/
theorem word_word {c : Char} (hc : isNameStart c = true) (p : Char → Bool) (cs : List Char) : Word p (c :: (word p cs).1) := by
  have htake : ∀ d ∈ cs.takeWhile p, p d = true := fun d hd => List.mem_takeWhile_imp hd
  unfold word
  split
  · split
    · rename_i he
      exact .marked hc htake he
    · exact .plain hc htake
  · exact .plain hc htake

/-- Characters of names are characters of symbols. -/
theorem isSymbolChar_of_isNameChar (c : Char) (h : isNameChar c = true) : isSymbolChar c = true := by
  rw [isSymbolChar, h, Bool.true_or]

/-- A word is written as the keyword or the name that it is. -/
theorem written_wordKind {w : List Char} (hw : Word isNameChar w) : Written (wordKind w) w := by
  unfold wordKind
  split
  · rename_i k hk
    have hspelling : k.spelling = String.ofList w := by simpa using List.find?_some hk
    have htext : k.spelling.toList = w := by rw [hspelling, String.toList_ofList]
    exact htext ▸ .keyword k
  · have htext : (String.ofList w).toList = w := String.toList_ofList
    have hname : Word isSymbolChar (String.ofList w).toList := htext.symm ▸ hw.mono isSymbolChar_of_isNameChar
    have hwritten := Written.name hname
    rwa [htext] at hwritten

/-- The fraction of a number is digits. -/
theorem digits_of_fraction? {cs digits rest : List Char} (h : fraction? cs = some (digits, rest)) : Digits digits := by
  unfold fraction? at h
  split at h
  · split at h
    · rename_i hd
      obtain ⟨rfl, -⟩ := Prod.mk.inj (Option.some.inj h)
      exact ⟨List.cons_ne_nil _ _, List.forall_mem_cons.2 ⟨hd, fun d hm => List.mem_takeWhile_imp hm⟩⟩
    · cases h
  · cases h

/-- A piece that is a token is written as that token is. -/
def IsWritten (p : Piece) : Prop := ∀ kind, p.lexeme = .token kind → Written kind p.text

/-- A piece that is cut off as a token is written as the token is. -/
theorem isWritten_token {kind : Kind} {text : List Char} (h : Written kind text) (rest : List Char) :
    IsWritten ⟨.token kind, text, rest⟩ := by
  rintro _ ⟨⟩
  exact h

/-- Layout is written in no way that is asked for here. -/
theorem isWritten_layout (text rest : List Char) : IsWritten ⟨.layout, text, rest⟩ := by
  rintro _ ⟨⟩

/-- A fault is written in no way that is asked for here. -/
theorem isWritten_fault (text rest : List Char) : IsWritten ⟨.fault, text, rest⟩ := by
  rintro _ ⟨⟩

/-- A number is written with digits, and with a fraction if there is one. -/
theorem isWritten_number {c : Char} (hc : c.isDigit = true) (cs : List Char) : (number c cs).IsWritten := by
  have hwhole : Digits (c :: cs.takeWhile Char.isDigit) :=
    ⟨List.cons_ne_nil _ _, List.forall_mem_cons.2 ⟨hc, fun d hd => List.mem_takeWhile_imp hd⟩⟩
  unfold number
  split
  · rename_i hf
    exact isWritten_token (.decimal hwhole (digits_of_fraction? hf)) _
  · exact isWritten_token (.whole hwhole) _

/-- A name is written as a name or a keyword. -/
theorem isWritten_name {c : Char} (hc : isNameStart c = true) (cs : List Char) : (name c cs).IsWritten :=
  isWritten_token (written_wordKind (word_word hc isNameChar cs)) _

/-- A colon is written alone, or as the start of a symbol. -/
theorem isWritten_colon (cs : List Char) : (colon cs).IsWritten := by
  unfold colon
  split
  · rename_i d ds
    split
    · rename_i hd
      have htext : (String.ofList (d :: (word isSymbolChar ds).1)).toList = d :: (word isSymbolChar ds).1 :=
        String.toList_ofList
      have hword : Word isSymbolChar (String.ofList (d :: (word isSymbolChar ds).1)).toList :=
        htext.symm ▸ word_word hd isSymbolChar ds
      have hsymbol := Written.symbol hword
      rw [htext] at hsymbol
      exact isWritten_token hsymbol _
    · exact isWritten_token (.mark .colon) _
  · exact isWritten_token (.mark .colon) _

/-- A text is written between quotes. -/
theorem isWritten_string (cs : List Char) : (string cs).IsWritten := by
  unfold string
  split
  · rename_i hbody
    obtain ⟨body, rfl, he⟩ := stringBody_eq_true hbody
    rw [List.dropLast_concat]
    exact isWritten_token (.string he) _
  · exact isWritten_fault _ _

/-- A slash is written alone, or begins layout. -/
theorem isWritten_slash (cs : List Char) : (slash cs).IsWritten := by
  unfold slash
  split
  · exact isWritten_layout _ _
  · split
    · exact isWritten_layout _ _
    · exact isWritten_token (.mark .slash) _
  · exact isWritten_token (.mark .slash) _

/-- A character alone is written as its mark. -/
theorem isWritten_single (c : Char) (cs : List Char) : (single c cs).IsWritten := by
  unfold single
  split
  · rename_i m hm
    exact isWritten_token (spelling_of_markOfChar? hm ▸ .mark m) _
  · exact isWritten_fault _ _

/-- Two characters are written as their mark, or the first one alone. -/
theorem isWritten_pair (c : Char) (cs : List Char) : (pair c cs).IsWritten := by
  unfold pair
  split
  · split
    · rename_i m hm
      exact isWritten_token (spelling_of_markOfPair? hm ▸ .mark m) _
    · exact isWritten_single c _
  · exact isWritten_single c _

/-- What is cut off as a token is written as that token is. -/
theorem isWritten_first (c : Char) (cs : List Char) : (first c cs).IsWritten := by
  unfold first
  split
  · exact isWritten_layout _ _
  split
  · rename_i hc
    exact isWritten_number hc cs
  split
  · rename_i hc
    exact isWritten_name hc cs
  split
  · exact isWritten_string cs
  split
  · exact isWritten_colon cs
  split
  · exact isWritten_slash cs
  · exact isWritten_pair c cs

end Piece

end Gradual
