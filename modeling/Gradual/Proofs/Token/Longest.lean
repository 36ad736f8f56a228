import Gradual.Proofs.Token.Blanks
import Gradual.Proofs.Token.Literal

/-!
# The first piece is the longest

What may be a piece is said without regard to how a text is cut (`IsPiece`): blanks, a comment, or a token. The first piece of a
text is the longest text at its front that may be one, and it is a fault where no text at the front may be one
(`Piece.first_longest`). A fault goes up to the first character with which nothing that may be a piece could begin
(`Piece.fault_extent`).
-/

namespace Gradual

/-- What may be a piece: a run of blanks, a comment up to the end of its line, a comment between marks, or a token. A name by
itself has no hyphens, which the name in a symbol may have. -/
inductive IsPiece : List Char → Prop
  | blanks {w : List Char} (h : Piece.Blanks w) : IsPiece w
  | line {text : List Char} (h : '\n' ∉ text) : IsPiece ('/' :: '/' :: text)
  | block {text : List Char} (hfirst : ¬['*', '/'] <:+: text ++ ['*']) : IsPiece ('/' :: '*' :: (text ++ ['*', '/']))
  | token {kind : Kind} {text : List Char} (hw : Written kind text) (hname : ∀ n, kind = .name n → Word Piece.isNameChar text) :
      IsPiece text

/-- A text with which something that may be a piece begins. -/
def Begun (w : List Char) : Prop := ∃ more, IsPiece (w ++ more)

namespace Piece

variable {p : Char → Bool} {c d : Char} {cs w text rest : List Char}

/-! ## Runs, words and comments -/

/-- What is of a class and stands at the front is among the members of the class there. -/
theorem prefix_takeWhile (hw : ∀ c ∈ w, p c = true) (h : w <+: cs) : w <+: cs.takeWhile p := by
  obtain ⟨rest, rfl⟩ := h
  rw [List.takeWhile_append_of_pos hw]
  exact List.prefix_append _ _

/-- A word takes in all of its class. -/
theorem takeWhile_prefix_word (p : Char → Bool) (cs : List Char) : cs.takeWhile p <+: (word p cs).1 := by
  unfold word
  split
  · split
    · exact List.prefix_append _ _
    · exact List.prefix_refl _
  · exact List.prefix_refl _

/-- A word at the front of a text is part of the one that is cut off. -/
theorem prefix_word (hend : ∀ e, isNameEnd e = true → p e = false) (hw : Word p (c :: w)) (h : w <+: cs) :
    w <+: (word p cs).1 := by
  cases hw with
  | plain _ hall => exact (prefix_takeWhile hall h).trans (takeWhile_prefix_word p cs)
  | @marked _ e vs _ hall he =>
    obtain ⟨rest, rfl⟩ := h
    rw [List.append_assoc, List.singleton_append, word_marked hall (hend e he) he]

/-- A comment ends with the first closing mark. -/
theorem commentBody?_eq (h : ¬['*', '/'] <:+: text ++ ['*']) (rest : List Char) :
    commentBody? (text ++ '*' :: '/' :: rest) = some (text ++ ['*', '/'], rest) := by
  induction text with
  | nil => rfl
  | cons c text ih =>
    have hopen : ∀ ds, c = '*' → text ++ '*' :: '/' :: rest = '/' :: ds → False := by
      rintro ds rfl hslash
      cases text with
      | nil => cases hslash
      | cons d text =>
        obtain ⟨rfl, -⟩ := List.cons.inj hslash
        exact h ⟨[], text ++ ['*'], rfl⟩
    have hrest : ¬['*', '/'] <:+: text ++ ['*'] := fun hi => h (hi.trans (List.infix_cons (List.infix_refl _)))
    rw [List.cons_append, commentBody?.eq_2 _ _ hopen, ih hrest]
    rfl

/-- A keyword is a word. -/
theorem word_keyword (k : Keyword) : Word isNameChar k.spelling.toList := by
  have hstart : k.spelling.toList.head?.map isNameStart = some true := by cases k <;> cbv
  have hrest : k.spelling.toList.tail.all isNameChar = true := by cases k <;> cbv
  obtain ⟨c, hc, hstart⟩ := Option.map_eq_some_iff.1 hstart
  obtain ⟨cs, hsplit⟩ := List.head?_eq_some_iff.1 hc
  rw [hsplit] at hrest ⊢
  exact .plain hstart (List.all_eq_true.1 hrest)

/-! ## What begins a piece -/

/-- A digit is no blank. -/
theorem isBlank_of_isDigit (h : c.isDigit = true) : isBlank c = false := by
  by_contra hb
  rw [isDigit_of_isBlank c (by simpa using hb)] at h
  cases h

/-- What begins with a digit is cut off as a number. -/
theorem first_of_isDigit (h : c.isDigit = true) (cs : List Char) : first c cs = number c cs := by
  rw [first, isBlank_of_isDigit h, h]
  rfl

/-- A mark is one character or two that are a mark together. -/
theorem mark_cases (m : Mark) : (∃ c, m.spelling.toList = [c] ∧ markOfChar? c = some m) ∨
    ∃ c d, m.spelling.toList = [c, d] ∧ (∀ cs, first c (d :: cs) = ⟨.token (.mark m), [c, d], cs⟩) := by
  cases m with
  | arrow => exact .inr ⟨'-', '>', rfl, fun _ => rfl⟩
  | eqEq => exact .inr ⟨'=', '=', rfl, fun _ => rfl⟩
  | notEq => exact .inr ⟨'!', '=', rfl, fun _ => rfl⟩
  | ltEq => exact .inr ⟨'<', '=', rfl, fun _ => rfl⟩
  | gtEq => exact .inr ⟨'>', '=', rfl, fun _ => rfl⟩
  | mapOpen => exact .inr ⟨'%', '\x7b', rfl, fun _ => rfl⟩
  | _ => exact .inl ⟨_, rfl, rfl⟩

/-- A fault where a mark could stand is a character that is no mark. -/
theorem pair_fault (h : (pair c cs).lexeme = .fault) : markOfChar? c = none ∧ pair c cs = ⟨.fault, [c], cs⟩ := by
  have hsingle : ∀ ds, (single c ds).lexeme = .fault → markOfChar? c = none ∧ single c ds = ⟨.fault, [c], ds⟩ := by
    intro ds hs
    unfold single at hs ⊢
    split at hs
    · cases hs
    · rename_i hc
      exact ⟨hc, rfl⟩
  cases cs with
  | nil => exact hsingle [] h
  | cons d ds =>
    rw [pair] at h ⊢
    split at h
    · cases h
    · exact hsingle (d :: ds) h

/-- A fault begins with a quote that is not closed, or is a character with which nothing begins. -/
theorem fault_cases (h : (first c cs).lexeme = .fault) :
    (c = '"' ∧ ∃ text rest, stringBody cs = (false, text, rest) ∧ first c cs = ⟨.fault, '"' :: text, rest⟩) ∨
      isBlank c = false ∧ c.isDigit = false ∧ isNameStart c = false ∧ c ≠ '"' ∧ c ≠ ':' ∧ c ≠ '/' ∧ markOfChar? c = none ∧
        first c cs = ⟨.fault, [c], cs⟩ := by
  by_cases hblank : isBlank c = true
  · rw [first, if_pos hblank] at h
    cases h
  by_cases hdigit : c.isDigit = true
  · rw [first_of_isDigit hdigit, number] at h
    split at h <;> cases h
  by_cases hname : isNameStart c = true
  · rw [first_of_isNameStart hname] at h
    cases h
  by_cases hquote : c = '"'
  · subst hquote
    left
    change (string cs).lexeme = .fault at h
    change _ ∧ ∃ text rest, _ ∧ string cs = _
    unfold string at h ⊢
    split at h
    · cases h
    · rename_i text rest hbody
      exact ⟨rfl, text, rest, hbody, rfl⟩
  by_cases hcolon : c = ':'
  · subst hcolon
    change (colon cs).lexeme = .fault at h
    unfold colon at h
    split at h
    · split at h <;> cases h
    · cases h
  by_cases hslash : c = '/'
  · subst hslash
    change (slash cs).lexeme = .fault at h
    unfold slash at h
    split at h
    · cases h
    · split at h <;> cases h
    · cases h
  · have hpair : first c cs = pair c cs := by
      rw [first, if_neg hblank, if_neg hdigit, if_neg hname, if_neg hquote, if_neg hcolon, if_neg hslash]
    rw [hpair] at h ⊢
    obtain ⟨hmark, hfault⟩ := pair_fault h
    exact .inr ⟨by simpa using hblank, by simpa using hdigit, by simpa using hname, hquote, hcolon, hslash, hmark, hfault⟩

/-! ## Everything that may be a piece is part of the first one -/

/-- A piece that is no fault and begins with a text. -/
def Holds (p : Piece) (w : List Char) : Prop := p.lexeme ≠ .fault ∧ w <+: p.text

/-- A piece begins with the first character of the text that it is cut from. -/
theorem singleton_prefix_first (c : Char) (cs : List Char) : [c] <+: (first c cs).text := by
  have hsplit := first_append c cs
  obtain ⟨d, ds, htext⟩ := List.exists_cons_of_ne_nil (text_first_ne_nil c cs)
  rw [htext] at hsplit ⊢
  obtain ⟨rfl, -⟩ := List.cons.inj hsplit
  exact ⟨ds, rfl⟩

/-- Blanks at the front are part of the first piece. -/
theorem holds_blanks (h : Blanks (c :: w)) (hw : w <+: cs) : (first c cs).Holds (c :: w) := by
  obtain ⟨hc, hrest⟩ := List.forall_mem_cons.1 h.isBlank
  rw [first, if_pos hc]
  exact ⟨by simp, List.cons_prefix_cons.2 ⟨rfl, prefix_takeWhile hrest hw⟩⟩

/-- A comment up to the end of its line is part of the first piece. -/
theorem holds_line (h : '\n' ∉ text) (hw : text <+: cs) : (first '/' ('/' :: cs)).Holds ('/' :: '/' :: text) := by
  have hall : ∀ d ∈ text, decide (d ≠ '\n') = true := by
    intro d hd
    rw [decide_eq_true_iff]
    rintro rfl
    exact h hd
  change (slash ('/' :: cs)).Holds _
  rw [slash]
  exact ⟨by simp, List.cons_prefix_cons.2 ⟨rfl, List.cons_prefix_cons.2 ⟨rfl, prefix_takeWhile hall hw⟩⟩⟩

/-- A comment between marks is the first piece. -/
theorem holds_block (h : ¬['*', '/'] <:+: text ++ ['*']) (rest : List Char) :
    (first '/' ('*' :: (text ++ '*' :: '/' :: rest))).Holds ('/' :: '*' :: (text ++ ['*', '/'])) := by
  change (slash ('*' :: (text ++ '*' :: '/' :: rest))).Holds _
  rw [slash, commentBody?_eq h]
  exact ⟨by simp, List.prefix_refl _⟩

/-- A word at the front is part of the first piece. -/
theorem holds_word (h : Word isNameChar (c :: w)) (hw : w <+: cs) : (first c cs).Holds (c :: w) := by
  have hc : isNameStart c = true := by cases h <;> assumption
  rw [first_of_isNameStart hc]
  exact ⟨by simp [name], List.cons_prefix_cons.2 ⟨rfl, prefix_word (fun _ => isNameChar_of_isNameEnd) h hw⟩⟩

/-- A symbol at the front is part of the first piece. -/
theorem holds_symbol (h : Word isSymbolChar (d :: w)) (hw : w <+: cs) : (first ':' (d :: cs)).Holds (':' :: d :: w) := by
  have hd : isNameStart d = true := by cases h <;> assumption
  change (colon (d :: cs)).Holds _
  rw [colon, if_pos hd]
  refine ⟨by simp, List.cons_prefix_cons.2 ⟨rfl, List.cons_prefix_cons.2 ⟨rfl, ?_⟩⟩⟩
  exact prefix_word (fun _ => isSymbolChar_of_isNameEnd) h hw

/-- A mark at the front is part of the first piece. -/
theorem holds_mark (m : Mark) (hw : m.spelling.toList <+: c :: cs) : (first c cs).Holds m.spelling.toList := by
  rcases mark_cases m with ⟨a, htext, hmark⟩ | ⟨a, b, htext, hfirst⟩
  · rw [htext] at hw ⊢
    obtain ⟨rfl, -⟩ := List.cons_prefix_cons.1 hw
    refine ⟨fun hfault => ?_, singleton_prefix_first a cs⟩
    rcases fault_cases hfault with ⟨rfl, -⟩ | ⟨-, -, -, -, -, -, hnone, -⟩
    · cases hmark
    · rw [hmark] at hnone
      cases hnone
  · rw [htext] at hw ⊢
    obtain ⟨rest, hrest⟩ := hw
    obtain ⟨rfl, rfl⟩ := List.cons.inj hrest
    change (first a (b :: rest)).Holds [a, b]
    rw [hfirst]
    exact ⟨by simp, List.prefix_refl _⟩

/-- The digits of a whole number at the front are part of the first piece. -/
theorem holds_whole (h : Digits (c :: w)) (hw : w <+: cs) : (first c cs).Holds (c :: w) := by
  obtain ⟨hc, hrest⟩ := List.forall_mem_cons.1 h.isDigit
  have hwhole : c :: w <+: c :: cs.takeWhile Char.isDigit := List.cons_prefix_cons.2 ⟨rfl, prefix_takeWhile hrest hw⟩
  rw [first_of_isDigit hc, number]
  split
  · exact ⟨by simp, hwhole.trans (List.prefix_append _ _)⟩
  · exact ⟨by simp, hwhole⟩

/-- A number with a fraction at the front is part of the first piece. -/
theorem holds_decimal {es : List Char} (h : Digits (c :: w)) (h' : Digits es) (rest : List Char) :
    (first c (w ++ '.' :: (es ++ rest))).Holds (c :: w ++ '.' :: es) := by
  obtain ⟨hc, hdigits⟩ := List.forall_mem_cons.1 h.isDigit
  have hpoint : ∀ d ∈ ('.' :: (es ++ rest)).head?, d.isDigit = false := by
    rintro d ⟨⟩
    rfl
  obtain ⟨htake, hdrop⟩ := span_append hdigits hpoint
  obtain ⟨e, es, rfl⟩ := List.exists_cons_of_ne_nil h'.ne_nil
  obtain ⟨he, hes⟩ := List.forall_mem_cons.1 h'.isDigit
  rw [first_of_isDigit hc, number, htake, hdrop, List.cons_append, fraction?, if_pos he]
  refine ⟨by simp, (List.prefix_append_right_inj _).2 ?_⟩
  refine List.cons_prefix_cons.2 ⟨rfl, List.cons_prefix_cons.2 ⟨rfl, ?_⟩⟩
  exact prefix_takeWhile hes (List.prefix_append _ _)

/-- Whatever may be a piece and stands at the front of a text is part of the first piece. -/
theorem holds_of_isPiece (h : IsPiece w) (hw : w <+: c :: cs) : (first c cs).Holds w := by
  have hword : ∀ {v : List Char}, Word isNameChar v → v <+: c :: cs → (first c cs).Holds v := by
    intro v hv hprefix
    obtain ⟨b, bs, rfl⟩ := List.exists_cons_of_ne_nil hv.ne_nil
    obtain ⟨rfl, hrest⟩ := List.cons_prefix_cons.1 hprefix
    exact holds_word hv hrest
  cases h with
  | blanks h =>
    obtain ⟨b, bs, rfl⟩ := List.exists_cons_of_ne_nil h.ne_nil
    obtain ⟨rfl, hrest⟩ := List.cons_prefix_cons.1 hw
    exact holds_blanks h hrest
  | line h =>
    obtain ⟨rfl, rest, rfl⟩ := List.cons_prefix_cons.1 hw
    exact holds_line h (List.prefix_append _ _)
  | block h =>
    obtain ⟨rfl, rest, rfl⟩ := List.cons_prefix_cons.1 hw
    rw [List.cons_append, List.append_assoc]
    exact holds_block h rest
  | token hwritten hname =>
    cases hwritten with
    | keyword k => exact hword (word_keyword k) hw
    | mark m => exact holds_mark m hw
    | whole h =>
      obtain ⟨b, bs, rfl⟩ := List.exists_cons_of_ne_nil h.ne_nil
      obtain ⟨rfl, hrest⟩ := List.cons_prefix_cons.1 hw
      exact holds_whole h hrest
    | decimal h h' =>
      obtain ⟨b, bs, rfl⟩ := List.exists_cons_of_ne_nil h.ne_nil
      rw [List.cons_append] at hw
      obtain ⟨rfl, rest, rfl⟩ := List.cons_prefix_cons.1 hw
      rw [List.append_assoc]
      exact holds_decimal h h' rest
    | string h =>
      rw [List.cons_append] at hw ⊢
      obtain ⟨rfl, rest, rfl⟩ := List.cons_prefix_cons.1 hw
      rw [List.append_assoc, List.singleton_append, h.first]
      exact ⟨by simp, List.prefix_refl _⟩
    | symbol h =>
      obtain ⟨b, bs, hsplit⟩ := List.exists_cons_of_ne_nil h.ne_nil
      rw [hsplit] at h hw ⊢
      obtain ⟨rfl, rest, rfl⟩ := List.cons_prefix_cons.1 hw
      exact holds_symbol h (List.prefix_append _ _)
    | name h => exact hword (hname _ rfl) hw

/-! ## The first piece may be a piece -/

/-- What is cut off as layout may be a piece. -/
theorem isPiece_of_layout (h : (first c cs).lexeme = .layout) : IsPiece (first c cs).text := by
  rcases first_of_layout h with hb | ⟨rfl, hslash⟩
  · rw [first, if_pos hb]
    refine .blanks ⟨List.cons_ne_nil _ _, List.forall_mem_cons.2 ⟨hb, fun d hd => List.mem_takeWhile_imp hd⟩⟩
  · rw [hslash] at h ⊢
    unfold slash at h ⊢
    split at h
    · refine .line fun hn => ?_
      simpa using List.mem_takeWhile_imp hn
    · split at h
      · rename_i text rest hbody
        obtain ⟨body, rfl, hfirst⟩ := commentBody?_eq_some hbody
        exact .block hfirst
      · cases h
    · cases h

/-- A name that is cut off by itself has the characters of a name. -/
theorem word_of_name {n : String} (h : (first c cs).lexeme = .token (.name n)) : Word isNameChar (first c cs).text := by
  by_cases hc : isNameStart c = true
  · rw [first_of_isNameStart hc]
    exact word_word hc isNameChar cs
  · unfold first number string colon slash pair single at h
    grind

/-- What is cut off as a token may be a piece. -/
theorem isPiece_of_token {kind : Kind} (h : (first c cs).lexeme = .token kind) : IsPiece (first c cs).text := by
  refine .token (isWritten_first c cs kind h) ?_
  rintro n rfl
  exact word_of_name h

/-- The first piece of a text is the longest text at its front that may be a piece, and a fault where there is none. -/
theorem first_longest (c : Char) (cs : List Char) :
    ((first c cs).lexeme ≠ .fault → IsPiece (first c cs).text) ∧
      ∀ w, IsPiece w → w <+: c :: cs → (first c cs).lexeme ≠ .fault ∧ w <+: (first c cs).text := by
  refine ⟨fun hlex => ?_, fun w hw hprefix => holds_of_isPiece hw hprefix⟩
  cases hl : (first c cs).lexeme with
  | layout => exact isPiece_of_layout hl
  | token kind => exact isPiece_of_token hl
  | fault => exact absurd hl hlex

/-! ## How far a fault goes -/

/-- What stands after a quote that is not closed can be gone on with to what may stand between quotes: a backslash that nothing
follows still wants the character that it stands before. -/
theorem escaped_of_open (h : stringBody cs = (false, text, rest)) : ∃ more ds, Escaped (text ++ more) ds := by
  fun_induction stringBody cs generalizing text with
  | case1 =>
    cases h
    exact ⟨[], [], .empty⟩
  | case2 cs => cases h
  | case3 d cs hd =>
    cases h
    exact ⟨['n'], _, .escape (c := 'n') (by decide) .empty⟩
  | case4 d cs hd closed t r hbody ih =>
    cases h
    obtain ⟨more, ds, he⟩ := ih hbody
    exact ⟨more, _, .escape (by simpa using hd) he⟩
  | case5 c cs hquote hslash closed t r hbody ih =>
    cases h
    by_cases hc : c = '\\'
    · subst hc
      cases cs with
      | nil =>
        cases hbody
        exact ⟨['n'], _, .escape (c := 'n') (by decide) .empty⟩
      | cons d ds => exact absurd rfl (hslash d ds rfl)
    · obtain ⟨more, ds, he⟩ := ih hbody
      exact ⟨more, _, .plain hquote hc he⟩

/-- Where a literal breaks off before a character, it breaks off there whatever follows. -/
theorem stringBody_open (h : stringBody cs = (false, text, d :: rest)) (rest' : List Char) :
    stringBody (text ++ d :: rest') = (false, text, d :: rest') := by
  fun_induction stringBody cs generalizing text with
  | case1 => cases h
  | case2 cs => cases h
  | case3 e cs he =>
    cases h
    rw [List.singleton_append, stringBody, if_pos he]
  | case4 e cs he closed t r hbody ih =>
    cases h
    rw [List.cons_append, List.cons_append, stringBody, if_neg he, ih hbody]
  | case5 c cs hquote hslash closed t r hbody ih =>
    cases h
    have hescape : ∀ e es, c = '\\' → t ++ d :: rest' = e :: es → False := by
      rintro e es rfl -
      cases cs with
      | nil => cases hbody
      | cons e es => exact hslash e es rfl rfl
    rw [List.cons_append, stringBody.eq_4 _ _ hquote hescape, ih hbody]

/-- The first of two characters that are a mark together is a mark by itself. -/
theorem markOfChar?_of_markOfPair? {m : Mark} (h : markOfPair? c d = some m) : ∃ m', markOfChar? c = some m' := by
  unfold markOfPair? at h
  split at h
  case h_7 => cases h
  all_goals exact ⟨_, rfl⟩

/-- A character with which nothing begins is a fault before every text. -/
theorem first_fault (hblank : isBlank c = false) (hdigit : c.isDigit = false) (hname : isNameStart c = false) (hquote : c ≠ '"')
    (hcolon : c ≠ ':') (hslash : c ≠ '/') (hmark : markOfChar? c = none) (cs : List Char) : (first c cs).lexeme = .fault := by
  have hpair : ∀ d ∈ cs.head?, markOfPair? c d = none := by
    intro d _
    by_contra hsome
    obtain ⟨m, hm⟩ := Option.ne_none_iff_exists'.1 hsome
    obtain ⟨m', hm'⟩ := markOfChar?_of_markOfPair? hm
    rw [hmark] at hm'
    cases hm'
  rw [first, hblank, hdigit, hname, if_neg hquote, if_neg hcolon, if_neg hslash]
  change (pair c cs).lexeme = .fault
  rw [pair_single hpair, single, hmark]

/-- A fault is a text with which a piece could begin, or one character, and no piece could begin with it and the character after
it. -/
theorem fault_extent (h : (first c cs).lexeme = .fault) :
    ((first c cs).text = [c] ∨ Begun (first c cs).text) ∧
      ∀ d ∈ (first c cs).rest.head?, ¬Begun ((first c cs).text ++ [d]) := by
  rcases fault_cases h with ⟨rfl, text, rest, hbody, hfirst⟩ | ⟨hblank, hdigit, hname, hquote, hcolon, hslash, hmark, hfirst⟩
  · rw [hfirst]
    refine ⟨.inr ?_, fun d hd hbegun => ?_⟩
    · obtain ⟨more, ds, he⟩ := escaped_of_open hbody
      have hwritten : IsPiece ('"' :: (text ++ more) ++ ['"']) := .token (.string he) (by simp)
      rw [List.cons_append, List.append_assoc] at hwritten
      exact ⟨more ++ ['"'], hwritten⟩
    · obtain ⟨more, hpiece⟩ := hbegun
      obtain ⟨ds, rfl⟩ := List.head?_eq_some_iff.1 hd
      rw [List.append_assoc, List.singleton_append, List.cons_append] at hpiece
      obtain ⟨hlex, -⟩ := holds_of_isPiece hpiece (List.prefix_refl _)
      change (string (text ++ d :: more)).lexeme ≠ .fault at hlex
      rw [string, stringBody_open hbody] at hlex
      exact hlex rfl
  · rw [hfirst]
    refine ⟨.inl rfl, fun d hd hbegun => ?_⟩
    obtain ⟨more, hpiece⟩ := hbegun
    obtain ⟨hlex, -⟩ := holds_of_isPiece hpiece (List.prefix_refl _)
    exact hlex (first_fault hblank hdigit hname hquote hcolon hslash hmark _)

end Piece

end Gradual
