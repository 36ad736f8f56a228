import Gradual.Token.Basic

/-!
# Pieces: a text cut into layout, tokens and faults

A non-empty text begins with exactly one piece, the longest text at its front that is layout or a token. Where the front is
neither, the piece is a fault: the text up to the first character after which no token could be completed, and at least one
character. A piece is never empty and nothing is lost: its text followed by the rest is the text it was cut from.
-/

namespace Gradual

/-- What a piece of text is. -/
inductive Lexeme where
  | layout
  | token (kind : Kind)
  | fault
  deriving DecidableEq

/-- The first piece of a text: what it is, its characters, and the characters after it. -/
structure Piece where
  lexeme : Lexeme
  text : List Char
  rest : List Char

namespace Piece

/-- The characters that separate tokens: blank, tab, newline, carriage return and form feed. -/
def isBlank (c : Char) : Bool := c == ' ' || c == '\t' || c == '\n' || c == '\r' || c == '\x0c'

/-- The characters a name begins with: the ASCII letters and the underscore. -/
def isNameStart (c : Char) : Bool := c.isAlpha || c == '_'

/-- The characters a name goes on with. -/
def isNameChar (c : Char) : Bool := isNameStart c || c.isDigit

/-- The characters a symbol goes on with: those of a name, and the hyphen. -/
def isSymbolChar (c : Char) : Bool := isNameChar c || c == '-'

/-- The marks that may end a name. -/
def isNameEnd (c : Char) : Bool := c == '?' || c == '!'

/-- The characters of a word, and the rest: as many of the class as there are, and one closing `?` or `!`. -/
def word (p : Char → Bool) (cs : List Char) : List Char × List Char :=
  match cs.dropWhile p with
  | d :: ds => if isNameEnd d then (cs.takeWhile p ++ [d], ds) else (cs.takeWhile p, d :: ds)
  | [] => (cs.takeWhile p, [])

/-- The digits after the point of a number, with the rest, when a point and a digit follow. -/
def fraction? : List Char → Option (List Char × List Char)
  | '.' :: d :: ds => if d.isDigit then some (d :: ds.takeWhile Char.isDigit, ds.dropWhile Char.isDigit) else none
  | _ => none

/-- The text of a string literal after its opening quote: whether it is closed, its characters, and the rest. A backslash
joins the character after it, a newline apart. -/
def stringBody : List Char → Bool × List Char × List Char
  | [] => (false, [], [])
  | '"' :: cs => (true, ['"'], cs)
  | '\\' :: d :: cs =>
    if d == '\n' then (false, ['\\'], d :: cs)
    else
      let (closed, text, rest) := stringBody cs
      (closed, '\\' :: d :: text, rest)
  | c :: cs =>
    let (closed, text, rest) := stringBody cs
    (closed, c :: text, rest)

/-- The text that a string literal denotes: what stands between its quotes, with every escape resolved. -/
def unescape : List Char → List Char
  | '\\' :: 'n' :: cs => '\n' :: unescape cs
  | '\\' :: 't' :: cs => '\t' :: unescape cs
  | '\\' :: 'r' :: cs => '\r' :: unescape cs
  | '\\' :: '0' :: cs => '\x00' :: unescape cs
  | '\\' :: c :: cs => c :: unescape cs
  | c :: cs => c :: unescape cs
  | [] => []

/-- The text of a block comment after its opening mark, through the first closing mark, and the rest; none if it never ends. -/
def commentBody? : List Char → Option (List Char × List Char)
  | '*' :: '/' :: cs => some (['*', '/'], cs)
  | c :: cs => (commentBody? cs).map fun (text, rest) => (c :: text, rest)
  | [] => none

/-- The kind of a word: the keyword spelled so, or else a name. -/
def wordKind (w : List Char) : Kind :=
  match Keyword.ofSpelling? (String.ofList w) with
  | some k => .keyword k
  | none => .name (String.ofList w)

/-- The mark that one character is. -/
def markOfChar? : Char → Option Mark
  | '+' => some .plus
  | '-' => some .minus
  | '*' => some .star
  | '/' => some .slash
  | '%' => some .percent
  | '!' => some .bang
  | '=' => some .eq
  | '<' => some .lt
  | '>' => some .gt
  | '(' => some .lparen
  | ')' => some .rparen
  | '\x7b' => some .lbrace
  | '\x7d' => some .rbrace
  | '[' => some .lbracket
  | ']' => some .rbracket
  | ';' => some .semi
  | ',' => some .comma
  | ':' => some .colon
  | '.' => some .dot
  | _ => none

/-- The mark that two characters are. -/
def markOfPair? : Char → Char → Option Mark
  | '-', '>' => some .arrow
  | '=', '=' => some .eqEq
  | '!', '=' => some .notEq
  | '<', '=' => some .ltEq
  | '>', '=' => some .gtEq
  | '%', '\x7b' => some .mapOpen
  | _, _ => none

/-- A piece of one character: a mark, or a fault. -/
def single (c : Char) (cs : List Char) : Piece :=
  match markOfChar? c with
  | some m => ⟨.token (.mark m), [c], cs⟩
  | none => ⟨.fault, [c], cs⟩

/-- A mark of two characters, or else a piece of one. -/
def pair (c : Char) (cs : List Char) : Piece :=
  match cs with
  | d :: ds =>
    match markOfPair? c d with
    | some m => ⟨.token (.mark m), [c, d], ds⟩
    | none => single c (d :: ds)
  | [] => single c []

/-- A number that begins with the digit `c`. -/
def number (c : Char) (cs : List Char) : Piece :=
  let whole := c :: cs.takeWhile Char.isDigit
  match fraction? (cs.dropWhile Char.isDigit) with
  | some (digits, rest) => ⟨.token (.number (.ofDecimal whole digits)), whole ++ '.' :: digits, rest⟩
  | none => ⟨.token (.number (.ofDecimal whole [])), whole, cs.dropWhile Char.isDigit⟩

/-- A name or a keyword that begins with `c`. -/
def name (c : Char) (cs : List Char) : Piece :=
  let (w, rest) := word isNameChar cs
  ⟨.token (wordKind (c :: w)), c :: w, rest⟩

/-- A symbol after its colon, or else the colon. -/
def colon (cs : List Char) : Piece :=
  match cs with
  | d :: ds =>
    if isNameStart d then
      let (w, rest) := word isSymbolChar ds
      ⟨.token (.symbol (String.ofList (d :: w))), ':' :: d :: w, rest⟩
    else ⟨.token (.mark .colon), [':'], d :: ds⟩
  | [] => ⟨.token (.mark .colon), [':'], []⟩

/-- A string literal after its opening quote, or a fault when it is not closed. -/
def string (cs : List Char) : Piece :=
  match stringBody cs with
  | (true, text, rest) => ⟨.token (.string (String.ofList (unescape text.dropLast))), '"' :: text, rest⟩
  | (false, text, rest) => ⟨.fault, '"' :: text, rest⟩

/-- A comment after its first slash, or else the slash. -/
def slash (cs : List Char) : Piece :=
  match cs with
  | '/' :: ds => ⟨.layout, '/' :: '/' :: ds.takeWhile (· ≠ '\n'), ds.dropWhile (· ≠ '\n')⟩
  | '*' :: ds =>
    match commentBody? ds with
    | some (text, rest) => ⟨.layout, '/' :: '*' :: text, rest⟩
    | none => ⟨.token (.mark .slash), ['/'], '*' :: ds⟩
  | ds => ⟨.token (.mark .slash), ['/'], ds⟩

/-- The first piece of the text `c :: cs`. -/
def first (c : Char) (cs : List Char) : Piece :=
  if isBlank c then ⟨.layout, c :: cs.takeWhile isBlank, cs.dropWhile isBlank⟩
  else if c.isDigit then number c cs
  else if isNameStart c then name c cs
  else if c = '"' then string cs
  else if c = ':' then colon cs
  else if c = '/' then slash cs
  else pair c cs

/-! ## Nothing is lost -/

/-- A word and the rest are the text. -/
theorem word_append (p : Char → Bool) (cs : List Char) : (word p cs).1 ++ (word p cs).2 = cs := by
  have h := List.takeWhile_append_dropWhile (p := p) (l := cs)
  unfold word
  split
  · rename_i d ds hd
    rw [hd] at h
    split
    · simpa using h
    · exact h
  · rename_i hd
    rw [hd] at h
    exact h

/-- A string's text and the rest are the text after its opening quote. -/
theorem stringBody_append (cs : List Char) : (stringBody cs).2.1 ++ (stringBody cs).2.2 = cs := by
  fun_induction stringBody cs <;> simp_all

/-- A comment's text and the rest are the text after its opening mark. -/
theorem commentBody?_append {cs text rest : List Char} (h : commentBody? cs = some (text, rest)) : text ++ rest = cs := by
  fun_induction commentBody? cs generalizing text rest with
  | case1 cs =>
    simp only [Option.some.injEq, Prod.mk.injEq] at h
    rw [← h.1, ← h.2]
    rfl
  | case2 c cs _ ih =>
    obtain ⟨⟨t, r⟩, hb, he⟩ := Option.map_eq_some_iff.mp h
    simp only [Prod.mk.injEq] at he
    rw [← he.1, ← he.2, List.cons_append, ih hb]
  | case3 => simp at h

/-- The digits after a point and the rest are the text after the point. -/
theorem fraction?_append {cs digits rest : List Char} (h : fraction? cs = some (digits, rest)) :
    '.' :: digits ++ rest = cs := by
  unfold fraction? at h
  split at h
  · split at h
    · simp only [Option.some.injEq, Prod.mk.injEq] at h
      rw [← h.1, ← h.2]
      simp
    · simp at h
  · simp at h

theorem single_append (c : Char) (cs : List Char) : (single c cs).text ++ (single c cs).rest = c :: cs := by
  unfold single
  split <;> rfl

theorem pair_append (c : Char) (cs : List Char) : (pair c cs).text ++ (pair c cs).rest = c :: cs := by
  unfold pair
  split
  · split
    · rfl
    · exact single_append c _
  · exact single_append c _

theorem number_append (c : Char) (cs : List Char) : (number c cs).text ++ (number c cs).rest = c :: cs := by
  unfold number
  split
  · rename_i digits rest h
    have := fraction?_append h
    simp only [List.cons_append, List.append_assoc, List.cons.injEq, true_and]
    rw [← List.cons_append, this]
    exact List.takeWhile_append_dropWhile
  · simp

theorem name_append (c : Char) (cs : List Char) : (name c cs).text ++ (name c cs).rest = c :: cs := by
  simp [name, word_append]

theorem colon_append (cs : List Char) : (colon cs).text ++ (colon cs).rest = ':' :: cs := by
  unfold colon
  split
  · split
    · simp [word_append]
    · rfl
  · rfl

theorem string_append (cs : List Char) : (string cs).text ++ (string cs).rest = '"' :: cs := by
  have h := stringBody_append cs
  unfold string
  split <;> rename_i h' <;> rw [h'] at h <;> simpa using h

theorem slash_append (cs : List Char) : (slash cs).text ++ (slash cs).rest = '/' :: cs := by
  unfold slash
  split
  · simp
  · split
    · rename_i h
      simpa using commentBody?_append h
    · rfl
  · rfl

/-- The first piece of a text and the rest are the text. -/
theorem first_append (c : Char) (cs : List Char) : (first c cs).text ++ (first c cs).rest = c :: cs := by
  unfold first
  split
  · simp
  split
  · exact number_append c cs
  split
  · exact name_append c cs
  split
  · rename_i h
    rw [h]
    exact string_append cs
  split
  · rename_i h
    rw [h]
    exact colon_append cs
  split
  · rename_i h
    rw [h]
    exact slash_append cs
  · exact pair_append c cs

/-- A piece is never empty. -/
theorem text_first_ne_nil (c : Char) (cs : List Char) : (first c cs).text ≠ [] := by
  unfold first number name string colon slash pair single
  grind

/-- What is left after the first piece is shorter than the text. -/
theorem rest_length_lt (c : Char) (cs : List Char) : (first c cs).rest.length < (c :: cs).length := by
  have h := congrArg List.length (first_append c cs)
  have := List.length_pos_iff.mpr (text_first_ne_nil c cs)
  rw [List.length_append] at h
  omega

end Piece

end Gradual
