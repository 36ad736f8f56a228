import Gradual.Proofs.Grammar.Canonical
import Gradual.Proofs.Token.Cuts

/-!
# Annotations are read back from their texts

The text of an annotation is source: it is cut into the tokens that the annotation is written with (`Annotation.cuts_text_cases`),
and from those the grammar makes the annotation again, up to spans (`Grammar.isRead_cases`). All that is asked of the annotation
is that its names are names, and no keywords. The text runs no two tokens together: a name is followed by `<`, `>`, `,`, `)` or
nothing, and no mark by one that it would make a pair with.
-/

namespace Gradual

open Gradual.Parser (Parses parses_next parses_accept parses_accept_other parses_expect parses_bounded parses_listUntil
  parses_commaSeparated commaKinds length_le_commaKinds)
open Phrase (yieldOf)
open Reader (Cuts)

/-- Whether a text is cut off as one word, and is no keyword. -/
def isPlainName (n : String) : Bool :=
  match n.toList with
  | [] => false
  | c :: cs => Piece.isNameStart c && (Piece.word Piece.isNameChar cs).1 == cs && (Keyword.ofSpelling? n).isNone

/-- Plain names are recognized by cutting them off. -/
theorem plainName_iff {n : String} : PlainName n ↔ isPlainName n = true := by
  have hword : Word Piece.isNameChar n.toList ↔
      ∃ c cs, n.toList = c :: cs ∧ Piece.isNameStart c = true ∧ (Piece.word Piece.isNameChar cs).1 = cs := by
    generalize n.toList = w
    constructor
    · intro h
      cases h with
      | @plain c cs hc h =>
        have hcut : Piece.word Piece.isNameChar (cs ++ []) = (cs, []) := Piece.word_plain h (by simp)
        rw [List.append_nil] at hcut
        exact ⟨c, cs, rfl, hc, by rw [hcut]⟩
      | @marked c e cs hc h he =>
        exact ⟨c, cs ++ [e], rfl, hc, by rw [Piece.word_marked h (Piece.isNameChar_of_isNameEnd he) he]⟩
    · rintro ⟨c, cs, rfl, hc, hcs⟩
      have hw := Piece.word_word hc Piece.isNameChar cs
      rwa [hcs] at hw
  constructor
  · rintro ⟨hn, hkey⟩
    obtain ⟨c, cs, htext, hc, hcs⟩ := hword.1 hn
    simp [isPlainName, htext, hc, hcs, hkey]
  · intro h
    unfold isPlainName at h
    split at h
    · cases h
    · rename_i c cs htext
      simp only [Bool.and_eq_true, beq_iff_eq, Option.isNone_iff_eq_none] at h
      exact ⟨hword.2 ⟨c, cs, htext, h.1.1, h.1.2⟩, h.2⟩

instance : DecidablePred PlainName := fun _ => decidable_of_iff _ plainName_iff.symm

namespace Annotation

/-! ## Names and kinds -/

mutual

/-- The names in an annotation. -/
def names : Annotation → List String
  | .named n as _ => n :: namesOf as
  | .function ps r _ => namesOf ps ++ names r

/-- The names in annotations. -/
def namesOf : List Annotation → List String
  | [] => []
  | a :: as => names a ++ namesOf as

end

/-- The names in annotations are those in each of them. -/
theorem namesOf_eq (as : List Annotation) : namesOf as = as.flatMap names := by
  induction as with
  | nil => rfl
  | cons a as ih => rw [namesOf, ih, List.flatMap_cons]

/-- Annotations lose their spans one by one. -/
theorem spanlessAnnotations_eq (as : List Annotation) : spanlessAnnotations as = as.map spanless := by
  induction as with
  | nil => rfl
  | cons a as ih => rw [spanlessAnnotations, ih, List.map_cons]

/-- The kinds of the tokens that an annotation is written with. -/
def yield (a : Annotation) : List Kind := yieldOf [a.phrase]

/-- An annotation yields the tokens of its parts. -/
theorem yield_eq (a : Annotation) : a.yield = yieldOf a.parts := by
  simp [yield, phrase]

/-- A name without type arguments yields its token. -/
theorem yield_named_nil (n : String) (span : Span) : (named n [] span).yield = [.name n] := by
  simp [yield_eq, parts, Slot.kinds]

/-- A name with type arguments yields its token and the arguments between angle brackets. -/
theorem yield_named_cons (n : String) (a : Annotation) (as : List Annotation) (span : Span) :
    (named n (a :: as) span).yield = .name n :: .mark .lt :: (commaKinds ((a :: as).map yield) ++ [.mark .gt]) := by
  simp only [yield_eq, parts, phrasesOf_eq, List.cons_append, Phrase.yieldOf_slot, Phrase.yieldOf_append,
    Phrase.yieldOf_intersperse, List.map_map]
  rfl

/-- A function type yields its parameters in parentheses, an arrow and its result. -/
theorem yield_function (ps : List Annotation) (r : Annotation) (span : Span) :
    (function ps r span).yield =
      .mark .lparen :: (commaKinds (ps.map yield) ++ .mark .rparen :: .mark .arrow :: r.yield) := by
  simp only [yield_eq, parts, phrasesOf_eq, List.cons_append, Phrase.yieldOf_slot, Phrase.yieldOf_append, Phrase.yieldOf_listed,
    List.map_map, Phrase.yieldOf_node, Phrase.yieldOf_nil, List.append_nil]
  rfl

/-! ## Texts -/

/-- What may follow the text of an annotation: a comma, a closing bracket or nothing. -/
def Ends (after : List Char) : Prop := ∀ c ∈ after.head?, c = ',' ∨ c = '>' ∨ c = ')'

/-- At the end of a text a name may end. -/
theorem ends_nil : Ends [] := by
  rintro c ⟨⟩

/-- Before a comma or a closing bracket a name may end. -/
theorem ends_cons {c : Char} (h : c = ',' ∨ c = '>' ∨ c = ')') (cs : List Char) : Ends (c :: cs) := by
  rintro d ⟨⟩
  exact h

/-- A name ends where an annotation does. -/
theorem Ends.isNameChar {after : List Char} (h : Ends after) :
    ∀ c ∈ after.head?, Piece.isNameChar c = false ∧ Piece.isNameEnd c = false := by
  intro c hc
  rcases h c hc with rfl | rfl | rfl <;> exact ⟨rfl, rfl⟩

/-- A closing angle bracket makes no pair where an annotation ends. -/
theorem Ends.markOfPair? {after : List Char} (h : Ends after) : ∀ c ∈ after.head?, Piece.markOfPair? '>' c = none := by
  intro c hc
  rcases h c hc with rfl | rfl | rfl <;> rfl

/-- How the text of an annotation begins: with a letter, an underscore or an opening parenthesis. -/
def Starts (cs : List Char) : Prop := ∃ c, cs.head? = some c ∧ (Piece.isNameStart c = true ∨ c = '(')

namespace Starts

variable {cs : List Char}

/-- What a text starts with, a longer text starts with. -/
theorem append (h : Starts cs) (ds : List Char) : Starts (cs ++ ds) := by
  obtain ⟨c, hc, hstart⟩ := h
  exact ⟨c, by rw [List.head?_append, hc, Option.some_or], hstart⟩

/-- What an annotation starts with is no blank. -/
theorem isBlank (h : Starts cs) : ∀ c ∈ cs.head?, Piece.isBlank c = false := by
  obtain ⟨c, hc, hstart⟩ := h
  intro d hd
  obtain rfl := Option.some.inj (hc.symm.trans hd)
  rcases hstart with hstart | rfl
  · exact Piece.isBlank_of_isNameStart hstart
  · rfl

/-- An opening angle bracket makes no pair with what an annotation begins with. -/
theorem markOfPair? (h : Starts cs) : ∀ c ∈ cs.head?, Piece.markOfPair? '<' c = none := by
  obtain ⟨c, hc, hstart⟩ := h
  intro d hd
  obtain rfl := Option.some.inj (hc.symm.trans hd)
  by_cases heq : c = '='
  · subst heq
    rcases hstart with h | h <;> cases h
  · simp [Piece.markOfPair?, heq]

end Starts

/-- A name starts as annotations do. -/
theorem starts_name {n : String} (h : PlainName n) : Starts n.toList := by
  have hword := h.word
  generalize n.toList = w at hword
  cases hword with
  | plain hc _ => exact ⟨_, rfl, Or.inl hc⟩
  | marked hc _ _ => exact ⟨_, rfl, Or.inl hc⟩

/-- The text of an annotation starts with a name or a parenthesis. -/
theorem starts_text {a : Annotation} (h : ∀ n ∈ a.names, PlainName n) : Starts a.text.toList := by
  cases a with
  | named n as span =>
    have hn := starts_name (h n (by simp [names]))
    cases as with
    | nil =>
      rw [text]
      exact hn
    | cons b bs =>
      simp only [text, String.toList_append, List.append_assoc]
      exact hn.append _
  | function ps r span =>
    simp only [text, String.toList_append, List.append_assoc]
    exact ⟨'(', rfl, Or.inr rfl⟩

/-- The text of annotations starts with that of the first one. -/
theorem starts_textAll {a : Annotation} (h : ∀ n ∈ a.names, PlainName n) (as : List Annotation) :
    Starts (textAll (a :: as)).toList := by
  cases as with
  | nil => exact starts_text h
  | cons b bs =>
    simp only [textAll, String.toList_append, List.append_assoc]
    exact (starts_text h).append _

/-! ## Texts are cut into the kinds of annotations -/

/-- The texts of annotations with commas between them are cut into their kinds with commas between them. -/
theorem cuts_textAll {as : List Annotation} {after : List Char} (hnames : ∀ a ∈ as, ∀ n ∈ a.names, PlainName n)
    (h : ∀ a ∈ as, ∀ after, Ends after → Cuts a.text.toList a.yield after) (hafter : Ends after) :
    Cuts (textAll as).toList (commaKinds (as.map yield)) after := by
  induction as with
  | nil => exact .nil after
  | cons a as ih =>
    rw [List.forall_mem_cons] at h hnames
    cases as with
    | nil =>
      rw [List.map_singleton, Parser.commaKinds_singleton]
      exact h.1 after hafter
    | cons b bs =>
      have hrest := ih hnames.2 h.2
      have hitem : Cuts a.text.toList a.yield ([','] ++ ([' '] ++ ((textAll (b :: bs)).toList ++ after))) :=
        h.1 _ (ends_cons (Or.inl rfl) _)
      have hcomma : Cuts [','] [.mark .comma] ([' '] ++ ((textAll (b :: bs)).toList ++ after)) :=
        Reader.cuts_mark (fun _ => rfl) rfl fun _ _ => rfl
      have hblank : Cuts [' '] [] ((textAll (b :: bs)).toList ++ after) :=
        Reader.cuts_blank ((starts_textAll (hnames.2 b List.mem_cons_self) bs).append after).isBlank
      simpa [textAll] using ((hitem.append hcomma).append hblank).append hrest

/-- The text of an annotation is cut into the kinds that it is written with, where an annotation may end. -/
theorem cuts_text_cases : AnnotationCases fun a =>
    (∀ n ∈ a.names, PlainName n) → ∀ after, Ends after → Cuts a.text.toList a.yield after where
  name n span hnames after hafter := by
    have hn := hnames n (by simp [names])
    rw [text, yield_named_nil]
    exact Reader.cuts_name hn hafter.isNameChar
  applied n a as span ih hnames after hafter := by
    have hn := hnames n (by simp [names])
    have hargs : ∀ b ∈ a :: as, ∀ m ∈ b.names, PlainName m := by
      intro b hb m hm
      refine hnames m ?_
      rw [names, namesOf_eq]
      exact List.mem_cons_of_mem n (List.mem_flatMap.2 ⟨b, hb, hm⟩)
    have hname : Cuts n.toList [.name n] (['<'] ++ ((textAll (a :: as)).toList ++ (['>'] ++ after))) := by
      refine Reader.cuts_name hn ?_
      rintro c ⟨⟩
      exact ⟨rfl, rfl⟩
    have hopen : Cuts ['<'] [.mark .lt] ((textAll (a :: as)).toList ++ (['>'] ++ after)) :=
      Reader.cuts_mark (fun _ => rfl) rfl ((starts_textAll (hargs a List.mem_cons_self) as).append _).markOfPair?
    have hlist : Cuts (textAll (a :: as)).toList (commaKinds ((a :: as).map yield)) (['>'] ++ after) :=
      cuts_textAll hargs (fun b hb => ih b hb (hargs b hb)) (ends_cons (Or.inr (Or.inl rfl)) _)
    have hclose : Cuts ['>'] [.mark .gt] after := Reader.cuts_mark (fun _ => rfl) rfl hafter.markOfPair?
    rw [yield_named_cons]
    simpa [text] using ((hname.append hopen).append hlist).append hclose
  function ps r span ihps ihr hnames after hafter := by
    rw [names, namesOf_eq, List.forall_mem_append] at hnames
    have hparams : ∀ b ∈ ps, ∀ m ∈ b.names, PlainName m := fun b hb m hm => hnames.1 m (List.mem_flatMap.2 ⟨b, hb, hm⟩)
    have hopen : Cuts ['('] [.mark .lparen]
        ((textAll ps).toList ++ ([')'] ++ ([' '] ++ (['-', '>'] ++ ([' '] ++ (r.text.toList ++ after)))))) :=
      Reader.cuts_mark (fun _ => rfl) rfl fun _ _ => rfl
    have hlist : Cuts (textAll ps).toList (commaKinds (ps.map yield))
        ([')'] ++ ([' '] ++ (['-', '>'] ++ ([' '] ++ (r.text.toList ++ after))))) :=
      cuts_textAll hparams (fun b hb => ihps b hb (hparams b hb)) (ends_cons (Or.inr (Or.inr rfl)) _)
    have hclose : Cuts [')'] [.mark .rparen] ([' '] ++ (['-', '>'] ++ ([' '] ++ (r.text.toList ++ after)))) :=
      Reader.cuts_mark (fun _ => rfl) rfl fun _ _ => rfl
    have hbefore : Cuts [' '] [] (['-', '>'] ++ ([' '] ++ (r.text.toList ++ after))) := by
      refine Reader.cuts_blank ?_
      rintro c ⟨⟩
      rfl
    have harrow : Cuts ['-', '>'] [.mark .arrow] ([' '] ++ (r.text.toList ++ after)) := Reader.cuts_arrow _
    have hafter' : Cuts [' '] [] (r.text.toList ++ after) := Reader.cuts_blank ((starts_text hnames.2).append after).isBlank
    rw [yield_function]
    simpa [text] using
      (((((hopen.append hlist).append hclose).append hbefore).append harrow).append hafter').append (ihr hnames.2 after hafter)

/-- An annotation begins with a name or with an opening parenthesis. -/
theorem exists_yield_eq_cons (a : Annotation) : ∃ k ks, a.yield = k :: ks ∧ k ≠ .mark .rparen := by
  cases a with
  | named n as span =>
    cases as with
    | nil => exact ⟨.name n, [], yield_named_nil n span, by simp⟩
    | cons b bs => exact ⟨.name n, _, yield_named_cons n b bs span, by simp⟩
  | function ps r span => exact ⟨.mark .lparen, _, yield_function ps r span, by simp⟩

end Annotation

/-! ## Annotations are read from their kinds -/

namespace Grammar

open Annotation (spanlessAnnotations_eq yield_named_nil yield_named_cons yield_function)

/-- What is written as an annotation, and not gone on with arguments, is read as that annotation, up to spans. -/
def IsRead (a : Annotation) : Prop := ∀ k ks n, k ≠ .mark .lt → a.yield.length ≤ n →
  Parses (a.yield ++ k :: ks) (annotationWithin n) (k :: ks) (·.spanless = a.spanless)

/-- The items of a list of annotations are read where a comma or the closing mark follows. -/
theorem IsRead.items {as : List Annotation} {close : Mark} {n : Nat} (h : ∀ a ∈ as, IsRead a) (hclose : close ≠ .lt)
    (hn : (commaKinds (as.map Annotation.yield)).length ≤ n) : ∀ a ∈ as, ∀ m ∈ [Mark.comma, close], ∀ ks,
      Parses (a.yield ++ .mark m :: ks) (annotationWithin n) (.mark m :: ks) (·.spanless = a.spanless) := by
  intro a ha m hm ks
  have hlength := length_le_commaKinds (List.mem_map_of_mem ha (f := Annotation.yield))
  refine h a ha (.mark m) ks n ?_ (by omega)
  rcases List.mem_pair.1 hm with rfl | rfl
  · simp
  · simpa using hclose

/-- An annotation is read back when its parts are. -/
theorem isRead_cases : AnnotationCases IsRead where
  name n span k ks m hk hm := by
    rw [yield_named_nil] at hm ⊢
    cases m with
    | zero => simp at hm
    | succ m =>
      refine (parses_next (by simp)).bind ?_
      intro t ht
      simp only [ht]
      refine (parses_accept_other (Kind.isLike_eq_false rfl hk)).bind ?_
      rintro _ rfl
      exact .pure rfl
  applied n a as span ih k ks m hk hm := by
    rw [yield_named_cons] at hm ⊢
    cases m with
    | zero => simp at hm
    | succ m =>
      simp only [List.length_cons, List.length_append] at hm
      have hargs : Parses (commaKinds ((a :: as).map Annotation.yield) ++ .mark .gt :: k :: ks)
          (Parser.bounded (Parser.commaSeparated (annotationWithin m))) (.mark .gt :: k :: ks)
          (·.map Annotation.spanless = (a :: as).map Annotation.spanless) :=
        parses_bounded fun _ hn =>
          parses_commaSeparated (List.cons_ne_nil _ _) (by simp) (IsRead.items ih (by simp) (by omega)) hn
      simp only [List.cons_append, List.append_assoc, List.nil_append]
      refine (parses_next (by simp)).bind ?_
      intro t ht
      simp only [ht]
      refine (parses_accept rfl).bind ?_
      rintro _ rfl
      refine hargs.bind ?_
      intro args hspanless
      refine (parses_expect rfl).bind ?_
      intro close _
      refine .pure ?_
      rw [Gradual.Annotation.spanless, Annotation.spanless, spanlessAnnotations_eq, spanlessAnnotations_eq, hspanless]
  function ps r span ihps ihr k ks m hk hm := by
    rw [yield_function] at hm ⊢
    cases m with
    | zero => simp at hm
    | succ m =>
      simp only [List.length_cons, List.length_append] at hm
      have hparams : Parses (commaKinds (ps.map Annotation.yield) ++ .mark .rparen :: .mark .arrow :: (r.yield ++ k :: ks))
          (Parser.bounded (Parser.listUntil (.mark .rparen) (annotationWithin m)))
          (.mark .rparen :: .mark .arrow :: (r.yield ++ k :: ks)) (·.map Annotation.spanless = ps.map Annotation.spanless) :=
        parses_bounded fun _ hn =>
          parses_listUntil (by simp) (IsRead.items ihps (by simp) (by omega)) (fun b _ => b.exists_yield_eq_cons) hn
      simp only [List.cons_append, List.append_assoc]
      refine (parses_next (by simp)).bind ?_
      intro t ht
      simp only [ht]
      refine hparams.bind ?_
      intro params hspanless
      refine (parses_expect rfl).bind ?_
      intro _ _
      refine (parses_expect rfl).bind ?_
      intro _ _
      refine (ihr k ks m hk (by omega)).bind ?_
      intro ret hret
      refine .pure ?_
      rw [Gradual.Annotation.spanless, Annotation.spanless, spanlessAnnotations_eq, spanlessAnnotations_eq, hspanless, hret]

/-- The grammar reads an annotation from its text, up to spans, and nothing is left but the end of the text. -/
theorem annotation_of_text {a : Annotation} (h : ∀ n ∈ a.names, PlainName n) :
    (∃ ts, tokenize a.text = .ok ts ∧ ts.map (·.kind) = a.yield ++ [.eof]) ∧
      ∃ a' r, annotation (Reader.ofSource a.text) = .ok a' r ∧ a'.spanless = a.spanless ∧ r.Ahead [.eof] := by
  have htokens : ∃ ts, tokenize a.text = .ok ts ∧ ts.map (·.kind) = a.yield ++ [.eof] :=
    (Gradual.Annotation.cuts_text_cases.all a h [] Annotation.ends_nil).tokenize
  refine ⟨htokens, ?_⟩
  have hparses : Parses (a.yield ++ [.eof]) annotation [.eof] (·.spanless = a.spanless) := by
    refine parses_bounded fun n hn => isRead_cases.all a .eof [] n (by simp) ?_
    rw [List.length_append] at hn
    omega
  obtain ⟨a', r, hread, hahead, hspanless⟩ := hparses (Reader.ofSource a.text) htokens
  exact ⟨a', r, hread, hspanless, hahead⟩

end Grammar

end Gradual
