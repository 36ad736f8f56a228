import Mathlib
import Gradual.Proofs.Grammar.Parser
import Gradual.Proofs.Token.Placed
import Gradual.Proofs.Token.Tiling

/-!
# A reader is an index into one stream

The tokens and faults that a reader gives when nothing but `Reader.next` is asked of it are its items, numbered from zero.
Whatever else is asked, and in whatever order, the answers are those of an index into the items (`session_of_index`): a request
looks at the item there, and either passes it or leaves it for the next request. Tokens that were looked at, halves of a symbol
and the end of the text wait in one place, and what is taken next is all that can be told of a reader from outside, so the
invariant is that a reader and the one that only took as many items have the same next item and go on to the same reader.
-/

namespace Gradual

/-! ## Items -/

namespace Reader

/-- The reader after so many items have been taken. -/
def taken (r : Reader) (n : Nat) : Reader := (fun r => r.next.2)^[n] r

/-- The item with that number: a token, or a fault. -/
def item (r : Reader) (n : Nat) : Except Fault Token := (r.taken n).next.1

/-- One item more is taken after the others. -/
theorem taken_succ (r : Reader) (n : Nat) : r.taken (n + 1) = (r.taken n).next.2 := Function.iterate_succ_apply' _ _ _

/-- The items after the first are those of the reader behind it. -/
theorem item_succ (r : Reader) (n : Nat) : r.item (n + 1) = r.next.2.item n := rfl

/-- What is taken next is the item at the index. -/
theorem next_taken (r : Reader) (n : Nat) : (r.taken n).next = (r.item n, r.taken (n + 1)) := by
  rw [taken_succ, item]

end Reader

/-! ## Requests -/

/-- What may be asked of a reader. -/
inductive Request where
  | next
  | peek
  | check (kind : Kind)
  | accept (kind : Kind)
  | expect (kind : Kind)
  deriving DecidableEq

/-- What is replied: a token, or whether the next token is like a kind. -/
inductive Reply where
  | token (token : Token)
  | truth (isLike : Bool)
  deriving DecidableEq

/-- A reply, or the error that a request ends in. -/
abbrev Answer : Type := Except ParseError Reply

/-- What a parser answers, and the reader it leaves. -/
def answerOf {α : Type} (reply : α → Reply) : EStateM.Result ParseError Reader α → Answer × Reader
  | .ok a r => (.ok (reply a), r)
  | .error e r => (.error e, r)

namespace Reader

/-- A request put to a reader: the answer, and the reader after it. -/
def ask (r : Reader) : Request → Answer × Reader
  | .next => answerOf .token (Parser.next r)
  | .peek => answerOf .token (Parser.peek r)
  | .check k => answerOf .truth (Parser.check k r)
  | .accept k => answerOf .truth (Parser.accept k r)
  | .expect k => answerOf .token (Parser.expect k r)

/-- The answers to requests that are put one after the other; a session goes on behind an error. -/
def answers (r : Reader) : List Request → List Answer
  | [] => []
  | q :: qs => (r.ask q).1 :: (r.ask q).2.answers qs

/-- The reader after requests that are put one after the other. -/
def afterAll (r : Reader) (qs : List Request) : Reader := qs.foldl (fun r q => (r.ask q).2) r

end Reader

/-! ## Requests at an index -/

namespace Request

/-- The answer to a request where an item stands: a fault is answered as it is, and a token by itself, by whether it is like a
kind, or, where it must be like one and is not, by the error that says so. -/
def answer : Request → Except Fault Token → Answer
  | _, .error f => .error (.lexical f)
  | .next, .ok t => .ok (.token t)
  | .peek, .ok t => .ok (.token t)
  | .check k, .ok t => .ok (.truth (t.kind.isLike k))
  | .accept k, .ok t => .ok (.truth (t.kind.isLike k))
  | .expect k, .ok t => if t.kind.isLike k then .ok (.token t) else .error (.grammar (.expected k t.kind) t.span)

/-- Whether a request passes the item where it is put: a fault always, a token when it is taken. -/
def passes : Request → Except Fault Token → Bool
  | _, .error _ => true
  | .next, .ok _ => true
  | .peek, .ok _ => false
  | .check _, .ok _ => false
  | .accept k, .ok t => t.kind.isLike k
  | .expect _, .ok _ => true

variable (items : Nat → Except Fault Token)

/-- The index after a request. -/
def move (q : Request) (i : Nat) : Nat := if q.passes (items i) then i + 1 else i

/-- The answers to requests that are put one after the other, from an index on. -/
def answersAt (i : Nat) : List Request → List Answer
  | [] => []
  | q :: qs => q.answer (items i) :: answersAt (q.move items i) qs

/-- The index after requests that are put one after the other. -/
def indexAfter (i : Nat) (qs : List Request) : Nat := qs.foldl (fun i q => q.move items i) i

end Request

/-- What the items from an index on come to: the tokens up to the first end of the text and with it, or the first fault if it
comes earlier. -/
inductive Listed (items : Nat → Except Fault Token) : Nat → Except Fault (List Token) → Prop
  | eof {i : Nat} {t : Token} (h : items i = .ok t) (ht : t.kind = .eof) : Listed items i (.ok [t])
  | fault {i : Nat} {f : Fault} (h : items i = .error f) : Listed items i (.error f)
  | token {i : Nat} {t : Token} {x : Except Fault (List Token)} (h : items i = .ok t) (ht : t.kind ≠ .eof)
      (hx : Listed items (i + 1) x) : Listed items i (x.map (t :: ·))

namespace Reader

variable {r r' r₁ : Reader} {t : Token}

/-! ## One request -/

/-- A look ahead shows the fault that comes next. -/
theorem peek_of_fault {f : Fault} (h : r.next = (.error f, r₁)) : r.peek = (.error f, r₁) := by
  cases hp : r.peek with
  | mk x r' =>
    cases x with
    | ok t =>
      obtain ⟨-, r₂, hn⟩ := next_of_peek hp
      rw [h] at hn
      simp at hn
    | error g => rw [← next_of_peek_fault hp, h]

/-- A fault is passed, and answers every request. -/
theorem ask_of_fault {f : Fault} (q : Request) (h : r.next = (.error f, r₁)) : r.ask q = (.error (.lexical f), r₁) := by
  have hpeek := peek_of_fault h
  have hnext : Parser.next r = .error (.lexical f) r₁ := by rw [Parser.next, Parser.ofReader, h]
  cases q with
  | next => rw [ask, hnext, answerOf]
  | peek => rw [ask, Parser.peek, Parser.ofReader, hpeek, answerOf]
  | check k => rw [ask, Parser.check, Parser.ofReader, Reader.check, hpeek, answerOf]
  | accept k => rw [ask, Parser.accept, Parser.ofReader, Reader.accept, hpeek, answerOf]
  | expect k =>
    have hexpect : Parser.expect k r = .error (.lexical f) r₁ := Parser.bind_of_error hnext
    rw [ask, hexpect, answerOf]

/-- A token answers a request as it does where it stands, and is passed or is the one that is taken next. -/
theorem ask_of_token (q : Request) (h : r.next = (.ok t, r₁)) :
    (r.ask q).1 = q.answer (.ok t) ∧ (r.ask q).2.next = if q.passes (.ok t) then r₁.next else r.next := by
  obtain ⟨r', hpeek, hsame⟩ := peek_of_next h
  have hnext : Parser.next r = .ok t r₁ := Parser.next_ok_iff.2 h
  cases q with
  | next =>
    rw [ask, hnext]
    exact ⟨rfl, rfl⟩
  | peek =>
    rw [ask, Parser.peek, Parser.ofReader, hpeek]
    exact ⟨rfl, hsame⟩
  | check k =>
    rw [ask, Parser.check, Parser.ofReader, Reader.check, hpeek]
    exact ⟨rfl, hsame⟩
  | accept k =>
    rw [ask, Parser.accept, Parser.ofReader, Reader.accept, hpeek]
    by_cases hk : t.kind.isLike k = true
    · have hafter : r'.next.2 = r₁ := by rw [hsame, h]
      simp [hk, answerOf, Request.answer, Request.passes, hafter]
    · simp [hk, answerOf, Request.answer, Request.passes, hsame]
  | expect k =>
    have hexpect : Parser.expect k r = (if t.kind.isLike k then pure t
        else throw (.grammar (.expected k t.kind) t.span) : Parser Token) r₁ := Parser.bind_of_ok hnext
    rw [ask, hexpect]
    by_cases hk : t.kind.isLike k = true
    · rw [if_pos hk, Request.answer, if_pos hk]
      exact ⟨rfl, rfl⟩
    · rw [if_neg hk, Request.answer, if_neg hk]
      exact ⟨rfl, rfl⟩

/-! ## A session -/

/-- A reader stands at an index into the items of another when it has the item there next, and goes on alike. -/
def StandsAt (r₀ : Reader) (i : Nat) (r : Reader) : Prop := r.next = (r₀.taken i).next

variable {r₀ : Reader} {i : Nat}

/-- The next item of a reader that stands at an index is the one there. -/
theorem StandsAt.next (h : StandsAt r₀ i r) : r.next = (r₀.item i, r₀.taken (i + 1)) := Eq.trans h (next_taken r₀ i)

/-- A request is answered as at the index, and leaves the reader at the index after it. -/
theorem StandsAt.ask (h : StandsAt r₀ i r) (q : Request) :
    (r.ask q).1 = q.answer (r₀.item i) ∧ StandsAt r₀ (q.move r₀.item i) (r.ask q).2 := by
  have hnext := h.next
  unfold StandsAt Request.move
  cases hitem : r₀.item i with
  | error f =>
    rw [hitem] at hnext
    rw [ask_of_fault q hnext]
    exact ⟨rfl, rfl⟩
  | ok t =>
    rw [hitem] at hnext
    obtain ⟨hanswer, hafter⟩ := ask_of_token q hnext
    refine ⟨hanswer, ?_⟩
    rw [hafter, apply_ite r₀.taken, apply_ite Reader.next, ← h]

/-- A session is answered as from the index, and leaves the reader at the index after it. -/
theorem StandsAt.session (h : StandsAt r₀ i r) (qs : List Request) :
    r.answers qs = Request.answersAt r₀.item i qs ∧ StandsAt r₀ (Request.indexAfter r₀.item i qs) (r.afterAll qs) := by
  induction qs generalizing r i with
  | nil => exact ⟨rfl, h⟩
  | cons q qs ih =>
    obtain ⟨hanswer, hafter⟩ := h.ask q
    obtain ⟨hanswers, hend⟩ := ih hafter
    refine ⟨?_, hend⟩
    rw [answers, Request.answersAt, hanswer, hanswers]

/-- What lies ahead of a reader is what the items from its index on come to. -/
theorem StandsAt.listed (h : StandsAt r₀ i r) : Listed r₀.item i r.drain := by
  fun_induction drain r generalizing i with
  | case1 r f r₁ hf => exact .fault (congrArg Prod.fst (h.next.symm.trans hf))
  | case2 r t r₁ ht hk => exact .eof (congrArg Prod.fst (h.next.symm.trans ht)) hk
  | case3 r t r₁ ht hk ih =>
    obtain ⟨hitem, hafter⟩ := Prod.mk.inj (h.next.symm.trans ht)
    refine .token hitem hk (ih ?_)
    rw [← hafter]
    rfl

/-! ## The end of the text is repeated for ever -/

/-- A token that waits is never the end of the text, as long as nothing is looked at. -/
def Unpeeked (r : Reader) : Prop := ∀ t ∈ r.pending, t.kind ≠ .eof

/-- Scanning leaves nothing that was looked at. -/
theorem unpeeked_scan (hp : r.pending = []) : Unpeeked r.scan.2 := by
  have hempty : ∀ {r : Reader}, r.pending = [] → Unpeeked r := by
    intro r hp t ht
    rw [hp] at ht
    cases ht
  fun_induction scan r with
  | case1 r hr => exact hempty hp
  | case2 r c cs hr p hlex ih => exact ih hp
  | case3 r c cs hr p span hlex => exact hempty hp
  | case4 r c cs hr p span kind hlex t r' hclass =>
    have hfound : Found r.offset p.text t r'.pending := by
      have hskip : (r.skip p).pending = [] := hp
      have hclassify := found_classify (k := r.offset) hskip (Piece.text_first_ne_nil c cs) (Piece.isWritten_first c cs kind hlex)
      rwa [hclass] at hclassify
    exact fun u hu => hfound.ne_eof u (List.mem_cons_of_mem _ hu)

/-- Taking an item leaves nothing that was looked at. -/
theorem Unpeeked.next (h : Unpeeked r) : Unpeeked r.next.2 := by
  unfold Reader.next
  split
  · rename_i t ts hp
    intro u hu
    refine h u ?_
    rw [hp]
    exact List.mem_cons_of_mem t hu
  · rename_i hp
    exact unpeeked_scan hp

/-- Where the end of the text is read off the text, nothing is left to read. -/
theorem rest_of_scan_eof (hp : r.pending = []) (h : r.scan = (.ok t, r')) (ht : t.kind = .eof) :
    r'.rest = [] ∧ r'.pending = [] := by
  fun_induction scan r with
  | case1 r hr =>
    obtain ⟨-, rfl⟩ := Prod.mk.inj h
    exact ⟨hr, hp⟩
  | case2 r c cs hr p hlex ih => exact ih hp h
  | case3 r c cs hr p span hlex => cases h
  | case4 r c cs hr p span kind hlex u r₁ hclass =>
    obtain ⟨hu, -⟩ := Prod.mk.inj h
    obtain rfl := Except.ok.inj hu
    have hskip : (r.skip p).pending = [] := hp
    have hfound := found_classify (k := r.offset) hskip (Piece.text_first_ne_nil c cs) (Piece.isWritten_first c cs kind hlex)
    rw [hclass] at hfound
    exact absurd ht (hfound.ne_eof u List.mem_cons_self)

/-- The token that stands for the end of a text. -/
def endToken (source : String) : Token := ⟨.eof, ⟨source.utf8ByteSize, source.utf8ByteSize⟩⟩

/-- A reader that stands in its text, and has looked at nothing. -/
structure Reading (source : String) (r : Reader) : Prop where
  placed : ∃ k, Placed source k r
  unpeeked : Unpeeked r

variable {source : String}

/-- A reader of a source reads it still after so many items. -/
theorem reading_taken (source : String) (n : Nat) : Reading source ((ofSource source).taken n) := by
  induction n with
  | zero =>
    refine ⟨⟨0, placed_ofSource source⟩, ?_⟩
    intro t ht
    cases ht
  | succ n ih =>
    rw [taken_succ]
    obtain ⟨⟨k, hk⟩, hunpeeked⟩ := ih
    refine ⟨?_, hunpeeked.next⟩
    have hfitting := hk.next
    cases hnext : ((ofSource source).taken n).next with
    | mk x r' =>
      rw [hnext] at hfitting
      cases x with
      | ok t => exact ⟨_, hfitting.2.2⟩
      | error f => exact ⟨_, hfitting.2⟩

/-- The end of the text is read as the token at the end, and is read again. -/
theorem Reading.eof (h : Reading source r) (hnext : r.next = (.ok t, r')) (ht : t.kind = .eof) :
    t = endToken source ∧ ∃ u r₁, r'.next = (.ok u, r₁) ∧ u.kind = .eof := by
  have hpending : r.pending = [] := by
    cases hp : r.pending with
    | nil => rfl
    | cons u us =>
      rw [Reader.next, hp] at hnext
      obtain ⟨hu, -⟩ := Prod.mk.inj hnext
      obtain rfl := Except.ok.inj hu
      exact absurd ht (h.unpeeked u (hp ▸ List.mem_cons_self))
  have hscan : r.scan = (.ok t, r') := by rwa [Reader.next, hpending] at hnext
  refine ⟨?_, ?_⟩
  · rcases scan_cases hpending hscan with ⟨-, rfl⟩ | ⟨gap, text, -, -, hfound, -⟩
    · obtain ⟨k, hk⟩ := h.placed
      obtain ⟨cs, hsource, hoffset⟩ := hk.rest
      rw [endToken, utf8ByteSize_eq_byteSize, hsource, byteSize_append, hoffset]
    · exact absurd ht (hfound.ne_eof t List.mem_cons_self)
  · obtain ⟨hrest, hp⟩ := rest_of_scan_eof hpending hscan ht
    refine ⟨⟨.eof, ⟨r'.offset, r'.offset⟩⟩, r', ?_, rfl⟩
    rw [Reader.next, hp]
    exact scan_of_rest_nil hrest

/-- Passing a fault leaves a smaller reader. -/
theorem fault_size {f : Fault} (h : r.next = (.error f, r')) : r'.size < r.size := by
  unfold Reader.next at h
  split at h
  · cases h
  · rcases scan_size r with hlt | ⟨⟨t, ht, -⟩, -⟩
    · rwa [h] at hlt
    · rw [h] at ht
      cases ht

/-- Items run out: the end of the text comes. -/
theorem exists_eof_item (r : Reader) : ∃ n t, r.item n = .ok t ∧ t.kind = .eof := by
  induction hs : r.size using Nat.strong_induction_on generalizing r with
  | _ n ih =>
    have hlater : r.next.2.size < n → ∃ n t, r.item n = .ok t ∧ t.kind = .eof := by
      intro hlt
      obtain ⟨m, t, hm, ht⟩ := ih _ hlt r.next.2 rfl
      exact ⟨m + 1, t, (item_succ r m).trans hm, ht⟩
    cases hnext : r.next with
    | mk x r' =>
      rw [hnext] at hlater
      cases x with
      | ok t =>
        by_cases ht : t.kind = .eof
        · exact ⟨0, t, congrArg Prod.fst hnext, ht⟩
        · exact hlater (hs ▸ next_size hnext ht)
      | error f => exact hlater (hs ▸ fault_size hnext)

/-- From some number on all items are the end of the text, and none before is. -/
theorem items_end (source : String) :
    ∃ n, (∀ i < n, ∀ t, (ofSource source).item i = .ok t → t.kind ≠ .eof) ∧
      ∀ i, n ≤ i → (ofSource source).item i = .ok (endToken source) := by
  classical
  have hex := exists_eof_item (ofSource source)
  have hagain : ∀ i t, (ofSource source).item i = .ok t → t.kind = .eof →
      t = endToken source ∧ ∃ u, (ofSource source).item (i + 1) = .ok u ∧ u.kind = .eof := by
    intro i t hi ht
    have hnext := next_taken (ofSource source) i
    rw [hi] at hnext
    obtain ⟨heq, u, r₁, hu, hk⟩ := (reading_taken source i).eof hnext ht
    exact ⟨heq, u, congrArg Prod.fst hu, hk⟩
  refine ⟨Nat.find hex, ?_, ?_⟩
  · intro i hi t ht hk
    exact Nat.find_min hex hi ⟨t, ht, hk⟩
  · intro i hi
    have heof : ∃ t, (ofSource source).item i = .ok t ∧ t.kind = .eof := by
      induction i, hi using Nat.le_induction with
      | base => exact Nat.find_spec hex
      | succ i _ ih =>
        obtain ⟨t, ht, hk⟩ := ih
        exact (hagain i t ht hk).2
    obtain ⟨t, ht, hk⟩ := heof
    rw [ht, (hagain i t ht hk).1]

end Reader

/-- A session with a reader is an index into the one stream of items of its source, which ends in the end of the text, repeated
for ever. Whatever is asked, the answers are those at the index, which starts at zero and moves past an item when it is taken or
is a fault; and what can be read after the session is what the items from the index on come to. -/
theorem session_of_index (source : String) (qs : List Request) :
    (Reader.ofSource source).answers qs = Request.answersAt (Reader.ofSource source).item 0 qs ∧
      Listed (Reader.ofSource source).item (Request.indexAfter (Reader.ofSource source).item 0 qs)
        ((Reader.ofSource source).afterAll qs).drain ∧
      ∃ n, (∀ i < n, ∀ t, (Reader.ofSource source).item i = .ok t → t.kind ≠ .eof) ∧
        ∀ i, n ≤ i → (Reader.ofSource source).item i = .ok (Reader.endToken source) := by
  have hstart : Reader.StandsAt (Reader.ofSource source) 0 (Reader.ofSource source) := rfl
  obtain ⟨hanswers, hend⟩ := hstart.session qs
  exact ⟨hanswers, hend.listed, Reader.items_end source⟩

-- The second half of a symbol is looked at between the two ways of taking a token, and the fault is passed by a look ahead.
example : (Reader.ofSource "x:A \\ y").answers
    [.peek, .next, .accept (.mark .colon), .check (.name ""), .expect (.mark .comma), .peek, .next] =
    [.ok (.token ⟨.name "x", ⟨0, 1⟩⟩), .ok (.token ⟨.name "x", ⟨0, 1⟩⟩), .ok (.truth true), .ok (.truth true),
      .error (.grammar (.expected (.mark .comma) (.name "A")) ⟨2, 3⟩), .error (.lexical ⟨"\\", ⟨4, 5⟩⟩),
      .ok (.token ⟨.name "y", ⟨6, 7⟩⟩)] := by cbv

end Gradual
