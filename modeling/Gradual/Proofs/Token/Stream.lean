import Gradual.Token.Reader

/-!
# Readers as streams of tokens

All that can be read from a reader follows from `Reader.next`. A look ahead leaves it as it is (`next_of_peek`), so two readers
that take the same next token, to the same reader, are not told apart by reading. `Reader.Reads` says which tokens lie between two
readers, whatever was looked at on the way, and `Reader.drain` lists those that lie ahead.
-/

namespace Gradual

namespace Kind

/-- Whether a kind has no payload and is not the end of the text. -/
def isFixed : Kind → Bool
  | .keyword _ | .mark _ => true
  | _ => false

/-- Only a fixed kind itself is like it. -/
theorem eq_of_isLike {k w : Kind} (hw : w.isFixed = true) (h : k.isLike w = true) : k = w := by
  cases w <;> cases k <;> simp_all [isLike, isFixed]

/-- A fixed kind is like itself. -/
theorem isLike_self {w : Kind} (hw : w.isFixed = true) : w.isLike w = true := by
  cases w <;> simp_all [isLike, isFixed]

/-- A kind is like a fixed one exactly when it is the same. -/
theorem isLike_iff {k w : Kind} (hw : w.isFixed = true) : k.isLike w = true ↔ k = w := by
  constructor
  · exact eq_of_isLike hw
  · rintro rfl
    exact isLike_self hw

/-- Another kind is not like a fixed one. -/
theorem isLike_eq_false {k w : Kind} (hw : w.isFixed = true) (h : k ≠ w) : k.isLike w = false := by
  rwa [← Bool.not_eq_true, isLike_iff hw]

/-- Only the end of the text is like it. -/
theorem isLike_eof_iff {k : Kind} : k.isLike .eof = true ↔ k = .eof := by
  cases k <;> simp [isLike]

/-- A fixed kind is not the end of the text. -/
theorem ne_eof_of_isFixed {k : Kind} (h : k.isFixed = true) : k ≠ .eof := by
  rintro rfl
  cases h

end Kind

namespace Reader

variable {r r' r₁ : Reader} {t : Token} {ts us : List Token}

/-! ## Looking ahead -/

/-- A look ahead shows the token that is taken next, and leaves everything that is taken as it is. -/
theorem next_of_peek (h : r.peek = (.ok t, r')) : r'.next = r.next ∧ ∃ r₁, r.next = (.ok t, r₁) := by
  unfold peek at h
  split at h
  · rename_i u us hp
    simp only [Prod.mk.injEq, Except.ok.injEq] at h
    obtain ⟨rfl, rfl⟩ := h
    refine ⟨rfl, { r with pending := us }, ?_⟩
    rw [next, hp]
  · rename_i hp
    have hnext : r.next = r.scan := by rw [next, hp]
    split at h
    · rename_i u r₁ hs
      simp only [Prod.mk.injEq, Except.ok.injEq] at h
      obtain ⟨rfl, rfl⟩ := h
      rw [hnext, hs]
      exact ⟨rfl, r₁, rfl⟩
    · simp at h

/-- A look ahead fails where taking a token does. -/
theorem next_of_peek_fault {f : Fault} (h : r.peek = (.error f, r')) : r.next = (.error f, r') := by
  unfold peek at h
  split at h
  · simp at h
  · rename_i hp
    split at h
    · simp at h
    · rename_i g r₁ hs
      simp only [Prod.mk.injEq, Except.error.injEq] at h
      obtain ⟨rfl, rfl⟩ := h
      rw [next, hp, hs]

/-- What a look ahead shows is what is taken next. -/
theorem peek_of_next (h : r.next = (.ok t, r₁)) : ∃ r', r.peek = (.ok t, r') ∧ r'.next = r.next := by
  cases hp : r.peek with
  | mk x r' =>
    cases x with
    | ok u =>
      obtain ⟨hn, r₂, hu⟩ := next_of_peek hp
      rw [h] at hu
      obtain ⟨hut, -⟩ := Prod.mk.inj hu
      obtain rfl := Except.ok.inj hut
      exact ⟨r', rfl, hn⟩
    | error f =>
      rw [next_of_peek_fault hp] at h
      simp at h

/-- At the end of the text the end of the text is read. -/
theorem scan_of_rest_nil (h : r.rest = []) : r.scan = (.ok ⟨.eof, ⟨r.offset, r.offset⟩⟩, r) := by
  rw [scan]
  split
  · rfl
  · rename_i hcons
    rw [h] at hcons
    cases hcons

/-- What is read where that piece is the first of the text: layout is passed over, a fault reported and a token classified. -/
def read (r : Reader) (p : Piece) : Except Fault Token × Reader :=
  let span : Span := ⟨r.offset, r.offset + byteSize p.text⟩
  match p.lexeme with
  | .layout => (r.skip p).scan
  | .fault => (.error ⟨String.ofList p.text, span⟩, r.skip p)
  | .token kind => (.ok ((r.skip p).classify kind span).1, ((r.skip p).classify kind span).2)

/-- Before the end of the text its first piece is read. -/
theorem scan_of_rest_cons {c : Char} {cs : List Char} (h : r.rest = c :: cs) : r.scan = r.read (Piece.first c cs) := by
  rw [scan]
  split
  · rename_i hnil
    rw [h] at hnil
    cases hnil
  · rename_i c' cs' hcons
    rw [h] at hcons
    cases hcons
    rfl

/-! ## What lies between two readers -/

/-- The tokens that lie between two readers: they are taken one after the other, and none of them is the end of the text. -/
inductive Reads : Reader → List Token → Reader → Prop
  | same {r r' : Reader} (h : r'.next = r.next) : Reads r [] r'
  | take {r r₁ r' : Reader} {t : Token} {ts : List Token} (h : r.next = (.ok t, r₁)) (ht : t.kind ≠ .eof)
      (hs : Reads r₁ ts r') : Reads r (t :: ts) r'

/-- No token lies between a reader and itself. -/
theorem Reads.refl (r : Reader) : Reads r [] r := .same rfl

/-- Readers with no token in between take the same next token. -/
theorem Reads.next_eq (h : Reads r [] r') : r'.next = r.next := by
  cases h with
  | same hn => exact hn

/-- A token that is taken lies between two readers. -/
theorem Reads.single (h : r.next = (.ok t, r')) (ht : t.kind ≠ .eof) : Reads r [t] r' := .take h ht (.refl r')

/-- What lies between readers adds up. -/
theorem Reads.trans {r₂ : Reader} (h : Reads r ts r₁) (h' : Reads r₁ us r₂) : Reads r (ts ++ us) r₂ := by
  induction h with
  | same hn =>
    cases h' with
    | same hn' => exact .same (hn'.trans hn)
    | take hnext ht hs => exact .take (hn ▸ hnext) ht hs
  | take hnext ht _ ih => exact .take hnext ht (ih h')

/-- What lies between two readers can be taken apart anywhere. -/
theorem Reads.of_append (h : Reads r (ts ++ us) r') : ∃ r₁, Reads r ts r₁ ∧ Reads r₁ us r' := by
  induction ts generalizing r with
  | nil => exact ⟨r, .refl r, h⟩
  | cons t ts ih =>
    cases h with
    | take hnext ht hs =>
      obtain ⟨r₁, h₁, h₂⟩ := ih hs
      exact ⟨r₁, .take hnext ht h₁, h₂⟩

/-! ## What lies ahead -/

/-- The tokens ahead are the next one and those behind it. -/
theorem drain_of_next (h : r.next = (.ok t, r')) :
    r.drain = if t.kind = .eof then .ok [t] else r'.drain.map (t :: ·) := by
  rw [drain]
  split
  · rename_i f r₁ hf
    rw [h] at hf
    simp at hf
  · rename_i u r₁ hu
    rw [h] at hu
    simp only [Prod.mk.injEq, Except.ok.injEq] at hu
    obtain ⟨rfl, rfl⟩ := hu
    by_cases ht : t.kind = .eof <;> simp [ht]

/-- A fault that comes next ends what lies ahead. -/
theorem drain_of_fault {f : Fault} (h : r.next = (.error f, r')) : r.drain = .error f := by
  rw [drain]
  split
  · rename_i hf
    rw [h] at hf
    simp only [Prod.mk.injEq, Except.error.injEq] at hf
    rw [hf.1]
  · rename_i hu
    rw [h] at hu
    simp at hu

/-- What lies ahead of a reader, found in at most so many steps. -/
def drainWithin : Nat → Reader → Option (Except Fault (List Token))
  | 0, _ => none
  | n + 1, r =>
    match r.next with
    | (.error f, _) => some (.error f)
    | (.ok t, r') => if t.kind = .eof then some (.ok [t]) else (drainWithin n r').map fun x => x.map (t :: ·)

/-- Draining a reader in so many steps gives all that lies ahead. -/
theorem drain_of_drainWithin {n : Nat} {x : Except Fault (List Token)} (h : drainWithin n r = some x) : r.drain = x := by
  induction n generalizing r x with
  | zero => cases h
  | succ n ih =>
    rw [drainWithin] at h
    split at h
    · rename_i f r' hf
      rw [drain_of_fault hf]
      exact Option.some.inj h
    · rename_i t r' ht
      rw [drain_of_next ht]
      split at h
      · rename_i hk
        rw [if_pos hk]
        exact Option.some.inj h
      · rename_i hk
        obtain ⟨y, hy, hx⟩ := Option.map_eq_some_iff.1 h
        rw [if_neg hk, ih hy, hx]

/-- What lies ahead of a reader follows from what is taken next. -/
theorem drain_congr (h : r'.next = r.next) : r'.drain = r.drain := by
  cases hn : r.next with
  | mk x r₁ =>
    cases x with
    | ok t => rw [drain_of_next hn, drain_of_next (h.trans hn)]
    | error f => rw [drain_of_fault hn, drain_of_fault (h.trans hn)]

/-- What lies ahead of a reader is what lies between it and another, followed by what lies ahead of that one. -/
theorem Reads.drain (h : Reads r ts r') : r.drain = r'.drain.map (ts ++ ·) := by
  induction h with
  | @same r r' hn =>
    rw [drain_congr hn]
    cases r.drain <;> rfl
  | @take r r₁ r' t ts hnext ht _ ih =>
    rw [drain_of_next hnext, if_neg ht, ih]
    cases r'.drain <;> rfl

/-- What lies ahead begins with the token that is taken next, and ends there if that is the end of the text. -/
theorem next_of_drain (h : r.drain = .ok ts) :
    ∃ t r', r.next = (.ok t, r') ∧ (t.kind = .eof ∧ ts = [t] ∨ t.kind ≠ .eof ∧ ∃ us, r'.drain = .ok us ∧ ts = t :: us) := by
  cases hn : r.next with
  | mk x r₁ =>
    cases x with
    | error f =>
      rw [drain_of_fault hn] at h
      cases h
    | ok t =>
      refine ⟨t, r₁, rfl, ?_⟩
      rw [drain_of_next hn] at h
      by_cases ht : t.kind = .eof
      · rw [if_pos ht] at h
        exact .inl ⟨ht, (Except.ok.inj h).symm⟩
      · rw [if_neg ht] at h
        cases hd : r₁.drain with
        | error f =>
          rw [hd] at h
          cases h
        | ok us =>
          rw [hd] at h
          exact .inr ⟨ht, us, rfl, (Except.ok.inj h).symm⟩

/-- The first of the tokens that lie ahead is taken next, and the others lie ahead of the reader after it. -/
theorem next_of_drain_cons (h : r.drain = .ok (t :: ts)) (ht : t.kind ≠ .eof) :
    ∃ r', r.next = (.ok t, r') ∧ r'.drain = .ok ts := by
  obtain ⟨u, r', hn, ⟨hu, he⟩ | ⟨-, us, hd, he⟩⟩ := next_of_drain h
  · obtain ⟨rfl, -⟩ := List.cons.inj he
    exact absurd hu ht
  · obtain ⟨rfl, rfl⟩ := List.cons.inj he
    exact ⟨r', hn, hd⟩

/-- A look ahead shows the first of the tokens that lie ahead, and leaves them there. -/
theorem peek_of_drain_cons (h : r.drain = .ok (t :: ts)) : ∃ r', r.peek = (.ok t, r') ∧ r'.drain = .ok (t :: ts) := by
  obtain ⟨u, r₁, hn, hu⟩ := next_of_drain h
  obtain ⟨r', hp, hnext⟩ := peek_of_next hn
  have htu : t = u := by
    rcases hu with ⟨-, he⟩ | ⟨-, us, -, he⟩
    · exact (List.cons.inj he).1
    · exact (List.cons.inj he).1
  rw [htu] at h ⊢
  exact ⟨r', hp, (drain_congr hnext).trans h⟩

/-- Something always lies ahead. -/
theorem drain_ne_nil : r.drain ≠ .ok [] := by
  intro h
  obtain ⟨t, r', -, ⟨-, he⟩ | ⟨-, us, -, he⟩⟩ := next_of_drain h
  · cases he
  · cases he

/-! ## How much lies ahead -/

/-- How many tokens can be taken before the end of the text or a fault. -/
def left (r : Reader) : Nat :=
  match _h : r.next with
  | (.error _, _) => 0
  | (.ok t, r') => if _ht : t.kind = .eof then 0 else left r' + 1
termination_by r.size
decreasing_by exact next_size ‹_› ‹_›

/-- A token that comes next is one more that is ahead, unless it is the end of the text. -/
theorem left_of_next (h : r.next = (.ok t, r')) : r.left = if t.kind = .eof then 0 else r'.left + 1 := by
  rw [left]
  split
  · rename_i hf
    rw [h] at hf
    simp at hf
  · rename_i u r₁ hu
    rw [h] at hu
    simp only [Prod.mk.injEq, Except.ok.injEq] at hu
    obtain ⟨rfl, rfl⟩ := hu
    by_cases ht : t.kind = .eof <;> simp [ht]

/-- With a fault next, no token is ahead. -/
theorem left_of_fault {f : Fault} (h : r.next = (.error f, r')) : r.left = 0 := by
  rw [left]
  split
  · rfl
  · rename_i hu
    rw [h] at hu
    simp at hu

/-- What lies between two readers is no longer ahead of the second. -/
theorem Reads.left_eq (h : Reads r ts r') : r.left = ts.length + r'.left := by
  induction h with
  | @same r r' hn =>
    cases hr : r.next with
    | mk x r₁ =>
      cases x with
      | ok t => rw [left_of_next hr, left_of_next (hn.trans hr), List.length_nil, Nat.zero_add]
      | error f => rw [left_of_fault hr, left_of_fault (hn.trans hr), List.length_nil]
  | take hnext ht _ ih => rw [left_of_next hnext, if_neg ht, ih, List.length_cons, Nat.add_right_comm]

/-- The size of a reader bounds how much lies ahead. -/
theorem left_le_size (r : Reader) : r.left ≤ r.size := by
  fun_induction left r with
  | case1 => exact Nat.zero_le _
  | case2 => exact Nat.zero_le _
  | case3 r t r' hnext ht ih =>
    have hsize := next_size hnext ht
    omega

/-- The tokens ahead are those that can be taken and the end of the text. -/
theorem length_of_drain (h : r.drain = .ok ts) : ts.length = r.left + 1 := by
  induction ts generalizing r with
  | nil => exact absurd h drain_ne_nil
  | cons t ts ih =>
    obtain ⟨u, r', hu, ⟨hk, he⟩ | ⟨hk, us, hus, he⟩⟩ := next_of_drain h
    · rw [he, left_of_next hu, if_pos hk, List.length_singleton]
    · obtain ⟨-, rfl⟩ := List.cons.inj he
      rw [left_of_next hu, if_neg hk, List.length_cons, ih hus]

end Reader

end Gradual
