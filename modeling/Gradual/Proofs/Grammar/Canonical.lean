import Mathlib
import Gradual.Grammar.Expr
import Gradual.Proofs.Grammar.Kinds
import Gradual.Proofs.Tree.Grouping
import Gradual.Proofs.Tree.Spanless

/-!
# Canonical expressions are read back

An expression is canonical when it is grouped as the parser groups, so that its tokens tell where its parts begin and end. The
parser reads such an expression in three layers: an operand up to the members, keys and method calls after it (`IsChained`), an
operand with its leading operators (`IsOperand`), and an expression up to the operators after it (`IsClimbed`). A layer that goes
on in a loop is described by what the loop makes of the rest, once the expression has been read: a step of the loop is then the
same statement about a larger expression.
-/

namespace Gradual

open Gradual.Parser (Parses parses_peek parses_next parses_check parses_expect parses_expectName parses_nameOf parses_bounded
  parses_listUntil commaKinds length_le_commaKinds)
open Phrase (listed slotsOf yieldOf)

/-! ## What expressions are written with -/

namespace Phrase

@[simp] theorem yieldOf_nil : yieldOf [] = [] := rfl

@[simp] theorem yieldOf_slot (s : Slot) (ps : List Phrase) : yieldOf (.slot s :: ps) = s.kinds ++ yieldOf ps := rfl

@[simp] theorem yieldOf_node (span : Span) (parts ps : List Phrase) :
    yieldOf (.node span parts :: ps) = yieldOf parts ++ yieldOf ps := by
  simp [yieldOf, slotsOf, slots]

@[simp] theorem yieldOf_append (ps qs : List Phrase) : yieldOf (ps ++ qs) = yieldOf ps ++ yieldOf qs := by
  induction ps with
  | nil => rfl
  | cons p ps ih =>
    simp only [yieldOf, slotsOf, List.cons_append, List.flatMap_append, List.append_assoc] at ih ⊢
    rw [ih]

/-- Phrases yield their tokens one after the other. -/
theorem yieldOf_cons (p : Phrase) (ps : List Phrase) : yieldOf (p :: ps) = yieldOf [p] ++ yieldOf ps :=
  yieldOf_append [p] ps

/-- Phrases with commas in between yield their tokens with commas in between. -/
theorem yieldOf_intersperse (ps : List Phrase) :
    yieldOf (ps.intersperse (.mark .comma)) = commaKinds (ps.map fun p => yieldOf [p]) := by
  induction ps with
  | nil => rfl
  | cons p ps ih =>
    cases ps with
    | nil => simp
    | cons q ps =>
      rw [List.intersperse_cons_cons, yieldOf_cons, yieldOf_slot, ih]
      simp [Slot.kinds]

/-- A list of phrases yields their tokens with commas in between. -/
theorem yieldOf_listed (ps : List Phrase) : yieldOf (listed ps) = commaKinds (ps.map fun p => yieldOf [p]) := by
  rw [listed, yieldOf_append, yieldOf_intersperse]
  cases ps <;> simp [Slot.kinds]

end Phrase

namespace Expr

attribute [local simp] parts

/-- An expression yields the tokens of its parts. -/
theorem yield_eq (e : Expr) : e.yield = yieldOf e.parts := by
  simp [yield, phrase]

@[simp] theorem yieldOf_listed_phrase (es : List Expr) : yieldOf (listed (es.map phrase)) = commaKinds (es.map yield) := by
  rw [Phrase.yieldOf_listed, List.map_map]
  rfl

@[simp] theorem yield_literal (v : Literal) (span : Span) : (literal v span).yield = [v.kind] := by
  simp [yield_eq, Slot.kinds]

@[simp] theorem yield_name (n : String) (span : Span) : (name n span).yield = [.name n] := by
  simp [yield_eq, Slot.kinds]

@[simp] theorem yield_binary (op : BinaryOp) (l r : Expr) (span : Span) :
    (binary op l r span).yield = l.yield ++ op.kind :: r.yield := by
  simp [yield_eq, Slot.kinds]

@[simp] theorem yield_unary (op : UnaryOp) (e : Expr) (span : Span) : (unary op e span).yield = op.kind :: e.yield := by
  simp [yield_eq, Slot.kinds]

@[simp] theorem yield_call (f : String) (args : List Expr) (span : Span) :
    (call f args span).yield = .name f :: .mark .lparen :: (commaKinds (args.map yield) ++ [.mark .rparen]) := by
  simp [yield_eq, Slot.kinds]

@[simp] theorem yield_methodCall (threading : Threading) (receiver : Expr) (m : String) (args : List Expr) (span : Span) :
    (methodCall threading receiver m args span).yield = receiver.yield ++ .mark threading.mark :: .name m :: .mark .lparen ::
      (commaKinds (args.map yield) ++ [.mark .rparen]) := by
  simp [yield_eq, Slot.kinds]

@[simp] theorem yield_member (target : Expr) (field : String) (span : Span) :
    (member target field span).yield = target.yield ++ [.mark .dot, .name field] := by
  simp [yield_eq, Slot.kinds]

@[simp] theorem yield_get (collection key : Expr) (span : Span) :
    (get collection key span).yield = collection.yield ++ .mark .lbracket :: (key.yield ++ [.mark .rbracket]) := by
  simp [yield_eq, Slot.kinds]

@[simp] theorem yield_vector (items : List Expr) (span : Span) :
    (vector items span).yield = .mark .lbracket :: (commaKinds (items.map yield) ++ [.mark .rbracket]) := by
  simp [yield_eq, Slot.kinds]

@[simp] theorem yield_paren (e : Expr) (span : Span) :
    (paren e span).yield = .mark .lparen :: (e.yield ++ [.mark .rparen]) := by
  simp [yield_eq, Slot.kinds]

end Expr

/-! ## Canonical expressions -/

/-- An expression without blocks that is grouped throughout and has keys only after names, members and other keys. -/
inductive Expr.Canonical : Expr → Prop
  | literal (v : Literal) (span : Span) : Canonical (.literal v span)
  | name (n : String) (span : Span) : Canonical (.name n span)
  | binary {op : BinaryOp} {l r : Expr} {span : Span} (h : (Expr.binary op l r span).IsGrouped) (hl : Canonical l)
      (hr : Canonical r) : Canonical (.binary op l r span)
  | unary {op : UnaryOp} {e : Expr} {span : Span} (h : (Expr.unary op e span).IsGrouped) (he : Canonical e) :
      Canonical (.unary op e span)
  | call {f : String} {args : List Expr} {span : Span} (hargs : ∀ a ∈ args, Canonical a) : Canonical (.call f args span)
  | methodCall {threading : Threading} {receiver : Expr} {m : String} {args : List Expr} {span : Span}
      (h : (Expr.methodCall threading receiver m args span).IsGrouped) (hreceiver : Canonical receiver)
      (hargs : ∀ a ∈ args, Canonical a) : Canonical (.methodCall threading receiver m args span)
  | member {target : Expr} {field : String} {span : Span} (h : (Expr.member target field span).IsGrouped)
      (htarget : Canonical target) : Canonical (.member target field span)
  | get {collection key : Expr} {span : Span} (h : (Expr.get collection key span).IsGrouped) (hkeyed : collection.isKeyed = true)
      (hcollection : Canonical collection) (hkey : Canonical key) : Canonical (.get collection key span)
  | vector {items : List Expr} {span : Span} (hitems : ∀ a ∈ items, Canonical a) : Canonical (.vector items span)
  | paren {e : Expr} {span : Span} (he : Canonical e) : Canonical (.paren e span)

/-- The token of a literal is no mark. -/
theorem Literal.kind_ne_mark (v : Literal) (m : Mark) : v.kind ≠ .mark m := by
  rcases v with _ | _ | _ | ⟨_ | _⟩ | _ <;> simp [Literal.kind]

/-- A canonical expression begins with a token that closes no bracket. -/
theorem Expr.Canonical.first {e : Expr} (h : e.Canonical) :
    ∃ k ks, e.yield = k :: ks ∧ k ≠ .mark .rparen ∧ k ≠ .mark .rbracket := by
  induction h with
  | literal v span => exact ⟨v.kind, [], by simp, v.kind_ne_mark _, v.kind_ne_mark _⟩
  | name n span => exact ⟨.name n, [], by simp⟩
  | binary h hl hr ihl ihr =>
    obtain ⟨k, ks, hk, hne⟩ := ihl
    exact ⟨k, _, by rw [yield_binary, hk, List.cons_append], hne⟩
  | @unary op e span h he ih =>
    refine ⟨op.kind, e.yield, by simp, ?_⟩
    cases op <;> simp [UnaryOp.kind]
  | @call f args span hargs ih => exact ⟨.name f, _, by rw [yield_call], by simp⟩
  | methodCall h hreceiver hargs ih =>
    obtain ⟨k, ks, hk, hne⟩ := ih
    exact ⟨k, _, by rw [yield_methodCall, hk, List.cons_append], hne⟩
  | member h htarget ih =>
    obtain ⟨k, ks, hk, hne⟩ := ih
    exact ⟨k, _, by rw [yield_member, hk, List.cons_append], hne⟩
  | get h hkeyed hcollection hkey ih =>
    obtain ⟨k, ks, hk, hne⟩ := ih
    exact ⟨k, _, by rw [yield_get, hk, List.cons_append], hne⟩
  | vector hitems ih => exact ⟨.mark .lbracket, _, by rw [yield_vector], by simp⟩
  | paren he ih => exact ⟨.mark .lparen, _, by rw [yield_paren], by simp⟩

/-- A canonical expression yields a token. -/
theorem Expr.Canonical.yield_pos {e : Expr} (h : e.Canonical) : 0 < e.yield.length := by
  obtain ⟨k, ks, hk, -⟩ := h.first
  rw [hk]
  exact Nat.zero_lt_succ _

/-- Whether a token goes on with an operand: a member, a key, or arguments. -/
def Kind.continues : Kind → Bool
  | .mark .dot | .mark .arrow | .mark .lparen | .mark .lbracket => true
  | _ => false

/-- Whether a token begins an operand that is no block and has no operator before it. -/
def Kind.isPlain : Kind → Bool
  | .number _ | .string _ | .symbol _ | .name _ | .keyword .yes | .keyword .no | .keyword .nil | .mark .lparen
  | .mark .lbracket => true
  | _ => false

namespace Grammar

variable {g : Nested} {k : Kind} {ks ls : List Kind} {Q : Expr → Prop} {e : Expr} {n least : Nat}

/-! ## Loops -/

/-- A loop, with a bound that the rest cannot reach, goes on to the end of some rest from any expression that is `e` up
to spans. -/
def GoesOn (loop : Nat → Expr → Parser Expr) (e : Expr) (ks ls : List Kind) (Q : Expr → Prop) : Prop :=
  ∀ e' n, e'.spanless = e.spanless → ks.length ≤ n → Parses ks (loop n e') ls Q

/-- A chain ends where no member, key or arguments follow. -/
theorem goesOn_chain_end (hk : k.continues = false) : GoesOn (chain g) e (k :: ks) (k :: ks) (·.spanless = e.spanless) := by
  intro e' n he' hn
  cases n with
  | zero => simp at hn
  | succ n =>
    refine parses_peek.bind ?_
    intro t ht
    rw [ht]
    split
    · cases hk
    · cases hk
    · cases hk
    · exact .pure he'

/-- A run of operators ends before an operator that binds less tightly. -/
theorem goesOn_climb_end (hk : ∀ op ∈ binaryOp? k, op.precedence < least) :
    GoesOn (climb g least) e (k :: ks) (k :: ks) (·.spanless = e.spanless) := by
  intro e' n he' hn
  cases n with
  | zero => simp at hn
  | succ n =>
    refine parses_peek.bind ?_
    intro t ht
    rw [ht]
    split
    · exact .pure he'
    · rename_i op hop
      rw [if_pos (hk op hop)]
      exact .pure he'

/-! ## Inside brackets -/

/-- An expression is read where a comma or a closing bracket follows it. -/
def ReadsInside (g : Nested) (e : Expr) : Prop :=
  ∀ m ∈ [Mark.comma, .rparen, .rbracket], ∀ ks, Parses (e.yield ++ .mark m :: ks) (g.expr 0) (.mark m :: ks)
    (·.spanless = e.spanless)

/-- Items up to a closing mark are read back. -/
theorem parses_items {close : Mark} (hclose : close ∈ [Mark.rparen, .rbracket]) {es : List Expr}
    (hcanonical : ∀ e ∈ es, e.Canonical) (hes : ∀ e ∈ es, ReadsInside g e) :
    Parses (commaKinds (es.map Expr.yield) ++ .mark close :: ks) (Parser.bounded (Parser.listUntil (.mark close) (g.expr 0)))
      (.mark close :: ks) (·.map Expr.spanless = es.map Expr.spanless) := by
  refine parses_bounded fun n hn => parses_listUntil ?_ ?_ ?_ hn
  · rintro rfl
    simp at hclose
  · intro e he m hm ks
    refine hes e he m ?_ ks
    simp only [List.mem_cons, List.not_mem_nil, or_false] at hm hclose ⊢
    rcases hm with rfl | rfl
    · exact .inl rfl
    · exact .inr hclose
  · intro e he
    obtain ⟨k, ks, hk, hparen, hbracket⟩ := (hcanonical e he).first
    refine ⟨k, ks, hk, ?_⟩
    simp only [List.mem_cons, List.not_mem_nil, or_false] at hclose
    rcases hclose with rfl | rfl
    · exact hparen
    · exact hbracket

/-- Arguments in parentheses are read back. -/
theorem parses_arguments {args : List Expr} (hcanonical : ∀ a ∈ args, a.Canonical) (hargs : ∀ a ∈ args, ReadsInside g a) :
    Parses (.mark .lparen :: (commaKinds (args.map Expr.yield) ++ .mark .rparen :: ks)) (arguments g) ks
      (·.1.map Expr.spanless = args.map Expr.spanless) := by
  refine (parses_expect rfl).bind ?_
  intro _ _
  refine (parses_items (by simp) hcanonical hargs).bind ?_
  intro as has
  exact (parses_expect rfl).bind fun close _ => .pure has

/-- The arguments of a method call are read after its name. -/
theorem parses_methodCall {threading : Threading} {m : String} {args : List Expr} (hcanonical : ∀ a ∈ args, a.Canonical)
    (hargs : ∀ a ∈ args, ReadsInside g a) :
    Parses (.mark .lparen :: (commaKinds (args.map Expr.yield) ++ .mark .rparen :: ks)) (methodCall g threading e m) ks
      (fun x => x.spanless = .methodCall threading e.spanless m (spanlessExprs args) .nowhere) := by
  refine parses_peek.bind ?_
  intro t ht
  rw [ht]
  refine (parses_arguments hcanonical hargs).bind fun x hx => .pure ?_
  rw [Expr.spanless, spanlessExprs_eq_map, spanlessExprs_eq_map, hx]

/-! ## Steps of the loops -/

/-- A chain goes on from a target to its member, unless the member is called. -/
theorem goesOn_member {target : Expr} {field : String} {span : Span} (hk : k ≠ .mark .lparen)
    (h : GoesOn (chain g) (.member target field span) (k :: ks) ls Q) :
    GoesOn (chain g) target (.mark .dot :: .name field :: k :: ks) ls Q := by
  intro e' n he' hn
  cases n with
  | zero => simp at hn
  | succ n =>
    refine parses_peek.bind ?_
    intro t ht
    rw [ht]
    refine (parses_next (by simp)).bind ?_
    intro _ _
    refine (parses_next (by simp)).bind ?_
    intro name hname
    refine (parses_nameOf hname).bind ?_
    rintro _ rfl
    refine parses_check.bind ?_
    rintro _ rfl
    rw [Kind.isLike_eq_false rfl hk]
    refine h _ n ?_ ?_
    · rw [Expr.spanless, Expr.spanless, he']
    · simp only [List.length_cons] at hn ⊢
      omega

/-- A chain goes on from a receiver to a method call on it. -/
theorem goesOn_methodCall {threading : Threading} {receiver : Expr} {m : String} {args : List Expr} {span : Span}
    (hcanonical : ∀ a ∈ args, a.Canonical) (hargs : ∀ a ∈ args, ReadsInside g a)
    (h : GoesOn (chain g) (.methodCall threading receiver m args span) (k :: ks) ls Q) :
    GoesOn (chain g) receiver (.mark threading.mark :: .name m :: .mark .lparen ::
      (commaKinds (args.map Expr.yield) ++ .mark .rparen :: k :: ks)) ls Q := by
  intro e' n he' hn
  cases n with
  | zero => simp at hn
  | succ n =>
    have hcall : Parses (.mark .lparen :: (commaKinds (args.map Expr.yield) ++ .mark .rparen :: k :: ks))
        (methodCall g threading e' m >>= chain g n) ls Q := by
      refine (parses_methodCall hcanonical hargs).bind ?_
      intro call hcall
      refine h call n ?_ ?_
      · rw [hcall, he', Expr.spanless]
      · simp only [List.length_cons, List.length_append] at hn ⊢
        omega
    refine parses_peek.bind ?_
    intro t ht
    rw [ht]
    cases threading with
    | first =>
      refine (parses_next (by simp)).bind ?_
      intro _ _
      refine (parses_next (by simp)).bind ?_
      intro name hname
      refine (parses_nameOf hname).bind ?_
      rintro _ rfl
      refine parses_check.bind ?_
      rintro _ rfl
      exact hcall
    | last =>
      refine (parses_next (by simp)).bind ?_
      intro _ _
      refine parses_expectName.bind ?_
      rintro _ rfl
      exact hcall

/-- A chain goes on from a collection to one of its keys. -/
theorem goesOn_get {collection key : Expr} {span : Span} (hkeyed : collection.isKeyed = true) (hkey : ReadsInside g key)
    (h : GoesOn (chain g) (.get collection key span) (k :: ks) ls Q) :
    GoesOn (chain g) collection (.mark .lbracket :: (key.yield ++ .mark .rbracket :: k :: ks)) ls Q := by
  intro e' n he' hn
  have hkeyed' : e'.isKeyed = true := by rw [← Expr.isKeyed_spanless, he', Expr.isKeyed_spanless, hkeyed]
  cases n with
  | zero => simp at hn
  | succ n =>
    refine parses_peek.bind ?_
    intro t ht
    rw [ht]
    dsimp only
    rw [if_pos hkeyed']
    refine (parses_next (by simp)).bind ?_
    intro _ _
    refine (hkey .rbracket (by simp) _).bind ?_
    intro key' hkey'
    refine (parses_expect rfl).bind ?_
    intro close _
    refine h _ n ?_ ?_
    · rw [Expr.spanless, Expr.spanless, he', hkey']
    · simp only [List.length_cons, List.length_append] at hn ⊢
      omega

/-- A run of operators takes one in that binds tightly enough, with its right operand. -/
theorem goesOn_binary {op : BinaryOp} {l r : Expr} {span : Span} (hleast : least ≤ op.precedence)
    (hr : Parses (r.yield ++ k :: ks) (g.expr (op.precedence + 1)) (k :: ks) (·.spanless = r.spanless))
    (h : GoesOn (climb g least) (.binary op l r span) (k :: ks) ls Q) :
    GoesOn (climb g least) l (op.kind :: (r.yield ++ k :: ks)) ls Q := by
  intro l' n hl' hn
  have hop : binaryOp? op.kind = some op := by cases op <;> rfl
  have hne : op.kind ≠ .eof := by cases op <;> simp [BinaryOp.kind]
  cases n with
  | zero => simp at hn
  | succ n =>
    refine parses_peek.bind ?_
    intro t ht
    rw [ht, hop]
    dsimp only
    rw [if_neg (Nat.not_lt.2 hleast)]
    refine (parses_next hne).bind ?_
    intro _ _
    refine hr.bind ?_
    intro r' hr'
    refine h _ n ?_ ?_
    · rw [Expr.spanless, Expr.spanless, hl', hr']
    · simp only [List.length_cons, List.length_append] at hn ⊢
      omega

/-! ## Operands and operators -/

/-- An operand is read up to the members, keys and method calls after it. No parenthesis follows: after a name or a member it
begins arguments, so the expression would be another one. -/
def IsChained (e : Expr) : Prop :=
  ∀ (n : Nat) (k : Kind) (ks ls : List Kind) (Q : Expr → Prop), e.yield.length ≤ n + 1 → k ≠ .mark .lparen →
    GoesOn (chain (.within n)) e (k :: ks) ls Q → Parses (e.yield ++ k :: ks) (unary (.within n)) ls Q

/-- An operand is read where no more belongs to it. -/
def IsOperand (e : Expr) : Prop :=
  ∀ (n : Nat) (k : Kind) (ks : List Kind), e.yield.length ≤ n + 1 → k.continues = false →
    Parses (e.yield ++ k :: ks) (unary (.within n)) (k :: ks) (·.spanless = e.spanless)

/-- An expression is read up to the operators after it, those that do not bind tighter than its own. -/
def IsClimbed (e : Expr) : Prop :=
  ∀ (n least : Nat) (k : Kind) (ks ls : List Kind) (Q : Expr → Prop), e.yield.length ≤ n + 1 → k.continues = false →
    (∀ o ∈ e.operator?, least ≤ o.precedence ∧ ∀ p ∈ binaryOp? k, p.precedence ≤ o.precedence) →
    GoesOn (climb (.within n) least) e (k :: ks) ls Q → Parses (e.yield ++ k :: ks) (exprStep (.within n) least) ls Q

/-- An expression with its members, keys and method calls is an operand. -/
theorem IsChained.isOperand (h : IsChained e) : IsOperand e := by
  intro n k ks hn hk
  refine h n k ks (k :: ks) _ hn ?_ (goesOn_chain_end hk)
  rintro rfl
  cases hk

/-- An operand is an expression up to the operators after it. -/
theorem IsOperand.isClimbed (h : IsOperand e) : IsClimbed e := by
  intro n least k ks ls Q hn hk _ hloop
  refine (h n k ks hn hk).bind ?_
  intro e' he'
  exact parses_bounded fun m hm => hloop e' m he' hm

/-- An expression is read where operators that bind less tightly than it is asked to follow. -/
theorem IsClimbed.parses (h : IsClimbed e) (hpos : 0 < e.yield.length) (hn : e.yield.length ≤ n) (hk : k.continues = false)
    (hleast : ∀ o ∈ e.operator?, least ≤ o.precedence) (hend : ∀ p ∈ binaryOp? k, p.precedence < least) :
    Parses (e.yield ++ k :: ks) (exprWithin n least) (k :: ks) (·.spanless = e.spanless) := by
  cases n with
  | zero => omega
  | succ n =>
    refine h n least k ks (k :: ks) _ hn hk ?_ (goesOn_climb_end hend)
    intro o ho
    refine ⟨hleast o ho, ?_⟩
    intro p hp
    have hlow := hleast o ho
    have hhigh := hend p hp
    omega

/-- An expression that is read up to the operators after it is read inside a production that is nested deep enough. -/
theorem IsClimbed.readsInside (h : IsClimbed e) (hpos : 0 < e.yield.length) (hn : e.yield.length ≤ n) :
    ReadsInside (.within n) e := by
  intro m hm ks
  have hmark : (Kind.mark m).continues = false ∧ binaryOp? (.mark m) = none := by
    simp only [List.mem_cons, List.not_mem_nil, or_false] at hm
    rcases hm with rfl | rfl | rfl <;> exact ⟨rfl, rfl⟩
  refine h.parses hpos hn hmark.1 (fun o _ => Nat.zero_le _) ?_
  rw [hmark.2]
  intro p hp
  cases hp

/-! ## Each construct -/

/-- An operand that begins with a plain token is read when what follows the token is. -/
theorem isChained_of_primaryFrom {first : Kind} {rest : List Kind} (hfirst : first.isPlain = true) (hy : e.yield = first :: rest)
    (h : ∀ (n : Nat) (k : Kind) (ks : List Kind) (t : Token), rest.length ≤ n → k ≠ .mark .lparen → t.kind = first →
      Parses (rest ++ k :: ks) (primaryFrom (.within n) t) (k :: ks) (·.spanless = e.spanless)) : IsChained e := by
  intro n k ks ls Q hn hk hloop
  rw [hy, List.length_cons] at hn
  rw [hy, List.cons_append]
  have hunary : unaryOp? first = none := by
    unfold unaryOp?
    split <;> first | cases hfirst | rfl
  have hprimary : Parses (first :: (rest ++ k :: ks)) (primary (.within n)) (k :: ks) (·.spanless = e.spanless) := by
    refine parses_peek.bind ?_
    intro t ht
    rw [ht]
    have hnext : Parses (first :: (rest ++ k :: ks)) (Parser.next >>= primaryFrom (.within n)) (k :: ks)
        (·.spanless = e.spanless) := by
      refine (parses_next ?_).bind fun u hu => h n k ks u (by omega) hk hu
      rintro rfl
      cases hfirst
    split <;> first | cases hfirst | exact hnext
  refine parses_peek.bind ?_
  intro t ht
  rw [ht, hunary]
  refine hprimary.bind ?_
  intro e' he'
  exact parses_bounded fun m hm => hloop e' m he' hm

/-- A literal is read back. -/
theorem isChained_literal (v : Literal) (span : Span) : IsChained (.literal v span) := by
  refine isChained_of_primaryFrom ?_ (Expr.yield_literal v span) ?_
  · rcases v with _ | _ | _ | ⟨_ | _⟩ | _ <;> rfl
  · intro n k ks t _ _ ht
    rw [primaryFrom, ht]
    rcases v with _ | _ | _ | ⟨_ | _⟩ | _ <;> exact .pure rfl

/-- A name is read back. -/
theorem isChained_name (m : String) (span : Span) : IsChained (.name m span) := by
  refine isChained_of_primaryFrom rfl (Expr.yield_name m span) ?_
  intro n k ks t _ hk ht
  rw [primaryFrom, ht]
  refine parses_check.bind ?_
  rintro _ rfl
  rw [Kind.isLike_eq_false rfl hk]
  exact .pure rfl

/-- The items of a list are read when nothing in them is nested deeper than the list is long. -/
theorem readsInside_items {es : List Expr} (hcanonical : ∀ e ∈ es, e.Canonical) (hes : ∀ e ∈ es, IsClimbed e)
    (hn : (commaKinds (es.map Expr.yield)).length ≤ n) : ∀ e ∈ es, ReadsInside (.within n) e := by
  intro e he
  have hlength := length_le_commaKinds (List.mem_map_of_mem (f := Expr.yield) he)
  exact (hes e he).readsInside (hcanonical e he).yield_pos (Nat.le_trans hlength hn)

/-- A call of canonical arguments is read back. -/
theorem isChained_call {f : String} {args : List Expr} {span : Span} (hcanonical : ∀ a ∈ args, a.Canonical)
    (hargs : ∀ a ∈ args, IsClimbed a) : IsChained (.call f args span) := by
  refine isChained_of_primaryFrom rfl (Expr.yield_call f args span) ?_
  intro n k ks t hn hk ht
  simp only [List.length_cons, List.length_append] at hn
  rw [primaryFrom, ht, List.cons_append, List.append_assoc]
  refine parses_check.bind ?_
  rintro _ rfl
  refine (parses_arguments hcanonical (readsInside_items hcanonical hargs (by omega))).bind fun x hx => .pure ?_
  rw [Expr.spanless, Expr.spanless, spanlessExprs_eq_map, spanlessExprs_eq_map, hx]

/-- A vector of canonical items is read back. -/
theorem isChained_vector {items : List Expr} {span : Span} (hcanonical : ∀ a ∈ items, a.Canonical)
    (hitems : ∀ a ∈ items, IsClimbed a) : IsChained (.vector items span) := by
  refine isChained_of_primaryFrom rfl (Expr.yield_vector items span) ?_
  intro n k ks t hn hk ht
  simp only [List.length_cons, List.length_append] at hn
  rw [primaryFrom, ht, List.append_assoc]
  refine (parses_items (by simp) hcanonical (readsInside_items hcanonical hitems (by omega))).bind ?_
  intro es hes
  refine (parses_expect rfl).bind fun close _ => .pure ?_
  rw [Expr.spanless, Expr.spanless, spanlessExprs_eq_map, spanlessExprs_eq_map, hes]

/-- A canonical expression in parentheses is read back. -/
theorem isChained_paren {span : Span} (hcanonical : e.Canonical) (he : IsClimbed e) : IsChained (.paren e span) := by
  refine isChained_of_primaryFrom rfl (Expr.yield_paren e span) ?_
  intro n k ks t hn hk ht
  simp only [List.length_cons, List.length_append] at hn
  rw [primaryFrom, ht, List.append_assoc]
  refine (he.readsInside hcanonical.yield_pos (by omega) .rparen (by simp) _).bind ?_
  intro e' he'
  refine (parses_expect rfl).bind fun close _ => .pure ?_
  rw [Expr.spanless, Expr.spanless, he']

/-- A member of what is read back is read back. -/
theorem isChained_member {target : Expr} {field : String} {span : Span} (htarget : IsChained target) :
    IsChained (.member target field span) := by
  intro n k ks ls Q hn hk hloop
  simp only [Expr.yield_member, List.length_append] at hn
  simp only [Expr.yield_member, List.append_assoc, List.cons_append, List.nil_append]
  exact htarget n (.mark .dot) _ ls Q (by omega) (by simp) (goesOn_member hk hloop)

/-- A method call on what is read back is read back. -/
theorem isChained_methodCall {threading : Threading} {receiver : Expr} {m : String} {args : List Expr} {span : Span}
    (hcanonical : ∀ a ∈ args, a.Canonical) (hreceiver : IsChained receiver) (hargs : ∀ a ∈ args, IsClimbed a) :
    IsChained (.methodCall threading receiver m args span) := by
  intro n k ks ls Q hn hk hloop
  simp only [Expr.yield_methodCall, List.length_append, List.length_cons] at hn
  simp only [Expr.yield_methodCall, List.append_assoc, List.cons_append, List.nil_append]
  have hmark : Kind.mark threading.mark ≠ .mark .lparen := by cases threading <;> simp [Threading.mark]
  have hinside := readsInside_items hcanonical hargs (n := n) (by omega)
  exact hreceiver n (.mark threading.mark) _ ls Q (by omega) hmark (goesOn_methodCall hcanonical hinside hloop)

/-- A key of what is read back is read back. -/
theorem isChained_get {collection key : Expr} {span : Span} (hkeyed : collection.isKeyed = true) (hcanonical : key.Canonical)
    (hcollection : IsChained collection) (hkey : IsClimbed key) : IsChained (.get collection key span) := by
  intro n k ks ls Q hn hk hloop
  simp only [Expr.yield_get, List.length_append, List.length_cons] at hn
  simp only [Expr.yield_get, List.append_assoc, List.cons_append, List.nil_append]
  have hinside : ReadsInside (.within n) key := hkey.readsInside hcanonical.yield_pos (by omega)
  exact hcollection n (.mark .lbracket) _ ls Q (by omega) (by simp) (goesOn_get hkeyed hinside hloop)

/-- An operator in front of an operand is read back. -/
theorem isOperand_unary {op : UnaryOp} {span : Span} (hcanonical : e.Canonical) (he : IsOperand e) :
    IsOperand (.unary op e span) := by
  intro n k ks hn hk
  rw [Expr.yield_unary, List.length_cons] at hn
  rw [Expr.yield_unary, List.cons_append]
  have hop : unaryOp? op.kind = some op := by cases op <;> rfl
  have hne : op.kind ≠ .eof := by cases op <;> simp [UnaryOp.kind]
  have hpos := hcanonical.yield_pos
  refine parses_peek.bind ?_
  intro t ht
  rw [ht, hop]
  refine (parses_next hne).bind ?_
  intro _ _
  cases n with
  | zero => omega
  | succ n =>
    refine (he n k ks (by omega) hk).bind ?_
    intro e' he'
    refine .pure ?_
    rw [Expr.spanless, Expr.spanless, he']

/-- An operator between operands is read back: the left operand first, then the operator, as the grouping has it. What follows the
right operand binds no tighter than the operator, so it is left to the loop that the operator was taken in by. -/
theorem isClimbed_binary {op : BinaryOp} {l r : Expr} {span : Span} (h : (Expr.binary op l r span).IsGrouped)
    (hcanonical : r.Canonical) (hl : IsClimbed l) (hr : IsClimbed r) : IsClimbed (.binary op l r span) := by
  intro n least k ks ls Q hn hk ho hloop
  obtain ⟨hleast, hend⟩ := ho op rfl
  simp only [Expr.yield_binary, List.length_append, List.length_cons] at hn
  rw [Expr.yield_binary, List.append_assoc, List.cons_append]
  have hop : binaryOp? op.kind = some op := by cases op <;> rfl
  have hcontinues : op.kind.continues = false := by cases op <;> rfl
  have hright : Parses (r.yield ++ k :: ks) (exprWithin n (op.precedence + 1)) (k :: ks) (·.spanless = r.spanless) :=
    hr.parses hcanonical.yield_pos (by omega) hk h.2 fun p hp => Nat.lt_succ_of_le (hend p hp)
  refine hl n least op.kind _ ls Q (by omega) hcontinues ?_ (goesOn_binary hleast hright hloop)
  intro o ho
  have hleft := h.1 o ho
  refine ⟨Nat.le_trans hleast hleft, ?_⟩
  intro p hp
  rw [hop] at hp
  obtain rfl := Option.some.inj hp
  exact hleft

/-! ## The whole -/

/-- Canonical expressions are read, at each level of the grammar that they belong to. -/
theorem reads_of_canonical (h : e.Canonical) :
    (e.isOperation = false → IsChained e) ∧ (e.operator? = none → IsOperand e) ∧ IsClimbed e := by
  have hchained : ∀ {e : Expr}, IsChained e →
      (e.isOperation = false → IsChained e) ∧ (e.operator? = none → IsOperand e) ∧ IsClimbed e :=
    fun h => ⟨fun _ => h, fun _ => h.isOperand, h.isOperand.isClimbed⟩
  induction h with
  | literal v span => exact hchained (isChained_literal v span)
  | name n span => exact hchained (isChained_name n span)
  | binary h hl hr ihl ihr =>
    refine ⟨?_, ?_, isClimbed_binary h hr ihl.2.2 ihr.2.2⟩ <;> intro hop <;> cases hop
  | @unary op e span h he ih =>
    have hoperand : IsOperand (.unary op e span) := isOperand_unary he (ih.2.1 h)
    refine ⟨?_, fun _ => hoperand, hoperand.isClimbed⟩
    intro hop
    cases hop
  | call hargs ih => exact hchained (isChained_call hargs fun a ha => (ih a ha).2.2)
  | methodCall h hreceiver hargs ihr ih =>
    exact hchained (isChained_methodCall hargs (ihr.1 h) fun a ha => (ih a ha).2.2)
  | member h htarget ih => exact hchained (isChained_member (ih.1 h))
  | get h hkeyed hcollection hkey ihc ihk => exact hchained (isChained_get hkeyed hkey (ihc.1 h) ihk.2.2)
  | vector hitems ih => exact hchained (isChained_vector hitems fun a ha => (ih a ha).2.2)
  | paren he ih => exact hchained (isChained_paren he ih.2.2)

end Grammar

/-- A canonical expression is read back from any text of its tokens: the parser yields it, up to spans, and stops at the end. -/
theorem expr_of_yield {e : Expr} (he : e.Canonical) {source : String} {ts : List Token} (hts : tokenize source = .ok ts)
    (hkinds : ts.map (·.kind) = e.yield ++ [.eof]) :
    ∃ e' r, Grammar.expr (Reader.ofSource source) = .ok e' r ∧ e'.spanless = e.spanless ∧
      ∃ t, r.drain = .ok [t] ∧ t.kind = .eof := by
  have hparses : Parses (e.yield ++ [.eof]) Grammar.expr [.eof] (·.spanless = e.spanless) := by
    refine parses_bounded ?_
    intro n hn
    rw [List.length_append] at hn
    refine (Grammar.reads_of_canonical he).2.2.parses he.yield_pos (by omega) rfl (fun o _ => Nat.zero_le _) ?_
    intro p hp
    cases hp
  obtain ⟨e', r, hr, ⟨us, hus, hend⟩, he'⟩ := hparses (Reader.ofSource source) ⟨ts, hts, hkinds⟩
  obtain ⟨t, rfl, ht⟩ := List.map_eq_singleton_iff.1 hend
  exact ⟨e', r, hr, he', t, hus, ht⟩

/-- `f + -a[b].c->m(d) * e - g`, in which the second operand of `+` binds tighter than it and the first operand of `-`
does not. -/
def negatedCall : Expr :=
  .binary .sub
    (.binary .add (.name "f" .nowhere)
      (.binary .mul
        (.unary .neg (.methodCall .last (.member (.get (.name "a" .nowhere) (.name "b" .nowhere) .nowhere) "c" .nowhere) "m"
          [.name "d" .nowhere] .nowhere) .nowhere)
        (.name "e" .nowhere) .nowhere) .nowhere)
    (.name "g" .nowhere) .nowhere

/-- The text is read as the expression, which is canonical. -/
theorem negatedCall_read : negatedCall.Canonical ∧
    ∃ ts, tokenize "f + -a[b].c->m(d) * e - g" = .ok ts ∧ ts.map (·.kind) = negatedCall.yield ++ [.eof] ∧
      ∃ e r, Grammar.expr (Reader.ofSource "f + -a[b].c->m(d) * e - g") = .ok e r ∧ e.spanless = negatedCall.spanless ∧
        ∃ t, r.drain = .ok [t] ∧ t.kind = .eof := by
  have hoperand :
      Expr.Canonical (.unary .neg (.methodCall .last (.member (.get (.name "a" .nowhere) (.name "b" .nowhere) .nowhere)
        "c" .nowhere) "m" [.name "d" .nowhere] .nowhere) .nowhere) := by
    refine .unary rfl (.methodCall rfl (.member rfl (.get rfl rfl (.name _ _) (.name _ _))) ?_)
    intro a ha
    obtain rfl := List.mem_singleton.1 ha
    exact .name _ _
  have hcanonical : negatedCall.Canonical := by
    refine .binary ⟨?_, ?_⟩ (.binary ⟨?_, ?_⟩ (.name _ _) (.binary ⟨?_, ?_⟩ hoperand (.name _ _))) (.name _ _) <;> decide
  have hkinds : (Reader.drainWithin 19 (Reader.ofSource "f + -a[b].c->m(d) * e - g")).map (·.map (·.map (·.kind))) =
      some (.ok (negatedCall.yield ++ [.eof])) := by cbv
  obtain ⟨x, hx, hkinds⟩ := Option.map_eq_some_iff.1 hkinds
  cases x with
  | error f => cases hkinds
  | ok ts =>
    have hts : tokenize "f + -a[b].c->m(d) * e - g" = .ok ts := Reader.drain_of_drainWithin hx
    exact ⟨hcanonical, ts, hts, Except.ok.inj hkinds, expr_of_yield hcanonical hts (Except.ok.inj hkinds)⟩

end Gradual
