import Gradual.Token.Basic
import Gradual.Tree.Basic

/-!
# Phrases: how a tree is written

A tree is written as phrases: slots for tokens, and nodes, which have a span and phrases of their own. `Spells` says that tokens
write phrases, in order and with nothing left over: a slot takes the tokens that it accepts, and the span of a node runs over the
tokens of its phrases. A slot for an optional token may stay empty, and the slot for the name of a type without arguments also
takes the keyword `nil`, for the type `Nil`. `Phrase.yieldOf` lists the kinds that phrases must have, and `Slot.Trims` says how
they are read off tokens, the optional ones being dropped.
-/

namespace Gradual

/-! ## Slots and phrases -/

/-- A place for tokens in a written tree. -/
inductive Slot where
  | token (kind : Kind)
  | optional (kind : Kind)
  | typeName (name : String)
  deriving DecidableEq

namespace Slot

/-- The kinds that tokens in a slot may have. -/
def Accepts : Slot → List Kind → Prop
  | .token k, ks => ks = [k]
  | .optional k, ks => ks = [k] ∨ ks = []
  | .typeName n, ks => ks = [.name n] ∨ n = "Nil" ∧ ks = [.keyword .nil]

/-- The kinds that a slot stands for, be they written or not: an optional token stands for nothing. -/
def kinds : Slot → List Kind
  | .token k => [k]
  | .optional _ => []
  | .typeName n => [.name n]

/-- The kinds of tokens in slots, and those kinds without the optional tokens and with the name `Nil` for the keyword `nil` in a
type. -/
inductive Trims : List Slot → List Kind → List Kind → Prop
  | nil : Trims [] [] []
  | token {ss : List Slot} {ks ys : List Kind} (k : Kind) (h : Trims ss ks ys) : Trims (.token k :: ss) (k :: ks) (k :: ys)
  | dropped {ss : List Slot} {ks ys : List Kind} (k : Kind) (h : Trims ss ks ys) : Trims (.optional k :: ss) (k :: ks) ys
  | missing {ss : List Slot} {ks ys : List Kind} (k : Kind) (h : Trims ss ks ys) : Trims (.optional k :: ss) ks ys
  | typeName {ss : List Slot} {ks ys : List Kind} (n : String) (h : Trims ss ks ys) :
      Trims (.typeName n :: ss) (.name n :: ks) (.name n :: ys)
  | nilType {ss : List Slot} {ks ys : List Kind} (h : Trims ss ks ys) :
      Trims (.typeName "Nil" :: ss) (.keyword .nil :: ks) (.name "Nil" :: ys)

end Slot

/-- A part of a written tree: a slot, or a node with its span and its parts. -/
inductive Phrase where
  | slot (slot : Slot)
  | node (span : Span) (parts : List Phrase)

namespace Phrase

/-- A token of that kind. -/
abbrev token (k : Kind) : Phrase := .slot (.token k)

/-- A mark. -/
abbrev mark (m : Mark) : Phrase := .token (.mark m)

/-- A keyword. -/
abbrev word (w : Keyword) : Phrase := .token (.keyword w)

/-- A name. -/
abbrev name (n : String) : Phrase := .token (.name n)

/-- Whether a phrase needs a token. -/
def isSolid : Phrase → Bool
  | .slot (.optional _) => false
  | _ => true

/-- A mark that may be missing. -/
abbrev optional (m : Mark) : Phrase := .slot (.optional (.mark m))

/-- Phrases up to a closing bracket, with commas between them; one more comma may follow the last. -/
def listed (ps : List Phrase) : List Phrase := ps.intersperse (mark .comma) ++ if ps.isEmpty then [] else [.optional .comma]

mutual

/-- The slots of a phrase, in order. -/
def slots : Phrase → List Slot
  | .slot s => [s]
  | .node _ parts => slotsOf parts

/-- The slots of phrases, in order. -/
def slotsOf : List Phrase → List Slot
  | [] => []
  | p :: ps => slots p ++ slotsOf ps

end

mutual

/-- The spans of the nodes in a phrase. -/
def spans : Phrase → List Span
  | .slot _ => []
  | .node span parts => span :: spansOf parts

/-- The spans of the nodes in phrases. -/
def spansOf : List Phrase → List Span
  | [] => []
  | p :: ps => spans p ++ spansOf ps

end

/-- The kinds of the tokens that phrases are written with, in order, the optional ones apart. -/
def yieldOf (ps : List Phrase) : List Kind := (slotsOf ps).flatMap Slot.kinds

end Phrase

/-! ## Tokens that write phrases -/

/-- A span that runs over tokens: over one token, or from the front of some to the end of others after them. -/
inductive Covers : Span → List Token → Prop
  | token (t : Token) : Covers t.span [t]
  | join {s s' : Span} {ts us : List Token} (h : Covers s ts) (ms : List Token) (h' : Covers s' us) :
      Covers (s.join s') (ts ++ ms ++ us)
  | ends {s s' : Span} {ts us : List Token} (h : Covers s ts) (ms : List Token) (h' : Covers s' us) :
      Covers ⟨s.start, s'.stop⟩ (ts ++ ms ++ us)

/-- A span runs over a token at least. -/
theorem Covers.ne_nil {s : Span} {ts : List Token} (h : Covers s ts) : ts ≠ [] := by
  induction h with
  | token => simp
  | join _ _ _ ih => simp [ih]
  | ends _ _ _ ih => simp [ih]

/-- Tokens that write phrases. -/
inductive Spells : List Phrase → List Token → Prop
  | nil : Spells [] []
  | slot {s : Slot} {ps : List Phrase} {ts us : List Token} (h : s.Accepts (ts.map (·.kind))) (hs : Spells ps us) :
      Spells (.slot s :: ps) (ts ++ us)
  | node {span : Span} {parts ps : List Phrase} {ts us : List Token} (hc : Covers span ts) (h : Spells parts ts)
      (hs : Spells ps us) : Spells (.node span parts :: ps) (ts ++ us)

/-! ## How trees are written -/

/-- The token that a literal is. -/
def Literal.kind : Literal → Kind
  | .number v => .number v
  | .string s => .string s
  | .symbol s => .symbol s
  | .bool true => .keyword .yes
  | .bool false => .keyword .no
  | .nil => .keyword .nil

/-- The token that an operator between two operands is. -/
def BinaryOp.kind : BinaryOp → Kind
  | .add => .mark .plus
  | .sub => .mark .minus
  | .mul => .mark .star
  | .div => .mark .slash
  | .rem => .mark .percent
  | .eq => .mark .eqEq
  | .ne => .mark .notEq
  | .lt => .mark .lt
  | .le => .mark .ltEq
  | .gt => .mark .gt
  | .ge => .mark .gtEq
  | .and => .keyword .and
  | .or => .keyword .or

/-- The token that an operator before an operand is. -/
def UnaryOp.kind : UnaryOp → Kind
  | .neg => .mark .minus
  | .not => .mark .bang

/-- The mark between a receiver and its method. -/
def Threading.mark : Threading → Mark
  | .first => .dot
  | .last => .arrow

open Phrase (listed slotsOf spansOf yieldOf)

namespace Annotation

mutual

/-- What an annotation is written as. -/
def parts : Annotation → List Phrase
  | .named n [] _ => [.slot (.typeName n)]
  | .named n (a :: as) _ => .name n :: .mark .lt :: (phrasesOf (a :: as)).intersperse (.mark .comma) ++ [.mark .gt]
  | .function ps r _ => .mark .lparen :: listed (phrasesOf ps) ++ [.mark .rparen, .mark .arrow, .node r.span (parts r)]

/-- Annotations as phrases. -/
def phrasesOf : List Annotation → List Phrase
  | [] => []
  | a :: as => .node a.span (parts a) :: phrasesOf as

end

/-- An annotation as a phrase. -/
def phrase (a : Annotation) : Phrase := .node a.span a.parts

/-- An annotation after a mark, if there is one. -/
def phrasesAfter (m : Mark) : Option Annotation → List Phrase
  | none => []
  | some a => [.mark m, a.phrase]

end Annotation

/-- A parameter as a phrase. -/
def Param.phrase (p : Param) : Phrase := .node p.span [.name p.name, .mark .colon, p.ty.phrase]

/-- Parameters in parentheses. -/
def Param.phrasesOf (ps : List Param) : List Phrase := .mark .lparen :: listed (ps.map Param.phrase) ++ [.mark .rparen]

/-- A parameter of a lambda as a phrase. -/
def LambdaParam.phrase (p : LambdaParam) : Phrase := .node p.span (.name p.name :: Annotation.phrasesAfter .colon p.ty)

/-- A variable of a loop as a phrase. -/
def LocalName.phrase (v : LocalName) : Phrase := .node v.span [.name v.name]

/-- Generic parameters between angle brackets, if there are any. -/
def genericPhrases (generics : List String) : List Phrase :=
  if generics.isEmpty then [] else .mark .lt :: (generics.map Phrase.name).intersperse (.mark .comma) ++ [.mark .gt]

namespace Expr

mutual

/-- What an expression is written as. -/
def parts : Expr → List Phrase
  | .literal v _ => [.token v.kind]
  | .name n _ => [.name n]
  | .binary op l r _ => [.node l.span (parts l), .token op.kind, .node r.span (parts r)]
  | .unary op e _ => [.token op.kind, .node e.span (parts e)]
  | .call f args _ => .name f :: .mark .lparen :: listed (phrasesOf args) ++ [.mark .rparen]
  | .methodCall threading receiver m args _ =>
    .node receiver.span (parts receiver) :: .mark threading.mark :: .name m :: .mark .lparen :: listed (phrasesOf args) ++
      [.mark .rparen]
  | .member target field _ => [.node target.span (parts target), .mark .dot, .name field]
  | .get collection key _ =>
    [.node collection.span (parts collection), .mark .lbracket, .node key.span (parts key), .mark .rbracket]
  | .vector items _ => .mark .lbracket :: listed (phrasesOf items) ++ [.mark .rbracket]
  | .map entries _ => .mark .mapOpen :: entryPhrases entries ++ [.mark .rbrace]
  | .block b => blockParts b
  | .letIn bindings body _ =>
    .word .letIn :: (bindingPhrases bindings).intersperse (.mark .comma) ++ [.node body.span (blockParts body)]
  | .forEach vars iterable body _ =>
    .word .forEach :: (vars.map LocalName.phrase).intersperse (.mark .comma) ++
      [.word .within, .node iterable.span (parts iterable), .node body.span (blockParts body)]
  | .cond branches otherwise _ => branchPhrases .ifThen branches ++ otherwisePhrases otherwise
  | .lambda params body _ =>
    .word .fn :: .mark .lparen :: listed (params.map LambdaParam.phrase) ++
      [.mark .rparen, .mark .arrow, .node body.span (parts body)]
  | .paren e _ => [.mark .lparen, .node e.span (parts e), .mark .rparen]

/-- Expressions as phrases. -/
def phrasesOf : List Expr → List Phrase
  | [] => []
  | e :: es => .node e.span (parts e) :: phrasesOf es

/-- The entries of a map as phrases; a comma may follow each. -/
def entryPhrases : List Entry → List Phrase
  | [] => []
  | ⟨key, value⟩ :: es => .node key.span (parts key) :: .node value.span (parts value) :: .optional .comma :: entryPhrases es

/-- The bindings of a let as phrases. -/
def bindingPhrases : List Binding → List Phrase
  | [] => []
  | ⟨n, value, span⟩ :: bs => .node span [.name n, .mark .eq, .node value.span (parts value)] :: bindingPhrases bs

/-- The branches of a conditional as phrases, the first after that keyword. -/
def branchPhrases (w : Keyword) : List Branch → List Phrase
  | [] => []
  | ⟨condition, body⟩ :: bs =>
    .word w :: .node condition.span (parts condition) :: .node body.span (blockParts body) :: branchPhrases .elif bs

/-- The block of a conditional without a condition, if there is one. -/
def otherwisePhrases : Option Block → List Phrase
  | none => []
  | some b => [.word .otherwise, .node b.span (blockParts b)]

/-- What a block is written as. -/
def blockParts : Block → List Phrase
  | ⟨stmts, _⟩ => .mark .lbrace :: stmtPhrases stmts ++ [.mark .rbrace]

/-- Statements as phrases. -/
def stmtPhrases : List Stmt → List Phrase
  | [] => []
  | s :: ss => stmtParts s ++ stmtPhrases ss

/-- Methods as phrases. -/
def methodPhrases : List Method → List Phrase
  | [] => []
  | ⟨n, params, ret, body, span⟩ :: ms =>
    .node span (.word .defmethod :: .name n :: Param.phrasesOf params ++ Annotation.phrasesAfter .arrow ret ++
      [.node body.span (blockParts body)]) :: methodPhrases ms

/-- Implementations as phrases. -/
def implementationPhrases : List Implementation → List Phrase
  | [] => []
  | ⟨protocol, methods, span⟩ :: is =>
    .node span (.word .implements :: .name protocol :: .mark .lbrace :: methodPhrases methods ++ [.mark .rbrace]) ::
      implementationPhrases is

/-- A statement as phrases; a semicolon may follow an expression or a record. -/
def stmtParts : Stmt → List Phrase
  | .function n generics params ret body span =>
    [.node span (.word .defn :: genericPhrases generics ++ .name n :: Param.phrasesOf params ++
      Annotation.phrasesAfter .arrow ret ++ [.node body.span (blockParts body)])]
  | .record n fields implementations span =>
    [.node span (.word .record :: .name n :: Param.phrasesOf fields ++ implementationPhrases implementations ++
      [.optional .semi])]
  | .define n ty value span =>
    [.node span (.word .define :: .name n :: Annotation.phrasesAfter .colon ty ++
      [.mark .eq, .node value.span (parts value), .mark .semi])]
  | .expr e => [.node e.span (parts e), .optional .semi]

end

/-- An expression as a phrase. -/
def phrase (e : Expr) : Phrase := .node e.span e.parts

/-- The kinds of the tokens that an expression is written with, in order, the optional ones apart. -/
def yield (e : Expr) : List Kind := yieldOf [e.phrase]

end Expr

/-- A block as a phrase. -/
def Block.phrase (b : Block) : Phrase := .node b.span (Expr.blockParts b)

/-- A key and its value as phrases; a comma may follow. -/
def Entry.phrases (e : Entry) : List Phrase := [e.key.phrase, e.value.phrase, .optional .comma]

/-- A name and its value as a phrase. -/
def Binding.phrase (b : Binding) : Phrase := .node b.span [.name b.name, .mark .eq, b.value.phrase]

/-- A condition and its block, after that keyword. -/
def Branch.phrases (w : Keyword) (b : Branch) : List Phrase := [.word w, b.condition.phrase, b.body.phrase]

/-- A method as a phrase. -/
def Method.phrase (m : Method) : Phrase :=
  .node m.span (.word .defmethod :: .name m.name :: Param.phrasesOf m.params ++ Annotation.phrasesAfter .arrow m.ret ++
    [m.body.phrase])

/-- An implementation as a phrase. -/
def Implementation.phrase (i : Implementation) : Phrase :=
  .node i.span (.word .implements :: .name i.protocol :: .mark .lbrace :: i.methods.map Method.phrase ++ [.mark .rbrace])

/-- A statement as phrases. -/
def Stmt.phrases (s : Stmt) : List Phrase := Expr.stmtParts s

/-- An import as a phrase. -/
def Import.phrase (i : Import) : Phrase :=
  .node i.span (.word .imports :: (i.path.map Phrase.name).intersperse (.mark .dot) ++ [.mark .semi])

namespace Program

/-- A program as phrases. -/
def phrases (p : Program) : List Phrase := p.imports.map Import.phrase ++ Expr.stmtPhrases p.body

/-- The slots for the tokens of a program, in order. -/
def slots (p : Program) : List Slot := slotsOf p.phrases

/-- The kinds of the tokens that a program is written with, in order, the optional ones apart. -/
def yield (p : Program) : List Kind := yieldOf p.phrases

end Program

@[simp] theorem Annotation.phrasesOf_eq (as : List Annotation) : phrasesOf as = as.map phrase := by
  induction as with
  | nil => rfl
  | cons a as ih => rw [phrasesOf, ih, List.map_cons, phrase]

namespace Expr

-- The equations of what trees are written as are made here, once: the proofs about the grammar all ask for them.
attribute [local simp] parts phrasesOf entryPhrases bindingPhrases branchPhrases otherwisePhrases blockParts stmtPhrases
  methodPhrases implementationPhrases stmtParts

@[simp] theorem phrasesOf_eq (es : List Expr) : phrasesOf es = es.map phrase := by
  induction es with
  | nil => rfl
  | cons e es ih => rw [phrasesOf, ih, List.map_cons, phrase]

@[simp] theorem entryPhrases_eq (es : List Entry) : entryPhrases es = es.flatMap Entry.phrases := by
  induction es with
  | nil => rfl
  | cons e es ih =>
    obtain ⟨key, value⟩ := e
    simp [entryPhrases, ih, Entry.phrases, phrase]

@[simp] theorem bindingPhrases_eq (bs : List Binding) : bindingPhrases bs = bs.map Binding.phrase := by
  induction bs with
  | nil => rfl
  | cons b bs ih =>
    obtain ⟨n, value, span⟩ := b
    simp [bindingPhrases, ih, Binding.phrase, phrase]

@[simp] theorem branchPhrases_cons (w : Keyword) (b : Branch) (bs : List Branch) :
    branchPhrases w (b :: bs) = b.phrases w ++ bs.flatMap (Branch.phrases .elif) := by
  obtain ⟨condition, body⟩ := b
  induction bs generalizing w condition body with
  | nil => simp [branchPhrases, Branch.phrases, phrase, Block.phrase]
  | cons b bs ih =>
    obtain ⟨condition', body'⟩ := b
    rw [branchPhrases, ih]
    simp [Branch.phrases, phrase, Block.phrase]

@[simp] theorem stmtPhrases_eq (ss : List Stmt) : stmtPhrases ss = ss.flatMap Stmt.phrases := by
  induction ss with
  | nil => rfl
  | cons s ss ih => rw [stmtPhrases, ih, List.flatMap_cons]; rfl

@[simp] theorem methodPhrases_eq (ms : List Method) : methodPhrases ms = ms.map Method.phrase := by
  induction ms with
  | nil => rfl
  | cons m ms ih =>
    obtain ⟨n, params, ret, body, span⟩ := m
    simp [methodPhrases, ih, Method.phrase, Block.phrase]

@[simp] theorem implementationPhrases_eq (is : List Implementation) :
    implementationPhrases is = is.map Implementation.phrase := by
  induction is with
  | nil => rfl
  | cons i is ih =>
    obtain ⟨protocol, methods, span⟩ := i
    simp [implementationPhrases, ih, Implementation.phrase]

end Expr

/-! ## Spans -/

namespace Phrase

/-- The spans of all nodes in phrases have a property. -/
def AllSpans (V : Span → Prop) (ps : List Phrase) : Prop := ∀ s ∈ spansOf ps, V s

variable {V : Span → Prop} {ps qs : List Phrase}

/-- The spans of phrases are those of the one part and those of the other. -/
theorem spansOf_append (ps qs : List Phrase) : spansOf (ps ++ qs) = spansOf ps ++ spansOf qs := by
  induction ps with
  | nil => rfl
  | cons p ps ih => rw [List.cons_append, spansOf, spansOf, ih, List.append_assoc]

@[simp] theorem allSpans_nil : AllSpans V [] := by simp [AllSpans, spansOf]

@[simp] theorem allSpans_slot {u : Slot} : AllSpans V (.slot u :: ps) ↔ AllSpans V ps := by
  simp [AllSpans, spansOf, spans]

@[simp] theorem allSpans_node {s : Span} {parts : List Phrase} :
    AllSpans V (.node s parts :: ps) ↔ (V s ∧ AllSpans V parts) ∧ AllSpans V ps := by
  simp only [AllSpans, spansOf, spans, List.cons_append, List.forall_mem_cons, List.forall_mem_append, and_assoc]

@[simp] theorem allSpans_append : AllSpans V (ps ++ qs) ↔ AllSpans V ps ∧ AllSpans V qs := by
  simp only [AllSpans, spansOf_append, List.forall_mem_append]

/-- A property of the spans of phrases is one of the first and of the others. -/
theorem allSpans_cons {p : Phrase} : AllSpans V (p :: ps) ↔ AllSpans V [p] ∧ AllSpans V ps :=
  @allSpans_append V [p] ps

@[simp] theorem allSpans_intersperse {m : Mark} : AllSpans V (ps.intersperse (.mark m)) ↔ AllSpans V ps := by
  induction ps with
  | nil => rfl
  | cons p ps ih =>
    cases ps with
    | nil => rfl
    | cons q ps => rw [List.intersperse_cons_cons, allSpans_cons, allSpans_slot, ih, ← allSpans_cons]

@[simp] theorem allSpans_listed : AllSpans V (listed ps) ↔ AllSpans V ps := by
  cases ps with
  | nil => rfl
  | cons p ps => simp [listed]

@[simp] theorem allSpans_flatMap {α : Type} {as : List α} {f : α → List Phrase} :
    AllSpans V (as.flatMap f) ↔ ∀ a ∈ as, AllSpans V (f a) := by
  induction as with
  | nil => simp
  | cons a as ih => simp [ih]

@[simp] theorem allSpans_map {α : Type} {as : List α} {f : α → Phrase} :
    AllSpans V (as.map f) ↔ ∀ a ∈ as, AllSpans V [f a] := by
  rw [List.map_eq_flatMap, allSpans_flatMap]

end Phrase

/-! ## Spelling -/

namespace Spells

variable {ps qs : List Phrase} {ts us : List Token}

/-- Tokens of phrases one after the other write all of them. -/
theorem append (h : Spells ps ts) (h' : Spells qs us) : Spells (ps ++ qs) (ts ++ us) := by
  induction h with
  | nil => exact h'
  | slot ha _ ih => exact List.append_assoc .. ▸ slot ha ih
  | node hc hp _ _ ih => exact List.append_assoc .. ▸ node hc hp ih

/-- One token in a slot that accepts it. -/
theorem taken {u : Slot} {t : Token} (h : u.Accepts [t.kind]) : Spells [.slot u] [t] := @slot u [] [t] [] h nil

/-- An optional token that is there. -/
theorem present {m : Mark} {t : Token} (h : t.kind = .mark m) : Spells [.optional m] [t] := by
  refine taken (.inl ?_)
  rw [h]

/-- An optional token that is missing. -/
theorem absent (m : Mark) : Spells [.optional m] [] := @slot (.optional (.mark m)) [] [] [] (.inr rfl) nil

/-- One node. -/
theorem one {span : Span} {parts : List Phrase} (hc : Covers span ts) (h : Spells parts ts) : Spells [.node span parts] ts := by
  have hone := node hc h nil
  rwa [List.append_nil] at hone

/-- The tokens of a node write its parts, and its span runs over them. -/
theorem of_one {span : Span} {parts : List Phrase} (h : Spells [.node span parts] ts) : Covers span ts ∧ Spells parts ts := by
  cases h with
  | node hc hp hs =>
    cases hs
    rw [List.append_nil]
    exact ⟨hc, hp⟩

/-- What writes phrases after others stands at the end. -/
theorem of_append (h : Spells (ps ++ qs) ts) : ∃ us vs, ts = us ++ vs ∧ Spells ps us ∧ Spells qs vs := by
  induction ps generalizing ts with
  | nil => exact ⟨[], ts, rfl, nil, h⟩
  | cons p ps ih =>
    cases h with
    | slot ha hs =>
      obtain ⟨us, vs, rfl, hps, hqs⟩ := ih hs
      exact ⟨_, vs, (List.append_assoc ..).symm, slot ha hps, hqs⟩
    | node hc hp hs =>
      obtain ⟨us, vs, rfl, hps, hqs⟩ := ih hs
      exact ⟨_, vs, (List.append_assoc ..).symm, node hc hp hps, hqs⟩

/-- A phrase that needs a token has one. -/
theorem ne_nil {p : Phrase} (hp : p.isSolid = true) (h : Spells (p :: ps) ts) : ts ≠ [] := by
  cases h with
  | @slot s _ us _ ha _ =>
    cases s with
    | token k =>
      obtain ⟨u, rfl, -⟩ := List.map_eq_singleton_iff.1 ha
      simp
    | optional k => cases hp
    | typeName n =>
      rcases ha with ha | ⟨-, ha⟩
      · obtain ⟨u, rfl, -⟩ := List.map_eq_singleton_iff.1 ha
        simp
      · obtain ⟨u, rfl, -⟩ := List.map_eq_singleton_iff.1 ha
        simp
  | node hc _ _ => simp [hc.ne_nil]

/-- Every node covers tokens that stand together. -/
theorem covers {s : Span} (h : Spells ps ts) (hs : s ∈ spansOf ps) : ∃ us, us <:+: ts ∧ Covers s us := by
  induction h with
  | nil => cases hs
  | slot _ _ ih =>
    rw [spansOf, Phrase.spans, List.nil_append] at hs
    obtain ⟨us, hus, hc⟩ := ih hs
    exact ⟨us, hus.trans (List.suffix_append ..).isInfix, hc⟩
  | node hcover _ _ ihp ih =>
    rw [spansOf, Phrase.spans, List.cons_append, List.mem_cons, List.mem_append] at hs
    rcases hs with rfl | hs | hs
    · exact ⟨_, (List.prefix_append ..).isInfix, hcover⟩
    · obtain ⟨us, hus, hc⟩ := ihp hs
      exact ⟨us, hus.trans (List.prefix_append ..).isInfix, hc⟩
    · obtain ⟨us, hus, hc⟩ := ih hs
      exact ⟨us, hus.trans (List.suffix_append ..).isInfix, hc⟩

end Spells

/-- Tokens are read off the slots of phrases one after the other. -/
theorem Slot.Trims.append {ss ss' : List Slot} {ks ks' ys ys' : List Kind} (h : Trims ss ks ys) (h' : Trims ss' ks' ys') :
    Trims (ss ++ ss') (ks ++ ks') (ys ++ ys') := by
  induction h with
  | nil => exact h'
  | token k _ ih => exact .token k ih
  | dropped k _ ih => exact .dropped k ih
  | missing k _ ih => exact .missing k ih
  | typeName n _ ih => exact .typeName n ih
  | nilType _ ih => exact .nilType ih

/-- What a slot accepts is trimmed to what it stands for. -/
theorem Slot.Accepts.trims {s : Slot} {ks : List Kind} (h : s.Accepts ks) : Trims [s] ks s.kinds := by
  cases s with
  | token k =>
    obtain rfl : ks = [k] := h
    exact .token k .nil
  | optional k =>
    obtain rfl | rfl : ks = [k] ∨ ks = [] := h
    · exact .dropped k .nil
    · exact .missing k .nil
  | typeName n =>
    obtain rfl | ⟨rfl, rfl⟩ : ks = [.name n] ∨ n = "Nil" ∧ ks = [.keyword .nil] := h
    · exact .typeName n .nil
    · exact .nilType .nil

/-- The kinds of tokens that write phrases are, without the optional ones, those that the phrases must have. -/
theorem Spells.trims {ps : List Phrase} {ts : List Token} (h : Spells ps ts) :
    Slot.Trims (slotsOf ps) (ts.map (·.kind)) (yieldOf ps) := by
  induction h with
  | nil => exact .nil
  | slot ha _ ih =>
    rw [List.map_append, yieldOf, slotsOf, Phrase.slots, List.flatMap_append, List.flatMap_singleton]
    exact ha.trims.append ih
  | node _ _ _ ihp ih =>
    rw [List.map_append, yieldOf, slotsOf, Phrase.slots, List.flatMap_append]
    exact ihp.append ih

end Gradual
