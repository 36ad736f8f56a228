import Gradual.Proofs.Tree.Phrase

/-!
# The nodes of a tree, each with its children

Everything in a tree that has a span is a node. `Node.children` lists what stands directly in a node, in the order of the text:
entries and branches have no span of their own and are seen through, and so is a definition, which is its statement. A node is
written as a phrase, and the nodes among the parts of that phrase are its children (`Node.nodes_parts`). Two nodes are written as
their only child is, and share its span: a statement that is an expression, and a block used as an expression.
-/

namespace Gradual

/-- Anything in a tree that has a span. -/
inductive Node where
  | program (program : Program)
  | imported (imported : Import)
  | stmt (stmt : Stmt)
  | expr (expr : Expr)
  | block (block : Block)
  | method (method : Method)
  | implementation (implementation : Implementation)
  | param (param : Param)
  | lambdaParam (param : LambdaParam)
  | binding (binding : Binding)
  | loopVariable (name : LocalName)
  | type (ty : Annotation)

namespace Node

/-- Where a node stands. -/
def span : Node → Span
  | .program p => p.span
  | .imported i => i.span
  | .stmt s => s.span
  | .expr e => e.span
  | .block b => b.span
  | .method m => m.span
  | .implementation i => i.span
  | .param p => p.span
  | .lambdaParam p => p.span
  | .binding b => b.span
  | .loopVariable v => v.span
  | .type a => a.span

/-- What stands between the name and the end of a function or a method: its parameters, the type of its result, its body. -/
def signature (params : List Param) (ret : Option Annotation) (body : Block) : List Node :=
  params.map .param ++ ret.toList.map .type ++ [.block body]

/-- What stands directly in an expression. -/
def ofExpr : Expr → List Node
  | .literal .. | .name .. => []
  | .binary _ l r _ => [.expr l, .expr r]
  | .unary _ e _ => [.expr e]
  | .call _ args _ => args.map .expr
  | .methodCall _ receiver _ args _ => .expr receiver :: args.map .expr
  | .member target _ _ => [.expr target]
  | .get collection key _ => [.expr collection, .expr key]
  | .vector items _ => items.map .expr
  | .map entries _ => entries.flatMap fun e => [.expr e.key, .expr e.value]
  | .block b => [.block b]
  | .letIn bindings body _ => bindings.map .binding ++ [.block body]
  | .forEach vars iterable body _ => vars.map .loopVariable ++ [.expr iterable, .block body]
  | .cond branches otherwise _ => branches.flatMap (fun b => [.expr b.condition, .block b.body]) ++ otherwise.toList.map .block
  | .lambda params body _ => params.map .lambdaParam ++ [.expr body]
  | .paren e _ => [.expr e]

/-- What stands directly in a statement. -/
def ofStmt : Stmt → List Node
  | .function _ _ params ret body _ => signature params ret body
  | .record _ fields implementations _ => fields.map .param ++ implementations.map .implementation
  | .define _ ty value _ => ty.toList.map .type ++ [.expr value]
  | .expr e => [.expr e]

/-- What stands directly in an annotation. -/
def ofType : Annotation → List Node
  | .named _ args _ => args.map .type
  | .function params ret _ => params.map .type ++ [.type ret]

/-- What stands directly in a node, in the order of the text. -/
def children : Node → List Node
  | .program p => p.imports.map .imported ++ p.body.map .stmt
  | .imported _ | .loopVariable _ => []
  | .stmt s => ofStmt s
  | .expr e => ofExpr e
  | .block b => b.stmts.map .stmt
  | .method m => signature m.params m.ret m.body
  | .implementation i => i.methods.map .method
  | .param p => [.type p.ty]
  | .lambdaParam p => p.ty.toList.map .type
  | .binding b => [.expr b.value]
  | .type a => ofType a

/-- A node in the tree below another, at any depth. -/
inductive Below (root : Node) : Node → Prop
  | root : Below root root
  | child {n c : Node} (h : Below root n) (hc : c ∈ n.children) : Below root c

end Node

/-! ## Nodes among phrases -/

namespace Phrase

/-- Whether a phrase is a node. -/
def isNode : Phrase → Bool
  | .slot _ => false
  | .node .. => true

/-- The span of a node; a slot has none. -/
def span : Phrase → Span
  | .slot _ => ⟨0, 0⟩
  | .node s _ => s

/-- The parts of a node; a slot has none. -/
def parts : Phrase → List Phrase
  | .slot _ => []
  | .node _ ps => ps

/-- The nodes among phrases. -/
def nodes (ps : List Phrase) : List Phrase := ps.filter isNode

variable {ps qs : List Phrase}

@[simp] theorem nodes_nil : nodes [] = [] := rfl

@[simp] theorem nodes_slot (u : Slot) : nodes (.slot u :: ps) = nodes ps := rfl

@[simp] theorem nodes_node (s : Span) : nodes (.node s qs :: ps) = .node s qs :: nodes ps := rfl

@[simp] theorem nodes_append : nodes (ps ++ qs) = nodes ps ++ nodes qs := List.filter_append ..

/-- The nodes among the phrases of several things are those of each. -/
theorem nodes_flatMap {α : Type} (f : α → List Phrase) (as : List α) :
    nodes (as.flatMap f) = as.flatMap fun a => nodes (f a) := by
  induction as with
  | nil => rfl
  | cons a as ih => rw [List.flatMap_cons, nodes_append, ih, List.flatMap_cons]

/-- Phrases that are all nodes. -/
theorem nodes_map {α : Type} {f : α → Phrase} (h : ∀ a, (f a).isNode = true) (as : List α) : nodes (as.map f) = as.map f :=
  List.filter_eq_self.2 fun p hp => by
    obtain ⟨a, -, rfl⟩ := List.mem_map.1 hp
    exact h a

/-- Names are no nodes. -/
@[simp] theorem nodes_names (ns : List String) : nodes (ns.map Phrase.name) = [] := by
  induction ns with
  | nil => rfl
  | cons n ns ih => rw [List.map_cons, nodes_slot, ih]

/-- Commas between phrases are no nodes. -/
@[simp] theorem nodes_intersperse (m : Mark) : nodes (ps.intersperse (.mark m)) = nodes ps := by
  induction ps with
  | nil => rfl
  | cons p ps ih =>
    cases ps with
    | nil => rfl
    | cons q ps =>
      have hcons (qs : List Phrase) : nodes (p :: qs) = nodes [p] ++ nodes qs := by rw [← nodes_append, List.singleton_append]
      rw [List.intersperse_cons_cons, hcons, nodes_slot, ih, ← hcons]

@[simp] theorem nodes_listed : nodes (listed ps) = nodes ps := by
  cases ps with
  | nil => rfl
  | cons p ps => simp [listed]

end Phrase

/-! ## Nodes as phrases -/

namespace Node

open Phrase (nodes)

/-- A node as a phrase; a statement without the semicolon that may follow it. -/
def phrase : Node → Phrase
  | .program p => .node p.span p.phrases
  | .imported i => i.phrase
  | .stmt s => s.phrases.headD (.node s.span [])
  | .expr e => e.phrase
  | .block b => b.phrase
  | .method m => m.phrase
  | .implementation i => i.phrase
  | .param p => p.phrase
  | .lambdaParam p => p.phrase
  | .binding b => b.phrase
  | .loopVariable v => v.phrase
  | .type a => a.phrase

/-- A node is written as a node of its span. -/
theorem phrase_eq (n : Node) : n.phrase = .node n.span n.phrase.parts := by
  cases n with
  | stmt s => cases s <;> simp [phrase, Stmt.phrases, Expr.stmtParts, Phrase.parts, span, Stmt.span]
  | _ => rfl

/-- Statements are nodes, and the semicolons after them are none. -/
theorem nodes_stmts (ss : List Stmt) : nodes (ss.flatMap Stmt.phrases) = ss.map fun s => (Node.stmt s).phrase := by
  have hstmt : ∀ s : Stmt, nodes s.phrases = [(Node.stmt s).phrase] := by
    intro s
    cases s <;> simp [phrase, Stmt.phrases, Expr.stmtParts]
  simp only [Phrase.nodes_flatMap, hstmt, List.map_eq_flatMap]

@[simp] theorem nodes_branches (w : Keyword) (bs : List Branch) :
    nodes (Expr.branchPhrases w bs) = bs.flatMap fun b => [b.condition.phrase, b.body.phrase] := by
  cases bs with
  | nil => rfl
  | cons b bs => simp [Branch.phrases, Expr.phrase, Block.phrase, Phrase.nodes_flatMap]

/-- Annotations that may be missing are nodes after their mark. -/
@[simp] theorem nodes_phrasesAfter (m : Mark) (a : Option Annotation) :
    nodes (Gradual.Annotation.phrasesAfter m a) = a.toList.map fun a => (Node.type a).phrase := by
  cases a <;> rfl

@[simp] theorem nodes_params (ps : List Param) : nodes (Param.phrasesOf ps) = ps.map fun p => (Node.param p).phrase := by
  simp [Param.phrasesOf, Phrase.nodes_map (f := Param.phrase) fun _ => rfl, phrase]

@[simp] theorem nodes_otherwise (b : Option Block) :
    nodes (Expr.otherwisePhrases b) = b.toList.map fun b => (Node.block b).phrase := by
  cases b <;> simp [Expr.otherwisePhrases, phrase, Block.phrase]

@[simp] theorem nodes_generics (generics : List String) : nodes (genericPhrases generics) = [] := by
  unfold genericPhrases
  split
  · rfl
  · simp

/-- A node that is written as its only child is. -/
def Shares (n : Node) : Prop := ∃ c, n.children = [c] ∧ c.phrase = n.phrase

/-- The nodes in an expression are its children, unless it shares the span of its only child. -/
theorem nodes_parts_expr (e : Expr) : nodes e.parts = (ofExpr e).map phrase ∨ (Node.expr e).Shares := by
  have hexprs := Phrase.nodes_map (f := Expr.phrase) fun _ => rfl
  have hbindings := Phrase.nodes_map (f := Binding.phrase) fun _ => rfl
  have hvars := Phrase.nodes_map (f := LocalName.phrase) fun _ => rfl
  have hparams := Phrase.nodes_map (f := LambdaParam.phrase) fun _ => rfl
  cases e with
  | block b => exact .inr ⟨.block b, rfl, by simp [phrase, Block.phrase, Expr.phrase, Expr.parts, Expr.span]⟩
  | _ =>
    left
    simp [Expr.parts, ofExpr, hexprs, hbindings, hvars, hparams, phrase, Expr.phrase, Block.phrase, Entry.phrases,
      Phrase.nodes_flatMap, List.map_flatMap, Function.comp_def]

/-- The nodes in a statement are its children, unless it shares the span of its only child. -/
theorem nodes_parts_stmt (s : Stmt) :
    nodes (Node.stmt s).phrase.parts = (ofStmt s).map phrase ∨ (Node.stmt s).Shares := by
  have himplementations := Phrase.nodes_map (f := Implementation.phrase) fun _ => rfl
  cases s with
  | expr e => exact .inr ⟨.expr e, rfl, by simp [phrase, Stmt.phrases, Expr.stmtParts, Expr.phrase]⟩
  | _ =>
    left
    simp [Stmt.phrases, Expr.stmtParts, Phrase.parts, ofStmt, signature, himplementations, phrase, Expr.phrase, Block.phrase,
      Function.comp_def]

/-- The nodes in an annotation are its children. -/
theorem nodes_parts_type (a : Annotation) : nodes a.parts = (ofType a).map phrase := by
  have htypes := Phrase.nodes_map (f := Annotation.phrase) fun _ => rfl
  cases a with
  | named n args span =>
    cases args with
    | nil => simp [ofType, Annotation.parts]
    | cons a as => simp [ofType, Annotation.parts, htypes, phrase, Annotation.phrase, Function.comp_def]
  | function params ret span => simp [ofType, Annotation.parts, htypes, phrase, Annotation.phrase, Function.comp_def]

/-- The nodes in a program are its children. -/
theorem nodes_program (p : Program) : nodes p.phrases = (Node.program p).children.map phrase := by
  have himports := Phrase.nodes_map (f := Import.phrase) fun _ => rfl
  rw [children, List.map_append, List.map_map, List.map_map, Program.phrases, Phrase.nodes_append, himports, Expr.stmtPhrases_eq,
    nodes_stmts]
  rfl

/-- The nodes among the parts of a node are its children, unless it is written as its only child is. -/
theorem nodes_parts (n : Node) : nodes n.phrase.parts = n.children.map phrase ∨ n.Shares := by
  cases n with
  | expr e => exact nodes_parts_expr e
  | stmt s => exact nodes_parts_stmt s
  | type a => exact .inl (nodes_parts_type a)
  | program p => exact .inl (nodes_program p)
  | imported i =>
    left
    simp [phrase, Phrase.parts, Import.phrase, children]
  | block b =>
    left
    obtain ⟨stmts, s⟩ := b
    simp [phrase, Phrase.parts, Block.phrase, Expr.blockParts, children, nodes_stmts, Function.comp_def]
  | method m =>
    left
    simp [phrase, Phrase.parts, Method.phrase, Block.phrase, children, signature, Function.comp_def]
  | implementation i =>
    left
    have hmethods := Phrase.nodes_map (f := Method.phrase) fun _ => rfl
    simp [phrase, Phrase.parts, Implementation.phrase, children, hmethods, Function.comp_def]
  | param p => exact .inl rfl
  | lambdaParam p =>
    left
    simp [phrase, Phrase.parts, LambdaParam.phrase, children, Function.comp_def]
  | binding b => exact .inl rfl
  | loopVariable v => exact .inl rfl

end Node

end Gradual
