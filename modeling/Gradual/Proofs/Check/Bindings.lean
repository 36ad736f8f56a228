import Mathlib
import Gradual.Proofs.Check.Typing
import Gradual.Proofs.Check.Validity
import Gradual.Proofs.Tree.Places

/-!
# Checking and typing build one scope

The check of statements binds what they define as it goes on, and so does the typing of a block, which checks nothing. Where the
check accepts the statements the two end in one scope (`bindings_agree`): the levels around are as before, the innermost one has
the names that the statements declare besides those that it had, and an expression after the statements has, as the value of the
block, the type that it has at the scope of the check.
-/

namespace Gradual

/-! ## The names of a level -/

/-- The name spaces of a level. -/
inductive NameSpace where
  | vars
  | functions
  | types
  | records
  deriving DecidableEq

/-- The names that a level binds in a name space. -/
def Level.names (l : Level) : NameSpace → List String
  | .vars => l.vars.map (·.1)
  | .functions => l.functions.map (·.1)
  | .types => l.types.map (·.1)
  | .records => l.records.map (·.1)

/-- The name spaces that a declaration binds its name in. -/
def DeclaredKind.spaces : DeclaredKind → List NameSpace
  | .var => [.vars]
  | .function => [.functions]
  | .record => [.functions, .types, .records]
  | .hostClass => [.types]

namespace Scope

variable {s t r : Scope} {ds es : List Declared}

/-- The innermost level gets the names of some declarations, and nothing else of a scope changes. -/
structure Adds (s : Scope) (ds : List Declared) (r : Scope) : Prop where
  outer : r.outer = s.outer
  names (space : NameSpace) (n : String) :
    n ∈ r.level.names space ↔ n ∈ s.level.names space ∨ ∃ d ∈ ds, d.name = n ∧ space ∈ d.kind.spaces

namespace Adds

/-- A scope adds nothing to itself. -/
theorem refl (s : Scope) : s.Adds [] s := ⟨rfl, by simp⟩

/-- What scopes add adds up. -/
theorem trans (h : s.Adds ds t) (h' : t.Adds es r) : s.Adds (ds ++ es) r := by
  refine ⟨h'.outer.trans h.outer, fun space n => ?_⟩
  rw [h'.names, h.names, or_assoc]
  simp only [List.mem_append, or_and_right, exists_or]

/-- A variable adds its name. -/
theorem addVariable (s : Scope) (n : String) (ty : Option Ty) (span : Span) : s.Adds [⟨n, span, .var⟩] (s.addVariable n ty) := by
  refine ⟨rfl, fun space m => ?_⟩
  cases space <;> simp [Scope.addVariable, Level.names, DeclaredKind.spaces, or_comm, eq_comm]

/-- A function adds its name. -/
theorem addFunction (s : Scope) (n : String) (d : Option Declaration) (span : Span) :
    s.Adds [⟨n, span, .function⟩] (s.addFunction n d) := by
  refine ⟨rfl, fun space m => ?_⟩
  cases space <;> simp [Scope.addFunction, Level.names, DeclaredKind.spaces, or_comm, eq_comm]

/-- A record is bound as a type, as its constructor and as a record. -/
theorem addRecord (s : Scope) (layout : RecordLayout) (ty : Ty) (d : Option Declaration) (span : Span) :
    s.Adds [⟨layout.name, span, .record⟩] (((s.addType layout.name ty).addFunction layout.name d).addRecord layout) := by
  refine ⟨rfl, fun space m => ?_⟩
  cases space <;> simp [Scope.addRecord, Scope.addFunction, Scope.addType, Level.names, DeclaredKind.spaces, or_comm, eq_comm]

end Adds

/-- Methods add their names. -/
theorem adds_of_declareMethods {receiver : Ty} {ms : List Method} (h : s.declareMethods receiver ms = .ok r) :
    s.Adds (ms.map Method.declared) r := by
  induction ms generalizing s with
  | nil =>
    obtain rfl := Except.ok.inj h
    exact .refl s
  | cons m ms ih =>
    obtain ⟨n, params, ret, body, span⟩ := m
    rw [declareMethods, bind_eq_ok_iff] at h
    obtain ⟨d, -, h⟩ := h
    exact (Adds.addFunction s n d span).trans (ih h)

/-- Implementations add the names of their methods. -/
theorem adds_of_declareImplementations {receiver : Ty} {is : List Implementation}
    (h : s.declareImplementations receiver is = .ok r) : s.Adds (is.flatMap fun i => i.methods.map Method.declared) r := by
  induction is generalizing s with
  | nil =>
    obtain rfl := Except.ok.inj h
    exact .refl s
  | cons i is ih =>
    obtain ⟨protocol, methods, span⟩ := i
    rw [declareImplementations, bind_eq_ok_iff] at h
    obtain ⟨t, ht, h⟩ := h
    rw [List.flatMap_cons]
    exact (adds_of_declareMethods ht).trans (ih h)

/-- A statement that is bound adds the names that it declares. -/
theorem adds_of_declare {st : Stmt} (h : s.declare st = .ok r) : s.Adds st.declared r := by
  cases st with
  | expr e =>
    obtain rfl := Except.ok.inj h
    exact .refl s
  | define n ty value span =>
    cases ty with
    | none =>
      obtain ⟨t, -, h⟩ := bind_eq_ok_iff.1 h
      obtain rfl := Except.ok.inj h
      exact .addVariable s n t span
    | some a =>
      obtain ⟨t, -, h⟩ := bind_eq_ok_iff.1 h
      obtain rfl := Except.ok.inj h
      exact .addVariable s n (some t) span
  | function n generics params ret body span =>
    obtain ⟨d, -, h⟩ := bind_eq_ok_iff.1 h
    obtain rfl := Except.ok.inj h
    exact .addFunction s n d span
  | record n fields is span =>
    obtain ⟨layout, hl, h⟩ := bind_eq_ok_iff.1 h
    obtain ⟨types, -, hl⟩ := bind_eq_ok_iff.1 hl
    obtain rfl := Except.ok.inj hl
    exact (Adds.addRecord s ⟨n, _⟩ _ _ span).trans (adds_of_declareImplementations h)

/-! ## Statements one after the other -/

/-- Statements that are bound one after the other add the names that they declare. -/
theorem adds_of_foldlM_declare {stmts : List Stmt} (h : stmts.foldlM declare s = .ok r) :
    s.Adds (stmts.flatMap Stmt.declared) r := by
  induction stmts generalizing s with
  | nil =>
    obtain rfl := Except.ok.inj h
    exact .refl s
  | cons st stmts ih =>
    rw [List.foldlM_cons, bind_eq_ok_iff] at h
    obtain ⟨t, ht, h⟩ := h
    rw [List.flatMap_cons]
    exact (adds_of_declare ht).trans (ih h)

/-- Accepted statements are bound one after the other as the check binds them. -/
theorem foldlM_declare_of_checkStmts {stmts : List Stmt} (h : (s.checkStmts stmts).verdict = .ok r) :
    stmts.foldlM declare s = .ok r := by
  induction stmts generalizing s with
  | nil =>
    rw [checkStmts] at h
    exact h
  | cons st stmts ih =>
    obtain ⟨t, ht, h⟩ := checkStmts_cons_iff.1 h
    rw [List.foldlM_cons, declare_of_checkStmt ht]
    exact ih h

/-- The type of an expression after statements is its type at the scope that they leave. -/
theorem bodyType_concat (stmts : List Stmt) (e : Expr) (s : Scope) :
    s.bodyType (stmts ++ [.expr e]) = stmts.foldlM declare s >>= fun r => r.typeOf e := by
  induction stmts generalizing s with
  | nil => simp only [List.nil_append, bodyType, List.foldlM_nil, pure_bind]
  | cons st stmts ih =>
    obtain ⟨st', rest, hrest⟩ : ∃ st' rest, stmts ++ [.expr e] = st' :: rest := List.exists_cons_of_ne_nil (by simp)
    simp only [List.cons_append, List.foldlM_cons, bind_assoc, ← ih]
    rw [hrest, bodyType_cons_cons]

/-- The check and the typing of statements build one scope. Where the check accepts the statements and ends at `r`, binding them
one after the other succeeds and ends at `r` too. The levels around are those of the start, the innermost one has in each name
space the names that it had and those that the statements declare, and an expression after the statements has the type that it has
at `r`. -/
theorem bindings_agree {s r : Scope} {stmts : List Stmt} (h : (s.checkStmts stmts).verdict = .ok r) :
    stmts.foldlM declare s = .ok r ∧ r.outer = s.outer ∧
      (∀ space n, n ∈ r.level.names space ↔
        n ∈ s.level.names space ∨ ∃ d ∈ stmts.flatMap Stmt.declared, d.name = n ∧ space ∈ d.kind.spaces) ∧
      ∀ e, s.bodyType (stmts ++ [.expr e]) = r.typeOf e := by
  have hfold := foldlM_declare_of_checkStmts h
  obtain ⟨houter, hnames⟩ := adds_of_foldlM_declare hfold
  refine ⟨hfold, houter, hnames, fun e => ?_⟩
  rw [bodyType_concat, hfold, ok_bind]

/-- `defn <T> same(x: T) -> T { x } record Box(item: Nil) implements Sized { defmethod size(by: Nil) -> Nil { item } }
def b = Box(nil); def n: Nil = same(b.size(nil));`. -/
def boxStmts : List Stmt :=
  [.function "same" ["T"] [⟨"x", .named "T" [] ⟨17, 18⟩, ⟨14, 18⟩⟩] (some (.named "T" [] ⟨23, 24⟩))
      ⟨[.expr (.name "x" ⟨27, 28⟩)], ⟨25, 30⟩⟩ ⟨0, 30⟩,
    .record "Box" [⟨"item", .named "Nil" [] ⟨48, 51⟩, ⟨42, 51⟩⟩]
      [⟨"Sized", [⟨"size", [⟨"by", .named "Nil" [] ⟨91, 94⟩, ⟨87, 94⟩⟩], some (.named "Nil" [] ⟨99, 102⟩),
        ⟨[.expr (.name "item" ⟨105, 109⟩)], ⟨103, 111⟩⟩, ⟨72, 111⟩⟩], ⟨53, 113⟩⟩] ⟨31, 113⟩,
    .define "b" none (.call "Box" [.literal .nil ⟨126, 129⟩] ⟨122, 130⟩) ⟨114, 131⟩,
    .define "n" (some (.named "Nil" [] ⟨139, 142⟩))
      (.call "same" [.methodCall .first (.name "b" ⟨150, 151⟩) "size" [.literal .nil ⟨157, 160⟩] ⟨150, 161⟩] ⟨145, 162⟩)
      ⟨132, 163⟩]

/-- The scope inside the prelude that they leave. -/
def boxScope : Scope :=
  let t : Ty := .parameter (.declared "T" "same")
  let s := prelude.child.addFunction "same" (some ⟨"same", some [.declared "T" "same"], ["x"], [t], t⟩)
  let s := (s.addType "Box" (.simple "Box")).addFunction "Box" (some ⟨"Box", none, ["item"], [.nil], .simple "Box"⟩)
  let s := (s.addRecord ⟨"Box", [("item", .nil)]⟩).addFunction "size"
    (some ⟨"size", none, ["self", "by"], [.simple "Box", .nil], .nil⟩)
  (s.addVariable "b" (some (.simple "Box"))).addVariable "n" (some .nil)

/-- The check and the typing of a generic function, a record with a method, and variables with and without an annotation bind the
same, and what follows them has one type in both. -/
theorem boxStmts_bindings :
    (prelude.child.checkStmts boxStmts).verdict = .ok boxScope ∧ boxStmts.foldlM declare prelude.child = .ok boxScope ∧
      boxScope.outer = prelude.child.outer ∧
      (∀ space n, n ∈ boxScope.level.names space ↔ n ∈ prelude.child.level.names space ∨
        ∃ d ∈ boxStmts.flatMap Stmt.declared, d.name = n ∧ space ∈ d.kind.spaces) ∧
      ∀ e, prelude.child.bodyType (boxStmts ++ [.expr e]) = boxScope.typeOf e := by
  have hcheck : (prelude.child.checkStmts boxStmts).verdict = .ok boxScope := by cbv
  exact ⟨hcheck, bindings_agree hcheck⟩

end Scope

end Gradual
