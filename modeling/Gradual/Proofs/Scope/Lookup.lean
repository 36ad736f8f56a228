import Gradual.Check.Resolve
import Gradual.Proofs.Basic

/-!
# Scopes that answer alike

A name is sought level by level, so a level without bindings between others goes unseen (`alike_child_child`). `Scope.Alike` says
that two scopes have one innermost level and that the levels around it answer every question the same. All that is asked of a
scope is the same then, and it stays so whatever is bound. An annotation asks for types only (`resolve_congr`).
-/

namespace Gradual.Scope

/-! ## A look-up is one at the innermost level, or else one at the levels around it -/

/-- A value is sought in the innermost level first. -/
theorem value?_eq (s : Scope) (n : String) : s.value? n = (s.level.value? n).or (s.outer.findSome? (·.value? n)) := by
  rw [value?, levels, List.findSome?_cons]
  cases s.level.value? n <;> rfl

/-- A type is sought in the innermost level first. -/
theorem type?_eq (s : Scope) (n : String) :
    s.type? n = (s.level.types.lookup n).or (s.outer.findSome? (·.types.lookup n)) := by
  rw [type?, levels, List.findSome?_cons]
  cases s.level.types.lookup n <;> rfl

/-- A record is sought in the first level that has a type of its name. -/
theorem recordNamed?_eq (s : Scope) (n : String) :
    s.recordNamed? n =
      if s.level.hasType n then s.level.records.lookup n
      else (s.outer.find? (·.hasType n)).bind (·.records.lookup n) := by
  rw [recordNamed?, levels, List.find?_cons]
  cases s.level.hasType n <;> rfl

/-- A level without bindings has no types of its own. -/
theorem type?_child (s : Scope) (n : String) : s.child.type? n = s.type? n := rfl

/-- A parameter is no type. -/
theorem type?_addParameter (s : Scope) (n : String) (ty : Ty) (m : String) : (s.addParameter n ty).type? m = s.type? m := by
  unfold addParameter
  split <;> rfl

/-! ## Scopes that answer alike -/

/-- Two scopes have one innermost level, and the levels around it answer every look-up the same. -/
structure Alike (s t : Scope) : Prop where
  level : s.level = t.level
  value : ∀ n, s.outer.findSome? (·.value? n) = t.outer.findSome? (·.value? n)
  type : ∀ n, s.outer.findSome? (·.types.lookup n) = t.outer.findSome? (·.types.lookup n)
  record : ∀ n, (s.outer.find? (·.hasType n)).bind (·.records.lookup n) =
    (t.outer.find? (·.hasType n)).bind (·.records.lookup n)

/-- A level without bindings goes unseen between a level and those around it. -/
theorem alike_child_child (s : Scope) : Alike s.child.child s.child := by
  refine ⟨rfl, ?_, ?_, ?_⟩ <;> intro n <;> rfl

namespace Alike

variable {s t : Scope}

/-- Alike scopes have the same values. -/
theorem value? (h : Alike s t) (n : String) : s.value? n = t.value? n := by
  rw [value?_eq, value?_eq, h.level, h.value]

/-- Alike scopes have the same types. -/
theorem type? (h : Alike s t) (n : String) : s.type? n = t.type? n := by
  rw [type?_eq, type?_eq, h.level, h.type]

/-- Alike scopes have the same records. -/
theorem recordNamed? (h : Alike s t) (n : String) : s.recordNamed? n = t.recordNamed? n := by
  rw [recordNamed?_eq, recordNamed?_eq, h.level, h.record]

/-- Alike scopes have the same record for a type. -/
theorem record? (h : Alike s t) (ty : Ty) : s.record? ty = t.record? ty := by
  cases ty with
  | simple n => exact h.recordNamed? n
  | _ => rfl

/-- Alike scopes call the same. -/
theorem callee? (h : Alike s t) (n : String) : s.callee? n = t.callee? n := by
  rw [Scope.callee?, Scope.callee?, h.value?]

/-- Any change of the innermost level keeps scopes alike. -/
theorem change (h : Alike s t) (f : Level → Level) : Alike ⟨f s.level, s.outer⟩ ⟨f t.level, t.outer⟩ :=
  ⟨congrArg f h.level, h.value, h.type, h.record⟩

/-- A variable keeps scopes alike. -/
theorem addVariable (h : Alike s t) (n : String) (ty : Option Ty) : Alike (s.addVariable n ty) (t.addVariable n ty) :=
  h.change fun l => { l with vars := (n, ty) :: l.vars }

/-- A function keeps scopes alike. -/
theorem addFunction (h : Alike s t) (n : String) (d : Option Declaration) :
    Alike (s.addFunction n d) (t.addFunction n d) :=
  h.change fun l => { l with functions := (n, d) :: l.functions }

/-- A type keeps scopes alike. -/
theorem addType (h : Alike s t) (n : String) (ty : Ty) : Alike (s.addType n ty) (t.addType n ty) :=
  h.change fun l => { l with types := (n, ty) :: l.types }

/-- A record keeps scopes alike. -/
theorem addRecord (h : Alike s t) (r : RecordLayout) : Alike (s.addRecord r) (t.addRecord r) :=
  (h.addType r.name r.type).change fun l => { l with records := (r.name, r) :: l.records }

/-- A parameter keeps scopes alike. -/
theorem addParameter (h : Alike s t) (n : String) (ty : Ty) : Alike (s.addParameter n ty) (t.addParameter n ty) := by
  unfold Scope.addParameter
  split
  · exact h.addFunction n _
  · exact h.addVariable n _

/-- An empty level keeps scopes alike. -/
theorem child (h : Alike s t) : Alike s.child t.child := by
  refine ⟨rfl, fun n => ?_, fun n => ?_, fun n => ?_⟩
  · exact h.value? n
  · exact h.type? n
  · exact h.recordNamed? n

/-- Generic parameters keep scopes alike. -/
theorem withGenerics (h : Alike s t) (owner : String) (generics : List String) :
    Alike (s.withGenerics owner generics) (t.withGenerics owner generics) := by
  unfold Scope.withGenerics
  have hc := h.child
  generalize s.child = s at hc ⊢
  generalize t.child = t at hc ⊢
  induction generics generalizing s t with
  | nil => exact hc
  | cons n ns ih => exact ih _ _ (hc.addType n _)

end Alike

/-! ## Annotations ask for types only -/

variable {s t : Scope}

mutual

/-- An annotation stands for one type in scopes that have the same types. -/
theorem resolve_congr (h : ∀ n, s.type? n = t.type? n) : ∀ a : Annotation, s.resolve a = t.resolve a
  | .named n as span => by simp only [resolve, h n, resolveAll_congr h as]
  | .function ps r span => by simp only [resolve, resolveAll_congr h ps, resolve_congr h r]

/-- Annotations mean the same in scopes with the same types. -/
theorem resolveAll_congr (h : ∀ n, s.type? n = t.type? n) : ∀ as : List Annotation, s.resolveAll as = t.resolveAll as
  | [] => rfl
  | a :: as => by simp only [resolveAll, resolve_congr h a, resolveAll_congr h as]

end

section

variable (h : ∀ n, s.type? n = t.type? n)

include h

/-- Parameters have the same types in scopes with the same types. -/
theorem paramTypes_congr (params : List Param) : s.paramTypes params = t.paramTypes params := resolveAll_congr h _

/-- A signature is the same in scopes with the same types. -/
theorem functionDeclaration_congr (name : String) (generics : List String) (params : List Param) (ret : Option Annotation) :
    s.functionDeclaration name generics params ret = t.functionDeclaration name generics params ret := by
  cases ret with
  | none => rfl
  | some ret => simp only [functionDeclaration, paramTypes_congr h, resolve_congr h]

/-- A method's signature is the same in scopes with the same types. -/
theorem methodDeclaration_congr (receiver : Ty) (name : String) (params : List Param) (ret : Option Annotation) :
    s.methodDeclaration receiver name params ret = t.methodDeclaration receiver name params ret := by
  cases ret with
  | none => rfl
  | some ret => simp only [methodDeclaration, paramTypes_congr h, resolve_congr h]

/-- The layout of a record is the same in scopes with the same types. -/
theorem recordLayout_congr (name : String) (fields : List Param) : s.recordLayout name fields = t.recordLayout name fields := by
  simp only [recordLayout, paramTypes_congr h]

end

end Gradual.Scope
