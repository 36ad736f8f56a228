import Gradual.Check.Validity
import Gradual.Proofs.Call.Result
import Gradual.Proofs.Check.Typing
import Gradual.Proofs.Scope.Closed

/-!
# Types without unknowns

In a closed scope every type that an expression is known to have is closed (`isOpen_typeOf`), and what a statement binds leaves
the scope closed: the unknowns of a call are solved in it, and never leave it.
-/

namespace Gradual

/-- The type of a literal is closed. -/
theorem Literal.isOpen_type (v : Literal) : v.type.isOpen = false := by cases v <;> rfl

/-- The type of an operation on two operands is closed. -/
theorem BinaryOp.isOpen_type (op : BinaryOp) : op.type.isOpen = false := by cases op <;> rfl

/-- The type of an operation on one operand is closed. -/
theorem UnaryOp.isOpen_type (op : UnaryOp) : op.type.isOpen = false := by cases op <;> rfl

/-- The elements of a sequence have the type that it is applied to. -/
theorem Ty.mem_children_of_element {c t : Ty} (h : c.element? = some t) : t ∈ c.children := by
  unfold Ty.element? at h
  split at h
  · split at h
    · obtain rfl := Option.some.inj h
      exact List.mem_singleton_self _
    · cases h
  · cases h

/-- The entries of a collection have one of the types that it is applied to. -/
theorem Ty.mem_children_of_entry {c t : Ty} (h : Ty.entry? c = some t) : t ∈ c.children := by
  unfold Ty.entry? at h
  split at h
  · rename_i e he
    obtain rfl := Option.some.inj h
    exact Ty.mem_children_of_element he
  · split at h
    · split at h
      · obtain rfl := Option.some.inj h
        exact List.mem_cons_of_mem _ (List.mem_singleton_self _)
      · cases h
    · cases h

/-- A part of a type without unknowns has none. -/
theorem Ty.isOpen_child {c t : Ty} (hc : c.isOpen = false) (h : t ∈ c.children) : t.isOpen = false :=
  Ty.isOpen_eq_false_of_contains hc (Ty.contains_of_child h (Ty.contains_self t))

/-- The common type of branches is the type of one of them. -/
theorem mem_of_commonBranchType {ts : List (Ty × Span)} {t : Ty} (h : commonBranchType ts = .ok (some t)) :
    ∃ m ∈ ts, m.1 = t := by
  unfold commonBranchType at h
  split at h
  · cases h
  · rename_i expected span others
    split at h
    · cases h
    · exact ⟨(expected, span), List.mem_cons_self, Option.some.inj (Except.ok.inj h)⟩

namespace Scope

variable {s : Scope}

/-! ## What is bound -/

/-- Methods keep a scope closed. -/
theorem Closed.declareMethods (h : s.Closed) {receiver : Ty} (hreceiver : receiver.isOpen = false) {ms : List Method} {r : Scope}
    (hr : s.declareMethods receiver ms = .ok r) : r.Closed := by
  induction ms generalizing s with
  | nil => exact Except.ok.inj hr ▸ h
  | cons m ms ih =>
    obtain ⟨n, params, ret, body, span⟩ := m
    obtain ⟨d, hd, hr⟩ := bind_eq_ok_iff.1 hr
    exact ih (h.addFunction n fun e he => closed_methodDeclaration h hreceiver hd he) hr

/-- Implementations keep a scope closed. -/
theorem Closed.declareImplementations (h : s.Closed) {receiver : Ty} (hreceiver : receiver.isOpen = false)
    {is : List Implementation} {r : Scope} (hr : s.declareImplementations receiver is = .ok r) : r.Closed := by
  induction is generalizing s with
  | nil => exact Except.ok.inj hr ▸ h
  | cons i is ih =>
    obtain ⟨protocol, methods, span⟩ := i
    obtain ⟨s₁, hs₁, hr⟩ := bind_eq_ok_iff.1 hr
    exact ih (h.declareMethods hreceiver hs₁) hr

/-- A function keeps a scope closed. -/
theorem Closed.declareFunction (h : s.Closed) {n : String} {generics : List String} {params : List Param}
    {ret : Option Annotation} {r : Scope} (hr : s.declareFunction n generics params ret = .ok r) : r.Closed := by
  obtain ⟨d, hd, hr⟩ := bind_eq_ok_iff.1 hr
  obtain rfl := Except.ok.inj hr
  exact h.addFunction n fun e he => closed_functionDeclaration (h.withGenerics n generics) hd he

/-- The type, the constructor and the layout of a record that is laid out in a closed scope leave it closed. -/
theorem Closed.bindRecord (h : s.Closed) {n : String} {fields : List Param} {layout : RecordLayout}
    (hl : (s.addType n (.simple n)).recordLayout n fields = .ok layout) :
    (((s.addType n (.simple n)).addFunction n (some layout.constructor)).addRecord layout).Closed :=
  Closed.bindLayout (closed_recordLayout (h.addType n rfl) hl) h n

/-- A record keeps a scope closed. -/
theorem Closed.declareRecord (h : s.Closed) {n : String} {fields : List Param} {is : List Implementation} {r : Scope}
    (hr : s.declareRecord n fields is = .ok r) : r.Closed := by
  obtain ⟨layout, hl, hr⟩ := bind_eq_ok_iff.1 hr
  exact (h.bindRecord hl).declareImplementations rfl hr

/-- The types of a lambda's parameters are closed, and the scope of its body is. -/
theorem Closed.lambdaScope (h : s.Closed) {inner : Scope} (hi : inner.Closed) {ps : List LambdaParam} {ts : List Ty} {r : Scope}
    (hr : s.lambdaScope inner ps = .ok (some (ts, r))) : (∀ t ∈ ts, t.isOpen = false) ∧ r.Closed := by
  induction ps generalizing inner ts with
  | nil =>
    obtain ⟨rfl, rfl⟩ := Prod.mk.inj (Option.some.inj (Except.ok.inj hr))
    exact ⟨List.forall_mem_nil _, hi⟩
  | cons p ps ih =>
    rw [Scope.lambdaScope] at hr
    cases hp : p.ty with
    | none =>
      rw [hp] at hr
      cases hr
    | some a =>
      rw [hp] at hr
      obtain ⟨t, ht, hr⟩ := bind_eq_ok_iff.1 hr
      obtain ⟨_ | ⟨us, r'⟩, hus, hr⟩ := bind_eq_ok_iff.1 hr
      · cases hr
      · obtain ⟨rfl, rfl⟩ := Prod.mk.inj (Option.some.inj (Except.ok.inj hr))
        have hto := isOpen_resolve h a ht
        obtain ⟨hclosed, hr'⟩ := ih (hi.addParameter p.name hto) hus
        exact ⟨List.forall_mem_cons.2 ⟨hto, hclosed⟩, hr'⟩

/-- Bindings keep a scope closed when their values have closed types. -/
theorem Closed.bindAll (h : s.Closed) {bs : List Binding}
    (hbs : ∀ b ∈ bs, ∀ s : Scope, s.Closed → ∀ t, s.typeOf b.value = .ok (some t) → t.isOpen = false) {r : Scope}
    (hr : s.bindAll bs = .ok r) : r.Closed := by
  induction bs generalizing s with
  | nil => exact Except.ok.inj hr ▸ h
  | cons b bs ih =>
    obtain ⟨n, value, span⟩ := b
    rw [List.forall_mem_cons] at hbs
    obtain ⟨ty, hty, hr⟩ := bind_eq_ok_iff.1 hr
    exact ih (h.addVariable n fun t ht => hbs.1 s h t (hty.trans (ht ▸ rfl))) hbs.2 hr

/-! ## The types of expressions -/

/-- The type of a name in a closed scope is closed. -/
theorem isOpen_nameType (h : s.Closed) {n : String} {span : Span} {t : Ty} (ht : s.nameType n span = .ok (some t)) :
    t.isOpen = false := by
  unfold nameType at ht
  split at ht
  · rename_i ty hv
    obtain rfl := Except.ok.inj ht
    exact h.value.1 t hv
  · rename_i d hv
    split at ht
    · cases ht
    · obtain rfl := Option.some.inj (Except.ok.inj ht)
      exact (h.value.2 d hv).functionType
  · cases ht
  · cases ht

/-- A call in a closed scope has a closed type, whatever its arguments are. -/
theorem isOpen_call (h : s.Closed) {f : String} {args : List Expr} {span : Span} {t : Ty}
    (ht : s.typeOf (.call f args span) = .ok (some t)) : t.isOpen = false := by
  rw [typeOf] at ht
  cases hc : s.callee? f with
  | none => rw [hc] at ht; cases ht
  | some c =>
    rw [hc] at ht
    cases c with
    | untyped => cases ht
    | typed d =>
      have hd := h.callee hc
      dsimp only at ht
      split at ht
      · obtain ⟨ts, -, ht⟩ := bind_eq_ok_iff.1 ht
        exact Declaration.isOpen_resultType hd (mapError_eq_ok_iff.1 ht)
      · obtain rfl := Option.some.inj (Except.ok.inj ht)
        exact hd.ret

/-- The type of a member in a closed scope is closed. -/
theorem isOpen_memberType (h : s.Closed) {target : Option Ty} {field : String} {span : Span} {t : Ty}
    (ht : s.memberType target field span = .ok (some t)) : t.isOpen = false := by
  unfold memberType at ht
  split at ht
  · cases ht
  · rename_i r hr
    obtain ⟨ty, -, hr⟩ := Option.bind_eq_some_iff.1 hr
    split at ht
    · rename_i u hu
      obtain rfl := Option.some.inj (Except.ok.inj ht)
      exact h.record hr hu
    · cases ht

/-- The types of branches are closed when those of their bodies are. -/
theorem isOpen_branchTypes {bs : List Branch} (hbs : ∀ b ∈ bs, ∀ t, s.blockType b.body = .ok (some t) → t.isOpen = false)
    {ts : List (Ty × Span)} (hts : s.branchTypes bs = .ok (some ts)) : ∀ m ∈ ts, m.1.isOpen = false := by
  induction bs generalizing ts with
  | nil =>
    obtain rfl := Option.some.inj (Except.ok.inj hts)
    exact List.forall_mem_nil _
  | cons b bs ih =>
    obtain ⟨condition, body⟩ := b
    rw [List.forall_mem_cons] at hbs
    obtain ⟨_ | t, ht, hts⟩ := bind_eq_ok_iff.1 hts
    · cases hts
    obtain ⟨_ | us, hus, hts⟩ := bind_eq_ok_iff.1 hts
    · cases hts
    obtain rfl := Option.some.inj (Except.ok.inj hts)
    exact List.forall_mem_cons.2 ⟨hbs.1 t ht, ih hbs.2 hus⟩

/-- The type of a body is closed when its statements keep the scope closed. -/
theorem isOpen_bodyType (h : s.Closed) {stmts : List Stmt}
    (hs : ∀ st ∈ stmts, ∀ s : Scope, s.Closed → (∀ r, s.declare st = .ok r → r.Closed) ∧
      ∀ t, s.bodyType [st] = .ok (some t) → t.isOpen = false) {t : Ty} (ht : s.bodyType stmts = .ok (some t)) :
    t.isOpen = false := by
  induction stmts generalizing s with
  | nil =>
    obtain rfl := Option.some.inj (Except.ok.inj ht)
    rfl
  | cons st stmts ih =>
    rw [List.forall_mem_cons] at hs
    cases stmts with
    | nil => exact (hs.1 s h).2 t ht
    | cons st' stmts =>
      rw [bodyType_cons_cons] at ht
      obtain ⟨s₁, hs₁, ht⟩ := bind_eq_ok_iff.1 ht
      exact ih ((hs.1 s h).1 s₁ hs₁) hs.2 ht

/-- Each construct in a closed scope has a closed type, and binds what is closed, when its parts do. -/
theorem closed_cases : TreeCases (fun e => ∀ s : Scope, s.Closed → ∀ t, s.typeOf e = .ok (some t) → t.isOpen = false)
    (fun b => ∀ s : Scope, s.Closed → ∀ t, s.blockType b = .ok (some t) → t.isOpen = false)
    (fun st => ∀ s : Scope, s.Closed → (∀ r, s.declare st = .ok r → r.Closed) ∧
      ∀ t, s.bodyType [st] = .ok (some t) → t.isOpen = false) where
  literal v span s h t ht := Option.some.inj (Except.ok.inj ht) ▸ v.isOpen_type
  name n span s h t ht := isOpen_nameType h ht
  binary op l r span _ _ s h t ht := Option.some.inj (Except.ok.inj ht) ▸ op.isOpen_type
  unary op e span _ s h t ht := Option.some.inj (Except.ok.inj ht) ▸ op.isOpen_type
  call f args span _ s h t ht := isOpen_call h ht
  methodCall threading receiver m args span _ _ s h t ht := by
    rw [typeOf_methodCall] at ht
    exact isOpen_call h ht
  member target field span _ s h t ht := by
    obtain ⟨ty, -, ht⟩ := bind_eq_ok_iff.1 ht
    exact isOpen_memberType h ht
  get collection key span ih _ s h t ht := by
    obtain ⟨ty, hty, ht⟩ := bind_eq_ok_iff.1 ht
    obtain ⟨c, rfl, hc⟩ := Option.bind_eq_some_iff.1 (Except.ok.inj ht)
    exact Ty.isOpen_child (ih s h c hty) (Ty.mem_children_of_entry hc)
  vector items span _ s h t ht := Option.some.inj (Except.ok.inj ht) ▸ rfl
  map entries span _ s h t ht := Option.some.inj (Except.ok.inj ht) ▸ rfl
  block b ih s h t ht := ih s h t ht
  letIn bindings body span ih ihb s h t ht := by
    obtain ⟨inner, hi, ht⟩ := bind_eq_ok_iff.1 ht
    exact ihb inner (h.child.bindAll ih hi) t ht
  forEach vars iterable body span _ _ s h t ht := Option.some.inj (Except.ok.inj ht) ▸ rfl
  cond branches otherwise span ih iho s h t ht := by
    cases otherwise with
    | none => cases ht
    | some b =>
      obtain ⟨_ | ts, hts, ht⟩ := bind_eq_ok_iff.1 ht
      · cases ht
      obtain ⟨_ | u, hu, ht⟩ := bind_eq_ok_iff.1 ht
      · cases ht
      obtain ⟨m, hm, rfl⟩ := mem_of_commonBranchType ht
      rcases List.mem_append.1 hm with hm | hm
      · exact isOpen_branchTypes (fun b hb => (ih b hb).2 s h) hts m hm
      · obtain rfl := List.mem_singleton.1 hm
        exact iho b rfl s h u hu
  lambda params body span ih s h t ht := by
    obtain ⟨_ | ⟨ts, inner⟩, hi, ht⟩ := bind_eq_ok_iff.1 ht
    · cases ht
    obtain ⟨ret, hret, ht⟩ := bind_eq_ok_iff.1 ht
    obtain ⟨r, rfl, rfl⟩ := Option.map_eq_some_iff.1 (Except.ok.inj ht)
    obtain ⟨hts, hinner⟩ := h.lambdaScope h.child hi
    exact (Ty.isOpen_function_eq_false_iff ts r).2 ⟨hts, ih inner hinner r hret⟩
  paren e span ih s h t ht := ih s h t ht
  stmts stmts span ih s h t ht := isOpen_bodyType h.child ih ht
  function n generics params ret body span _ s h := ⟨fun r hr => h.declareFunction hr, fun t ht => nomatch ht⟩
  record n fields implementations span _ s h := ⟨fun r hr => h.declareRecord hr, fun t ht => nomatch ht⟩
  define n ty value span ih s h := by
    refine ⟨fun r hr => ?_, fun t ht => nomatch ht⟩
    cases ty with
    | none =>
      obtain ⟨ty, hty, hr⟩ := bind_eq_ok_iff.1 hr
      obtain rfl := Except.ok.inj hr
      exact h.addVariable n fun t ht => ih s h t (hty.trans (ht ▸ rfl))
    | some a =>
      obtain ⟨t, ht, hr⟩ := bind_eq_ok_iff.1 hr
      obtain rfl := Except.ok.inj hr
      exact h.addVariable n fun u hu => Option.some.inj hu ▸ isOpen_resolve h a ht
  expr e ih s h := ⟨fun r hr => Except.ok.inj hr ▸ h, fun t ht => ih s h t ht⟩

/-- The type that an expression is known to have in a closed scope mentions no unknown. -/
theorem isOpen_typeOf (h : s.Closed) {e : Expr} {t : Ty} (ht : s.typeOf e = .ok (some t)) : t.isOpen = false :=
  closed_cases.all_exprs e s h t ht

/-- A statement keeps a scope closed. -/
theorem Closed.declare (h : s.Closed) {st : Stmt} {r : Scope} (hr : s.declare st = .ok r) : r.Closed :=
  (closed_cases.all_stmts st s h).1 r hr

/-- The variable of a loop in a closed scope has a closed type, if it is known. -/
theorem isOpen_loopVarType (h : s.Closed) {vars : List LocalName} {iterable : Expr} {t : Ty}
    (ht : s.loopVarType vars iterable = .ok (some t)) : t.isOpen = false := by
  unfold loopVarType at ht
  split at ht
  · obtain ⟨ty, hty, ht⟩ := bind_eq_ok_iff.1 ht
    obtain ⟨c, rfl, hc⟩ := Option.bind_eq_some_iff.1 (Except.ok.inj ht)
    exact Ty.isOpen_child (isOpen_typeOf h hty) (Ty.mem_children_of_element hc)
  · cases ht

end Scope

end Gradual
