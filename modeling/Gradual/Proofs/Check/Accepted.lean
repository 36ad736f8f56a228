import Mathlib
import Gradual.Proofs.Call.Result
import Gradual.Proofs.Check.Validity

/-!
# What can still be wrong with the type of an expression that is accepted

The type of an expression is read off without checking it, so it may fail where the check does. Of an accepted expression it fails
only for what the check never asks, the value that the expression has (`typeOf_error_of_checkExpr_ok`): the branches of a
conditional have different types, a block ends in a definition, or nothing binds a generic parameter of a call's result. All
names, types, fields and calls were found in order.
-/

namespace Gradual

/-- The rejections that are about the value of an expression. -/
inductive Rejection.OfValue : Rejection → Prop
  | branchTypes (expected actual : Ty) (span : Span) : OfValue ((Cause.branchTypes expected actual).at span)
  | notExpression (span : Span) : OfValue (Cause.notExpression.at span)
  | noCommonType (function : String) (span : Span) : OfValue ((Cause.noCommonType function []).at span)

/-- An outcome that fails, if it does, for the value of an expression only. -/
def Outcome.FailsByValue {α : Type} (x : Outcome α) : Prop := ∀ r, x = .error r → r.OfValue

namespace Outcome.FailsByValue

variable {α β : Type}

/-- What succeeds does not fail. -/
theorem ok (a : α) : FailsByValue (.ok a) := fun _ h => nomatch h

/-- What is known to succeed does not fail. -/
theorem of_eq_ok {x : Outcome α} {a : α} (h : x = .ok a) : FailsByValue x := h ▸ ok a

/-- A sequence of steps fails by value when each of them does. -/
theorem bind {x : Outcome α} {f : α → Outcome β} (hx : FailsByValue x) (hf : ∀ a, x = .ok a → FailsByValue (f a)) :
    FailsByValue (x >>= f) := by
  intro r hr
  rcases bind_eq_error_iff.1 hr with h | ⟨a, ha, h⟩
  · exact hx r h
  · exact hf a ha r h

end Outcome.FailsByValue

open Outcome

/-- The branches of a conditional have a common type unless two of them differ. -/
theorem failsByValue_commonBranchType (ts : List (Ty × Span)) : FailsByValue (commonBranchType ts) := by
  intro r hr
  unfold commonBranchType at hr
  split at hr
  · cases hr
  · split at hr
    · obtain rfl := Except.error.inj hr
      exact .branchTypes _ _ _
    · cases hr

namespace Scope

/-- An accepted name has a type, known or not. -/
theorem nameType_ok {s : Scope} {n : String} (h : (s.value? n).isSome = true) (span : Span) :
    ∃ t, s.nameType n span = .ok t := by
  obtain ⟨v, hv⟩ := Option.isSome_iff_exists.1 h
  unfold nameType
  rw [hv]
  match v with
  | .variable ty => exact ⟨ty, rfl⟩
  | .function none => exact ⟨none, rfl⟩
  | .function (some d) => exact ⟨_, rfl⟩

/-- The result of an accepted call fails by value: the types of its arguments were found, and they fit. -/
theorem failsByValue_call {s : Scope} {f : String} {args : List Expr} {span : Span}
    (h : (s.checkExpr (.call f args span)).verdict = .ok ()) : FailsByValue (s.typeOf (.call f args span)) := by
  obtain ⟨c, hc, -, hargs⟩ := checkExpr_call_iff.1 h
  rw [checkArguments_ok_iff] at hargs
  simp only [typeOf, hc]
  cases c with
  | untyped => exact .ok none
  | typed d =>
    dsimp only
    split
    · rename_i hg
      obtain ⟨ts, hts, hcall⟩ := hargs d rfl
      refine (FailsByValue.of_eq_ok hts).bind fun ts' hts' => ?_
      obtain rfl := Except.ok.inj (hts.symm.trans hts')
      intro r hr
      cases he : d.resultType ts with
      | ok t => rw [he] at hr; cases hr
      | error e =>
        obtain rfl := Declaration.resultType_error_of_checkCall_ok hg hcall he
        rw [he] at hr
        obtain rfl := Except.error.inj hr
        exact .noCommonType f span
    · exact .ok _

/-- The types of branches fail by value when each of them does. -/
theorem failsByValue_branchTypes {s : Scope} {bs : List Branch} (h : ∀ b ∈ bs, FailsByValue (s.blockType b.body)) :
    FailsByValue (s.branchTypes bs) := by
  induction bs with
  | nil => exact .ok _
  | cons b bs ih =>
    obtain ⟨condition, body⟩ := b
    rw [List.forall_mem_cons] at h
    rw [branchTypes]
    refine h.1.bind fun t _ => ?_
    cases t with
    | none => exact .ok none
    | some t =>
      refine (ih h.2).bind fun ts _ => ?_
      cases ts with
      | none => exact .ok none
      | some ts => exact .ok _

/-- A definition has no value. -/
theorem failsByValue_definition (s : Scope) {st : Stmt} (h : st.isDefinition = true) : FailsByValue (s.bodyType [st]) := by
  have hst : s.bodyType [st] = .error (Cause.notExpression.at st.span) := by
    cases st with
    | expr e => cases h
    | _ => rfl
  intro r hr
  obtain rfl := Except.error.inj (hst.symm.trans hr)
  exact .notExpression _

/-- The type of accepted statements fails by value when those of the expressions among them do. -/
theorem failsByValue_bodyType {s r : Scope} {stmts : List Stmt} (h : (s.checkStmts stmts).verdict = .ok r)
    (hs : ∀ st ∈ stmts, ∀ (s r : Scope), (s.checkStmt st).verdict = .ok r → FailsByValue (s.bodyType [st])) :
    FailsByValue (s.bodyType stmts) := by
  induction stmts generalizing s with
  | nil => exact .ok _
  | cons st stmts ih =>
    rw [List.forall_mem_cons] at hs
    obtain ⟨s₁, hst, h⟩ := checkStmts_cons_iff.1 h
    cases stmts with
    | nil => exact hs.1 s s₁ hst
    | cons st' stmts =>
      rw [bodyType_cons_cons, declare_of_checkStmt hst]
      exact ih h hs.2

/-- Each construct that is accepted fails by value, when its parts do. -/
theorem accepted_cases : TreeCases (fun e => ∀ s : Scope, (s.checkExpr e).verdict = .ok () → FailsByValue (s.typeOf e))
    (fun b => ∀ s : Scope, (s.checkBlock b).verdict = .ok () → FailsByValue (s.blockType b))
    (fun st => ∀ s r : Scope, (s.checkStmt st).verdict = .ok r → FailsByValue (s.bodyType [st])) where
  literal v span s _ := .ok _
  name n span s h := by
    obtain ⟨t, ht⟩ := nameType_ok (checkExpr_name_iff.1 h) span
    exact .of_eq_ok ht
  binary op l r span _ _ s _ := .ok _
  unary op e span _ s _ := .ok _
  call f args span _ s h := failsByValue_call h
  methodCall threading receiver m args span _ _ s h := by
    rw [verdict_checkExpr_methodCall] at h
    rw [typeOf_methodCall]
    exact failsByValue_call h
  member target field span _ s h := by
    obtain ⟨-, t, ht, m, hm⟩ := checkExpr_member_iff.1 h
    refine .of_eq_ok (a := m) ?_
    rw [typeOf, ht]
    exact hm
  get collection key span ih _ s h := by
    obtain ⟨hc, -⟩ := checkExpr_get_iff.1 h
    exact (ih s hc).bind fun t _ => .ok _
  vector items span _ s _ := .ok _
  map entries span _ s _ := .ok _
  block b ih s h := ih s h
  letIn bindings body span _ ih s h := by
    obtain ⟨inner, hi, hb⟩ := checkExpr_letIn_iff.1 h
    rw [typeOf, bindAll_of_checkBindings hi]
    exact ih inner hb
  forEach vars iterable body span _ _ s _ := .ok _
  cond branches otherwise span ih iho s h := by
    obtain ⟨hb, ho⟩ := checkExpr_cond_iff.1 h
    cases otherwise with
    | none => exact .ok none
    | some b =>
      have hbranches : ∀ b ∈ branches, FailsByValue (s.blockType b.body) := by
        intro b hm
        rw [← blockType_child]
        exact (ih b hm).2 s.child (hb b hm).2
      have hotherwise : FailsByValue (s.blockType b) := by
        rw [← blockType_child]
        exact iho b rfl s.child (ho b rfl)
      refine (failsByValue_branchTypes hbranches).bind fun ts _ => ?_
      cases ts with
      | none => exact .ok none
      | some ts =>
        refine hotherwise.bind fun t _ => ?_
        cases t with
        | none => exact .ok none
        | some t => exact failsByValue_commonBranchType _
  lambda params body span ih s h := by
    obtain ⟨inner, hi, hb⟩ := checkExpr_lambda_iff.1 h
    rw [typeOf]
    rcases lambdaScope_of_declareLambdaParams (fun n => (s.type?_child n).symm) hi with hl | ⟨ts, hl⟩
    · rw [hl]
      exact .ok none
    · rw [hl]
      exact (ih inner hb).bind fun t _ => .ok _
  paren e span ih s h := ih s h
  stmts stmts span ih s h := by
    obtain ⟨r, hr⟩ := checkBlock_iff.1 h
    exact failsByValue_bodyType hr ih
  function n generics params ret body span _ s r _ := failsByValue_definition s rfl
  record n fields implementations span _ s r _ := failsByValue_definition s rfl
  define n ty value span _ s r _ := failsByValue_definition s rfl
  expr e ih s r h := ih s (checkStmt_expr_iff.1 h).1

/-- Where the check accepts an expression, its type fails only for its value: because branches of a conditional have different
types, because a block ends in a definition, or because nothing binds a generic parameter of a call's result. -/
theorem typeOf_error_of_checkExpr_ok (s : Scope) (e : Expr) (h : (s.checkExpr e).verdict = .ok ()) (r : Rejection)
    (hr : s.typeOf e = .error r) :
    ∃ span, (∃ expected actual, r = (Cause.branchTypes expected actual).at span) ∨ r = Cause.notExpression.at span ∨
      ∃ function, r = (Cause.noCommonType function []).at span := by
  cases accepted_cases.all_exprs e s h r hr with
  | branchTypes expected actual span => exact ⟨span, Or.inl ⟨expected, actual, rfl⟩⟩
  | notExpression span => exact ⟨span, Or.inr (Or.inl rfl)⟩
  | noCommonType function span => exact ⟨span, Or.inr (Or.inr ⟨function, rfl⟩)⟩

/-- `{ defn <T> make() -> List<T> { nil } make() }`: nothing tells what `T` is. -/
def unboundResult : Expr :=
  .block ⟨[.function "make" ["T"] [] (some (.named "List" [.named "T" [] ⟨26, 27⟩] ⟨21, 28⟩))
    ⟨[.expr (.literal .nil ⟨31, 34⟩)], ⟨29, 36⟩⟩ ⟨2, 36⟩, .expr (.call "make" [] ⟨37, 43⟩)], ⟨0, 45⟩⟩

/-- The block is accepted where `List` is a type, and its type fails. -/
theorem unboundResult_error :
    ((empty.addType "List" (.simple "List")).checkExpr unboundResult).verdict = .ok () ∧
    (empty.addType "List" (.simple "List")).typeOf unboundResult = .error ((Cause.noCommonType "make" []).at ⟨37, 43⟩) ∧
    ∃ span, (∃ expected actual, (Cause.noCommonType "make" []).at ⟨37, 43⟩ = (Cause.branchTypes expected actual).at span) ∨
      (Cause.noCommonType "make" []).at ⟨37, 43⟩ = Cause.notExpression.at span ∨
      ∃ function, (Cause.noCommonType "make" []).at ⟨37, 43⟩ = (Cause.noCommonType function []).at span := by
  have hcheck : ((empty.addType "List" (.simple "List")).checkExpr unboundResult).verdict = .ok () := by cbv
  have htype : (empty.addType "List" (.simple "List")).typeOf unboundResult =
      .error ((Cause.noCommonType "make" []).at ⟨37, 43⟩) := by cbv
  exact ⟨hcheck, htype, typeOf_error_of_checkExpr_ok _ _ hcheck _ htype⟩

end Scope

end Gradual
