import Mathlib
import Gradual.Proofs.Check.Accepted
import Gradual.Proofs.Check.Names
import Gradual.Proofs.Check.Visited

/-!
# What a rejection for a name tells

A rejection that says that a name is unknown, or declared twice, is right (`explained_cases`): somewhere in the program a part
asks for that name where it is not bound, or for a field that the record it is asked of does not have, or a level declares that
name a second time. All other reasons to reject are about types and calls.
-/

namespace Gradual

/-- Whether a rejection is about names: one that is not bound, or one that is declared twice. -/
def Rejection.isAboutNames : Rejection → Bool
  | .issue i => i.cause.category == .scope || i.cause.category == .resolution
  | .internal _ => false

/-- The rejection of a use of a name that is not bound. -/
def Use.rejection (u : Use) (span : Span) : Rejection :=
  match u with
  | .value n => (Cause.unknownVariable n).at span
  | .callee n => (Cause.unknownFunction n).at span
  | .type n => (Cause.unknownType n).at span

/-- What a rejection is explained by, among places of a program and the scopes that they are checked in. -/
inductive Explained (places : List Place) (scopes : List Scope) : Rejection → Prop
  | unbound {q : Place} {u : Use} {span : Span} (hq : q ∈ places) (hu : q.part.use? = some (u, span))
      (hserves : ¬q.names.Serves u) : Explained places scopes (u.rejection span)
  | field {q : Place} {s : Scope} {target : Expr} {n record : String} {fields : List String} {span : Span} (hq : q ∈ places)
      (hpart : q.part = .expr (.member target n span)) (hs : s ∈ scopes) (hbinds : s.Binds q.names)
      (htarget : s.typeOf target = .ok (some (.simple record))) (hkind : q.names.kind? record = some (.record fields))
      (hn : n ∉ fields) : Explained places scopes ((Cause.unknownVariable n).at span)
  | repeated {q : Place} {before after : List Declared} {d : Declared} (hq : q ∈ places)
      (hlevel : before ++ d :: after ∈ q.part.levels) (hd : d.Repeats before) : Explained places scopes d.rejection
  | repeatedField {q : Place} {record n : String} {fields : List Param} {is : List Implementation} {span : Span}
      {before after : List String} (hq : q ∈ places) (hpart : q.part = .stmt (.record record fields is span))
      (hfields : fields.map (·.name) = before ++ n :: after) (hn : n ∈ before) :
      Explained places scopes ((Cause.variableDeclared n).at span)
  | other {r : Rejection} (h : r.isAboutNames = false) : Explained places scopes r

/-- What explains a rejection goes on to do so among more places and scopes. -/
theorem Explained.mono {places places' : List Place} {scopes scopes' : List Scope} {r : Rejection}
    (h : Explained places scopes r) (hp : places ⊆ places') (hs : scopes ⊆ scopes') : Explained places' scopes' r := by
  cases h with
  | unbound hq hu hserves => exact .unbound (hp hq) hu hserves
  | field hq hpart hscope hbinds htarget hkind hn => exact .field (hp hq) hpart (hs hscope) hbinds htarget hkind hn
  | repeated hq hlevel hd => exact .repeated (hp hq) hlevel hd
  | repeatedField hq hpart hfields hn => exact .repeatedField (hp hq) hpart hfields hn
  | other h => exact .other h

/-- A rejection for a value's type is not about names. -/
theorem Rejection.OfValue.isAboutNames {r : Rejection} (h : r.OfValue) : r.isAboutNames = false := by
  cases h <;> rfl

/-- An error of a call is not about names. -/
theorem Outcome.isAboutNames_of_ofCall {α : Type} {f : String} {span : Span} {x : Except CallError α} {r : Rejection}
    (h : Outcome.ofCall f span x = .error r) : r.isAboutNames = false := by
  cases x with
  | ok a => cases h
  | error e =>
    obtain rfl := Except.error.inj h
    cases e <;> rfl

/-- An error of the checker is not about names. -/
theorem Outcome.isAboutNames_of_ofInternal {α : Type} {x : Except InternalError α} {r : Rejection}
    (h : Outcome.ofInternal x = .error r) : r.isAboutNames = false := by
  cases x with
  | ok a => cases h
  | error e =>
    obtain rfl := Except.error.inj h
    rfl

/-- What follows a success is among what may follow. -/
theorem subset_following {ε α β : Type} {x : Except ε α} {a : α} (h : x = .ok a) (f : α → List β) : f a ⊆ following x f :=
  fun _ hb => mem_following_iff.2 ⟨a, h, hb⟩

/-! ## Levels -/

namespace Declared

/-- A rejection is that of one of the declarations `new`, which repeats one of those before it or of `before`. -/
def Clash (before new : List Declared) (r : Rejection) : Prop :=
  ∃ pre d post, new = pre ++ d :: post ∧ d.Repeats (before ++ pre) ∧ r = d.rejection

variable {before new : List Declared} {r : Rejection}

/-- A declaration that repeats one from before clashes. -/
theorem Clash.head {d : Declared} (h : d.Repeats before) (new : List Declared) : Clash before (d :: new) d.rejection :=
  ⟨[], d, new, rfl, by rwa [List.append_nil], rfl⟩

/-- A clash stays one when more is declared after it. -/
theorem Clash.append_left (h : Clash before new r) (more : List Declared) : Clash before (new ++ more) r := by
  obtain ⟨pre, d, post, rfl, hd, hr⟩ := h
  exact ⟨pre, d, post ++ more, by simp, hd, hr⟩

/-- What clashes after more has been declared clashes among all of it. -/
theorem Clash.append_right {mid : List Declared} (h : Clash (before ++ mid) new r) : Clash before (mid ++ new) r := by
  obtain ⟨pre, d, post, rfl, hd, hr⟩ := h
  exact ⟨mid ++ pre, d, post, by simp, by rwa [← List.append_assoc], hr⟩

/-- Fields of different names do not clash. -/
theorem Clash.not_nodup {fields : List Param} (h : Clash [] (fields.map Param.declared) r) : ¬(fields.map (·.name)).Nodup := by
  intro hnodup
  obtain ⟨pre, d, post, hnew, hd, -⟩ := h
  have hmem : d ∈ fields.map Param.declared := by simp [hnew]
  obtain ⟨p, -, rfl⟩ := List.mem_map.1 hmem
  rw [List.nil_append] at hd
  rw [← values_fields, hnew, values_append, List.nodup_append] at hnodup
  rcases hd.2 with hd | ⟨hkind, -⟩
  · exact hnodup.2.2 _ hd p.name (List.mem_map.2 ⟨p.declared, by simp [isValue, Param.declared], rfl⟩) rfl
  · cases hkind

/-- A clash among the declarations of one level explains the rejection. -/
theorem Clash.explained (h : Clash [] new r) {places : List Place} {q : Place} (hq : q ∈ places) (hl : new ∈ q.part.levels)
    (scopes : List Scope) : Explained places scopes r := by
  obtain ⟨pre, d, post, rfl, hd, rfl⟩ := h
  exact .repeated hq hl hd

end Declared

open Declared

namespace Scope

variable {s : Scope} {Γ : Names} {ds : List Declared} {r : Rejection}

/-- A declaration that is refused because the level has its name as a value repeats one of the level. -/
theorem Tracks.repeats_of_refused (h : s.Tracks Γ ds) {d : Declared} (hd : d.isValue = true)
    (hr : (if s.level.hasValue d.name then .error d.rejection else .ok () : Outcome Unit) = .error r) (new : List Declared) :
    Clash ds (d :: new) r := by
  by_cases hn : s.level.hasValue d.name = true
  · rw [if_pos hn] at hr
    obtain rfl := Except.error.inj hr
    exact .head ⟨hd, Or.inl ((h.value d.name).1 hn)⟩ new
  · rw [if_neg hn] at hr
    cases hr

/-- A variable that is refused repeats a declaration of the level. -/
theorem Tracks.repeats_of_ensureNewVariable (h : s.Tracks Γ ds) {n : String} {span : Span}
    (hr : s.ensureNewVariable n span = .error r) (new : List Declared) : Clash ds (⟨n, span, .var⟩ :: new) r :=
  h.repeats_of_refused (d := ⟨n, span, .var⟩) rfl hr new

/-- A function that is refused repeats a declaration of the level. -/
theorem Tracks.repeats_of_ensureNewFunction (h : s.Tracks Γ ds) {n : String} {span : Span}
    (hr : s.ensureNewFunction n span = .error r) (new : List Declared) : Clash ds (⟨n, span, .function⟩ :: new) r :=
  h.repeats_of_refused (d := ⟨n, span, .function⟩) rfl hr new

/-- A record that is refused repeats a declaration of the level, or has the name of a type of it. -/
theorem Tracks.repeats_of_ensureNewRecord (h : s.Tracks Γ ds) {n : String} {span : Span}
    (hr : s.ensureNewRecord n span = .error r) (new : List Declared) : Clash ds (⟨n, span, .record⟩ :: new) r := by
  unfold ensureNewRecord at hr
  by_cases ht : s.level.hasType n = true
  · rw [if_pos ht] at hr
    obtain rfl := Except.error.inj hr
    exact Clash.head (d := ⟨n, span, .record⟩) ⟨rfl, Or.inr ⟨rfl, (h.type n).1 ht⟩⟩ new
  · rw [if_neg ht] at hr
    exact h.repeats_of_refused (d := ⟨n, span, .record⟩) rfl hr new

/-! ## Annotations -/

mutual

/-- An annotation that stands for no type names something that is no type. -/
theorem explained_of_resolve (h : ∀ n, (s.type? n).isSome = true ↔ (Γ.kind? n).isSome = true) : ∀ a : Annotation,
    s.resolve a = .error r → Explained (Γ.placesOfType a) [] r
  | .named n as span, hr => by
    rw [resolve] at hr
    rw [Names.placesOfType]
    cases hn : s.type? n with
    | none =>
      rw [hn] at hr
      obtain rfl := Except.error.inj hr
      refine .unbound (u := .type n) List.mem_cons_self rfl fun hserves => ?_
      have htype := (h n).2 hserves
      rw [hn] at htype
      cases htype
    | some base =>
      rw [hn] at hr
      cases as with
      | nil => cases hr
      | cons a as =>
        rcases bind_eq_error_iff.1 hr with hr | ⟨ts, -, hr⟩
        · exact (explained_of_resolveAll h (a :: as) hr).mono (List.subset_cons_self _ _) (List.Subset.refl _)
        · cases hr
  | .function ps t span, hr => by
    rw [resolve] at hr
    rw [Names.placesOfType]
    rcases bind_eq_error_iff.1 hr with hr | ⟨ts, -, hr⟩
    · refine (explained_of_resolveAll h ps hr).mono (fun q hq => ?_) (List.Subset.refl _)
      exact List.mem_cons_of_mem _ (List.mem_append_left _ hq)
    · rcases bind_eq_error_iff.1 hr with hr | ⟨u, -, hr⟩
      · refine (explained_of_resolve h t hr).mono (fun q hq => ?_) (List.Subset.refl _)
        exact List.mem_cons_of_mem _ (List.mem_append_right _ hq)
      · cases hr

/-- Annotations are rejected for the name of a type that is not bound. -/
theorem explained_of_resolveAll (h : ∀ n, (s.type? n).isSome = true ↔ (Γ.kind? n).isSome = true) : ∀ as : List Annotation,
    s.resolveAll as = .error r → Explained (Γ.placesOfTypes as) [] r
  | [], hr => by cases hr
  | a :: as, hr => by
    rw [resolveAll] at hr
    rw [Names.placesOfTypes]
    rcases bind_eq_error_iff.1 hr with hr | ⟨t, -, hr⟩
    · exact (explained_of_resolve h a hr).mono (List.subset_append_left _ _) (List.Subset.refl _)
    · rcases bind_eq_error_iff.1 hr with hr | ⟨ts, -, hr⟩
      · exact (explained_of_resolveAll h as hr).mono (List.subset_append_right _ _) (List.Subset.refl _)
      · cases hr

end

/-- A signature that cannot be made has an annotation that stands for no type. -/
theorem explained_of_signature {params : List Param} {a : Annotation} {make : List Ty → Ty → Except InternalError Declaration}
    (h : ∀ n, (s.type? n).isSome = true ↔ (Γ.kind? n).isSome = true)
    (hr : (s.paramTypes params >>= fun ts => s.resolve a >>= fun t => Outcome.ofInternal (make ts t) >>= fun d =>
      pure (some d) : Outcome (Option Declaration)) = .error r) :
    Explained (Γ.placesOfParams params ++ Γ.placesOfType? (some a)) [] r := by
  rcases bind_eq_error_iff.1 hr with hr | ⟨ts, -, hr⟩
  · exact (explained_of_resolveAll h _ hr).mono (List.subset_append_left _ _) (List.Subset.refl _)
  · rcases bind_eq_error_iff.1 hr with hr | ⟨t, -, hr⟩
    · refine (explained_of_resolve h a hr).mono (fun q hq => ?_) (List.Subset.refl _)
      exact List.mem_append_right _ (List.mem_append_left _ hq)
    · rcases bind_eq_error_iff.1 hr with hr | ⟨d, -, hr⟩
      · exact .other (Outcome.isAboutNames_of_ofInternal hr)
      · cases hr

/-- A signature is rejected for the name of a type that is not bound. -/
theorem explained_of_functionDeclaration {n : String} {generics : List String} {params : List Param} {ret : Option Annotation}
    (h : ∀ n, (s.type? n).isSome = true ↔ (Γ.kind? n).isSome = true)
    (hr : s.functionDeclaration n generics params ret = .error r) :
    Explained (Γ.placesOfParams params ++ Γ.placesOfType? ret) [] r := by
  cases ret with
  | none => cases hr
  | some a => exact explained_of_signature h hr

/-- A method's signature is rejected for the name of a type that is not bound. -/
theorem explained_of_methodDeclaration {receiver : Ty} {n : String} {params : List Param} {ret : Option Annotation}
    (h : ∀ n, (s.type? n).isSome = true ↔ (Γ.kind? n).isSome = true)
    (hr : s.methodDeclaration receiver n params ret = .error r) :
    Explained (Γ.placesOfParams params ++ Γ.placesOfType? ret) [] r := by
  cases ret with
  | none => cases hr
  | some a => exact explained_of_signature h hr

/-! ## Lists of names -/

/-- Parameters cannot be bound when an annotation stands for no type, or when a name is declared twice. -/
theorem cases_of_declareParams_error {ps : List Param} (h : s.Tracks Γ ds) (hr : s.declareParams ps = .error r) :
    s.paramTypes ps = .error r ∨ Clash ds (ps.map Param.declared) r := by
  induction ps generalizing s Γ ds with
  | nil => cases hr
  | cons p ps ih =>
    rw [declareParams] at hr
    rcases bind_eq_error_iff.1 hr with hr | ⟨⟨⟩, hnew, hr⟩
    · exact Or.inr (h.repeats_of_ensureNewVariable hr _)
    · rw [paramTypes, List.map_cons, resolveAll]
      rcases bind_eq_error_iff.1 hr with hr | ⟨t, ht, hr⟩
      · exact Or.inl (by rw [hr]; rfl)
      · rcases ih (h.addParameter p.span (ensureNewVariable_ok_iff.1 hnew) t) hr with he | hc
        · rw [paramTypes_congr (type?_addParameter s p.name t), paramTypes] at he
          exact Or.inl (by rw [ht, ok_bind, he]; rfl)
        · exact Or.inr hc.append_right

/-- The parameters of a lambda are rejected for the name of a type, or for a name that two of them have. -/
theorem explained_of_declareLambdaParams {Δ : Names} {ps : List LambdaParam} (h : s.Tracks Γ ds)
    (ht : ∀ n, (s.type? n).isSome = true ↔ (Δ.kind? n).isSome = true) (hr : s.declareLambdaParams ps = .error r) :
    Explained (Δ.placesOfTypes (ps.filterMap (·.ty))) [] r ∨ Clash ds (ps.map LambdaParam.declared) r := by
  induction ps generalizing s Γ ds with
  | nil => cases hr
  | cons p ps ih =>
    rw [declareLambdaParams] at hr
    rcases bind_eq_error_iff.1 hr with hr | ⟨⟨⟩, hnew, hr⟩
    · exact Or.inr (h.repeats_of_ensureNewVariable hr _)
    · rw [ensureNewVariable_ok_iff] at hnew
      cases hp : p.ty with
      | none =>
        rw [hp] at hr
        rw [List.filterMap_cons_none hp]
        rcases ih (h.addVariable p.span hnew none) ht hr with he | hc
        · exact Or.inl he
        · exact Or.inr hc.append_right
      | some a =>
        rw [hp] at hr
        rw [List.filterMap_cons_some hp, Names.placesOfTypes]
        rcases bind_eq_error_iff.1 hr with hr | ⟨t, -, hr⟩
        · exact Or.inl ((explained_of_resolve ht a hr).mono (List.subset_append_left _ _) (List.Subset.refl _))
        · have hparam := h.addParameter p.span hnew t
          rcases ih hparam (fun n => by rw [type?_addParameter]; exact ht n) hr with he | hc
          · exact Or.inl (he.mono (List.subset_append_right _ _) (List.Subset.refl _))
          · exact Or.inr hc.append_right

/-- Loop variables are rejected for a name that two of them have. -/
theorem clash_of_declareLoopVars {ty : Option Ty} {vs : List LocalName} (h : s.Tracks Γ ds)
    (hr : s.declareLoopVars ty vs = .error r) : Clash ds (vs.map LocalName.declared) r := by
  induction vs generalizing s Γ ds with
  | nil => cases hr
  | cons v vs ih =>
    rw [declareLoopVars] at hr
    rcases bind_eq_error_iff.1 hr with hr | ⟨⟨⟩, hnew, hr⟩
    · exact h.repeats_of_ensureNewVariable hr _
    · exact (ih (h.addVariable v.span (ensureNewVariable_ok_iff.1 hnew) ty) hr).append_right

/-! ## Expressions -/

/-- The type of an accepted expression does not fail for a name. -/
theorem isAboutNames_of_typeOf {e : Expr} (h : (s.checkExpr e).verdict = .ok ()) (hr : s.typeOf e = .error r) :
    r.isAboutNames = false := (accepted_cases.all_exprs e s h r hr).isAboutNames

/-- Where the arguments are accepted, their types are not rejected for a name. -/
theorem isAboutNames_of_argTypes {d : Declaration} {i : Nat} {args : List Expr}
    (h : ∀ e ∈ args, (s.checkExpr e).verdict = .ok ()) (hr : s.argTypes d i args = .error r) : r.isAboutNames = false := by
  induction args generalizing i with
  | nil => cases hr
  | cons e es ih =>
    rw [List.forall_mem_cons] at h
    rw [argTypes] at hr
    rcases bind_eq_error_iff.1 hr with hr | ⟨t, -, hr⟩
    · unfold argType at hr
      split at hr
      · cases hr
      · exact isAboutNames_of_typeOf h.1 hr
    · rcases bind_eq_error_iff.1 hr with hr | ⟨ts, -, hr⟩
      · exact ih h.2 hr
      · cases hr

/-- Where the arguments are accepted, a call is not rejected for a name in them. -/
theorem isAboutNames_of_checkArguments {c : Callee} {f : String} {args : List Expr} {span : Span}
    (h : ∀ e ∈ args, (s.checkExpr e).verdict = .ok ()) (hr : (s.checkArguments c f args span).verdict = .error r) :
    r.isAboutNames = false := by
  cases c with
  | untyped => cases hr
  | typed d =>
    simp only [checkArguments, Run.verdict_bind, Run.verdict_ofExcept, Run.verdict_log] at hr
    rcases bind_eq_error_iff.1 hr with hr | ⟨ts, -, hr⟩
    · exact isAboutNames_of_argTypes h hr
    · exact Outcome.isAboutNames_of_ofCall hr

/-- Expressions are rejected when one of them is, for the same reason. -/
theorem exists_of_checkExprs_error {es : List Expr} (hr : (s.checkExprs es).verdict = .error r) :
    ∃ e ∈ es, (s.checkExpr e).verdict = .error r := by
  induction es with
  | nil =>
    rw [checkExprs] at hr
    cases hr
  | cons e es ih =>
    rw [checkExprs, Run.verdict_bind] at hr
    rcases bind_eq_error_iff.1 hr with hr | ⟨-, -, hr⟩
    · exact ⟨e, List.mem_cons_self, hr⟩
    · obtain ⟨e', he', hr⟩ := ih hr
      exact ⟨e', List.mem_cons_of_mem _ he', hr⟩

/-- A call is rejected because nothing of its name is bound, because of an argument, or because the arguments do not fit. -/
theorem cases_of_checkExpr_call_error {f : String} {args : List Expr} {span : Span}
    (hr : (s.checkExpr (.call f args span)).verdict = .error r) :
    (s.callee? f = none ∧ r = (Cause.unknownFunction f).at span) ∨ (∃ e ∈ args, (s.checkExpr e).verdict = .error r) ∨
      r.isAboutNames = false := by
  simp only [checkExpr, Run.verdict_bind, Run.verdict_ofExcept] at hr
  rcases bind_eq_error_iff.1 hr with hr | ⟨c, -, hr⟩
  · refine Or.inl ?_
    unfold expectCallee at hr
    cases hc : s.callee? f with
    | none =>
      rw [hc] at hr
      exact ⟨rfl, (Except.error.inj hr).symm⟩
    | some c =>
      rw [hc] at hr
      cases hr
  · rcases bind_eq_error_iff.1 hr with hr | ⟨⟨⟩, hargs, hr⟩
    · exact Or.inr (Or.inl (exists_of_checkExprs_error hr))
    · exact Or.inr (Or.inr (isAboutNames_of_checkArguments (checkExprs_ok_iff.1 hargs) hr))

/-- The places of an expression are among those of the list it stands in. -/
theorem places_subset_all {es : List Expr} {e : Expr} (he : e ∈ es) : Γ.places e ⊆ Γ.placesOfAll es := by
  induction es with
  | nil => cases he
  | cons e' es ih =>
    rw [Names.placesOfAll]
    rcases List.mem_cons.1 he with rfl | he
    · exact List.subset_append_left _ _
    · exact List.subset_append_of_subset_right _ (ih he)

/-- The scopes of an expression are among those of the list it stands in. -/
theorem visited_subset_all {es : List Expr} {e : Expr} (he : e ∈ es) : s.visited e ⊆ s.visitedAll es := by
  induction es with
  | nil => cases he
  | cons e' es ih =>
    rw [visitedAll]
    rcases List.mem_cons.1 he with rfl | he
    · exact List.subset_append_left _ _
    · exact List.subset_append_of_subset_right _ (ih he)

/-- The entries of a map are rejected for what explains it in a key or a value. -/
theorem explained_of_checkEntries {es : List Entry}
    (ih : ∀ e ∈ es, (∀ r, (s.checkExpr e.key).verdict = .error r → Explained (Γ.places e.key) (s.visited e.key) r) ∧
      ∀ r, (s.checkExpr e.value).verdict = .error r → Explained (Γ.places e.value) (s.visited e.value) r)
    (hr : (s.checkEntries es).verdict = .error r) : Explained (Γ.placesOfEntries es) (s.visitedEntries es) r := by
  induction es with
  | nil =>
    rw [checkEntries] at hr
    cases hr
  | cons e es ihes =>
    obtain ⟨key, value⟩ := e
    rw [List.forall_mem_cons] at ih
    rw [checkEntries, Run.verdict_bind] at hr
    rw [Names.placesOfEntries, visitedEntries]
    rcases bind_eq_error_iff.1 hr with hr | ⟨-, -, hr⟩
    · exact (ih.1.1 r hr).mono (List.subset_append_left _ _) (List.subset_append_left _ _)
    · refine Explained.mono ?_ (List.subset_append_right _ _) (List.subset_append_right _ _)
      rw [Run.verdict_bind] at hr
      rcases bind_eq_error_iff.1 hr with hr | ⟨-, -, hr⟩
      · exact (ih.1.2 r hr).mono (List.subset_append_left _ _) (List.subset_append_left _ _)
      · exact (ihes ih.2 hr).mono (List.subset_append_right _ _) (List.subset_append_right _ _)

/-- Branches are rejected for what explains it in a condition or a body. -/
theorem explained_of_checkBranches {bs : List Branch}
    (ih : ∀ b ∈ bs,
      (∀ r, (s.checkExpr b.condition).verdict = .error r → Explained (Γ.places b.condition) (s.visited b.condition) r) ∧
      ∀ r, (s.checkBlock b.body).verdict = .error r → Explained (Γ.placesOfBlock b.body) (s.visitedBlock b.body) r)
    (hr : (s.checkBranches bs).verdict = .error r) : Explained (Γ.placesOfBranches bs) (s.visitedBranches bs) r := by
  induction bs with
  | nil =>
    rw [checkBranches] at hr
    cases hr
  | cons b bs ihbs =>
    obtain ⟨condition, body⟩ := b
    rw [List.forall_mem_cons] at ih
    rw [checkBranches, Run.verdict_bind] at hr
    rw [Names.placesOfBranches, visitedBranches]
    rcases bind_eq_error_iff.1 hr with hr | ⟨-, -, hr⟩
    · exact (ih.1.1 r hr).mono (List.subset_append_left _ _) (List.subset_append_left _ _)
    · refine Explained.mono ?_ (List.subset_append_right _ _) (List.subset_append_right _ _)
      rw [Run.verdict_bind] at hr
      rcases bind_eq_error_iff.1 hr with hr | ⟨-, -, hr⟩
      · exact (ih.1.2 r hr).mono (List.subset_append_left _ _) (List.subset_append_left _ _)
      · exact (ihbs ih.2 hr).mono (List.subset_append_right _ _) (List.subset_append_right _ _)

/-- The rejection of an expression is explained by its parts, wherever it stands. -/
def Explains (e : Expr) : Prop :=
  ∀ (s : Scope) (Γ : Names) (r : Rejection), s.Binds Γ → (s.checkExpr e).verdict = .error r →
    Explained (Γ.places e) (s.visited e) r

def ExplainsBlock (b : Block) : Prop :=
  ∀ (s : Scope) (Γ : Names) (r : Rejection), s.Binds Γ → (s.checkBlock b).verdict = .error r →
    Explained (Γ.placesOfBlock b) (s.visitedBlock b) r

/-- The rejection of a statement is explained by its parts, or by what its level declares before it. -/
def ExplainsStmt (st : Stmt) : Prop :=
  ∀ (s : Scope) (Γ : Names) (ds : List Declared) (r : Rejection), s.Tracks Γ ds → (s.checkStmt st).verdict = .error r →
    Explained (Γ.placesOfStmt st) (s.visitedStmt st) r ∨ Clash ds st.declared r

/-- Bindings are rejected for what explains it in a value, or for a name that is declared already. -/
theorem explained_of_checkBindings {bs : List Binding} (ih : ∀ b ∈ bs, Explains b.value) (h : s.Tracks Γ ds)
    (hr : (s.checkBindings bs).verdict = .error r) :
    Explained (Γ.placesOfBindings bs) (s.visitedBindings bs) r ∨ Clash ds (bs.map Binding.declared) r := by
  induction bs generalizing s Γ ds with
  | nil =>
    rw [checkBindings] at hr
    cases hr
  | cons b bs ihbs =>
    obtain ⟨n, value, span⟩ := b
    rw [List.forall_mem_cons] at ih
    simp only [checkBindings, Run.verdict_bind, Run.verdict_ofExcept] at hr
    rw [Names.placesOfBindings, visitedBindings]
    rcases bind_eq_error_iff.1 hr with hr | ⟨⟨⟩, hnew, hr⟩
    · exact Or.inr (h.repeats_of_ensureNewVariable hr _)
    · have hscopes := List.subset_cons_of_subset s (subset_following hnew fun _ =>
        s.visited value ++ following (s.typeOf value) fun t => (s.addVariable n t).visitedBindings bs)
      rcases bind_eq_error_iff.1 hr with hr | ⟨⟨⟩, hvalue, hr⟩
      · refine Or.inl ((ih.1 s Γ r h.binds hr).mono (List.subset_append_left _ _) ?_)
        exact List.Subset.trans (List.subset_append_left _ _) hscopes
      · rcases bind_eq_error_iff.1 hr with hr | ⟨t, ht, hr⟩
        · exact Or.inl (.other (isAboutNames_of_typeOf hvalue hr))
        · rcases ihbs ih.2 (h.addVariable span (ensureNewVariable_ok_iff.1 hnew) t) hr with he | hc
          · refine Or.inl (he.mono (List.subset_append_right _ _) (List.Subset.trans ?_ hscopes))
            exact List.subset_append_of_subset_right _ (subset_following ht fun t => (s.addVariable n t).visitedBindings bs)
          · exact Or.inr hc.append_right

/-! ## Statements -/

/-- A variable that does not fit its annotation is no matter of names, but the annotation may be. -/
theorem explained_of_variableType {n : String} {ty : Option Annotation} {value : Option Ty} {span : Span} (h : s.Binds Γ)
    (hr : s.variableType n ty value span = .error r) : Explained (Γ.placesOfType? ty) [] r := by
  cases ty with
  | none => cases hr
  | some a =>
    rw [variableType] at hr
    rcases bind_eq_error_iff.1 hr with hr | ⟨expected, -, hr⟩
    · exact (explained_of_resolve h.type a hr).mono (List.subset_append_left _ _) (List.Subset.refl _)
    · refine .other ?_
      cases value with
      | none => cases hr
      | some actual =>
        dsimp only at hr
        split at hr
        · cases hr
        · obtain rfl := Except.error.inj hr
          rfl

/-- Statements are rejected for what explains it in one of them, or for a name that the level declares twice. -/
theorem explained_of_checkStmts {stmts : List Stmt} (ih : ∀ st ∈ stmts, ExplainsStmt st) (h : s.Tracks Γ ds)
    (hr : (s.checkStmts stmts).verdict = .error r) :
    Explained (Γ.placesOfStmts stmts) (s.visitedStmts stmts) r ∨ Clash ds (stmts.flatMap Stmt.declared) r := by
  induction stmts generalizing s Γ ds with
  | nil =>
    rw [checkStmts] at hr
    cases hr
  | cons st stmts ihs =>
    rw [List.forall_mem_cons] at ih
    rw [checkStmts, Run.verdict_bind] at hr
    rw [Names.placesOfStmts, visitedStmts, List.flatMap_cons]
    rcases bind_eq_error_iff.1 hr with hr | ⟨s₁, hs₁, hr⟩
    · rcases ih.1 s Γ ds r h hr with he | hc
      · exact Or.inl (he.mono (List.subset_append_left _ _) (List.subset_append_left _ _))
      · exact Or.inr (hc.append_left _)
    · rcases ihs ih.2 (tracks_of_checkStmt h hs₁) hr with he | hc
      · refine Or.inl (he.mono (List.subset_append_right _ _) ?_)
        exact List.subset_append_of_subset_right _ (subset_following hs₁ fun r => r.visitedStmts stmts)
      · exact Or.inr hc.append_right

section Methods

variable {record n : String} {fields params : List Param} {ret : Option Annotation} {body : Block} {span : Span}
  {ms : List Method} {d : Option Declaration} (hnew : s.ensureNewFunction n span = .ok ())
  (hd : s.methodDeclaration (.simple record) n params ret = .ok d)

include hnew hd

/-- The methods after a method are checked where it is bound. -/
theorem visitedMethods_subset_methods :
    (s.addFunction n d).visitedMethods record fields ms ⊆
      s.visitedMethods record fields (⟨n, params, ret, body, span⟩ :: ms) := by
  intro q hq
  rw [visitedMethods]
  refine List.mem_cons_of_mem _ (mem_following_iff.2 ⟨(), hnew, ?_⟩)
  refine mem_following_iff.2 ⟨d, hd, ?_⟩
  exact List.mem_append_right _ (List.mem_append_right _ hq)

/-- The body of a method is checked where the method, the fields, the receiver and the parameters are bound. -/
theorem visitedBlock_subset_methods {around inner : Scope} (haround : (s.addFunction n d).child.declareParams fields = .ok around)
    (hinner : (around.child.addVariable "self" (some (.simple record))).declareParams params = .ok inner) :
    inner.visitedBlock body ⊆ s.visitedMethods record fields (⟨n, params, ret, body, span⟩ :: ms) := by
  intro q hq
  rw [visitedMethods]
  refine List.mem_cons_of_mem _ (mem_following_iff.2 ⟨(), hnew, ?_⟩)
  refine mem_following_iff.2 ⟨d, hd, ?_⟩
  refine List.mem_append_right _ (List.mem_append_left _ ?_)
  refine mem_following_iff.2 ⟨around, haround, ?_⟩
  refine List.mem_append_right _ ?_
  exact mem_following_iff.2 ⟨inner, hinner, hq⟩

end Methods

/-- The rejection of methods is explained by their parts, by the level of the parameters of a method, or by what the level of the
record declares before them. The fields are no reason: they were found in order with the record. -/
theorem explained_of_checkMethods {record : String} {fields : List Param} {ts : List Ty} {ms : List Method}
    (hfields : (fields.map (·.name)).Nodup) (hts : s.paramTypes fields = .ok ts) (ih : ∀ m ∈ ms, ExplainsBlock m.body)
    (h : s.Tracks Γ ds) (hr : (s.checkMethods (.simple record) fields ms).verdict = .error r) :
    Explained (Γ.placesOfMethods fields ms) (s.visitedMethods record fields ms) r ∨
      (∃ m ∈ ms, Clash [] (m.receiver :: m.params.map Param.declared) r) ∨ Clash ds (ms.map Method.declared) r := by
  induction ms generalizing s Γ ds with
  | nil =>
    rw [checkMethods] at hr
    cases hr
  | cons m ms ihms =>
    obtain ⟨n, params, ret, body, span⟩ := m
    rw [List.forall_mem_cons] at ih
    simp only [checkMethods, Run.verdict_bind, Run.verdict_ofExcept, Run.verdict_log] at hr
    rw [Names.placesOfMethods, ← List.append_assoc]
    rcases bind_eq_error_iff.1 hr with hr | ⟨⟨⟩, hnew, hr⟩
    · exact Or.inr (Or.inr (h.repeats_of_ensureNewFunction hr _))
    rcases bind_eq_error_iff.1 hr with hr | ⟨d, hd, hr⟩
    · exact Or.inl ((explained_of_methodDeclaration h.binds.type hr).mono (List.subset_append_left _ _) (List.nil_subset _))
    rw [ok_bind] at hr
    have hmethod := h.addFunction span (ensureNewFunction_ok_iff.1 hnew) d
    have hbound : (s.addFunction n d).paramTypes fields = .ok ts :=
      (paramTypes_congr (s := s.addFunction n d) (t := s) (fun _ => rfl) fields).trans hts
    rcases bind_eq_error_iff.1 hr with hr | ⟨around, haround, hr⟩
    · rcases cases_of_declareParams_error hmethod.binds.tracks_child hr with he | hc
      · have htypes := (paramTypes_congr (type?_child (s.addFunction n d)) fields).trans hbound
        rw [htypes] at he
        cases he
      · exact absurd hfields hc.not_nodup
    have hself :=
      (tracks_of_declareParams hmethod.binds.tracks_child haround).binds.tracks_child.addVariable (n := "self") span rfl
        (some (.simple record))
    rcases bind_eq_error_iff.1 hr with hr | ⟨inner, hinner, hr⟩
    · rcases cases_of_declareParams_error hself hr with he | hc
      · refine Or.inl ((explained_of_resolveAll (Γ := Γ) (by simpa using hself.binds.type) _ he).mono ?_ (List.nil_subset _))
        exact List.subset_append_of_subset_left _ (List.subset_append_left _ _)
      · exact Or.inr (Or.inl ⟨_, List.mem_cons_self, hc.append_right⟩)
    rcases bind_eq_error_iff.1 hr with hr | ⟨⟨⟩, hbody, hr⟩
    · have hparams := tracks_of_declareParams hself hinner
      refine Or.inl ((ih.1 inner _ r hparams.binds hr).mono ?_ (visitedBlock_subset_methods hnew hd haround hinner))
      exact List.subset_append_of_subset_right _ (List.subset_append_left _ _)
    · rcases ihms hbound ih.2 hmethod hr with he | ⟨m, hm, hc⟩ | hc
      · refine Or.inl (he.mono ?_ (visitedMethods_subset_methods hnew hd))
        exact List.subset_append_of_subset_right _ (List.subset_append_right _ _)
      · exact Or.inr (Or.inl ⟨m, List.mem_cons_of_mem _ hm, hc⟩)
      · exact Or.inr (Or.inr hc.append_right)

/-- Checking methods leaves the types as they are. -/
theorem type?_of_checkMethods {record : String} {fields : List Param} {ms : List Method} {s₁ : Scope}
    (hr : (s.checkMethods (.simple record) fields ms).verdict = .ok s₁) (n : String) : s₁.type? n = s.type? n := by
  induction ms generalizing s with
  | nil =>
    rw [checkMethods] at hr
    rw [← Except.ok.inj hr]
  | cons m ms ih =>
    obtain ⟨m, params, ret, body, span⟩ := m
    obtain ⟨-, d, -, around, -, inner, -, -, hr⟩ := checkMethods_cons_iff.1 hr
    exact ih (s := s.addFunction m d) hr

/-- Implementations are rejected for what explains it in a method, for a name among a method's parameters, or for a method's own
name. -/
theorem explained_of_checkImplementations {record : String} {fields : List Param} {ts : List Ty} {is : List Implementation}
    (hfields : (fields.map (·.name)).Nodup) (hts : s.paramTypes fields = .ok ts)
    (ih : ∀ i ∈ is, ∀ m ∈ i.methods, ExplainsBlock m.body) (h : s.Tracks Γ ds)
    (hr : (s.checkImplementations record fields is).verdict = .error r) :
    Explained (Γ.placesOfImplementations fields is) (s.visitedImplementations record fields is) r ∨
      (∃ m ∈ is.flatMap (·.methods), Clash [] (m.receiver :: m.params.map Param.declared) r) ∨
        Clash ds (is.flatMap fun i => i.methods.map Method.declared) r := by
  induction is generalizing s Γ ds with
  | nil =>
    rw [checkImplementations] at hr
    cases hr
  | cons i is ihis =>
    obtain ⟨protocol, methods, span⟩ := i
    rw [List.forall_mem_cons] at ih
    simp only [checkImplementations, Run.verdict_bind, Run.verdict_log] at hr
    rw [ok_bind] at hr
    rw [Names.placesOfImplementations, visitedImplementations, List.flatMap_cons, List.flatMap_cons]
    rcases bind_eq_error_iff.1 hr with hr | ⟨s₁, hs₁, hr⟩
    · rcases explained_of_checkMethods hfields hts ih.1 h hr with he | ⟨m, hm, hc⟩ | hc
      · exact Or.inl (he.mono (List.subset_append_left _ _) (List.subset_append_left _ _))
      · exact Or.inr (Or.inl ⟨m, List.mem_append_left _ hm, hc⟩)
      · exact Or.inr (Or.inr (hc.append_left _))
    · have hts₁ : s₁.paramTypes fields = .ok ts := (paramTypes_congr (type?_of_checkMethods hs₁) fields).trans hts
      rcases ihis hts₁ ih.2 (tracks_of_checkMethods h hs₁) hr with he | ⟨m, hm, hc⟩ | hc
      · refine Or.inl (he.mono (List.subset_append_right _ _) ?_)
        exact List.subset_append_of_subset_right _ (subset_following hs₁ fun r => r.visitedImplementations record fields is)
      · exact Or.inr (Or.inl ⟨m, List.mem_append_right _ hm, hc⟩)
      · exact Or.inr (Or.inr hc.append_right)

/-- A function definition is rejected for what explains it in its signature or its body, or for names that are declared twice. -/
theorem explained_function {n : String} {generics : List String} {params : List Param} {ret : Option Annotation} {body : Block}
    {span : Span} (ih : ExplainsBlock body) : ExplainsStmt (.function n generics params ret body span) := by
  intro s Γ ds r h hr
  simp only [checkStmt, Run.verdict_bind, Run.verdict_ofExcept, Run.verdict_log, Run.verdict_pure] at hr
  have hhead : ⟨Γ, .stmt (.function n generics params ret body span)⟩ ∈
      Γ.placesOfStmt (.function n generics params ret body span) := List.mem_cons_self
  rcases bind_eq_error_iff.1 hr with hr | ⟨⟨⟩, hnew, hr⟩
  · exact Or.inr (h.repeats_of_ensureNewFunction hr _)
  refine Or.inl ?_
  rcases bind_eq_error_iff.1 hr with hr | ⟨d, hd, hr⟩
  · refine (explained_of_functionDeclaration (h.binds.withGenerics n generics).type hr).mono ?_ (List.nil_subset _)
    rw [Names.placesOfStmt, ← List.append_assoc]
    exact List.subset_cons_of_subset _ (List.subset_append_left _ _)
  rw [ok_bind] at hr
  have hgenerics := (h.binds.addFunction n d).withGenerics n generics
  rcases bind_eq_error_iff.1 hr with hr | ⟨inner, hinner, hr⟩
  · rcases cases_of_declareParams_error hgenerics.tracks_child hr with he | hc
    · have htypes : ∀ m, (((s.addFunction n d).withGenerics n generics).child.type? m).isSome = true ↔
          ((Γ.addGenerics generics).kind? m).isSome = true := by
        simpa [Names.addGenerics_addValue] using hgenerics.child.type
      refine (explained_of_resolveAll htypes _ he).mono ?_ (List.nil_subset _)
      rw [Names.placesOfStmt]
      exact List.subset_cons_of_subset _ (List.subset_append_left _ _)
    · exact hc.explained hhead List.mem_cons_self _
  · have hparams := tracks_of_declareParams hgenerics.tracks_child hinner
    rcases bind_eq_error_iff.1 hr with hr | ⟨-, -, hr⟩
    · refine (ih inner _ r hparams.binds hr).mono ?_ fun q hq => ?_
      · rw [Names.placesOfStmt, ← List.append_assoc]
        exact List.subset_cons_of_subset _ (List.subset_append_right _ _)
      · rw [visitedStmt]
        refine List.mem_cons_of_mem _ (mem_following_iff.2 ⟨(), hnew, ?_⟩)
        refine List.mem_cons_of_mem _ (mem_following_iff.2 ⟨d, hd, ?_⟩)
        refine List.mem_append_right _ ?_
        exact mem_following_iff.2 ⟨inner, hinner, hq⟩
    · cases hr

/-- A record is rejected for what explains it in its fields or its methods, or for names that are declared twice. -/
theorem explained_record {n : String} {fields : List Param} {is : List Implementation} {span : Span}
    (ih : ∀ i ∈ is, ∀ m ∈ i.methods, ExplainsBlock m.body) : ExplainsStmt (.record n fields is span) := by
  intro s Γ ds r h hr
  simp only [checkStmt, Run.verdict_bind, Run.verdict_ofExcept, Run.verdict_log] at hr
  have hhead : ⟨Γ, .stmt (.record n fields is span)⟩ ∈ Γ.placesOfStmt (.record n fields is span) := List.mem_cons_self
  rcases bind_eq_error_iff.1 hr with hr | ⟨⟨⟩, hnew, hr⟩
  · exact Or.inr (h.repeats_of_ensureNewRecord hr _)
  rcases bind_eq_error_iff.1 hr with hr | ⟨⟨⟩, hdistinct, hr⟩
  · unfold ensureDistinctFields at hr
    cases hf : repeated? [] (fields.map (·.name)) with
    | none =>
      rw [hf] at hr
      cases hr
    | some f =>
      rw [hf] at hr
      obtain rfl := Except.error.inj hr
      obtain ⟨before, after, hfields, hmem⟩ := mem_of_repeated? hf
      exact Or.inl (.repeatedField hhead rfl hfields hmem)
  rcases bind_eq_error_iff.1 hr with hr | ⟨layout, hl, hr⟩
  · rcases bind_eq_error_iff.1 hr with hr | ⟨ts, -, hr⟩
    · refine Or.inl ((explained_of_resolveAll (h.binds.type_addRecord fields) _ hr).mono ?_ (List.nil_subset _))
      rw [Names.placesOfStmt]
      exact List.subset_cons_of_subset _ (List.subset_append_left _ _)
    · cases hr
  rw [ok_bind] at hr
  have hrecord := h.bindRecord span (ensureNewRecord_ok_iff.1 hnew).2 hl
  obtain ⟨ts, hts, -⟩ := bind_eq_ok_iff.1 hl
  rw [← paramTypes_congr (type?_bindRecord (names_of_recordLayout hl).1)] at hts
  rcases explained_of_checkImplementations (nodup_of_ensureDistinctFields hdistinct) hts ih hrecord hr with he | ⟨m, hm, hc⟩ | hc
  · refine Or.inl (he.mono ?_ fun q hq => ?_)
    · rw [Names.placesOfStmt]
      exact List.subset_cons_of_subset _ (List.subset_append_right _ _)
    · rw [visitedStmt]
      refine List.mem_cons_of_mem _ (mem_following_iff.2 ⟨(), hnew, ?_⟩)
      refine mem_following_iff.2 ⟨(), hdistinct, List.mem_cons_of_mem _ ?_⟩
      exact mem_following_iff.2 ⟨layout, hl, hq⟩
  · refine Or.inl (hc.explained hhead ?_ _)
    exact List.mem_cons_of_mem _ (List.mem_map_of_mem hm)
  · exact Or.inr hc.append_right

/-! ## All constructs -/

/-- A call that is rejected for a name is so at its own name or in an argument. -/
theorem explained_of_call {f : String} {args : List Expr} {span : Span} {places : List Place} {scopes : List Scope} {q : Place}
    (h : s.Binds Γ) (hq : q ∈ places) (hnames : q.names = Γ) (huse : q.part.use? = some (.callee f, span))
    (ih : ∀ e ∈ args, (s.checkExpr e).verdict = .error r → Explained places scopes r)
    (hr : (s.checkExpr (.call f args span)).verdict = .error r) : Explained places scopes r := by
  rcases cases_of_checkExpr_call_error hr with ⟨hf, rfl⟩ | ⟨e, he, hr⟩ | hr
  · refine .unbound (u := .callee f) hq huse fun hserves => ?_
    rw [hnames] at hserves
    have hcallee := (h.callee f).2 hserves
    rw [hf] at hcallee
    cases hcallee
  · exact ih e he hr
  · exact .other hr

/-- A member that is rejected for its own name is a missing field of the record that its target is. -/
theorem explained_of_memberType {target : Expr} {n : String} {span : Span} {t : Option Ty} {places : List Place}
    {scopes : List Scope} {q : Place} (h : s.Binds Γ) (hq : q ∈ places) (hnames : q.names = Γ)
    (hpart : q.part = .expr (.member target n span)) (hs : s ∈ scopes) (ht : s.typeOf target = .ok t)
    (hr : s.memberType t n span = .error r) : Explained places scopes r := by
  unfold memberType at hr
  cases hrecord : t.bind s.record? with
  | none =>
    rw [hrecord] at hr
    cases hr
  | some layout =>
    rw [hrecord] at hr
    dsimp only at hr
    obtain ⟨ty, rfl, hlayout⟩ := Option.bind_eq_some_iff.1 hrecord
    cases ty with
    | simple record =>
      cases hfield : layout.field? n with
      | some u =>
        rw [hfield] at hr
        cases hr
      | none =>
        rw [hfield] at hr
        obtain rfl := Except.error.inj hr
        have hmissing : n ∉ layout.fields.map (·.1) := by
          intro hmem
          obtain ⟨f, hf, rfl⟩ := List.mem_map.1 hmem
          simpa using List.lookup_eq_none_iff.1 hfield f hf
        exact .field hq hpart hs (hnames ▸ h) ht (hnames ▸ h.kind_of_record hlayout) hmissing
    | parameter p => cases hlayout
    | applied base args => cases hlayout
    | function ps ret => cases hlayout

/-- The rejection of each construct is explained, when those of its parts are. -/
theorem explained_cases : TreeCases Explains ExplainsBlock ExplainsStmt where
  literal v span s Γ r h hr := by
    rw [checkExpr] at hr
    cases hr
  name n span s Γ r h hr := by
    rw [checkExpr, Run.verdict_ofExcept, checkName] at hr
    by_cases hn : (s.value? n).isSome = true
    · rw [if_pos hn] at hr
      cases hr
    · rw [if_neg hn] at hr
      obtain rfl := Except.error.inj hr
      exact .unbound (u := .value n) List.mem_cons_self rfl fun hserves => hn ((h.value n).2 hserves)
  binary op l r span ihl ihr s Γ e h hr := by
    rw [checkExpr, Run.verdict_bind] at hr
    rw [Names.places, visited]
    refine Explained.mono ?_ (List.subset_cons_self _ _) (List.subset_cons_self _ _)
    rcases bind_eq_error_iff.1 hr with hr | ⟨-, -, hr⟩
    · exact (ihl s Γ e h hr).mono (List.subset_append_left _ _) (List.subset_append_left _ _)
    · exact (ihr s Γ e h hr).mono (List.subset_append_right _ _) (List.subset_append_right _ _)
  unary op e span ih s Γ r h hr := by
    rw [checkExpr] at hr
    exact (ih s Γ r h hr).mono (List.subset_cons_self _ _) (List.subset_cons_self _ _)
  call f args span ih s Γ r h hr := by
    rw [Names.places, visited]
    refine explained_of_call h List.mem_cons_self rfl rfl (fun e he hr => (ih e he s Γ r h hr).mono ?_ ?_) hr
    · exact List.subset_cons_of_subset _ (places_subset_all he)
    · exact List.subset_cons_of_subset _ (visited_subset_all he)
  methodCall threading receiver m args span ihr ih s Γ r h hr := by
    rw [verdict_checkExpr_methodCall] at hr
    rw [Names.places, visited]
    refine explained_of_call h List.mem_cons_self rfl rfl (fun e he hre => ?_) hr
    refine Explained.mono ?_ (List.subset_cons_self _ _) (List.subset_cons_self _ _)
    rcases threading.mem_arrange.1 he with rfl | he
    · exact (ihr s Γ r h hre).mono (List.subset_append_left _ _) (List.subset_append_left _ _)
    · refine (ih e he s Γ r h hre).mono ?_ ?_
      · exact List.subset_append_of_subset_right _ (places_subset_all he)
      · exact List.subset_append_of_subset_right _ (visited_subset_all he)
  member target field span ih s Γ r h hr := by
    simp only [checkExpr, Run.verdict_bind, Run.verdict_ofExcept, Run.verdict_pure] at hr
    rw [Names.places, visited]
    rcases bind_eq_error_iff.1 hr with hr | ⟨⟨⟩, htarget, hr⟩
    · exact (ih s Γ r h hr).mono (List.subset_cons_self _ _) (List.subset_cons_self _ _)
    · rcases bind_eq_error_iff.1 hr with hr | ⟨t, ht, hr⟩
      · exact .other (isAboutNames_of_typeOf htarget hr)
      · rcases bind_eq_error_iff.1 hr with hr | ⟨-, -, hr⟩
        · exact explained_of_memberType h List.mem_cons_self rfl rfl List.mem_cons_self ht hr
        · cases hr
  get collection key span ihc ihk s Γ r h hr := by
    rw [checkExpr, Run.verdict_bind] at hr
    rw [Names.places, visited]
    refine Explained.mono ?_ (List.subset_cons_self _ _) (List.subset_cons_self _ _)
    rcases bind_eq_error_iff.1 hr with hr | ⟨-, -, hr⟩
    · exact (ihc s Γ r h hr).mono (List.subset_append_left _ _) (List.subset_append_left _ _)
    · exact (ihk s Γ r h hr).mono (List.subset_append_right _ _) (List.subset_append_right _ _)
  vector items span ih s Γ r h hr := by
    rw [checkExpr] at hr
    obtain ⟨e, he, hr⟩ := exists_of_checkExprs_error hr
    rw [Names.places, visited]
    refine (ih e he s Γ r h hr).mono ?_ ?_
    · exact List.subset_cons_of_subset _ (places_subset_all he)
    · exact List.subset_cons_of_subset _ (visited_subset_all he)
  map entries span ih s Γ r h hr := by
    rw [checkExpr] at hr
    have hentries := explained_of_checkEntries (Γ := Γ)
      (fun e he => ⟨fun r => (ih e he).1 s Γ r h, fun r => (ih e he).2 s Γ r h⟩) hr
    exact hentries.mono (List.subset_cons_self _ _) (List.subset_cons_self _ _)
  block b ih s Γ r h hr := by
    rw [checkExpr] at hr
    exact (ih s Γ r h hr).mono (List.subset_cons_self _ _) (List.subset_cons_self _ _)
  letIn bindings body span ih ihb s Γ r h hr := by
    rw [checkExpr, Run.verdict_bind] at hr
    rw [Names.places, visited]
    rcases bind_eq_error_iff.1 hr with hr | ⟨inner, hinner, hr⟩
    · rcases explained_of_checkBindings ih h.tracks_child hr with he | hc
      · refine he.mono ?_ ?_
        · exact List.subset_cons_of_subset _ (List.subset_append_left _ _)
        · exact List.subset_cons_of_subset _ (List.subset_append_left _ _)
      · exact hc.explained List.mem_cons_self List.mem_cons_self _
    · refine (ihb inner _ r (tracks_of_checkBindings h.tracks_child hinner).binds hr).mono ?_ fun q hq => ?_
      · exact List.subset_cons_of_subset _ (List.subset_append_right _ _)
      · refine List.mem_cons_of_mem _ (List.mem_append_right _ ?_)
        exact mem_following_iff.2 ⟨inner, hinner, hq⟩
  forEach vars iterable body span ih ihb s Γ r h hr := by
    simp only [checkExpr, Run.verdict_bind, Run.verdict_ofExcept] at hr
    rw [Names.places, visited]
    rcases bind_eq_error_iff.1 hr with hr | ⟨⟨⟩, hiterable, hr⟩
    · refine (ih s Γ r h hr).mono ?_ ?_
      · exact List.subset_cons_of_subset _ (List.subset_append_left _ _)
      · exact List.subset_cons_of_subset _ (List.subset_append_left _ _)
    · rcases bind_eq_error_iff.1 hr with hr | ⟨t, ht, hr⟩
      · unfold loopVarType at hr
        split at hr
        · rcases bind_eq_error_iff.1 hr with hr | ⟨t, -, hr⟩
          · exact .other (isAboutNames_of_typeOf hiterable hr)
          · cases hr
        · cases hr
      · rcases bind_eq_error_iff.1 hr with hr | ⟨inner, hinner, hr⟩
        · exact (clash_of_declareLoopVars h.tracks_child hr).explained List.mem_cons_self List.mem_cons_self _
        · refine (ihb inner _ r (tracks_of_declareLoopVars h.tracks_child hinner).binds hr).mono ?_ fun q hq => ?_
          · exact List.subset_cons_of_subset _ (List.subset_append_right _ _)
          · refine List.mem_cons_of_mem _ (List.mem_append_right _ ?_)
            refine mem_following_iff.2 ⟨t, ht, List.mem_append_right _ ?_⟩
            exact mem_following_iff.2 ⟨inner, hinner, hq⟩
  cond branches otherwise span ih iho s Γ r h hr := by
    rw [checkExpr, Run.verdict_bind] at hr
    rw [Names.places, visited]
    refine Explained.mono ?_ (List.subset_cons_self _ _) (List.subset_cons_self _ _)
    rcases bind_eq_error_iff.1 hr with hr | ⟨-, -, hr⟩
    · refine (explained_of_checkBranches (Γ := Γ) (fun b hb => ⟨fun r => ?_, fun r => ?_⟩) hr).mono (List.subset_append_left _ _)
        (List.subset_append_left _ _)
      · exact (ih b hb).1 s.child Γ r h.child
      · exact (ih b hb).2 s.child Γ r h.child
    · cases otherwise with
      | none =>
        rw [checkBlock?] at hr
        cases hr
      | some b =>
        rw [checkBlock?] at hr
        exact (iho b rfl s.child Γ r h.child hr).mono (List.subset_append_right _ _) (List.subset_append_right _ _)
  lambda params body span ih s Γ r h hr := by
    rw [checkExpr, Run.verdict_bind, Run.verdict_ofExcept] at hr
    rw [Names.places, visited]
    rcases bind_eq_error_iff.1 hr with hr | ⟨inner, hinner, hr⟩
    · rcases explained_of_declareLambdaParams h.tracks_child h.child.type hr with he | hc
      · refine he.mono ?_ (List.nil_subset _)
        exact List.subset_cons_of_subset _ (List.subset_append_left _ _)
      · exact hc.explained List.mem_cons_self List.mem_cons_self _
    · refine (ih inner _ r (tracks_of_declareLambdaParams h.tracks_child hinner).binds hr).mono ?_ fun q hq => ?_
      · exact List.subset_cons_of_subset _ (List.subset_append_right _ _)
      · refine List.mem_cons_of_mem _ (List.mem_append_right _ ?_)
        exact mem_following_iff.2 ⟨inner, hinner, hq⟩
  paren e span ih s Γ r h hr := by
    rw [checkExpr] at hr
    exact (ih s Γ r h hr).mono (List.subset_cons_self _ _) (List.subset_cons_self _ _)
  stmts stmts span ih s Γ r h hr := by
    rw [checkBlock, Run.verdict_bind] at hr
    rw [Names.placesOfBlock, visitedBlock]
    rcases bind_eq_error_iff.1 hr with hr | ⟨-, -, hr⟩
    · rcases explained_of_checkStmts ih h.tracks_child hr with he | hc
      · exact he.mono (List.subset_cons_self _ _) (List.Subset.refl _)
      · exact hc.explained List.mem_cons_self List.mem_cons_self _
    · cases hr
  function n generics params ret body span ih := explained_function ih
  record n fields implementations span ih := explained_record ih
  define n ty value span ih s Γ ds r h hr := by
    simp only [checkStmt, Run.verdict_bind, Run.verdict_ofExcept, Run.verdict_log, Run.verdict_pure] at hr
    rcases bind_eq_error_iff.1 hr with hr | ⟨⟨⟩, hnew, hr⟩
    · exact Or.inr (h.repeats_of_ensureNewVariable hr _)
    rw [Names.placesOfStmt, visitedStmt]
    refine Or.inl ?_
    rcases bind_eq_error_iff.1 hr with hr | ⟨⟨⟩, hvalue, hr⟩
    · refine (ih s Γ r h.binds hr).mono ?_ (List.subset_cons_self _ _)
      exact List.subset_cons_of_subset _ (List.subset_append_right _ _)
    rcases bind_eq_error_iff.1 hr with hr | ⟨actual, -, hr⟩
    · exact .other (isAboutNames_of_typeOf hvalue hr)
    rcases bind_eq_error_iff.1 hr with hr | ⟨t, -, hr⟩
    · refine (explained_of_variableType h.binds hr).mono ?_ (List.nil_subset _)
      exact List.subset_cons_of_subset _ (List.subset_append_left _ _)
    · cases hr
  expr e ih s Γ ds r h hr := by
    rw [checkStmt, Run.verdict_bind] at hr
    rw [Names.placesOfStmt, visitedStmt]
    rcases bind_eq_error_iff.1 hr with hr | ⟨-, -, hr⟩
    · exact Or.inl ((ih s Γ r h.binds hr).mono (List.subset_cons_self _ _) (List.Subset.refl _))
    · cases hr

end Scope

end Gradual
