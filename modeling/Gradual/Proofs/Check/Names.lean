import Gradual.Proofs.Check.Validity
import Gradual.Proofs.Scope.Names
import Gradual.Proofs.Tree.Induction

/-!
# Names in what is accepted

Where the check accepts, every part sees the names it asks for, and every level declares its value names once
(`proper_cases`): each construct is checked in a scope that binds exactly the names that the construct sees, and what a statement,
a list of parameters or a let binds is what it declares.
-/

namespace Gradual

/-- A place at which the name that its part asks for is bound, and whose levels declare no value name twice. -/
structure Place.Proper (q : Place) : Prop where
  serves : ∀ u span, q.part.use? = some (u, span) → q.names.Serves u
  nodup : ∀ level ∈ q.part.levels, (Declared.values level).Nodup

/-- A part that asks for no name and opens no level is in order wherever it stands. -/
theorem Place.Proper.of_plain {q : Place} (hu : q.part.use? = none) (hl : q.part.levels = []) : q.Proper := by
  refine ⟨fun u span h => ?_, fun level h => ?_⟩
  · rw [hu] at h
    cases h
  · rw [hl] at h
    cases h

/-- A part that asks for a name and opens no level is in order where the name is bound. -/
theorem Place.Proper.of_use {q : Place} {u : Use} {span : Span} (hu : q.part.use? = some (u, span)) (hl : q.part.levels = [])
    (h : q.names.Serves u) : q.Proper := by
  refine ⟨fun u' span' h' => ?_, fun level h => ?_⟩
  · rw [hu, Option.some.injEq, Prod.mk.injEq] at h'
    exact h'.1 ▸ h
  · rw [hl] at h
    cases h

/-- A part that asks for no name is in order where its levels are. -/
theorem Place.Proper.of_levels {q : Place} (hu : q.part.use? = none)
    (h : ∀ level ∈ q.part.levels, (Declared.values level).Nodup) : q.Proper := by
  refine ⟨fun u span hu' => ?_, h⟩
  rw [hu] at hu'
  cases hu'

namespace Scope

variable {s r : Scope} {Γ : Names} {ds : List Declared}

/-! ## Lists of names -/

/-- Parameters bind what they declare. -/
theorem tracks_of_declareParams {ps : List Param} (h : s.Tracks Γ ds) (hr : s.declareParams ps = .ok r) :
    r.Tracks (Γ.addValues (ps.map (·.name))) (ds ++ ps.map Param.declared) := by
  induction ps generalizing s Γ ds with
  | nil =>
    obtain rfl := Except.ok.inj hr
    simpa [Names.addValues] using h
  | cons p ps ih =>
    rw [declareParams, seq_eq_ok_iff] at hr
    obtain ⟨hnew, hr⟩ := hr
    obtain ⟨t, -, hr⟩ := bind_eq_ok_iff.1 hr
    have hp := ih (h.addParameter p.span (ensureNewVariable_ok_iff.1 hnew) t) hr
    rwa [List.append_assoc] at hp

/-- The parameters of a lambda bind what they declare. -/
theorem tracks_of_declareLambdaParams {ps : List LambdaParam} (h : s.Tracks Γ ds) (hr : s.declareLambdaParams ps = .ok r) :
    r.Tracks (Γ.addValues (ps.map (·.name))) (ds ++ ps.map LambdaParam.declared) := by
  induction ps generalizing s Γ ds with
  | nil =>
    obtain rfl := Except.ok.inj hr
    simpa [Names.addValues] using h
  | cons p ps ih =>
    rw [declareLambdaParams, seq_eq_ok_iff] at hr
    obtain ⟨hnew, hr⟩ := hr
    rw [ensureNewVariable_ok_iff] at hnew
    cases hp : p.ty with
    | none =>
      rw [hp] at hr
      have htracks := ih (h.addVariable p.span hnew none) hr
      rwa [List.append_assoc] at htracks
    | some a =>
      rw [hp] at hr
      obtain ⟨t, -, hr⟩ := bind_eq_ok_iff.1 hr
      have htracks := ih (h.addParameter p.span hnew t) hr
      rwa [List.append_assoc] at htracks

/-- Loop variables bind what they declare. -/
theorem tracks_of_declareLoopVars {ty : Option Ty} {vs : List LocalName} (h : s.Tracks Γ ds)
    (hr : s.declareLoopVars ty vs = .ok r) : r.Tracks (Γ.addValues (vs.map (·.name))) (ds ++ vs.map LocalName.declared) := by
  induction vs generalizing s Γ ds with
  | nil =>
    obtain rfl := Except.ok.inj hr
    simpa [Names.addValues] using h
  | cons v vs ih =>
    rw [declareLoopVars, seq_eq_ok_iff] at hr
    have htracks := ih (h.addVariable v.span (ensureNewVariable_ok_iff.1 hr.1) ty) hr.2
    rwa [List.append_assoc] at htracks

/-- Bindings bind what they declare. -/
theorem tracks_of_checkBindings {bs : List Binding} (h : s.Tracks Γ ds) (hr : (s.checkBindings bs).verdict = .ok r) :
    r.Tracks (Γ.addValues (bs.map (·.name))) (ds ++ bs.map Binding.declared) := by
  induction bs generalizing s Γ ds with
  | nil =>
    rw [checkBindings] at hr
    obtain rfl := Except.ok.inj hr
    simpa [Names.addValues] using h
  | cons b bs ih =>
    obtain ⟨n, value, span⟩ := b
    obtain ⟨hnew, -, t, -, hr⟩ := checkBindings_cons_iff.1 hr
    have htracks := ih (h.addVariable span (ensureNewVariable_ok_iff.1 hnew) t) hr
    rwa [List.append_assoc] at htracks

/-! ## Statements -/

/-- Methods bind what they declare. -/
theorem tracks_of_checkMethods {receiver : Ty} {fields : List Param} {ms : List Method} (h : s.Tracks Γ ds)
    (hr : (s.checkMethods receiver fields ms).verdict = .ok r) :
    r.Tracks (Γ.addValues (ms.map (·.name))) (ds ++ ms.map Method.declared) := by
  induction ms generalizing s Γ ds with
  | nil =>
    rw [checkMethods] at hr
    obtain rfl := Except.ok.inj hr
    simpa [Names.addValues] using h
  | cons m ms ih =>
    obtain ⟨n, params, ret, body, span⟩ := m
    obtain ⟨hnew, d, -, around, -, inner, -, -, hr⟩ := checkMethods_cons_iff.1 hr
    have htracks := ih (h.addFunction span (ensureNewFunction_ok_iff.1 hnew) d) hr
    rwa [List.append_assoc] at htracks

/-- Implementations bind what their methods declare. -/
theorem tracks_of_checkImplementations {n : String} {fields : List Param} {is : List Implementation} (h : s.Tracks Γ ds)
    (hr : (s.checkImplementations n fields is).verdict = .ok r) :
    r.Tracks (Γ.addMethods is) (ds ++ is.flatMap fun i => i.methods.map Method.declared) := by
  induction is generalizing s Γ ds with
  | nil =>
    rw [checkImplementations] at hr
    obtain rfl := Except.ok.inj hr
    simpa [Names.addMethods] using h
  | cons i is ih =>
    obtain ⟨protocol, methods, span⟩ := i
    obtain ⟨s₁, hs₁, hr⟩ := checkImplementations_cons_iff.1 hr
    have htracks := ih (tracks_of_checkMethods h hs₁) hr
    rwa [List.append_assoc] at htracks

/-- A statement that is accepted leaves a scope of the names that the next statement sees, and declares at its level what
it says. -/
theorem tracks_of_checkStmt {st : Stmt} (h : s.Tracks Γ ds) (hr : (s.checkStmt st).verdict = .ok r) :
    r.Tracks (Γ.after st) (ds ++ st.declared) := by
  cases st with
  | expr e =>
    obtain ⟨-, rfl⟩ := checkStmt_expr_iff.1 hr
    simpa [Stmt.declared, Names.after] using h
  | define n ty value span =>
    obtain ⟨hnew, -, actual, -, t, -, rfl⟩ := checkStmt_define_iff.1 hr
    exact h.addVariable span (ensureNewVariable_ok_iff.1 hnew) t
  | function n generics params ret body span =>
    obtain ⟨hnew, d, -, inner, -, -, rfl⟩ := checkStmt_function_iff.1 hr
    exact h.addFunction span (ensureNewFunction_ok_iff.1 hnew) d
  | record n fields is span =>
    obtain ⟨hnew, -, layout, hl, hr⟩ := checkStmt_record_iff.1 hr
    have hrecord := h.bindRecord span (ensureNewRecord_ok_iff.1 hnew).2 hl
    have htracks := tracks_of_checkImplementations hrecord hr
    rwa [List.append_assoc] at htracks

/-- Statements bind what they declare. -/
theorem tracks_of_checkStmts {stmts : List Stmt} (h : s.Tracks Γ ds) (hr : (s.checkStmts stmts).verdict = .ok r) :
    ∃ Γ', r.Tracks Γ' (ds ++ stmts.flatMap Stmt.declared) := by
  induction stmts generalizing s Γ ds with
  | nil =>
    rw [checkStmts] at hr
    obtain rfl := Except.ok.inj hr
    exact ⟨Γ, by simpa using h⟩
  | cons st stmts ih =>
    obtain ⟨s₁, hs₁, hr⟩ := checkStmts_cons_iff.1 hr
    obtain ⟨Γ', htracks⟩ := ih (tracks_of_checkStmt h hs₁) hr
    rw [List.append_assoc] at htracks
    exact ⟨Γ', htracks⟩

/-! ## Annotations -/

mutual

/-- An annotation that stands for a type names types only. -/
theorem proper_of_resolve (h : ∀ n, (s.type? n).isSome = true ↔ (Γ.kind? n).isSome = true) : ∀ (a : Annotation) {t : Ty},
    s.resolve a = .ok t → ∀ q ∈ Γ.placesOfType a, q.Proper
  | .named n as span, t, ht => by
    rw [resolve] at ht
    rw [Names.placesOfType, List.forall_mem_cons]
    cases hn : s.type? n with
    | none =>
      rw [hn] at ht
      cases ht
    | some base =>
      have hserves : Γ.Serves (.type n) := (h n).1 (by rw [hn]; rfl)
      rw [hn] at ht
      refine ⟨.of_use rfl rfl hserves, ?_⟩
      cases as with
      | nil => exact List.forall_mem_nil _
      | cons a as =>
        obtain ⟨ts, hts, -⟩ := bind_eq_ok_iff.1 ht
        exact proper_of_resolveAll h (a :: as) hts
  | .function ps r span, t, ht => by
    rw [resolve] at ht
    obtain ⟨ts, hts, ht⟩ := bind_eq_ok_iff.1 ht
    obtain ⟨u, hu, -⟩ := bind_eq_ok_iff.1 ht
    rw [Names.placesOfType, List.forall_mem_cons, List.forall_mem_append]
    exact ⟨.of_plain rfl rfl, proper_of_resolveAll h ps hts, proper_of_resolve h r hu⟩

/-- In annotations that stand for types, all names are seen. -/
theorem proper_of_resolveAll (h : ∀ n, (s.type? n).isSome = true ↔ (Γ.kind? n).isSome = true) : ∀ (as : List Annotation)
    {ts : List Ty}, s.resolveAll as = .ok ts → ∀ q ∈ Γ.placesOfTypes as, q.Proper
  | [], ts, _ => List.forall_mem_nil _
  | a :: as, ts, hts => by
    obtain ⟨t, ht, hts⟩ := bind_eq_ok_iff.1 hts
    obtain ⟨us, hus, -⟩ := bind_eq_ok_iff.1 hts
    rw [Names.placesOfTypes, List.forall_mem_append]
    exact ⟨proper_of_resolve h a ht, proper_of_resolveAll h as hus⟩

end

/-- In parameters that are declared, all names are seen. -/
theorem proper_of_declareParams {ps : List Param} (h : ∀ n, (s.type? n).isSome = true ↔ (Γ.kind? n).isSome = true)
    (hr : s.declareParams ps = .ok r) : ∀ q ∈ Γ.placesOfParams ps, q.Proper := by
  induction ps generalizing s with
  | nil => exact List.forall_mem_nil _
  | cons p ps ih =>
    rw [declareParams, seq_eq_ok_iff] at hr
    obtain ⟨t, ht, hr⟩ := bind_eq_ok_iff.1 hr.2
    have hrest := ih (fun n => by rw [type?_addParameter]; exact h n) hr
    rw [Names.placesOfParams, List.map_cons, Names.placesOfTypes, List.forall_mem_append]
    exact ⟨proper_of_resolve h _ ht, hrest⟩

/-- In the parameters of a lambda that are declared, all names are seen. -/
theorem proper_of_declareLambdaParams {ps : List LambdaParam} (h : ∀ n, (s.type? n).isSome = true ↔ (Γ.kind? n).isSome = true)
    (hr : s.declareLambdaParams ps = .ok r) : ∀ q ∈ Γ.placesOfTypes (ps.filterMap (·.ty)), q.Proper := by
  induction ps generalizing s with
  | nil => exact List.forall_mem_nil _
  | cons p ps ih =>
    rw [declareLambdaParams, seq_eq_ok_iff] at hr
    obtain ⟨-, hr⟩ := hr
    cases hp : p.ty with
    | none =>
      rw [hp] at hr
      rw [List.filterMap_cons_none hp]
      exact ih (s := s.addVariable p.name none) h hr
    | some a =>
      rw [hp] at hr
      obtain ⟨t, ht, hr⟩ := bind_eq_ok_iff.1 hr
      have hrest := ih (fun n => by rw [type?_addParameter]; exact h n) hr
      rw [List.filterMap_cons_some hp, Names.placesOfTypes, List.forall_mem_append]
      exact ⟨proper_of_resolve h a ht, hrest⟩

/-- The annotation of a result is in order where the signature is. -/
theorem proper_of_functionDeclaration {n : String} {generics : List String} {params : List Param} {ret : Option Annotation}
    {d : Option Declaration} (h : ∀ n, (s.type? n).isSome = true ↔ (Γ.kind? n).isSome = true)
    (hd : s.functionDeclaration n generics params ret = .ok d) : ∀ q ∈ Γ.placesOfType? ret, q.Proper := by
  cases ret with
  | none => exact List.forall_mem_nil _
  | some a =>
    obtain ⟨ts, -, hd⟩ := bind_eq_ok_iff.1 hd
    obtain ⟨t, ht, -⟩ := bind_eq_ok_iff.1 hd
    rw [Names.placesOfType?, Option.toList_some, Names.placesOfTypes, List.forall_mem_append]
    exact ⟨proper_of_resolve h a ht, List.forall_mem_nil _⟩

/-- In the result of a method's signature, all names are seen. -/
theorem proper_of_methodDeclaration {receiver : Ty} {n : String} {params : List Param} {ret : Option Annotation}
    {d : Option Declaration} (h : ∀ n, (s.type? n).isSome = true ↔ (Γ.kind? n).isSome = true)
    (hd : s.methodDeclaration receiver n params ret = .ok d) : ∀ q ∈ Γ.placesOfType? ret, q.Proper := by
  cases ret with
  | none => exact List.forall_mem_nil _
  | some a =>
    obtain ⟨ts, -, hd⟩ := bind_eq_ok_iff.1 hd
    obtain ⟨t, ht, -⟩ := bind_eq_ok_iff.1 hd
    rw [Names.placesOfType?, Option.toList_some, Names.placesOfTypes, List.forall_mem_append]
    exact ⟨proper_of_resolve h a ht, List.forall_mem_nil _⟩

/-! ## The parts of a construct -/

/-- In bindings that are accepted, all names are seen. -/
theorem proper_of_checkBindings {bs : List Binding}
    (ih : ∀ b ∈ bs, ∀ (s : Scope) (Γ : Names), s.Binds Γ → (s.checkExpr b.value).verdict = .ok () →
      ∀ q ∈ Γ.places b.value, q.Proper)
    (h : s.Binds Γ) (hr : (s.checkBindings bs).verdict = .ok r) : ∀ q ∈ Γ.placesOfBindings bs, q.Proper := by
  induction bs generalizing s Γ with
  | nil => exact List.forall_mem_nil _
  | cons b bs ihbs =>
    obtain ⟨n, value, span⟩ := b
    rw [List.forall_mem_cons] at ih
    obtain ⟨-, hvalue, t, -, hr⟩ := checkBindings_cons_iff.1 hr
    rw [Names.placesOfBindings, List.forall_mem_append]
    exact ⟨ih.1 s Γ h hvalue, ihbs ih.2 (h.addVariable n t) hr⟩

/-- In statements that are accepted, all names are seen. -/
theorem proper_of_checkStmts {stmts : List Stmt}
    (ih : ∀ st ∈ stmts, ∀ (s r : Scope) (Γ : Names) (ds : List Declared), s.Tracks Γ ds → (s.checkStmt st).verdict = .ok r →
      ∀ q ∈ Γ.placesOfStmt st, q.Proper)
    (h : s.Tracks Γ ds) (hr : (s.checkStmts stmts).verdict = .ok r) : ∀ q ∈ Γ.placesOfStmts stmts, q.Proper := by
  induction stmts generalizing s Γ ds with
  | nil => exact List.forall_mem_nil _
  | cons st stmts ihs =>
    rw [List.forall_mem_cons] at ih
    obtain ⟨s₁, hs₁, hr⟩ := checkStmts_cons_iff.1 hr
    rw [Names.placesOfStmts, List.forall_mem_append]
    exact ⟨ih.1 s s₁ Γ ds h hs₁, ihs ih.2 (tracks_of_checkStmt h hs₁) hr⟩

/-- The levels of the parameters of methods declare no value name twice, and neither do the parts of their bodies. -/
theorem proper_of_checkMethods {receiver : Ty} {fields : List Param} {ms : List Method}
    (ih : ∀ m ∈ ms, ∀ (s : Scope) (Γ : Names), s.Binds Γ → (s.checkBlock m.body).verdict = .ok () →
      ∀ q ∈ Γ.placesOfBlock m.body, q.Proper)
    (h : s.Tracks Γ ds) (hr : (s.checkMethods receiver fields ms).verdict = .ok r) :
    (∀ q ∈ Γ.placesOfMethods fields ms, q.Proper) ∧
      ∀ m ∈ ms, (Declared.values (m.receiver :: m.params.map Param.declared)).Nodup := by
  induction ms generalizing s Γ ds with
  | nil => exact ⟨List.forall_mem_nil _, List.forall_mem_nil _⟩
  | cons m ms ihms =>
    obtain ⟨n, params, ret, body, span⟩ := m
    rw [List.forall_mem_cons] at ih
    obtain ⟨hnew, d, hd, around, haround, inner, hinner, hbody, hr⟩ := checkMethods_cons_iff.1 hr
    have hmethod := h.addFunction span (ensureNewFunction_ok_iff.1 hnew) d
    have hfields := tracks_of_declareParams hmethod.binds.tracks_child haround
    have hself := hfields.binds.tracks_child.addVariable (n := "self") span rfl (some receiver)
    have hparams := tracks_of_declareParams hself hinner
    have htypes : ∀ m, ((around.child.addVariable "self" (some receiver)).type? m).isSome = true ↔ (Γ.kind? m).isSome = true := by
      simpa using hself.binds.type
    obtain ⟨hrest, hlevels⟩ := ihms ih.2 hmethod hr
    rw [Names.placesOfMethods, List.forall_mem_append, List.forall_mem_append, List.forall_mem_append, List.forall_mem_cons]
    refine ⟨⟨proper_of_declareParams htypes hinner, proper_of_methodDeclaration h.binds.type hd,
      ih.1 inner _ hparams.binds hbody, hrest⟩, hparams.nodup, hlevels⟩

/-- In implementations that are accepted, all names are seen, and the parameters of every method have names of their own. -/
theorem proper_of_checkImplementations {n : String} {fields : List Param} {is : List Implementation}
    (ih : ∀ i ∈ is, ∀ m ∈ i.methods, ∀ (s : Scope) (Γ : Names), s.Binds Γ → (s.checkBlock m.body).verdict = .ok () →
      ∀ q ∈ Γ.placesOfBlock m.body, q.Proper)
    (h : s.Tracks Γ ds) (hr : (s.checkImplementations n fields is).verdict = .ok r) :
    (∀ q ∈ Γ.placesOfImplementations fields is, q.Proper) ∧
      ∀ m ∈ is.flatMap (·.methods), (Declared.values (m.receiver :: m.params.map Param.declared)).Nodup := by
  induction is generalizing s Γ ds with
  | nil => exact ⟨List.forall_mem_nil _, List.forall_mem_nil _⟩
  | cons i is ihis =>
    obtain ⟨protocol, methods, span⟩ := i
    rw [List.forall_mem_cons] at ih
    obtain ⟨s₁, hs₁, hr⟩ := checkImplementations_cons_iff.1 hr
    obtain ⟨hmethods, hlevels⟩ := proper_of_checkMethods ih.1 h hs₁
    obtain ⟨hrest, hothers⟩ := ihis ih.2 (tracks_of_checkMethods h hs₁) hr
    rw [Names.placesOfImplementations, List.forall_mem_append, List.flatMap_cons, List.forall_mem_append]
    exact ⟨⟨hmethods, hrest⟩, hlevels, hothers⟩

/-- In a function definition that is accepted, all names are seen. -/
theorem proper_function {n : String} {generics : List String} {params : List Param} {ret : Option Annotation} {body : Block}
    {span : Span}
    (ih : ∀ (s : Scope) (Γ : Names), s.Binds Γ → (s.checkBlock body).verdict = .ok () → ∀ q ∈ Γ.placesOfBlock body, q.Proper)
    (h : s.Tracks Γ ds) (hr : (s.checkStmt (.function n generics params ret body span)).verdict = .ok r) :
    ∀ q ∈ Γ.placesOfStmt (.function n generics params ret body span), q.Proper := by
  obtain ⟨hnew, d, hd, inner, hinner, hbody, -⟩ := checkStmt_function_iff.1 hr
  have hgenerics := (h.binds.addFunction n d).withGenerics n generics
  have hparams := tracks_of_declareParams hgenerics.tracks_child hinner
  have htypes : ∀ m, (((s.addFunction n d).withGenerics n generics).child.type? m).isSome = true ↔
      ((Γ.addGenerics generics).kind? m).isSome = true := by
    simpa [Names.addGenerics_addValue] using hgenerics.child.type
  rw [Names.placesOfStmt, List.forall_mem_cons, List.forall_mem_append, List.forall_mem_append]
  refine ⟨.of_levels rfl ?_, ?_, ?_, ?_⟩
  · exact List.forall_mem_singleton.2 hparams.nodup
  · exact proper_of_declareParams htypes hinner
  · exact proper_of_functionDeclaration (h.binds.withGenerics n generics).type hd
  · exact ih inner _ hparams.binds hbody

/-- In a record that is accepted, all names are seen. -/
theorem proper_record {n : String} {fields : List Param} {is : List Implementation} {span : Span}
    (ih : ∀ i ∈ is, ∀ m ∈ i.methods, ∀ (s : Scope) (Γ : Names), s.Binds Γ → (s.checkBlock m.body).verdict = .ok () →
      ∀ q ∈ Γ.placesOfBlock m.body, q.Proper)
    (h : s.Tracks Γ ds) (hr : (s.checkStmt (.record n fields is span)).verdict = .ok r) :
    ∀ q ∈ Γ.placesOfStmt (.record n fields is span), q.Proper := by
  obtain ⟨hnew, hdistinct, layout, hl, hr⟩ := checkStmt_record_iff.1 hr
  have hrecord := h.bindRecord span (ensureNewRecord_ok_iff.1 hnew).2 hl
  obtain ⟨hmethods, hlevels⟩ := proper_of_checkImplementations ih hrecord hr
  have hfields : (Declared.values (fields.map Param.declared)).Nodup := by
    rw [Declared.values_fields]
    exact nodup_of_ensureDistinctFields hdistinct
  obtain ⟨ts, hts, -⟩ := bind_eq_ok_iff.1 hl
  rw [Names.placesOfStmt, List.forall_mem_cons, List.forall_mem_append]
  refine ⟨.of_levels rfl ?_, proper_of_resolveAll (h.binds.type_addRecord fields) _ hts, hmethods⟩
  rw [Part.levels, List.forall_mem_cons, List.forall_mem_map]
  exact ⟨hfields, hlevels⟩

/-- Each construct that is accepted is in order, when its parts are: it sees the names it asks for, and declares none twice. -/
theorem proper_cases : TreeCases
    (fun e => ∀ (s : Scope) (Γ : Names), s.Binds Γ → (s.checkExpr e).verdict = .ok () → ∀ q ∈ Γ.places e, q.Proper)
    (fun b => ∀ (s : Scope) (Γ : Names), s.Binds Γ → (s.checkBlock b).verdict = .ok () → ∀ q ∈ Γ.placesOfBlock b, q.Proper)
    (fun st => ∀ (s r : Scope) (Γ : Names) (ds : List Declared), s.Tracks Γ ds → (s.checkStmt st).verdict = .ok r →
      ∀ q ∈ Γ.placesOfStmt st, q.Proper) where
  literal v span s Γ h hr := by
    rw [Names.places, List.forall_mem_singleton]
    exact .of_plain rfl rfl
  name n span s Γ h hr := by
    rw [Names.places, List.forall_mem_singleton]
    exact .of_use rfl rfl ((h.value n).1 (checkExpr_name_iff.1 hr))
  binary op l r span ihl ihr s Γ h hr := by
    obtain ⟨hl, hr⟩ := checkExpr_binary_iff.1 hr
    rw [Names.places, List.forall_mem_cons, List.forall_mem_append]
    exact ⟨.of_plain rfl rfl, ihl s Γ h hl, ihr s Γ h hr⟩
  unary op e span ih s Γ h hr := by
    rw [checkExpr] at hr
    rw [Names.places, List.forall_mem_cons]
    exact ⟨.of_plain rfl rfl, ih s Γ h hr⟩
  call f args span ih s Γ h hr := by
    obtain ⟨c, hc, hargs, -⟩ := checkExpr_call_iff.1 hr
    have hserves : Γ.Serves (.callee f) := (h.callee f).1 (by rw [hc]; rfl)
    rw [Names.places, List.forall_mem_cons]
    exact ⟨.of_use rfl rfl hserves, Names.forall_placesOfAll.2 fun e he => ih e he s Γ h (hargs e he)⟩
  methodCall threading receiver m args span ihr ih s Γ h hr := by
    rw [verdict_checkExpr_methodCall] at hr
    obtain ⟨c, hc, hargs, -⟩ := checkExpr_call_iff.1 hr
    have hserves : Γ.Serves (.callee m) := (h.callee m).1 (by rw [hc]; rfl)
    have hmem : ∀ e, e = receiver ∨ e ∈ args → (s.checkExpr e).verdict = .ok () := fun e he =>
      hargs e (threading.mem_arrange.2 he)
    rw [Names.places, List.forall_mem_cons, List.forall_mem_append]
    refine ⟨.of_use rfl rfl hserves, ihr s Γ h (hmem receiver (Or.inl rfl)), ?_⟩
    exact Names.forall_placesOfAll.2 fun e he => ih e he s Γ h (hmem e (Or.inr he))
  member target field span ih s Γ h hr := by
    obtain ⟨ht, -⟩ := checkExpr_member_iff.1 hr
    rw [Names.places, List.forall_mem_cons]
    exact ⟨.of_plain rfl rfl, ih s Γ h ht⟩
  get collection key span ihc ihk s Γ h hr := by
    obtain ⟨hc, hk⟩ := checkExpr_get_iff.1 hr
    rw [Names.places, List.forall_mem_cons, List.forall_mem_append]
    exact ⟨.of_plain rfl rfl, ihc s Γ h hc, ihk s Γ h hk⟩
  vector items span ih s Γ h hr := by
    rw [checkExpr, checkExprs_ok_iff] at hr
    rw [Names.places, List.forall_mem_cons]
    exact ⟨.of_plain rfl rfl, Names.forall_placesOfAll.2 fun e he => ih e he s Γ h (hr e he)⟩
  map entries span ih s Γ h hr := by
    rw [checkExpr, checkEntries_ok_iff] at hr
    rw [Names.places, List.forall_mem_cons]
    refine ⟨.of_plain rfl rfl, Names.forall_placesOfEntries.2 fun e he => ⟨?_, ?_⟩⟩
    · exact (ih e he).1 s Γ h (hr e he).1
    · exact (ih e he).2 s Γ h (hr e he).2
  block b ih s Γ h hr := by
    rw [Names.places, List.forall_mem_cons]
    exact ⟨.of_plain rfl rfl, ih s Γ h hr⟩
  letIn bindings body span ih ihb s Γ h hr := by
    obtain ⟨inner, hinner, hbody⟩ := checkExpr_letIn_iff.1 hr
    have hbound := tracks_of_checkBindings h.tracks_child hinner
    rw [Names.places, List.forall_mem_cons, List.forall_mem_append]
    refine ⟨.of_levels rfl ?_, proper_of_checkBindings ih h.child hinner, ihb inner _ hbound.binds hbody⟩
    exact List.forall_mem_singleton.2 hbound.nodup
  forEach vars iterable body span ih ihb s Γ h hr := by
    obtain ⟨hi, t, -, inner, hinner, hbody⟩ := checkExpr_forEach_iff.1 hr
    have hbound := tracks_of_declareLoopVars h.tracks_child hinner
    rw [Names.places, List.forall_mem_cons, List.forall_mem_append]
    refine ⟨.of_levels rfl ?_, ih s Γ h hi, ihb inner _ hbound.binds hbody⟩
    exact List.forall_mem_singleton.2 hbound.nodup
  cond branches otherwise span ih iho s Γ h hr := by
    obtain ⟨hb, ho⟩ := checkExpr_cond_iff.1 hr
    rw [Names.places, List.forall_mem_cons, List.forall_mem_append]
    refine ⟨.of_plain rfl rfl, Names.forall_placesOfBranches.2 fun b hm => ⟨?_, ?_⟩, ?_⟩
    · exact (ih b hm).1 s.child Γ h.child (hb b hm).1
    · exact (ih b hm).2 s.child Γ h.child (hb b hm).2
    · cases otherwise with
      | none => exact List.forall_mem_nil _
      | some b => exact iho b rfl s.child Γ h.child (ho b rfl)
  lambda params body span ih s Γ h hr := by
    obtain ⟨inner, hinner, hbody⟩ := checkExpr_lambda_iff.1 hr
    have hbound := tracks_of_declareLambdaParams h.tracks_child hinner
    rw [Names.places, List.forall_mem_cons, List.forall_mem_append]
    refine ⟨.of_levels rfl ?_, proper_of_declareLambdaParams h.child.type hinner, ih inner _ hbound.binds hbody⟩
    exact List.forall_mem_singleton.2 hbound.nodup
  paren e span ih s Γ h hr := by
    rw [checkExpr] at hr
    rw [Names.places, List.forall_mem_cons]
    exact ⟨.of_plain rfl rfl, ih s Γ h hr⟩
  stmts stmts span ih s Γ h hr := by
    obtain ⟨r, hr⟩ := checkBlock_iff.1 hr
    obtain ⟨Γ', hbound⟩ := tracks_of_checkStmts h.tracks_child hr
    rw [Names.placesOfBlock, List.forall_mem_cons]
    refine ⟨.of_levels rfl ?_, proper_of_checkStmts ih h.tracks_child hr⟩
    exact List.forall_mem_singleton.2 hbound.nodup
  function n generics params ret body span ih s r Γ ds h hr := proper_function ih h hr
  record n fields implementations span ih s r Γ ds h hr := proper_record ih h hr
  define n ty value span ih s r Γ ds h hr := by
    obtain ⟨-, hvalue, actual, -, t, ht, -⟩ := checkStmt_define_iff.1 hr
    rw [Names.placesOfStmt, List.forall_mem_cons, List.forall_mem_append]
    refine ⟨.of_plain rfl rfl, ?_, ih s Γ h.binds hvalue⟩
    cases ty with
    | none => exact List.forall_mem_nil _
    | some a =>
      obtain ⟨expected, he, -⟩ := variableType_annotated_iff.1 ht
      rw [Names.placesOfType?, Option.toList_some, Names.placesOfTypes, List.forall_mem_append]
      exact ⟨proper_of_resolve h.binds.type a he, List.forall_mem_nil _⟩
  expr e ih s r Γ ds h hr := by
    rw [Names.placesOfStmt, List.forall_mem_cons]
    exact ⟨.of_plain rfl rfl, ih s Γ h.binds (checkStmt_expr_iff.1 hr).1⟩

end Scope

end Gradual
