import Gradual.Proofs.Check.Forget

/-!
# The static gradual guarantee

Forgetting the types of variables and the declarations of functions never turns an accepted expression into a rejected one, and
its type is then known less and nothing else (`checkExpr_ok_of_forgets`).

The walk over an accepted tree is followed in the scope that knows less (`kept_cases`). Both scopes bind the same names at each
step, and what the second binds is known less. The one step where knowing less might hurt is the call of a generic function, since
its result is solved from what is known of the arguments; `Declaration.Merged.resultType` says that it does not. The two walks may
read one tree under different names of generic parameters, so that the walk also says what becomes of a tree in which parameters
are renamed.
-/

namespace Gradual

/-- Branches whose types are like each other have a common type together, and it is known alike. -/
theorem commonBranchType_follows {σ : String → String} {ts ts' : List (Ty × Span)}
    (h : List.Forall₂ (fun m m' => Ty.Like (m.1.relabel σ) m'.1) ts ts') :
    Follows (VaguerAs σ) (commonBranchType ts) (commonBranchType ts') := by
  cases h with
  | nil => exact .ok (.unknown σ none)
  | @cons m m' others others' hl hothers =>
    intro t ht
    obtain ⟨rfl, hfit⟩ := commonBranchType_cons_iff.1 ht
    refine ⟨some m'.1, commonBranchType_cons_iff.2 ⟨rfl, ?_⟩, .known hl⟩
    rw [← hl.eraseOwners_eq]
    have herase : others.map (fun o => (o.1.relabel σ).eraseOwners) = others'.map (·.1.eraseOwners) := by
      rw [← List.forall₂_eq_eq_eq, List.forall₂_map_left_iff, List.forall₂_map_right_iff]
      exact hothers.imp fun _ _ ho => ho.eraseOwners_eq
    rw [← List.forall_mem_map (P := fun x => x = (m.1.relabel σ).eraseOwners), ← herase, List.forall_mem_map]
    intro o ho
    rw [Ty.eraseOwners_relabel, Ty.eraseOwners_relabel, hfit o ho]

namespace Scope

/-! ## What is kept -/

section Kept

variable (σ : String → String) (s s' : Scope)

/-- Where the first expression is accepted in the first scope, the second is in the second scope, and its type is known less. -/
def Kept (e e' : Expr) : Prop :=
  (s.checkExpr e).verdict = .ok () → (s'.checkExpr e').verdict = .ok () ∧ Follows (VaguerAs σ) (s.typeOf e) (s'.typeOf e')

/-- Where the first block is accepted in the first scope, the second is in the second scope, and its type is known less. -/
def BlockKept (b b' : Block) : Prop :=
  (s.checkBlock b).verdict = .ok () →
    (s'.checkBlock b').verdict = .ok () ∧ Follows (VaguerAs σ) (s.blockType b) (s'.blockType b')

end Kept

/-- An expression that is accepted is accepted where less is known, whatever names the scopes have for generic parameters. -/
def Keeps (σ : String → String) (y : String) (e : Expr) : Prop :=
  ∀ (Γ : Names) (ν ν' : String → String) (s s' : Scope), s.Vaguer σ ν ν' y s' → Γ.Covers ν ∧ Γ.Covers ν' →
    (∀ q ∈ Γ.places e, q.Suits σ ν ν' y) → Kept σ s s' (e.rename ν) (e.rename ν')

/-- A block that is accepted is accepted where less is known. -/
def KeepsBlock (σ : String → String) (y : String) (b : Block) : Prop :=
  ∀ (Γ : Names) (ν ν' : String → String) (s s' : Scope), s.Vaguer σ ν ν' y s' → Γ.Covers ν ∧ Γ.Covers ν' →
    (∀ q ∈ Γ.placesOfBlock b, q.Suits σ ν ν' y) → BlockKept σ s s' (b.rename ν) (b.rename ν')

/-- A statement that is accepted is accepted where less is known, and binds what is known less; so is its type, at the end of
a block. -/
def KeepsStmt (σ : String → String) (y : String) (st : Stmt) : Prop :=
  ∀ (Γ : Names) (ν ν' : String → String) (s s' : Scope), s.Vaguer σ ν ν' y s' → Γ.Covers ν ∧ Γ.Covers ν' →
    (∀ q ∈ Γ.placesOfStmt st, q.Suits σ ν ν' y) →
      Follows (fun r r' => r.Vaguer σ (st.renamingAfter ν) (st.renamingAfter ν') y r' ∧
          Follows (VaguerAs σ) (s.bodyType [st.rename ν]) (s'.bodyType [st.rename ν']))
        (s.checkStmt (st.rename ν)).verdict (s'.checkStmt (st.rename ν')).verdict

namespace Vaguer

variable {σ ν ν' : String → String} {y : String} {s s' : Scope} {Γ : Names}

/-! ## Calls -/

/-- The types of the arguments of a call of a plain declaration are known less. -/
theorem vaguerAs_of_plain {ts ts' : ArgTypes} (h : List.Forall₂ (Declaration.MergedArgument σ) ts ts')
    (hclosed : ∀ t, some t ∈ ts → t.isOpen = false) : List.Forall₂ (VaguerAs σ) ts ts' := by
  induction h with
  | nil => exact .nil
  | @cons t t' ts ts' ht _ ih =>
    refine .cons ?_ (ih fun a ha => hclosed a (List.mem_cons_of_mem _ ha))
    obtain ⟨k, -, hv, -⟩ := ht
    exact (VaguerAs.iff_of_closed k fun a ha => hclosed a (ha ▸ List.mem_cons_self)).2 hv

/-- The types of arguments have their unknowns at sites of their own. -/
theorem sited (h : s.Vaguer σ ν ν' y s') {d : Declaration} {args : List Expr} {ts : ArgTypes}
    (hts : s.argTypes d 0 args = .ok ts) : Declaration.Sited ts := by
  intro i a ha q hq hu
  have hsite := site_of_argTypes h.closed hts ha hq hu
  rwa [Nat.zero_add] at hsite

/-- A call is kept when its arguments are. -/
theorem call (h : s.Vaguer σ ν ν' y s') {args : List Expr} (ih : ∀ e ∈ args, Kept σ s s' (e.rename ν) (e.rename ν')) (f : String)
    (span : Span) : Kept σ s s' (.call f (renameExprs ν args) span) (.call f (renameExprs ν' args) span) := by
  intro hok
  obtain ⟨c, hc, hargs, hcall⟩ := checkExpr_call_iff.1 hok
  rw [renameExprs_eq_map, List.forall_mem_map] at hargs
  have hargs' : ∀ e ∈ renameExprs ν' args, (s'.checkExpr e).verdict = .ok () := by
    rw [renameExprs_eq_map, List.forall_mem_map]
    exact fun e he => (ih e he (hargs e he)).1
  have htypes : ∀ e ∈ args, Follows (VaguerAs σ) (s.typeOf (e.rename ν)) (s'.typeOf (e.rename ν')) :=
    fun e he => (ih e he (hargs e he)).2
  have hv := h.callee? f
  rw [hc] at hv
  generalize hc' : s'.callee? f = o at hv
  cases hv with
  | some hv =>
    rw [checkExpr_call_iff]
    simp only [typeOf, hc, hc']
    cases hv with
    | untyped =>
      exact ⟨⟨.untyped, rfl, hargs', checkArguments_ok_iff.2 (by rintro d ⟨⟩)⟩, fun t _ => ⟨none, rfl, .unknown σ t⟩⟩
    | @generic d d' hg hm =>
      obtain ⟨ts, hts, hok⟩ := checkArguments_ok_iff.1 hcall d rfl
      obtain ⟨ts', hts', hvs⟩ := h.argTypes (Or.inl hm.renamed) 0 htypes ts hts
      have hd := h.closed.callee hc
      have hs := h.sited hts
      refine ⟨⟨.typed d', rfl, hargs', checkArguments_ok_iff.2 fun e he => ?_⟩, ?_⟩
      · obtain rfl := Callee.typed.inj he
        exact ⟨ts', hts', hm.checkCall hd hg hs hvs hok⟩
      · dsimp only
        rw [hm.renamed.isGeneric_eq, hg, if_pos rfl, if_pos rfl, hts, hts', ok_bind, ok_bind]
        intro r hr
        obtain ⟨r', hr', hvr⟩ := hm.resultType hd hg hs hvs (h.closed'.callee hc') hok r (mapError_eq_ok_iff.1 hr)
        exact ⟨r', mapError_eq_ok_iff.2 hr', hvr⟩
    | @plain d d' hd hd' hn ht hret =>
      obtain ⟨ts, hts, hok⟩ := checkArguments_ok_iff.1 hcall d rfl
      obtain ⟨ts', hts', hvs⟩ := h.argTypes (Or.inr ⟨hd, hd'⟩) 0 htypes ts hts
      refine ⟨⟨.typed d', rfl, hargs', checkArguments_ok_iff.2 fun e he => ?_⟩, ?_⟩
      · obtain rfl := Callee.typed.inj he
        rw [Declaration.checkCall, hd, if_neg Bool.false_ne_true] at hok
        refine ⟨ts', hts', ?_⟩
        rw [Declaration.checkCall, hd', if_neg Bool.false_ne_true]
        exact Declaration.checkPlainCall_ok_of_vaguerAs hn ht
          (vaguerAs_of_plain hvs (isOpen_argTypes_of_plain h.closed hd hts)) hok
      · dsimp only
        rw [hd, hd', if_neg Bool.false_ne_true, if_neg Bool.false_ne_true]
        exact .ok (.known hret)

/-! ## Branches, bindings and loops -/

/-- The types of branches are known less, one by one, when those of their blocks are. -/
theorem branchTypes {bs : List Branch}
    (ih : ∀ b ∈ bs, Follows (VaguerAs σ) (s.blockType (b.body.rename ν)) (s'.blockType (b.body.rename ν'))) :
    Follows (fun ts ts' => ∀ ms', ts' = some ms' →
        ∃ ms, ts = some ms ∧ List.Forall₂ (fun m m' => Ty.Like (m.1.relabel σ) m'.1) ms ms')
      (s.branchTypes (renameBranches ν bs)) (s'.branchTypes (renameBranches ν' bs)) := by
  induction bs with
  | nil => exact .ok fun ms' hms' => ⟨[], rfl, Option.some.inj hms' ▸ .nil⟩
  | cons b bs ihbs =>
    obtain ⟨condition, body⟩ := b
    rw [List.forall_mem_cons] at ih
    refine ih.1.bind fun t t' _ ht => ?_
    cases t' with
    | none => exact fun ts _ => ⟨none, rfl, fun ms' hms' => nomatch hms'⟩
    | some b =>
      obtain ⟨a, rfl, hl⟩ := ht.exists_like
      refine (ihbs ih.2).bind fun ts ts' _ hts => ?_
      cases ts' with
      | none => exact fun us _ => ⟨none, rfl, fun ms' hms' => nomatch hms'⟩
      | some ms' =>
        obtain ⟨ms, rfl, hms⟩ := hts ms' rfl
        refine .ok fun us' hus' => ?_
        obtain rfl := Option.some.inj hus'
        exact ⟨_, rfl, .cons hl hms⟩

/-- Bindings of a let that are accepted bind what is known less. -/
theorem checkBindings (h : s.Vaguer σ ν ν' y s') {bs : List Binding} (hν : Γ.Covers ν ∧ Γ.Covers ν')
    (hq : ∀ q ∈ Γ.placesOfBindings bs, q.Suits σ ν ν' y) (ih : ∀ b ∈ bs, Keeps σ y b.value) :
    Follows (Scope.Vaguer σ ν ν' y) (s.checkBindings (renameBindings ν bs)).verdict
      (s'.checkBindings (renameBindings ν' bs)).verdict := by
  induction bs generalizing s s' Γ with
  | nil => exact .ok h
  | cons b bs ihbs =>
    obtain ⟨n, value, span⟩ := b
    rw [List.forall_mem_cons] at ih
    rw [Names.placesOfBindings, List.forall_mem_append] at hq
    rw [renameBindings, renameBindings]
    intro r hr
    obtain ⟨hnew, hvalue, t, ht, hr⟩ := checkBindings_cons_iff.1 hr
    obtain ⟨hvalue', htypes⟩ := ih.1 Γ ν ν' s s' h hν hq.1 hvalue
    obtain ⟨t', ht', hv⟩ := htypes t ht
    have hclosed : ∀ a, t = some a → a.isOpen = false := fun a ha => isOpen_typeOf h.closed (ha ▸ ht)
    obtain ⟨r', hr', hvr⟩ := ihbs (h.addVariable n hv hclosed) (hν.imp (·.addValue n) (·.addValue n)) hq.2 ih.2 r hr
    rw [h.ensureNewVariable_eq] at hnew
    exact ⟨r', checkBindings_cons_iff.2 ⟨hnew, hvalue', t', ht', hr'⟩, hvr⟩

/-- The variable of a loop has a type that is known less when that of what is looped over is. -/
theorem loopVarType {iterable iterable' : Expr} (hi : Follows (VaguerAs σ) (s.typeOf iterable) (s'.typeOf iterable'))
    (vars : List LocalName) : Follows (VaguerAs σ) (s.loopVarType vars iterable) (s'.loopVarType vars iterable') := by
  unfold Scope.loopVarType
  split
  · exact hi.bind fun t t' _ ht => .ok (ht.bind Ty.element?_rename fun a b hl => hl.vaguer_element)
  · exact .ok (.unknown σ none)

/-- A variable has a type that is known less when that of its value is; an annotation that the value implements stays so. -/
theorem variableType (h : s.Vaguer σ ν ν' y s') {t t' : Option Ty} (ht : VaguerAs σ t t') (n : String) {ty : Option Annotation}
    (hq : ∀ q ∈ Γ.placesOfType? ty, q.part.Fits ν y ∧ q.part.Fits ν' y) (span : Span) :
    Follows (VaguerAs σ) (s.variableType n (ty.map (·.rename ν)) t span) (s'.variableType n (ty.map (·.rename ν')) t' span) := by
  cases ty with
  | none => exact .ok ht
  | some a =>
    rw [Names.placesOfType?_some] at hq
    intro r hr
    obtain ⟨expected, he, hfit, rfl⟩ := variableType_annotated_iff.1 hr
    obtain ⟨_, he', rfl⟩ := (h.resolve hq).follows expected he
    refine ⟨_, variableType_annotated_iff.2 ⟨expected.relabel σ, he', fun b hb => ?_, rfl⟩, .relabel σ (some expected)⟩
    subst hb
    obtain ⟨a, ha, hl⟩ := ht.exists_like
    have hsame := (Ty.implements_iff a expected).1 (hfit a ha)
    rw [Ty.implements_iff, ← hl.eraseOwners_eq, Ty.eraseOwners_relabel, Ty.eraseOwners_relabel, hsame]

/-! ## Statements -/

/-- Statements that are accepted are accepted where less is known, and the type of the last is known less. -/
theorem checkStmts (h : s.Vaguer σ ν ν' y s') {stmts : List Stmt} (hν : Γ.Covers ν ∧ Γ.Covers ν')
    (hq : ∀ q ∈ Γ.placesOfStmts stmts, q.Suits σ ν ν' y) (ih : ∀ st ∈ stmts, KeepsStmt σ y st) :
    Follows (fun _ _ => Follows (VaguerAs σ) (s.bodyType (renameStmts ν stmts)) (s'.bodyType (renameStmts ν' stmts)))
      (s.checkStmts (renameStmts ν stmts)).verdict (s'.checkStmts (renameStmts ν' stmts)).verdict := by
  induction stmts generalizing s s' Γ ν ν' with
  | nil => exact .ok (.ok (.of_fixed rfl))
  | cons st stmts ihs =>
    rw [List.forall_mem_cons] at ih
    rw [Names.placesOfStmts, List.forall_mem_append] at hq
    rw [renameStmts, renameStmts]
    intro r hr
    obtain ⟨s₁, hs₁, hr⟩ := checkStmts_cons_iff.1 hr
    obtain ⟨s₁', hs₁', hv₁, htype⟩ := ih.1 Γ ν ν' s s' h hν hq.1 s₁ hs₁
    obtain ⟨r', hr', htypes⟩ := ihs hv₁ (hν.imp (·.after st) (·.after st)) (fun q hm => (hq.2 q hm).after st) ih.2 r hr
    refine ⟨r', checkStmts_cons_iff.2 ⟨s₁', hs₁', hr'⟩, ?_⟩
    cases stmts with
    | nil => exact htype
    | cons st' stmts =>
      rw [renameStmts] at htypes ⊢
      rw [renameStmts] at htypes ⊢
      rw [bodyType_cons_cons, bodyType_cons_cons, declare_of_checkStmt hs₁, declare_of_checkStmt hs₁']
      exact htypes

/-- Methods that are accepted are accepted where less is known, and bind what is known less. -/
theorem checkMethods (h : s.Vaguer σ ν ν' y s') (receiver : String) {Γ₀ : Names} {fields : List Param}
    (hf : ∀ q ∈ Γ₀.placesOfParams fields, q.part.Fits ν y ∧ q.part.Fits ν' y) {ms : List Method} (hν : Γ.Covers ν ∧ Γ.Covers ν')
    (hq : ∀ q ∈ Γ.placesOfMethods fields ms, q.Suits σ ν ν' y) (ih : ∀ m ∈ ms, KeepsBlock σ y m.body) :
    Follows (Scope.Vaguer σ ν ν' y)
      (s.checkMethods (.simple receiver) (fields.map (Param.rename ν)) (renameMethods ν ms)).verdict
      (s'.checkMethods (.simple receiver) (fields.map (Param.rename ν')) (renameMethods ν' ms)).verdict := by
  induction ms generalizing s s' Γ with
  | nil => exact .ok h
  | cons m ms ihms =>
    obtain ⟨n, params, ret, body, span⟩ := m
    rw [List.forall_mem_cons] at ih
    rw [Names.placesOfMethods, List.forall_mem_append, List.forall_mem_append, List.forall_mem_append] at hq
    have hp := Names.fits_of_suits hν hq.1
    rw [renameMethods, renameMethods]
    intro r hr
    obtain ⟨hnew, d, hd, around, haround, inner, hinner, hbody, hr⟩ := checkMethods_cons_iff.1 hr
    obtain ⟨d', hd', hdd⟩ := (h.type.methodDeclaration h.closed receiver n hp (Names.fits_of_suits hν hq.2.1)).follows d hd
    have hbound := h.addFunction n (.of_merged hdd) (fun e he => closed_methodDeclaration h.closed rfl hd he)
      fun e he => closed_methodDeclaration h.closed' rfl hd' he
    obtain ⟨around', haround', hva⟩ := (hbound.child.declareParams hf).follows around haround
    have hself := hva.child.addVariable "self" (t := some (.simple receiver)) (.of_fixed rfl) fun a ha => Option.some.inj ha ▸ rfl
    obtain ⟨inner', hinner', hvi⟩ := (hself.declareParams hp).follows inner hinner
    obtain ⟨r', hr', hvr⟩ := ihms hbound (hν.imp (·.addValue n) (·.addValue n)) hq.2.2.2 ih.2 r hr
    have hcovers : ∀ {ν}, Γ.Covers ν → (Γ.inMethod n fields params).Covers ν :=
      fun hν => (((hν.addValue n).addValues _).addValue "self").addValues _
    rw [h.ensureNewFunction_eq] at hnew
    have hbody' := (ih.1 _ ν ν' inner inner' hvi (hν.imp hcovers hcovers) hq.2.2.1 hbody).1
    exact ⟨r', checkMethods_cons_iff.2 ⟨hnew, d', hd', around', haround', inner', hinner', hbody', hr'⟩, hvr⟩

/-- Implementations that are accepted where more is known are accepted where less is. -/
theorem checkImplementations (h : s.Vaguer σ ν ν' y s') (n : String) {Γ₀ : Names} {fields : List Param}
    (hf : ∀ q ∈ Γ₀.placesOfParams fields, q.part.Fits ν y ∧ q.part.Fits ν' y) {is : List Implementation}
    (hν : Γ.Covers ν ∧ Γ.Covers ν') (hq : ∀ q ∈ Γ.placesOfImplementations fields is, q.Suits σ ν ν' y)
    (ih : ∀ i ∈ is, ∀ m ∈ i.methods, KeepsBlock σ y m.body) :
    Follows (Scope.Vaguer σ ν ν' y)
      (s.checkImplementations n (fields.map (Param.rename ν)) (renameImplementations ν is)).verdict
      (s'.checkImplementations n (fields.map (Param.rename ν')) (renameImplementations ν' is)).verdict := by
  induction is generalizing s s' Γ with
  | nil => exact .ok h
  | cons i is ihis =>
    obtain ⟨protocol, methods, span⟩ := i
    rw [List.forall_mem_cons] at ih
    rw [Names.placesOfImplementations, List.forall_mem_append] at hq
    rw [renameImplementations, renameImplementations]
    intro r hr
    obtain ⟨s₁, hs₁, hr⟩ := checkImplementations_cons_iff.1 hr
    obtain ⟨s₁', hs₁', hv₁⟩ := h.checkMethods n hf hν hq.1 ih.1 s₁ hs₁
    obtain ⟨r', hr', hv⟩ := ihis hv₁ (hν.imp (·.addValues _) (·.addValues _)) hq.2 ih.2 r hr
    exact ⟨r', checkImplementations_cons_iff.2 ⟨s₁', hs₁', hr'⟩, hv⟩

/-! ### One statement -/

section Function

variable {k k' : Equiv.Perm String} {generics : List String}

/-- A function that is accepted under the names that `k` gives its generic parameters is accepted under those that `k'` gives
them, where less is known, when its body is. -/
theorem checkFunction (h : s.Vaguer σ ν ν' y s') (hk : Rebinds ν y k generics) (hk' : Rebinds ν' y k' generics)
    (hσ : ∀ n ∈ generics, σ (k n) = k' n) (ha : Function.Injective σ ∨ ν' = id ∧ binding ν' k' generics = id)
    (hr : ∀ n ∈ generics.map k, n ∈ generics.map k' ∨ s.recordNamed? n = none) {n : String} {params : List Param}
    {ret : Option Annotation}
    (hp : ∀ q ∈ Γ.placesOfParams params, q.part.Fits (binding ν k generics) y ∧ q.part.Fits (binding ν' k' generics) y)
    (hret : ∀ q ∈ Γ.placesOfType? ret, q.part.Fits (binding ν k generics) y ∧ q.part.Fits (binding ν' k' generics) y)
    {body body' : Block}
    (hbody : ∀ r r', r.Vaguer σ (binding ν k generics) (binding ν' k' generics) y r' → BlockKept σ r r' body body')
    (span : Span) : Follows (Scope.Vaguer σ ν ν' y)
      (s.checkStmt (.function n (generics.map k) (params.map (Param.rename (binding ν k generics)))
        (ret.map (·.rename (binding ν k generics))) body span)).verdict
      (s'.checkStmt (.function n (generics.map k') (params.map (Param.rename (binding ν' k' generics)))
        (ret.map (·.rename (binding ν' k' generics))) body' span)).verdict := by
  intro r hok
  obtain ⟨hnew, d, hd, inner, hinner, hb, rfl⟩ := checkStmt_function_iff.1 hok
  obtain ⟨d', hd', hdd⟩ := (h.type.functionDeclaration hk hk' hσ (ha.imp_right And.left) n hp hret).follows d hd
  have hbound := h.addFunction n (.of_merged hdd) (fun e he => closed_functionDeclaration (h.closed.withGenerics n _) hd he)
    fun e he => closed_functionDeclaration (h.closed'.withGenerics n _) hd' he
  have hinside := hbound.inFunction hk hk' hσ (ha.imp_right And.right) n
    fun m hm => (hr m hm).imp_right (s.recordNamed?_addFunction n d m).trans
  obtain ⟨inner', hinner', hvi⟩ := (hinside.declareParams hp).follows inner hinner
  rw [h.ensureNewFunction_eq] at hnew
  exact ⟨_, checkStmt_function_iff.2 ⟨hnew, d', hd', inner', hinner', (hbody inner inner' hvi hb).1, rfl⟩, hbound⟩

end Function

/-- A function definition that is accepted where more is known is accepted where less is. -/
theorem functionStmt (h : s.Vaguer σ ν ν' y s') {n : String} {generics : List String} {params : List Param}
    {ret : Option Annotation} {body : Block} {span : Span} (hν : Γ.Covers ν ∧ Γ.Covers ν')
    (hq : ∀ q ∈ Γ.placesOfStmt (.function n generics params ret body span), q.Suits σ ν ν' y) (ih : KeepsBlock σ y body) :
    Follows (Scope.Vaguer σ ν ν' y) (s.checkStmt ((Stmt.function n generics params ret body span).rename ν)).verdict
      (s'.checkStmt ((Stmt.function n generics params ret body span).rename ν')).verdict := by
  rw [Names.placesOfStmt, List.forall_mem_cons, List.forall_mem_append, List.forall_mem_append] at hq
  obtain ⟨hown, hparams, hret, hbody⟩ := hq
  have hkeeps : ∀ m ∈ generics, Equiv.refl String m = m := fun _ _ => rfl
  have hbinding : ∀ ν : String → String, binding ν (Equiv.refl String) generics = keeping ν generics :=
    fun _ => binding_of_keeps hkeeps
  have hcovers := hν.imp (·.addGenerics generics) (·.addGenerics generics)
  have hp := Names.fits_of_suits hcovers fun q hm => (hparams q hm).keeping generics
  have hr := Names.fits_of_suits hcovers fun q hm => (hret q hm).keeping generics
  have hinside : ∀ r r', r.Vaguer σ (keeping ν generics) (keeping ν' generics) y r' →
      BlockKept σ r r' (body.rename (keeping ν generics)) (body.rename (keeping ν' generics)) := by
    intro r r' hv
    refine ih (Γ.inFunction n generics params) _ _ r r' hv ?_ fun q hm => (hbody q hm).keeping generics
    exact hν.imp (fun hν => ((hν.addValue n).addGenerics generics).addValues _)
      fun hν => ((hν.addValue n).addGenerics generics).addValues _
  rw [← hbinding, ← hbinding] at hp hr hinside
  have hchecked := h.checkFunction (n := n) (rebinds_of_keeps h.names hkeeps hown.1.1) (rebinds_of_keeps h.names' hkeeps hown.1.1)
    hown.2.2 (h.apart.imp_right fun hid => ⟨hid, by rw [hid, binding_refl]⟩) (fun _ => Or.inl) hp hr hinside span
  rwa [hbinding, hbinding, map_of_keeps hkeeps] at hchecked

/-- A record that is accepted where more is known is accepted where less is. -/
theorem recordStmt (h : s.Vaguer σ ν ν' y s') {n : String} {fields : List Param} {is : List Implementation} {span : Span}
    (hν : Γ.Covers ν ∧ Γ.Covers ν') (hq : ∀ q ∈ Γ.placesOfStmt (.record n fields is span), q.Suits σ ν ν' y)
    (ih : ∀ i ∈ is, ∀ m ∈ i.methods, KeepsBlock σ y m.body) :
    Follows (Scope.Vaguer σ (keeping ν [n]) (keeping ν' [n]) y) (s.checkStmt ((Stmt.record n fields is span).rename ν)).verdict
      (s'.checkStmt ((Stmt.record n fields is span).rename ν')).verdict := by
  rw [Names.placesOfStmt, List.forall_mem_cons, List.forall_mem_append] at hq
  have hn : n ≠ y := fun hn => hq.1.1.1 (by simp [Part.typeNames, hn])
  have hcovers := hν.imp (·.addRecord n fields) (·.addRecord n fields)
  have hf := Names.fits_of_suits hcovers fun q hm => (hq.2.1 q hm).keeping [n]
  have hnames : ensureDistinctFields (fields.map (Param.rename (keeping ν [n]))) span =
      ensureDistinctFields (fields.map (Param.rename (keeping ν' [n]))) span := by
    rw [ensureDistinctFields, ensureDistinctFields, map_name_rename, map_name_rename]
  rw [Stmt.rename, Stmt.rename]
  intro r hr
  obtain ⟨hnew, hdistinct, layout, hl, hr⟩ := checkStmt_record_iff.1 hr
  obtain ⟨layout', hl', rfl⟩ := ((h.type.addType h.names h.names' hn).recordLayout n hf).follows layout hl
  have hbound := h.bindRecord hn (names_of_recordLayout hl).1 (closed_recordLayout (h.closed.addType n rfl) hl)
  obtain ⟨r', hr', hv⟩ := hbound.checkImplementations n hf hcovers (fun q hm => (hq.2.2 q hm).keeping [n]) ih r hr
  rw [h.ensureNewRecord_eq] at hnew
  rw [hnames] at hdistinct
  exact ⟨r', checkStmt_record_iff.2 ⟨hnew, hdistinct, _, hl', hr'⟩, hv⟩

/-- A variable definition that is accepted where more is known is accepted where less is. -/
theorem defineStmt (h : s.Vaguer σ ν ν' y s') {n : String} {ty : Option Annotation} {value : Expr} {span : Span}
    (hν : Γ.Covers ν ∧ Γ.Covers ν') (hq : ∀ q ∈ Γ.placesOfStmt (.define n ty value span), q.Suits σ ν ν' y)
    (ih : Keeps σ y value) : Follows (Scope.Vaguer σ ν ν' y) (s.checkStmt ((Stmt.define n ty value span).rename ν)).verdict
      (s'.checkStmt ((Stmt.define n ty value span).rename ν')).verdict := by
  rw [Names.placesOfStmt, List.forall_mem_cons, List.forall_mem_append] at hq
  rw [Stmt.rename, Stmt.rename]
  intro r hr
  obtain ⟨hnew, hvalue, actual, ha, t, ht, rfl⟩ := checkStmt_define_iff.1 hr
  obtain ⟨hvalue', htypes⟩ := ih Γ ν ν' s s' h hν hq.2.2 hvalue
  obtain ⟨actual', ha', hva⟩ := htypes actual ha
  obtain ⟨t', ht', hv⟩ := h.variableType hva n (Names.fits_of_suits hν hq.2.1) span t ht
  have hclosed : ∀ a, t = some a → a.isOpen = false := by
    rintro a rfl
    cases ty with
    | none =>
      obtain rfl := Except.ok.inj ht
      exact isOpen_typeOf h.closed ha
    | some annotation =>
      obtain ⟨expected, he, -, hexpected⟩ := variableType_annotated_iff.1 ht
      exact Option.some.inj hexpected ▸ isOpen_resolve h.closed _ he
  rw [h.ensureNewVariable_eq] at hnew
  exact ⟨_, checkStmt_define_iff.2 ⟨hnew, hvalue', actual', ha', t', ht', rfl⟩, h.addVariable n hv hclosed⟩

/-! ## Expressions -/

/-- A conditional is kept when its conditions and blocks are. The blocks are checked inside a level of the conditional and typed
without it, which is the same. -/
theorem cond (h : s.Vaguer σ ν ν' y s') {branches : List Branch} {otherwise : Option Block} {span : Span}
    (hν : Γ.Covers ν ∧ Γ.Covers ν') (hq : ∀ q ∈ Γ.places (.cond branches otherwise span), q.Suits σ ν ν' y)
    (ih : ∀ b ∈ branches, Keeps σ y b.condition ∧ KeepsBlock σ y b.body) (iho : ∀ b ∈ otherwise, KeepsBlock σ y b) :
    Kept σ s s' ((Expr.cond branches otherwise span).rename ν) ((Expr.cond branches otherwise span).rename ν') := by
  rw [Names.places, List.forall_mem_cons, List.forall_mem_append, Names.forall_placesOfBranches] at hq
  rw [Expr.rename, Expr.rename]
  intro hok
  obtain ⟨hbranches, hotherwise⟩ := checkExpr_cond_iff.1 hok
  rw [renameBranches_eq_map, List.forall_mem_map] at hbranches
  have hbodies : ∀ b ∈ branches, BlockKept σ s.child s'.child (b.body.rename ν) (b.body.rename ν') :=
    fun b hb => (ih b hb).2 Γ ν ν' _ _ h.child hν (hq.2.1 b hb).2
  have htypes : ∀ b ∈ branches, Follows (VaguerAs σ) (s.blockType (b.body.rename ν)) (s'.blockType (b.body.rename ν')) := by
    intro b hb
    rw [← blockType_child s, ← blockType_child s']
    exact (hbodies b hb (hbranches b hb).2).2
  have hbranches' : ∀ b ∈ renameBranches ν' branches,
      (s'.child.checkExpr b.condition).verdict = .ok () ∧ (s'.child.checkBlock b.body).verdict = .ok () := by
    rw [renameBranches_eq_map, List.forall_mem_map]
    intro b hb
    exact ⟨((ih b hb).1 Γ ν ν' _ _ h.child hν (hq.2.1 b hb).1 (hbranches b hb).1).1, (hbodies b hb (hbranches b hb).2).1⟩
  cases otherwise with
  | none => exact ⟨checkExpr_cond_iff.2 ⟨hbranches', fun b hb => nomatch hb⟩, .ok (.unknown σ none)⟩
  | some b =>
    obtain ⟨hb', htype⟩ := iho b rfl Γ ν ν' _ _ h.child hν hq.2.2 (hotherwise _ rfl)
    rw [blockType_child, blockType_child] at htype
    refine ⟨checkExpr_cond_iff.2 ⟨hbranches', fun c hc => Option.some.inj hc ▸ hb'⟩, ?_⟩
    refine (branchTypes htypes).bind fun ts ts' _ hts => ?_
    cases ts' with
    | none => exact fun t _ => ⟨none, rfl, .unknown σ t⟩
    | some ms' =>
      obtain ⟨ms, rfl, hms⟩ := hts ms' rfl
      refine htype.bind fun t t' _ ht => ?_
      cases t' with
      | none => exact fun u _ => ⟨none, rfl, .unknown σ u⟩
      | some c' =>
        obtain ⟨c, rfl, hl⟩ := ht.exists_like
        exact commonBranchType_follows (List.rel_append hms (.cons hl .nil))

/-- A lambda is kept when its body is, which is typed in the scope in which it is checked. -/
theorem lambda (h : s.Vaguer σ ν ν' y s') {params : List LambdaParam} {body : Expr} {span : Span} (hν : Γ.Covers ν ∧ Γ.Covers ν')
    (hq : ∀ q ∈ Γ.places (.lambda params body span), q.Suits σ ν ν' y) (ih : Keeps σ y body) :
    Kept σ s s' ((Expr.lambda params body span).rename ν) ((Expr.lambda params body span).rename ν') := by
  rw [Names.places, List.forall_mem_cons, List.forall_mem_append] at hq
  have hp := Names.fits_of_suits hν hq.2.1
  rw [Expr.rename, Expr.rename]
  intro hok
  obtain ⟨inner, hinner, hbody⟩ := checkExpr_lambda_iff.1 hok
  obtain ⟨inner', hinner', hv⟩ := (h.child.declareLambdaParams hp).follows inner hinner
  have hkept : ∀ {r r' : Scope}, r.Vaguer σ ν ν' y r' → Kept σ r r' (body.rename ν) (body.rename ν') :=
    fun hr => ih _ ν ν' _ _ hr (hν.imp (·.addValues _) (·.addValues _)) hq.2.2
  refine ⟨checkExpr_lambda_iff.2 ⟨inner', hinner', (hkept hv hbody).1⟩, ?_⟩
  refine (h.lambdaScope h.child hp).follows.bind fun x x' hx hxx => ?_
  cases hxx with
  | none => exact .ok (.unknown σ none)
  | @some x x' hxx =>
    obtain ⟨ts, typed⟩ := x
    obtain ⟨ts', typed'⟩ := x'
    obtain ⟨rfl, hvt⟩ := hxx
    have htyped : typed = inner := by
      rcases lambdaScope_of_declareLambdaParams (fun n => (s.type?_child n).symm) hinner with hnone | ⟨us, hsome⟩
      · rw [hnone] at hx
        cases hx
      · rw [hsome] at hx
        cases hx
        rfl
    subst htyped
    refine ((hkept hvt hbody).2).bind fun r r' _ hr => .ok ?_
    cases r' with
    | none => exact .unknown σ _
    | some c' =>
      obtain ⟨c, rfl, hl⟩ := hr.exists_like
      have hparams := (h.closed.lambdaScope h.closed.child hx).1
      have hrenamed : ∀ p ∈ ts.map (Ty.relabel σ), p.isOpen = false := by
        rw [List.forall_mem_map]
        exact fun p hp => (Ty.isOpen_rename (GenericParameter.isUnknown_renameName σ) p).trans (hparams p hp)
      refine VaguerAs.known ?_
      rw [Ty.relabel, Ty.rename_function]
      exact hl.function hrenamed

end Vaguer

/-- Every construct that is accepted is accepted where less is known, and known less there, when its parts are. -/
theorem kept_cases (σ : String → String) (y : String) : TreeCases (Keeps σ y) (KeepsBlock σ y) (KeepsStmt σ y) where
  literal v span Γ ν ν' s s' h hν hq hok := ⟨rfl, .ok (.of_fixed (by cases v <;> rfl))⟩
  name n span Γ ν ν' s s' h hν hq hok := by
    refine ⟨?_, h.nameType n span⟩
    rw [Expr.rename, checkExpr_name_iff] at hok ⊢
    rwa [← rel_isSome (h.value? n)]
  binary op l r span ihl ihr Γ ν ν' s s' h hν hq hok := by
    rw [Names.places, List.forall_mem_cons, List.forall_mem_append] at hq
    obtain ⟨hl, hr⟩ := checkExpr_binary_iff.1 hok
    have hl' := (ihl Γ ν ν' s s' h hν hq.2.1 hl).1
    have hr' := (ihr Γ ν ν' s s' h hν hq.2.2 hr).1
    exact ⟨checkExpr_binary_iff.2 ⟨hl', hr'⟩, .ok (.of_fixed (by cases op <;> rfl))⟩
  unary op e span ih Γ ν ν' s s' h hν hq hok := by
    rw [Names.places, List.forall_mem_cons] at hq
    exact ⟨(ih Γ ν ν' s s' h hν hq.2 hok).1, .ok (.of_fixed (by cases op <;> rfl))⟩
  call f args span ih Γ ν ν' s s' h hν hq := by
    rw [Names.places, List.forall_mem_cons, Names.forall_placesOfAll] at hq
    exact h.call (fun e he => ih e he Γ ν ν' s s' h hν (hq.2 e he)) f span
  methodCall threading receiver m args span ihr ih Γ ν ν' s s' h hν hq := by
    rw [Names.places, List.forall_mem_cons, List.forall_mem_append, Names.forall_placesOfAll] at hq
    have hkept : ∀ e ∈ threading.arrange receiver args, Kept σ s s' (e.rename ν) (e.rename ν') := by
      intro e he
      rcases threading.mem_arrange.1 he with rfl | he
      · exact ihr Γ ν ν' s s' h hν hq.2.1
      · exact ih e he Γ ν ν' s s' h hν (hq.2.2 e he)
    unfold Kept
    rw [Expr.rename, Expr.rename, verdict_checkExpr_methodCall, verdict_checkExpr_methodCall, typeOf_methodCall,
      typeOf_methodCall, ← renameExprs_arrange, ← renameExprs_arrange]
    exact h.call hkept m span
  member target field span ih Γ ν ν' s s' h hν hq hok := by
    rw [Names.places, List.forall_mem_cons] at hq
    obtain ⟨htarget, t, ht, m, hm⟩ := checkExpr_member_iff.1 hok
    obtain ⟨htarget', htypes⟩ := ih Γ ν ν' s s' h hν hq.2 htarget
    obtain ⟨t', ht', hv⟩ := htypes t ht
    obtain ⟨m', hm', -⟩ := h.memberType hv field span m hm
    refine ⟨checkExpr_member_iff.2 ⟨htarget', t', ht', m', hm'⟩, ?_⟩
    exact htypes.bind fun u u' _ hu => h.memberType hu field span
  get collection key span ihc ihk Γ ν ν' s s' h hν hq hok := by
    rw [Names.places, List.forall_mem_cons, List.forall_mem_append] at hq
    obtain ⟨hc, hk⟩ := checkExpr_get_iff.1 hok
    obtain ⟨hc', htypes⟩ := ihc Γ ν ν' s s' h hν hq.2.1 hc
    refine ⟨checkExpr_get_iff.2 ⟨hc', (ihk Γ ν ν' s s' h hν hq.2.2 hk).1⟩, ?_⟩
    exact htypes.bind fun t t' _ ht => .ok (ht.bind Ty.entry?_rename fun a b hl => hl.vaguer_entry)
  vector items span ih Γ ν ν' s s' h hν hq hok := by
    rw [Names.places, List.forall_mem_cons, Names.forall_placesOfAll] at hq
    rw [Expr.rename, checkExpr, checkExprs_ok_iff, renameExprs_eq_map, List.forall_mem_map] at hok
    refine ⟨?_, .ok (.of_fixed rfl)⟩
    rw [Expr.rename, checkExpr, checkExprs_ok_iff, renameExprs_eq_map, List.forall_mem_map]
    exact fun e he => (ih e he Γ ν ν' s s' h hν (hq.2 e he) (hok e he)).1
  map entries span ih Γ ν ν' s s' h hν hq hok := by
    rw [Names.places, List.forall_mem_cons, Names.forall_placesOfEntries] at hq
    rw [Expr.rename, checkExpr, checkEntries_ok_iff, renameEntries_eq_map, List.forall_mem_map] at hok
    refine ⟨?_, .ok (.of_fixed rfl)⟩
    rw [Expr.rename, checkExpr, checkEntries_ok_iff, renameEntries_eq_map, List.forall_mem_map]
    intro e he
    have hkey := (ih e he).1 Γ ν ν' s s' h hν (hq.2 e he).1 (hok e he).1
    have hvalue := (ih e he).2 Γ ν ν' s s' h hν (hq.2 e he).2 (hok e he).2
    exact ⟨hkey.1, hvalue.1⟩
  block b ih Γ ν ν' s s' h hν hq := by
    rw [Names.places, List.forall_mem_cons] at hq
    exact ih Γ ν ν' s s' h hν hq.2
  letIn bindings body span ih ihb Γ ν ν' s s' h hν hq hok := by
    rw [Names.places, List.forall_mem_cons, List.forall_mem_append] at hq
    obtain ⟨inner, hinner, hbody⟩ := checkExpr_letIn_iff.1 hok
    obtain ⟨inner', hinner', hv⟩ := h.child.checkBindings hν hq.2.1 ih inner hinner
    obtain ⟨hbody', htype⟩ := ihb _ ν ν' inner inner' hv (hν.imp (·.addValues _) (·.addValues _)) hq.2.2 hbody
    refine ⟨checkExpr_letIn_iff.2 ⟨inner', hinner', hbody'⟩, ?_⟩
    rw [Expr.rename, Expr.rename, typeOf, typeOf, bindAll_of_checkBindings hinner, bindAll_of_checkBindings hinner']
    exact htype
  forEach vars iterable body span ih ihb Γ ν ν' s s' h hν hq hok := by
    rw [Names.places, List.forall_mem_cons, List.forall_mem_append] at hq
    obtain ⟨hiterable, t, ht, inner, hinner, hbody⟩ := checkExpr_forEach_iff.1 hok
    obtain ⟨hiterable', htypes⟩ := ih Γ ν ν' s s' h hν hq.2.1 hiterable
    obtain ⟨t', ht', hv⟩ := Vaguer.loopVarType htypes vars t ht
    have hclosed : ∀ a, t = some a → a.isOpen = false := fun a ha => isOpen_loopVarType h.closed (ha ▸ ht)
    obtain ⟨inner', hinner', hvi⟩ := (h.child.declareLoopVars hv hclosed vars).follows inner hinner
    have hbody' := (ihb _ ν ν' inner inner' hvi (hν.imp (·.addValues _) (·.addValues _)) hq.2.2 hbody).1
    exact ⟨checkExpr_forEach_iff.2 ⟨hiterable', t', ht', inner', hinner', hbody'⟩, .ok (.of_fixed rfl)⟩
  cond branches otherwise span ih iho Γ ν ν' s s' h hν hq := h.cond hν hq ih iho
  lambda params body span ih Γ ν ν' s s' h hν hq := h.lambda hν hq ih
  paren e span ih Γ ν ν' s s' h hν hq := by
    rw [Names.places, List.forall_mem_cons] at hq
    exact ih Γ ν ν' s s' h hν hq.2
  stmts stmts span ih Γ ν ν' s s' h hν hq hok := by
    rw [Names.placesOfBlock, List.forall_mem_cons] at hq
    obtain ⟨r, hr⟩ := checkBlock_iff.1 hok
    obtain ⟨r', hr', htype⟩ := h.child.checkStmts hν hq.2 ih r hr
    exact ⟨checkBlock_iff.2 ⟨r', hr'⟩, htype⟩
  function n generics params ret body span ih Γ ν ν' s s' h hν hq r hr := by
    obtain ⟨r', hr', hv⟩ := h.functionStmt hν hq ih r hr
    exact ⟨r', hr', hv, .error _ _⟩
  record n fields implementations span ih Γ ν ν' s s' h hν hq r hr := by
    obtain ⟨r', hr', hv⟩ := h.recordStmt hν hq ih r hr
    exact ⟨r', hr', hv, .error _ _⟩
  define n ty value span ih Γ ν ν' s s' h hν hq r hr := by
    obtain ⟨r', hr', hv⟩ := h.defineStmt hν hq ih r hr
    exact ⟨r', hr', hv, .error _ _⟩
  expr e ih Γ ν ν' s s' h hν hq r hr := by
    rw [Names.placesOfStmt, List.forall_mem_cons] at hq
    obtain ⟨he, rfl⟩ := checkStmt_expr_iff.1 hr
    obtain ⟨he', htype⟩ := ih Γ ν ν' s s' h hν hq.2 he
    exact ⟨s', checkStmt_expr_iff.2 ⟨he', rfl⟩, h, htype⟩

/-- Where a scope forgets types of variables and declarations of functions, an accepted expression stays accepted, and where it
had a type it has one that is unknown or compatible with it. -/
theorem checkExpr_ok_of_forgets (s s' : Scope) (e : Expr) (hs : s.Closed) (hf : s.Forgets s')
    (h : (s.checkExpr e).verdict = .ok ()) :
    (s'.checkExpr e).verdict = .ok () ∧ ∀ t, s.typeOf e = .ok t → ∃ t', s'.typeOf e = .ok t' ∧
      (t' = none ∨ ∃ a b, t = some a ∧ t' = some b ∧ a.isCompatibleWith b = true) := by
  let Γ : Names := ⟨[], []⟩
  obtain ⟨y, hy⟩ := Place.exists_avoided (Γ.places e)
  have hkept := (kept_cases id y).all_exprs e Γ id id s s' (hf.vaguer hs y) ⟨Γ.covers_id, Γ.covers_id⟩
    fun q hq => ⟨(hy q hq).fits, (hy q hq).fits, fun _ _ => rfl⟩
  rw [Expr.rename_id] at hkept
  obtain ⟨hok, htypes⟩ := hkept h
  refine ⟨hok, fun t ht => ?_⟩
  obtain ⟨t', ht', hv⟩ := htypes t ht
  exact ⟨t', ht', (VaguerAs.id_iff.1 hv).compatible⟩

/-- `<T> head(xs: Vector<T>) -> T`. -/
def headSignature : Declaration :=
  ⟨"head", some [.declared "T" "head"], ["xs"], [.applied "Vector" [.parameter (.declared "T" "head")]],
    .parameter (.declared "T" "head")⟩

/-- A scope of `head` and a variable `xs`. -/
def headScope (xs : Option Ty) : Scope := (empty.addVariable "xs" xs).addFunction "head" (some headSignature)

/-- `head(xs)`. -/
def headCall : Expr := .call "head" [.name "xs" ⟨5, 7⟩] ⟨0, 8⟩

/-- The head of `xs : Vector<Number>` is a number, and the call is accepted where the type of `xs` is forgotten. -/
theorem headCall_kept :
    (headScope (some (.applied "Vector" [.number]))).Closed ∧
    (headScope (some (.applied "Vector" [.number]))).Forgets (headScope none) ∧
    ((headScope (some (.applied "Vector" [.number]))).checkExpr headCall).verdict = .ok () ∧
    (headScope (some (.applied "Vector" [.number]))).typeOf headCall = .ok (some .number) ∧
    ((headScope none).checkExpr headCall).verdict = .ok () ∧
    ∃ t', (headScope none).typeOf headCall = .ok t' ∧
      (t' = none ∨ ∃ a b, some Ty.number = some a ∧ t' = some b ∧ a.isCompatibleWith b = true) := by
  have hclosed : (headScope (some (.applied "Vector" [.number]))).Closed := by
    refine Closed.addFunction (Closed.addVariable (fun l hl => ?_) "xs" fun t ht => ?_) "head" fun d hd => ?_
    · exact List.mem_singleton.1 hl ▸ Level.closed_empty
    · exact Option.some.inj ht ▸ by decide
    · obtain rfl := Option.some.inj hd
      exact ⟨by decide, by decide, by decide⟩
  have hforgets : (headScope (some (.applied "Vector" [.number]))).Forgets (headScope none) := by
    refine .cons ⟨fun n => ?_, fun n => ?_, fun n => rfl, fun n => rfl⟩ .nil
    · simp only [headScope, addFunction, addVariable, lookup_cons_ite]
      split
      · exact .some (Or.inr rfl)
      · exact .none
    · simp only [headScope, addFunction, addVariable, lookup_cons_ite]
      split
      · exact .some (Or.inl rfl)
      · exact .none
  have hcheck : ((headScope (some (.applied "Vector" [.number]))).checkExpr headCall).verdict = .ok () := by cbv
  have htype : (headScope (some (.applied "Vector" [.number]))).typeOf headCall = .ok (some .number) := by cbv
  obtain ⟨hok, htypes⟩ := checkExpr_ok_of_forgets _ _ headCall hclosed hforgets hcheck
  exact ⟨hclosed, hforgets, hcheck, htype, hok, htypes _ htype⟩

end Scope

end Gradual
