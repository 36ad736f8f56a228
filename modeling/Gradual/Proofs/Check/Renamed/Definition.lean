import Gradual.Proofs.Check.Guarantee
import Gradual.Proofs.Check.Renamed.Typing

/-!
# A definition whose generic parameter is renamed

Around the definition nothing changes but what the definition binds. A scope is neutral in two names when its types are the same
with the two swapped (`Scope.Neutral`); the scopes that the check comes through on its way to the definition are neutral in the
new name and any other that no function around the definition has for a parameter. In a neutral scope the definition and the
renamed one bind the same up to names (`Neutral.declare_renamed`).

Inside the definition the new name stands where the old one stood. If the renamed definition is accepted, so is the definition
(`Neutral.check_of_renamed`): where two names become one, less is told apart. The other way (`Neutral.check_renamed`) no parameter
around the definition or inside it may go by the old name, which then is told apart from the new one as from itself.
-/

namespace Gradual

namespace Scope

variable {x y z : String} {s s' r : Scope} {Γ : Names}

/-! ## Trees that keep their names -/

namespace Renamed

/-- A body has one type in scopes that differ in the own parameters of declarations only. -/
theorem bodyType_eq (h : Renamed id y s s') {stmts : List Stmt} (hq : ∀ q ∈ Γ.placesOfStmts stmts, q.Avoids y) :
    Agree Eq (s.bodyType stmts) (s'.bodyType stmts) := by
  have ht := Renamed.bodyType (φ := Equiv.refl String) h hq fun st _ => (typedAlike_cases _ y).all_stmts st
  refine ht.mono fun t t' _ htt => ?_
  rw [htt]
  exact (Ty.map_relabel_id t).symm

/-- Statements that are accepted are accepted where the own parameters of declarations have other names. -/
theorem checkStmts (h : Renamed id y s s') (hs' : s'.Closed) {stmts : List Stmt}
    (hq : ∀ q ∈ Γ.placesOfStmts stmts, q.Avoids y) (hr : ∃ r, (s.checkStmts stmts).verdict = .ok r) :
    ∃ r, (s'.checkStmts stmts).verdict = .ok r := by
  obtain ⟨r, hr⟩ := hr
  have hkept := (h.vaguer hs' (Or.inl Function.injective_id)).checkStmts ⟨Γ.covers_id, Γ.covers_id⟩
    (fun q hm => ⟨(hq q hm).fits, (hq q hm).fits, fun _ _ => rfl⟩) fun st _ => (kept_cases id y).all_stmts st
  rw [renameStmts_id] at hkept
  obtain ⟨r', hr', -⟩ := hkept r hr
  exact ⟨r', hr'⟩

end Renamed

/-! ## Neutral scopes -/

/-- A scope in which the types are the same with the two names swapped. -/
def Neutral (z y : String) (s : Scope) : Prop := Renamed (Equiv.swap z y) y s s

namespace Neutral

/-- A neutral scope is related to itself, with no names changed. -/
theorem refl (h : Neutral z y s) : Renamed id y s s := Renamed.self_of_keeps h fun _ _ => rfl

/-- A neutral scope knows no less of itself under names that keep what the swap keeps. -/
theorem vaguer (h : Neutral z y s) {σ : String → String} (hσ : ∀ n, Equiv.swap z y n = n → σ n = n) : s.Vaguer σ id id y s :=
  (Renamed.self_of_keeps h hσ).vaguer h.closed (Or.inr rfl)

/-! ### What is bound on the way to a definition -/

/-- The type of an expression is the same with the two names swapped. -/
theorem typeOf (h : Neutral z y s) {e : Expr} (hq : ∀ q ∈ Γ.places e, q.Avoids y) {t : Option Ty} (ht : s.typeOf e = .ok t) :
    t = t.map (Ty.relabel (Equiv.swap z y)) :=
  (Renamed.typeOf h hq).self ht

/-- An empty level keeps a scope neutral. -/
theorem child (h : Neutral z y s) : Neutral z y s.child := Renamed.child h

/-- A variable keeps a scope neutral when its value avoids the new name. -/
theorem addVariable (h : Neutral z y s) (n : String) {e : Expr} (hq : ∀ q ∈ Γ.places e, q.Avoids y) {t : Option Ty}
    (ht : s.typeOf e = .ok t) : Neutral z y (s.addVariable n t) := by
  have hs := Renamed.addVariable h n (t := t) fun u hu => isOpen_typeOf h.closed (hu ▸ ht)
  rwa [← h.typeOf hq ht] at hs

/-- Bindings keep a scope neutral when their values avoid the new name. -/
theorem bindAll (h : Neutral z y s) {bs : List Binding} (hq : ∀ q ∈ Γ.placesOfBindings bs, q.Avoids y)
    (hr : s.bindAll bs = .ok r) : Neutral z y r :=
  (Renamed.bindAll h hq fun b _ => (typedAlike_cases _ y).all_exprs b.value).self hr

/-- The scope of a lambda's body is neutral when the annotations avoid the new name. -/
theorem lambdaScope (h : Neutral z y s) {ps : List LambdaParam} (hq : ∀ q ∈ Γ.placesOfTypes (ps.filterMap (·.ty)), q.Avoids y)
    {ts : List Ty} (hr : s.lambdaScope s.child ps = .ok (some (ts, r))) : Neutral z y r := by
  cases (Renamed.lambdaScope h h.child hq).self hr with
  | some hr => exact hr.2

/-- Parameters keep a scope neutral when they avoid the new name. -/
theorem declareParams (h : Neutral z y s) {ps : List Param} (hq : ∀ q ∈ Γ.placesOfParams ps, q.Avoids y)
    (hr : s.declareParams ps = .ok r) : Neutral z y r :=
  (Renamed.declareParams h hq).self hr

/-- The parameters of a lambda keep a scope neutral when they avoid the new name. -/
theorem declareLambdaParams (h : Neutral z y s) {ps : List LambdaParam}
    (hq : ∀ q ∈ Γ.placesOfTypes (ps.filterMap (·.ty)), q.Avoids y) (hr : s.declareLambdaParams ps = .ok r) : Neutral z y r :=
  (Renamed.declareLambdaParams h hq).self hr

/-- Loop variables keep a scope neutral when what is looped over avoids the new name. -/
theorem declareLoopVars (h : Neutral z y s) {vars : List LocalName} {iterable : Expr} (hq : ∀ q ∈ Γ.places iterable, q.Avoids y)
    {t : Option Ty} (ht : s.loopVarType vars iterable = .ok t) (hr : s.child.declareLoopVars t vars = .ok r) : Neutral z y r := by
  have htype := (Renamed.loopVarType (Renamed.typeOf h hq) vars).self ht
  have hclosed : ∀ u, t = some u → u.isOpen = false := fun u hu => isOpen_loopVarType h.closed (hu ▸ ht)
  have hs := Renamed.declareLoopVars h.child hclosed vars
  rw [← htype] at hs
  exact hs.self hr

/-- A statement keeps a scope neutral when it avoids the new name. -/
theorem declare (h : Neutral z y s) {st : Stmt} (hq : ∀ q ∈ Γ.placesOfStmt st, q.Avoids y) (hr : s.declare st = .ok r) :
    Neutral z y r :=
  (Renamed.declare h hq).self hr

/-- A statement binds what it binds, with no names changed. -/
theorem declare_self (h : Neutral z y s) {st : Stmt} (hq : ∀ q ∈ Γ.placesOfStmt st, q.Avoids y) :
    Agree (Renamed id y) (s.declare st) (s.declare st) :=
  Renamed.declare (φ := Equiv.refl String) h.refl hq

/-- The body of a function that has a generic parameter of neither name. -/
theorem inFunction (h : Neutral z y s) {n : String} {generics : List String} (hz : z ∉ generics) (hy : y ∉ generics)
    {params : List Param} (hp : ∀ q ∈ (Γ.addGenerics generics).placesOfParams params, q.Avoids y) {ret : Option Annotation}
    (hret : ∀ q ∈ (Γ.addGenerics generics).placesOfType? ret, q.Avoids y) {d : Option Declaration}
    (hd : (s.withGenerics n generics).functionDeclaration n generics params ret = .ok d)
    (hr : ((s.addFunction n d).withGenerics n generics).child.declareParams params = .ok r) : Neutral z y r := by
  have hkeeps : ∀ m ∈ generics, Equiv.swap z y m = m := by
    intro m hm
    exact Equiv.swap_apply_of_ne_of_ne (fun he => hz (he ▸ hm)) fun he => hy (he ▸ hm)
  have hs := Renamed.addFunction h n ((Renamed.functionDeclaration_id h generics n hp hret).self hd)
    fun e he => closed_functionDeclaration (h.closed.withGenerics n generics) hd he
  exact declareParams (hs.inFunction hkeeps n) hp hr

/-- A method keeps a scope neutral when its signature avoids the new name. -/
theorem addMethod (h : Neutral z y s) {receiver n : String} {params : List Param} (hp : ∀ q ∈ Γ.placesOfParams params, q.Avoids y)
    {ret : Option Annotation} (hret : ∀ q ∈ Γ.placesOfType? ret, q.Avoids y) {d : Option Declaration}
    (hd : s.methodDeclaration (.simple receiver) n params ret = .ok d) : Neutral z y (s.addFunction n d) :=
  Renamed.addFunction h n ((Renamed.methodDeclaration h receiver n hp hret).self hd)
    fun _ he => closed_methodDeclaration h.closed rfl hd he

/-- The receiver of a method. -/
theorem addSelf (h : Neutral z y s) (receiver : String) : Neutral z y (s.addVariable "self" (some (.simple receiver))) :=
  Renamed.addVariable h "self" (t := some (.simple receiver)) fun _ hu => Option.some.inj hu ▸ rfl

/-- Methods keep a scope neutral when they avoid the new name. -/
theorem declareMethods (h : Neutral z y s) {receiver : String} {fields : List Param} {ms : List Method}
    (hq : ∀ q ∈ Γ.placesOfMethods fields ms, q.Avoids y) (hr : s.declareMethods (.simple receiver) ms = .ok r) :
    Neutral z y r :=
  (Renamed.declareMethods h receiver hq).self hr

/-- A record keeps a scope neutral when it has another name and its fields avoid the new one. -/
theorem bindRecord (h : Neutral z y s) {n : String} (hn : n ≠ y) {fields : List Param}
    (hf : ∀ q ∈ Γ.placesOfParams fields, q.Avoids y) {layout : RecordLayout}
    (hl : (s.addType n (.simple n)).recordLayout n fields = .ok layout) :
    Neutral z y (((s.addType n (.simple n)).addFunction n (some layout.constructor)).addRecord layout) := by
  have hs := Renamed.recordLayout (Renamed.type_addType h hn) n hf
  have hr := Renamed.bindRecord h hn (names_of_recordLayout hl).1 (closed_recordLayout (h.closed.addType n rfl) hl)
  rwa [← hs.self hl] at hr

end Neutral

/-! ## The definition -/

section Swap

variable {generics : List String}

/-- Only the old name is renamed. -/
theorem eq_of_renameOne_ne {m : String} (h : renameOne x y m ≠ m) : m = x := by
  unfold renameOne at h
  by_contra hm
  exact h (if_neg hm)

/-- On names other than the new one, swapping the two names is renaming the old one. -/
theorem swap_eq_renameOne {m : String} (hm : m ≠ y) : Equiv.swap x y m = renameOne x y m := by
  rw [Equiv.swap_apply_def, if_neg hm]
  rfl

/-- The old name is given back to what has the new one. -/
theorem renameOne_swap {m : String} (hm : m ≠ y) : renameOne y x (Equiv.swap x y m) = m := by
  by_cases hx : m = x
  · rw [hx, Equiv.swap_apply_left]
    exact if_pos rfl
  · rw [Equiv.swap_apply_of_ne_of_ne hx hm]
    exact if_neg hm

/-- What swapping the new name and a third keeps is not the new name, so renaming that keeps it. -/
theorem renameOne_eq_self_of_swap (hz : z ≠ y) {m : String} (hm : Equiv.swap z y m = m) : renameOne y x m = m := by
  refine if_neg fun he => hz ?_
  rwa [he, Equiv.swap_apply_right] at hm

/-- On names without the new one, swapping the two names is renaming the old one. -/
theorem map_swap (hy : y ∉ generics) : generics.map (Equiv.swap x y) = generics.map (renameOne x y) :=
  List.map_congr_left fun _ hm => swap_eq_renameOne (ne_of_mem_of_not_mem hm hy)

/-- Swapping the two names adds none but the new one. -/
theorem eq_or_mem_of_mem_map_swap (hy : y ∉ generics) {m : String} (hm : m ∈ generics.map (Equiv.swap x y)) :
    m = y ∨ m ∈ generics := by
  rw [map_swap hy] at hm
  obtain ⟨n, hn, rfl⟩ := List.mem_map.1 hm
  unfold renameOne
  split
  · exact Or.inl rfl
  · exact Or.inr hn

/-- In a definition that binds the old name and not the new one, swapping the two is renaming. -/
theorem binding_swap (hx : x ∈ generics) (hy : y ∉ generics) : binding id (Equiv.swap x y) generics = renameOne x y := by
  funext m
  unfold binding
  by_cases hm : m ∈ generics
  · rw [if_pos hm, swap_eq_renameOne (ne_of_mem_of_not_mem hm hy)]
  · rw [if_neg hm]
    exact (if_neg (ne_of_mem_of_not_mem hx hm).symm).symm

/-- Swapping the names binds the new one in the place of the old one. -/
theorem rebinds_swap (hy : y ∉ generics) : Rebinds id y (Equiv.swap x y) generics := by
  refine ⟨fun m hmy hm hmap => hm ((eq_or_mem_of_mem_map_swap hy hmap).resolve_left hmy), fun m hm => ?_⟩
  rw [swap_eq_renameOne (ne_of_mem_of_not_mem hm hy)]
  by_cases hmx : m = x
  · exact Or.inr (if_pos hmx)
  · exact Or.inl (if_neg hmx)

/-- The old name is a generic parameter where a definition binds it. -/
theorem covers_renameOne (hx : x ∈ generics) (Γ : Names) : (Γ.addGenerics generics).Covers (renameOne x y) := by
  intro m hm
  rw [eq_of_renameOne_ne hm, Names.kind?_addGenerics, if_pos hx]

end Swap

/-- No record stands under a name that the names do not have as a record. -/
theorem Binds.recordNamed?_eq_none (h : s.Binds Γ) {m : String} (hm : (Γ.kind? m).bind TypeKind.fields? = none) :
    s.recordNamed? m = none :=
  Option.map_eq_none_iff.1 ((h.record m).trans hm)

namespace Neutral

variable {n : String} {generics : List String} {params : List Param} {ret : Option Annotation} {body : Block} {span : Span}

/-- The parts of the definition use the old name only where renaming is sound. -/
theorem fits_inside (hq : ∀ q ∈ Γ.placesOfStmt (.function n generics params ret body span), q.Avoids y)
    (hplain : (⟨Γ, [], .function n generics params ret body span, id⟩ : Site Stmt).Plain x) :
    (∀ q ∈ (Γ.addGenerics generics).placesOfParams params, q.Fits (renameOne x y) y) ∧
      (∀ q ∈ (Γ.addGenerics generics).placesOfType? ret, q.Fits (renameOne x y) y) ∧
        ∀ q ∈ (Γ.inFunction n generics params).placesOfBlock body, q.Fits (renameOne x y) y := by
  rw [← List.forall_mem_append, ← List.forall_mem_append]
  rw [Names.placesOfStmt, List.forall_mem_cons] at hq
  refine fun q hm => ⟨hq.2 q hm, fun m hne hk => ?_⟩
  obtain rfl := eq_of_renameOne_ne hne
  exact hplain q hm hk

/-- A definition and the renamed one bind the same up to the names of their own generic parameters. -/
theorem declare_renamed (h : Neutral z y s) (hx : x ∈ generics)
    (hq : ∀ q ∈ Γ.placesOfStmt (.function n generics params ret body span), q.Avoids y)
    (hplain : (⟨Γ, [], .function n generics params ret body span, id⟩ : Site Stmt).Plain x) :
    Agree (Renamed id y) (s.declare (.function n generics params ret body span))
      (s.declare (Stmt.renameParameter x y (.function n generics params ret body span))) := by
  have hy : y ∉ generics := hq _ List.mem_cons_self
  obtain ⟨hp, hret, -⟩ := fits_inside hq hplain
  have hcovers := covers_renameOne (y := y) hx Γ
  have hbinding := binding_swap hx hy
  have hd := h.refl.functionDeclaration (rebinds_swap hy) n (hbinding ▸ hcovers.fits hp) (hbinding ▸ hcovers.fits hret)
  rw [hbinding, map_swap hy] at hd
  refine hd.bind fun d d' hd hdd => .ok (h.refl.addFunction n hdd fun e he => ?_)
  exact closed_functionDeclaration (h.closed.withGenerics n generics) hd he

/-- The signature of the definition fits under the names that it has and under those of the renamed one. -/
theorem fits_signature (hq : ∀ q ∈ Γ.placesOfStmt (.function n generics params ret body span), q.Avoids y)
    (hplain : (⟨Γ, [], .function n generics params ret body span, id⟩ : Site Stmt).Plain x) (hx : x ∈ generics) :
    (∀ q ∈ (Γ.addGenerics generics).placesOfParams params,
      q.part.Fits (binding id (Equiv.swap x y) generics) y ∧ q.part.Fits (binding id (Equiv.refl String) generics) y) ∧
    ∀ q ∈ (Γ.addGenerics generics).placesOfType? ret,
      q.part.Fits (binding id (Equiv.swap x y) generics) y ∧ q.part.Fits (binding id (Equiv.refl String) generics) y := by
  have hy : y ∉ generics := hq _ List.mem_cons_self
  obtain ⟨hp, hret, -⟩ := fits_inside hq hplain
  have hcovers := covers_renameOne (y := y) hx Γ
  rw [binding_swap hx hy, binding_refl]
  exact ⟨fun q hm => ⟨hcovers.fits hp q hm, (hcovers.fits hp q hm).keepAll⟩,
    fun q hm => ⟨hcovers.fits hret q hm, (hcovers.fits hret q hm).keepAll⟩⟩

/-- If the renamed definition is accepted, so is the definition: a parameter around it or inside it that has the old name is told
apart from the new one, and need not be from the old one. -/
theorem check_of_renamed (h : Neutral z y s) (hz : z ≠ y) (hx : x ∈ generics)
    (hq : ∀ q ∈ Γ.placesOfStmt (.function n generics params ret body span), q.Avoids y)
    (hplain : (⟨Γ, [], .function n generics params ret body span, id⟩ : Site Stmt).Plain x) (hb : s.Binds Γ)
    (hrecord : (Γ.kind? y).bind TypeKind.fields? = none)
    (hr : ∃ r, (s.checkStmt (Stmt.renameParameter x y (.function n generics params ret body span))).verdict = .ok r) :
    ∃ r, (s.checkStmt (.function n generics params ret body span)).verdict = .ok r := by
  have hy : y ∉ generics := hq _ List.mem_cons_self
  obtain ⟨hp, hret⟩ := fits_signature hq hplain hx
  have hid : generics.map (Equiv.refl String) = generics := map_of_keeps fun _ _ => rfl
  have hrecords : ∀ m ∈ generics.map (Equiv.swap x y), m ∈ generics.map (Equiv.refl String) ∨ s.recordNamed? m = none := by
    rw [hid]
    intro m hm
    rcases eq_or_mem_of_mem_map_swap hy hm with rfl | hm
    · exact Or.inr (hb.recordNamed?_eq_none hrecord)
    · exact Or.inl hm
  have hbodies : ∀ r r',
      r.Vaguer (renameOne y x) (binding id (Equiv.swap x y) generics) (binding id (Equiv.refl String) generics) y r' →
      BlockKept (renameOne y x) r r' (body.rename (renameOne x y)) body := by
    rw [binding_swap hx hy, binding_refl]
    intro r r' hv
    obtain ⟨-, -, hbody⟩ := fits_inside hq hplain
    rw [Names.placesOfStmt, List.forall_mem_cons, List.forall_mem_append, List.forall_mem_append] at hq
    have hkept := (kept_cases (renameOne y x) y).all_blocks body (Γ.inFunction n generics params) _ _ r r' hv
      ⟨(covers_renameOne hx (Γ.addValue n)).addValues _, Names.covers_id _⟩ fun q hm => ⟨hbody q hm, (hq.2.2.2 q hm).fits, ?_⟩
    · rwa [Block.rename_id] at hkept
    · exact fun m hmg => if_neg (ne_of_mem_of_not_mem (q.part.generics_subset_typeNames hmg) (hq.2.2.2 q hm))
  have hchecked := (h.vaguer fun m => renameOne_eq_self_of_swap hz).checkFunction (n := n) (rebinds_swap hy)
    (rebinds_refl y generics) (fun m hm => renameOne_swap (ne_of_mem_of_not_mem hm hy))
    (Or.inr ⟨rfl, binding_refl generics⟩) hrecords hp hret hbodies span
  rw [binding_swap hx hy, binding_refl, map_swap hy, hid, map_rename_id, map_annotation_rename_id] at hchecked
  obtain ⟨r, hr⟩ := hr
  obtain ⟨r', hr', -⟩ := hchecked r hr
  exact ⟨r', hr'⟩

/-- A definition that is accepted is accepted with a parameter renamed, where no function around it or inside it has a generic
parameter of the old name and no record of the old name is seen. -/
theorem check_renamed (h : Neutral x y s) (hx : x ∈ generics)
    (hq : ∀ q ∈ Γ.placesOfStmt (.function n generics params ret body span), q.Avoids y)
    (hplain : (⟨Γ, [], .function n generics params ret body span, id⟩ : Site Stmt).Plain x)
    (hinside : ∀ q ∈ (⟨Γ, [], .function n generics params ret body span, id⟩ : Site Stmt).inside, x ∉ q.part.generics)
    (hb : s.Binds Γ) (hrecord : (Γ.kind? x).bind TypeKind.fields? = none)
    (hr : ∃ r, (s.checkStmt (.function n generics params ret body span)).verdict = .ok r) :
    ∃ r, (s.checkStmt (Stmt.renameParameter x y (.function n generics params ret body span))).verdict = .ok r := by
  have hy : y ∉ generics := hq _ List.mem_cons_self
  obtain ⟨hp, hret⟩ := fits_signature hq hplain hx
  have hid : generics.map (Equiv.refl String) = generics := map_of_keeps fun _ _ => rfl
  have hrecords : ∀ m ∈ generics.map (Equiv.refl String), m ∈ generics.map (Equiv.swap x y) ∨ s.recordNamed? m = none := by
    rw [hid]
    intro m hm
    by_cases hmx : m = x
    · exact Or.inr (hb.recordNamed?_eq_none (hmx ▸ hrecord))
    · refine Or.inl (List.mem_map.2 ⟨m, hm, ?_⟩)
      exact Equiv.swap_apply_of_ne_of_ne hmx (ne_of_mem_of_not_mem hm hy)
  have hbodies : ∀ r r',
      r.Vaguer (Equiv.swap x y) (binding id (Equiv.refl String) generics) (binding id (Equiv.swap x y) generics) y r' →
      BlockKept (Equiv.swap x y) r r' body (body.rename (renameOne x y)) := by
    rw [binding_swap hx hy, binding_refl]
    intro r r' hv
    obtain ⟨-, -, hbody⟩ := fits_inside hq hplain
    have hkept := (kept_cases (Equiv.swap x y) y).all_blocks body (Γ.inFunction n generics params) _ _ r r' hv
      ⟨Names.covers_id _, (covers_renameOne hx (Γ.addValue n)).addValues _⟩ fun q hm => ?_
    · rwa [Block.rename_id] at hkept
    · have hm' : q ∈ (⟨Γ, [], .function n generics params ret body span, id⟩ : Site Stmt).inside :=
        List.mem_append_right _ (List.mem_append_right _ hm)
      have havoids : q.Avoids y := hq q (List.mem_cons_of_mem _ hm')
      refine ⟨havoids.fits, hbody q hm, fun m hmg => ?_⟩
      refine Equiv.swap_apply_of_ne_of_ne (ne_of_mem_of_not_mem hmg (hinside q hm')) ?_
      exact ne_of_mem_of_not_mem (q.part.generics_subset_typeNames hmg) havoids
  have hchecked := (h.vaguer fun _ hm => hm).checkFunction (n := n) (rebinds_refl y generics) (rebinds_swap hy)
    (fun _ _ => rfl) (Or.inl (Equiv.injective _)) hrecords (fun q hm => (hp q hm).symm) (fun q hm => (hret q hm).symm)
    hbodies span
  rw [binding_swap hx hy, binding_refl, map_swap hy, hid, map_rename_id, map_annotation_rename_id] at hchecked
  obtain ⟨r, hr⟩ := hr
  obtain ⟨r', hr', -⟩ := hchecked r hr
  exact ⟨r', hr'⟩

end Neutral

end Scope

end Gradual
