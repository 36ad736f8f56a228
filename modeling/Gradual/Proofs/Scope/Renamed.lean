import Gradual.Proofs.Scope.Forget

/-!
# Scopes that differ in the names of generic parameters

`Scope.Renamed φ y` relates two scopes that bind the same up to names: `φ` renames the generic parameters in all types, and
declarations are the same up to the names of their own parameters. For the type `y` neither scope is asked. What an annotation
that avoids `y` stands for in one scope, it stands for in the other, renamed (`Renamed.resolve`), and binding related things keeps
the relation. Of two scopes that differ in names only, none of which become one, the second knows less than the first
(`Renamed.vaguer`).
-/

namespace Gradual

/-- Where no two names become one, or nothing changes, as much is known of a declaration under other names. -/
theorem Declaration.vaguerAs_of_renamed {φ : String → String} {d d' : Option Declaration}
    (h : Option.Rel (Declaration.Renamed φ) d d') (ha : Function.Injective φ ∨ d = d') : Declaration.VaguerAs φ d d' := by
  cases h with
  | none => exact .of_merged .none
  | @some e e' h =>
    refine .of_merged (.some ⟨h, ?_⟩)
    rcases ha with hinj | heq
    · exact keptApart_of_injective hinj e
    · obtain rfl := Option.some.inj heq
      exact keptApart_of_renamed_self h

/-- Declarations that may be unknown differ in the names of their own parameters both ways. -/
theorem Declaration.rel_renamed_symm {d d' : Option Declaration} (h : Option.Rel (Declaration.Renamed id) d d') :
    Option.Rel (Declaration.Renamed id) d' d := by
  cases h with
  | none => exact .none
  | some h => exact .some h.symm

/-! ## What is itself under other names -/

section Self

variable {φ σ : String → String} (hσ : ∀ n, φ n = n → σ n = n)

include hσ

/-- A type that may be unknown and is itself under other names is so under any that keep what these keep. -/
theorem Ty.map_relabel_self_of_keeps {t : Option Ty} (h : t.map (Ty.relabel φ) = t) : t.map (Ty.relabel σ) = t := by
  cases t with
  | none => rfl
  | some t => exact congrArg some (Ty.relabel_self_of_keeps hσ (Option.some.inj h))

/-- A declaration that may be unknown and is itself under other names is so under any that keep what these keep. -/
theorem Declaration.rel_renamed_self_of_keeps {d : Option Declaration} (h : Option.Rel (Declaration.Renamed φ) d d) :
    Option.Rel (Declaration.Renamed σ) d d := by
  cases d with
  | none => exact .none
  | some d =>
    cases h with
    | some h => exact .some (renamed_self_of_keeps h hσ)

/-- A layout that is itself under other names is so under any that keep what these keep. -/
theorem RecordLayout.relabel_self_of_keeps {r : RecordLayout} (h : r.relabel φ = r) : r.relabel σ = r := by
  obtain ⟨name, fields⟩ := r
  have hfields : (fields.map fun m => (m.1, m.2.relabel φ)) = fields.map id := by
    rw [List.map_id]
    exact congrArg RecordLayout.fields h
  refine congrArg (RecordLayout.mk name) ((List.map_congr_left fun m hm => ?_).trans (List.map_id fields))
  have hm := congrArg Prod.snd (List.map_inj_left.1 hfields m hm)
  exact Prod.ext rfl (Ty.relabel_self_of_keeps hσ hm)

end Self

/-! ## Levels and values -/

/-- Two levels bind the same values up to the names of generic parameters, and types under the same names. -/
structure Level.Renamed (φ : String → String) (l l' : Level) : Prop where
  vars : ∀ n, l'.vars.lookup n = (l.vars.lookup n).map (Option.map (Ty.relabel φ))
  functions : ∀ n, Option.Rel (Option.Rel (Declaration.Renamed φ)) (l.functions.lookup n) (l'.functions.lookup n)
  types : ∀ n, l'.hasType n = l.hasType n

/-- What a name stands for, up to the names of generic parameters. -/
inductive Value.Renamed (φ : String → String) : Value → Value → Prop
  | ofVariable {t t' : Option Ty} (h : t' = t.map (Ty.relabel φ)) : Renamed φ (.variable t) (.variable t')
  | ofFunction {d d' : Option Declaration} (h : Option.Rel (Declaration.Renamed φ) d d') : Renamed φ (.function d) (.function d')

/-- Where no two names become one, or nothing changes, as much is known of a value under other names. -/
theorem Value.Renamed.vaguer {φ : String → String} {v v' : Value} (h : Value.Renamed φ v v')
    (ha : Function.Injective φ ∨ v = v') : Value.Vaguer φ v v' := by
  cases h with
  | @ofVariable t t' ht =>
    subst ht
    exact .ofVariable (.relabel φ t)
  | ofFunction hd => exact .ofFunction (Declaration.vaguerAs_of_renamed hd (ha.imp_right Value.function.inj))

/-- A value that is itself under other names is so under any that keep what these keep. -/
theorem Value.Renamed.self_of_keeps {φ σ : String → String} {v : Value} (h : Value.Renamed φ v v)
    (hσ : ∀ n, φ n = n → σ n = n) : Value.Renamed σ v v := by
  cases h with
  | ofVariable ht => exact .ofVariable (Ty.map_relabel_self_of_keeps hσ ht.symm).symm
  | ofFunction hd => exact .ofFunction (Declaration.rel_renamed_self_of_keeps hσ hd)

/-- Values that differ in the own parameters of declarations only do so both ways. -/
theorem Value.Renamed.symm {v v' : Value} (h : Value.Renamed id v v') : Value.Renamed id v' v := by
  cases h with
  | ofVariable ht => exact .ofVariable (by rw [ht, Ty.map_relabel_id, Ty.map_relabel_id])
  | ofFunction hd => exact .ofFunction (Declaration.rel_renamed_symm hd)

/-- What can be called, up to the names of generic parameters. -/
inductive Callee.Renamed (φ : String → String) : Callee → Callee → Prop
  | untyped : Renamed φ .untyped .untyped
  | typed {d d' : Declaration} (h : Declaration.Renamed φ d d') : Renamed φ (.typed d) (.typed d')

namespace Level.Renamed

variable {φ : String → String} {l l' : Level}

/-- Empty levels are related. -/
theorem empty (φ : String → String) : Level.Renamed φ .empty .empty := ⟨fun _ => rfl, fun _ => .none, fun _ => rfl⟩

/-- Related levels have values of the same names. -/
theorem hasValue_eq (h : Level.Renamed φ l l') (n : String) : l'.hasValue n = l.hasValue n := by
  have hf : l.hasFunction n = l'.hasFunction n := rel_isSome (h.functions n)
  rw [Level.hasValue, Level.hasValue, Level.hasVariable, Level.hasVariable, h.vars, Option.isSome_map, hf]

/-- A name is bound to related values in related levels. -/
theorem value? (h : Level.Renamed φ l l') (n : String) : Option.Rel (Value.Renamed φ) (l.value? n) (l'.value? n) := by
  have hf := h.functions n
  unfold Level.value?
  rw [h.vars n]
  cases l.vars.lookup n with
  | some t => exact .some (.ofVariable rfl)
  | none =>
    dsimp only [Option.map_none]
    generalize l.functions.lookup n = x at hf ⊢
    generalize l'.functions.lookup n = x' at hf ⊢
    cases hf with
    | some hf => exact .some (.ofFunction hf)
    | none => exact .none

/-- Where no two names become one, or nothing changes, the second level knows what the first does. -/
theorem vaguer (h : Level.Renamed φ l l') (ha : Function.Injective φ ∨ l = l') : Level.Vaguer φ l l' := by
  refine ⟨fun n => ?_, fun n => ?_, h.types⟩
  · rw [h.vars n]
    cases l.vars.lookup n with
    | none => exact .none
    | some t => exact .some (.relabel φ t)
  · refine rel_imp (h.functions n) fun d d' hd hd' hdd => Declaration.vaguerAs_of_renamed hdd (ha.imp_right fun hl => ?_)
    rw [← hl, hd] at hd'
    exact Option.some.inj hd'

/-- Levels that differ in the own parameters of declarations only do so both ways. -/
theorem symm (h : Level.Renamed id l l') : Level.Renamed id l' l := by
  refine ⟨fun n => ?_, fun n => ?_, fun n => (h.types n).symm⟩
  · rw [h.vars n]
    cases l.vars.lookup n with
    | none => rfl
    | some t => rw [Option.map_some, Option.map_some, Ty.map_relabel_id, Ty.map_relabel_id]
  · have hf := h.functions n
    generalize l.functions.lookup n = x at hf ⊢
    generalize l'.functions.lookup n = x' at hf ⊢
    cases hf with
    | none => exact .none
    | some hf => exact .some (Declaration.rel_renamed_symm hf)

/-- A level that is itself under other names is so under any that keep what these keep. -/
theorem self_of_keeps {σ : String → String} (h : Level.Renamed φ l l) (hσ : ∀ n, φ n = n → σ n = n) : Level.Renamed σ l l := by
  refine ⟨fun n => ?_, fun n => ?_, fun n => rfl⟩
  · have hv := h.vars n
    generalize l.vars.lookup n = x at hv ⊢
    cases x with
    | none => rfl
    | some t => exact congrArg some (Ty.map_relabel_self_of_keeps hσ (Option.some.inj hv).symm).symm
  · refine rel_imp (h.functions n) fun d d' hd hd' hdd => ?_
    obtain rfl := Option.some.inj (hd.symm.trans hd')
    exact Declaration.rel_renamed_self_of_keeps hσ hdd

end Level.Renamed

/-! ## Scopes -/

namespace Scope

/-- Two scopes bind the same up to the names of generic parameters, but for the type `y`. -/
structure Renamed (φ : String → String) (y : String) (s s' : Scope) : Prop where
  closed : s.Closed
  level : Level.Renamed φ s.level s'.level
  value : ∀ n, Option.Rel (Value.Renamed φ) (s.outer.findSome? (·.value? n)) (s'.outer.findSome? (·.value? n))
  type : TypesMatch φ id id y s s'
  record : ∀ n, s'.recordNamed? n = (s.recordNamed? n).map (RecordLayout.relabel φ)

namespace Renamed

variable {φ : String → String} {y : String} {s s' : Scope} {Γ : Names}

/-! ### Look-ups -/

/-- A name stands for related values in related scopes. -/
theorem value? (h : Renamed φ y s s') (n : String) : Option.Rel (Value.Renamed φ) (s.value? n) (s'.value? n) := by
  have hl := h.level.value? n
  rw [value?_eq, value?_eq]
  generalize s.level.value? n = x at hl ⊢
  generalize s'.level.value? n = x' at hl ⊢
  cases hl with
  | some hv => exact .some hv
  | none => exact h.value n

/-- Related scopes call related declarations. -/
theorem callee? (h : Renamed φ y s s') (n : String) : Option.Rel (Callee.Renamed φ) (s.callee? n) (s'.callee? n) := by
  have hv := h.value? n
  have hclosed := h.closed.value (n := n)
  unfold Scope.callee?
  generalize s.value? n = v at hv hclosed ⊢
  generalize s'.value? n = v' at hv ⊢
  cases hv with
  | none => exact .none
  | some hv =>
    refine .some ?_
    cases hv with
    | ofFunction hd =>
      cases hd with
      | none => exact .untyped
      | some hd => exact .typed hd
    | @ofVariable t t' ht =>
      subst ht
      cases t with
      | none => exact .untyped
      | some t =>
        simp only [Option.map_some, Option.bind_some, Declaration.ofFunctionType?_rename]
        cases hd : Declaration.ofFunctionType? n t with
        | none => exact .untyped
        | some d => exact .typed (Declaration.renamed_ofFunctionType φ (hclosed.1 t rfl) hd)

/-- The record that a type is. -/
theorem record? (h : Renamed φ y s s') (t : Ty) : s'.record? (t.relabel φ) = (s.record? t).map (RecordLayout.relabel φ) := by
  cases t with
  | simple n => exact h.record n
  | _ => simp [Scope.record?]

/-! ### What is known -/

/-- Where no two names become one, or nothing changes, the second scope knows what the first does. -/
theorem vaguer (h : Renamed φ y s s') (hs' : s'.Closed) (ha : Function.Injective φ ∨ s = s') : s.Vaguer φ id id y s' := by
  refine ⟨h.closed, hs', h.level.vaguer (ha.imp_right (congrArg Scope.level)), fun n => ?_, Or.inr h.type,
    fun n => Or.inr (h.record n), fun _ => Or.inl rfl, fun _ => Or.inl rfl, Or.inr rfl⟩
  refine rel_imp (h.value n) fun v v' hv hv' hvv => hvv.vaguer (ha.imp_right fun hs => ?_)
  rw [← hs, hv] at hv'
  exact Option.some.inj hv'

/-- Scopes that differ in the own parameters of declarations only do so both ways. -/
theorem symm (h : Renamed id y s s') (hs' : s'.Closed) : Renamed id y s' s := by
  refine ⟨hs', h.level.symm, fun n => ?_, fun n hn => ?_, fun n => ?_⟩
  · have hv := h.value n
    generalize s.outer.findSome? (·.value? n) = x at hv ⊢
    generalize s'.outer.findSome? (·.value? n) = x' at hv ⊢
    cases hv with
    | none => exact .none
    | some hv => exact .some hv.symm
  · have hentry := h.type n hn
    rw [id] at hentry ⊢
    generalize s.type? n = o at hentry ⊢
    generalize s'.type? n = o' at hentry ⊢
    cases hentry with
    | unbound => exact .unbound
    | simple => exact .simple
    | parameter owner hm => exact .parameter owner rfl
  · rw [h.record n]
    cases s.recordNamed? n with
    | none => rfl
    | some r => simp [RecordLayout.relabel_id]

/-- A scope that is itself under other names is so under any that keep what these keep. -/
theorem self_of_keeps {σ : String → String} (h : Renamed φ y s s) (hσ : ∀ n, φ n = n → σ n = n) : Renamed σ y s s := by
  refine ⟨h.closed, h.level.self_of_keeps hσ, fun n => ?_, fun n hn => ?_, fun n => ?_⟩
  · refine rel_imp (h.value n) fun v v' hv hv' hvv => ?_
    obtain rfl := Option.some.inj (hv.symm.trans hv')
    exact hvv.self_of_keeps hσ
  · have hentry := h.type n hn
    rw [id] at hentry ⊢
    generalize s.type? n = o at hentry ⊢
    cases hentry with
    | unbound => exact .unbound
    | simple => exact .simple
    | parameter owner hm => exact .parameter owner (hσ n hm)
  · have hr := h.record n
    generalize s.recordNamed? n = x at hr ⊢
    cases x with
    | none => rfl
    | some r => exact congrArg some (RecordLayout.relabel_self_of_keeps hσ (Option.some.inj hr).symm).symm

/-! ### Annotations -/

/-- What an annotation stands for in one scope, it stands for in the other, with its names changed. -/
theorem resolve (h : Renamed φ y s s') {a : Annotation} (hq : ∀ q ∈ Γ.placesOfType a, q.Avoids y) :
    Agree (fun t t' => t' = t.relabel φ) (s.resolve a) (s'.resolve a) := by
  have hr := agree_resolve h.type a fun q hm => (hq q hm).parts
  rwa [Gradual.Annotation.rename_id] at hr

/-! ### Bindings -/

/-- Empty levels keep scopes related. -/
theorem child (h : Renamed φ y s s') : Renamed φ y s.child s'.child := ⟨h.closed.child, .empty φ, h.value?, h.type, h.record⟩

/-- Variables of one type, but for names, keep scopes related. -/
theorem addVariable (h : Renamed φ y s s') (n : String) {t : Option Ty} (ht : ∀ u, t = some u → u.isOpen = false) :
    Renamed φ y (s.addVariable n t) (s'.addVariable n (t.map (Ty.relabel φ))) := by
  refine ⟨h.closed.addVariable n ht, ⟨fun m => ?_, h.level.functions, h.level.types⟩, h.value, h.type, fun m => ?_⟩
  · dsimp only [Scope.addVariable]
    rw [lookup_cons_ite, lookup_cons_ite, h.level.vars]
    split <;> rfl
  · rw [recordNamed?_addVariable, recordNamed?_addVariable, h.record]

/-- Functions with related signatures keep scopes related. -/
theorem addFunction (h : Renamed φ y s s') (n : String) {d d' : Option Declaration}
    (hd : Option.Rel (Declaration.Renamed φ) d d') (hc : ∀ e, d = some e → e.Closed) :
    Renamed φ y (s.addFunction n d) (s'.addFunction n d') := by
  refine ⟨h.closed.addFunction n hc, ⟨h.level.vars, fun m => ?_, h.level.types⟩, h.value, h.type, fun m => ?_⟩
  · dsimp only [Scope.addFunction]
    rw [lookup_cons_ite, lookup_cons_ite]
    split
    · exact .some hd
    · exact h.level.functions m
  · rw [recordNamed?_addFunction, recordNamed?_addFunction, h.record]

/-- Parameters of one type, but for names, keep scopes related. -/
theorem addParameter (h : Renamed φ y s s') (n : String) {t : Ty} (ht : t.isOpen = false) :
    Renamed φ y (s.addParameter n t) (s'.addParameter n (t.relabel φ)) := by
  unfold Scope.addParameter
  rw [Declaration.ofFunctionType?_rename]
  cases hd : Declaration.ofFunctionType? n t with
  | none =>
    refine h.addVariable n (t := some t) fun u hu => ?_
    exact Option.some.inj hu ▸ ht
  | some d =>
    refine h.addFunction n (.some (Declaration.renamed_ofFunctionType φ ht hd)) fun e he => ?_
    exact Option.some.inj he ▸ Declaration.closed_ofFunctionType ht hd

/-! ### Records -/

/-- The name of a record stands for the record in both scopes. -/
theorem type_addType (h : Renamed φ y s s') {n : String} (hn : n ≠ y) :
    TypesMatch φ id id y (s.addType n (.simple n)) (s'.addType n (.simple n)) := by
  have ht := h.type.addType (fun m => Or.inl rfl) (fun m => Or.inl rfl) hn
  rwa [keeping_id] at ht

/-- A record is bound in both scopes: its type, its constructor and its layout. -/
theorem bindRecord (h : Renamed φ y s s') {n : String} (hn : n ≠ y) {layout : RecordLayout} (hname : layout.name = n)
    (hl : ∀ m ∈ layout.fields, m.2.isOpen = false) :
    Renamed φ y (((s.addType n (.simple n)).addFunction n (some layout.constructor)).addRecord layout)
      (((s'.addType n (.simple n)).addFunction n (some (layout.relabel φ).constructor)).addRecord (layout.relabel φ)) := by
  subst hname
  have hname : (layout.relabel φ).name = layout.name := rfl
  have hconstructor := RecordLayout.renamed_constructor φ hl
  refine ⟨h.closed.bindLayout hl layout.name, ⟨h.level.vars, fun m => ?_, fun m => ?_⟩, h.value, fun m hm => ?_, fun m => ?_⟩
  · dsimp only [Scope.addRecord, Scope.addFunction, Scope.addType]
    rw [lookup_cons_ite, lookup_cons_ite]
    split
    · exact .some (.some hconstructor)
    · exact h.level.functions m
  · rw [Bool.eq_iff_iff, hasType_bindRecord rfl, hasType_bindRecord hname, h.level.types]
  · rw [type?_bindRecord rfl, type?_bindRecord hname]
    exact h.type_addType hn m hm
  · rw [recordNamed?_bindRecord rfl, recordNamed?_bindRecord hname, h.record]
    split <;> rfl

/-! ### Functions -/

/-- The generic parameters of a function are bound in both scopes, where their names are kept. -/
theorem inFunction (h : Renamed φ y s s') {generics : List String} (hk : ∀ n ∈ generics, φ n = n) (owner : String) :
    Renamed φ y (s.withGenerics owner generics).child (s'.withGenerics owner generics).child := by
  have hmap : generics.map (Equiv.refl String) = generics := map_of_keeps fun _ _ => rfl
  refine ⟨(h.closed.withGenerics owner generics).child, .empty φ, fun n => ?_, ?_, fun n => ?_⟩
  · have hv := h.value? n
    rw [← s.value?_withGenerics owner generics, ← s'.value?_withGenerics owner generics] at hv
    exact hv
  · have ht := h.type.withGenerics (rebinds_refl y generics) (rebinds_refl y generics) (H := φ) hk (fun _ _ _ => rfl) owner
    rwa [binding_refl, hmap] at ht
  · change (s'.withGenerics owner generics).recordNamed? n = ((s.withGenerics owner generics).recordNamed? n).map _
    rw [recordNamed?_withGenerics, recordNamed?_withGenerics, h.record]
    split <;> rfl

/-! ### Signatures -/

/-- A function that renames its generic parameters by `k` has the same declaration up to names. -/
theorem functionDeclaration (h : Renamed φ y s s') {k : Equiv.Perm String} {generics : List String}
    (hk : Rebinds id y k generics) (n : String) {params : List Param} {ret : Option Annotation}
    (hp : ∀ q ∈ Γ.placesOfParams params, q.part.Fits (binding id k generics) y)
    (hr : ∀ q ∈ Γ.placesOfType? ret, q.part.Fits (binding id k generics) y) :
    Agree (Option.Rel (Declaration.Renamed φ)) ((s.withGenerics n generics).functionDeclaration n generics params ret)
      ((s'.withGenerics n (generics.map k)).functionDeclaration n (generics.map k)
        (params.map (Param.rename (binding id k generics))) (ret.map (·.rename (binding id k generics)))) := by
  have hd := agree_functionDeclaration h.type (rebinds_refl y generics) hk n
    (fun q hm => ⟨by rw [binding_refl]; exact (hp q hm).keepAll, hp q hm⟩)
    fun q hm => ⟨by rw [binding_refl]; exact (hr q hm).keepAll, hr q hm⟩
  rw [binding_refl, map_of_keeps (k := Equiv.refl String) fun _ _ => rfl, map_rename_id, map_annotation_rename_id] at hd
  refine hd.mono fun d d' _ hdd => ?_
  cases hdd with
  | none => exact .none
  | some hdd => exact .some hdd.1

/-- A function has the same declaration up to names. -/
theorem functionDeclaration_id (h : Renamed φ y s s') (generics : List String) (n : String) {params : List Param}
    {ret : Option Annotation} (hp : ∀ q ∈ Γ.placesOfParams params, q.Avoids y) (hr : ∀ q ∈ Γ.placesOfType? ret, q.Avoids y) :
    Agree (Option.Rel (Declaration.Renamed φ)) ((s.withGenerics n generics).functionDeclaration n generics params ret)
      ((s'.withGenerics n generics).functionDeclaration n generics params ret) := by
  have hbinding := binding_refl generics
  have hd := h.functionDeclaration (rebinds_refl y generics) n (hbinding ▸ fun q hm => (hp q hm).parts.1)
    (hbinding ▸ fun q hm => (hr q hm).parts.1)
  rwa [hbinding, map_of_keeps (k := Equiv.refl String) fun _ _ => rfl, map_rename_id, map_annotation_rename_id] at hd

/-- A method has the same declaration up to names. -/
theorem methodDeclaration (h : Renamed φ y s s') (receiver n : String) {params : List Param} {ret : Option Annotation}
    (hp : ∀ q ∈ Γ.placesOfParams params, q.Avoids y) (hr : ∀ q ∈ Γ.placesOfType? ret, q.Avoids y) :
    Agree (Option.Rel (Declaration.Renamed φ)) (s.methodDeclaration (.simple receiver) n params ret)
      (s'.methodDeclaration (.simple receiver) n params ret) := by
  have hd := agree_methodDeclaration h.closed h.type receiver n (fun q hm => (hp q hm).parts) fun q hm => (hr q hm).parts
  rw [map_rename_id, map_annotation_rename_id] at hd
  refine hd.mono fun d d' _ hdd => ?_
  cases hdd with
  | none => exact .none
  | some hdd => exact .some hdd.1

/-- A record has the same layout up to names. -/
theorem recordLayout (h : TypesMatch φ id id y s s') (n : String) {fields : List Param}
    (hq : ∀ q ∈ Γ.placesOfParams fields, q.Avoids y) :
    Agree (fun r r' => r' = r.relabel φ) (s.recordLayout n fields) (s'.recordLayout n fields) := by
  have hl := agree_recordLayout h n fun q hm => (hq q hm).parts
  rwa [map_rename_id] at hl

end Renamed

end Scope

end Gradual
