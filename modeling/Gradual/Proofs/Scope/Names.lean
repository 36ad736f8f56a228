import Gradual.Check.Validity
import Gradual.Proofs.Scope.Lookup
import Gradual.Proofs.Tree.Places

/-!
# Scopes and the names they bind

`Scope.Binds` ties a scope to the names that a place sees: the scope binds exactly those, and the records among its types have the
fields that the names tell. `Scope.Tracks` adds what the innermost level has declared so far, each value name once. One lemma for
each way of binding says that the tie is kept, so it holds all along a check.
-/

namespace Gradual

/-- The rejection of a declaration that repeats another. -/
def Declared.rejection (d : Declared) : Rejection :=
  match d.kind with
  | .var => (Cause.variableDeclared d.name).at d.span
  | _ => (Cause.functionDeclared d.name).at d.span

namespace Declared

/-- The value names of two lists of declarations are those of the one and those of the other. -/
theorem values_append (ds es : List Declared) : values (ds ++ es) = values ds ++ values es := by
  simp [values]

/-- Fields declare values of their names. -/
theorem values_fields (fields : List Param) : values (fields.map Param.declared) = fields.map (·.name) := by
  induction fields with
  | nil => rfl
  | cons p ps ih => exact congrArg (p.name :: ·) ih

/-- The type names of two lists of declarations are those of the one and those of the other. -/
theorem types_append (ds es : List Declared) : types (ds ++ es) = types ds ++ types es := by
  simp [types]

end Declared

namespace Names

/-- A value is no type. -/
@[simp] theorem kind?_addValue (Γ : Names) (n m : String) : (Γ.addValue n).kind? m = Γ.kind? m := rfl

@[simp] theorem kind?_addValues (Γ : Names) (ns : List String) (m : String) : (Γ.addValues ns).kind? m = Γ.kind? m := by
  induction ns generalizing Γ with
  | nil => rfl
  | cons n ns ih => exact ih (Γ.addValue n)

/-- Adding a value and adding generic parameters commute. -/
theorem addGenerics_addValue (Γ : Names) (n : String) (generics : List String) :
    (Γ.addValue n).addGenerics generics = (Γ.addGenerics generics).addValue n := by
  induction generics generalizing Γ with
  | nil => rfl
  | cons g gs ih => exact ih (Γ.addType g .generic)

end Names

namespace Scope

variable {s : Scope} {Γ : Names} {ds : List Declared}

/-! ## Look-ups after a binding -/

/-- A variable is one more value of the level. -/
theorem hasValue_addVariable (n : String) (ty : Option Ty) (m : String) :
    (s.addVariable n ty).level.hasValue m = true ↔ m = n ∨ s.level.hasValue m = true := by
  by_cases h : m = n <;> simp [addVariable, Level.hasValue, Level.hasVariable, Level.hasFunction, lookup_cons_ite, h]

/-- A function is one more value of the level. -/
theorem hasValue_addFunction (n : String) (d : Option Declaration) (m : String) :
    (s.addFunction n d).level.hasValue m = true ↔ m = n ∨ s.level.hasValue m = true := by
  by_cases h : m = n <;> simp [addFunction, Level.hasValue, Level.hasVariable, Level.hasFunction, lookup_cons_ite, h]

/-- A type is one more type of the level. -/
theorem hasType_addType (n : String) (t : Ty) (m : String) :
    (s.addType n t).level.hasType m = true ↔ m = n ∨ s.level.hasType m = true := by
  by_cases h : m = n <;> simp [addType, Level.hasType, lookup_cons_ite, h]

/-- A name stands for a value when a level binds it as one. -/
theorem isSome_value?_iff (n : String) : (s.value? n).isSome = true ↔ ∃ l ∈ s.levels, l.hasValue n = true := by
  have hlevel : ∀ l : Level, (l.value? n).isSome = l.hasValue n := by
    intro l
    unfold Level.value? Level.hasValue Level.hasVariable Level.hasFunction
    cases l.vars.lookup n <;> simp
  rw [value?, List.findSome?_isSome_iff]
  simp only [hlevel]

/-- A variable is one more value that is seen. -/
theorem isSome_value?_addVariable (n : String) (ty : Option Ty) (m : String) :
    ((s.addVariable n ty).value? m).isSome = true ↔ m = n ∨ (s.value? m).isSome = true := by
  simp only [isSome_value?_iff, levels, List.exists_mem_cons_iff, hasValue_addVariable, or_assoc]
  rfl

/-- A function is one more value that is seen. -/
theorem isSome_value?_addFunction (n : String) (d : Option Declaration) (m : String) :
    ((s.addFunction n d).value? m).isSome = true ↔ m = n ∨ (s.value? m).isSome = true := by
  simp only [isSome_value?_iff, levels, List.exists_mem_cons_iff, hasValue_addFunction, or_assoc]
  rfl

/-- A type is seen under its name, and hides what had the name before. -/
theorem type?_addType (n : String) (t : Ty) (m : String) : (s.addType n t).type? m = if m = n then some t else s.type? m := by
  rw [type?_eq, type?_eq, addType]
  dsimp only
  rw [lookup_cons_ite]
  by_cases h : m = n <;> simp [h]

/-- A type leaves the records of other names as they are. -/
theorem recordNamed?_addType_of_ne {n m : String} (h : m ≠ n) (t : Ty) : (s.addType n t).recordNamed? m = s.recordNamed? m := by
  have hhas : (s.addType n t).level.hasType m = s.level.hasType m := by
    simp [addType, Level.hasType, lookup_cons_ite, h]
  rw [recordNamed?_eq, recordNamed?_eq, hhas]
  rfl

/-- A type that is no record hides a record of its name, where its level has no records. -/
theorem recordNamed?_addType (h : s.level.records = []) (n : String) (t : Ty) (m : String) :
    (s.addType n t).recordNamed? m = if m = n then none else s.recordNamed? m := by
  by_cases hm : m = n
  · rw [recordNamed?_eq, if_pos ((hasType_addType n t m).2 (Or.inl hm)), if_pos hm]
    exact congrArg (List.lookup m) h
  · rw [if_neg hm, recordNamed?_addType_of_ne hm]

/-- A variable leaves the records as they are. -/
theorem recordNamed?_addVariable (n : String) (ty : Option Ty) (m : String) :
    (s.addVariable n ty).recordNamed? m = s.recordNamed? m := by
  rw [recordNamed?_eq, recordNamed?_eq]
  rfl

/-- A function leaves the records as they are. -/
theorem recordNamed?_addFunction (n : String) (d : Option Declaration) (m : String) :
    (s.addFunction n d).recordNamed? m = s.recordNamed? m := by
  rw [recordNamed?_eq, recordNamed?_eq]
  rfl

/-- A record is seen under its name. -/
theorem recordNamed?_addRecord (r : RecordLayout) (m : String) :
    (s.addRecord r).recordNamed? m = if m = r.name then some r else s.recordNamed? m := by
  by_cases hm : m = r.name
  · have hhas : (s.addRecord r).level.hasType m = true := (hasType_addType r.name r.type m).2 (Or.inl hm)
    have hfound : (s.addRecord r).level.records.lookup m = some r := by
      rw [hm]
      exact List.lookup_cons_self
    rw [recordNamed?_eq, hhas, hfound, if_pos hm]
    rfl
  · have hrest : (s.addRecord r).level.records.lookup m = s.level.records.lookup m := by
      simp [addRecord, addType, lookup_cons_ite, hm]
    have htype := recordNamed?_addType_of_ne (s := s) hm r.type
    rw [recordNamed?_eq] at htype ⊢
    rw [if_neg hm, ← htype, hrest]
    rfl

/-- The generic parameters of a function are types inside it. -/
theorem type?_withGenerics (owner : String) (generics : List String) (n : String) :
    (s.withGenerics owner generics).type? n =
      if n ∈ generics then some (.parameter (.declared n owner)) else s.type? n := by
  unfold withGenerics
  rw [← type?_child s]
  generalize s.child = c
  induction generics generalizing c with
  | nil => simp
  | cons g gs ih =>
    rw [List.foldl_cons, ih, type?_addType]
    by_cases hn : n = g
    · simp [hn]
    · simp [hn]

/-- The generic parameters of a function hide the records of their names. -/
theorem recordNamed?_withGenerics (owner : String) (generics : List String) (n : String) :
    (s.withGenerics owner generics).recordNamed? n = if n ∈ generics then none else s.recordNamed? n := by
  unfold withGenerics
  have hc : s.child.recordNamed? n = s.recordNamed? n := rfl
  have hr : s.child.level.records = [] := rfl
  rw [← hc]
  generalize s.child = c at hr
  induction generics generalizing c with
  | nil => simp
  | cons g gs ih =>
    rw [List.foldl_cons, ih (c.addType g (.parameter (.declared g owner))) hr, recordNamed?_addType hr]
    by_cases hn : n = g
    · simp [hn]
    · simp [hn]

/-- Generic parameters leave the values as they are. -/
theorem value?_withGenerics (owner : String) (generics : List String) (n : String) :
    (s.withGenerics owner generics).value? n = s.value? n := by
  unfold withGenerics
  have hc : s.child.value? n = s.value? n := rfl
  rw [← hc]
  generalize s.child = c
  induction generics generalizing c with
  | nil => rfl
  | cons g gs ih => exact ih _

/-! ## Signatures -/

/-- There are as many types as annotations. -/
theorem length_resolveAll {as : List Annotation} {ts : List Ty} (h : s.resolveAll as = .ok ts) : ts.length = as.length := by
  induction as generalizing ts with
  | nil =>
    obtain rfl := Except.ok.inj h
    rfl
  | cons a as ih =>
    obtain ⟨t, -, h⟩ := bind_eq_ok_iff.1 h
    obtain ⟨us, hus, h⟩ := bind_eq_ok_iff.1 h
    obtain rfl := Except.ok.inj h
    rw [List.length_cons, List.length_cons, ih hus]

/-- The layout of a record has its name, and the names of its fields. -/
theorem names_of_recordLayout {n : String} {fields : List Param} {layout : RecordLayout}
    (h : s.recordLayout n fields = .ok layout) : layout.name = n ∧ layout.fields.map (·.1) = fields.map (·.name) := by
  obtain ⟨ts, hts, h⟩ := bind_eq_ok_iff.1 h
  obtain rfl := Except.ok.inj h
  have hlength : ts.length = fields.length := by simpa using length_resolveAll hts
  exact ⟨rfl, List.map_fst_zip (by simp [hlength])⟩

/-- The layout of a record adds no type to that of the record. -/
theorem type?_bindRecord {n : String} {layout : RecordLayout} (h : layout.name = n) (m : String) :
    (((s.addType n (.simple n)).addFunction n (some layout.constructor)).addRecord layout).type? m =
      (s.addType n (.simple n)).type? m := by
  change ((s.addType n (.simple n)).addType layout.name layout.type).type? m = _
  rw [RecordLayout.type, h, type?_addType, type?_addType]
  by_cases hm : m = n <;> simp [hm]

/-- A record is one more type of the level. -/
theorem hasType_bindRecord {n : String} {layout : RecordLayout} (h : layout.name = n) (m : String) :
    (((s.addType n (.simple n)).addFunction n (some layout.constructor)).addRecord layout).level.hasType m = true ↔
      m = n ∨ s.level.hasType m = true := by
  change ((s.addType n (.simple n)).addType layout.name layout.type).level.hasType m = true ↔ _
  rw [hasType_addType, hasType_addType, h, ← or_assoc, or_self]

/-- A record that is bound is seen under its name. -/
theorem recordNamed?_bindRecord {n : String} {layout : RecordLayout} (h : layout.name = n) (m : String) :
    (((s.addType n (.simple n)).addFunction n (some layout.constructor)).addRecord layout).recordNamed? m =
      if m = n then some layout else s.recordNamed? m := by
  rw [recordNamed?_addRecord, recordNamed?_addFunction, h]
  by_cases hm : m = n
  · rw [if_pos hm, if_pos hm]
  · rw [if_neg hm, if_neg hm, recordNamed?_addType_of_ne hm]

/-- The first name that stands twice in a list, after the names `seen`, is among those before it. -/
theorem mem_of_repeated? {seen ns : List String} {n : String} (h : repeated? seen ns = some n) :
    ∃ before after, ns = before ++ n :: after ∧ n ∈ seen ++ before := by
  induction ns generalizing seen with
  | nil => cases h
  | cons m ns ih =>
    rw [repeated?] at h
    by_cases hm : seen.contains m = true
    · rw [if_pos hm, Option.some.injEq] at h
      refine ⟨[], ns, by rw [h]; rfl, ?_⟩
      rw [List.append_nil, ← h]
      exact List.contains_iff_mem.1 hm
    · rw [if_neg hm] at h
      obtain ⟨before, after, rfl, hn⟩ := ih h
      exact ⟨m :: before, after, rfl, by simpa using hn⟩

/-- Names without a repeated one differ from each other, and from those seen before. -/
theorem nodup_of_repeated? {seen ns : List String} (hs : seen.Nodup) (h : repeated? seen ns = none) : (seen ++ ns).Nodup := by
  induction ns generalizing seen with
  | nil => simpa using hs
  | cons m ns ih =>
    rw [repeated?] at h
    by_cases hm : seen.contains m = true
    · rw [if_pos hm] at h
      cases h
    · rw [if_neg hm] at h
      have hseen : (seen ++ [m]).Nodup := by
        rw [List.nodup_append]
        refine ⟨hs, by simp, fun a ha b hb hab => hm ?_⟩
        rw [List.mem_singleton] at hb
        rw [List.contains_iff_mem, ← hb, ← hab]
        exact ha
      have hrest := ih hseen h
      rwa [List.append_assoc] at hrest

/-- The fields of a record that is accepted have different names. -/
theorem nodup_of_ensureDistinctFields {fields : List Param} {span : Span} (h : ensureDistinctFields fields span = .ok ()) :
    (fields.map (·.name)).Nodup := by
  unfold ensureDistinctFields at h
  cases hr : repeated? [] (fields.map (·.name)) with
  | none => exact nodup_of_repeated? List.nodup_nil hr
  | some n =>
    rw [hr] at h
    cases h

/-! ## The names that a scope binds -/

/-- A scope binds exactly those values and types, and the records among its types have those fields. -/
structure Binds (s : Scope) (Γ : Names) : Prop where
  value : ∀ n, (s.value? n).isSome = true ↔ n ∈ Γ.values
  type : ∀ n, (s.type? n).isSome = true ↔ (Γ.kind? n).isSome = true
  record : ∀ n, ((s.recordNamed? n).map fun r => r.fields.map (·.1)) = (Γ.kind? n).bind TypeKind.fields?

namespace Binds

/-- An empty level binds no name. -/
theorem child (h : s.Binds Γ) : s.child.Binds Γ := ⟨h.value, h.type, h.record⟩

/-- A variable binds its name as a value. -/
theorem addVariable (h : s.Binds Γ) (n : String) (ty : Option Ty) : (s.addVariable n ty).Binds (Γ.addValue n) := by
  refine ⟨fun m => ?_, h.type, fun m => ?_⟩
  · rw [isSome_value?_addVariable, h.value, Names.addValue, List.mem_cons]
  · rw [recordNamed?_addVariable]
    exact h.record m

/-- A function binds its name as a value. -/
theorem addFunction (h : s.Binds Γ) (n : String) (d : Option Declaration) : (s.addFunction n d).Binds (Γ.addValue n) := by
  refine ⟨fun m => ?_, h.type, fun m => ?_⟩
  · rw [isSome_value?_addFunction, h.value, Names.addValue, List.mem_cons]
  · rw [recordNamed?_addFunction]
    exact h.record m

/-- A type without fields binds its name as a type. -/
theorem addType (h : s.Binds Γ) (hr : s.level.records = []) {k : TypeKind} (hk : k.fields? = none) (n : String) (t : Ty) :
    (s.addType n t).Binds (Γ.addType n k) := by
  refine ⟨h.value, fun m => ?_, fun m => ?_⟩
  · rw [type?_addType, Names.addType, Names.kind?, lookup_cons_ite]
    by_cases hm : m = n
    · simp [hm]
    · simp only [hm, if_false]
      exact h.type m
  · rw [recordNamed?_addType hr, Names.addType, Names.kind?, lookup_cons_ite]
    by_cases hm : m = n
    · simp [hm, hk]
    · simp only [hm, if_false]
      exact h.record m

/-- Generic parameters bind their names as types. -/
theorem withGenerics (h : s.Binds Γ) (owner : String) (generics : List String) :
    (s.withGenerics owner generics).Binds (Γ.addGenerics generics) := by
  unfold Scope.withGenerics Names.addGenerics
  have hc := h.child
  have hr : s.child.level.records = [] := rfl
  generalize s.child = c at hc hr ⊢
  clear h
  induction generics generalizing c Γ with
  | nil => exact hc
  | cons n ns ih => exact ih _ (hc.addType hr rfl n _) hr

/-- A parameter binds its name as a value. -/
theorem addParameter (h : s.Binds Γ) (n : String) (ty : Ty) : (s.addParameter n ty).Binds (Γ.addValue n) := by
  unfold Scope.addParameter
  split
  · exact h.addFunction n _
  · exact h.addVariable n _

/-- What can be called is what is a value. -/
theorem callee (h : s.Binds Γ) (n : String) : (s.callee? n).isSome = true ↔ n ∈ Γ.values := by
  rw [← h.value, callee?, Option.isSome_map]

/-- A record is known by its fields. -/
theorem kind_of_record (h : s.Binds Γ) {n : String} {r : RecordLayout} (hr : s.recordNamed? n = some r) :
    Γ.kind? n = some (.record (r.fields.map (·.1))) := by
  have hn := h.record n
  rw [hr, Option.map_some] at hn
  obtain ⟨k, hk, hfields⟩ := Option.bind_eq_some_iff.1 hn.symm
  cases k with
  | record fields => rw [hk, Option.some.inj hfields]
  | plain => cases hfields
  | generic => cases hfields

/-- The fields of a record see its type, before the record has a layout. -/
theorem type_addRecord (h : s.Binds Γ) {n : String} {t : Ty} (fields : List Param) (m : String) :
    ((s.addType n t).type? m).isSome = true ↔ ((Γ.addRecord n fields).kind? m).isSome = true := by
  rw [type?_addType, Names.addRecord, Names.kind?_addValue, Names.addType, Names.kind?, lookup_cons_ite]
  by_cases hm : m = n
  · simp [hm]
  · simp only [hm, if_false]
    exact h.type m

/-- A record binds its type and its constructor. -/
theorem bindRecord (h : s.Binds Γ) {n : String} {fields : List Param} {t : Ty} {layout : RecordLayout}
    (hl : (s.addType n t).recordLayout n fields = .ok layout) :
    (((s.addType n t).addFunction n (some layout.constructor)).addRecord layout).Binds (Γ.addRecord n fields) := by
  obtain ⟨hname, hfields⟩ := names_of_recordLayout hl
  refine ⟨fun m => ?_, fun m => ?_, fun m => ?_⟩
  · exact (isSome_value?_addFunction n _ m).trans ((or_congr_right (h.value m)).trans List.mem_cons.symm)
  · change (((s.addType n t).addType layout.name layout.type).type? m).isSome = true ↔ _
    rw [type?_addType, hname, ← h.type_addRecord (t := t) fields m]
    by_cases hm : m = n
    · simp [hm, type?_addType]
    · simp [hm]
  · rw [recordNamed?_addRecord, hname, recordNamed?_addFunction, Names.addRecord, Names.addValue, Names.addType, Names.kind?,
      lookup_cons_ite]
    by_cases hm : m = n
    · simp [hm, hfields, TypeKind.fields?]
    · rw [if_neg hm, if_neg hm, recordNamed?_addType_of_ne hm]
      exact h.record m

end Binds

/-- The prelude binds the names of the language. -/
theorem binds_prelude : prelude.Binds .prelude := by
  have hempty : empty.Binds ⟨[], []⟩ := by
    refine ⟨fun n => ?_, fun n => ?_, fun n => rfl⟩
    · simp [value?, levels, empty, Level.empty, Level.value?]
    · simp [type?, levels, empty, Level.empty, Names.kind?]
  have htypes : ∀ (ns : List String) (s : Scope) (Γ : Names), s.Binds Γ → s.level.records = [] →
      (ns.foldl (fun s n => s.addType n (.simple n)) s).Binds (Γ.addPlain ns) := by
    intro ns
    induction ns with
    | nil => exact fun s Γ h _ => h
    | cons n ns ih => exact fun s Γ h hr => ih _ _ (h.addType hr rfl n _) hr
  have hfunctions : ∀ (ns : List String) (s : Scope) (Γ : Names), s.Binds Γ →
      (ns.foldl (fun s n => s.addFunction n none) s).Binds (Γ.addValues ns) := by
    intro ns
    induction ns with
    | nil => exact fun s Γ h => h
    | cons n ns ih => exact fun s Γ h => ih _ _ (h.addFunction n none)
  exact hfunctions _ _ _ ((htypes _ _ _ hempty rfl).addFunction _ _)

/-! ## What the innermost level declares -/

/-- A scope binds exactly those names, and its innermost level exactly those that were declared there, each value once. -/
structure Tracks (s : Scope) (Γ : Names) (ds : List Declared) : Prop where
  binds : s.Binds Γ
  value : ∀ n, s.level.hasValue n = true ↔ n ∈ Declared.values ds
  type : ∀ n, s.level.hasType n = true ↔ n ∈ Declared.types ds
  nodup : (Declared.values ds).Nodup

/-- An empty level has declared nothing. -/
theorem Binds.tracks_child (h : s.Binds Γ) : s.child.Tracks Γ [] := by
  refine ⟨h.child, fun n => ?_, fun n => ?_, List.nodup_nil⟩
  · simp [Scope.child, Level.empty, Level.hasValue, Level.hasVariable, Level.hasFunction, Declared.values]
  · simp [Scope.child, Level.empty, Level.hasType, Declared.types]

/-- A variable is new where the level has no value of its name. -/
theorem ensureNewVariable_ok_iff {n : String} {span : Span} :
    s.ensureNewVariable n span = .ok () ↔ s.level.hasValue n = false := by
  unfold ensureNewVariable
  cases s.level.hasValue n <;> simp

/-- A function is new where the level has no value of its name. -/
theorem ensureNewFunction_ok_iff {n : String} {span : Span} :
    s.ensureNewFunction n span = .ok () ↔ s.level.hasValue n = false := by
  unfold ensureNewFunction
  cases s.level.hasValue n <;> simp

/-- A record is new where the level has neither a type nor a value of its name. -/
theorem ensureNewRecord_ok_iff {n : String} {span : Span} :
    s.ensureNewRecord n span = .ok () ↔ s.level.hasType n = false ∧ s.level.hasValue n = false := by
  have hfunction : s.ensureNewFunction n span = .ok () ↔ s.level.hasValue n = false := ensureNewFunction_ok_iff
  unfold ensureNewRecord
  cases s.level.hasType n <;> simp [hfunction]

namespace Tracks

/-- One more value is declared, under a name that is new at the level. -/
theorem declare (h : s.Tracks Γ ds) {r : Scope} {Γ' : Names} {d : Declared} (hb : r.Binds Γ') (hd : d.isValue = true)
    (hnew : s.level.hasValue d.name = false) (hv : ∀ m, r.level.hasValue m = true ↔ m = d.name ∨ s.level.hasValue m = true)
    (ht : ∀ m, r.level.hasType m = (d.isType && m == d.name || s.level.hasType m)) : r.Tracks Γ' (ds ++ [d]) := by
  have hvalues : Declared.values (ds ++ [d]) = Declared.values ds ++ [d.name] := by
    simp [Declared.values, hd]
  refine ⟨hb, fun m => ?_, fun m => ?_, ?_⟩
  · rw [hv, hvalues, List.mem_append, List.mem_singleton, h.value, or_comm]
  · rw [ht, Bool.or_eq_true, h.type, Declared.types_append, List.mem_append, or_comm]
    by_cases hty : d.isType = true <;> simp [Declared.types, hty]
  · rw [hvalues, List.nodup_append]
    refine ⟨h.nodup, by simp, fun m hm k hk hmk => ?_⟩
    rw [List.mem_singleton] at hk
    rw [hmk, hk, ← h.value, hnew] at hm
    cases hm

/-- A new variable is declared at the level. -/
theorem addVariable (h : s.Tracks Γ ds) {n : String} (span : Span) (hnew : s.level.hasValue n = false) (ty : Option Ty) :
    (s.addVariable n ty).Tracks (Γ.addValue n) (ds ++ [⟨n, span, .var⟩]) :=
  h.declare (h.binds.addVariable n ty) rfl hnew (hasValue_addVariable n ty) fun _ => rfl

/-- A new function is declared at the level. -/
theorem addFunction (h : s.Tracks Γ ds) {n : String} (span : Span) (hnew : s.level.hasValue n = false) (d : Option Declaration) :
    (s.addFunction n d).Tracks (Γ.addValue n) (ds ++ [⟨n, span, .function⟩]) :=
  h.declare (h.binds.addFunction n d) rfl hnew (hasValue_addFunction n d) fun _ => rfl

/-- A parameter is declared as a variable, also where it is bound as a function. -/
theorem addParameter (h : s.Tracks Γ ds) {n : String} (span : Span) (hnew : s.level.hasValue n = false) (ty : Ty) :
    (s.addParameter n ty).Tracks (Γ.addValue n) (ds ++ [⟨n, span, .var⟩]) := by
  have hb := h.binds.addParameter n ty
  unfold Scope.addParameter at hb ⊢
  split at hb
  · exact h.declare hb rfl hnew (hasValue_addFunction n _) fun _ => rfl
  · exact h.declare hb rfl hnew (hasValue_addVariable n _) fun _ => rfl

/-- A record is declared as a type and a value. -/
theorem bindRecord (h : s.Tracks Γ ds) {n : String} {fields : List Param} {t : Ty} {layout : RecordLayout} (span : Span)
    (hnew : s.level.hasValue n = false) (hl : (s.addType n t).recordLayout n fields = .ok layout) :
    (((s.addType n t).addFunction n (some layout.constructor)).addRecord layout).Tracks (Γ.addRecord n fields)
      (ds ++ [⟨n, span, .record⟩]) := by
  refine h.declare (h.binds.bindRecord hl) rfl hnew (fun m => ?_) fun m => ?_
  · exact hasValue_addFunction (s := s.addType n t) n _ m
  · have hname : layout.name = n := (names_of_recordLayout hl).1
    have htype : ((s.addType n t).addType layout.name layout.type).level.hasType m = true ↔
        m = n ∨ s.level.hasType m = true := by
      rw [hasType_addType, hasType_addType, hname, ← or_assoc, or_self]
    rw [Bool.eq_iff_iff]
    refine htype.trans ?_
    simp [Declared.isType]

end Tracks

end Scope

end Gradual
