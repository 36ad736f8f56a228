import Gradual.Check.Resolve
import Gradual.Proofs.Basic
import Gradual.Proofs.Types.Instance
import Gradual.Scope.Prelude

/-!
# Scopes without unknowns

A scope is closed when nothing that a name may stand for in it mentions an unknown. Whatever is closed may be bound in a closed
scope, and what annotations, signatures and layouts stand for in it is closed. So unknowns come up in the types of arguments only,
where a generic function is passed.
-/

namespace Gradual

/-- What a level binds mentions no unknown. -/
structure Level.Closed (l : Level) : Prop where
  vars : ∀ n t, l.vars.lookup n = some (some t) → t.isOpen = false
  functions : ∀ n d, l.functions.lookup n = some (some d) → d.Closed
  types : ∀ n t, l.types.lookup n = some t → t.isOpen = false
  records : ∀ n r, l.records.lookup n = some r → ∀ f t, r.field? f = some t → t.isOpen = false

/-- An empty level mentions no unknown. -/
theorem Level.closed_empty : Level.empty.Closed := by
  refine ⟨?_, ?_, ?_, ?_⟩ <;> intro n x h <;> cases h

/-- A function type without unknowns makes a declaration without unknowns. -/
theorem Declaration.closed_ofFunctionType {n : String} {t : Ty} (ht : t.isOpen = false) {d : Declaration}
    (h : ofFunctionType? n t = some d) : d.Closed := by
  cases t with
  | function ps r =>
    obtain rfl := Option.some.inj h
    rw [Ty.isOpen_function_eq_false_iff] at ht
    exact ⟨by simp [Declaration.parameters], ht.1, ht.2⟩
  | _ => cases h

namespace Scope

/-- What the levels of a scope bind mentions no unknown. -/
def Closed (s : Scope) : Prop := ∀ l ∈ s.levels, l.Closed

variable {s : Scope}

/-! ## Binding -/

/-- A closed level in the place of the innermost one keeps a scope closed. -/
theorem Closed.change (h : s.Closed) {l : Level} (hl : l.Closed) : Closed ⟨l, s.outer⟩ := by
  intro k hk
  rcases List.mem_cons.1 hk with rfl | hk
  · exact hl
  · exact h k (List.mem_cons_of_mem _ hk)

/-- The innermost level of a closed scope is closed. -/
theorem Closed.level (h : s.Closed) : s.level.Closed := h _ List.mem_cons_self

/-- An empty level keeps a scope closed. -/
theorem Closed.child (h : s.Closed) : s.child.Closed := by
  intro k hk
  rcases List.mem_cons.1 hk with rfl | hk
  · exact Level.closed_empty
  · exact h k hk

/-- A variable of a closed type keeps a scope closed. -/
theorem Closed.addVariable (h : s.Closed) (n : String) {ty : Option Ty} (ht : ∀ t, ty = some t → t.isOpen = false) :
    (s.addVariable n ty).Closed := by
  refine h.change ⟨?_, h.level.functions, h.level.types, h.level.records⟩
  intro m t hm
  dsimp only at hm
  rw [lookup_cons_ite] at hm
  split at hm
  · exact ht t (Option.some.inj hm)
  · exact h.level.vars m t hm

/-- A function with a closed signature keeps a scope closed. -/
theorem Closed.addFunction (h : s.Closed) (n : String) {d : Option Declaration} (hd : ∀ e, d = some e → e.Closed) :
    (s.addFunction n d).Closed := by
  refine h.change ⟨h.level.vars, ?_, h.level.types, h.level.records⟩
  intro m e hm
  dsimp only at hm
  rw [lookup_cons_ite] at hm
  split at hm
  · exact hd e (Option.some.inj hm)
  · exact h.level.functions m e hm

/-- A closed type keeps a scope closed. -/
theorem Closed.addType (h : s.Closed) (n : String) {t : Ty} (ht : t.isOpen = false) : (s.addType n t).Closed := by
  refine h.change ⟨h.level.vars, h.level.functions, ?_, h.level.records⟩
  intro m u hm
  dsimp only at hm
  rw [lookup_cons_ite] at hm
  split at hm
  · exact Option.some.inj hm ▸ ht
  · exact h.level.types m u hm

/-- A record with closed fields keeps a scope closed. -/
theorem Closed.addRecord (h : s.Closed) {r : RecordLayout} (hr : ∀ f t, r.field? f = some t → t.isOpen = false) :
    (s.addRecord r).Closed := by
  have hs : (s.addType r.name r.type).Closed := h.addType r.name rfl
  refine hs.change ⟨hs.level.vars, hs.level.functions, hs.level.types, ?_⟩
  intro m q hm
  dsimp only at hm
  rw [lookup_cons_ite] at hm
  split at hm
  · exact Option.some.inj hm ▸ hr
  · exact h.level.records m q hm

/-- A parameter of a closed type keeps a scope closed. -/
theorem Closed.addParameter (h : s.Closed) (n : String) {t : Ty} (ht : t.isOpen = false) : (s.addParameter n t).Closed := by
  unfold Scope.addParameter
  split
  · rename_i d hd
    refine h.addFunction n fun e he => ?_
    obtain rfl := Option.some.inj he
    exact Declaration.closed_ofFunctionType ht hd
  · refine h.addVariable n fun u hu => ?_
    exact Option.some.inj hu ▸ ht

/-- Generic parameters are no unknowns inside their function, so they keep a scope closed. -/
theorem Closed.withGenerics (h : s.Closed) (owner : String) (generics : List String) :
    (s.withGenerics owner generics).Closed := by
  unfold Scope.withGenerics
  have hc := h.child
  generalize s.child = s at hc ⊢
  induction generics generalizing s with
  | nil => exact hc
  | cons n ns ih => exact ih _ (hc.addType n rfl)

/-! ## Looking up -/

/-- A variable of a closed scope has a closed type, and a function a closed declaration. -/
theorem Closed.value (h : s.Closed) {n : String} :
    (∀ t, s.value? n = some (.variable (some t)) → t.isOpen = false) ∧
      ∀ d, s.value? n = some (.function (some d)) → d.Closed := by
  constructor
  · intro t ht
    obtain ⟨l, hl, hv⟩ := List.exists_of_findSome?_eq_some ht
    unfold Level.value? at hv
    split at hv
    · rename_i ty hty
      obtain rfl := Value.variable.inj (Option.some.inj hv)
      exact (h l hl).vars n t hty
    · obtain ⟨d, -, hd⟩ := Option.map_eq_some_iff.1 hv
      cases hd
  · intro d hd
    obtain ⟨l, hl, hv⟩ := List.exists_of_findSome?_eq_some hd
    unfold Level.value? at hv
    split at hv
    · cases hv
    · obtain ⟨e, he, hv⟩ := Option.map_eq_some_iff.1 hv
      obtain rfl := Value.function.inj hv
      exact (h l hl).functions n d he

/-- What a type name stands for in a closed scope is closed. -/
theorem Closed.type (h : s.Closed) {n : String} {t : Ty} (ht : s.type? n = some t) : t.isOpen = false := by
  obtain ⟨l, hl, hv⟩ := List.exists_of_findSome?_eq_some ht
  exact (h l hl).types n t hv

/-- The fields of a record in a closed scope are closed. -/
theorem Closed.record (h : s.Closed) {ty : Ty} {r : RecordLayout} (hr : s.record? ty = some r) {f : String} {t : Ty}
    (ht : r.field? f = some t) : t.isOpen = false := by
  cases ty with
  | simple n =>
    obtain ⟨l, hl, hv⟩ := Option.bind_eq_some_iff.1 hr
    exact (h l (List.mem_of_find?_eq_some hl)).records n r hv f t ht
  | _ => cases hr

/-- What is called in a closed scope has a closed declaration. -/
theorem Closed.callee (h : s.Closed) {n : String} {d : Declaration} (hd : s.callee? n = some (.typed d)) : d.Closed := by
  obtain ⟨v, hv, hd⟩ := Option.map_eq_some_iff.1 hd
  match v with
  | .function none => cases hd
  | .function (some e) =>
    obtain rfl := Callee.typed.inj hd
    exact h.value.2 e hv
  | .variable ty =>
    dsimp only at hd
    split at hd
    · rename_i e he
      obtain rfl := Callee.typed.inj hd
      obtain ⟨t, rfl, he⟩ := Option.bind_eq_some_iff.1 he
      exact Declaration.closed_ofFunctionType (h.value.1 t hv) he
    · cases hd

/-! ## Resolving -/

mutual

/-- The type that an annotation stands for in a closed scope is closed. -/
theorem isOpen_resolve (h : s.Closed) : ∀ (a : Annotation) {t : Ty}, s.resolve a = .ok t → t.isOpen = false
  | .named n as span, t, ht => by
    unfold resolve at ht
    split at ht
    · cases ht
    · rename_i base hb
      split at ht
      · obtain rfl := Except.ok.inj ht
        exact h.type hb
      · obtain ⟨ts, hts, ht⟩ := bind_eq_ok_iff.1 ht
        obtain rfl := Except.ok.inj ht
        exact (Ty.isOpen_applied_eq_false_iff n ts).2 (isOpen_resolveAll h as hts)
  | .function ps r span, t, ht => by
    unfold resolve at ht
    obtain ⟨ts, hts, ht⟩ := bind_eq_ok_iff.1 ht
    obtain ⟨u, hu, ht⟩ := bind_eq_ok_iff.1 ht
    obtain rfl := Except.ok.inj ht
    exact (Ty.isOpen_function_eq_false_iff ts u).2 ⟨isOpen_resolveAll h ps hts, isOpen_resolve h r hu⟩

/-- What annotations stand for in a closed scope is closed. -/
theorem isOpen_resolveAll (h : s.Closed) : ∀ (as : List Annotation) {ts : List Ty}, s.resolveAll as = .ok ts →
    ∀ t ∈ ts, t.isOpen = false
  | [], ts, hts => by
    obtain rfl := Except.ok.inj hts
    exact List.forall_mem_nil _
  | a :: as, ts, hts => by
    unfold resolveAll at hts
    obtain ⟨u, hu, hts⟩ := bind_eq_ok_iff.1 hts
    obtain ⟨us, hus, hts⟩ := bind_eq_ok_iff.1 hts
    obtain rfl := Except.ok.inj hts
    exact List.forall_mem_cons.2 ⟨isOpen_resolve h a hu, isOpen_resolveAll h as hus⟩

end

/-- A declaration that is well made has the parts it was made of. -/
theorem eq_of_make {n : String} {generics : Option (List GenericParameter)} {names : List String} {types : List Ty} {ret : Ty}
    {d : Declaration} (h : Outcome.ofInternal (Declaration.make n generics names types ret) = .ok d) :
    d = ⟨n, generics, names, types, ret⟩ := by
  rw [Outcome.ofInternal, mapError_eq_ok_iff, Declaration.make] at h
  split at h
  · exact (Except.ok.inj h).symm
  · cases h

/-- A signature in a closed scope is closed. -/
theorem closed_functionDeclaration (h : s.Closed) {n : String} {generics : List String} {params : List Param}
    {ret : Option Annotation} {o : Option Declaration} (ho : s.functionDeclaration n generics params ret = .ok o)
    {d : Declaration} (hd : o = some d) : d.Closed := by
  subst hd
  cases ret with
  | none => cases ho
  | some ret =>
    obtain ⟨types, ht, ho⟩ := bind_eq_ok_iff.1 ho
    obtain ⟨result, hr, ho⟩ := bind_eq_ok_iff.1 ho
    obtain ⟨e, he, ho⟩ := bind_eq_ok_iff.1 ho
    obtain rfl := Option.some.inj (Except.ok.inj ho)
    rw [eq_of_make he]
    refine ⟨?_, isOpen_resolveAll h _ ht, isOpen_resolve h ret hr⟩
    intro p hp
    simp only [Declaration.parameters] at hp
    split at hp
    · cases hp
    · obtain ⟨g, -, rfl⟩ := List.mem_map.1 hp
      rfl

/-- A method's signature in a closed scope is closed. -/
theorem closed_methodDeclaration (h : s.Closed) {receiver : Ty} (hreceiver : receiver.isOpen = false) {n : String}
    {params : List Param} {ret : Option Annotation} {o : Option Declaration}
    (ho : s.methodDeclaration receiver n params ret = .ok o) {d : Declaration} (hd : o = some d) : d.Closed := by
  subst hd
  cases ret with
  | none => cases ho
  | some ret =>
    obtain ⟨types, ht, ho⟩ := bind_eq_ok_iff.1 ho
    obtain ⟨result, hr, ho⟩ := bind_eq_ok_iff.1 ho
    obtain ⟨e, he, ho⟩ := bind_eq_ok_iff.1 ho
    obtain rfl := Option.some.inj (Except.ok.inj ho)
    rw [eq_of_make he]
    refine ⟨by simp [Declaration.parameters], ?_, isOpen_resolve h ret hr⟩
    exact List.forall_mem_cons.2 ⟨hreceiver, isOpen_resolveAll h _ ht⟩

/-- The fields of a record that is laid out in a closed scope have closed types. -/
theorem closed_recordLayout (h : s.Closed) {n : String} {fields : List Param} {r : RecordLayout}
    (hr : s.recordLayout n fields = .ok r) : ∀ m ∈ r.fields, m.2.isOpen = false := by
  obtain ⟨types, ht, hr⟩ := bind_eq_ok_iff.1 hr
  obtain rfl := Except.ok.inj hr
  intro m hm
  exact isOpen_resolveAll h _ ht m.2 (List.of_mem_zip hm).2

end Scope

/-! ## Records -/

section

variable {r : RecordLayout} (h : ∀ m ∈ r.fields, m.2.isOpen = false)
include h

/-- The constructor of a record with closed fields is closed. -/
theorem RecordLayout.closed_constructor : r.constructor.Closed := by
  refine ⟨by simp [RecordLayout.constructor, Declaration.parameters], fun t ht => ?_, rfl⟩
  obtain ⟨m, hm, rfl⟩ := List.mem_map.1 ht
  exact h m hm

/-- A field of a record with closed fields is closed. -/
theorem RecordLayout.isOpen_field (f : String) (t : Ty) (ht : r.field? f = some t) : t.isOpen = false := by
  obtain ⟨before, after, heq, -⟩ := List.lookup_eq_some_iff.1 ht
  refine h (f, t) ?_
  rw [heq]
  exact List.mem_append_right _ List.mem_cons_self

/-- The type, the constructor and the layout of a record with closed fields leave a scope closed. -/
theorem Scope.Closed.bindLayout {s : Scope} (hs : s.Closed) (n : String) :
    (((s.addType n (.simple n)).addFunction n (some r.constructor)).addRecord r).Closed := by
  refine ((hs.addType n rfl).addFunction n fun e he => ?_).addRecord (RecordLayout.isOpen_field h)
  exact Option.some.inj he ▸ RecordLayout.closed_constructor h

end

/-! ## The prelude -/

/-- What holds of a scope without bindings and is kept by each binding of the prelude holds of the prelude. -/
theorem Scope.prelude_induction {P : Scope → Prop} (hempty : P empty) (htype : ∀ s n, P s → P (s.addType n (.simple n)))
    (hrange : ∀ s, P s → P (s.addFunction rangeDeclaration.name (some rangeDeclaration)))
    (hfunction : ∀ s n, P s → P (s.addFunction n none)) : P prelude := by
  have htypes : ∀ (ns : List String) (s : Scope), P s → P (ns.foldl (fun s n => s.addType n (.simple n)) s) := by
    intro ns
    induction ns with
    | nil => exact fun s hs => hs
    | cons n ns ih => exact fun s hs => ih _ (htype s n hs)
  have hfunctions : ∀ (ns : List String) (s : Scope), P s → P (ns.foldl (fun s n => s.addFunction n none) s) := by
    intro ns
    induction ns with
    | nil => exact fun s hs => hs
    | cons n ns ih => exact fun s hs => ih _ (hfunction s n hs)
  exact hfunctions _ _ (hrange _ (htypes _ _ hempty))

/-- The scope with nothing in it is closed. -/
theorem Scope.closed_empty : empty.Closed := by
  intro l hl
  exact List.mem_singleton.1 hl ▸ Level.closed_empty

/-- The signature of the range function is closed. -/
theorem closed_rangeDeclaration : rangeDeclaration.Closed := ⟨by decide, by decide, by decide⟩

/-- The prelude is closed. -/
theorem Scope.closed_prelude : prelude.Closed := by
  refine prelude_induction closed_empty (fun s n hs => hs.addType n rfl) (fun s hs => ?_) fun s n hs => ?_
  · exact hs.addFunction _ fun d hd => Option.some.inj hd ▸ closed_rangeDeclaration
  · exact hs.addFunction n fun d hd => nomatch hd

end Gradual
