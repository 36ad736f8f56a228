import Gradual.Proofs.Check.Visited

/-!
# Declarations with a name for every type

Signatures, constructors and function types become declarations in several places, and each gives a declaration as many names as
types for its parameters. `Scope.declarations` lists all that the levels of a scope hold. Each step of a check binds paired
declarations only, so every scope of a check holds no others, and what is called in it is paired. A call is compared with a
declaration by position, after its arguments were counted: the positions that are looked up are those of arguments.
-/

namespace Gradual

namespace Declaration

/-- A declaration has as many names as types for its parameters. -/
def Paired (d : Declaration) : Prop := d.names.length = d.types.length

/-- An instance of a paired declaration is paired. -/
theorem Paired.instantiate {d : Declaration} (h : d.Paired) (site : String) : (d.instantiate site).Paired := by
  unfold Paired at *
  rw [instantiate_names, instantiate_types, List.length_map]
  exact h

/-- The declaration of a function type is paired. -/
theorem paired_ofFunctionType {n : String} {t : Ty} {d : Declaration} (h : ofFunctionType? n t = some d) : d.Paired := by
  cases t with
  | function ps r =>
    obtain rfl := Option.some.inj h
    simp [Paired, positionalNames]
  | _ => cases h

/-! ## Positions -/

variable {d : Declaration} {args : ArgTypes}

/-- A position of an instance is one of the arguments, if those have been counted. -/
theorem lt_of_mem_positionsOf (h : d.checkCount args = .ok ()) {site : String} {p : GenericParameter} {i : Nat}
    (hi : i ∈ (d.instantiate site).positionsOf p) : i < (d.instantiate site).types.length ∧ i < args.length := by
  obtain ⟨t, ht, -⟩ := (mem_positionsOf_iff _ p i).1 hi
  have hlt := (List.getElem?_eq_some_iff.1 ht).1
  have hcount := ite_eq_ok_iff.1 h
  refine ⟨hlt, ?_⟩
  rw [instantiate_types, List.length_map] at hlt
  rwa [← hcount]

/-- The positions of a generic parameter are positions of both types and arguments, once the arguments are counted. -/
theorem lt_of_mem_positions (h : d.checkCount args = .ok ()) {site : String} {p : GenericParameter} {is : List Nat}
    (hp : (p, is) ∈ (d.instantiate site).positions) {i : Nat} (hi : i ∈ is) :
    i < (d.instantiate site).types.length ∧ i < args.length := by
  obtain ⟨q, -, hq⟩ := List.mem_map.1 (List.mem_filter.1 hp).1
  obtain ⟨rfl, rfl⟩ := Prod.mk.inj hq
  exact lt_of_mem_positionsOf h hi

/-- A call with a wrong number of arguments goes no further than their count. -/
theorem miscounted (h : d.checkCount args ≠ .ok ()) :
    d.checkGenericCall args = .error (.argumentCount d.arity args.length) ∧
      d.resultType args = .error (.argumentCount d.arity args.length) := by
  have hcount : d.checkCount args = .error (.argumentCount d.arity args.length) := by
    unfold checkCount at *
    split
    · rename_i heq
      exact absurd (if_pos heq) h
    · rfl
  rw [checkGenericCall, resultType, hcount]
  exact ⟨rfl, rfl⟩

end Declaration

/-- The constructor of a record is paired. -/
theorem RecordLayout.paired_constructor (r : RecordLayout) : r.constructor.Paired := by
  simp [Declaration.Paired, constructor]

namespace Scope

variable {s r : Scope}

/-- The declarations that the levels of a scope hold, those with them that a nearer one hides. -/
def declarations (s : Scope) : List Declaration := s.levels.flatMap fun l => l.functions.filterMap (·.2)

/-- A scope holds paired declarations only. -/
def Paired (s : Scope) : Prop := ∀ d ∈ s.declarations, d.Paired

/-! ## Making declarations -/

/-- A declaration that is made has the names it is made with, one for every type. -/
theorem paired_of_make {n : String} {generics : Option (List GenericParameter)} {names : List String} {types : List Ty} {ret : Ty}
    {d : Declaration} (h : Outcome.ofInternal (Declaration.make n generics names types ret) = .ok d) :
    d.names = names ∧ d.Paired := by
  rw [Outcome.ofInternal, mapError_eq_ok_iff, Declaration.make] at h
  split at h
  · rename_i hlength
    obtain rfl := Except.ok.inj h
    exact ⟨rfl, hlength⟩
  · cases h

/-- A signature has the names of its parameters, one for every type. -/
theorem names_of_functionDeclaration {n : String} {generics : List String} {params : List Param} {ret : Option Annotation}
    {d : Declaration} (h : s.functionDeclaration n generics params ret = .ok (some d)) :
    d.names = params.map (·.name) ∧ d.Paired := by
  cases ret with
  | none => cases h
  | some ret =>
    obtain ⟨types, -, h⟩ := bind_eq_ok_iff.1 h
    obtain ⟨result, -, h⟩ := bind_eq_ok_iff.1 h
    obtain ⟨e, he, h⟩ := bind_eq_ok_iff.1 h
    obtain rfl := Option.some.inj (Except.ok.inj h)
    exact paired_of_make he

/-- A method's signature has the names of its parameters after that of the receiver, one for every type. -/
theorem names_of_methodDeclaration {receiver : Ty} {n : String} {params : List Param} {ret : Option Annotation} {d : Declaration}
    (h : s.methodDeclaration receiver n params ret = .ok (some d)) :
    d.names = "self" :: params.map (·.name) ∧ d.Paired := by
  cases ret with
  | none => cases h
  | some ret =>
    obtain ⟨types, -, h⟩ := bind_eq_ok_iff.1 h
    obtain ⟨result, -, h⟩ := bind_eq_ok_iff.1 h
    obtain ⟨e, he, h⟩ := bind_eq_ok_iff.1 h
    obtain rfl := Option.some.inj (Except.ok.inj h)
    exact paired_of_make he

/-! ## Binding -/

@[simp] theorem declarations_child : s.child.declarations = s.declarations := rfl

@[simp] theorem declarations_addFunction (n : String) (d : Option Declaration) :
    (s.addFunction n d).declarations = d.toList ++ s.declarations := by
  cases d <;> rfl

@[simp] theorem declarations_withGenerics (owner : String) (generics : List String) :
    (s.withGenerics owner generics).declarations = s.declarations := by
  unfold withGenerics
  rw [← declarations_child (s := s)]
  generalize s.child = s
  induction generics generalizing s with
  | nil => rfl
  | cons n ns ih => exact ih _

/-- A function with a paired signature keeps the declarations of a scope paired. -/
theorem Paired.addFunction (h : s.Paired) (n : String) {d : Option Declaration} (hd : ∀ e, d = some e → e.Paired) :
    (s.addFunction n d).Paired := by
  intro e he
  rw [declarations_addFunction, List.mem_append, Option.mem_toList] at he
  rcases he with he | he
  · exact hd e he
  · exact h e he

/-- A parameter keeps the declarations of a scope paired. -/
theorem Paired.addParameter (h : s.Paired) (n : String) (t : Ty) : (s.addParameter n t).Paired := by
  unfold Scope.addParameter
  split
  · rename_i d hd
    refine h.addFunction n fun e he => ?_
    obtain rfl := Option.some.inj he
    exact Declaration.paired_ofFunctionType hd
  · exact h

/-- A record keeps the declarations of a scope paired. -/
theorem Paired.bindRecord (h : s.Paired) (n : String) (layout : RecordLayout) :
    (((s.addType n (.simple n)).addFunction n (some layout.constructor)).addRecord layout).Paired := by
  refine Paired.addFunction h n fun e he => ?_
  exact Option.some.inj he ▸ layout.paired_constructor

/-- A step of a check binds paired declarations only. -/
theorem Step.paired (h : Step s r) (hs : s.Paired) : r.Paired := by
  cases h with
  | child => exact hs
  | generics owner generics =>
    unfold Paired
    rwa [declarations_withGenerics]
  | type n => exact hs
  | function hnew hd =>
    refine hs.addFunction _ fun e he => ?_
    subst he
    exact (names_of_functionDeclaration hd).2
  | method hnew hd =>
    refine hs.addFunction _ fun e he => ?_
    subst he
    exact (names_of_methodDeclaration hd).2
  | record hnew hl => exact hs.bindRecord _ _
  | receiver record => exact hs
  | parameter hnew ht => exact hs.addParameter _ _
  | annotated hnew ht => exact hs
  | value hnew ht => exact hs
  | untyped hnew => exact hs
  | element ht => exact hs

/-- What is called in a scope is one of its declarations, or a function type that was made one. -/
theorem Paired.callee (h : s.Paired) {n : String} {d : Declaration} (hd : s.callee? n = some (.typed d)) : d.Paired := by
  obtain ⟨v, hv, hd⟩ := Option.map_eq_some_iff.1 hd
  rcases v with ty | _ | e
  · dsimp only at hd
    split at hd
    · rename_i e he
      obtain rfl := Callee.typed.inj hd
      obtain ⟨t, -, he⟩ := Option.bind_eq_some_iff.1 he
      exact Declaration.paired_ofFunctionType he
    · cases hd
  · cases hd
  · obtain rfl := Callee.typed.inj hd
    obtain ⟨l, hl, hv⟩ := List.exists_of_findSome?_eq_some hv
    refine h e (List.mem_flatMap.2 ⟨l, hl, List.mem_filterMap.2 ⟨(n, some e), ?_, rfl⟩⟩)
    unfold Level.value? at hv
    split at hv
    · cases hv
    · obtain ⟨o, ho, hv⟩ := Option.map_eq_some_iff.1 hv
      obtain rfl := Value.function.inj hv
      obtain ⟨before, after, heq, -⟩ := List.lookup_eq_some_iff.1 ho
      rw [heq]
      exact List.mem_append_right _ List.mem_cons_self

/-! ## Typing -/

/-- Methods keep the declarations of a scope paired. -/
theorem Paired.declareMethods (h : s.Paired) {receiver : Ty} {ms : List Method} (hr : s.declareMethods receiver ms = .ok r) :
    r.Paired := by
  induction ms generalizing s with
  | nil => exact Except.ok.inj hr ▸ h
  | cons m ms ih =>
    obtain ⟨n, params, ret, body, span⟩ := m
    obtain ⟨d, hd, hr⟩ := bind_eq_ok_iff.1 hr
    refine ih (h.addFunction n fun e he => ?_) hr
    subst he
    exact (names_of_methodDeclaration hd).2

/-- Implementations keep the declarations of a scope paired. -/
theorem Paired.declareImplementations (h : s.Paired) {receiver : Ty} {is : List Implementation}
    (hr : s.declareImplementations receiver is = .ok r) : r.Paired := by
  induction is generalizing s with
  | nil => exact Except.ok.inj hr ▸ h
  | cons i is ih =>
    obtain ⟨protocol, methods, span⟩ := i
    obtain ⟨s₁, hs₁, hr⟩ := bind_eq_ok_iff.1 hr
    exact ih (h.declareMethods hs₁) hr

/-- A statement keeps the declarations of a scope paired. -/
theorem Paired.declare (h : s.Paired) {st : Stmt} (hr : s.declare st = .ok r) : r.Paired := by
  cases st with
  | function n generics params ret body span =>
    obtain ⟨d, hd, hr⟩ := bind_eq_ok_iff.1 hr
    obtain rfl := Except.ok.inj hr
    refine h.addFunction n fun e he => ?_
    subst he
    exact (names_of_functionDeclaration hd).2
  | record n fields implementations span =>
    obtain ⟨layout, hl, hr⟩ := bind_eq_ok_iff.1 hr
    exact (h.bindRecord n layout).declareImplementations hr
  | define n ty value span =>
    cases ty with
    | none =>
      obtain ⟨t, -, hr⟩ := bind_eq_ok_iff.1 hr
      exact Except.ok.inj hr ▸ h
    | some a =>
      obtain ⟨t, -, hr⟩ := bind_eq_ok_iff.1 hr
      exact Except.ok.inj hr ▸ h
  | expr e => exact Except.ok.inj hr ▸ h

/-- Bindings keep the declarations of a scope paired. -/
theorem Paired.bindAll (h : s.Paired) {bs : List Binding} (hr : s.bindAll bs = .ok r) : r.Paired := by
  induction bs generalizing s with
  | nil => exact Except.ok.inj hr ▸ h
  | cons b bs ih =>
    obtain ⟨n, value, span⟩ := b
    obtain ⟨t, -, hr⟩ := bind_eq_ok_iff.1 hr
    exact ih (s := s.addVariable n t) h hr

/-- The parameters of a lambda keep the declarations of a scope paired. -/
theorem Paired.lambdaScope {inner : Scope} (h : inner.Paired) {ps : List LambdaParam} {ts : List Ty}
    (hr : s.lambdaScope inner ps = .ok (some (ts, r))) : r.Paired := by
  induction ps generalizing inner ts with
  | nil =>
    obtain ⟨-, rfl⟩ := Prod.mk.inj (Option.some.inj (Except.ok.inj hr))
    exact h
  | cons p ps ih =>
    rw [Scope.lambdaScope] at hr
    cases hp : p.ty with
    | none =>
      rw [hp] at hr
      cases hr
    | some a =>
      rw [hp] at hr
      obtain ⟨t, -, hr⟩ := bind_eq_ok_iff.1 hr
      obtain ⟨_ | ⟨us, r'⟩, hus, hr⟩ := bind_eq_ok_iff.1 hr
      · cases hr
      · obtain ⟨-, rfl⟩ := Prod.mk.inj (Option.some.inj (Except.ok.inj hr))
        exact ih (h.addParameter p.name t) hus

/-- The declarations of the prelude are paired. -/
theorem paired_prelude : prelude.Paired := by
  refine prelude_induction ?_ (fun s n hs => hs) (fun s hs => ?_) fun s n hs => ?_
  · intro d hd
    cases hd
  · exact hs.addFunction _ fun d hd => Option.some.inj hd ▸ rfl
  · exact hs

end Scope

/-- The scopes that the check of a program works in hold paired declarations only. -/
theorem Program.paired_of_visited {p : Program} {s : Scope} (h : s ∈ p.visited) : s.Paired :=
  (Program.steps_of_visited h).keeps (fun _ _ hstep => hstep.paired) Scope.paired_prelude

end Gradual
