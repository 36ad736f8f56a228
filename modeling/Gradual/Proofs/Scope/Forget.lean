import Gradual.Proofs.Call.Merge
import Gradual.Proofs.Scope.Annotations
import Gradual.Proofs.Scope.Lookup

/-!
# Scopes that know less

A scope may forget the types of variables and the declarations of functions, and keep their names: `Scope.Forgets`. Checking a
program in such a scope binds variables of which less is known, so what goes on is `Scope.Vaguer`: the types of variables are
known up to owners. Less is known, too, where two generic parameters have one name that had two, so the relation has names in it:
`σ` takes those of the first scope to those of the second, and where a tree names a type `n`, the first is asked for `ν n` and the
second for `ν' n`. Names are bound in both scopes or in neither, types and records are the same up to the names of generic
parameters, and what a name stands for is known less. Binding the same on both sides keeps that.
-/

namespace Gradual

/-- The second is the first, or unknown. -/
def SameOrUnknown {α : Type} (a b : Option α) : Prop := b = a ∨ b = none

/-- Two levels bind the same names, types and records; what the variables of the second are known to be is related to what those
of the first are, and its functions are the same or known by name only. -/
structure Level.Forgets (R : Option Ty → Option Ty → Prop) (l l' : Level) : Prop where
  vars : ∀ n, Option.Rel R (l.vars.lookup n) (l'.vars.lookup n)
  functions : ∀ n, Option.Rel SameOrUnknown (l.functions.lookup n) (l'.functions.lookup n)
  types : ∀ n, l.types.lookup n = l'.types.lookup n
  records : ∀ n, l.records.lookup n = l'.records.lookup n

/-- What is known of a function is less: nothing but its name, or its declaration under the names that `σ` gives. -/
structure Declaration.VaguerAs (σ : String → String) (d d' : Option Declaration) : Prop where
  apart : ∀ e, d = some e → e.KeptApart σ
  renamed : ∀ e', d' = some e' → ∃ e, d = some e ∧ e.Renamed σ e'

/-- What a value is known to be in a scope that knows less. -/
inductive Value.Vaguer (σ : String → String) : Value → Value → Prop
  | ofVariable {t t' : Option Ty} (h : VaguerAs σ t t') : Vaguer σ (.variable t) (.variable t')
  | ofFunction {d d' : Option Declaration} (h : Declaration.VaguerAs σ d d') : Vaguer σ (.function d) (.function d')

/-- What can be called is known less: by name only, with parameters merged, or as a function type known up to owners. -/
inductive Callee.Vaguer (σ : String → String) : Callee → Callee → Prop
  | untyped (c : Callee) : Vaguer σ c .untyped
  | generic {d d' : Declaration} (hg : d.isGeneric = true) (h : d.Merged σ d') : Vaguer σ (.typed d) (.typed d')
  | plain {d d' : Declaration} (h : d.isGeneric = false) (h' : d'.isGeneric = false) (hn : d.names = d'.names)
      (ht : d.types.map (fun t => (t.relabel σ).eraseOwners) = d'.types.map Ty.eraseOwners)
      (hr : Ty.Like (d.ret.relabel σ) d'.ret) : Vaguer σ (.typed d) (.typed d')

/-- A function that keeps its declaration where no names change, or is known by name only, is known less. -/
theorem SameOrUnknown.vaguerAs {d d' : Option Declaration} (h : SameOrUnknown d d') : Declaration.VaguerAs id d d' := by
  refine ⟨fun e _ => e.keptApart_id, ?_⟩
  rintro e' rfl
  rcases h with h | h
  · exact ⟨e', h.symm, e'.renamed_refl⟩
  · cases h

namespace Declaration.VaguerAs

variable {σ : String → String} {d d' : Option Declaration}

/-- A declaration that is known is that which was known, with parameters merged. -/
theorem exists_merged {e' : Declaration} (h : VaguerAs σ d (some e')) : ∃ e, d = some e ∧ e.Merged σ e' := by
  obtain ⟨e, rfl, he⟩ := h.renamed e' rfl
  exact ⟨e, rfl, he, h.apart e rfl⟩

/-- Of a declaration with parameters merged less is known. -/
theorem of_merged (h : Option.Rel (Declaration.Merged σ) d d') : VaguerAs σ d d' := by
  cases h with
  | none => exact ⟨fun _ he => (nomatch he), fun _ he => nomatch he⟩
  | @some e e' h =>
    refine ⟨fun f hf => Option.some.inj hf ▸ h.apart, fun f hf => ⟨e, rfl, ?_⟩⟩
    exact Option.some.inj hf ▸ h.renamed

end Declaration.VaguerAs

/-- A declaration that may be unknown is itself where no names change. -/
theorem Declaration.rel_merged_refl (d : Option Declaration) : Option.Rel (Merged id) d d := by
  cases d with
  | none => exact .none
  | some d => exact .some d.merged_refl

/-! ## Levels -/

/-- Two levels bind the same names, and what is known of the variables and functions of the second is known of those of
the first. -/
structure Level.Vaguer (σ : String → String) (l l' : Level) : Prop where
  vars : ∀ n, Option.Rel (VaguerAs σ) (l.vars.lookup n) (l'.vars.lookup n)
  functions : ∀ n, Option.Rel (Declaration.VaguerAs σ) (l.functions.lookup n) (l'.functions.lookup n)
  types : ∀ n, l'.hasType n = l.hasType n

namespace Level.Forgets

variable {l l' : Level}

/-- A level that forgets keeps the names of types. -/
theorem hasType_eq {R : Option Ty → Option Ty → Prop} (h : Level.Forgets R l l') (n : String) : l.hasType n = l'.hasType n := by
  rw [Level.hasType, Level.hasType, h.types n]

/-- A level keeps its look-ups closed when it forgets. -/
theorem closed (h : Level.Forgets SameOrUnknown l l') (hl : l.Closed) : l'.Closed := by
  refine ⟨?_, ?_, ?_, ?_⟩
  · intro n t ht
    have hv := h.vars n
    rw [ht] at hv
    generalize hx : l.vars.lookup n = x at hv
    cases hv with
    | some hv =>
      rcases hv with rfl | hv
      · exact hl.vars n t hx
      · cases hv
  · intro n d hd
    have hf := h.functions n
    rw [hd] at hf
    generalize hx : l.functions.lookup n = x at hf
    cases hf with
    | some hf =>
      rcases hf with rfl | hf
      · exact hl.functions n d hx
      · cases hf
  · intro n t ht
    exact hl.types n t ((h.types n).trans ht)
  · intro n r hr
    exact hl.records n r ((h.records n).trans hr)

/-- A level that forgets knows less. -/
theorem vaguer (h : Level.Forgets SameOrUnknown l l') : Level.Vaguer id l l' := by
  refine ⟨fun n => ?_, fun n => ?_, fun n => (h.hasType_eq n).symm⟩
  · have hv := h.vars n
    generalize l.vars.lookup n = x at hv ⊢
    generalize l'.vars.lookup n = y at hv ⊢
    cases hv with
    | none => exact .none
    | some hv =>
      rcases hv with rfl | rfl
      · exact .some (VaguerAs.id_iff.2 (.refl _))
      · exact .some (.unknown _ _)
  · have hf := h.functions n
    generalize l.functions.lookup n = x at hf ⊢
    generalize l'.functions.lookup n = y at hf ⊢
    cases hf with
    | none => exact .none
    | some hf => exact .some hf.vaguerAs

end Level.Forgets

namespace Level.Vaguer

variable {σ : String → String} {l l' : Level}

/-- Of an empty level nothing is known. -/
theorem empty (σ : String → String) : Level.Vaguer σ .empty .empty := ⟨fun _ => .none, fun _ => .none, fun _ => rfl⟩

/-- A level that knows less has values of the same names. -/
theorem hasValue_eq (h : Level.Vaguer σ l l') (n : String) : l'.hasValue n = l.hasValue n := by
  have hv : l.hasVariable n = l'.hasVariable n := rel_isSome (h.vars n)
  have hf : l.hasFunction n = l'.hasFunction n := rel_isSome (h.functions n)
  rw [Level.hasValue, Level.hasValue, hv, hf]

/-- What a level binds a name to is known less. -/
theorem value? (h : Level.Vaguer σ l l') (n : String) : Option.Rel (Value.Vaguer σ) (l.value? n) (l'.value? n) := by
  have hv := h.vars n
  have hf := h.functions n
  unfold Level.value?
  generalize l.vars.lookup n = x at hv ⊢
  generalize l'.vars.lookup n = x' at hv ⊢
  generalize l.functions.lookup n = y at hf ⊢
  generalize l'.functions.lookup n = y' at hf ⊢
  cases hv with
  | some hv => exact .some (.ofVariable hv)
  | none =>
    cases hf with
    | some hf => exact .some (.ofFunction hf)
    | none => exact .none

end Level.Vaguer

namespace Scope

/-! ## Types -/

section TypesKept

variable {σ ν ν' : String → String} {y : String} {s s' : Scope} {Γ : Names}

/-- The types of two scopes are the same and no names change, or they are the same up to names. -/
def TypesKept (σ ν ν' : String → String) (y : String) (s s' : Scope) : Prop :=
  (σ = id ∧ ν = ν' ∧ ∀ n, s.type? n = s'.type? n) ∨ TypesMatch σ ν ν' y s s'

namespace TypesKept

/-- Only the types of the scopes count. -/
theorem congr {t t' : Scope} (ht : TypesKept σ ν ν' y s s') (hs : ∀ n, t.type? n = s.type? n)
    (hs' : ∀ n, t'.type? n = s'.type? n) : TypesKept σ ν ν' y t t' := by
  rcases ht with ⟨hσ, hν, ht⟩ | ht
  · exact Or.inl ⟨hσ, hν, fun n => by rw [hs, hs', ht]⟩
  · refine Or.inr fun n hn => ?_
    rw [hs, hs']
    exact ht n hn

/-- An annotation stands for one type in the two scopes, but for the names in it. -/
theorem resolve (ht : TypesKept σ ν ν' y s s') {a : Annotation}
    (hq : ∀ q ∈ Γ.placesOfType a, q.part.Fits ν y ∧ q.part.Fits ν' y) :
    Agree (fun t t' => t' = t.relabel σ) (s.resolve (a.rename ν)) (s'.resolve (a.rename ν')) := by
  rcases ht with ⟨rfl, rfl, ht⟩ | ht
  · rw [resolve_congr ht]
    exact (Agree.refl_eq _).mono fun t t' _ htt => by rw [← htt, Ty.relabel_id]
  · exact agree_resolve ht a hq

/-- A method has one signature in the two scopes, but for names. -/
theorem methodDeclaration (ht : TypesKept σ ν ν' y s s') (hs : s.Closed) (receiver n : String) {params : List Param}
    {ret : Option Annotation} (hp : ∀ q ∈ Γ.placesOfParams params, q.part.Fits ν y ∧ q.part.Fits ν' y)
    (hr : ∀ q ∈ Γ.placesOfType? ret, q.part.Fits ν y ∧ q.part.Fits ν' y) :
    Agree (Option.Rel (Declaration.Merged σ))
      (s.methodDeclaration (.simple receiver) n (params.map (Param.rename ν)) (ret.map (·.rename ν)))
      (s'.methodDeclaration (.simple receiver) n (params.map (Param.rename ν')) (ret.map (·.rename ν'))) := by
  rcases ht with ⟨rfl, rfl, ht⟩ | ht
  · rw [methodDeclaration_congr ht]
    refine (Agree.refl_eq _).mono fun d d' _ hdd => ?_
    subst hdd
    exact Declaration.rel_merged_refl d
  · refine (agree_methodDeclaration hs ht receiver n hp hr).mono fun d d' _ hdd => ?_
    cases hdd with
    | none => exact .none
    | some hdd => exact .some ⟨hdd.1, Declaration.keptApart_of_plain hdd.2 σ⟩

/-- A record has one layout in the two scopes, but for names. -/
theorem recordLayout (ht : TypesKept σ ν ν' y s s') (n : String) {fields : List Param}
    (hq : ∀ q ∈ Γ.placesOfParams fields, q.part.Fits ν y ∧ q.part.Fits ν' y) :
    Agree (fun r r' => r' = r.relabel σ) (s.recordLayout n (fields.map (Param.rename ν)))
      (s'.recordLayout n (fields.map (Param.rename ν'))) := by
  rcases ht with ⟨rfl, rfl, ht⟩ | ht
  · rw [recordLayout_congr ht]
    exact (Agree.refl_eq _).mono fun r r' _ hrr => by rw [← hrr, RecordLayout.relabel_id]
  · exact agree_recordLayout ht n hq

/-- The name of a record stands for the record in both scopes. -/
theorem addType (ht : TypesKept σ ν ν' y s s') (hν : ∀ m, ν m = m ∨ ν m = y) (hν' : ∀ m, ν' m = m ∨ ν' m = y) {n : String}
    (hn : n ≠ y) : TypesKept σ (keeping ν [n]) (keeping ν' [n]) y (s.addType n (.simple n)) (s'.addType n (.simple n)) := by
  rcases ht with ⟨rfl, rfl, ht⟩ | ht
  · refine Or.inl ⟨rfl, rfl, fun m => ?_⟩
    rw [type?_addType, type?_addType, ht m]
  · exact Or.inr (ht.addType hν hν' hn)

section Generics

variable {k k' : Equiv.Perm String} {generics : List String} (ht : TypesKept σ ν ν' y s s') (hk : Rebinds ν y k generics)
  (hk' : Rebinds ν' y k' generics) (hσ : ∀ n ∈ generics, σ (k n) = k' n)

include ht hk hk' hσ

/-- The types inside a function whose generic parameters have the names that `k` gives them in the first scope, and those that
`k'` gives them in the second. -/
theorem withGenerics (owner : String) :
    TypesKept σ (binding ν k generics) (binding ν' k' generics) y (s.withGenerics owner (generics.map k))
      (s'.withGenerics owner (generics.map k')) := by
  rcases ht with ⟨rfl, rfl, ht⟩ | ht
  · have hmap : generics.map k = generics.map k' := List.map_congr_left hσ
    refine Or.inl ⟨rfl, binding_congr hσ, fun n => ?_⟩
    rw [hmap, type?_withGenerics, type?_withGenerics, ht n]
  · exact Or.inr (ht.withGenerics hk hk' hσ (fun _ _ _ => rfl) owner)

/-- A function has one signature in the two scopes, but for names. No two parameters from around it become one in the signature,
since each is what a name in it stands for: they are told apart by `σ`, or by these names. -/
theorem functionDeclaration (ha : Function.Injective σ ∨ ν' = id) (n : String) {params : List Param} {ret : Option Annotation}
    (hp : ∀ q ∈ Γ.placesOfParams params, q.part.Fits (binding ν k generics) y ∧ q.part.Fits (binding ν' k' generics) y)
    (hr : ∀ q ∈ Γ.placesOfType? ret, q.part.Fits (binding ν k generics) y ∧ q.part.Fits (binding ν' k' generics) y) :
    Agree (Option.Rel (Declaration.Merged σ))
      ((s.withGenerics n (generics.map k)).functionDeclaration n (generics.map k)
        (params.map (Param.rename (binding ν k generics))) (ret.map (·.rename (binding ν k generics))))
      ((s'.withGenerics n (generics.map k')).functionDeclaration n (generics.map k')
        (params.map (Param.rename (binding ν' k' generics))) (ret.map (·.rename (binding ν' k' generics)))) := by
  rcases ht with ⟨rfl, rfl, ht⟩ | ht
  · have hmap : generics.map k = generics.map k' := List.map_congr_left hσ
    have htypes : ∀ m, (s.withGenerics n (generics.map k')).type? m = (s'.withGenerics n (generics.map k')).type? m := by
      intro m
      rw [type?_withGenerics, type?_withGenerics, ht m]
    rw [binding_congr hσ, hmap, functionDeclaration_congr htypes]
    refine (Agree.refl_eq _).mono fun d d' _ hdd => ?_
    subst hdd
    exact Declaration.rel_merged_refl d
  · refine (agree_functionDeclaration ht hk hk' n hp hr).mono fun d d' _ hdd => ?_
    cases hdd with
    | none => exact .none
    | some hdd =>
      refine .some ⟨hdd.1, ?_⟩
      rcases ha with hinj | rfl
      · exact Declaration.keptApart_of_injective hinj _
      · refine fun _ => ⟨ν, fun p hp ho _ => ?_⟩
        obtain ⟨m, hname, hm⟩ := hdd.2 p hp ho
        rw [hm, hname, id]

end Generics

end TypesKept

end TypesKept

/-! ## Scopes -/

/-- The second scope is the first with types of variables and declarations of functions forgotten. -/
def Forgets (s s' : Scope) : Prop := List.Forall₂ (Level.Forgets SameOrUnknown) s.levels s'.levels

/-- Two closed scopes of which the second knows less: `σ` takes the names of generic parameters in the first to those in the
second. Types stand under the names that `ν` gives them in the first and `ν'` in the second, of which `y` is the only new one. -/
structure Vaguer (σ ν ν' : String → String) (y : String) (s s' : Scope) : Prop where
  closed : s.Closed
  closed' : s'.Closed
  level : Level.Vaguer σ s.level s'.level
  value : ∀ n, Option.Rel (Value.Vaguer σ) (s.outer.findSome? (·.value? n)) (s'.outer.findSome? (·.value? n))
  type : TypesKept σ ν ν' y s s'
  record : ∀ n, s'.recordNamed? n = none ∨ s'.recordNamed? n = (s.recordNamed? n).map (RecordLayout.relabel σ)
  names : ∀ n, ν n = n ∨ ν n = y
  names' : ∀ n, ν' n = n ∨ ν' n = y
  apart : Function.Injective σ ∨ ν' = id

/-- A closed scope that forgets is closed and knows less, under the same names. -/
theorem Forgets.vaguer {s s' : Scope} (h : s.Forgets s') (hs : s.Closed) (y : String) : s.Vaguer id id id y s' := by
  obtain ⟨l, o⟩ := s
  obtain ⟨l', o'⟩ := s'
  have hclosed : ∀ {ls ls' : List Level}, List.Forall₂ (Level.Forgets SameOrUnknown) ls ls' → (∀ l ∈ ls, l.Closed) →
      ∀ l ∈ ls', l.Closed := by
    intro ls ls' hf
    induction hf with
    | nil => exact fun h => h
    | cons hl _ ih =>
      intro hc
      rw [List.forall_mem_cons] at hc ⊢
      exact ⟨hl.closed hc.1, ih hc.2⟩
  have htypes : ∀ n, (⟨l, o⟩ : Scope).type? n = (⟨l', o'⟩ : Scope).type? n := by
    intro n
    refine eq_of_rel_eq (rel_findSome? h fun l l' hl => ?_)
    rw [hl.types n]
    cases l'.types.lookup n with
    | none => exact .none
    | some t => exact .some rfl
  have hrecords : ∀ {ls ls' : List Level}, List.Forall₂ (Level.Forgets SameOrUnknown) ls ls' → ∀ n,
      (ls.find? (·.hasType n)).bind (·.records.lookup n) = (ls'.find? (·.hasType n)).bind (·.records.lookup n) := by
    intro ls ls' hf n
    induction hf with
    | nil => rfl
    | @cons l l' ls ls' hl _ ih =>
      rw [List.find?_cons, List.find?_cons, hl.hasType_eq]
      cases l'.hasType n with
      | false => exact ih
      | true => exact hl.records n
  have hrelabel : RecordLayout.relabel id = id := funext RecordLayout.relabel_id
  have hrecord : ∀ n, (⟨l', o'⟩ : Scope).recordNamed? n = ((⟨l, o⟩ : Scope).recordNamed? n).map (RecordLayout.relabel id) := by
    intro n
    rw [hrelabel, Option.map_id]
    exact (hrecords h n).symm
  cases h with
  | cons hl ho =>
    refine ⟨hs, hclosed (.cons hl ho) hs, hl.vaguer, fun n => ?_, Or.inl ⟨rfl, rfl, htypes⟩, fun n => Or.inr (hrecord n),
      fun _ => Or.inl rfl, fun _ => Or.inl rfl, Or.inr rfl⟩
    exact rel_findSome? ho fun _ _ hl => hl.vaguer.value? n

namespace Vaguer

variable {σ ν ν' : String → String} {y : String} {s s' : Scope} {Γ : Names}

/-! ### Look-ups -/

/-- What a name stands for is known less in a vaguer scope. -/
theorem value? (h : s.Vaguer σ ν ν' y s') (n : String) : Option.Rel (Value.Vaguer σ) (s.value? n) (s'.value? n) := by
  have hl := h.level.value? n
  rw [value?_eq, value?_eq]
  generalize s.level.value? n = x at hl ⊢
  generalize s'.level.value? n = x' at hl ⊢
  cases hl with
  | some hv => exact .some hv
  | none => exact h.value n

/-- A record of a vaguer scope is one of the scope, but for names. -/
theorem record? (h : s.Vaguer σ ν ν' y s') (t : Ty) :
    s'.record? (t.relabel σ) = none ∨ s'.record? (t.relabel σ) = (s.record? t).map (RecordLayout.relabel σ) := by
  cases t with
  | simple n => exact h.record n
  | _ => simp [Scope.record?]

/-- What can be called is known less. -/
theorem callee? (h : s.Vaguer σ ν ν' y s') (n : String) : Option.Rel (Callee.Vaguer σ) (s.callee? n) (s'.callee? n) := by
  have hv := h.value? n
  have hclosed := h.closed.value (n := n)
  unfold Scope.callee?
  generalize s.value? n = v at hv hclosed ⊢
  generalize s'.value? n = v' at hv ⊢
  cases hv with
  | none => exact .none
  | some hv =>
    refine .some ?_
    cases hv with
    | @ofFunction d d' hd =>
      cases d' with
      | none => exact .untyped _
      | some e' =>
        obtain ⟨e, rfl, he⟩ := hd.exists_merged
        cases hg : e.isGeneric with
        | true => exact .generic hg he
        | false =>
          have heq := he.renamed.eq_rename (hclosed.2 e rfl) hg fun p _ => rfl
          subst heq
          refine .plain hg (he.renamed.isGeneric_eq.trans hg) rfl ?_ (.refl _)
          simp [Declaration.rename, Function.comp_def]
    | @ofVariable t t' ht =>
      cases t' with
      | none => exact .untyped _
      | some b =>
        obtain ⟨a, rfl, hl⟩ := ht.exists_like
        cases b with
        | function qs r' =>
          obtain ⟨ps', r₁, ha, hps, hr⟩ := hl.symm.eq_function
          cases a with
          | function ps r =>
            rw [Ty.relabel, Ty.rename_function, Ty.function.injEq] at ha
            obtain ⟨rfl, rfl⟩ := ha
            refine .plain rfl rfl ?_ ?_ hr.symm
            · have hlen : ps.length = qs.length := by simpa using (congrArg List.length hps).symm
              simp only [hlen]
            · simpa [Function.comp_def] using hps.symm
          | _ => simp at ha
        | _ => exact .untyped _

/-- An annotation stands for one type in the two scopes, but for the names in it. -/
theorem resolve (h : s.Vaguer σ ν ν' y s') {a : Annotation}
    (hq : ∀ q ∈ Γ.placesOfType a, q.part.Fits ν y ∧ q.part.Fits ν' y) :
    Agree (fun t t' => t' = t.relabel σ) (s.resolve (a.rename ν)) (s'.resolve (a.rename ν')) :=
  h.type.resolve hq

/-! ### Bindings -/

/-- Empty levels keep a scope vaguer. -/
theorem child (h : s.Vaguer σ ν ν' y s') : s.child.Vaguer σ ν ν' y s'.child :=
  ⟨h.closed.child, h.closed'.child, .empty σ, h.value?, h.type, h.record, h.names, h.names', h.apart⟩

/-- A variable of which less is known keeps a scope vaguer. -/
theorem addVariable (h : s.Vaguer σ ν ν' y s') (n : String) {t t' : Option Ty} (hv : VaguerAs σ t t')
    (ht : ∀ a, t = some a → a.isOpen = false) : (s.addVariable n t).Vaguer σ ν ν' y (s'.addVariable n t') := by
  refine ⟨h.closed.addVariable n ht, h.closed'.addVariable n (hv.isOpen ht), ⟨fun m => ?_, h.level.functions, h.level.types⟩,
    h.value, h.type, fun m => ?_, h.names, h.names', h.apart⟩
  · dsimp only [Scope.addVariable]
    rw [lookup_cons_ite, lookup_cons_ite]
    split
    · exact .some hv
    · exact h.level.vars m
  · rw [recordNamed?_addVariable, recordNamed?_addVariable]
    exact h.record m

/-- A function of which less is known keeps a scope vaguer. -/
theorem addFunction (h : s.Vaguer σ ν ν' y s') (n : String) {d d' : Option Declaration} (hd : Declaration.VaguerAs σ d d')
    (hc : ∀ e, d = some e → e.Closed) (hc' : ∀ e, d' = some e → e.Closed) :
    (s.addFunction n d).Vaguer σ ν ν' y (s'.addFunction n d') := by
  refine ⟨h.closed.addFunction n hc, h.closed'.addFunction n hc', ⟨h.level.vars, fun m => ?_, h.level.types⟩, h.value, h.type,
    fun m => ?_, h.names, h.names', h.apart⟩
  · dsimp only [Scope.addFunction]
    rw [lookup_cons_ite, lookup_cons_ite]
    split
    · exact .some hd
    · exact h.level.functions m
  · rw [recordNamed?_addFunction, recordNamed?_addFunction]
    exact h.record m

/-- A parameter of one type in both scopes, but for names, keeps a scope vaguer. -/
theorem addParameter (h : s.Vaguer σ ν ν' y s') (n : String) {t : Ty} (ht : t.isOpen = false) :
    (s.addParameter n t).Vaguer σ ν ν' y (s'.addParameter n (t.relabel σ)) := by
  have ht' : (t.relabel σ).isOpen = false := (Ty.isOpen_rename (GenericParameter.isUnknown_renameName σ) t).trans ht
  have hmade := Declaration.ofFunctionType?_rename (.renameName σ) n t
  unfold Scope.addParameter
  rw [hmade]
  cases hd : Declaration.ofFunctionType? n t with
  | none =>
    refine h.addVariable n (.relabel σ (some t)) fun u hu => ?_
    exact Option.some.inj hu ▸ ht
  | some d =>
    rw [hd, Option.map_some] at hmade
    have hplain : d.isGeneric = false := by rw [Declaration.isGeneric, Declaration.generics_ofFunctionType hd, Option.isSome_none]
    have hmerged : d.Merged σ (d.rename (.renameName σ)) :=
      ⟨Declaration.renamed_ofFunctionType σ ht hd, Declaration.keptApart_of_plain hplain σ⟩
    refine h.addFunction n (.of_merged (.some hmerged)) (fun e he => ?_) fun e he => ?_
    · exact Option.some.inj he ▸ Declaration.closed_ofFunctionType ht hd
    · exact Option.some.inj he ▸ Declaration.closed_ofFunctionType ht' hmade

/-- A record is bound in both scopes: its type, its constructor and its layout. -/
theorem bindRecord (h : s.Vaguer σ ν ν' y s') {n : String} (hn : n ≠ y) {layout : RecordLayout} (hname : layout.name = n)
    (hl : ∀ m ∈ layout.fields, m.2.isOpen = false) :
    (((s.addType n (.simple n)).addFunction n (some layout.constructor)).addRecord layout).Vaguer σ
      (keeping ν [n]) (keeping ν' [n]) y
      (((s'.addType n (.simple n)).addFunction n (some (layout.relabel σ).constructor)).addRecord (layout.relabel σ)) := by
  subst hname
  have hname : (layout.relabel σ).name = layout.name := rfl
  have hl' : ∀ m ∈ (layout.relabel σ).fields, m.2.isOpen = false := by
    rw [RecordLayout.relabel, List.forall_mem_map]
    exact fun m hm => (Ty.isOpen_rename (GenericParameter.isUnknown_renameName σ) m.2).trans (hl m hm)
  have hconstructor : Declaration.Merged σ layout.constructor (layout.relabel σ).constructor :=
    ⟨RecordLayout.renamed_constructor σ hl, Declaration.keptApart_of_plain rfl σ⟩
  refine ⟨h.closed.bindLayout hl layout.name, h.closed'.bindLayout hl' layout.name,
    ⟨h.level.vars, fun m => ?_, fun m => ?_⟩, h.value, ?_, fun m => ?_, names_keeping h.names _,
    names_keeping h.names' _, h.apart.imp_right fun hid => by rw [hid, keeping_id]⟩
  · dsimp only [Scope.addRecord, Scope.addFunction, Scope.addType]
    rw [lookup_cons_ite, lookup_cons_ite]
    split
    · exact .some (.of_merged (.some hconstructor))
    · exact h.level.functions m
  · rw [Bool.eq_iff_iff, hasType_bindRecord rfl, hasType_bindRecord hname, h.level.types]
  · exact (h.type.addType h.names h.names' hn).congr (type?_bindRecord rfl) (type?_bindRecord hname)
  · rw [recordNamed?_bindRecord rfl, recordNamed?_bindRecord hname]
    split
    · exact Or.inr rfl
    · exact h.record m

/-- The generic parameters of a function are bound in both scopes, under the names that `k` and `k'` give them, where no record
stands under a name that only the first binds. -/
theorem inFunction (h : s.Vaguer σ ν ν' y s') {k k' : Equiv.Perm String} {generics : List String} (hk : Rebinds ν y k generics)
    (hk' : Rebinds ν' y k' generics) (hσ : ∀ n ∈ generics, σ (k n) = k' n)
    (ha : Function.Injective σ ∨ binding ν' k' generics = id) (owner : String)
    (hr : ∀ n ∈ generics.map k, n ∈ generics.map k' ∨ s.recordNamed? n = none) :
    (s.withGenerics owner (generics.map k)).child.Vaguer σ (binding ν k generics) (binding ν' k' generics) y
      (s'.withGenerics owner (generics.map k')).child := by
  refine ⟨(h.closed.withGenerics owner _).child, (h.closed'.withGenerics owner _).child, .empty σ, fun n => ?_,
    h.type.withGenerics hk hk' hσ owner, fun n => ?_, hk.names_binding h.names, hk'.names_binding h.names', ha⟩
  · have hv := h.value? n
    rw [← s.value?_withGenerics owner (generics.map k), ← s'.value?_withGenerics owner (generics.map k')] at hv
    exact hv
  · change (s'.withGenerics owner (generics.map k')).recordNamed? n = none ∨
      (s'.withGenerics owner (generics.map k')).recordNamed? n = ((s.withGenerics owner (generics.map k)).recordNamed? n).map _
    rw [recordNamed?_withGenerics, recordNamed?_withGenerics]
    by_cases hn' : n ∈ generics.map k'
    · exact Or.inl (if_pos hn')
    · rw [if_neg hn']
      refine (h.record n).imp_right fun hrecord => ?_
      by_cases hn : n ∈ generics.map k
      · rw [hrecord, (hr n hn).resolve_left hn', if_pos hn]
      · rw [hrecord, if_neg hn]

end Vaguer

end Scope

end Gradual
