import Gradual.Proofs.Check.Closed
import Gradual.Proofs.Check.Validity
import Gradual.Proofs.Scope.Forget

/-!
# Reading a scope that knows less

What checking and typing ask of a scope, and what they bind in it, in two scopes of which the second knows less: names, fields and
arguments have types that are known less, and parameters are bound alike. The unknowns in the type of an argument have the site of
that argument (`site_of_argTypes`), so those of two arguments are never taken for one.
-/

namespace Gradual.Scope

/-- Types that are like each other are the same record, or none. -/
theorem record?_of_like (s : Scope) {a b : Ty} (h : Ty.Like a b) : s.record? a = s.record? b := by
  cases a with
  | simple n => rw [h.eq_simple]
  | _ =>
    cases b with
    | simple n =>
      have := h.symm.eq_simple
      cases this
    | _ => rfl

namespace Vaguer

variable {σ ν ν' : String → String} {y : String} {s s' : Scope} {Γ : Names}

/-! ## What is asked of a scope -/

/-- The type of a name is known less. -/
theorem nameType (h : s.Vaguer σ ν ν' y s') (n : String) (span : Span) :
    Follows (VaguerAs σ) (s.nameType n span) (s'.nameType n span) := by
  have hv := h.value? n
  have hclosed := h.closed.value (n := n)
  unfold Scope.nameType
  generalize s.value? n = v at hv hclosed ⊢
  generalize s'.value? n = v' at hv ⊢
  cases hv with
  | none => exact .error _ _
  | some hv =>
    cases hv with
    | ofVariable ht => exact .ok ht
    | @ofFunction d d' hd =>
      cases d' with
      | none => cases d <;> exact .ok (.unknown σ _)
      | some e' =>
        obtain ⟨e, rfl, he⟩ := hd.exists_merged
        refine .ok ?_
        rw [he.renamed.isGeneric_eq]
        cases hg : e.isGeneric with
        | true => exact .unknown σ _
        | false =>
          have heq := he.renamed.eq_rename (hclosed.2 e rfl) hg fun p _ => rfl
          rw [heq, Declaration.functionType_rename]
          exact .relabel σ (some e.functionType)

/-- The type of a member is known less. -/
theorem memberType (h : s.Vaguer σ ν ν' y s') {t t' : Option Ty} (ht : VaguerAs σ t t') (field : String) (span : Span) :
    Follows (VaguerAs σ) (s.memberType t field span) (s'.memberType t' field span) := by
  cases t' with
  | none => exact fun m _ => ⟨none, rfl, .unknown σ m⟩
  | some b =>
    obtain ⟨a, rfl, hl⟩ := ht.exists_like
    unfold Scope.memberType
    rw [Option.bind_some, Option.bind_some, ← record?_of_like s' hl]
    rcases h.record? a with hr | hr <;> rw [hr]
    · exact fun m _ => ⟨none, rfl, .unknown σ m⟩
    · cases s.record? a with
      | none => exact .ok (.unknown σ none)
      | some r =>
        have hfield : (r.relabel σ).field? field = (r.field? field).map (Ty.relabel σ) := lookup_map_snd _ _ _
        simp only [Option.map_some, hfield]
        cases r.field? field with
        | none => exact .error _ _
        | some u => exact .ok (.relabel σ (some u))

end Vaguer

/-- What is passed where a generic function is named as an argument. -/
theorem passedSignature?_eq_some_iff {s : Scope} {d : Declaration} {i : Nat} {e : Expr} {t : Ty} :
    s.passedSignature? d i e = some t ↔ ∃ n span passed, e = .name n span ∧
      (d.isGeneric && d.types[i]?.any Ty.isFunction) = true ∧ s.value? n = some (.function (some passed)) ∧
      passed.isGeneric = true ∧ (passed.instantiate (argumentSite i)).functionType = t := by
  constructor
  · intro h
    unfold passedSignature? at h
    split at h
    · rename_i n span
      split at h
      · rename_i hd
        split at h
        · rename_i passed hv
          split at h
          · rename_i hp
            exact ⟨n, span, passed, rfl, hd, hv, hp, Option.some.inj h⟩
          · cases h
        · cases h
      · cases h
    · cases h
  · rintro ⟨n, span, passed, rfl, hd, hv, hp, rfl⟩
    simp only [passedSignature?, hd, hv, hp, if_true]

namespace Vaguer

variable {σ ν ν' : String → String} {y : String} {s s' : Scope} {Γ : Names}

/-- A function that is declared keeps its parameters apart, and it is known by name only in the scope that knows less, or declared
there with parameters merged. -/
theorem function_or_unknown (h : s.Vaguer σ ν ν' y s') {n : String} {d : Declaration}
    (hd : s.value? n = some (.function (some d))) :
    d.KeptApart σ ∧ (s'.value? n = some (.function none) ∨ ∃ d', s'.value? n = some (.function (some d')) ∧ d.Merged σ d') := by
  have hv := h.value? n
  rw [hd] at hv
  generalize s'.value? n = v' at hv ⊢
  cases hv with
  | some hv =>
    cases hv with
    | @ofFunction _ d' hd =>
      refine ⟨hd.apart d rfl, ?_⟩
      cases d' with
      | none => exact Or.inl rfl
      | some e' =>
        obtain ⟨e, he, hm⟩ := hd.exists_merged
        obtain rfl := Option.some.inj he
        exact Or.inr ⟨e', rfl, hm⟩

/-- A function that is declared in the scope that knows less is declared in the other. -/
theorem function_of_known (h : s.Vaguer σ ν ν' y s') {n : String} {d' : Declaration}
    (hd : s'.value? n = some (.function (some d'))) : ∃ d, s.value? n = some (.function (some d)) ∧ d.Merged σ d' := by
  have hv := h.value? n
  rw [hd] at hv
  generalize s.value? n = v at hv ⊢
  cases hv with
  | some hv =>
    cases hv with
    | ofFunction hd =>
      obtain ⟨d, rfl, hm⟩ := hd.exists_merged
      exact ⟨d, rfl, hm⟩

/-! ## Arguments -/

/-- The type of an expression that is passed is known less, as it mentions no unknowns. -/
theorem mergedArgument_of_closed {t t' : Option Ty} (ht : VaguerAs σ t t') (hclosed : ∀ a, t = some a → a.isOpen = false) :
    Declaration.MergedArgument σ t t' := by
  refine ⟨Equiv.refl String, id, (VaguerAs.iff_of_closed _ hclosed).1 ht, fun a ha ho => ?_⟩
  exact absurd ((hclosed a ha).symm.trans ho) Bool.false_ne_true

/-- The signature of a generic function that is passed is known less where it is not passed so. -/
theorem mergedArgument_of_passed {passed : Declaration} (hp : passed.KeptApart σ) (hg : passed.isGeneric = true) (site : String) :
    Declaration.MergedArgument σ (some (passed.instantiate site).functionType) none := by
  obtain ⟨μ, hμ⟩ := hp.exists_restored hg
  refine ⟨Equiv.refl String, μ, Gradual.Vaguer.unknown _, fun a ha _ p hc hs => ?_⟩
  obtain rfl := Option.some.inj ha
  exact hμ site p hc hs

/-- The signature of a generic function that is passed is the same with parameters merged. -/
theorem mergedArgument_of_merged {passed passed' : Declaration} (hp : passed.Merged σ passed') (hg : passed.isGeneric = true)
    (site : String) : Declaration.MergedArgument σ (some (passed.instantiate site).functionType)
      (some (passed'.instantiate site).functionType) := by
  obtain ⟨k, hk⟩ := hp.renamed
  obtain ⟨μ, hμ⟩ := hp.apart.exists_restored hg
  refine ⟨k, μ, Gradual.Vaguer.known ?_, fun a ha _ p hc hs => ?_⟩
  · rw [hk site, Declaration.functionType_rename]
    exact .refl _
  · obtain rfl := Option.some.inj ha
    exact hμ site p hc hs

/-- The type of an argument is known less, be it a generic function that is passed or an expression whose type is. -/
theorem argType (h : s.Vaguer σ ν ν' y s') {d d' : Declaration}
    (hd : d.Renamed σ d' ∨ d.isGeneric = false ∧ d'.isGeneric = false) (i : Nat) {e : Expr}
    (he : Follows (VaguerAs σ) (s.typeOf (e.rename ν)) (s'.typeOf (e.rename ν'))) :
    Follows (Declaration.MergedArgument σ) (s.argType d i (e.rename ν) (s.typeOf (e.rename ν)))
      (s'.argType d' i (e.rename ν') (s'.typeOf (e.rename ν'))) := by
  have hexpects : (d'.isGeneric && d'.types[i]?.any Ty.isFunction) = (d.isGeneric && d.types[i]?.any Ty.isFunction) := by
    rcases hd with hd | ⟨hd, hd'⟩
    · rw [hd.isGeneric_eq, hd.any_isFunction_eq]
    · rw [hd, hd', Bool.false_and, Bool.false_and]
  unfold Scope.argType
  cases hp' : s'.passedSignature? d' i (e.rename ν') with
  | some t' =>
    obtain ⟨n, span, passed', hn, hg, hv, hpg, rfl⟩ := passedSignature?_eq_some_iff.1 hp'
    obtain rfl := Expr.eq_name_of_rename hn
    obtain ⟨passed, hv', hm⟩ := h.function_of_known hv
    have hpg' := hm.renamed.isGeneric_eq.symm.trans hpg
    have hpassed := (passedSignature?_eq_some_iff (e := (Expr.name n span).rename ν)).2
      ⟨n, span, passed, by rw [Expr.rename], hexpects ▸ hg, hv', hpg', rfl⟩
    rw [hpassed]
    exact .ok (mergedArgument_of_merged hm hpg' _)
  | none =>
    cases hp : s.passedSignature? d i (e.rename ν) with
    | none =>
      intro t ht
      obtain ⟨t', ht', hv⟩ := he t ht
      exact ⟨t', ht', mergedArgument_of_closed hv fun a ha => isOpen_typeOf h.closed (ha ▸ ht)⟩
    | some t =>
      obtain ⟨n, span, passed, hn, hg, hv, hpg, rfl⟩ := passedSignature?_eq_some_iff.1 hp
      obtain rfl := Expr.eq_name_of_rename hn
      obtain ⟨hapart, hv' | ⟨passed', hv', hm⟩⟩ := h.function_or_unknown hv
      · have hunknown : s'.typeOf ((Expr.name n span).rename ν') = .ok none := by
          simp only [Expr.rename, typeOf, Scope.nameType, hv']
        rw [hunknown]
        exact .ok (mergedArgument_of_passed hapart hpg _)
      · have hpg' := hm.renamed.isGeneric_eq.trans hpg
        have hpassed := (passedSignature?_eq_some_iff (e := (Expr.name n span).rename ν')).2
          ⟨n, span, passed', by rw [Expr.rename], hexpects ▸ hg, hv', hpg', rfl⟩
        rw [hpassed] at hp'
        cases hp'

/-- The types of arguments are known less. -/
theorem argTypes (h : s.Vaguer σ ν ν' y s') {d d' : Declaration}
    (hd : d.Renamed σ d' ∨ d.isGeneric = false ∧ d'.isGeneric = false) (i : Nat) {es : List Expr}
    (hes : ∀ e ∈ es, Follows (VaguerAs σ) (s.typeOf (e.rename ν)) (s'.typeOf (e.rename ν'))) :
    Follows (List.Forall₂ (Declaration.MergedArgument σ)) (s.argTypes d i (renameExprs ν es))
      (s'.argTypes d' i (renameExprs ν' es)) := by
  induction es generalizing i with
  | nil => exact .ok .nil
  | cons e es ih =>
    rw [List.forall_mem_cons] at hes
    refine (h.argType hd i hes.1).bind fun t t' _ ht => ?_
    exact (ih (i + 1) hes.2).bind fun ts ts' _ hts => .ok (.cons ht hts)

end Vaguer

/-- The unknowns in the type of an argument have the site of that argument. -/
theorem site_of_argType {s : Scope} (h : s.Closed) {d : Declaration} {i : Nat} {e : Expr} {a : Ty}
    (ha : s.argType d i e (s.typeOf e) = .ok (some a)) {q : GenericParameter} (hq : a.contains (.parameter q) = true)
    (hu : q.isUnknown = true) : q.site = some (argumentSite i) := by
  unfold argType at ha
  split at ha
  · rename_i t hp
    obtain rfl := Option.some.inj (Except.ok.inj ha)
    obtain ⟨n, span, passed, -, -, hv, -, rfl⟩ := passedSignature?_eq_some_iff.1 hp
    have hclosed := (h.value.2 passed hv).functionType
    rw [Declaration.functionType_instantiate] at hq
    obtain ⟨o, -, -, rfl⟩ := Declaration.unknown_of_instance hclosed hq hu
    rfl
  · have := (Ty.isOpen_eq_false_iff a).1 (isOpen_typeOf h ha) q hq
    rw [this] at hu
    cases hu

/-- The unknowns in the type of an argument have the site of that argument. -/
theorem site_of_argTypes {s : Scope} (h : s.Closed) {d : Declaration} {i : Nat} {es : List Expr} {ts : ArgTypes}
    (hts : s.argTypes d i es = .ok ts) {j : Nat} {a : Ty} (ha : ts[j]? = some (some a)) {q : GenericParameter}
    (hq : a.contains (.parameter q) = true) (hu : q.isUnknown = true) : q.site = some (argumentSite (i + j)) := by
  induction es generalizing i ts j with
  | nil =>
    obtain rfl := Except.ok.inj hts
    cases ha
  | cons e es ih =>
    obtain ⟨t, ht, hts⟩ := bind_eq_ok_iff.1 hts
    obtain ⟨us, hus, hts⟩ := bind_eq_ok_iff.1 hts
    obtain rfl := Except.ok.inj hts
    cases j with
    | zero =>
      obtain rfl := Option.some.inj ha
      exact site_of_argType h ht hq hu
    | succ j =>
      have := ih hus ha
      rwa [Nat.add_right_comm] at this

/-- The arguments of a call of a plain declaration mention no unknowns. -/
theorem isOpen_argTypes_of_plain {s : Scope} (h : s.Closed) {d : Declaration} (hg : d.isGeneric = false) {i : Nat}
    {es : List Expr} {ts : ArgTypes} (hts : s.argTypes d i es = .ok ts) : ∀ t, some t ∈ ts → t.isOpen = false := by
  induction es generalizing i ts with
  | nil =>
    obtain rfl := Except.ok.inj hts
    exact fun t ht => nomatch ht
  | cons e es ih =>
    obtain ⟨u, hu, hts⟩ := bind_eq_ok_iff.1 hts
    obtain ⟨us, hus, hts⟩ := bind_eq_ok_iff.1 hts
    obtain rfl := Except.ok.inj hts
    intro t ht
    rcases List.mem_cons.1 ht with rfl | ht
    · have hnone : s.passedSignature? d i e = none := by
        cases hp : s.passedSignature? d i e with
        | none => rfl
        | some a =>
          obtain ⟨-, -, -, -, hd, -⟩ := passedSignature?_eq_some_iff.1 hp
          simp [hg] at hd
      rw [argType, hnone] at hu
      exact isOpen_typeOf h hu
    · exact ih hus t ht

/-! ## Binding names -/

namespace Vaguer

variable {σ ν ν' : String → String} {y : String} {s s' : Scope} {Γ : Names}

/-- A variable is new in both scopes, or in neither. -/
theorem ensureNewVariable_eq (h : s.Vaguer σ ν ν' y s') (n : String) (span : Span) :
    s.ensureNewVariable n span = s'.ensureNewVariable n span := by
  rw [ensureNewVariable, ensureNewVariable, h.level.hasValue_eq]

/-- A function is new in both scopes, or in neither. -/
theorem ensureNewFunction_eq (h : s.Vaguer σ ν ν' y s') (n : String) (span : Span) :
    s.ensureNewFunction n span = s'.ensureNewFunction n span := by
  rw [ensureNewFunction, ensureNewFunction, h.level.hasValue_eq]

/-- A record is new in both scopes, or in neither. -/
theorem ensureNewRecord_eq (h : s.Vaguer σ ν ν' y s') (n : String) (span : Span) :
    s.ensureNewRecord n span = s'.ensureNewRecord n span := by
  rw [ensureNewRecord, ensureNewRecord, h.level.types, h.ensureNewFunction_eq]

/-- Parameters are declared in both scopes, or in neither. -/
theorem declareParams (h : s.Vaguer σ ν ν' y s') {ps : List Param}
    (hq : ∀ q ∈ Γ.placesOfParams ps, q.part.Fits ν y ∧ q.part.Fits ν' y) :
    Agree (Scope.Vaguer σ ν ν' y) (s.declareParams (ps.map (Param.rename ν))) (s'.declareParams (ps.map (Param.rename ν'))) := by
  induction ps generalizing s s' with
  | nil => exact .ok h
  | cons p ps ih =>
    rw [Names.placesOfParams, List.map_cons, Names.placesOfTypes, List.forall_mem_append] at hq
    rw [List.map_cons, List.map_cons, Scope.declareParams, Scope.declareParams]
    change Agree _ (s.ensureNewVariable p.name p.span >>= _) (s'.ensureNewVariable p.name p.span >>= _)
    rw [h.ensureNewVariable_eq]
    refine Agree.bind_left _ fun _ _ => ?_
    refine (h.resolve hq.1).bind fun t t' ht htt => ?_
    subst htt
    exact ih (h.addParameter p.name (isOpen_resolve h.closed _ ht)) hq.2

/-- The parameters of a lambda are declared in both scopes, or in neither. -/
theorem declareLambdaParams (h : s.Vaguer σ ν ν' y s') {ps : List LambdaParam}
    (hq : ∀ q ∈ Γ.placesOfTypes (ps.filterMap (·.ty)), q.part.Fits ν y ∧ q.part.Fits ν' y) :
    Agree (Scope.Vaguer σ ν ν' y) (s.declareLambdaParams (ps.map (LambdaParam.rename ν)))
      (s'.declareLambdaParams (ps.map (LambdaParam.rename ν'))) := by
  induction ps generalizing s s' with
  | nil => exact .ok h
  | cons p ps ih =>
    obtain ⟨n, ty, span⟩ := p
    rw [List.map_cons, List.map_cons, Scope.declareLambdaParams, Scope.declareLambdaParams]
    change Agree _ (s.ensureNewVariable n span >>= _) (s'.ensureNewVariable n span >>= _)
    rw [h.ensureNewVariable_eq]
    refine Agree.bind_left _ fun _ _ => ?_
    cases ty with
    | none => exact ih (h.addVariable n (.unknown σ none) (by rintro a ⟨⟩)) hq
    | some a =>
      simp only [List.filterMap_cons, Names.placesOfTypes, List.forall_mem_append] at hq
      refine (h.resolve hq.1).bind fun t t' ht htt => ?_
      subst htt
      exact ih (h.addParameter n (isOpen_resolve h.closed _ ht)) hq.2

/-- Loop variables are declared in both scopes, or in neither. -/
theorem declareLoopVars (h : s.Vaguer σ ν ν' y s') {t t' : Option Ty} (ht : VaguerAs σ t t')
    (hto : ∀ a, t = some a → a.isOpen = false) (vs : List LocalName) :
    Agree (Scope.Vaguer σ ν ν' y) (s.declareLoopVars t vs) (s'.declareLoopVars t' vs) := by
  induction vs generalizing s s' with
  | nil => exact .ok h
  | cons v vs ih =>
    rw [Scope.declareLoopVars, Scope.declareLoopVars, h.ensureNewVariable_eq]
    exact Agree.bind_left _ fun _ _ => ih (h.addVariable v.name ht hto)

/-- The parameters of a lambda have the same types, but for names, and the scope that binds them knows less. -/
theorem lambdaScope (h : s.Vaguer σ ν ν' y s') {inner inner' : Scope} (hi : inner.Vaguer σ ν ν' y inner') {ps : List LambdaParam}
    (hq : ∀ q ∈ Γ.placesOfTypes (ps.filterMap (·.ty)), q.part.Fits ν y ∧ q.part.Fits ν' y) :
    Agree (Option.Rel fun m m' => m'.1 = m.1.map (Ty.relabel σ) ∧ m.2.Vaguer σ ν ν' y m'.2)
      (s.lambdaScope inner (ps.map (LambdaParam.rename ν))) (s'.lambdaScope inner' (ps.map (LambdaParam.rename ν'))) := by
  induction ps generalizing inner inner' with
  | nil => exact .ok (.some ⟨rfl, hi⟩)
  | cons p ps ih =>
    obtain ⟨n, ty, span⟩ := p
    cases ty with
    | none => exact .ok .none
    | some a =>
      simp only [List.filterMap_cons, Names.placesOfTypes, List.forall_mem_append] at hq
      refine (h.resolve hq.1).bind fun t t' ht htt => ?_
      subst htt
      refine (ih (hi.addParameter n (isOpen_resolve h.closed _ ht)) hq.2).bind fun m m' _ hm => ?_
      cases hm with
      | none => exact .ok .none
      | some hm => exact .ok (.some ⟨by rw [hm.1]; rfl, hm.2⟩)

end Vaguer

end Gradual.Scope
