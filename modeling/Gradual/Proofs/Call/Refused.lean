import Mathlib
import Gradual.Proofs.Call.Principal

/-!
# Why a call of a generic declaration is refused

An error of the check names a culprit (`checkGenericCall_blames`): a parameter whose argument fits under no types for the generic
parameters and unknowns, a generic parameter that arguments bind to incompatible types, or the arguments as a whole when no types
satisfy the call. The check works on the declaration instantiated for the call, and its errors show it in one place: the expected
type of a shape that does not match, where that part of the declared type mentions a generic parameter of the declaration, is told
in unknowns of the call (`isOpen_error_iff`).
-/

namespace Gradual

namespace Declaration

variable {d : Declaration} {args : ArgTypes}

/-! ## From the instance back to the declaration -/

/-- An instance has generic parameters where the declaration has them. -/
theorem parameter?_unknownOf (site : String) (p : GenericParameter) :
    ((Ty.parameter p).substitute (d.unknownOf? site)).parameter? ≠ none := by
  unfold Ty.substitute unknownOf?
  split <;> simp [Ty.parameter?]

/-- Only a generic parameter of the declaration becomes its unknown. -/
theorem eq_parameter_of_unknown {site : String} {p : GenericParameter} (hp : p.isUnknown = false) {z : Ty} (hz : z.isOpen = false)
    (h : z.substitute (d.unknownOf? site) = .parameter (p.unknownAt site)) : z = .parameter p := by
  cases z with
  | parameter q =>
    have hq : q.isUnknown = false := hz
    unfold Ty.substitute unknownOf? at h
    split at h
    · have hqp : q.unknownAt site = p.unknownAt site := Ty.parameter.inj h
      rw [← GenericParameter.origin_unknownAt hq site, hqp, GenericParameter.origin_unknownAt hp site]
    · rw [Ty.parameter.inj h] at hq
      cases hq
  | _ => cases h

/-- An argument that is passed to a parameter of the instance is passed to that parameter of the declaration. -/
theorem exists_position_of_passed {site : String} {p : Passed} (hp : p ∈ (d.instantiate site).passed args) :
    ∃ (i : Nat) (u : Ty), d.names[i]? = some p.parameter ∧ d.types[i]? = some u ∧ args[i]? = some (some p.argument) ∧
      p.declared = u.substitute (d.unknownOf? site) := by
  obtain ⟨i, hn, ht, ha⟩ := (mem_passed_iff _ args p).1 hp
  rw [instantiate_names] at hn
  obtain ⟨u, hu, hup⟩ := exists_of_instance_types ht
  exact ⟨i, u, hn, hu, ha, hup⟩

/-- What an argument without unknowns of the call binds an unknown of the call to met the generic parameter behind it. -/
theorem meets_of_binds (hd : d.Closed)
    (hsite : ∀ a, some a ∈ args → ∀ p, a.contains (.parameter p) = true → p.site ≠ some callSite) {p : GenericParameter}
    (hp : p ∈ d.parameters) {t : Ty} (h : (d.instantiate callSite).Binds args (p.unknownAt callSite) t) :
    ∃ (i : Nat) (u a : Ty), d.types[i]? = some u ∧ args[i]? = some (some a) ∧ Ty.Meets u a (.parameter p) t := by
  obtain ⟨i, _, a, hv, ha, -, hc⟩ := h
  obtain ⟨u, hu, rfl⟩ := exists_of_instance_types hv
  obtain ⟨x, y, hm, ⟨rfl, rfl⟩ | ⟨rfl, rfl⟩⟩ := (Ty.mem_constraints_iff _ _ _).1 hc
  · obtain ⟨z, hz, hx⟩ := hm.of_substitute (parameter?_unknownOf callSite)
    have hzo : z.isOpen = false := Ty.isOpen_eq_false_of_contains (hd.types u (List.mem_of_getElem? hu)) hz.contains.1
    obtain rfl := eq_parameter_of_unknown (hd.parameters p hp) hzo hx.symm
    exact ⟨i, u, a, hu, ha, hz⟩
  · exact absurd rfl (hsite a (List.mem_of_getElem? ha) _ hm.contains.2)

/-! ## Culprits -/

/-- What an error of the check of a call says of the declaration and the arguments. An error about a parameter: some parameter of
that name has an argument that implements its type under no types for the declaration's generic parameters and the argument's
unknowns. An error about a generic parameter: the declaration has it, and each of the types, among which two are not compatible
and none stands twice, met it in some argument. An error about all arguments: it tells them, and no types satisfy the call. -/
def Blames (d : Declaration) (args : ArgTypes) : CallError → Prop
  | .parameterType n _ _ | .notFunction n _ _ =>
    ∃ (i : Nat) (u a : Ty), d.names[i]? = some n ∧ d.types[i]? = some u ∧ args[i]? = some (some a) ∧
      ∀ s t : GenericParameter → Ty, (a.substitute (assignUnknowns t)).implements (u.substitute (d.assignOwn s)) = false
  | .inconsistent p ts =>
    p ∈ d.parameters ∧ p.isUnknown = false ∧ ts.Nodup ∧ (∃ t ∈ ts, ∃ u ∈ ts, t.isCompatibleWith u = false) ∧
      ∀ t ∈ ts, ∃ (i : Nat) (u a : Ty), d.types[i]? = some u ∧ args[i]? = some (some a) ∧ Ty.Meets u a (.parameter p) t
  | .unsolved ts =>
    ts = args ∧ ¬∃ s t : GenericParameter → Ty, ∀ (i : Nat) (u a : Ty), d.types[i]? = some u → args[i]? = some (some a) →
      (a.substitute (assignUnknowns t)).implements (u.substitute (d.assignOwn s)) = true
  | .argumentCount _ _ | .noCommonType _ => False

/-- An argument that no substitution makes equal, up to owners, to its parameter's type in the instance implements the declared
type under no types. -/
theorem implements_eq_false_of_passed (hd : d.Closed)
    (hsite : ∀ a, some a ∈ args → ∀ p, a.contains (.parameter p) = true → p.site ≠ some callSite) {p : Passed}
    (hp : p ∈ (d.instantiate callSite).passed args)
    (hne : ∀ g : GenericParameter → Option Ty, (∀ q, q.isUnknown = false → g q = some (.parameter (.declared q.name ""))) →
      p.declared.substitute g ≠ p.argument.substitute g) :
    ∃ (i : Nat) (u a : Ty), d.names[i]? = some p.parameter ∧ d.types[i]? = some u ∧ args[i]? = some (some a) ∧
      ∀ s t : GenericParameter → Ty, (a.substitute (assignUnknowns t)).implements (u.substitute (d.assignOwn s)) = false := by
  obtain ⟨i, u, hn, hu, ha, hdecl⟩ := exists_position_of_passed hp
  refine ⟨i, u, p.argument, hn, hu, ha, fun s t => Bool.eq_false_iff.2 fun h => ?_⟩
  refine hne _ (upToOwners_assignCall s t) ?_
  rw [hdecl]
  exact instance_eq_of_implements hd (hd.types u (List.mem_of_getElem? hu)) (hsite _ (List.mem_of_getElem? ha)) h

/-- A call of a generic declaration with as many arguments as there are parameters is refused for a reason that the error names,
where the unknowns in the arguments are those of generic functions that are passed. -/
theorem checkGenericCall_blames {d : Declaration} {args : ArgTypes} {e : CallError} (hd : d.Closed) (hlen : args.length = d.arity)
    (hsite : ∀ a, some a ∈ args → ∀ p, a.contains (.parameter p) = true → p.isUnknown = true →
      ∃ j, p.site = some (Scope.argumentSite j))
    (h : d.checkGenericCall args = .error e) : d.Blames args e := by
  have hcall := site_ne_callSite hsite
  rcases checkGenericCall_error h with ⟨hn, -⟩ | ⟨e', he', rfl⟩
  · exact absurd hlen.symm hn
  rcases checkInstance_error he' with ⟨p, hp, hs, hf, rfl⟩ | ⟨p, hp, -, hm⟩ | ⟨q, hq, ts, rfl, hnodup, hts, hbad⟩ | rfl
  · refine implements_eq_false_of_passed hd hcall hp fun g hg heq => ?_
    rw [fits_of_substitute_eq hg hs heq] at hf
    cases hf
  · have hculprit := implements_eq_false_of_passed hd hcall hp fun g hg heq => by
      rw [matchShape_of_passed hg heq] at hm
      cases hm
    obtain ⟨x, y, -, -, rfl | rfl⟩ := Ty.exists_meets_of_matchShape_error hm
    · exact hculprit
    · exact hculprit
  · rw [instantiate_parameters, List.mem_map] at hq
    obtain ⟨p, hp, rfl⟩ := hq
    rw [declaredError, GenericParameter.origin_unknownAt (hd.parameters p hp)]
    obtain ⟨t, ht, u, hu, htu⟩ := hbad
    refine ⟨hp, hd.parameters p hp, hnodup, ⟨t, ht, u, hu, ?_⟩, fun t ht => meets_of_binds hd hcall hp ((hts t).1 ht).1⟩
    rw [← Bool.not_eq_true, Ty.isCompatibleWith_iff]
    exact htu
  · refine ⟨rfl, ?_⟩
    rintro ⟨s, t, hst⟩
    rw [checkGenericCall_ok_of_solution hd hlen hcall hst] at h
    cases h

/-- `<T> both(x: T, f: (T) -> String) -> T`. -/
def bothSignature : Declaration :=
  ⟨"both", some [.declared "T" "both"], ["x", "f"],
    [.parameter (.declared "T" "both"), .function [.parameter (.declared "T" "both")] .string], .parameter (.declared "T" "both")⟩

/-- A number, and a generic function from a type to itself passed as the second argument. -/
def numberAndSame : ArgTypes :=
  [some .number, some (.function [.parameter ⟨"T", "same", some "arg1"⟩] (.parameter ⟨"T", "same", some "arg1"⟩))]

/-- No types satisfy the call of `both` with a number and a function from a type to itself, and the error tells the arguments. A
function from texts to texts does not go with a vector of numbers in a call of `map`, and the error tells `T` and the
two types. -/
theorem both_same_blames :
    (bothSignature.checkGenericCall numberAndSame = .error (.unsolved numberAndSame) ∧
      bothSignature.Blames numberAndSame (.unsolved numberAndSame)) ∧
    mapSignature.checkGenericCall [some (.applied "Vector" [.number]), some (.function [.string] .string)] =
        .error (.inconsistent (.declared "T" "map") [.number, .string]) ∧
      mapSignature.Blames [some (.applied "Vector" [.number]), some (.function [.string] .string)]
        (.inconsistent (.declared "T" "map") [.number, .string]) := by
  constructor
  · have hplain : (bothSignature.instantiate callSite).checkPlain numberAndSame = .ok () := by cbv
    have hshapes : (bothSignature.instantiate callSite).checkShapes numberAndSame = .ok () := by cbv
    have hbindings : (bothSignature.instantiate callSite).checkBindings numberAndSame = .ok () := by cbv
    have hcons :
        (Partition.ofConstraints ((bothSignature.instantiate callSite).constraints numberAndSame)).isConsistent = false := by
      cbv
    have herr : bothSignature.checkGenericCall numberAndSame = .error (.unsolved numberAndSame) := by
      simp only [checkGenericCall, checkInstance, hplain, hshapes, hbindings, checkConsistency, hcons]
      rfl
    refine ⟨herr, checkGenericCall_blames ⟨by decide, by decide, by decide⟩ rfl ?_ herr⟩
    intro a ha p hp hu
    refine ⟨1, ?_⟩
    rcases List.mem_cons.1 ha with ha | ha
    · obtain rfl := Option.some.inj ha
      simp [Ty.contains, Ty.number] at hp
    · obtain rfl := Option.some.inj (List.mem_singleton.1 ha)
      obtain rfl : (⟨"T", "same", some "arg1"⟩ : GenericParameter) = p := by simpa [Ty.contains] using hp
      rfl
  · have hclosed : ∀ a, some a ∈ ([some (.applied "Vector" [.number]), some (.function [.string] .string)] : ArgTypes) →
        a.isOpen = false := by simp; decide
    have herr : mapSignature.checkGenericCall [some (.applied "Vector" [.number]), some (.function [.string] .string)] =
        .error (.inconsistent (.declared "T" "map") [.number, .string]) := by cbv
    refine ⟨herr, checkGenericCall_blames ⟨by decide, by decide, by decide⟩ rfl (fun a ha p hp hu => ?_) herr⟩
    rw [(Ty.isOpen_eq_false_iff a).1 (hclosed a ha) p hp] at hu
    cases hu

end Declaration

/-! ## What errors mention -/

namespace CallError

/-- The types that an error tells, a generic parameter among them as a type. -/
def types : CallError → List Ty
  | .argumentCount _ _ => []
  | .parameterType _ expected actual | .notFunction _ expected actual => [expected, actual]
  | .inconsistent p ts => .parameter p :: ts
  | .unsolved args => args.filterMap id
  | .noCommonType ts => ts

/-- Whether an error mentions an unknown. -/
def isOpen (e : CallError) : Bool := e.types.any Ty.isOpen

/-- An error is closed when all types that it shows are. -/
theorem isOpen_eq_false_iff (e : CallError) : e.isOpen = false ↔ ∀ t ∈ e.types, t.isOpen = false := by
  simp [isOpen]

end CallError

namespace Declaration

variable {d : Declaration} {args : ArgTypes} {e : CallError}

/-- A part of a declared type, in the instance, mentions an unknown exactly when it mentions a generic parameter of the
declaration. -/
theorem isOpen_unknownOf_iff (site : String) {x : Ty} (hx : x.isOpen = false) :
    (x.substitute (d.unknownOf? site)).isOpen = true ↔ ∃ p ∈ d.parameters, x.contains (.parameter p) = true := by
  constructor
  · intro h
    obtain ⟨q, hq, hu⟩ := (Ty.isOpen_iff _).1 h
    obtain ⟨p, hp, hxp, -⟩ := unknown_of_instance hx hq hu
    exact ⟨p, hp, hxp⟩
  · rintro ⟨p, hp, hxp⟩
    refine (Ty.isOpen_iff _).2 ⟨p.unknownAt site, ?_, rfl⟩
    have hc := Ty.contains_substitute_of_contains hxp (d.unknownOf? site)
    simpa [Ty.substitute, unknownOf?, (d.owns_iff p).2 hp] using hc

/-- An error tells an expected type in unknowns of the call: it is a part of the declared type of the parameter that the error
names, is no generic parameter but mentions one of the declaration, and met the actual type in the argument. -/
def ExpectsUnknowns (d : Declaration) (args : ArgTypes) (e : CallError) : Prop :=
  ∃ (i : Nat) (n : String) (u a x y : Ty), d.names[i]? = some n ∧ d.types[i]? = some u ∧ args[i]? = some (some a) ∧
    Ty.Meets u a x y ∧ x.parameter? = none ∧ (∃ p ∈ d.parameters, x.contains (.parameter p) = true) ∧
    (e = .parameterType n (x.substitute (d.unknownOf? callSite)) y ∨ e = .notFunction n (x.substitute (d.unknownOf? callSite)) y)

/-- An error that expects unknowns shows one. -/
theorem ExpectsUnknowns.isOpen (hd : d.Closed) (h : d.ExpectsUnknowns args e) : e.isOpen = true := by
  obtain ⟨i, n, u, a, x, y, -, hu, -, hm, -, hp, he⟩ := h
  have hx : x.isOpen = false := Ty.isOpen_eq_false_of_contains (hd.types u (List.mem_of_getElem? hu)) hm.contains.1
  have hopen := (isOpen_unknownOf_iff callSite hx).2 hp
  rcases he with rfl | rfl <;> simp [CallError.isOpen, CallError.types, hopen]

/-- A shape that does not match, of an argument without unknowns, is told without unknowns unless the part that is expected
mentions a generic parameter of the declaration. -/
theorem expectsUnknowns_of_matchShape (hd : d.Closed) (ha : ∀ a, some a ∈ args → a.isOpen = false) {p : Passed}
    (hp : p ∈ (d.instantiate callSite).passed args) (hm : Ty.matchShape p.parameter p.declared p.argument = .error e)
    (ho : e.isOpen = true) : d.ExpectsUnknowns args e := by
  obtain ⟨i, u, hn, hu, hi, hdecl⟩ := exists_position_of_passed hp
  obtain ⟨x, y, hxy, hx, he⟩ := Ty.exists_meets_of_matchShape_error hm
  rw [hdecl] at hxy
  obtain ⟨z, hz, rfl⟩ := hxy.of_substitute (parameter?_unknownOf callSite)
  have hzo : z.isOpen = false := Ty.isOpen_eq_false_of_contains (hd.types u (List.mem_of_getElem? hu)) hz.contains.1
  have hyo : y.isOpen = false := Ty.isOpen_eq_false_of_contains (ha _ (List.mem_of_getElem? hi)) hz.contains.2
  have hzp : z.parameter? = none := Ty.parameter?_of_substitute (parameter?_unknownOf callSite) hx
  have hexpected : (z.substitute (d.unknownOf? callSite)).isOpen = true := by
    rcases he with rfl | rfl <;> simpa [CallError.isOpen, CallError.types, hyo] using ho
  exact ⟨i, p.parameter, u, p.argument, z, y, hn, hu, hi, hz, hzp, (isOpen_unknownOf_iff callSite hzo).1 hexpected, he⟩

/-- An error of the check of a call without unknowns in its arguments mentions unknowns only in the expected type of a shape that
does not match. -/
theorem expectsUnknowns_of_checkGenericCall (hd : d.Closed) (ha : ∀ a, some a ∈ args → a.isOpen = false)
    (h : d.checkGenericCall args = .error e) (ho : e.isOpen = true) : d.ExpectsUnknowns args e := by
  -- Every other error tells none, so that it is enough to see that its types have none.
  have hnone : ∀ {e' : CallError}, (∀ t ∈ e'.types, t.isOpen = false) → e = e' → d.ExpectsUnknowns args e := by
    rintro e' hts rfl
    rw [(CallError.isOpen_eq_false_iff e).2 hts] at ho
    cases ho
  rcases checkGenericCall_error h with ⟨-, he⟩ | ⟨e', he', he⟩
  · exact hnone (by simp [CallError.types]) he
  rcases checkInstance_error he' with ⟨p, hp, hs, -, rfl⟩ | ⟨p, hp, -, hm⟩ | ⟨q, hq, ts, rfl, -, hts, -⟩ | rfl
  · obtain ⟨hdo, hao⟩ := isOpen_of_not_solved hs
    exact hnone (by simp [Passed.mismatch, declaredError, CallError.types, hdo, hao]) he
  · have hsame : e = e' := by
      obtain ⟨x, y, -, -, rfl | rfl⟩ := Ty.exists_meets_of_matchShape_error hm
      · exact he
      · exact he
    subst hsame
    exact expectsUnknowns_of_matchShape hd ha hp hm ho
  · refine hnone (fun t ht => ?_) he
    rcases List.mem_cons.1 ht with rfl | ht
    · rfl
    · exact ((hts t).1 ht).2
  · refine hnone (fun t ht => ?_) he
    obtain ⟨a, hm, rfl⟩ := List.mem_filterMap.1 ht
    exact ha t hm

/-- An error about the result of a call mentions no unknowns. -/
theorem isOpen_of_resultType_error (h : d.resultType args = .error e) : e.isOpen = false := by
  rw [CallError.isOpen_eq_false_iff]
  rcases resultType_error h with ⟨-, rfl⟩ | ⟨p, hp⟩
  · simp [CallError.types]
  rcases solve_outcome _ args _ p with ⟨t, ht, -⟩ | ⟨ts, hts, hclosed, -⟩ | ⟨-, hn, -⟩ | ⟨-, hn, -⟩
  · rw [hp] at ht
    cases ht
  · obtain rfl := Except.error.inj (hp.symm.trans hts)
    exact fun t ht => (hclosed t ht).2
  · rw [hp] at hn
    cases hn
  · obtain rfl := Except.error.inj (hp.symm.trans hn)
    simp [CallError.types]

/-- Where neither the declaration nor an argument mentions an unknown, an error of the check of a call mentions one exactly when
it tells an expected type in unknowns of the call, and an error about the result of the call never does. -/
theorem isOpen_error_iff (d : Declaration) (args : ArgTypes) (hd : d.Closed) (ha : ∀ a, some a ∈ args → a.isOpen = false) :
    (∀ e, d.checkGenericCall args = .error e → (e.isOpen = true ↔ d.ExpectsUnknowns args e)) ∧
      ∀ e, d.resultType args = .error e → e.isOpen = false := by
  refine ⟨fun e h => ⟨fun ho => ?_, fun hexp => ?_⟩, fun e h => ?_⟩
  · exact expectsUnknowns_of_checkGenericCall hd ha h ho
  · exact hexp.isOpen hd
  · exact isOpen_of_resultType_error h

/-- A number was given for `f`, where a function from the unknown of `T` to that of `U` is expected. -/
def numberForFunction : CallError :=
  .notFunction "f" (.function [.parameter ⟨"T", "map", some callSite⟩] (.parameter ⟨"U", "map", some callSite⟩)) .number

/-- A number where `map` takes a function is refused with an error in unknowns of the call, and not in `T` and `U`, though neither
the declaration nor the arguments mention an unknown. -/
theorem map_number_error :
    mapSignature.Closed ∧ (∀ a, some a ∈ ([some (.applied "Vector" [.number]), some .number] : ArgTypes) → a.isOpen = false) ∧
    mapSignature.checkGenericCall [some (.applied "Vector" [.number]), some .number] = .error numberForFunction ∧
    numberForFunction.isOpen = true :=
  ⟨⟨by decide, by decide, by decide⟩, by simp; decide, by cbv, by decide⟩

/-- That error tells an expected type in unknowns of the call. The error about `T` for a vector of numbers and a function from
texts does not. -/
theorem map_number_expects :
    mapSignature.ExpectsUnknowns [some (.applied "Vector" [.number]), some .number] numberForFunction ∧
    ¬mapSignature.ExpectsUnknowns [some (.applied "Vector" [.number]), some (.function [.string] .string)]
      (.inconsistent (.declared "T" "map") [.number, .string]) := by
  have hd : mapSignature.Closed := ⟨by decide, by decide, by decide⟩
  constructor
  · have herr : mapSignature.checkGenericCall [some (.applied "Vector" [.number]), some .number] = .error numberForFunction := by
      cbv
    exact ((isOpen_error_iff mapSignature _ hd (by simp; decide)).1 _ herr).1 (by decide)
  · have herr : mapSignature.checkGenericCall [some (.applied "Vector" [.number]), some (.function [.string] .string)] =
        .error (.inconsistent (.declared "T" "map") [.number, .string]) := by cbv
    intro hexp
    have hopen := ((isOpen_error_iff mapSignature _ hd (by simp; decide)).1 _ herr).2 hexp
    cases hopen

end Declaration

end Gradual
