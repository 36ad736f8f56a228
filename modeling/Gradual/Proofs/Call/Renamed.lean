import Gradual.Proofs.Call.Permute

/-!
# Declarations that differ in the names of generic parameters

`Declaration.Renamed φ` relates two signatures that say the same under other names: `φ` permutes the names of the generic
parameters around them, and some permutation those of their own. The own parameters are unknowns wherever a declaration is used,
so the relation speaks of instances, where the two kinds are told apart by their sites. In a call the callee and every generic
function that is passed have unknowns at sites of their own, so one `Renaming` permutes them all (`ArgTypes.Renamed`), and the
results of two such calls differ in names only (`Renamed.resultType`).
-/

namespace Gradual

namespace Declaration

/-! ## Declarations up to names -/

/-- The second declaration is the first with `φ` applied to the names of generic parameters from around it, and some permutation
to those of its own. -/
def Renamed (φ : String → String) (d d' : Declaration) : Prop :=
  ∃ k : Equiv.Perm String, ∀ site, d'.instantiate site = (d.instantiate site).rename (.renameApart φ k)

/-- A plain closed declaration with other names in it. -/
theorem renamed_of_plain (φ : String → String) {d : Declaration} (hd : d.Closed) (hg : d.generics = none) :
    Renamed φ d (d.rename (.renameName φ)) := by
  refine ⟨Equiv.refl String, fun site => ?_⟩
  have hg' : (d.rename (.renameName φ)).generics = none := by simp [rename, hg]
  rw [instantiate_of_plain hg', instantiate_of_plain hg]
  exact hd.rename_congr fun p hp => (GenericParameter.renameApart_of_declared φ _ hp).symm

/-- A declaration is related to itself when nothing is renamed. -/
theorem renamed_refl (d : Declaration) : Renamed id d d := by
  refine ⟨Equiv.refl String, fun site => ?_⟩
  have hparameter : GenericParameter.renameApart id (Equiv.refl String) = id := by
    funext p
    simp [GenericParameter.renameApart]
  have htype : Ty.rename id = id := funext fun t => Ty.rename_eq_self fun _ _ => rfl
  rw [hparameter, rename, htype]
  simp

/-- Declarations that differ in the names of their own parameters only do so both ways. -/
theorem Renamed.symm {d d' : Declaration} (h : Renamed id d d') : Renamed id d' d := by
  obtain ⟨k, hk⟩ := h
  refine ⟨k.symm, fun site => ?_⟩
  have hback : ∀ p : GenericParameter, (p.renameApart id k).renameApart id k.symm = p := by
    rintro ⟨n, owner, _ | s⟩
    · rfl
    · simp [GenericParameter.renameApart, GenericParameter.isUnknown]
  rw [hk, rename_rename, rename_congr fun p _ => hback p, rename_id]

/-- A declaration that is itself under other names is so under any that keep what these keep. -/
theorem renamed_self_of_keeps {φ σ : String → String} {d : Declaration} (h : Renamed φ d d) (hσ : ∀ n, φ n = n → σ n = n) :
    Renamed σ d d := by
  obtain ⟨k, hk⟩ := h
  refine ⟨k, fun site => (rename_eq_self_of_keeps (fun p hp => ?_) (hk site).symm).symm⟩
  exact GenericParameter.renameApart_eq_self_of_keeps hσ hp

namespace Renamed

variable {φ : String → String} {d d' : Declaration} (h : Renamed φ d d')

include h

/-- Related declarations are both generic, or neither is. -/
theorem isGeneric_eq : d'.isGeneric = d.isGeneric := by
  obtain ⟨k, h⟩ := h
  have hg := congrArg (fun e => e.generics.isSome) (h callSite)
  simpa [instantiate_eq, rename, isGeneric] using hg

/-- Related declarations take as many arguments. -/
theorem arity_eq : d'.arity = d.arity := by
  obtain ⟨k, h⟩ := h
  have ht := congrArg (fun e => e.types.length) (h callSite)
  simpa [instantiate_eq, rename, arity] using ht

/-- The parameters of function type stand at the same places. -/
theorem any_isFunction_eq (i : Nat) : d'.types[i]?.any Ty.isFunction = d.types[i]?.any Ty.isFunction := by
  obtain ⟨k, h⟩ := h
  have ht := congrArg (fun e => e.types[i]?.any Ty.isFunction) (h callSite)
  simp only [instantiate_eq, rename, List.getElem?_map, Option.any_map, substitute_unknownOf?] at ht
  simpa [Function.comp_def] using ht

/-- The results of related declarations are both of generic types, or neither is. -/
theorem ret_isGeneric_eq : d'.ret.isGeneric = d.ret.isGeneric := by
  obtain ⟨k, h⟩ := h
  have hr := congrArg (fun e => e.ret.isGeneric) (h callSite)
  simpa [instantiate_eq, rename, substitute_unknownOf?] using hr

/-- A plain declaration has no parameters of its own, so only the names from around it change. -/
theorem eq_rename (hd : d.Closed) (hg : d.isGeneric = false) {f : GenericParameter → GenericParameter}
    (hf : ∀ p, p.site = none → f p = p.renameName φ) : d' = d.rename f := by
  have hg' : d'.generics = none := by simpa [isGeneric] using h.isGeneric_eq.trans hg
  have hplain : d.generics = none := by simpa [isGeneric] using hg
  obtain ⟨k, h⟩ := h
  have hsame := h callSite
  rw [instantiate_of_plain hg', instantiate_of_plain hplain] at hsame
  rw [hsame]
  exact hd.rename_congr fun p hp => by rw [hf p hp, GenericParameter.renameApart_of_declared φ k hp]

/-- A result that mentions no generic parameter is the same. -/
theorem ret_eq (hg : d.ret.isGeneric = false) : d'.ret = d.ret := by
  have hg' := h.ret_isGeneric_eq.trans hg
  obtain ⟨k, h⟩ := h
  have hr := congrArg Declaration.ret (h callSite)
  simp only [instantiate_eq, rename, substitute_unknownOf?] at hr
  rwa [Ty.rename_eq_self_of_plain hg', Ty.rename_eq_self_of_plain hg, Ty.rename_eq_self_of_plain hg] at hr

end Renamed

end Declaration

/-! ## The types of arguments up to names -/

/-- The second types of arguments, from number `index` on, are the first with `φ` applied to the declared names in them and, for
each argument, some permutation to the names of the unknowns of its site. -/
def ArgTypes.Renamed (φ : Equiv.Perm String) (index : Nat) (args args' : ArgTypes) : Prop :=
  ∃ κ : Nat → Equiv.Perm String, ∀ L : Renaming, L none = φ → (∀ i, index ≤ i → L (some (Scope.argumentSite i)) = κ i) →
    args' = args.permute L

/-- What is given for a call and for each of its arguments can be given for the sites of their unknowns. -/
theorem exists_sites {α : Type} (a : α) (as : Nat → α) :
    ∃ F : String → α, F Declaration.callSite = a ∧ ∀ i, F (Scope.argumentSite i) = as i := by
  refine ⟨Function.extend Scope.argumentSite as fun _ => a, ?_, fun i => ?_⟩
  · have hcall : ¬∃ i, Scope.argumentSite i = Declaration.callSite := fun ⟨i, hi⟩ => Scope.argumentSite_ne_callSite i hi
    exact Function.extend_apply' as (fun _ => a) Declaration.callSite hcall
  · have hinj : Function.Injective Scope.argumentSite := fun i j h => Scope.argumentSite_injective h
    exact hinj.extend_apply as (fun _ => a) i

/-- Permutations for the declared names, for the unknowns of a call and for those of its arguments go together into one. -/
theorem exists_renaming (φ k : Equiv.Perm String) (κ : Nat → Equiv.Perm String) :
    ∃ L : Renaming, L none = φ ∧ L (some Declaration.callSite) = k ∧ ∀ i, L (some (Scope.argumentSite i)) = κ i := by
  obtain ⟨F, hcall, hargs⟩ := exists_sites k κ
  exact ⟨fun s => s.elim φ F, rfl, hcall, hargs⟩

namespace ArgTypes.Renamed

variable {φ : Equiv.Perm String}

/-- No arguments are related. -/
theorem nil (index : Nat) : Renamed φ index [] [] := ⟨fun _ => φ, fun _ _ _ => rfl⟩

/-- An argument is put before others: the unknowns in its type are those of its site. -/
theorem cons {index : Nat} {args args' : ArgTypes} (h : Renamed φ (index + 1) args args')
    {t t' : Option Ty} {k : Equiv.Perm String}
    (ht : ∀ L : Renaming, L none = φ → L (some (Scope.argumentSite index)) = k → t' = t.map (Ty.permute L)) :
    Renamed φ index (t :: args) (t' :: args') := by
  obtain ⟨κ, h⟩ := h
  refine ⟨Function.update κ index k, fun L hL hκ => ?_⟩
  have htail : args' = args.permute L := by
    refine h L hL fun i hi => ?_
    rw [hκ i (by omega), Function.update_of_ne (by omega)]
  have hhead : t' = t.map (Ty.permute L) := ht L hL (by rw [hκ index (Nat.le_refl index), Function.update_self])
  rw [htail, hhead]
  rfl

/-- One renaming permutes the unknowns of all arguments, whatever it does at the site of the call. -/
theorem exists_permute {args args' : ArgTypes} (h : Renamed φ 0 args args') (k : Equiv.Perm String) :
    ∃ L : Renaming, L none = φ ∧ L (some Declaration.callSite) = k ∧ args' = args.permute L := by
  obtain ⟨κ, h⟩ := h
  obtain ⟨L, hL, hk, hκ⟩ := exists_renaming φ k κ
  exact ⟨L, hL, hk, h L hL fun i _ => hκ i⟩

end ArgTypes.Renamed

/-! ## Calls -/

namespace Declaration.Renamed

variable {φ : Equiv.Perm String} {d d' : Declaration} (h : Renamed φ d d') (hd : d.Closed) {args args' : ArgTypes}
  (ha : args.Renamed φ 0 args')

include h hd ha

/-- One permutation takes the instance for a call and the types of its arguments to those under the other names. -/
theorem exists_instance :
    ∃ L : Renaming, L none = φ ∧ d'.instantiate callSite = (d.instantiate callSite).permute L ∧ args' = args.permute L := by
  obtain ⟨k, h⟩ := h
  obtain ⟨L, hL, hk, hargs⟩ := ha.exists_permute k
  refine ⟨L, hL, (h callSite).trans (rename_congr fun p hp => ?_), hargs⟩
  exact GenericParameter.renameApart_eq_permute hL hk (hd.site_of_use hp)

/-- The result of a call is that of the call under the other names, with its names permuted. -/
theorem resultType : Agree (fun t t' => t' = t.map (Ty.relabel φ)) (d.resultType args) (d'.resultType args') := by
  obtain ⟨L, hL, hinst, hargs⟩ := h.exists_instance hd ha
  have hlen : args'.length = args.length := by rw [hargs, ArgTypes.length_rename]
  have hclosed : ∀ t, d.resultType args = .ok (some t) → t.permute L = t.relabel φ := fun t ht =>
    Ty.rename_congr_of_closed (isOpen_resultType hd ht) fun p hp => GenericParameter.permute_of_site hp hL
  unfold Declaration.resultType checkCount at hclosed ⊢
  rw [h.arity_eq, hlen, h.ret_isGeneric_eq]
  by_cases hcount : d.arity = args.length
  · simp only [hcount, if_true, ok_bind] at hclosed ⊢
    cases hg : d.ret.isGeneric with
    | true =>
      simp only [hg, if_true] at hclosed ⊢
      rw [hinst, hargs]
      refine (resultOfInstance_permute L (d.instantiate callSite) args).mono fun t t' ht htt => ?_
      cases t with
      | none => exact htt
      | some t => rw [htt, Option.map_some, Option.map_some, hclosed t ht]
    | false =>
      have hret : d.ret.relabel φ = d.ret := Ty.rename_eq_self_of_plain hg
      simp only [Bool.false_eq_true, if_false]
      exact .ok (by rw [h.ret_eq hg, Option.map_some, hret])
  · simp only [hcount, if_false]
    exact .error _ _

end Declaration.Renamed

end Gradual
