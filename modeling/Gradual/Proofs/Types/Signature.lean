import Gradual.Proofs.Types.Instance
import Gradual.Proofs.Types.Permute

/-!
# Signatures with their generic parameters renamed

`Declaration.rename f` puts the generic parameter `f p` in the place of `p` everywhere in a declaration, and what becomes of the
declaration hangs on what `f` does to the parameters that it mentions (`rename_congr`). Where a declaration is used, its own
generic parameters are renamed to unknowns of that use, and nothing else is renamed (`instantiate_eq_rename`).
-/

namespace Gradual.Declaration

/-! ## Renamed declarations -/

/-- A declaration mentions its own generic parameters and those that its types contain. -/
def Mentions (d : Declaration) (p : GenericParameter) : Prop :=
  p ∈ d.parameters ∨ d.functionType.contains (.parameter p) = true

/-- A declaration with other generic parameters in the places of those it mentions. -/
def rename (f : GenericParameter → GenericParameter) (d : Declaration) : Declaration :=
  ⟨d.name, d.generics.map (List.map f), d.names, d.types.map (Ty.rename f), d.ret.rename f⟩

variable {d : Declaration} {f g : GenericParameter → GenericParameter}

/-- The function type of a renamed declaration is the renamed one. -/
theorem functionType_rename (f : GenericParameter → GenericParameter) (d : Declaration) :
    (d.rename f).functionType = d.functionType.rename f := (Ty.rename_function f d.types d.ret).symm

/-- The generic parameters of a renamed declaration are the renamed ones. -/
theorem parameters_rename (f : GenericParameter → GenericParameter) (d : Declaration) :
    (d.rename f).parameters = d.parameters.map f := by
  unfold parameters rename
  cases d.generics <;> rfl

/-- A renamed declaration mentions what the generic parameters that the declaration mentions are renamed to. -/
theorem mentions_rename_iff (q : GenericParameter) : (d.rename f).Mentions q ↔ ∃ p, d.Mentions p ∧ f p = q := by
  simp only [Mentions, parameters_rename, functionType_rename, List.mem_map, Ty.contains_rename_iff, or_and_right, exists_or]

/-- A declaration mentions what the types of its parameters contain. -/
theorem mentions_of_types {t : Ty} (ht : t ∈ d.types) {p : GenericParameter} (hp : t.contains (.parameter p) = true) :
    d.Mentions p :=
  Or.inr (Ty.contains_of_child (List.mem_append_left _ ht) hp)

/-- A declaration mentions what its result contains. -/
theorem mentions_of_ret {p : GenericParameter} (hp : d.ret.contains (.parameter p) = true) : d.Mentions p :=
  Or.inr (Ty.contains_of_child (List.mem_append_right _ (List.mem_singleton_self d.ret)) hp)

/-- Renamings that agree on the generic parameters that a declaration mentions rename it alike. -/
theorem rename_congr (h : ∀ p, d.Mentions p → f p = g p) : d.rename f = d.rename g := by
  unfold rename
  congr 1
  · refine Option.map_congr fun ps hps => List.map_congr_left fun p hp => h p (Or.inl ?_)
    rw [parameters, hps]
    exact hp
  · exact List.map_congr_left fun t ht => Ty.rename_congr fun p hp => h p (mentions_of_types ht hp)
  · exact Ty.rename_congr fun p hp => h p (mentions_of_ret hp)

/-- Renaming twice is renaming by both. -/
theorem rename_rename (d : Declaration) : (d.rename f).rename g = d.rename fun p => g (f p) := by
  simp only [rename, Option.map_map, List.map_map, Ty.rename_rename, Function.comp_def]

/-- Renaming nothing leaves a declaration as it is. -/
theorem rename_id (d : Declaration) : d.rename (fun p => p) = d := by
  have hty : Ty.rename (fun p => p) = id := funext fun t => Ty.rename_eq_self fun _ _ => rfl
  simp [rename, hty]

/-- A renaming that keeps a declaration keeps the generic parameters that it mentions. -/
theorem eq_of_rename_eq_self (h : d.rename f = d) {p : GenericParameter} (hp : d.Mentions p) : f p = p := by
  rcases hp with hp | hp
  · have hmap : d.parameters.map f = d.parameters.map id := by rw [← parameters_rename, h, List.map_id]
    exact List.map_inj_left.1 hmap p hp
  · refine Ty.eq_of_rename_eq_self ?_ hp
    rw [← functionType_rename, h]

/-- A declaration that one renaming keeps is kept by any that keeps what the first keeps. -/
theorem rename_eq_self_of_keeps (hg : ∀ p, f p = p → g p = p) (h : d.rename f = d) : d.rename g = d :=
  (rename_congr fun p hp => hg p (eq_of_rename_eq_self h hp)).trans d.rename_id

/-- The generic parameters of its own in a renamed result are the renamed ones, where nothing else takes their names. -/
theorem ownInResult_rename (hinj : ∀ p ∈ d.parameters, ∀ q, f q = f p → q = p) :
    ((d.rename f).parameters.filter fun p => (d.rename f).ret.contains (.parameter p)) =
      (d.parameters.filter fun p => d.ret.contains (.parameter p)).map f := by
  rw [parameters_rename, List.filter_map]
  congr 1
  refine List.filter_congr fun p hp => ?_
  rw [Function.comp_apply, Bool.eq_iff_iff, rename, Ty.contains_rename_iff]
  constructor
  · rintro ⟨q, hq, he⟩
    exact hinj p hp q he ▸ hq
  · exact fun hc => ⟨p, hc, rfl⟩

/-- A closed declaration mentions declared parameters only. -/
theorem Closed.site_of_mentions (hd : d.Closed) {p : GenericParameter} (hp : d.Mentions p) : p.site = none := by
  have hu : p.isUnknown = false := by
    rcases hp with hp | hp
    · exact hd.parameters p hp
    · exact (Ty.isOpen_eq_false_iff _).1 hd.functionType p hp
  simpa [GenericParameter.isUnknown] using hu

/-- A closed declaration is renamed alike by what agrees on declared parameters. -/
theorem Closed.rename_congr (hd : d.Closed) (h : ∀ p, p.site = none → f p = g p) : d.rename f = d.rename g :=
  Declaration.rename_congr fun p hp => h p (hd.site_of_mentions hp)

/-! ## Instances as renamed declarations -/

/-- An instance renames the own generic parameters of a declaration to unknowns. -/
theorem substitute_unknownOf? (d : Declaration) (site : String) (t : Ty) :
    t.substitute (d.unknownOf? site) = t.rename fun p => if d.owns p then p.unknownAt site else p := by
  refine Ty.substitute_congr fun p _ => ?_
  unfold unknownOf?
  by_cases h : d.owns p = true <;> simp [h]

/-- The parts of an instance. -/
theorem instantiate_eq (d : Declaration) (site : String) :
    d.instantiate site = ⟨d.name, d.generics.map (List.map (·.unknownAt site)), d.names,
      d.types.map (Ty.substitute (d.unknownOf? site)), d.ret.substitute (d.unknownOf? site)⟩ := by
  rw [← instantiate_types, ← instantiate_ret]
  cases hg : d.generics with
  | none =>
    have hd : d.instantiate site = d := by simp [instantiate, hg]
    rw [hd, Option.map_none, ← hg]
  | some ps => simp [instantiate, hg]

/-- A plain declaration is its own instance. -/
theorem instantiate_of_plain (hg : d.generics = none) (site : String) : d.instantiate site = d := by
  simp [instantiate, hg]

/-- What a generic parameter is in the use of a declaration at `site`: an unknown if the declaration owns it, and else what it
was. -/
def inUse (d : Declaration) (site : String) (p : GenericParameter) : GenericParameter :=
  if d.owns p then p.unknownAt site else p

/-- A generic parameter of its own is an unknown in the use of a declaration. -/
theorem inUse_of_owns {p : GenericParameter} (h : d.owns p = true) (site : String) : d.inUse site p = p.unknownAt site := if_pos h

/-- Any other generic parameter is itself in the use of a declaration. -/
theorem inUse_of_not_owns {p : GenericParameter} (h : d.owns p = false) (site : String) : d.inUse site p = p :=
  if_neg (Bool.eq_false_iff.1 h)

/-- An instance is the declaration with its own generic parameters renamed. -/
theorem instantiate_eq_rename (d : Declaration) (site : String) : d.instantiate site = d.rename (d.inUse site) := by
  have hsubst : Ty.substitute (d.unknownOf? site) = Ty.rename (d.inUse site) := funext (d.substitute_unknownOf? site)
  have hown : d.generics.map (List.map (·.unknownAt site)) = d.generics.map (List.map (d.inUse site)) := by
    refine Option.map_congr fun ps hps => List.map_congr_left fun p hp => ?_
    have ho : d.owns p = true := (d.owns_iff p).2 (by rw [parameters, hps]; exact hp)
    exact (inUse_of_owns ho site).symm
  rw [instantiate_eq, rename, hsubst, hown]

/-- In a use a generic parameter keeps its owner. -/
theorem owner_inUse (d : Declaration) (site : String) (p : GenericParameter) : (d.inUse site p).owner = p.owner := by
  cases ho : d.owns p with
  | true => rw [inUse_of_owns ho, GenericParameter.unknownAt]
  | false => rw [inUse_of_not_owns ho]

/-- The generic parameters of a use come from those that the declaration mentions. -/
theorem exists_of_mentions_instantiate {site : String} {q : GenericParameter} (h : (d.instantiate site).Mentions q) :
    ∃ p, d.Mentions p ∧ d.inUse site p = q := by
  rw [instantiate_eq_rename] at h
  exact (mentions_rename_iff q).1 h

/-- The generic parameters of a use of a closed declaration are declared, or they are unknowns of the site. -/
theorem Closed.site_of_use (hd : d.Closed) {site : String} {q : GenericParameter} (h : (d.instantiate site).Mentions q) :
    q.site = none ∨ q.site = some site := by
  obtain ⟨p, hp, rfl⟩ := exists_of_mentions_instantiate h
  cases ho : d.owns p with
  | true => exact Or.inr (by rw [inUse_of_owns ho, GenericParameter.site_unknownAt])
  | false => exact Or.inl (by rw [inUse_of_not_owns ho, hd.site_of_mentions hp])

end Gradual.Declaration
