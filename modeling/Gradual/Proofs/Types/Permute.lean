import Mathlib.Logic.Equiv.Basic
import Gradual.Call.Basic
import Gradual.Check.Typing
import Gradual.Proofs.Types.Erasure

/-!
# Types with their generic parameters renamed

`Ty.rename f` puts the generic parameter `f p` in the place of `p` everywhere in a type. Nothing that is asked of a type depends
on the names of its parameters as long as different parameters stay different. Declared parameters of different owners are
compared by their names alone, so a renaming of them must also keep different names different: `Ty.permute` is given a permutation
of names for the declared parameters and one for the unknowns of each site, and compatible types stay compatible when none
mentions an unknown (`implements_permute`).
-/

namespace Gradual

namespace Ty

/-! ## Renaming -/

/-- A type with other generic parameters in the places of its own. -/
def rename (f : GenericParameter → GenericParameter) (t : Ty) : Ty := t.substitute fun p => some (.parameter (f p))

variable (f : GenericParameter → GenericParameter)

@[simp] theorem rename_simple (n : String) : (simple n).rename f = .simple n := rfl

@[simp] theorem rename_parameter (p : GenericParameter) : (parameter p).rename f = .parameter (f p) := rfl

@[simp] theorem rename_applied (n : String) (as : List Ty) : (applied n as).rename f = .applied n (as.map (rename f)) := by
  simp only [rename, substitute, substituteAll_eq]
  rfl

@[simp] theorem rename_function (ps : List Ty) (r : Ty) :
    (function ps r).rename f = .function (ps.map (rename f)) (r.rename f) := by
  simp only [rename, substitute, substituteAll_eq]
  rfl

variable {f}

/-- Renamings that agree on the generic parameters of a type rename it alike. -/
theorem rename_congr {g : GenericParameter → GenericParameter} {t : Ty}
    (h : ∀ p, t.contains (.parameter p) = true → f p = g p) : t.rename f = t.rename g := by
  refine substitute_congr fun p hp => ?_
  simp only [Option.getD_some, h p hp]

/-- A renaming that keeps the generic parameters of a type keeps the type. -/
theorem rename_eq_self {t : Ty} (h : ∀ p, t.contains (.parameter p) = true → f p = p) : t.rename f = t := by
  have hnone : t.rename f = t.substitute fun _ => none := substitute_congr fun p hp => by
    simp only [Option.getD_some, Option.getD_none, h p hp]
  rw [hnone, substitute_none]

/-- A type without generic parameters stays as it is. -/
theorem rename_eq_self_of_plain {t : Ty} (h : t.isGeneric = false) : t.rename f = t := by
  refine rename_eq_self fun p hp => ?_
  have := (isGeneric_iff t).2 ⟨p, hp⟩
  rw [h] at this
  cases this

/-- A type without unknowns is renamed alike by what agrees on declared parameters. -/
theorem rename_congr_of_closed {g : GenericParameter → GenericParameter} {t : Ty} (ht : t.isOpen = false)
    (h : ∀ p, p.site = none → f p = g p) : t.rename f = t.rename g := by
  refine rename_congr fun p hp => h p ?_
  simpa [GenericParameter.isUnknown] using (isOpen_eq_false_iff t).1 ht p hp

/-- Renaming nothing leaves a type that may be unknown as it is. -/
theorem map_rename_id (t : Option Ty) : t.map (rename fun p => p) = t := by
  have hid : rename (fun p => p) = id := funext fun t => rename_eq_self fun _ _ => rfl
  rw [hid, Option.map_id, id]

/-- Renaming twice is renaming by both. -/
theorem rename_rename (g : GenericParameter → GenericParameter) (t : Ty) : (t.rename f).rename g = t.rename fun p => g (f p) :=
  substitute_substitute _ _ t

/-- Renaming after a substitution is the substitution by what is renamed. -/
theorem rename_substitute (s : GenericParameter → Option Ty) (t : Ty) :
    (t.substitute s).rename f = t.substitute fun p => some (((s p).getD (.parameter p)).rename f) :=
  substitute_substitute s _ t

/-- A substitution after renaming replaces what the generic parameters are renamed to. -/
theorem substitute_rename (s : GenericParameter → Option Ty) (t : Ty) :
    (t.rename f).substitute s = t.substitute fun p => some ((s (f p)).getD (.parameter (f p))) :=
  substitute_substitute _ s t

/-! ## What is asked of a type -/

@[simp] theorem children_rename (t : Ty) : (t.rename f).children = t.children.map (rename f) := by
  cases t <;> simp [children]

@[simp] theorem parameter?_rename (t : Ty) : (t.rename f).parameter? = t.parameter?.map f := by
  cases t <;> simp [parameter?]

@[simp] theorem isFunction_rename (t : Ty) : (t.rename f).isFunction = t.isFunction := by
  cases t <;> simp [isFunction]

/-- A renamed type contains what the generic parameters of the type are renamed to. -/
theorem contains_rename_iff (t : Ty) (p : GenericParameter) :
    (t.rename f).contains (.parameter p) = true ↔ ∃ q, t.contains (.parameter q) = true ∧ f q = p := by
  constructor
  · intro h
    obtain ⟨q, hq, hp⟩ := contains_substitute h
    exact ⟨q, hq, by simpa [contains] using hp⟩
  · rintro ⟨q, hq, rfl⟩
    induction t using ind_children with
    | h t ih =>
      rcases (contains_iff _ _).1 hq with rfl | ⟨c, hc, h⟩
      · exact contains_self _
      · refine contains_of_child ?_ (ih c hc h)
        rw [children_rename]
        exact List.mem_map_of_mem hc

/-- A renaming that keeps a type keeps its generic parameters. -/
theorem eq_of_rename_eq_self {t : Ty} (h : t.rename f = t) {p : GenericParameter} (hp : t.contains (.parameter p) = true) :
    f p = p := by
  induction t using ind_children with
  | h t ih =>
    rcases (contains_iff _ _).1 hp with rfl | ⟨c, hc, hpc⟩
    · exact parameter.inj h
    · have hchildren : t.children.map (rename f) = t.children.map id := by
        rw [← children_rename, h, List.map_id]
      exact ih c hc (List.map_inj_left.1 hchildren c hc) hpc

/-- A type that one renaming keeps is kept by any that keeps what the first keeps. -/
theorem rename_eq_self_of_keeps {g : GenericParameter → GenericParameter} (hg : ∀ p, f p = p → g p = p) {t : Ty}
    (h : t.rename f = t) : t.rename g = t :=
  rename_eq_self fun p hp => hg p (eq_of_rename_eq_self h hp)

/-- A renamed type has a parameter of some sort when the type has one that becomes so. -/
theorem anyParameter_rename (g : GenericParameter → Bool) (t : Ty) :
    (t.rename f).anyParameter g = t.anyParameter fun p => g (f p) := by
  rw [Bool.eq_iff_iff, anyParameter_iff, anyParameter_iff]
  simp only [contains_rename_iff]
  constructor
  · rintro ⟨_, ⟨q, hq, rfl⟩, hg⟩
    exact ⟨q, hq, hg⟩
  · rintro ⟨q, hq, hg⟩
    exact ⟨f q, ⟨q, hq, rfl⟩, hg⟩

@[simp] theorem isGeneric_rename (t : Ty) : (t.rename f).isGeneric = t.isGeneric := anyParameter_rename _ t

/-- A renamed type mentions an unknown when the type does, as long as unknowns, and they alone, become unknowns. -/
theorem isOpen_rename (hf : ∀ p, (f p).isUnknown = p.isUnknown) (t : Ty) : (t.rename f).isOpen = t.isOpen := by
  rw [isOpen, anyParameter_rename]
  simp only [hf, isOpen]

/-- A renamed type is an unknown when the type is, as long as unknowns, and they alone, become unknowns. -/
theorem isUnknown_rename (hf : ∀ p, (f p).isUnknown = p.isUnknown) (t : Ty) : (t.rename f).isUnknown = t.isUnknown := by
  cases t <;> simp [isUnknown, parameter?, hf]

/-- The element type of a renamed type is the renamed one. -/
theorem element?_rename (t : Ty) : (t.rename f).element? = t.element?.map (rename f) := by
  cases t with
  | applied n as =>
    match as with
    | [] => rfl
    | [a] =>
      simp only [rename_applied, List.map_cons, List.map_nil, element?]
      split <;> rfl
    | _ :: _ :: _ => rfl
  | _ => simp [element?]

/-- The entry type of a renamed type is the renamed one. -/
theorem entry?_rename (t : Ty) : entry? (t.rename f) = t.entry?.map (rename f) := by
  unfold entry?
  rw [element?_rename]
  cases t.element? with
  | some e => rfl
  | none =>
    cases t with
    | applied n as =>
      match as with
      | [] => rfl
      | [_] => rfl
      | [_, v] =>
        simp only [rename_applied, List.map_cons, List.map_nil, Option.map_none]
        split <;> rfl
      | _ :: _ :: _ :: _ => rfl
    | _ => simp

end Ty

/-! ## Other names -/

namespace GenericParameter

/-- A generic parameter under another name, whatever its site. -/
def renameName (h : String → String) (p : GenericParameter) : GenericParameter := { p with name := h p.name }

/-- A generic parameter under another name: `k` renames unknowns, and `φ` the others. -/
def renameApart (φ k : String → String) (p : GenericParameter) : GenericParameter :=
  { p with name := if p.isUnknown then k p.name else φ p.name }

@[simp] theorem isUnknown_renameName (h : String → String) (p : GenericParameter) :
    (p.renameName h).isUnknown = p.isUnknown := rfl

/-- A declared parameter is renamed by `φ`. -/
theorem renameApart_of_declared (φ k : String → String) {p : GenericParameter} (hp : p.site = none) :
    p.renameApart φ k = p.renameName φ := by
  simp [renameApart, renameName, isUnknown, hp]

/-- An unknown is renamed by `k`. -/
theorem renameApart_of_unknown (φ k : String → String) {p : GenericParameter} {site : String} (hp : p.site = some site) :
    p.renameApart φ k = p.renameName k := by
  simp [renameApart, renameName, isUnknown, hp]

/-- A renaming keeps a parameter when it keeps its name. -/
theorem renameName_eq_self_iff {φ : String → String} {p : GenericParameter} : p.renameName φ = p ↔ φ p.name = p.name := by
  obtain ⟨n, o, s⟩ := p
  simp [renameName]

/-- A parameter is kept when declared parameters are renamed by what keeps the same names. -/
theorem renameApart_eq_self_of_keeps {φ σ k : String → String} (hσ : ∀ n, φ n = n → σ n = n) {p : GenericParameter}
    (hp : p.renameApart φ k = p) : p.renameApart σ k = p := by
  cases hs : p.site with
  | none =>
    rw [renameApart_of_declared φ k hs, renameName_eq_self_iff] at hp
    rw [renameApart_of_declared σ k hs, renameName_eq_self_iff]
    exact hσ _ hp
  | some site =>
    rw [renameApart_of_unknown φ k hs] at hp
    rwa [renameApart_of_unknown σ k hs]

end GenericParameter

/-- A type with other names for its generic parameters, wherever they are used. -/
abbrev Ty.relabel (h : String → String) (t : Ty) : Ty := t.rename (GenericParameter.renameName h)

/-- Keeping all names leaves a type as it is. -/
@[simp] theorem Ty.relabel_id (t : Ty) : t.relabel id = t := rename_eq_self fun _ _ => rfl

/-- Keeping all names leaves a type that may be unknown as it is. -/
theorem Ty.map_relabel_id (t : Option Ty) : t.map (Ty.relabel id) = t := map_rename_id t

/-- A type that is itself under other names is so under any that keep what these keep. -/
theorem Ty.relabel_self_of_keeps {φ σ : String → String} (hσ : ∀ n, φ n = n → σ n = n) {t : Ty} (h : t.relabel φ = t) :
    t.relabel σ = t := by
  refine rename_eq_self_of_keeps (fun p hp => ?_) h
  rw [GenericParameter.renameName_eq_self_iff] at hp ⊢
  exact hσ p.name hp

/-! ## Permutations of names -/

/-- A permutation of the names of generic parameters: one for the declared ones, and one for the unknowns of each site. -/
abbrev Renaming : Type := Option String → Equiv.Perm String

/-- One permutation of names, whatever the site. -/
def Renaming.everywhere (φ : Equiv.Perm String) : Renaming := fun _ => φ

/-- A generic parameter under the name that its site permutes its name to. -/
def GenericParameter.permute (K : Renaming) (p : GenericParameter) : GenericParameter := { p with name := K p.site p.name }

namespace GenericParameter

variable (K : Renaming)

@[simp] theorem isUnknown_permute (p : GenericParameter) : (p.permute K).isUnknown = p.isUnknown := rfl

/-- A parameter is permuted as its site says. -/
theorem permute_of_site {K : Renaming} {p : GenericParameter} {s : Option String} (hp : p.site = s) {k : Equiv.Perm String}
    (hk : K s = k) : p.permute K = p.renameName k := by
  simp only [permute, renameName, hp, hk]

/-- Where all unknowns have one site, one permutation for them and one for the declared parameters make up a renaming. -/
theorem renameApart_eq_permute {K : Renaming} {φ k : Equiv.Perm String} {site : String} (hφ : K none = φ)
    (hk : K (some site) = k) {p : GenericParameter} (hp : p.site = none ∨ p.site = some site) :
    p.renameApart φ k = p.permute K := by
  rcases hp with hp | hp
  · rw [renameApart_of_declared φ k hp, permute_of_site hp hφ]
  · rw [renameApart_of_unknown φ k hp, permute_of_site hp hk]

/-- Different parameters stay different. -/
theorem permute_injective : Function.Injective (permute K) := by
  rintro ⟨n, o, s⟩ ⟨n', o', s'⟩ h
  simp only [permute, GenericParameter.mk.injEq] at h
  obtain ⟨hn, rfl, rfl⟩ := h
  rw [(K s).injective hn]

end GenericParameter

namespace Ty

/-- A type with the names of its generic parameters permuted. -/
abbrev permute (K : Renaming) (t : Ty) : Ty := t.rename (GenericParameter.permute K)

variable {K : Renaming}

@[simp] theorem permute_parameter (p : GenericParameter) : (parameter p).permute K = .parameter (p.permute K) := rfl

/-- Different types stay different. -/
theorem permute_injective (K : Renaming) : Function.Injective (permute K) := by
  have hback : ∀ t : Ty, (t.permute K).permute (fun site => (K site).symm) = t := by
    intro t
    rw [permute, permute, rename_rename]
    exact rename_eq_self fun p _ => by simp [GenericParameter.permute]
  exact Function.LeftInverse.injective hback

@[simp] theorem permute_inj {a b : Ty} : a.permute K = b.permute K ↔ a = b := (permute_injective K).eq_iff

@[simp] theorem isOpen_permute (t : Ty) : (t.permute K).isOpen = t.isOpen := anyParameter_rename _ t

@[simp] theorem parameter?_permute (t : Ty) : (t.permute K).parameter? = t.parameter?.map (GenericParameter.permute K) :=
  parameter?_rename t

@[simp] theorem isUnknown_permute (t : Ty) : (t.permute K).isUnknown = t.isUnknown := by
  cases t <;> simp [isUnknown, parameter?]

@[simp] theorem contains_permute (t : Ty) (p : GenericParameter) :
    (t.permute K).contains (.parameter (p.permute K)) = t.contains (.parameter p) := by
  rw [Bool.eq_iff_iff, permute, contains_rename_iff]
  constructor
  · rintro ⟨q, hq, h⟩
    exact GenericParameter.permute_injective K h ▸ hq
  · intro h
    exact ⟨p, h, rfl⟩

/-- Owners may be forgotten before or after the names of declared parameters are permuted. -/
theorem eraseOwners_permute {t : Ty} (ht : t.isOpen = false) : (t.permute K).eraseOwners = t.eraseOwners.permute K := by
  unfold permute eraseOwners
  rw [substitute_rename, rename_substitute]
  refine substitute_congr fun p hp => ?_
  have hs : p.site = none := by simpa [GenericParameter.isUnknown] using (isOpen_eq_false_iff t).1 ht p hp
  simp [GenericParameter.permute, GenericParameter.declared, hs]

/-- Types without unknowns are equal up to owners exactly when they are after their names were permuted. -/
theorem eraseOwners_permute_inj {a b : Ty} (ha : a.isOpen = false) (hb : b.isOpen = false) :
    (a.permute K).eraseOwners = (b.permute K).eraseOwners ↔ a.eraseOwners = b.eraseOwners := by
  rw [eraseOwners_permute ha, eraseOwners_permute hb, permute_inj]

/-- Among types without unknowns, one implements another exactly when it does after their names were permuted. -/
theorem implements_permute {a b : Ty} (ha : a.isOpen = false) (hb : b.isOpen = false) :
    (a.permute K).implements (b.permute K) = a.implements b := by
  rw [Bool.eq_iff_iff, implements_iff, implements_iff, eraseOwners_permute_inj ha hb]

/-- Types without unknowns are compatible after a permutation exactly when they were before. -/
theorem isCompatibleWith_permute {a b : Ty} (ha : a.isOpen = false) (hb : b.isOpen = false) :
    (a.permute K).isCompatibleWith (b.permute K) = a.isCompatibleWith b := by
  rw [isCompatibleWith, isCompatibleWith, implements_permute ha hb, implements_permute hb ha]

/-- Types without unknowns agree after a permutation exactly when they did before. -/
theorem agree_permute {ts : List Ty} (h : ∀ t ∈ ts, t.isOpen = false) : agree (ts.map (permute K)) = agree ts := by
  cases ts with
  | nil => rfl
  | cons t ts =>
    rw [Bool.eq_iff_iff, List.map_cons, agree, agree, ← List.map_cons, List.all_eq_true, List.all_eq_true, List.forall_mem_map]
    refine forall₂_congr fun u hu => ?_
    rw [isCompatibleWith_permute (h u hu) (h t List.mem_cons_self)]

end Ty

end Gradual
