import Gradual.Proofs.Call.Renamed
import Gradual.Proofs.Call.Solvable

/-!
# The unknowns of a use

Where a declaration is used, its own generic parameters are renamed to unknowns of that use, and nothing else is renamed
(`Declaration.instantiate_eq_rename`). The renaming can be taken back, since an unknown remembers its origin, and an instance
moves to another site as the declaration does.

What keeps the unknowns of two uses apart is how they are written: the owner, a mark and the site. An owner that is written
without a mark ends where the first mark stands, so the text of an unknown tells owner and site (`GenericParameter.Legible`). So
no two uses share an unknown, and no type without a mark mentions one (`instantiate_reversible_apart`).
-/

namespace Gradual

/-! ## Owners in writing -/

namespace GenericParameter

/-- A generic parameter as it is written: its name, and the text of its owner. -/
def written (p : GenericParameter) : String × String := (p.name, p.ownerText)

/-- A generic parameter whose owner is written without a mark. -/
def Unmarked (p : GenericParameter) : Prop := siteMark ∉ p.ownerText.toList

/-- What stands before the first mark in the text of an owner. -/
def beforeMark (owner : String) : String := String.ofList (owner.toList.takeWhile (· ≠ siteMark))

/-- The text of the owner tells all about a generic parameter: whether it is an unknown, by a mark in the text; its origin, by
what stands before the first mark; and what it is at another site, which is written in place of all that follows. -/
structure Legible (p : GenericParameter) : Prop where
  read_back : ofOwnerText p.name p.ownerText = p
  isUnknown_iff : p.isUnknown = true ↔ siteMark ∈ p.ownerText.toList
  origin : p.origin.ownerText = beforeMark p.ownerText
  unknownAt : ∀ site, (p.unknownAt site).ownerText = beforeMark p.ownerText ++ siteMark.toString ++ site

variable {p q : GenericParameter}

/-- The text of an owner is the owner, and a mark and the site if there is one. -/
theorem toList_ownerText (p : GenericParameter) :
    p.ownerText.toList = p.owner.toList ++ p.site.elim [] (siteMark :: ·.toList) := by
  unfold ownerText
  cases p.site <;> simp [Char.toString]

/-- Cut at its first mark, the text of an owner without a mark gives the owner, and then the site if there is one. -/
theorem cut_ownerText (h : siteMark ∉ p.owner.toList) :
    p.ownerText.toList.takeWhile (· ≠ siteMark) = p.owner.toList ∧
      p.ownerText.toList.dropWhile (· ≠ siteMark) = p.site.elim [] (siteMark :: ·.toList) := by
  have hall : ∀ c ∈ p.owner.toList, decide (c ≠ siteMark) = true := by
    intro c hc
    exact decide_eq_true fun heq => h (heq ▸ hc)
  rw [toList_ownerText, List.takeWhile_append_of_pos hall, List.dropWhile_append_of_pos hall]
  cases p.site <;> simp

/-- A generic parameter whose owner has no mark is legible, whether or not it has a site. -/
theorem legible_of_owner (h : siteMark ∉ p.owner.toList) : p.Legible := by
  obtain ⟨htake, hdrop⟩ := cut_ownerText h
  have hbefore : beforeMark p.ownerText = p.owner := by rw [beforeMark, htake, String.ofList_toList]
  refine ⟨?_, ?_, hbefore.symm, fun site => ?_⟩
  · obtain ⟨n, o, s⟩ := p
    cases s with
    | none =>
      simp only [ofOwnerText, hdrop, Option.elim_none]
      rfl
    | some site => simp only [ofOwnerText, hdrop, Option.elim_some, htake, String.ofList_toList]
  · rw [toList_ownerText, isUnknown]
    cases p.site <;> simp [h]
  · rw [hbefore]
    rfl

/-- Legible parameters that are written alike are the same. -/
theorem Legible.eq_of_written (hp : p.Legible) (hq : q.Legible) (h : p.written = q.written) : p = q := by
  obtain ⟨hname, htext⟩ := Prod.mk.inj h
  rw [← hp.read_back, ← hq.read_back, hname, htext]

/-- The owner of an unmarked parameter has no mark in it. -/
theorem Unmarked.owner (h : p.Unmarked) : siteMark ∉ p.owner.toList := by
  rw [Unmarked, toList_ownerText] at h
  exact fun hmem => h (List.mem_append_left _ hmem)

/-- An unmarked parameter is no unknown. -/
theorem Unmarked.isUnknown (h : p.Unmarked) : p.isUnknown = false := by
  rw [← Bool.not_eq_true, (legible_of_owner h.owner).isUnknown_iff]
  exact h

end GenericParameter

/-! ## Places in a type -/

namespace Ty

/-- A type whose generic parameters have owners that are written without a mark. -/
def Unmarked (t : Ty) : Prop := ∀ p, t.contains (.parameter p) = true → p.Unmarked

/-- What stands at a place in a type; a place is the way to it, as positions among the direct parts. -/
def part? (t : Ty) : List Nat → Option Ty
  | [] => some t
  | i :: place => t.children[i]?.bind fun c => c.part? place

/-- What stands at a place of a renamed type is what stood there, renamed. -/
theorem part?_rename (f : GenericParameter → GenericParameter) (t : Ty) (place : List Nat) :
    (t.rename f).part? place = (t.part? place).map (rename f) := by
  induction place generalizing t with
  | nil => rfl
  | cons i place ih =>
    rw [part?, part?, children_rename, List.getElem?_map]
    cases t.children[i]? with
    | none => rfl
    | some c => exact ih c

end Ty

/-! ## Declarations without marks -/

namespace Declaration

/-- A declaration that mentions no owner with a mark. -/
def Unmarked (d : Declaration) : Prop := ∀ p, d.Mentions p → p.Unmarked

variable {d : Declaration}

namespace Unmarked

variable (hd : d.Unmarked) {site : String} {q : GenericParameter}
include hd

/-- All that an instance mentions is legible. -/
theorem legible (h : (d.instantiate site).Mentions q) : q.Legible := by
  obtain ⟨p, hp, rfl⟩ := exists_of_mentions_instantiate h
  refine GenericParameter.legible_of_owner ?_
  rw [owner_inUse]
  exact (hd p hp).owner

/-- The unknowns of an instance are at its site. -/
theorem site_eq (h : (d.instantiate site).Mentions q) (hq : q.isUnknown = true) : q.site = some site := by
  obtain ⟨p, hp, rfl⟩ := exists_of_mentions_instantiate h
  cases ho : d.owns p with
  | true => rw [inUse_of_owns ho, GenericParameter.site_unknownAt]
  | false =>
    rw [inUse_of_not_owns ho, (hd p hp).isUnknown] at hq
    cases hq

/-- Going back to the origins of its generic parameters turns an instance into the declaration: whether or not a parameter is made
an unknown, its origin is that of the unknown. -/
theorem rename_origin : (d.instantiate site).rename GenericParameter.origin = d := by
  rw [instantiate_eq_rename, rename_rename]
  refine (rename_congr fun p hp => ?_).trans (rename_id d)
  have horigin : (d.inUse site p).origin = (p.unknownAt site).origin := by
    unfold inUse
    split <;> rfl
  rw [horigin, GenericParameter.origin_unknownAt (hd p hp).isUnknown]

/-- An instance moves to another site as the declaration does. -/
theorem instantiate_instantiate (site' : String) : (d.instantiate site).instantiate site' = d.instantiate site' := by
  rw [instantiate_eq_rename (d.instantiate site), instantiate_eq_rename d site', instantiate_eq_rename d site, rename_rename]
  refine rename_congr fun p hp => ?_
  rw [← instantiate_eq_rename d site]
  cases ho : d.owns p with
  | true =>
    have hmoved : (d.instantiate site).owns (p.unknownAt site) = true := by
      rw [owns_iff, instantiate_parameters]
      exact List.mem_map_of_mem ((d.owns_iff p).1 ho)
    rw [inUse_of_owns ho, inUse_of_owns ho, inUse_of_owns hmoved]
    rfl
  | false =>
    have hkept : (d.instantiate site).owns p = false := by
      rw [← Bool.not_eq_true, owns_iff]
      intro hmem
      exact Bool.eq_false_iff.1 (hd p hp).isUnknown (d.isUnknown_of_mem_instantiate hmem)
    rw [inUse_of_not_owns ho, inUse_of_not_owns ho, inUse_of_not_owns hkept]

end Unmarked

/-! ## Uses are apart -/

/-- The second declaration is the first in a use at `site`. -/
structure IsInstance (d : Declaration) (site : String) (e : Declaration) : Prop where
  /-- With the origins of its generic parameters in their places it is the declaration again. -/
  origins : e.rename GenericParameter.origin = d
  own : ∀ place p, d.owns p = true → d.functionType.part? place = some (.parameter p) →
    e.functionType.part? place = some (.parameter (p.unknownAt site))
  other : ∀ place p, d.owns p = false → d.functionType.part? place = some (.parameter p) →
    e.functionType.part? place = some (.parameter p)
  parameters : e.parameters = d.parameters.map (·.unknownAt site)
  unknown : ∀ p ∈ e.parameters, p.isUnknown = true
  /-- Its own generic parameters occur in no type that mentions no mark, not even in writing. -/
  fresh : ∀ p ∈ e.parameters, ∀ t : Ty, t.Unmarked → ∀ q, t.contains (.parameter q) = true → q.written ≠ p.written
  legible : ∀ p, e.Mentions p → p.Legible

/-- Two declarations that share no unknown, not even in writing. -/
def Apart (d e : Declaration) : Prop :=
  ∀ p q, d.Mentions p → e.Mentions q → p.isUnknown = true → q.isUnknown = true → p.written ≠ q.written

/-- What stands at a place of an instance is what the generic parameter there is in the use. -/
theorem part?_instantiate (d : Declaration) (site : String) {place : List Nat} {p : GenericParameter}
    (h : d.functionType.part? place = some (.parameter p)) :
    (d.instantiate site).functionType.part? place = some (.parameter (d.inUse site p)) := by
  rw [instantiate_eq_rename, functionType_rename, Ty.part?_rename, h]
  rfl

/-- Instantiating an unmarked declaration puts it in use. -/
theorem Unmarked.isInstance (hd : d.Unmarked) (site : String) : d.IsInstance site (d.instantiate site) where
  origins := hd.rename_origin
  own place p ho hp := by rw [d.part?_instantiate site hp, inUse_of_owns ho]
  other place p ho hp := by rw [d.part?_instantiate site hp, inUse_of_not_owns ho]
  parameters := d.instantiate_parameters site
  unknown p hp := d.isUnknown_of_mem_instantiate hp
  fresh p hp t ht q hq heq := by
    have hmark := (hd.legible (Or.inl hp)).isUnknown_iff.1 (d.isUnknown_of_mem_instantiate hp)
    rw [← (Prod.mk.inj heq).2] at hmark
    exact ht q hq hmark
  legible p hp := hd.legible hp

/-- Uses at different sites share no unknown. -/
theorem Unmarked.apart {e : Declaration} (hd : d.Unmarked) (he : e.Unmarked) {site site' : String} (hne : site ≠ site') :
    Apart (d.instantiate site) (e.instantiate site') := by
  intro p q hp hq hpu hqu heq
  obtain rfl := (hd.legible hp).eq_of_written (he.legible hq) heq
  exact hne (Option.some.inj ((hd.site_eq hp hpu).symm.trans (he.site_eq hq hqu)))

/-- Instantiation renames a declaration reversibly, into unknowns that no other use has. An instance of a declaration without
marks has unknowns for the declaration's own generic parameters, in the same places, and is the same elsewhere; the origins of its
generic parameters give the declaration back. Its instance at another site is that of the declaration. Instances at different
sites share no unknown, whichever declarations they are made from; so in a call neither do the callee and a generic function that
is passed, nor two that are passed at different places. -/
theorem instantiate_reversible_apart (d : Declaration) (hd : d.Unmarked) :
    (∀ site, d.IsInstance site (d.instantiate site)) ∧
      (∀ site site', (d.instantiate site).instantiate site' = d.instantiate site') ∧
      ∀ e : Declaration, e.Unmarked →
        (∀ site site', site ≠ site' → Apart (d.instantiate site) (e.instantiate site')) ∧
        (∀ i, Apart (d.instantiate callSite) (e.instantiate (Scope.argumentSite i))) ∧
        ∀ i j, i ≠ j → Apart (d.instantiate (Scope.argumentSite i)) (e.instantiate (Scope.argumentSite j)) := by
  refine ⟨hd.isInstance, fun site site' => hd.instantiate_instantiate site', fun e he => ⟨?_, ?_, ?_⟩⟩
  · intro site site' hne
    exact hd.apart he hne
  · intro i
    exact hd.apart he (Scope.argumentSite_ne_callSite i).symm
  · intro i j hne
    exact hd.apart he fun h => hne (Scope.argumentSite_injective h)

/-- A function that puts its first argument into a vector. Its second has a type of the function around it, whose generic
parameter has the same name. -/
def wrapSignature : Declaration :=
  ⟨"wrap", some [.declared "T" "wrap"], ["a", "b"], [.parameter (.declared "T" "wrap"), .parameter (.declared "T" "outer")],
    .applied "Vector" [.parameter (.declared "T" "wrap")]⟩

/-- A function that is passed to itself has two unknowns for its generic parameter, and the one around it stays. -/
theorem wrapSignature_passed_to_itself :
    wrapSignature.Unmarked ∧ wrapSignature.IsInstance callSite (wrapSignature.instantiate callSite) ∧
      (wrapSignature.instantiate callSite).parameters.map (·.written) = [("T", "wrap#call")] ∧
      (wrapSignature.instantiate callSite).types[1]? = some (.parameter (.declared "T" "outer")) ∧
      (wrapSignature.instantiate callSite).instantiate (Scope.argumentSite 0) = wrapSignature.instantiate (Scope.argumentSite 0) ∧
      Apart (wrapSignature.instantiate callSite) (wrapSignature.instantiate (Scope.argumentSite 0)) := by
  have hwrap : wrapSignature.Unmarked := by
    have hown : (GenericParameter.declared "T" "wrap").Unmarked := by unfold GenericParameter.Unmarked; decide
    have houter : (GenericParameter.declared "T" "outer").Unmarked := by unfold GenericParameter.Unmarked; decide
    rintro p (hp | hp)
    · obtain rfl : p = .declared "T" "wrap" := by simpa [wrapSignature, parameters] using hp
      exact hown
    · simp only [wrapSignature, functionType, Ty.contains, Ty.containsIn, reduceCtorEq, Ty.parameter.injEq, decide_false,
        Bool.false_or, Bool.or_false, Bool.or_eq_true, decide_eq_true_eq] at hp
      rcases hp with (rfl | rfl) | rfl
      · exact hown
      · exact houter
      · exact hown
  obtain ⟨hinstance, hmoved, hapart⟩ := instantiate_reversible_apart wrapSignature hwrap
  exact ⟨hwrap, hinstance callSite, by decide, by decide, hmoved callSite _, (hapart wrapSignature hwrap).2.1 0⟩

end Declaration

end Gradual
