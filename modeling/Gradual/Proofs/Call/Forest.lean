import Mathlib.Data.Finset.Range
import Mathlib.Data.Finset.Card
import Gradual.Call.Partition

/-!
# The trees of a partition

The parents of a partition form trees when no path along them comes back: some rank falls from every place that is no root to its
parent (`IsForest`). Then every place stands under one root (`Root`), and the search for it ends, within as many turns as there
are types (`exists_findWithin`). A turn of the search puts a place under its grandparent, which keeps the rank and changes no root
(`IsForest.halve`). Putting a root under another makes one tree of two (`IsForest.link`, `Root.link`).
-/

namespace Gradual.Partition

variable {p q : Partition} {i j r : Nat}

/-! ## Parents -/

/-- What is no place of the partition is its own parent. -/
theorem parent_of_le (h : p.parents.length ≤ i) : p.parent i = i := by
  rw [parent, List.getElem?_eq_none h, Option.getD_none]

/-- A place that is not its own parent is a place of the partition. -/
theorem lt_of_parent_ne (h : p.parent i ≠ i) : i < p.parents.length := by
  by_contra hi
  exact h (parent_of_le (Nat.le_of_not_lt hi))

/-- Putting a place under another changes its parent and no other. -/
theorem parent_attach (hi : i < p.parents.length) (k : Nat) : (p.attach i j).parent k = if k = i then j else p.parent k := by
  by_cases hk : k = i
  · subst hk
    simp [parent, attach, hi]
  · simp [parent, attach, List.getElem?_set_ne (Ne.symm hk), hk]

/-- A place that was put under another has it for its parent. -/
theorem parent_attach_self (hi : i < p.parents.length) : (p.attach i j).parent i = j := by
  rw [parent_attach hi, if_pos rfl]

/-- Other places keep their parents. -/
theorem parent_attach_of_ne (hi : i < p.parents.length) {k : Nat} (hk : k ≠ i) : (p.attach i j).parent k = p.parent k := by
  rw [parent_attach hi, if_neg hk]

/-! ## Forests and roots -/

/-- A rank falls from every place that is no root to its parent. -/
def Ranks (p : Partition) (rank : Nat → Nat) : Prop := ∀ i, p.parent i ≠ i → rank (p.parent i) < rank i

/-- The parents of a partition are places of it, one for each type, and no path along them comes back. -/
structure IsForest (p : Partition) : Prop where
  length_eq : p.parents.length = p.types.length
  parent_lt : ∀ i < p.types.length, p.parent i < p.types.length
  ranked : ∃ rank, p.Ranks rank

/-- A path along parents leads from the place `i` to the root `r`. -/
inductive Root (p : Partition) : Nat → Nat → Prop
  | here {r : Nat} (h : p.parent r = r) : Root p r r
  | above {i r : Nat} (hi : p.parent i ≠ i) (h : Root p (p.parent i) r) : Root p i r

namespace Root

/-- The root above a place is its own parent. -/
theorem isRoot (h : p.Root i r) : p.parent r = r := by
  induction h with
  | here h => exact h
  | above _ _ ih => exact ih

/-- A place stands under one root only. -/
theorem unique {s : Nat} (h : p.Root i r) (h' : p.Root i s) : r = s := by
  induction h with
  | here hr =>
    cases h' with
    | here => rfl
    | above hi _ => exact absurd hr hi
  | above hi _ ih =>
    cases h' with
    | here hs => exact absurd hs hi
    | above _ h' => exact ih h'

/-- The parent of a place stands under the same root. -/
theorem parent (h : p.Root i r) : p.Root (p.parent i) r := by
  cases h with
  | here h => rw [h]; exact .here h
  | above _ h => exact h

end Root

namespace IsForest

/-- A root above a place of the partition is a place of it. -/
theorem root_lt (hf : p.IsForest) (h : p.Root i r) (hi : i < p.types.length) : r < p.types.length := by
  induction h with
  | here => exact hi
  | above _ _ ih => exact ih (hf.parent_lt _ hi)

/-- Every place stands under a root, by induction on the rank, which is lower at the parent. -/
theorem exists_root (hf : p.IsForest) (i : Nat) : ∃ r, p.Root i r := by
  obtain ⟨rank, hrank⟩ := hf.ranked
  induction hn : rank i using Nat.strongRecOn generalizing i with
  | ind n ih =>
    by_cases hi : p.parent i = i
    · exact ⟨i, .here hi⟩
    · obtain ⟨r, hr⟩ := ih (rank (p.parent i)) (hn ▸ hrank i hi) (p.parent i) rfl
      exact ⟨r, .above hi hr⟩

/-- A place may be put under one of lower rank. -/
theorem attach (hf : p.IsForest) {rank : Nat → Nat} (hrank : p.Ranks rank) (hi : i < p.types.length) (hj : j < p.types.length)
    (hlt : rank j < rank i) : (p.attach i j).IsForest ∧ (p.attach i j).Ranks rank := by
  have hi' : i < p.parents.length := hf.length_eq ▸ hi
  have hranks : (p.attach i j).Ranks rank := by
    intro k hk
    by_cases hki : k = i
    · subst hki
      rw [parent_attach_self hi']
      exact hlt
    · rw [parent_attach_of_ne hi' hki] at hk ⊢
      exact hrank k hk
  refine ⟨⟨?_, ?_, rank, hranks⟩, hranks⟩
  · rw [Partition.attach, List.length_set]
    exact hf.length_eq
  · intro k hk
    rw [parent_attach hi']
    split
    · exact hj
    · exact hf.parent_lt k hk

end IsForest

/-- One partition reshapes another when it is a forest of the same types with the same roots. -/
structure Reshapes (p q : Partition) : Prop where
  forest : q.IsForest
  types_eq : q.types = p.types
  root_iff : ∀ i r, q.Root i r ↔ p.Root i r

namespace Reshapes

/-- A forest has its own shape. -/
theorem refl (hf : p.IsForest) : p.Reshapes p := ⟨hf, rfl, fun _ _ => Iff.rfl⟩

/-- Reshaping twice is reshaping. -/
theorem trans {s : Partition} (h : p.Reshapes q) (h' : q.Reshapes s) : p.Reshapes s :=
  ⟨h'.forest, h'.types_eq.trans h.types_eq, fun i r => (h'.root_iff i r).trans (h.root_iff i r)⟩

/-- Forests of the same types have the same roots when those of the one are roots of the other. -/
theorem of_root (hp : p.IsForest) (hq : q.IsForest) (ht : q.types = p.types) (h : ∀ i r, p.Root i r → q.Root i r) :
    p.Reshapes q := by
  refine ⟨hq, ht, fun i r => ⟨fun hr => ?_, h i r⟩⟩
  obtain ⟨s, hs⟩ := hp.exists_root i
  rw [hr.unique (h i s hs)]
  exact hs

end Reshapes

/-! ## The search for a root -/

/-- Halving keeps a place under its root: it skips the parent of one place, which stands under the same root. -/
theorem Root.halve {k : Nat} (h : p.Root k r) (hi : i < p.parents.length) (hback : p.parent (p.parent i) = i → p.parent i = i) :
    (p.attach i (p.parent (p.parent i))).Root k r := by
  have hself := parent_attach_self (j := p.parent (p.parent i)) hi
  induction h with
  | @here s hs =>
    refine .here ?_
    by_cases hsi : s = i
    · subst hsi
      rw [hself, hs, hs]
    · rw [parent_attach_of_ne hi hsi, hs]
  | @above k r hk _ ih =>
    by_cases hki : k = i
    · subst hki
      have hgrand := ih.parent
      rw [parent_attach_of_ne hi hk] at hgrand
      exact .above (by rw [hself]; exact fun hb => hk (hback hb)) (by rw [hself]; exact hgrand)
    · have hsame := parent_attach_of_ne (j := p.parent (p.parent i)) hi hki
      exact .above (by rw [hsame]; exact hk) (by rw [hsame]; exact ih)

/-- A turn of the search keeps the rank and reshapes the partition. -/
theorem IsForest.halve (hf : p.IsForest) {rank : Nat → Nat} (hrank : p.Ranks rank) (hi : p.parent i ≠ i) :
    rank (p.parent (p.parent i)) < rank i ∧ (p.attach i (p.parent (p.parent i))).Ranks rank ∧
      p.Reshapes (p.attach i (p.parent (p.parent i))) := by
  have hlen := lt_of_parent_ne hi
  have hlt : i < p.types.length := hf.length_eq ▸ hlen
  have hgrand : rank (p.parent (p.parent i)) < rank i := by
    by_cases hp : p.parent (p.parent i) = p.parent i
    · rw [hp]
      exact hrank i hi
    · exact (hrank _ hp).trans (hrank i hi)
  obtain ⟨hforest, hranks⟩ := hf.attach hrank hlt (hf.parent_lt _ (hf.parent_lt i hlt)) hgrand
  have hback : p.parent (p.parent i) = i → p.parent i = i := by
    intro hb
    rw [hb] at hgrand
    exact absurd hgrand (Nat.lt_irrefl _)
  exact ⟨hgrand, hranks, .of_root hf hforest rfl fun k r hr => hr.halve hlen hback⟩

/-- The number of places of lower rank than a place. -/
def lower (p : Partition) (rank : Nat → Nat) (i : Nat) : Nat :=
  ((Finset.range p.types.length).filter fun j => rank j < rank i).card

/-- A lowered rank is bounded by the number of types. -/
theorem lower_le (p : Partition) (rank : Nat → Nat) (i : Nat) : p.lower rank i ≤ p.types.length := by
  have h := Finset.card_filter_le (Finset.range p.types.length) fun j => rank j < rank i
  rwa [Finset.card_range] at h

/-- Fewer places are of lower rank than a place of lower rank. -/
theorem lower_lt {rank : Nat → Nat} (hj : j < p.types.length) (h : rank j < rank i) : p.lower rank j < p.lower rank i := by
  refine Finset.card_lt_card (Finset.ssubset_iff_of_subset ?_ |>.2 ⟨j, ?_, ?_⟩)
  · intro k hk
    rw [Finset.mem_filter] at hk ⊢
    exact ⟨hk.1, hk.2.trans h⟩
  · exact Finset.mem_filter.2 ⟨Finset.mem_range.2 hj, h⟩
  · simp

/-- A search ends at the root, within as many turns as there are places of lower rank, and reshapes the partition. A place with no
lower one is a root, as its parent would be lower, and the grandparent stands under the root of the place. -/
theorem exists_findWithin (hf : p.IsForest) {rank : Nat → Nat} (hrank : p.Ranks rank) {turns : Nat}
    (ht : p.lower rank i ≤ turns) : ∃ r q, findWithin turns p i = some (r, q) ∧ p.Root i r ∧ p.Reshapes q := by
  induction turns generalizing p i with
  | zero =>
    have hi : p.parent i = i := by
      by_contra hi
      have hlt := hf.parent_lt i (hf.length_eq ▸ lt_of_parent_ne hi)
      have := lower_lt hlt (hrank i hi)
      omega
    exact ⟨i, p, by rw [findWithin, if_pos hi], .here hi, .refl hf⟩
  | succ turns ih =>
    rw [findWithin]
    by_cases hi : p.parent i = i
    · exact ⟨i, p, if_pos hi, .here hi, .refl hf⟩
    · obtain ⟨hgrand, hranks, hshape⟩ := hf.halve hrank hi
      have hlt := hf.parent_lt _ (hf.parent_lt i (hf.length_eq ▸ lt_of_parent_ne hi))
      have hfewer : p.lower rank (p.parent (p.parent i)) < p.lower rank i := lower_lt hlt hgrand
      obtain ⟨r, q, hq, hr, hq'⟩ := ih (p := p.attach i (p.parent (p.parent i))) hshape.forest hranks
        (show p.lower rank (p.parent (p.parent i)) ≤ turns by omega)
      refine ⟨r, q, by rw [if_neg hi]; exact hq, ?_, hshape.trans hq'⟩
      obtain ⟨s, hs⟩ := hf.exists_root i
      have hsame := hs.parent.parent.unique ((hshape.root_iff _ r).1 hr)
      exact hsame ▸ hs

/-- A search within as many turns as there are types ends, at the root above the place, and reshapes the partition. -/
theorem IsForest.findWithin_eq (hf : p.IsForest) (i : Nat) :
    findWithin p.types.length p i = some (p.find i) ∧ p.Root i (p.find i).1 ∧ p.Reshapes (p.find i).2 := by
  obtain ⟨rank, hrank⟩ := hf.ranked
  obtain ⟨r, q, hq, hr, hshape⟩ := exists_findWithin hf hrank (lower_le p rank i)
  have hfind : p.find i = (r, q) := by rw [find, hq, Option.getD_some]
  rw [hfind]
  exact ⟨hq, hr, hshape⟩

/-- The search for a root finds the root above the place. -/
theorem IsForest.find_eq_iff (hf : p.IsForest) : (p.find i).1 = r ↔ p.Root i r := by
  have h := (hf.findWithin_eq i).2.1
  exact ⟨fun hr => hr ▸ h, fun hr => h.unique hr⟩

/-- A search in a reshaped partition finds the same root. -/
theorem Reshapes.find_eq (h : p.Reshapes q) (hf : p.IsForest) (i : Nat) : (q.find i).1 = (p.find i).1 := by
  rw [h.forest.find_eq_iff, h.root_iff, ← hf.find_eq_iff]

/-- Searches one after the other find the roots of the partition they start from, and reshape it. -/
theorem IsForest.findAll_eq (hf : p.IsForest) (is : List Nat) :
    (p.findAll is).1 = is.map (fun i => (p.find i).1) ∧ p.Reshapes (p.findAll is).2 := by
  induction is generalizing p with
  | nil => exact ⟨rfl, .refl hf⟩
  | cons i is ih =>
    have hshape := (hf.findWithin_eq i).2.2
    obtain ⟨hroots, hrest⟩ := ih hshape.forest
    refine ⟨?_, hshape.trans hrest⟩
    rw [findAll, List.map_cons, hroots]
    exact congrArg _ (List.map_congr_left fun k _ => hshape.find_eq hf k)

/-! ## One root under another -/

/-- The places under a root that is put under another stand under that one, all others where they stood. -/
theorem Root.link {k : Nat} (h : p.Root k r) (hj : p.parent j = j) (hi : p.parent i = i) (hij : i ≠ j)
    (hlt : j < p.parents.length) : (p.attach j i).Root k (if r = j then i else r) := by
  have hroot : (p.attach j i).Root i i := .here (by rw [parent_attach_of_ne hlt hij, hi])
  induction h with
  | @here s hs =>
    by_cases hsj : s = j
    · subst hsj
      have hself := parent_attach_self (j := i) hlt
      rw [if_pos rfl]
      exact .above (by rw [hself]; exact hij) (by rw [hself]; exact hroot)
    · rw [if_neg hsj]
      exact .here (by rw [parent_attach_of_ne hlt hsj, hs])
  | @above k r hk _ ih =>
    have hkj : k ≠ j := by
      rintro rfl
      exact hk hj
    have hsame := parent_attach_of_ne (j := i) hlt hkj
    exact .above (by rw [hsame]; exact hk) (by rw [hsame]; exact ih)

/-- Putting a root under another leaves a forest, ranked by lifting the whole tree of the one above the other. -/
theorem IsForest.link (hf : p.IsForest) (hj : p.parent j = j) (hi : p.parent i = i) (hij : i ≠ j) (hjlt : j < p.types.length)
    (hilt : i < p.types.length) : (p.attach j i).IsForest := by
  obtain ⟨rank, hrank⟩ := hf.ranked
  have hfind : ∀ {k}, p.parent k = k → (p.find k).1 = k := fun hk => hf.find_eq_iff.2 (.here hk)
  let lifted : Nat → Nat := fun k => if (p.find k).1 = j then rank k + rank i + 1 else rank k
  have hlifted : p.Ranks lifted := by
    intro k hk
    have hsame : (p.find (p.parent k)).1 = (p.find k).1 := hf.find_eq_iff.2 (hf.find_eq_iff.1 rfl).parent
    have hlt := hrank k hk
    simp only [lifted, hsame]
    split <;> omega
  refine (hf.attach hlifted hjlt hilt ?_).1
  simp only [lifted, hfind hj, hfind hi, if_neg hij, if_true]
  omega

end Gradual.Partition
