import Mathlib
import Gradual.Proofs.Call.Check

/-!
# What a partition decides

A partition is built by steps: types are seen, roots are searched, constraints are added and classes are listed, in any order.
After any steps it tracks the constraints that were added (`tracks_after`), and holds the types that were seen, each once and in
the order of first sight (`types_after`). So the search for a root ends, types have one root exactly when a chain of the
constraints links them, and the class of a type lists those it is linked to in the order of first sight. Whether constraints are
consistent is then a question about their chains, and neither their order nor their number matters (`partition_decides_linked`).
-/

namespace Gradual.Partition

variable {p : Partition} {cs : List Constraint}

/-! ## Steps -/

/-- A step on a partition: a type is seen, the root above a place is searched, a constraint is added, or a class is listed. -/
inductive Step where
  | see (t : Ty)
  | find (place : Nat)
  | add (c : Constraint)
  | list (t : Ty)

namespace Step

/-- The partition after a step. -/
def run (p : Partition) : Step → Partition
  | see t => (p.node t).2
  | find i => (p.find i).2
  | add c => p.add c
  | list t => (p.search t).2

/-- The constraints that a step adds. -/
def constraints : Step → List Constraint
  | add c => [c]
  | _ => []

/-- The types that a step brings before the partition, in order. -/
def types : Step → List Ty
  | see t | list t => [t]
  | find _ => []
  | add c => [.parameter c.1, c.2]

end Step

/-- The partition after some steps, from none. -/
def after (steps : List Step) : Partition := steps.foldl Step.run empty

/-- The constraints that some steps add. -/
def added (steps : List Step) : List Constraint := steps.flatMap Step.constraints

/-- The types that some steps bring before the partition, in order and with repeats. -/
def brought (steps : List Step) : List Ty := steps.flatMap Step.types

/-! ## What steps keep -/

/-- A step keeps track, of what it adds too. -/
theorem Tracks.run (h : p.Tracks cs) (s : Step) : (s.run p).Tracks (cs ++ s.constraints) := by
  cases s with
  | see t => simpa [Step.constraints, Step.run] using h.node t
  | find i => simpa [Step.constraints, Step.run] using h.reshape (h.forest.findWithin_eq i).2.2
  | add c => exact h.add c
  | list t => simpa [Step.constraints, Step.run] using (h.search t).2

/-- Steps keep track. -/
theorem Tracks.runAll (h : p.Tracks cs) (steps : List Step) : (steps.foldl Step.run p).Tracks (cs ++ added steps) := by
  induction steps generalizing p cs with
  | nil => simpa [added] using h
  | cons s steps ih => simpa [added] using ih (h.run s)

/-- After any steps a partition tracks the constraints that they added. -/
theorem tracks_after (steps : List Step) : (after steps).Tracks (added steps) := tracks_empty.runAll steps

/-! ## The order of first sight -/

/-- A type that is looked up is seen. -/
theorem types_node (p : Partition) (t : Ty) : (p.node t).2.types = Ty.withSeen p.types t := by
  unfold node Ty.withSeen
  split
  · rename_i i hi
    have hmem : t ∈ p.types := by
      rw [← List.isSome_idxOf?, hi]
      rfl
    rw [if_pos (List.contains_iff_mem.2 hmem)]
  · rename_i hn
    rw [List.idxOf?_eq_none_iff] at hn
    rw [if_neg fun hc => hn (List.contains_iff_mem.1 hc)]

/-- A step adds to the types those that it brings and that are new. -/
theorem Tracks.types_run (h : p.Tracks cs) (s : Step) : (s.run p).types = s.types.foldl Ty.withSeen p.types := by
  cases s with
  | see t => exact types_node p t
  | find i => exact (h.forest.findWithin_eq i).2.2.types_eq
  | add c =>
    have hleft := h.node (.parameter c.1)
    have hright := hleft.node c.2
    have hi := getElem?_node c.2 ((idxOf?_eq_some_iff_getElem? hleft.nodup).1 (idxOf?_node p (.parameter c.1)))
    have hj := (idxOf?_eq_some_iff_getElem? hright.nodup).1 (idxOf?_node (p.node (.parameter c.1)).2 c.2)
    have hunion :=
      (rootOf?_union hright.forest (List.getElem?_eq_some_iff.1 hi).1 (List.getElem?_eq_some_iff.1 hj).1).2.1
    refine hunion.trans ?_
    rw [types_node, types_node]
    rfl
  | list t =>
    have hnode := h.node t
    have hshape := (hnode.forest.findWithin_eq (p.node t).1).2.2
    have hlisted := (hnode.reshape hshape).forest.rooted_eq.2
    exact (hlisted.types_eq.trans hshape.types_eq).trans (types_node p t)

/-- After any steps a partition holds the types that they brought, each where it was seen first. -/
theorem types_after (steps : List Step) : (after steps).types = Ty.distinct (brought steps) := by
  have hrun : ∀ {p cs}, Tracks p cs → (steps.foldl Step.run p).types = (brought steps).foldl Ty.withSeen p.types := by
    induction steps with
    | nil => exact fun _ => rfl
    | cons s steps ih =>
      intro p cs h
      rw [List.foldl_cons, ih (h.run s), h.types_run s, brought, brought, List.flatMap_cons, List.foldl_append]
  exact hrun tracks_empty

/-! ## Classes in the order of first sight -/

/-- Each type with the root of its class. -/
theorem Tracks.rooted_eq_map (h : p.Tracks cs) : p.rooted.1 = p.types.map fun t => (t, (p.rootOf? t).getD 0) := by
  rw [h.forest.rooted_eq.1]
  refine List.ext_getElem? fun i => ?_
  rw [List.getElem?_map]
  cases ht : p.types[i]? with
  | none =>
    rw [Option.map_none, List.getElem?_eq_none_iff, List.length_zip]
    exact (Nat.min_le_left _ _).trans (List.getElem?_eq_none_iff.1 ht)
  | some t =>
    have hroot : p.rootOf? t = some (p.find i).1 := (rootOf?_eq_some_iff h.nodup t _).2 ⟨i, ht, rfl⟩
    rw [Option.map_some, hroot, List.getElem?_zip_eq_some, List.getElem?_map,
      List.getElem?_range (List.getElem?_eq_some_iff.1 ht).1]
    exact ⟨ht, rfl⟩

open Classical in
/-- The class of a type lists the types it is linked to in the order of first sight. -/
theorem Tracks.classOf_eq (h : p.Tracks cs) (a : Ty) :
    p.classOf a = (Ty.withSeen p.types a).filter fun t => decide (Linked cs a t) := by
  have hnode := h.node a
  have hshape := (hnode.forest.findWithin_eq (p.node a).1).2.2
  have hfound := hnode.reshape hshape
  have hmem : ∀ t, t ∈ p.classOf a ↔ Linked cs a t := (h.search a).1
  rw [classOf, Partition.search, hfound.rooted_eq_map, ← types_node, ← hshape.types_eq]
  rw [classOf, Partition.search, hfound.rooted_eq_map] at hmem
  simp only [withRoot, List.filter_map, List.map_map, Function.comp_def, List.map_id', List.mem_filter] at hmem ⊢
  refine List.filter_congr fun t ht => ?_
  simp only [← hmem t, ht, true_and, Bool.decide_eq_true]

/-! ## What is decided -/

open Classical in
/-- Searches, connections, the order of first sight, and consistency, after any steps; a step is made of finer ones, so this is
about every search inside a step too. A search ends, at a root, within as many turns as there are types; every type stands once,
where it was seen first; two types have one root exactly when a chain of the added constraints links them; a class lists the
linked types in the order of first sight. Constraints are accepted exactly when they link no two incompatible types without
unknowns, so whatever their order, and however often one of them is repeated. -/
theorem partition_decides_linked (steps : List Step) (args : ArgTypes) :
    (∀ i < (after steps).types.length, findWithin (after steps).types.length (after steps) i = some ((after steps).find i) ∧
      ((after steps).find i).1 < (after steps).types.length ∧
      (after steps).parent ((after steps).find i).1 = ((after steps).find i).1) ∧
    (after steps).types = Ty.distinct (brought steps) ∧ (after steps).types.Nodup ∧
    (∀ (i j : Nat) (a b : Ty), (after steps).types[i]? = some a → (after steps).types[j]? = some b →
      (((after steps).find i).1 = ((after steps).find j).1 ↔ Linked (added steps) a b)) ∧
    (∀ a, (after steps).classOf a = (Ty.distinct (brought steps ++ [a])).filter fun t => decide (Linked (added steps) a t)) ∧
    (Declaration.checkConsistency (added steps) args = .ok () ↔ ∀ a b, Linked (added steps) a b → a.isOpen = false →
      b.isOpen = false → a.isCompatibleWith b = true) ∧
    ∀ cs, (∀ c, c ∈ cs ↔ c ∈ added steps) →
      Declaration.checkConsistency cs args = Declaration.checkConsistency (added steps) args := by
  have h := tracks_after steps
  have hseen := types_after steps
  refine ⟨?_, hseen, h.nodup, ?_, ?_, ?_, ?_⟩
  · intro i hi
    obtain ⟨hfind, hroot, -⟩ := h.forest.findWithin_eq i
    exact ⟨hfind, h.forest.root_lt hroot hi, hroot.isRoot⟩
  · intro i j a b ha hb
    have hra := (rootOf?_eq_some_iff h.nodup a _).2 ⟨i, ha, rfl⟩
    have hrb := (rootOf?_eq_some_iff h.nodup b _).2 ⟨j, hb, rfl⟩
    constructor
    · intro hij
      exact h.linked a b _ hra (hij ▸ hrb)
    · intro hl
      rw [h.rootOf?_eq hl, hrb] at hra
      exact (Option.some.inj hra).symm
  · intro a
    rw [h.classOf_eq, hseen, Ty.distinct, Ty.distinct, List.foldl_append]
    rfl
  · rw [Declaration.checkConsistency_ok_iff]
    simp only [Consistent, Ty.isCompatibleWith_iff]
  · intro cs hcs
    have hiff : (ofConstraints cs).isConsistent = (ofConstraints (added steps)).isConsistent := by
      rw [Bool.eq_iff_iff, isConsistent_iff, isConsistent_iff]
      constructor
      · intro hc a b hl
        exact hc a b (hl.mono fun c hm => (hcs c).2 hm)
      · intro hc a b hl
        exact hc a b (hl.mono fun c hm => (hcs c).1 hm)
    rw [Declaration.checkConsistency, Declaration.checkConsistency, hiff]

/-- The unknown `T` of a call of `swap` is to be the unknown `U`, then a number, and `U` a text, with searches in between. -/
def swapSteps : List Step :=
  [.add (⟨"T", "swap", some "call"⟩, .parameter ⟨"U", "swap", some "call"⟩), .find 1,
    .add (⟨"T", "swap", some "call"⟩, .number), .list (.parameter ⟨"U", "swap", some "call"⟩), .find 2,
    .add (⟨"U", "swap", some "call"⟩, .string)]

/-- A chain leads from numbers to texts, all four types are in one class, and the constraints are refused. -/
theorem swap_refused :
    Linked (added swapSteps) .number .string ∧
      (after swapSteps).classOf .string =
        [.parameter ⟨"T", "swap", some "call"⟩, .parameter ⟨"U", "swap", some "call"⟩, .number, .string] ∧
      Declaration.checkConsistency (added swapSteps) [some .number, some .string] ≠ .ok () := by
  obtain ⟨-, -, -, hroots, -, hconsistent, -⟩ := partition_decides_linked swapSteps [some .number, some .string]
  have hnumber : (after swapSteps).types[2]? = some .number := by cbv
  have hstring : (after swapSteps).types[3]? = some .string := by cbv
  have hlinked : Linked (added swapSteps) .number .string := (hroots 2 3 _ _ hnumber hstring).1 (by cbv)
  refine ⟨hlinked, by cbv, fun hok => ?_⟩
  have hcompatible := hconsistent.1 hok _ _ hlinked (by decide) (by decide)
  have hnot : Ty.number.isCompatibleWith .string = false := by cbv
  rw [hnot] at hcompatible
  cases hcompatible

end Gradual.Partition
