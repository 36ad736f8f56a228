import Mathlib.Logic.Relation
import Gradual.Proofs.Basic
import Gradual.Proofs.Call.Forest
import Gradual.Proofs.Types.Erasure

/-!
# Chains of constraints

Two types are linked when a chain of constraints leads from one to the other. A partition built from constraints decides that
relation: a class holds exactly the types that are linked (`mem_classOf_iff`), and the partition is consistent exactly when no
two linked types without unknowns differ (`isConsistent_iff`). `Tracks` is what every step of the construction keeps: the types
stand in trees, each once, both ends of a constraint have one root, and types of one root are linked.
-/

namespace Gradual

/-- Two types are linked when a chain of constraints, each followed one way or the other, leads from the first to the second. -/
def Linked (cs : List Constraint) : Ty → Ty → Prop :=
  Relation.EqvGen fun a b => ∃ c ∈ cs, a = .parameter c.1 ∧ b = c.2

namespace Linked

variable {cs : List Constraint} {a b c : Ty}

/-- A type is linked to itself. -/
theorem refl (a : Ty) : Linked cs a a := Relation.EqvGen.refl a

/-- A chain leads both ways. -/
theorem symm (h : Linked cs a b) : Linked cs b a := Relation.EqvGen.symm _ _ h

/-- Chains can be joined. -/
theorem trans (h : Linked cs a b) (h' : Linked cs b c) : Linked cs a c := Relation.EqvGen.trans _ _ _ h h'

/-- A constraint links its parameter and its type. -/
theorem of_mem {k : Constraint} (h : k ∈ cs) : Linked cs (.parameter k.1) k.2 := Relation.EqvGen.rel _ _ ⟨k, h, rfl, rfl⟩

/-- What every constraint respects, every chain respects. -/
theorem eq_of_respects {α : Sort*} (φ : Ty → α) (h : ∀ k ∈ cs, φ (.parameter k.1) = φ k.2) (hl : Linked cs a b) :
    φ a = φ b := by
  induction hl with
  | rel x y hxy =>
    obtain ⟨k, hk, rfl, rfl⟩ := hxy
    exact h k hk
  | refl x => rfl
  | symm x y _ ih => exact ih.symm
  | trans x y z _ _ ih₁ ih₂ => exact ih₁.trans ih₂

/-- More constraints link more types. -/
theorem mono {cs' : List Constraint} (h : ∀ k ∈ cs, k ∈ cs') (hl : Linked cs a b) : Linked cs' a b := by
  induction hl with
  | rel x y hxy =>
    obtain ⟨k, hk, rfl, rfl⟩ := hxy
    exact of_mem (h k hk)
  | refl x => exact refl x
  | symm x y _ ih => exact ih.symm
  | trans x y z _ _ ih₁ ih₂ => exact ih₁.trans ih₂

end Linked

/-- No two linked types without unknowns differ, up to the owners of generic parameters. -/
def Consistent (cs : List Constraint) : Prop :=
  ∀ a b, Linked cs a b → a.isOpen = false → b.isOpen = false → a.eraseOwners = b.eraseOwners

namespace Partition

variable {p q : Partition} {cs : List Constraint} {i j : Nat}

/-! ## The roots of types -/

/-- The root of the class of a type, if the partition has seen it. -/
def rootOf? (p : Partition) (t : Ty) : Option Nat := (p.types.idxOf? t).map fun i => (p.find i).1

/-- Where each type stands once, a type has the root of the place where it stands. -/
theorem rootOf?_eq_some_iff (h : p.types.Nodup) (t : Ty) (k : Nat) :
    p.rootOf? t = some k ↔ ∃ i : Nat, p.types[i]? = some t ∧ (p.find i).1 = k := by
  simp only [rootOf?, Option.map_eq_some_iff, idxOf?_eq_some_iff_getElem? h]

/-- The root of a type is a place of the partition. -/
theorem rootOf?_lt (hf : p.IsForest) (h : p.types.Nodup) {t : Ty} {k : Nat} (ht : p.rootOf? t = some k) : k < p.types.length := by
  obtain ⟨i, hi, hk⟩ := (rootOf?_eq_some_iff h t k).1 ht
  exact hf.root_lt (hf.find_eq_iff.1 hk) (List.getElem?_eq_some_iff.1 hi).1

/-- Reshaping a partition changes the root of no type. -/
theorem Reshapes.rootOf?_eq (h : p.Reshapes q) (hf : p.IsForest) (t : Ty) : q.rootOf? t = p.rootOf? t := by
  simp only [rootOf?, h.types_eq, h.find_eq hf]

/-- A type is found where it was put. -/
theorem idxOf?_node (p : Partition) (t : Ty) : (p.node t).2.types.idxOf? t = some (p.node t).1 := by
  unfold node
  split
  · assumption
  · rename_i hn
    simp only [List.idxOf?, List.findIdx?_append] at hn ⊢
    simp [hn]

/-- Seeing a type leaves all parents as they are: a new type is its own. -/
theorem parent_node (hf : p.IsForest) (t : Ty) (k : Nat) : (p.node t).2.parent k = p.parent k := by
  unfold node
  split
  · rfl
  · rcases Nat.lt_trichotomy k p.parents.length with hk | rfl | hk
    · simp [parent, List.getElem?_append_left hk]
    · rw [parent_of_le (Nat.le_refl _)]
      simp [parent, hf.length_eq]
    · rw [parent_of_le (Nat.le_of_lt hk), parent_of_le]
      simp only [List.length_append, List.length_singleton]
      omega

/-- A new type is a tree of its own. -/
theorem IsForest.node (hf : p.IsForest) (t : Ty) : (p.node t).2.IsForest := by
  have hparent := parent_node hf t
  obtain ⟨rank, hrank⟩ := hf.ranked
  cases ht : p.types.idxOf? t with
  | some k => simpa [Partition.node, ht] using hf
  | none =>
    have htypes : (p.node t).2.types = p.types ++ [t] := by simp [Partition.node, ht]
    have hparents : (p.node t).2.parents = p.parents ++ [p.types.length] := by simp [Partition.node, ht]
    refine ⟨by rw [htypes, hparents, List.length_append, List.length_append, hf.length_eq]; rfl, ?_, rank, ?_⟩
    · intro k hk
      rw [hparent, htypes, List.length_append, List.length_singleton]
      rw [htypes, List.length_append, List.length_singleton] at hk
      by_cases hlt : k < p.types.length
      · have := hf.parent_lt k hlt
        omega
      · rw [parent_of_le (by rw [hf.length_eq]; omega)]
        omega
    · intro k hk
      rw [hparent] at hk ⊢
      exact hrank k hk

/-- Partitions with the same parents have the same roots. -/
theorem Root.of_parent_eq {k r : Nat} (h : p.Root k r) (hq : ∀ k, q.parent k = p.parent k) : q.Root k r := by
  induction h with
  | here hr => exact .here (by rw [hq, hr])
  | above hk _ ih => exact .above (by rw [hq]; exact hk) (by rw [hq]; exact ih)

/-- The root of a type after another was seen. -/
theorem rootOf?_node (hf : p.IsForest) (t x : Ty) :
    (p.node t).2.rootOf? x = (p.rootOf? x).or (if x = t then some p.types.length else none) := by
  have hfind : ∀ k, ((p.node t).2.find k).1 = (p.find k).1 := by
    intro k
    rw [(hf.node t).find_eq_iff]
    exact (hf.find_eq_iff.1 rfl).of_parent_eq (parent_node hf t)
  simp only [rootOf?, hfind]
  unfold node
  split
  · rename_i k hk
    by_cases hx : x = t
    · rw [hx, hk]; rfl
    · simp [hx]
  · have hnew : (p.find p.types.length).1 = p.types.length :=
      hf.find_eq_iff.2 (.here (parent_of_le (Nat.le_of_eq hf.length_eq)))
    simp only [List.idxOf?, List.findIdx?_append, List.findIdx?_singleton]
    cases p.types.findIdx? (· == x) with
    | some k => simp
    | none =>
      by_cases hx : x = t
      · simp [hx, hnew]
      · simp [hx, Ne.symm hx]

/-- The root of a type after one root was put under another. -/
theorem rootOf?_link (hf : p.IsForest) (hj : p.parent j = j) (hi : p.parent i = i) (hij : i ≠ j) (hjlt : j < p.types.length)
    (hilt : i < p.types.length) (x : Ty) : (p.attach j i).rootOf? x = (p.rootOf? x).map fun k => if k = j then i else k := by
  have hfind : ∀ k, ((p.attach j i).find k).1 = if (p.find k).1 = j then i else (p.find k).1 := by
    intro k
    rw [(hf.link hj hi hij hjlt hilt).find_eq_iff]
    exact (hf.find_eq_iff.1 rfl).link hj hi hij (hf.length_eq ▸ hjlt)
  simp only [rootOf?, hfind, Option.map_map]
  rfl

/-- Making one class of two leaves a forest of the same types, in which the root of the first takes the place of the second's. The
second search goes through what the first one left, to the same root, and both end at roots of what the second leaves. -/
theorem rootOf?_union (hf : p.IsForest) (hi : i < p.types.length) (hj : j < p.types.length) :
    (p.union i j).IsForest ∧ (p.union i j).types = p.types ∧
      ∀ x, (p.union i j).rootOf? x = (p.rootOf? x).map fun k => if k = (p.find j).1 then (p.find i).1 else k := by
  obtain ⟨-, hroot, hshape⟩ := hf.findWithin_eq i
  obtain ⟨-, hroot', hshape'⟩ := hshape.forest.findWithin_eq j
  have hq := hshape.trans hshape'
  have hsame : ((p.find i).2.find j).1 = (p.find j).1 := hshape.find_eq hf j
  have hleft := (hq.root_iff _ _).2 hroot
  have hright := (hshape'.root_iff _ _).2 hroot'
  rw [hsame] at hright
  by_cases hij : (p.find i).1 = (p.find j).1
  · have hunion : p.union i j = ((p.find i).2.find j).2 := by simp only [union, hsame, if_pos hij]
    rw [hunion]
    refine ⟨hq.forest, hq.types_eq, fun x => ?_⟩
    rw [hq.rootOf?_eq hf, hij]
    cases p.rootOf? x with
    | none => rfl
    | some k => simp
  · have hunion : p.union i j = ((p.find i).2.find j).2.attach (p.find j).1 (p.find i).1 := by
      simp only [union, hsame, if_neg hij]
    have hjlt := hq.forest.root_lt hright (hq.types_eq ▸ hj)
    have hilt := hq.forest.root_lt hleft (hq.types_eq ▸ hi)
    rw [hunion]
    refine ⟨hq.forest.link hright.isRoot hleft.isRoot hij hjlt hilt, hq.types_eq, fun x => ?_⟩
    rw [rootOf?_link hq.forest hright.isRoot hleft.isRoot hij hjlt hilt, hq.rootOf?_eq hf]

/-! ## What the construction keeps -/

/-- A partition tracks constraints: its types stand in trees, each once, the two ends of a constraint have one root, and types of
one root are linked. -/
structure Tracks (p : Partition) (cs : List Constraint) : Prop where
  forest : p.IsForest
  nodup : p.types.Nodup
  joined : ∀ c ∈ cs, ∃ k, p.rootOf? (.parameter c.1) = some k ∧ p.rootOf? c.2 = some k
  linked : ∀ a b k, p.rootOf? a = some k → p.rootOf? b = some k → Linked cs a b

/-- The partition of no types is that of no constraints. -/
theorem tracks_empty : empty.Tracks [] := by
  refine ⟨⟨rfl, by simp [empty], fun _ => 0, ?_⟩, List.nodup_nil, by simp, by simp [empty, rootOf?]⟩
  intro i hi
  exact absurd (parent_of_le (Nat.zero_le i)) hi

/-- Reshaping a partition keeps track. -/
theorem Tracks.reshape (h : p.Tracks cs) (hq : p.Reshapes q) : q.Tracks cs := by
  refine ⟨hq.forest, hq.types_eq ▸ h.nodup, ?_, ?_⟩
  · simp only [hq.rootOf?_eq h.forest]
    exact h.joined
  · simp only [hq.rootOf?_eq h.forest]
    exact h.linked

/-- Seeing a type keeps track: a new type gets a root that no other has. -/
theorem Tracks.node (h : p.Tracks cs) (t : Ty) : (p.node t).2.Tracks cs := by
  cases ht : p.types.idxOf? t with
  | some k => simpa [Partition.node, ht] using h
  | none =>
    have htypes : (p.node t).2.types = p.types ++ [t] := by simp [Partition.node, ht]
    -- A root in the new partition is an old one, or that of `t`, which is no old one.
    have hl : ∀ x k, (p.node t).2.rootOf? x = some k → p.rootOf? x = some k ∨ x = t ∧ k = p.types.length := by
      intro x k hx
      rw [rootOf?_node h.forest] at hx
      cases hp : p.rootOf? x with
      | some i => left; simpa [hp] using hx
      | none =>
        right
        rw [hp, Option.none_or] at hx
        by_cases hxt : x = t
        · rw [if_pos hxt, Option.some.injEq] at hx
          exact ⟨hxt, hx.symm⟩
        · simp [hxt] at hx
    refine ⟨h.forest.node t, ?_, ?_, ?_⟩
    · rw [htypes, List.nodup_append]
      refine ⟨h.nodup, by simp, ?_⟩
      rintro x hx y hy rfl
      rw [List.idxOf?_eq_none_iff] at ht
      exact ht (List.mem_singleton.1 hy ▸ hx)
    · intro c hc
      obtain ⟨k, h₁, h₂⟩ := h.joined c hc
      exact ⟨k, by simp [rootOf?_node h.forest, h₁], by simp [rootOf?_node h.forest, h₂]⟩
    · intro a b k ha hb
      rcases hl a k ha with ha | ⟨rfl, hka⟩
      · rcases hl b k hb with hb | ⟨-, hkb⟩
        · exact h.linked a b k ha hb
        · have := rootOf?_lt h.forest h.nodup ha
          omega
      · rcases hl b k hb with hb | ⟨rfl, -⟩
        · have := rootOf?_lt h.forest h.nodup hb
          omega
        · exact Linked.refl b

/-- Making the class of a constraint's type one with the class of its parameter keeps track of that constraint too. -/
theorem Tracks.union (h : p.Tracks cs) {c : Constraint} (hi : p.types[i]? = some (.parameter c.1)) (hj : p.types[j]? = some c.2) :
    (p.union i j).Tracks (cs ++ [c]) := by
  obtain ⟨hforest, htypes, hroot⟩ :=
    rootOf?_union h.forest (List.getElem?_eq_some_iff.1 hi).1 (List.getElem?_eq_some_iff.1 hj).1
  have hi : p.rootOf? (.parameter c.1) = some (p.find i).1 := (rootOf?_eq_some_iff h.nodup _ _).2 ⟨i, hi, rfl⟩
  have hj : p.rootOf? c.2 = some (p.find j).1 := (rootOf?_eq_some_iff h.nodup _ _).2 ⟨j, hj, rfl⟩
  generalize (p.find i).1 = i' at hi hroot
  generalize (p.find j).1 = j' at hj hroot
  have hsub : ∀ k ∈ cs, k ∈ cs ++ [c] := fun k hk => List.mem_append_left _ hk
  have hc : Linked (cs ++ [c]) (.parameter c.1) c.2 := Linked.of_mem (List.mem_append_right _ (List.mem_singleton_self c))
  refine ⟨hforest, htypes ▸ h.nodup, ?_, ?_⟩
  · intro d hd
    rcases List.mem_append.1 hd with hd | hd
    · obtain ⟨k, h₁, h₂⟩ := h.joined d hd
      exact ⟨if k = j' then i' else k, by rw [hroot, h₁]; rfl, by rw [hroot, h₂]; rfl⟩
    · obtain rfl := List.mem_singleton.1 hd
      exact ⟨i', by simp [hroot, hi], by simp [hroot, hj]⟩
  · intro a b k ha hb
    rw [hroot, Option.map_eq_some_iff] at ha hb
    obtain ⟨x, hx, hxk⟩ := ha
    obtain ⟨y, hy, hyk⟩ := hb
    -- A type whose root was `i'` or `j'` is linked to the parameter of the constraint, straight or through its type.
    have hto : ∀ t l, p.rootOf? t = some l → (l = i' ∨ l = j') → Linked (cs ++ [c]) t (.parameter c.1) := by
      rintro t l ht (rfl | rfl)
      · exact (h.linked t _ l ht hi).mono hsub
      · exact ((h.linked t _ l ht hj).mono hsub).trans hc.symm
    by_cases hxj : x = j' <;> by_cases hyj : y = j'
    · exact (h.linked a b j' (hxj ▸ hx) (hyj ▸ hy)).mono hsub
    · rw [if_pos hxj] at hxk
      rw [if_neg hyj] at hyk
      exact (hto a x hx (Or.inr hxj)).trans (hto b y hy (Or.inl (hyk.trans hxk.symm))).symm
    · rw [if_neg hxj] at hxk
      rw [if_pos hyj] at hyk
      exact (hto a x hx (Or.inl (hxk.trans hyk.symm))).trans (hto b y hy (Or.inr hyj)).symm
    · rw [if_neg hxj] at hxk
      rw [if_neg hyj] at hyk
      subst hxk hyk
      exact (h.linked a b _ hx hy).mono hsub

/-- A type that was seen stays at its place. -/
theorem getElem?_node {t : Ty} (s : Ty) (h : p.types[i]? = some t) : (p.node s).2.types[i]? = some t := by
  unfold node
  split
  · exact h
  · rw [List.getElem?_append_left (List.getElem?_eq_some_iff.1 h).1]
    exact h

/-- Adding a constraint keeps track of it. -/
theorem Tracks.add (h : p.Tracks cs) (c : Constraint) : (p.add c).Tracks (cs ++ [c]) := by
  have hleft := h.node (.parameter c.1)
  have hright := hleft.node c.2
  refine hright.union (getElem?_node _ ?_) ?_
  · exact (idxOf?_eq_some_iff_getElem? hleft.nodup).1 (idxOf?_node _ _)
  · exact (idxOf?_eq_some_iff_getElem? hright.nodup).1 (idxOf?_node _ _)

/-- Constraints that are added one after the other are tracked. -/
theorem Tracks.foldl (h : p.Tracks cs) (ds : List Constraint) : (ds.foldl Partition.add p).Tracks (cs ++ ds) := by
  induction ds generalizing p cs with
  | nil => simpa using h
  | cons d ds ih => simpa using ih (h.add d)

/-- The partition built from constraints tracks them. -/
theorem tracks_ofConstraints (cs : List Constraint) : (ofConstraints cs).Tracks cs := tracks_empty.foldl cs

/-! ## Classes -/

/-- Linked types have the same root, or none of them has one. -/
theorem Tracks.rootOf?_eq (h : p.Tracks cs) {a b : Ty} (hl : Linked cs a b) : p.rootOf? a = p.rootOf? b := by
  refine hl.eq_of_respects p.rootOf? fun c hc => ?_
  obtain ⟨k, h₁, h₂⟩ := h.joined c hc
  rw [h₁, h₂]

/-- A type that the partition has not seen is linked to no other. -/
theorem Tracks.eq_of_linked (h : p.Tracks cs) {a b : Ty} (ha : p.rootOf? a = none) (hl : Linked cs a b) : b = a := by
  -- Every constraint joins two types that were seen, so the test `· = a` respects it.
  have hr : (a = a) = (b = a) := by
    refine hl.eq_of_respects (· = a) fun c hc => ?_
    obtain ⟨k, h₁, h₂⟩ := h.joined c hc
    have hne₁ : Ty.parameter c.1 ≠ a := by rintro rfl; simp [ha] at h₁
    have hne₂ : c.2 ≠ a := by rintro rfl; simp [ha] at h₂
    simp [hne₁, hne₂]
  exact hr ▸ rfl

/-- The types with their roots, as searches one after the other find them. -/
theorem IsForest.rooted_eq (hf : p.IsForest) :
    p.rooted.1 = p.types.zip ((List.range p.types.length).map fun i => (p.find i).1) ∧ p.Reshapes p.rooted.2 := by
  obtain ⟨hroots, hshape⟩ := hf.findAll_eq (List.range p.types.length)
  exact ⟨by rw [rooted, hroots], hshape⟩

/-- A type is listed with the root of its class. -/
theorem Tracks.mem_rooted_iff (h : p.Tracks cs) (t : Ty) (k : Nat) : (t, k) ∈ p.rooted.1 ↔ p.rootOf? t = some k := by
  rw [h.forest.rooted_eq.1, rootOf?_eq_some_iff h.nodup]
  constructor
  · intro hm
    obtain ⟨i, hi⟩ := List.getElem?_of_mem hm
    rw [List.getElem?_zip_eq_some] at hi
    have hlt : i < p.types.length := (List.getElem?_eq_some_iff.1 hi.1).1
    exact ⟨i, hi.1, by simpa [hlt] using hi.2⟩
  · rintro ⟨i, ht, hk⟩
    refine List.mem_of_getElem? (i := i) (List.getElem?_zip_eq_some.2 ⟨ht, ?_⟩)
    rw [List.getElem?_map, List.getElem?_range (List.getElem?_eq_some_iff.1 ht).1, Option.map_some, hk]

/-- The members of a root are the types that have it. -/
theorem Tracks.mem_withRoot_iff (h : p.Tracks cs) {t : Ty} {k : Nat} : t ∈ withRoot p.rooted.1 k ↔ p.rootOf? t = some k := by
  rw [← h.mem_rooted_iff]
  simp [withRoot]

/-- A search for the class of a type lists exactly the types that the type is linked to, and keeps track. -/
theorem Tracks.search (h : p.Tracks cs) (a : Ty) : (∀ t, t ∈ p.classOf a ↔ Linked cs a t) ∧ (p.search a).2.Tracks cs := by
  have hnode := h.node a
  obtain ⟨-, -, hshape⟩ := hnode.forest.findWithin_eq (p.node a).1
  have hfound := hnode.reshape hshape
  refine ⟨fun t => ?_, hfound.reshape hfound.forest.rooted_eq.2⟩
  have ha : (p.node a).2.rootOf? a = some ((p.node a).2.find (p.node a).1).1 := by rw [rootOf?, idxOf?_node]; rfl
  rw [classOf, Partition.search, hfound.mem_withRoot_iff, hshape.rootOf?_eq hnode.forest]
  exact ⟨fun ht => hnode.linked a t _ ha ht, fun hl => (hnode.rootOf?_eq hl).symm.trans ha⟩

/-- The class of a type holds exactly the types it is linked to. -/
theorem mem_classOf_iff (cs : List Constraint) (a t : Ty) : t ∈ (ofConstraints cs).classOf a ↔ Linked cs a t :=
  ((tracks_ofConstraints cs).search a).1 t

/-- Types agree exactly when any two of them are equal up to owners. -/
theorem agree_iff (ts : List Ty) : Ty.agree ts = true ↔ ∀ a ∈ ts, ∀ b ∈ ts, a.eraseOwners = b.eraseOwners := by
  cases ts with
  | nil => simp [Ty.agree]
  | cons t ts =>
    simp only [Ty.agree, List.all_eq_true, Ty.isCompatibleWith_iff]
    exact ⟨fun h a ha b hb => (h a ha).trans (h b hb).symm, fun h a ha => h a ha t List.mem_cons_self⟩

/-- The partition built from constraints is consistent exactly when they are. -/
theorem isConsistent_iff (cs : List Constraint) : (ofConstraints cs).isConsistent = true ↔ Consistent cs := by
  have h := tracks_ofConstraints cs
  simp only [isConsistent, List.all_eq_true, agree_iff, List.mem_filter, h.mem_withRoot_iff, Bool.not_eq_true']
  constructor
  · intro hc a b hl ha hb
    cases hk : (ofConstraints cs).rootOf? a with
    | none => rw [h.eq_of_linked hk hl]
    | some k => exact hc (a, k) ((h.mem_rooted_iff a k).2 hk) a ⟨hk, ha⟩ b ⟨(h.rootOf?_eq hl).symm.trans hk, hb⟩
  · rintro hc m - a ⟨ha, hao⟩ b ⟨hb, hbo⟩
    exact hc a b (h.linked a b _ ha hb) hao hbo

end Partition

end Gradual
