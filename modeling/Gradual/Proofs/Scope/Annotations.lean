import Mathlib.Data.Fintype.EquivFin
import Gradual.Proofs.Call.Renamed
import Gradual.Proofs.Scope.Closed
import Gradual.Proofs.Scope.Names
import Gradual.Proofs.Tree.Rename

/-!
# Annotations and signatures under other names

A tree may be read in two scopes that have the same types under other names: where the tree has the name `n`, the first is asked
for `ν n` and the second for `ν' n`, and where these are generic parameters, `h` renames the one to the other (`TypesMatch`). What
an annotation stands for in the first scope it stands for in the second, renamed by `h` (`agree_resolve`); so it is with the
signatures of functions and methods and with the layouts of records, and a function may have other names for its own generic
parameters (`agree_functionDeclaration`). Two things could come between the scopes, and are asked of the parts of the tree
(`Place.Fits`): that a name `y`, which one scope binds anew, is used for a type, and that a renamed parameter is applied to type
arguments.
-/

namespace Gradual

/-! ## What is asked of the parts of a tree -/

/-- A part of a program neither uses the name `y` for a type nor applies a name that is renamed. -/
def Part.Fits (ν : String → String) (y : String) (part : Part) : Prop :=
  y ∉ part.typeNames ∧ ∀ n, part.applied? = some n → ν n = n

/-- What fits a renaming fits where nothing is renamed. -/
theorem Part.Fits.keepAll {ν : String → String} {y : String} {part : Part} (h : part.Fits ν y) : part.Fits id y :=
  ⟨h.1, fun _ _ => rfl⟩

/-- A place does not use the name `y` for a type, and does not apply a generic parameter that is renamed. -/
def Place.Fits (ν : String → String) (y : String) (q : Place) : Prop :=
  y ∉ q.part.typeNames ∧ ∀ n, ν n ≠ n → q.names.kind? n = some .generic → q.part.applied? ≠ some n

/-- A place does not use the name `y` for a type. -/
def Place.Avoids (y : String) (q : Place) : Prop := y ∉ q.part.typeNames

/-- A place that avoids a name fits where nothing is renamed. -/
theorem Place.Avoids.fits {y : String} {q : Place} (h : q.Avoids y) : q.Fits id y := ⟨h, fun _ hn => absurd rfl hn⟩

/-- What stands at a place that avoids a name fits two scopes in which nothing is renamed. -/
theorem Place.Avoids.parts {y : String} {q : Place} (h : q.Avoids y) : q.part.Fits id y ∧ q.part.Fits id y :=
  ⟨⟨h, fun _ _ => rfl⟩, h, fun _ _ => rfl⟩

/-- Some name is avoided by given places. -/
theorem Place.exists_avoided (qs : List Place) : ∃ y, ∀ q ∈ qs, q.Avoids y := by
  obtain ⟨y, hy⟩ := Infinite.exists_notMem_finset (qs.flatMap fun q => q.part.typeNames).toFinset
  refine ⟨y, fun q hq hm => hy ?_⟩
  rw [List.mem_toFinset, List.mem_flatMap]
  exact ⟨q, hq, hm⟩

/-- A place binds no generic parameter that `σ` renames. -/
def Place.Keeps (σ : String → String) (q : Place) : Prop := ∀ n ∈ q.part.generics, σ n = n

/-- The names that are renamed stand for generic parameters. -/
def Names.Covers (Γ : Names) (ν : String → String) : Prop := ∀ n, ν n ≠ n → Γ.kind? n = some .generic

/-- Where more names are kept, less is renamed. -/
theorem ne_of_keeping {ν : String → String} {ns : List String} {n : String} (h : keeping ν ns n ≠ n) : n ∉ ns ∧ ν n ≠ n := by
  unfold keeping at h
  by_cases hn : n ∈ ns
  · simp [hn] at h
  · simpa [hn] using h

/-- A place fits still when fewer names are renamed. -/
theorem Place.Fits.keeping {ν : String → String} {y : String} {q : Place} (h : q.Fits ν y) (ns : List String) :
    q.Fits (keeping ν ns) y :=
  ⟨h.1, fun n hn => h.2 n (ne_of_keeping hn).2⟩

/-- The statements after a statement. -/
theorem Place.Fits.after {ν : String → String} {y : String} {q : Place} (h : q.Fits ν y) (st : Stmt) :
    q.Fits (st.renamingAfter ν) y := by
  cases st with
  | record n fields is span => exact h.keeping [n]
  | _ => exact h

/-- A place fits in two scopes that are asked for the types `ν n` and `ν' n` where it names `n`, and binds no generic parameter
that `σ` renames. -/
def Place.Suits (σ ν ν' : String → String) (y : String) (q : Place) : Prop := q.Fits ν y ∧ q.Fits ν' y ∧ q.Keeps σ

/-- A place suits two scopes still when fewer names are renamed. -/
theorem Place.Suits.keeping {σ ν ν' : String → String} {y : String} {q : Place} (h : q.Suits σ ν ν' y) (ns : List String) :
    q.Suits σ (keeping ν ns) (keeping ν' ns) y :=
  ⟨h.1.keeping ns, h.2.1.keeping ns, h.2.2⟩

/-- The statements after a statement suit two scopes still. -/
theorem Place.Suits.after {σ ν ν' : String → String} {y : String} {q : Place} (h : q.Suits σ ν ν' y) (st : Stmt) :
    q.Suits σ (st.renamingAfter ν) (st.renamingAfter ν') y :=
  ⟨h.1.after st, h.2.1.after st, h.2.2⟩

namespace Names

variable {Γ : Names} {ν : String → String} {y : String}

/-- Generic parameters are generic types, and hide what had their names. -/
theorem kind?_addGenerics (Γ : Names) (generics : List String) (n : String) :
    (Γ.addGenerics generics).kind? n = if n ∈ generics then some .generic else Γ.kind? n := by
  unfold addGenerics
  induction generics generalizing Γ with
  | nil => simp
  | cons g gs ih =>
    rw [List.foldl_cons, ih, addType, kind?, lookup_cons_ite]
    by_cases hn : n = g
    · simp [hn]
    · simp [hn, kind?]

/-- Methods leave the types as they are. -/
theorem kind?_addMethods (Γ : Names) (is : List Implementation) (n : String) : (Γ.addMethods is).kind? n = Γ.kind? n := by
  unfold addMethods
  induction is generalizing Γ with
  | nil => rfl
  | cons i is ih => rw [List.foldl_cons, ih, kind?_addValues]

/-- Any names cover renaming nothing. -/
theorem covers_id (Γ : Names) : Γ.Covers id := fun _ hn => absurd rfl hn

namespace Covers

/-- What names cover hangs on their types only. -/
theorem congr (h : Γ.Covers ν) {Γ' : Names} (hk : ∀ n, Γ'.kind? n = Γ.kind? n) : Γ'.Covers ν :=
  fun n hn => (hk n).trans (h n hn)

/-- A value leaves what the names cover as it is. -/
theorem addValue (h : Γ.Covers ν) (n : String) : (Γ.addValue n).Covers ν := h

/-- Values leave what the names cover as it is. -/
theorem addValues (h : Γ.Covers ν) (ns : List String) : (Γ.addValues ns).Covers ν := h.congr (Γ.kind?_addValues ns)

/-- A function binds its generic parameters anew. -/
theorem addGenerics (h : Γ.Covers ν) (generics : List String) : (Γ.addGenerics generics).Covers (keeping ν generics) := by
  intro n hn
  obtain ⟨hg, hν⟩ := ne_of_keeping hn
  rw [kind?_addGenerics, if_neg hg, h n hν]

/-- A record binds its name anew. -/
theorem addRecord (h : Γ.Covers ν) (n : String) (fields : List Param) : (Γ.addRecord n fields).Covers (keeping ν [n]) := by
  intro m hm
  obtain ⟨hn, hν⟩ := ne_of_keeping hm
  rw [List.mem_singleton] at hn
  rw [Names.addRecord, kind?_addValue, addType, kind?, lookup_cons_ite, if_neg hn]
  exact h m hν

/-- The statements after a statement. -/
theorem after (h : Γ.Covers ν) (st : Stmt) : (Γ.after st).Covers (st.renamingAfter ν) := by
  cases st with
  | record n fields is span => exact (h.addRecord n fields).congr (kind?_addMethods _ is)
  | _ => exact h

end Covers

mutual

/-- The parts of an annotation see the names that it sees. -/
theorem names_of_placesOfType : ∀ (a : Annotation), ∀ q ∈ Γ.placesOfType a, q.names = Γ
  | .named n as span => by
    rw [placesOfType, List.forall_mem_cons]
    exact ⟨rfl, names_of_placesOfTypes as⟩
  | .function ps r span => by
    rw [placesOfType, List.forall_mem_cons, List.forall_mem_append]
    exact ⟨rfl, names_of_placesOfTypes ps, names_of_placesOfType r⟩

/-- The places of annotations see the names where the annotations stand. -/
theorem names_of_placesOfTypes : ∀ (as : List Annotation), ∀ q ∈ Γ.placesOfTypes as, q.names = Γ
  | [] => List.forall_mem_nil _
  | a :: as => by
    rw [placesOfTypes, List.forall_mem_append]
    exact ⟨names_of_placesOfType a, names_of_placesOfTypes as⟩

end

/-- Annotations whose places fit are renamed soundly. -/
theorem Covers.fits (h : Γ.Covers ν) {as : List Annotation} (hq : ∀ q ∈ Γ.placesOfTypes as, q.Fits ν y) :
    ∀ q ∈ Γ.placesOfTypes as, q.part.Fits ν y := by
  intro q hm
  refine ⟨(hq q hm).1, fun n hn => ?_⟩
  by_contra hν
  refine (hq q hm).2 n hν ?_ hn
  rw [names_of_placesOfTypes as q hm]
  exact h n hν

/-- Annotations whose places suit two scopes are read soundly in both. -/
theorem fits_of_suits {σ ν ν' : String → String} (h : Γ.Covers ν ∧ Γ.Covers ν') {as : List Annotation}
    (hq : ∀ q ∈ Γ.placesOfTypes as, q.Suits σ ν ν' y) : ∀ q ∈ Γ.placesOfTypes as, q.part.Fits ν y ∧ q.part.Fits ν' y :=
  fun q hm => ⟨h.1.fits (fun q hm => (hq q hm).1) q hm, h.2.fits (fun q hm => (hq q hm).2.1) q hm⟩

end Names

/-! ## Annotations -/

/-- What the type names `n` in one scope and `m` in another stand for: nothing, one simple type, or generic parameters of those
names, `h` being what renames the one to the other. -/
inductive TypeEntry (h : String → String) (n m : String) : Option Ty → Option Ty → Prop
  | unbound : TypeEntry h n m none none
  | simple : TypeEntry h n m (some (.simple n)) (some (.simple n))
  | parameter (owner : String) (hm : h n = m) :
    TypeEntry h n m (some (.parameter (.declared n owner))) (some (.parameter (.declared m owner)))

namespace Scope

variable {s s' : Scope} {h ν ν' : String → String} {y : String} {Γ : Names}

/-- The types that two scopes have under the names that `ν` and `ν'` give are the same, but for the names of
generic parameters. -/
def TypesMatch (h ν ν' : String → String) (y : String) (s s' : Scope) : Prop :=
  ∀ n, n ≠ y → TypeEntry h (ν n) (ν' n) (s.type? (ν n)) (s'.type? (ν' n))

mutual

/-- An annotation under other names stands for one type in the two scopes, but for the names of its generic parameters. -/
theorem agree_resolve (ht : TypesMatch h ν ν' y s s') : ∀ a : Annotation,
    (∀ q ∈ Γ.placesOfType a, q.part.Fits ν y ∧ q.part.Fits ν' y) →
      Agree (fun t t' => t' = t.relabel h) (s.resolve (a.rename ν)) (s'.resolve (a.rename ν'))
  | .named n as span, hq => by
    rw [Names.placesOfType, List.forall_mem_cons] at hq
    have hn : n ≠ y := fun hn => hq.1.1.1 (by simp [Part.typeNames, hn])
    have hentry := ht n hn
    have hall := agree_resolveAll ht as hq.2
    simp only [Scope.resolve, Annotation.rename]
    generalize s.type? (ν n) = o at hentry ⊢
    generalize s'.type? (ν' n) = o' at hentry ⊢
    cases as with
    | nil =>
      cases hentry with
      | unbound => exact .error _ _
      | simple => exact .ok rfl
      | parameter owner hm => exact .ok (by simp [GenericParameter.renameName, GenericParameter.declared, hm])
    | cons a as =>
      have hfixed : ν' n = ν n := (hq.1.2.2 n rfl).trans (hq.1.1.2 n rfl).symm
      have happlied : Agree (fun t t' : Ty => t' = t.relabel h)
          (s.resolveAll (Gradual.Annotation.renameAll ν (a :: as)) >>= fun ts => pure (Ty.applied (ν n) ts))
          (s'.resolveAll (Gradual.Annotation.renameAll ν' (a :: as)) >>= fun ts => pure (Ty.applied (ν' n) ts)) := by
        refine hall.bind fun ts ts' _ hts => .ok ?_
        rw [hts, hfixed]
        exact (Ty.rename_applied _ (ν n) ts).symm
      cases hentry with
      | unbound => exact .error _ _
      | simple => exact happlied
      | parameter owner hm => exact happlied
  | .function ps r span, hq => by
    rw [Names.placesOfType, List.forall_mem_cons, List.forall_mem_append] at hq
    simp only [Scope.resolve, Annotation.rename]
    refine (agree_resolveAll ht ps hq.2.1).bind fun ts ts' _ hts => ?_
    refine (agree_resolve ht r hq.2.2).bind fun t t' _ htt => .ok ?_
    rw [hts, htt]
    exact (Ty.rename_function _ ts t).symm

/-- Annotations under other names stand for the same types in the two scopes, but for the names of generic parameters. -/
theorem agree_resolveAll (ht : TypesMatch h ν ν' y s s') : ∀ as : List Annotation,
    (∀ q ∈ Γ.placesOfTypes as, q.part.Fits ν y ∧ q.part.Fits ν' y) →
      Agree (fun ts ts' => ts' = ts.map (Ty.relabel h)) (s.resolveAll (Gradual.Annotation.renameAll ν as))
        (s'.resolveAll (Gradual.Annotation.renameAll ν' as))
  | [], _ => .ok rfl
  | a :: as, hq => by
    rw [Names.placesOfTypes, List.forall_mem_append] at hq
    simp only [Scope.resolveAll, Annotation.renameAll]
    refine (agree_resolve ht a hq.1).bind fun t t' _ htt => ?_
    refine (agree_resolveAll ht as hq.2).bind fun ts ts' _ hts => .ok ?_
    rw [hts, htt, List.map_cons]

end

mutual

/-- The generic parameters in the type of an annotation are what the names in it stand for. -/
theorem parameter_of_resolve (ht : TypesMatch h ν ν' y s s') : ∀ a : Annotation,
    (∀ q ∈ Γ.placesOfType a, q.part.Fits ν y) → ∀ {t : Ty}, s.resolve (a.rename ν) = .ok t →
      ∀ {p : GenericParameter}, t.contains (.parameter p) = true →
      ∃ n, n ≠ y ∧ p.name = ν n ∧ s.type? (ν n) = some (.parameter p)
  | .named n as span, hq, t, hr, p, hp => by
    rw [Names.placesOfType, List.forall_mem_cons] at hq
    have hn : n ≠ y := fun hn => hq.1.1 (by simp [Part.typeNames, hn])
    have hentry := ht n hn
    rw [Gradual.Annotation.rename] at hr
    unfold Scope.resolve at hr
    cases hbase : s.type? (ν n) with
    | none =>
      rw [hbase] at hr
      cases hr
    | some base =>
      rw [hbase] at hr hentry
      cases as with
      | nil =>
        obtain rfl := Except.ok.inj hr
        generalize s'.type? (ν' n) = o' at hentry
        cases hentry with
        | simple => simp [Ty.contains] at hp
        | parameter owner hm =>
          obtain rfl : GenericParameter.declared (ν n) owner = p := by simpa [Ty.contains] using hp
          exact ⟨n, hn, rfl, hbase⟩
      | cons a as =>
        obtain ⟨ts, hts, hr⟩ := bind_eq_ok_iff.1 hr
        obtain rfl := Except.ok.inj hr
        obtain ⟨u, hu, hc⟩ : ∃ u ∈ ts, u.contains (.parameter p) = true := by simpa [Ty.contains] using hp
        exact parameter_of_resolveAll ht (a :: as) hq.2 hts hu hc
  | .function ps r span, hq, t, hr, p, hp => by
    rw [Names.placesOfType, List.forall_mem_cons, List.forall_mem_append] at hq
    rw [Gradual.Annotation.rename] at hr
    unfold Scope.resolve at hr
    obtain ⟨ts, hts, hr⟩ := bind_eq_ok_iff.1 hr
    obtain ⟨u, hu, hr⟩ := bind_eq_ok_iff.1 hr
    obtain rfl := Except.ok.inj hr
    have hparts : (∃ v ∈ ts, v.contains (.parameter p) = true) ∨ u.contains (.parameter p) = true := by
      simpa [Ty.contains] using hp
    rcases hparts with ⟨v, hv, hc⟩ | hc
    · exact parameter_of_resolveAll ht ps hq.2.1 hts hv hc
    · exact parameter_of_resolve ht r hq.2.2 hu hc

/-- The generic parameters in the types of annotations are what the names in them stand for. -/
theorem parameter_of_resolveAll (ht : TypesMatch h ν ν' y s s') : ∀ as : List Annotation,
    (∀ q ∈ Γ.placesOfTypes as, q.part.Fits ν y) → ∀ {ts : List Ty},
      s.resolveAll (Gradual.Annotation.renameAll ν as) = .ok ts →
      ∀ {t : Ty}, t ∈ ts → ∀ {p : GenericParameter}, t.contains (.parameter p) = true →
      ∃ n, n ≠ y ∧ p.name = ν n ∧ s.type? (ν n) = some (.parameter p)
  | [], _, ts, hts, t, ht', p, _ => by
    obtain rfl := Except.ok.inj hts
    cases ht'
  | a :: as, hq, ts, hts, t, ht', p, hp => by
    rw [Names.placesOfTypes, List.forall_mem_append] at hq
    rw [Gradual.Annotation.renameAll] at hts
    unfold Scope.resolveAll at hts
    obtain ⟨u, hu, hts⟩ := bind_eq_ok_iff.1 hts
    obtain ⟨us, hus, hts⟩ := bind_eq_ok_iff.1 hts
    obtain rfl := Except.ok.inj hts
    rcases List.mem_cons.1 ht' with rfl | ht'
    · exact parameter_of_resolve ht a hq.1 hu hp
    · exact parameter_of_resolveAll ht as hq.2 hus ht' hp

end

/-! ## Binding types -/

/-- The name of a record stands for the record in both scopes. -/
theorem TypesMatch.addType (ht : TypesMatch h ν ν' y s s') (hν : ∀ m, ν m = m ∨ ν m = y) (hν' : ∀ m, ν' m = m ∨ ν' m = y)
    {n : String} (hn : n ≠ y) :
    TypesMatch h (keeping ν [n]) (keeping ν' [n]) y (s.addType n (.simple n)) (s'.addType n (.simple n)) := by
  intro m hm
  unfold keeping
  by_cases hmn : m = n
  · subst hmn
    simp only [List.mem_singleton, if_true, type?_addType]
    exact .simple
  · have hne : ∀ μ : String → String, (∀ m, μ m = m ∨ μ m = y) → μ m ≠ n := by
      intro μ hμ
      rcases hμ m with he | he <;> rw [he]
      · exact hmn
      · exact hn.symm
    simp only [List.mem_singleton, hmn, if_false, type?_addType, hne ν hν, hne ν' hν']
    exact ht m hm

/-- A name that is not kept becomes the new one, or stays. -/
theorem names_keeping (hν : ∀ m, ν m = m ∨ ν m = y) (ns : List String) (m : String) :
    keeping ν ns m = m ∨ keeping ν ns m = y := by
  unfold keeping
  split
  · exact Or.inl rfl
  · exact hν m

/-- The renaming inside a function whose generic parameters are renamed by `k`. -/
def binding (ν : String → String) (k : Equiv.Perm String) (generics : List String) : String → String :=
  fun n => if n ∈ generics then k n else ν n

/-- A function may rename its generic parameters by `k`: it captures no name that stands for something else, and `y` is the only
new one. -/
structure Rebinds (ν : String → String) (y : String) (k : Equiv.Perm String) (generics : List String) : Prop where
  apart : ∀ n, n ≠ y → n ∉ generics → ν n ∉ generics.map k
  names : ∀ n ∈ generics, k n = n ∨ k n = y

section Rebinds

variable {k k' : Equiv.Perm String} {generics : List String}

/-- Names that are kept are the same after renaming. -/
theorem map_of_keeps (hk : ∀ n ∈ generics, k n = n) : generics.map k = generics :=
  (List.map_congr_left hk).trans (List.map_id generics)

/-- A function that keeps the names of its generic parameters renames only the others in it. -/
theorem binding_of_keeps (hk : ∀ n ∈ generics, k n = n) : binding ν k generics = keeping ν generics := by
  funext n
  unfold binding keeping
  split
  · exact hk n ‹_›
  · rfl

/-- A function that keeps the names of its generic parameters captures none, when the new name is not among them. -/
theorem rebinds_of_keeps (hν : ∀ n, ν n = n ∨ ν n = y) (hk : ∀ n ∈ generics, k n = n) (hy : y ∉ generics) :
    Rebinds ν y k generics := by
  refine ⟨fun n _ hn hm => ?_, fun n hn => Or.inl (hk n hn)⟩
  rw [map_of_keeps hk] at hm
  rcases hν n with he | he
  · exact hn (he ▸ hm)
  · exact hy (he ▸ hm)

/-- Where nothing is renamed a function captures no name. -/
theorem rebinds_refl (y : String) (generics : List String) : Rebinds id y (Equiv.refl String) generics := by
  refine ⟨fun n _ hn hm => hn ?_, fun n _ => Or.inl rfl⟩
  rwa [map_of_keeps fun _ _ => rfl] at hm

/-- Only the names that a function gives its generic parameters count. -/
theorem binding_congr (hk : ∀ n ∈ generics, k n = k' n) : binding ν k generics = binding ν k' generics := by
  funext n
  unfold binding
  split
  · exact hk n ‹_›
  · rfl

/-- Where nothing is renamed, nothing is inside a function. -/
theorem binding_refl (generics : List String) : binding id (Equiv.refl String) generics = id :=
  (binding_of_keeps fun _ _ => rfl).trans (keeping_id generics)

/-- The name that a function gives is the new one, or it stays. -/
theorem Rebinds.names_binding (hk : Rebinds ν y k generics) (hν : ∀ n, ν n = n ∨ ν n = y) (n : String) :
    binding ν k generics n = n ∨ binding ν k generics n = y := by
  unfold binding
  split
  · exact hk.names n ‹_›
  · exact hν n

/-- What the types in a function stand for: `H` renames its own generic parameters, under the names that `k` gives them in the one
scope, to those under the names that `k'` gives them in the other, and what stands for a type around the function as before. -/
theorem TypesMatch.withGenerics (ht : TypesMatch h ν ν' y s s') (hk : Rebinds ν y k generics) (hk' : Rebinds ν' y k' generics)
    {H : String → String} (hown : ∀ n ∈ generics, H (k n) = k' n) (hrest : ∀ n, n ≠ y → n ∉ generics → H (ν n) = h (ν n))
    (owner : String) :
    TypesMatch H (binding ν k generics) (binding ν' k' generics) y (s.withGenerics owner (generics.map k))
      (s'.withGenerics owner (generics.map k')) := by
  intro n hn
  rw [type?_withGenerics, type?_withGenerics]
  by_cases hg : n ∈ generics
  · simp only [binding, hg, if_true, List.mem_map_of_mem hg]
    exact .parameter owner (hown n hg)
  · have hentry := ht n hn
    simp only [binding, hg, if_false, hk.apart n hn hg, hk'.apart n hn hg]
    generalize s.type? (ν n) = o at hentry ⊢
    generalize s'.type? (ν' n) = o' at hentry ⊢
    cases hentry with
    | unbound => exact .unbound
    | simple => exact .simple
    | parameter o hm => exact .parameter o ((hrest n hn hg).trans hm)

end Rebinds

end Scope

/-! ## Signatures -/

/-- The layout of a record with other names for the generic parameters in it. -/
def RecordLayout.relabel (h : String → String) (r : RecordLayout) : RecordLayout :=
  ⟨r.name, r.fields.map fun m => (m.1, m.2.relabel h)⟩

/-- Keeping all names leaves a layout as it is. -/
theorem RecordLayout.relabel_id (r : RecordLayout) : r.relabel id = r := by
  simp [RecordLayout.relabel]

/-- The constructor of a record with closed fields, and that of the record under other names. -/
theorem RecordLayout.renamed_constructor (φ : String → String) {r : RecordLayout} (hr : ∀ m ∈ r.fields, m.2.isOpen = false) :
    Declaration.Renamed φ r.constructor (r.relabel φ).constructor := by
  have hrenamed := Declaration.renamed_of_plain φ (RecordLayout.closed_constructor hr) rfl
  have hsame : r.constructor.rename (.renameName φ) = (r.relabel φ).constructor := by
    simp [RecordLayout.constructor, RecordLayout.relabel, Declaration.rename, RecordLayout.type]
  rwa [hsame] at hrenamed

/-- A declaration made of a function type is renamed with it. -/
theorem Declaration.ofFunctionType?_rename (f : GenericParameter → GenericParameter) (n : String) (t : Ty) :
    ofFunctionType? n (t.rename f) = (ofFunctionType? n t).map (Declaration.rename f) := by
  cases t with
  | function ps r => simp [ofFunctionType?, Declaration.rename]
  | _ => simp [ofFunctionType?]

/-- A declaration made of a function type has no generic parameters of its own. -/
theorem Declaration.generics_ofFunctionType {n : String} {t : Ty} {d : Declaration} (hd : ofFunctionType? n t = some d) :
    d.generics = none := by
  cases t with
  | function ps r => rw [← Option.some.inj hd]
  | _ => cases hd

/-- A declaration made of a function type without unknowns, and the one made of the type under other names. -/
theorem Declaration.renamed_ofFunctionType (φ : String → String) {n : String} {t : Ty} (ht : t.isOpen = false) {d : Declaration}
    (hd : ofFunctionType? n t = some d) : Renamed φ d (d.rename (.renameName φ)) :=
  renamed_of_plain φ (closed_ofFunctionType ht hd) (generics_ofFunctionType hd)

namespace Declaration

variable {h φ : String → String} {k : Equiv.Perm String} {generics : List String} {owner : String}

/-- The generic parameters of a function as its declaration lists them. -/
def listed (owner : String) (generics : List String) : Option (List GenericParameter) :=
  if generics.isEmpty then none else some (generics.map (GenericParameter.declared · owner))

/-- A signature owns the generic parameters that are listed for its function. -/
theorem owns_listed {d : Declaration} (hd : d.generics = listed owner generics) (p : GenericParameter) :
    d.owns p = true ↔ p.name ∈ generics ∧ p = .declared p.name owner := by
  have hparameters : d.parameters = generics.map (GenericParameter.declared · owner) := by
    rw [parameters, hd, listed]
    cases generics <;> rfl
  rw [owns_iff, hparameters, List.mem_map]
  constructor
  · rintro ⟨g, hg, rfl⟩
    exact ⟨hg, rfl⟩
  · rintro ⟨hg, hp⟩
    exact ⟨p.name, hg, hp.symm⟩

/-- The generic parameter `p` of a signature is its own, and `h` renames it as `k` does; or it is one from around, which `h`
renames as `φ` does, apart from the own ones. -/
def OwnOrApart (h φ : String → String) (k : Equiv.Perm String) (generics : List String) (owner : String)
    (p : GenericParameter) : Prop :=
  p.name ∈ generics ∧ p = .declared p.name owner ∧ h p.name = k p.name ∨
    p.site = none ∧ p.name ∉ generics ∧ h p.name = φ p.name ∧ φ p.name ∉ generics.map k

/-- In a use of the two signatures their own generic parameters are unknowns, under the names that `k` gives them. -/
theorem instance_renamed {d d' : Declaration} (hd : d.generics = listed owner generics)
    (hd' : d'.generics = listed owner (generics.map k)) {t : Ty}
    (ht : ∀ p, t.contains (.parameter p) = true → OwnOrApart h φ k generics owner p) (site : String) :
    (t.relabel h).substitute (d'.unknownOf? site) = (t.substitute (d.unknownOf? site)).rename (.renameApart φ k) := by
  rw [substitute_unknownOf?, substitute_unknownOf?, Ty.rename_rename, Ty.rename_rename]
  refine Ty.rename_congr fun p hp => ?_
  rcases ht p hp with ⟨hg, ho, hk⟩ | ⟨hs, hg, hφ, hg'⟩
  · have hown : d.owns p = true := (owns_listed hd p).2 ⟨hg, ho⟩
    have hname : p.renameName h = .declared (k p.name) owner := by
      rw [GenericParameter.renameName, hk, ho]
      rfl
    have hown' : d'.owns (.declared (k p.name) owner) = true := (owns_listed hd' _).2 ⟨List.mem_map_of_mem hg, rfl⟩
    rw [hname, if_pos hown, if_pos hown', ho]
    rfl
  · have hown : ¬d.owns p = true := fun hown => hg ((owns_listed hd p).1 hown).1
    have hname : p.renameName h = p.renameName φ := by rw [GenericParameter.renameName, GenericParameter.renameName, hφ]
    have hown' : ¬d'.owns (p.renameName φ) = true := fun hown => hg' ((owns_listed hd' _).1 hown).1
    rw [hname, if_neg hown, if_neg hown', GenericParameter.renameApart_of_declared φ k hs]

/-- A signature whose own generic parameters are renamed by `k`, and others by `φ`, is the same up to names. -/
theorem renamed_of_signature (n : String) (names : List String) {types : List Ty} {ret : Ty}
    (ht : ∀ t, t ∈ types ∨ t = ret → ∀ p, t.contains (.parameter p) = true → OwnOrApart h φ k generics owner p) :
    Renamed φ ⟨n, listed owner generics, names, types, ret⟩
      ⟨n, listed owner (generics.map k), names, types.map (Ty.relabel h), ret.relabel h⟩ := by
  refine ⟨k, fun site => ?_⟩
  rw [instantiate_eq, instantiate_eq, rename]
  simp only [Declaration.mk.injEq, true_and, List.map_map]
  refine ⟨?_, List.map_congr_left fun t hm => ?_, ?_⟩
  · cases generics with
    | nil => rfl
    | cons g gs =>
      simp [listed, GenericParameter.declared, GenericParameter.unknownAt, GenericParameter.renameApart,
        GenericParameter.isUnknown, Function.comp_def]
  · exact instance_renamed rfl rfl (ht t (Or.inl hm)) site
  · exact instance_renamed rfl rfl (ht ret (Or.inr rfl)) site

end Declaration

namespace Scope

variable {s s' : Scope} {h ν ν' : String → String} {y : String} {Γ : Names}

/-- Two declarations are well made or not together, when they have as many types. -/
theorem agree_make {R : Declaration → Declaration → Prop} {n : String} {generics generics' : Option (List GenericParameter)}
    {names : List String} {types types' : List Ty} {ret ret' : Ty} (hlen : types'.length = types.length)
    (h : R ⟨n, generics, names, types, ret⟩ ⟨n, generics', names, types', ret'⟩) :
    Agree R (Outcome.ofInternal (Declaration.make n generics names types ret))
      (Outcome.ofInternal (Declaration.make n generics' names types' ret')) := by
  unfold Declaration.make
  rw [hlen]
  split
  · exact .ok h
  · exact .error _ _

namespace TypesMatch

variable (ht : TypesMatch h ν ν' y s s') {k k' : Equiv.Perm String} {generics : List String} (hk : Rebinds ν y k generics)
  (hk' : Rebinds ν' y k' generics) {H : String → String} (hown : ∀ n ∈ generics, H (k n) = k' n)
  (hrest : ∀ n, n ≠ y → n ∉ generics → H (ν n) = h (ν n))

include ht hk hk' hown hrest

/-- The generic parameters in a function are its own, and renamed as the function renames them, or they are what a name stands for
around it, apart from its own. -/
theorem own_or_apart {owner m : String} (hm : m ≠ y) {p : GenericParameter}
    (hp : (s.withGenerics owner (generics.map k)).type? (binding ν k generics m) = some (.parameter p)) :
    Declaration.OwnOrApart H h (k.symm.trans k') (generics.map k) owner p ∧
      (p.name ∉ generics.map k → p.name = ν m ∧ h p.name = ν' m) := by
  rw [type?_withGenerics] at hp
  by_cases hg : m ∈ generics
  · have hmem : k m ∈ generics.map k := List.mem_map_of_mem hg
    simp only [binding, hg, if_true, hmem, Option.some.injEq, Ty.parameter.injEq] at hp
    subst hp
    refine ⟨Or.inl ⟨hmem, rfl, ?_⟩, fun hn => absurd hmem hn⟩
    simp [GenericParameter.declared, hown m hg]
  · have hentry := ht m hm
    have hapart := hk.apart m hm hg
    simp only [binding, hg, if_false, hapart] at hp
    rw [hp] at hentry
    generalize s'.type? (ν' m) = o' at hentry
    generalize hn : ν m = n at hentry hapart
    cases hentry with
    | parameter o hmm =>
      refine ⟨Or.inr ⟨rfl, hapart, hn ▸ hrest m hm hg, ?_⟩, fun _ => ⟨rfl, hmm⟩⟩
      have hmap : (generics.map k).map (k.symm.trans k') = generics.map k' := by simp
      rw [hmap]
      exact hmm ▸ hk'.apart m hm hg

/-- The generic parameters in the signature of a function are its own, or they are what a name stands for around it. -/
theorem own_or_apart_of_signature {owner : String} {as : List Annotation} {ret : Annotation}
    (hp : ∀ q ∈ Γ.placesOfTypes as, q.part.Fits (binding ν k generics) y)
    (hr : ∀ q ∈ Γ.placesOfType ret, q.part.Fits (binding ν k generics) y) {types : List Ty} {result : Ty}
    (htypes : (s.withGenerics owner (generics.map k)).resolveAll
      (Gradual.Annotation.renameAll (binding ν k generics) as) = .ok types)
    (hresult : (s.withGenerics owner (generics.map k)).resolve (ret.rename (binding ν k generics)) = .ok result) {t : Ty}
    (hmem : t ∈ types ∨ t = result) {p : GenericParameter} (hc : t.contains (.parameter p) = true) :
    Declaration.OwnOrApart H h (k.symm.trans k') (generics.map k) owner p ∧
      (p.name ∉ generics.map k → ∃ m, p.name = ν m ∧ h p.name = ν' m) := by
  have hin := ht.withGenerics hk hk' hown hrest owner
  obtain ⟨m, hm, -, hstands⟩ : ∃ m, m ≠ y ∧ p.name = binding ν k generics m ∧
      (s.withGenerics owner (generics.map k)).type? (binding ν k generics m) = some (.parameter p) := by
    rcases hmem with hmem | rfl
    · exact parameter_of_resolveAll hin as hp htypes hmem hc
    · exact parameter_of_resolve hin ret hr hresult hc
  obtain ⟨hpart, hname⟩ := ht.own_or_apart hk hk' hown hrest hm hstands
  exact ⟨hpart, fun hn => ⟨m, hname hn⟩⟩

end TypesMatch

/-- A function has one signature in two scopes with the same types, up to the names of generic parameters: `k` and `k'` give those
of its own, and `h` renames the others. Those others are what a name stands for around the function. -/
theorem agree_functionDeclaration (ht : TypesMatch h ν ν' y s s') {k k' : Equiv.Perm String} {generics : List String}
    (hk : Rebinds ν y k generics) (hk' : Rebinds ν' y k' generics) (n : String) {params : List Param} {ret : Option Annotation}
    (hp : ∀ q ∈ Γ.placesOfParams params, q.part.Fits (binding ν k generics) y ∧ q.part.Fits (binding ν' k' generics) y)
    (hr : ∀ q ∈ Γ.placesOfType? ret, q.part.Fits (binding ν k generics) y ∧ q.part.Fits (binding ν' k' generics) y) :
    Agree (Option.Rel fun d d' => Declaration.Renamed h d d' ∧ ∀ p, d.functionType.contains (.parameter p) = true →
        d.owns p = false → ∃ m, p.name = ν m ∧ h p.name = ν' m)
      ((s.withGenerics n (generics.map k)).functionDeclaration n (generics.map k)
        (params.map (Param.rename (binding ν k generics))) (ret.map (·.rename (binding ν k generics))))
      ((s'.withGenerics n (generics.map k')).functionDeclaration n (generics.map k')
        (params.map (Param.rename (binding ν' k' generics))) (ret.map (·.rename (binding ν' k' generics)))) := by
  cases ret with
  | none => exact .ok .none
  | some ret =>
    rw [Names.placesOfType?_some] at hr
    let H : String → String := fun a => if a ∈ generics.map k then k' (k.symm a) else h a
    have hown : ∀ m ∈ generics, H (k m) = k' m := by
      intro m hm
      simp only [H, List.mem_map_of_mem hm, if_true, Equiv.symm_apply_apply]
    have hrest : ∀ m, m ≠ y → m ∉ generics → H (ν m) = h (ν m) := fun m hm hg => if_neg (hk.apart m hm hg)
    have hin := ht.withGenerics hk hk' hown hrest n
    simp only [Scope.functionDeclaration, Scope.paramTypes, Option.map_some, map_ty_rename, map_name_rename]
    refine (agree_resolveAll hin _ hp).bind fun types types' htypes he => ?_
    refine (agree_resolve hin ret hr).bind fun result result' hresult he' => ?_
    subst he he'
    have hmentions : ∀ t, t ∈ types ∨ t = result → ∀ p, t.contains (.parameter p) = true →
        Declaration.OwnOrApart H h (k.symm.trans k') (generics.map k) n p ∧
          (p.name ∉ generics.map k → ∃ m, p.name = ν m ∧ h p.name = ν' m) := fun t hmem p hc =>
      ht.own_or_apart_of_signature hk hk' hown hrest (fun q hm => (hp q hm).1) (fun q hm => (hr q hm).1) htypes hresult hmem hc
    have hsignature := Declaration.renamed_of_signature n (params.map (·.name)) fun t htm p hc => (hmentions t htm p hc).1
    have hmap : (generics.map k).map (k.symm.trans k') = generics.map k' := by simp
    rw [hmap] at hsignature
    refine (agree_make (by simp) ⟨hsignature, ?_⟩).bind fun d d' _ hd => .ok (.some hd)
    intro p hc ho
    obtain ⟨t, htm, hc⟩ : ∃ t, (t ∈ types ∨ t = result) ∧ t.contains (.parameter p) = true := by
      simpa [Declaration.functionType, Ty.contains, or_and_right, exists_or] using hc
    obtain ⟨⟨hg, hpo, -⟩ | ⟨-, hg, -⟩, hname⟩ := hmentions t htm p hc
    · rw [(Declaration.owns_listed rfl p).2 ⟨hg, hpo⟩] at ho
      cases ho
    · exact hname hg

/-- Parameters have the same types in the two scopes, but for the names of generic parameters. -/
theorem agree_paramTypes (ht : TypesMatch h ν ν' y s s') {params : List Param}
    (hq : ∀ q ∈ Γ.placesOfParams params, q.part.Fits ν y ∧ q.part.Fits ν' y) :
    Agree (fun ts ts' => ts' = ts.map (Ty.relabel h)) (s.paramTypes (params.map (Param.rename ν)))
      (s'.paramTypes (params.map (Param.rename ν'))) := by
  rw [Scope.paramTypes, Scope.paramTypes, map_ty_rename, map_ty_rename]
  exact agree_resolveAll ht _ hq

/-- A method has one signature in the two scopes, but for the names of generic parameters, and no generic parameters of
its own. -/
theorem agree_methodDeclaration (hs : s.Closed) (ht : TypesMatch h ν ν' y s s') (receiver n : String) {params : List Param}
    {ret : Option Annotation} (hp : ∀ q ∈ Γ.placesOfParams params, q.part.Fits ν y ∧ q.part.Fits ν' y)
    (hr : ∀ q ∈ Γ.placesOfType? ret, q.part.Fits ν y ∧ q.part.Fits ν' y) :
    Agree (Option.Rel fun d d' => Declaration.Renamed h d d' ∧ d.isGeneric = false)
      (s.methodDeclaration (.simple receiver) n (params.map (Param.rename ν)) (ret.map (·.rename ν)))
      (s'.methodDeclaration (.simple receiver) n (params.map (Param.rename ν')) (ret.map (·.rename ν'))) := by
  cases ret with
  | none => exact .ok .none
  | some ret =>
    rw [Names.placesOfType?_some] at hr
    simp only [Scope.methodDeclaration, Option.map_some, map_name_rename]
    refine (agree_paramTypes ht hp).bind fun types types' htypes he => ?_
    refine (agree_resolve ht ret hr).bind fun result result' hresult he' => ?_
    subst he he'
    have hclosed : Declaration.Closed ⟨n, none, "self" :: params.map (·.name), .simple receiver :: types, result⟩ := by
      refine ⟨by simp [Declaration.parameters], List.forall_mem_cons.2 ⟨rfl, ?_⟩, isOpen_resolve hs _ hresult⟩
      exact isOpen_resolveAll hs _ htypes
    have hmake := agree_make (R := fun d d' => Declaration.Renamed h d d' ∧ d.isGeneric = false) (by simp)
      ⟨Declaration.renamed_of_plain h hclosed rfl, rfl⟩
    exact hmake.bind fun d d' _ hd => .ok (.some hd)

/-- A record has one layout in the two scopes, but for the names of generic parameters. -/
theorem agree_recordLayout (ht : TypesMatch h ν ν' y s s') (n : String) {fields : List Param}
    (hq : ∀ q ∈ Γ.placesOfParams fields, q.part.Fits ν y ∧ q.part.Fits ν' y) :
    Agree (fun r r' => r' = r.relabel h) (s.recordLayout n (fields.map (Param.rename ν)))
      (s'.recordLayout n (fields.map (Param.rename ν'))) := by
  simp only [Scope.recordLayout, map_name_rename]
  refine (agree_paramTypes ht hq).bind fun types types' _ he => .ok ?_
  subst he
  simp only [RecordLayout.relabel, List.zip_map_right]
  rfl

end Scope

end Gradual
