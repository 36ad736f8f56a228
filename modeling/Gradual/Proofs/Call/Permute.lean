import Gradual.Proofs.Call.Result
import Gradual.Proofs.Call.Solvable
import Gradual.Proofs.Types.Signature

/-!
# Calls under other names of generic parameters

Permuting the names of the generic parameters in an instantiated declaration and in the types of the arguments, site by site,
changes nothing about the result of the call but the names in it (`resultOfInstance_permute`). Every step from the constraints to
the result commutes with the permutation: types are told apart by equality, which a permutation keeps, and compared by the names
of their parameters only where they mention no unknown.
-/

namespace Gradual

/-! ## Constraints and shapes -/

section Rename

variable (f : GenericParameter → GenericParameter)

/-- A constraint with other generic parameters in the places of its own. -/
def Constraint.rename (c : Constraint) : Constraint := (f c.1, c.2.rename f)

/-- The constraints of renamed types are the renamed constraints. -/
theorem Ty.constraints_rename (d a : Ty) :
    (d.rename f).constraints (a.rename f) = (d.constraints a).map (Constraint.rename f) := by
  induction d using ind_children generalizing a with
  | h d ih =>
    by_cases hp : d.parameter? = none ∧ a.parameter? = none
    · rw [constraints_eq (by simp [hp.1]) (by simp [hp.2]), constraints_eq hp.1 hp.2, children_rename, children_rename,
        List.zip_map, List.flatMap_map, List.map_flatMap]
      refine List.flatMap_congr fun m hm => ?_
      exact ih m.1 (List.of_mem_zip hm).1 m.2
    · cases d with
      | parameter p => cases a <;> simp [constraints, Constraint.rename]
      | _ =>
        cases a with
        | parameter q => simp [constraints, Constraint.rename]
        | _ => simp [parameter?] at hp

/-- Renamed types have the same head where the types have. -/
theorem Ty.sameHead_rename (a b : Ty) : SameHead (a.rename f) (b.rename f) ↔ SameHead a b := by
  cases a <;> cases b <;> simp [SameHead]

variable {f}

/-- Types whose unknowns are renamed to unknowns, and nothing else to them, match in shape where they did before. -/
theorem Ty.matchShape_rename (hf : ∀ p, (f p).isUnknown = p.isUnknown) (n : String) (d a : Ty) :
    matchShape n (d.rename f) (a.rename f) = .ok () ↔ matchShape n d a = .ok () := by
  induction d using ind_children generalizing a with
  | h d ih =>
    rw [matchShape_iff, matchShape_iff n d a, isUnknown_rename hf, sameHead_rename]
    simp only [parameter?_rename, ne_eq, Option.map_eq_none_iff, children_rename, List.getElem?_map, Option.map_eq_some_iff]
    refine or_congr_right (or_congr_right (and_congr_right' ?_))
    constructor
    · intro h i d' a' hd ha
      exact (ih d' (List.mem_of_getElem? hd) a').1 (h i _ _ ⟨d', hd, rfl⟩ ⟨a', ha, rfl⟩)
    · rintro h i _ _ ⟨d', hd, rfl⟩ ⟨a', ha, rfl⟩
      exact (ih d' (List.mem_of_getElem? hd) a').2 (h i d' a' hd ha)

end Rename

variable (K : Renaming)

/-- A constraint with the names of its generic parameters permuted. -/
abbrev Constraint.permute (c : Constraint) : Constraint := c.rename (GenericParameter.permute K)

/-! ## Partitions -/

namespace Partition

/-- A partition with the names of the generic parameters in its types permuted. -/
def permute (p : Partition) : Partition := { p with types := p.types.map (Ty.permute K) }

variable (p : Partition)

/-- A permuted type stands where the type stands. -/
theorem node_permute (t : Ty) : (p.permute K).node (t.permute K) = ((p.node t).1, (p.node t).2.permute K) := by
  have hplace : (p.types.map (Ty.permute K)).idxOf? (t.permute K) = p.types.idxOf? t := by
    have htest : ((· == t.permute K) ∘ Ty.permute K) = (· == t) := by
      funext x
      exact Bool.eq_iff_iff.2 (by simp)
    rw [List.idxOf?, List.findIdx?_map, htest, List.idxOf?]
  unfold node
  rw [permute, hplace]
  cases p.types.idxOf? t with
  | some i => rfl
  | none => simp [permute]

/-- A search looks at parents alone. -/
theorem findWithin_permute (turns : Nat) (p : Partition) (i : Nat) :
    findWithin turns (p.permute K) i = (findWithin turns p i).map fun m => (m.1, m.2.permute K) := by
  induction turns generalizing p i with
  | zero =>
    rw [findWithin, findWithin, apply_ite (Option.map _)]
    rfl
  | succ turns ih =>
    rw [findWithin, findWithin, apply_ite (Option.map _), ← ih]
    rfl

/-- The root above a place is the same in the permuted partition. -/
theorem find_permute (i : Nat) : (p.permute K).find i = ((p.find i).1, (p.find i).2.permute K) := by
  unfold find
  rw [findWithin_permute, permute, List.length_map]
  cases findWithin p.types.length p i <;> rfl

/-- The roots above several places are the same in the permuted partition. -/
theorem findAll_permute (is : List Nat) : (p.permute K).findAll is = ((p.findAll is).1, (p.findAll is).2.permute K) := by
  induction is generalizing p with
  | nil => rfl
  | cons i is ih => simp only [findAll, find_permute, ih]

/-- Classes are made one at the same places. -/
theorem union_permute (i j : Nat) : (p.permute K).union i j = (p.union i j).permute K := by
  simp only [union, find_permute, apply_ite (permute K)]
  rfl

/-- A permuted constraint is added to a permuted partition as the constraint to the partition. -/
theorem add_permute (c : Constraint) : (p.permute K).add (c.permute K) = (p.add c).permute K := by
  have hleft := node_permute K p (.parameter c.1)
  simp only [Ty.permute_parameter] at hleft
  simp only [add, Constraint.rename, hleft, node_permute, union_permute]

/-- The partition of permuted constraints is the permuted partition. -/
theorem ofConstraints_permute (cs : List Constraint) :
    ofConstraints (cs.map (Constraint.permute K)) = (ofConstraints cs).permute K := by
  have h : ∀ p : Partition, (cs.map (Constraint.permute K)).foldl add (p.permute K) = (cs.foldl add p).permute K := by
    induction cs with
    | nil => exact fun _ => rfl
    | cons c cs ih =>
      intro p
      rw [List.map_cons, List.foldl_cons, List.foldl_cons, ← ih, add_permute]
  exact h empty

/-- Types with their roots, with the names of the generic parameters in them permuted. -/
theorem rooted_permute : (p.permute K).rooted.1 = p.rooted.1.map fun m => (m.1.permute K, m.2) := by
  simp only [rooted, findAll_permute]
  simp only [permute, List.length_map, List.zip_map_left]
  rfl

/-- The permuted members of a root are the members of the root, permuted. -/
theorem withRoot_permute (members : List (Ty × Nat)) (r : Nat) :
    withRoot (members.map fun m => (m.1.permute K, m.2)) r = (withRoot members r).map (Ty.permute K) := by
  simp only [withRoot, List.filter_map, List.map_map]
  rfl

/-- The class of a permuted type is the permuted class. -/
theorem classOf_permute (t : Ty) : (p.permute K).classOf (t.permute K) = (p.classOf t).map (Ty.permute K) := by
  simp only [classOf, search, node_permute, find_permute, rooted_permute, withRoot_permute]

/-- The types without unknowns in a list, with their names permuted. -/
theorem closed_permute (ts : List Ty) :
    (ts.map (Ty.permute K)).filter (!·.isOpen) = (ts.filter (!·.isOpen)).map (Ty.permute K) := by
  rw [List.filter_map]
  congr 1
  exact List.filter_congr fun t _ => by simp

end Partition

/-! ## Arguments -/

section Rename

variable (f : GenericParameter → GenericParameter)

/-- The types of arguments with other generic parameters in the places of their own. -/
def ArgTypes.rename (args : ArgTypes) : ArgTypes := args.map (Option.map (Ty.rename f))

@[simp] theorem ArgTypes.length_rename (args : ArgTypes) : (args.rename f).length = args.length := List.length_map _

/-- An argument of a renamed call has the renamed type, or it is unknown still. -/
theorem ArgTypes.getElem?_rename (args : ArgTypes) (i : Nat) :
    (args.rename f)[i]? = args[i]?.map (Option.map (Ty.rename f)) :=
  List.getElem?_map

/-- An argument and its parameter with other generic parameters in the places of their own. -/
def Passed.rename (p : Passed) : Passed := ⟨p.parameter, p.declared.rename f, p.argument.rename f⟩

/-- What is passed to a renamed declaration is what is passed, renamed. -/
theorem Declaration.passed_rename (d : Declaration) (args : ArgTypes) :
    (d.rename f).passed (args.rename f) = (d.passed args).map (Passed.rename f) := by
  simp only [passed, rename, ArgTypes.rename, List.zip_map_right, List.zip_map_left, List.map_map, List.filterMap_map,
    List.map_filterMap]
  refine List.filterMap_congr fun m _ => ?_
  obtain ⟨⟨n, t⟩, a⟩ := m
  cases a <;> rfl

variable {f}

/-- Whether a parameter takes part in solving hangs on which of the generic parameters are unknowns only. -/
theorem Passed.isSolved_rename (hf : ∀ p, (f p).isUnknown = p.isUnknown) (p : Passed) :
    (p.rename f).isSolved = p.isSolved := by
  simp [isSolved, rename, Ty.isOpen_rename hf]

/-- The constraints of a renamed call are the renamed constraints. -/
theorem Declaration.constraints_rename (hf : ∀ p, (f p).isUnknown = p.isUnknown) (d : Declaration) (args : ArgTypes) :
    (d.rename f).constraints (args.rename f) = (d.constraints args).map (Constraint.rename f) := by
  have hsolved : (Passed.isSolved ∘ Passed.rename f) = Passed.isSolved := funext (Passed.isSolved_rename hf)
  simp only [constraints, passed_rename, List.filter_map, List.flatMap_map, List.map_flatMap, hsolved]
  exact List.flatMap_congr fun p _ => Ty.constraints_rename f p.declared p.argument

end Rename

/-- The types of arguments with the names of their generic parameters permuted. -/
abbrev ArgTypes.permute (args : ArgTypes) : ArgTypes := args.rename (GenericParameter.permute K)

namespace Declaration

/-- A declaration with the names of its generic parameters permuted. -/
abbrev permute (d : Declaration) : Declaration := d.rename (GenericParameter.permute K)

variable (d : Declaration) (args : ArgTypes)

/-- The constraints of a permuted call are the permuted constraints. -/
theorem constraints_permute :
    (d.permute K).constraints (args.permute K) = (d.constraints args).map (Constraint.permute K) :=
  constraints_rename (GenericParameter.isUnknown_permute K) d args

/-- A permuted parameter has the positions that the parameter has. -/
theorem positionsOf_permute (p : GenericParameter) : (d.permute K).positionsOf (p.permute K) = d.positionsOf p := by
  simp only [positionsOf, rename, List.length_map, List.getElem?_map, Option.any_map]
  refine List.filter_congr fun i _ => ?_
  cases d.types[i]? with
  | none => rfl
  | some t => simp

/-- The positions of a permuted declaration stand under the permuted parameters. -/
theorem positions_permute : (d.permute K).positions = d.positions.map fun m => (m.1.permute K, m.2) := by
  simp only [positions, parameters_rename, List.map_map, List.filter_map]
  simp only [Function.comp_def, positionsOf_permute]

/-! ## The result -/

/-- Whether an unknown argument feeds a class does not hang on names. -/
theorem fedByUnknown_permute (members : List Ty) :
    (d.permute K).fedByUnknown (args.permute K) (members.map (Ty.permute K)) = d.fedByUnknown args members := by
  have hargs : ∀ i : Nat, (args.permute K)[i]? = some none ↔ args[i]? = some none := by
    intro i
    rw [ArgTypes.getElem?_rename]
    match args[i]? with
    | none => simp
    | some none => simp
    | some (some a) => simp
  unfold fedByUnknown
  rw [List.any_map]
  congr 1
  funext t
  simp only [Function.comp_apply, Ty.parameter?_permute]
  cases t.parameter? with
  | none => rfl
  | some p =>
    simp only [Option.map_some, positions_permute, hargs]
    rw [lookup_map_fst (GenericParameter.permute_injective K)]

/-- A permuted parameter is solved by the permuted type. -/
theorem solve_permute (q : Partition) (p : GenericParameter) :
    Agree (fun t t' => t' = t.map (Ty.permute K)) (d.solve args q p)
      ((d.permute K).solve (args.permute K) (q.permute K) (p.permute K)) := by
  have hmembers : (q.permute K).classOf (.parameter (p.permute K)) = (q.classOf (.parameter p)).map (Ty.permute K) :=
    q.classOf_permute K (.parameter p)
  unfold solve
  simp only [hmembers, fedByUnknown_permute]
  generalize q.classOf (.parameter p) = members
  have hrigid : (members.map (Ty.permute K)).filter (!·.isUnknown) = (members.filter (!·.isUnknown)).map (Ty.permute K) := by
    rw [List.filter_map]
    congr 1
    exact List.filter_congr fun t _ => by simp
  simp only [hrigid, Partition.closed_permute, List.isEmpty_map]
  generalize hc : (members.filter (!·.isUnknown)).filter (!·.isOpen) = closed
  have hagree : Ty.agree (closed.map (Ty.permute K)) = Ty.agree closed := by
    refine Ty.agree_permute fun t ht => ?_
    rw [← hc] at ht
    simpa using (List.mem_filter.1 ht).2
  cases closed with
  | nil =>
    simp only [List.map_nil]
    split
    · exact .ok rfl
    · exact .error _ _
  | cons t ts =>
    rw [List.map_cons] at hagree
    simp only [List.map_cons, hagree]
    split
    · exact .ok rfl
    · exact .error _ _

/-- Types found for generic parameters, with the names on both sides permuted. -/
def permuteFound (found : List (GenericParameter × Ty)) : List (GenericParameter × Ty) :=
  found.map fun m => (m.1.permute K, m.2.permute K)

/-- What is found for a permuted parameter is the permuted type. -/
theorem lookup_permuteFound (found : List (GenericParameter × Ty)) (p : GenericParameter) :
    (permuteFound K found).lookup (p.permute K) = (found.lookup p).map (Ty.permute K) := by
  have h := lookup_map_fst (GenericParameter.permute_injective K) p (found.map fun m => (m.1, m.2.permute K))
  rw [lookup_map_snd, List.map_map] at h
  exact h

/-- All parameters are solved by permuted types. -/
theorem solveAll_permute (q : Partition) (ps : List GenericParameter) :
    Agree (fun found found' => found' = found.map (permuteFound K)) (d.solveAll args q ps)
      ((d.permute K).solveAll (args.permute K) (q.permute K) (ps.map (GenericParameter.permute K))) := by
  induction ps with
  | nil => exact .ok rfl
  | cons p ps ih =>
    rw [List.map_cons, solveAll, solveAll]
    refine (solve_permute K d args q p).bind fun t t' _ ht => ?_
    subst ht
    cases t with
    | none => exact .ok rfl
    | some t =>
      refine ih.bind fun found found' _ hf => ?_
      subst hf
      cases found with
      | none => exact .ok rfl
      | some found => exact .ok rfl

/-- The result of an instantiated call under permuted names is its result with the names permuted: both orders replace a generic
parameter by what was found for it, under its permuted name. -/
theorem resultOfInstance_permute :
    Agree (fun t t' => t' = t.map (Ty.permute K)) (d.resultOfInstance args)
      ((d.permute K).resultOfInstance (args.permute K)) := by
  have hown := ownInResult_rename (d := d) fun p _ q he => GenericParameter.permute_injective K he
  unfold resultOfInstance
  simp only [hown, constraints_permute, Partition.ofConstraints_permute]
  refine (solveAll_permute K d args _ _).bind fun found found' _ hf => ?_
  subst hf
  cases found with
  | none => exact .ok rfl
  | some found =>
    refine .ok (congrArg some ?_)
    change (d.ret.rename _).substitute _ = (d.ret.substitute _).rename _
    rw [Ty.substitute_rename, Ty.rename_substitute]
    refine Ty.substitute_congr fun p _ => ?_
    simp only [Option.getD_some, lookup_permuteFound]
    cases found.lookup p <;> rfl

end Declaration

end Gradual
