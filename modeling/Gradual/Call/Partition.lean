import Gradual.Call.Constraint

/-!
# Partitions: types that constraints force to agree

A partition holds every type it has seen once, in the order of first sight, and keeps them in trees, one for each class: every
type has a parent, and a root is its own. A constraint joins the classes of its parameter and of its type: the root of the one
becomes the parent of the other's. The search for a root shortens the path that it takes, each type that it leaves being put under
its grandparent. Two types have one root exactly when a chain of constraints leads from one to the other, and a class lists its
types in the order of first sight.
-/

namespace Gradual

/-- Types in the order of first sight, and the place of each one's parent. -/
structure Partition where
  types : List Ty
  parents : List Nat

namespace Partition

/-- No types. -/
def empty : Partition := ⟨[], []⟩

/-- The place of a type, and the partition with the type in it, in a class of its own if it was not there. -/
def node (p : Partition) (t : Ty) : Nat × Partition :=
  match p.types.idxOf? t with
  | some i => (i, p)
  | none => (p.types.length, ⟨p.types ++ [t], p.parents ++ [p.types.length]⟩)

/-- The place of the parent of a place. -/
def parent (p : Partition) (i : Nat) : Nat := p.parents[i]?.getD i

/-- The partition with the place `i` put under the place `j`. -/
def attach (p : Partition) (i j : Nat) : Partition := { p with parents := p.parents.set i j }

/-- The root above a place, and the partition with the path to it halved; none if it takes more than so many turns. Each turn puts
the place under its grandparent and goes on from there. -/
def findWithin (turns : Nat) (p : Partition) (i : Nat) : Option (Nat × Partition) :=
  if p.parent i = i then some (i, p)
  else
    match turns with
    | 0 => none
    | turns + 1 => findWithin turns (p.attach i (p.parent (p.parent i))) (p.parent (p.parent i))

/-- The root above a place, and the partition with the path to it halved. It takes no more turns than there are types. -/
def find (p : Partition) (i : Nat) : Nat × Partition := (findWithin p.types.length p i).getD (i, p)

/-- The roots above several places, searched one after the other. -/
def findAll (p : Partition) : List Nat → List Nat × Partition
  | [] => ([], p)
  | i :: is =>
    let first := p.find i
    let rest := first.2.findAll is
    (first.1 :: rest.1, rest.2)

/-- The partition with the classes of two places made one. -/
def union (p : Partition) (i j : Nat) : Partition :=
  let left := p.find i
  let right := left.2.find j
  if left.1 = right.1 then right.2 else right.2.attach right.1 left.1

/-- The partition with a constraint added. -/
def add (p : Partition) (c : Constraint) : Partition :=
  let left := p.node (.parameter c.1)
  let right := left.2.node c.2
  right.2.union left.1 right.1

/-- The partition of the types in some constraints. -/
def ofConstraints (cs : List Constraint) : Partition := cs.foldl add empty

/-- Every type with the root of its class, and the partition after the searches. -/
def rooted (p : Partition) : List (Ty × Nat) × Partition :=
  let roots := p.findAll (List.range p.types.length)
  (p.types.zip roots.1, roots.2)

/-- The types of a root among types with their roots. -/
def withRoot (members : List (Ty × Nat)) (r : Nat) : List Ty := (members.filter (·.2 = r)).map (·.1)

/-- The types in the class of a type, which is in it even when the partition has not seen it, and the partition after
the search. -/
def search (p : Partition) (t : Ty) : List Ty × Partition :=
  let own := p.node t
  let root := own.2.find own.1
  let members := root.2.rooted
  (withRoot members.1 root.1, members.2)

/-- The types in the class of a type. -/
def classOf (p : Partition) (t : Ty) : List Ty := (p.search t).1

/-- Whether in every class the types that mention no unknown agree. -/
def isConsistent (p : Partition) : Bool :=
  let members := p.rooted.1
  members.all fun (_, r) => Ty.agree ((withRoot members r).filter (!·.isOpen))

end Partition

end Gradual
