/-!
# Generic parameters: a name of the signature that declares it, or the unknown it becomes where the signature is used

Inside the function that declares it a generic parameter is a type like any other, equal to itself alone. Where the function is
called or passed, each of its parameters is an unknown that the use must solve. An unknown remembers the parameter it stands
for and the site of the use, so two uses never share one. Its owner is written with the site after a mark.
-/

namespace Gradual

/-- The parameter `name` of the function `owner`; with a site, the unknown that stands for it in one use. -/
structure GenericParameter where
  name : String
  owner : String
  site : Option String
  deriving DecidableEq

namespace GenericParameter

/-- The mark between an owner and the site of a use. -/
def siteMark : Char := '#'

/-- A parameter as its function declares it. -/
def declared (name owner : String) : GenericParameter := ⟨name, owner, none⟩

/-- The unknown that stands for a parameter in the use at `site`; an unknown is moved from its site to this one. -/
def unknownAt (p : GenericParameter) (site : String) : GenericParameter := { p with site := some site }

/-- Whether a parameter is an unknown to be solved, and not a type in scope. -/
def isUnknown (p : GenericParameter) : Bool := p.site.isSome

/-- The declared parameter behind an unknown. -/
def origin (p : GenericParameter) : GenericParameter := { p with site := none }

/-- The written form of an owner: the function, and the site after the mark. -/
def ownerText (p : GenericParameter) : String :=
  match p.site with
  | none => p.owner
  | some site => p.owner ++ siteMark.toString ++ site

/-- The parameter whose owner is written so: what follows the first mark is the site of a use. -/
def ofOwnerText (name owner : String) : GenericParameter :=
  let cs := owner.toList
  match cs.dropWhile (· ≠ siteMark) with
  | [] => ⟨name, owner, none⟩
  | _ :: site => ⟨name, String.ofList (cs.takeWhile (· ≠ siteMark)), some (String.ofList site)⟩

end GenericParameter

end Gradual
