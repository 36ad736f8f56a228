import Gradual.Proofs.Check.Lexical
import Gradual.Proofs.Check.Renamed.Sites
import Gradual.Proofs.Tree.Sites

/-!
# Programs in which a generic parameter is renamed

The name of a generic parameter does not matter, unless something else goes by the name (`Program.validate_renamed`). Types are
compared by the names of the parameters in them, so the parameters of two functions, one inside the other, are told apart only
where their names differ; a parameter that is applied to type arguments is the type of that name, whatever it stands for; and a
parameter hides a record of its name. In each of these cases renaming the parameter can make an accepted program fail
(`Program.renamed_rejected`). A new name tells apart what was told apart before, so that renaming does not make a program accepted
that was not, but for parameters that are applied to type arguments.
-/

namespace Gradual

namespace Scope

variable {x y z : String} {s r : Scope}

namespace Neutral

/-- A class of the host, or a type of the prelude. -/
theorem addClass (h : Neutral z y s) (hr : s.level.records = []) (n : String) : Neutral z y (s.addType n (.simple n)) := by
  refine ⟨h.closed.addType n rfl, ⟨h.level.vars, h.level.functions, fun _ => rfl⟩, h.value, fun m hm => ?_, fun m => ?_⟩
  · rw [id, type?_addType]
    by_cases hmn : m = n
    · rw [if_pos hmn, hmn]
      exact .simple
    · rw [if_neg hmn]
      exact h.type m hm
  · rw [recordNamed?_addType hr]
    by_cases hmn : m = n
    · rw [if_pos hmn]
      rfl
    · rw [if_neg hmn]
      exact h.record m

/-- A scope with nothing in it is neutral. -/
theorem empty : Neutral z y empty :=
  ⟨closed_empty, .empty _, fun _ => .none, fun _ _ => .unbound, fun _ => rfl⟩

/-- The prelude is neutral. -/
theorem prelude : Neutral z y prelude := by
  have hrange : Declaration.Renamed (Equiv.swap z y) rangeDeclaration rangeDeclaration :=
    Declaration.renamed_of_plain _ closed_rangeDeclaration rfl
  have hboth : Neutral z y Scope.prelude ∧ Scope.prelude.level.records = [] := by
    refine prelude_induction (P := fun s => Neutral z y s ∧ s.level.records = []) ⟨empty, rfl⟩
      (fun s n hs => ⟨hs.1.addClass hs.2 n, hs.2⟩) (fun s hs => ⟨?_, hs.2⟩) fun s n hs => ⟨?_, hs.2⟩
    · exact Renamed.addFunction hs.1 _ (.some hrange) fun e he => Option.some.inj he ▸ closed_rangeDeclaration
    · exact Renamed.addFunction hs.1 n .none fun e he => nomatch he
  exact hboth.1

/-- Imports keep a scope neutral. -/
theorem declareImports (h : Neutral z y s) (hr : s.level.records = []) {is : List Import}
    (hs : (s.declareImports is).verdict = .ok r) : Neutral z y r := by
  induction is generalizing s with
  | nil => exact Except.ok.inj hs ▸ h
  | cons i is ih =>
    rw [Scope.declareImports] at hs
    cases hi : i.binding? with
    | none =>
      rw [hi] at hs
      cases hs
    | some n =>
      rw [hi, Run.verdict_bind, Run.verdict_log] at hs
      exact ih (h.addClass hr n) hr hs

end Neutral

end Scope

namespace Names.NoRecord

variable {Γ : Names} {y : String}

/-- Types of the language are no records. -/
theorem addPlain (h : Γ.NoRecord y) (ns : List String) : (Γ.addPlain ns).NoRecord y := by
  unfold Names.addPlain
  induction ns generalizing Γ with
  | nil => exact h
  | cons n ns ih => exact ih (h.addType fun _ => rfl)

/-- Imports are no records. -/
theorem addImports (h : Γ.NoRecord y) (is : List Import) : (Γ.addImports is).NoRecord y := by
  induction is generalizing Γ with
  | nil => exact h
  | cons i is ih =>
    rw [Names.addImports]
    cases i.binding? with
    | none => exact ih h
    | some n => exact ih (h.addType fun _ => rfl)

/-- The prelude has no records. -/
theorem prelude : Names.prelude.NoRecord y := by
  have hempty : (⟨[], []⟩ : Names).NoRecord y := rfl
  exact ((hempty.addPlain _).addValue _).addValues _

end Names.NoRecord

namespace Program

/-- A program is accepted when its imports name classes and its statements are accepted one after the other. -/
theorem validate_ok_iff (p : Program) : p.validate.verdict = .ok () ↔
    ∃ s, (Scope.prelude.child.declareImports p.imports).verdict = .ok s ∧ ∃ r, (s.checkStmts p.body).verdict = .ok r := by
  simp only [validate, Run.verdict_bind, Run.verdict_log, bind_eq_ok_iff, and_true]

/-- The check of a program carries over to the program with another statement in the place of a definition, or back. -/
theorem validate_replaced {δ : Direction} {z y : String} {st' : Stmt} {p : Program} (hy : y ∉ p.typeNames) {site : Site Program}
    (hsite : site ∈ p.sites) (hs : site.Replaceable δ z y st') :
    δ.Implies (p.validate.verdict = .ok ()) ((site.put st').validate.verdict = .ok ()) := by
  obtain ⟨c, hc, rfl⟩ := List.mem_map.1 hsite
  have havoids : ∀ q ∈ p.places, q.Avoids y := fun q hq hmem => hy (List.mem_flatMap.2 ⟨q, hq, hmem⟩)
  rw [places, List.forall_mem_cons] at havoids
  rw [Site.put_map, validate_ok_iff, validate_ok_iff]
  refine .exists_congr fun s => .and_congr_right fun himports => ?_
  have hneutral : Scope.Neutral z y s := Scope.Neutral.prelude.child.declareImports rfl himports
  exact Scope.checkStmts_replaced (fun st _ => (Scope.unchanged_cases δ z y st').all_stmts st) hneutral
    (Names.NoRecord.prelude.addImports p.imports) havoids.2 (tracks_of_imports himports) hc hs.of_map

/-- The name of a generic parameter does not matter. The sites of a program are its function definitions, each with the program
that has another statement in its place. A definition may call a generic parameter by any name that the program does not use for a
type, where it binds the parameter and where the parameter is meant, and the program is accepted as before; provided that no
function around the definition or inside it has a generic parameter of the old name, that no record of the old name is seen where
the definition stands, and that the parameter is not applied to type arguments. Of these only the last is needed for the program
to be accepted where the renamed one is. -/
theorem validate_renamed (p : Program) : Site.Covering places p p.sites ∧
    ∀ site ∈ p.sites, ∀ x ∈ (Part.stmt site.definition).generics, ∀ y ∉ p.typeNames,
      (site.Apart x → (p.validate.verdict = .ok () ↔ (site.renamed x y).validate.verdict = .ok ())) ∧
      (site.Plain x → (site.renamed x y).validate.verdict = .ok () → p.validate.verdict = .ok ()) := by
  refine ⟨p.covering_sites, fun site hsite x hx y hy => ?_⟩
  have hback : site.Plain x → (site.renamed x y).validate.verdict = .ok () → p.validate.verdict = .ok () := by
    intro hplain
    obtain ⟨z, hz⟩ := Infinite.exists_notMem_finset (y :: site.around).toFinset
    rw [List.mem_toFinset, List.mem_cons, not_or] at hz
    exact validate_replaced (δ := .back) hy hsite (Site.replaceable_back hx hz.1 hz.2 hplain)
  exact ⟨fun ha => ⟨validate_replaced (δ := .forth) hy hsite (Site.replaceable_forth hx ha), hback ha.plain⟩, hback⟩

/-- `defn <S> twice(s: S) -> S { defn <t> same(v: t) -> t { def w: t = v; w } same(same(s)) }`. -/
def twiceProgram (t : String) : Program :=
  ⟨[], [.function "twice" ["S"] [⟨"s", .named "S" [] ⟨18, 19⟩, ⟨15, 19⟩⟩] (some (.named "S" [] ⟨24, 25⟩))
    ⟨[.function "same" [t] [⟨"v", .named t [] ⟨45, 46⟩, ⟨42, 46⟩⟩] (some (.named t [] ⟨51, 52⟩))
        ⟨[.define "w" (some (.named t [] ⟨62, 63⟩)) (.name "v" ⟨66, 67⟩) ⟨55, 68⟩, .expr (.name "w" ⟨69, 70⟩)],
          ⟨53, 72⟩⟩ ⟨28, 72⟩,
      .expr (.call "same" [.call "same" [.name "s" ⟨83, 84⟩] ⟨78, 85⟩] ⟨73, 86⟩)], ⟨26, 88⟩⟩ ⟨0, 88⟩], ⟨0, 88⟩⟩

/-- In `twiceProgram "T"` the parameter `T` of the inner function is called `U`. So it is in `twiceProgram "S"`, where the outer
function has the parameter `S` too. -/
theorem twiceProgram_renamed : ((twiceProgram "T").validate.verdict = .ok () ∧ "U" ∉ (twiceProgram "T").typeNames ∧
      (∃ site ∈ (twiceProgram "T").sites, "T" ∈ (Part.stmt site.definition).generics ∧ site.Apart "T" ∧
        site.renamed "T" "U" = twiceProgram "U") ∧
      (twiceProgram "U").validate.verdict = .ok ()) ∧
    "U" ∉ (twiceProgram "S").typeNames ∧
      (∃ site ∈ (twiceProgram "S").sites, "S" ∈ (Part.stmt site.definition).generics ∧ ¬ site.Apart "S" ∧ site.Plain "S" ∧
        site.renamed "S" "U" = twiceProgram "U") ∧
      (twiceProgram "S").validate.verdict = .ok () := by
  have haccepted : (twiceProgram "T").validate.verdict = .ok () := by cbv
  have hfresh : "U" ∉ (twiceProgram "T").typeNames := by decide
  have hsite : ∃ site ∈ (twiceProgram "T").sites, "T" ∈ (Part.stmt site.definition).generics ∧ site.Apart "T" ∧
      site.renamed "T" "U" = twiceProgram "U" :=
    ⟨_, .tail _ (.head _), .head _, ⟨by decide, by decide, by decide, by decide⟩, rfl⟩
  have hfresh' : "U" ∉ (twiceProgram "S").typeNames := by decide
  have hsite' : ∃ site ∈ (twiceProgram "S").sites, "S" ∈ (Part.stmt site.definition).generics ∧ ¬ site.Apart "S" ∧
      site.Plain "S" ∧ site.renamed "S" "U" = twiceProgram "U" :=
    ⟨_, .tail _ (.head _), .head _, fun ha => absurd ha.around (by decide), by unfold Site.Plain; decide, rfl⟩
  have hrenamed : (twiceProgram "U").validate.verdict = .ok () := by
    obtain ⟨site, hmem, hbound, hapart, heq⟩ := hsite
    exact heq ▸ (((validate_renamed _).2 site hmem "T" hbound "U" hfresh).1 hapart).1 haccepted
  refine ⟨⟨haccepted, hfresh, hsite, hrenamed⟩, hfresh', hsite', ?_⟩
  obtain ⟨site, hmem, hbound, -, hplain, heq⟩ := hsite'
  exact ((validate_renamed _).2 site hmem "S" hbound "U" hfresh').2 hplain (heq ▸ hrenamed)

/-- The program `q` is `p` with a generic parameter `x` of one definition called `y`, a name that `p` does not use for a type. -/
def RenamesTo (p : Program) (x y : String) (q : Program) : Prop :=
  y ∉ p.typeNames ∧ ∃ site ∈ p.sites, x ∈ (Part.stmt site.definition).generics ∧ site.renamed x y = q

/-- `defn <outer> f(x: outer) -> outer { defn <inner> g(y: inner) -> inner { def z: inner = x; z } x }`, in which `g` gives out a
value of the parameter of `f` as one of its own. -/
def nestedProgram (outer inner : String) : Program :=
  ⟨[], [.function "f" [outer] [⟨"x", .named outer [] ⟨14, 15⟩, ⟨11, 15⟩⟩] (some (.named outer [] ⟨20, 21⟩))
    ⟨[.function "g" [inner] [⟨"y", .named inner [] ⟨38, 39⟩, ⟨35, 39⟩⟩] (some (.named inner [] ⟨44, 45⟩))
        ⟨[.define "z" (some (.named inner [] ⟨55, 56⟩)) (.name "x" ⟨59, 60⟩) ⟨48, 61⟩, .expr (.name "z" ⟨62, 63⟩)], ⟨46, 65⟩⟩
        ⟨24, 65⟩,
      .expr (.name "x" ⟨66, 67⟩)], ⟨22, 69⟩⟩ ⟨0, 69⟩], ⟨0, 69⟩⟩

/-- `import host.T; defn <t> f(x: t<Nil>) -> Nil { nil } defn g(y: T<Nil>) -> Nil { f(y) }`. -/
def appliedProgram (t : String) : Program :=
  ⟨[⟨["host", "T"], ⟨0, 14⟩⟩],
    [.function "f" [t] [⟨"x", .named t [.named "Nil" [] ⟨31, 34⟩] ⟨29, 35⟩, ⟨26, 35⟩⟩] (some (.named "Nil" [] ⟨40, 43⟩))
      ⟨[.expr (.literal .nil ⟨46, 49⟩)], ⟨44, 51⟩⟩ ⟨15, 51⟩,
    .function "g" [] [⟨"y", .named "T" [.named "Nil" [] ⟨64, 67⟩] ⟨62, 68⟩, ⟨59, 68⟩⟩] (some (.named "Nil" [] ⟨73, 76⟩))
      ⟨[.expr (.call "f" [.name "y" ⟨81, 82⟩] ⟨79, 83⟩)], ⟨77, 85⟩⟩ ⟨52, 85⟩], ⟨0, 85⟩⟩

/-- `record R(a: Nil) def r = R(nil); defn <t> f(x: t) -> t { r.b; x }`, in which `R` has no field `b`. -/
def hiddenProgram (t : String) : Program :=
  ⟨[], [.record "R" [⟨"a", .named "Nil" [] ⟨12, 15⟩, ⟨9, 15⟩⟩] [] ⟨0, 16⟩,
    .define "r" none (.call "R" [.literal .nil ⟨27, 30⟩] ⟨25, 31⟩) ⟨17, 32⟩,
    .function "f" [t] [⟨"x", .named t [] ⟨47, 48⟩, ⟨44, 48⟩⟩] (some (.named t [] ⟨53, 54⟩))
      ⟨[.expr (.member (.name "r" ⟨57, 58⟩) "b" ⟨57, 60⟩), .expr (.name "x" ⟨62, 63⟩)], ⟨55, 65⟩⟩ ⟨33, 65⟩], ⟨0, 65⟩⟩

/-- `defn <t> f(xs: t<Number>) -> Nil { for x in xs { def z: Nil = x; } }`. -/
def elementProgram (t : String) : Program :=
  ⟨[], [.function "f" [t] [⟨"xs", .named t [.named "Number" [] ⟨18, 24⟩] ⟨16, 25⟩, ⟨12, 25⟩⟩] (some (.named "Nil" [] ⟨30, 33⟩))
    ⟨[.expr (.forEach [⟨"x", ⟨40, 41⟩⟩] (.name "xs" ⟨45, 47⟩)
      ⟨[.define "z" (some (.named "Nil" [] ⟨57, 60⟩)) (.name "x" ⟨63, 64⟩) ⟨50, 65⟩], ⟨48, 67⟩⟩ ⟨36, 67⟩)], ⟨34, 69⟩⟩ ⟨0, 69⟩],
    ⟨0, 69⟩⟩

/-- The name of a generic parameter can matter. Each of the programs is accepted, and rejected when the parameter `T` of the outer
function or of the inner one, the parameter `T` that is applied to `Nil`, or the parameter `R` that hides the record, is called
`U`. The last program is rejected, and accepted when the parameter `Vector` that is applied to `Number` is called `U`. -/
theorem renamed_rejected :
    ((nestedProgram "T" "T").validate.verdict = .ok () ∧
      ((nestedProgram "T" "T").RenamesTo "T" "U" (nestedProgram "U" "T") ∧ (nestedProgram "U" "T").validate.verdict =
        .error ((Cause.variableType "z" (.parameter (.declared "T" "g")) (.parameter (.declared "U" "f"))).at ⟨48, 61⟩)) ∧
      (nestedProgram "T" "T").RenamesTo "T" "U" (nestedProgram "T" "U") ∧ (nestedProgram "T" "U").validate.verdict =
        .error ((Cause.variableType "z" (.parameter (.declared "U" "g")) (.parameter (.declared "T" "f"))).at ⟨48, 61⟩)) ∧
    ((appliedProgram "T").validate.verdict = .ok () ∧
      (appliedProgram "T").RenamesTo "T" "U" (appliedProgram "U") ∧ (appliedProgram "U").validate.verdict =
        .error ((Cause.parameterType "f" "x" (.applied "U" [.nil]) (.applied "T" [.nil])).at ⟨79, 83⟩)) ∧
    ((hiddenProgram "R").validate.verdict = .ok () ∧
      (hiddenProgram "R").RenamesTo "R" "U" (hiddenProgram "U") ∧ (hiddenProgram "U").validate.verdict =
        .error ((Cause.unknownVariable "b").at ⟨57, 60⟩)) ∧
    (elementProgram "Vector").validate.verdict = .error ((Cause.variableType "z" .nil .number).at ⟨50, 65⟩) ∧
      (elementProgram "Vector").RenamesTo "Vector" "U" (elementProgram "U") ∧
        (elementProgram "U").validate.verdict = .ok () := by
  refine ⟨⟨by cbv, ⟨⟨by decide, ?_⟩, by cbv⟩, ⟨by decide, ?_⟩, by cbv⟩, ⟨by cbv, ⟨by decide, ?_⟩, by cbv⟩,
    ⟨by cbv, ⟨by decide, ?_⟩, by cbv⟩, by cbv, ⟨by decide, ?_⟩, by cbv⟩
  · exact ⟨_, .head _, .head _, rfl⟩
  · exact ⟨_, .tail _ (.head _), .head _, rfl⟩
  · exact ⟨_, .head _, .head _, rfl⟩
  · exact ⟨_, .head _, .head _, rfl⟩
  · exact ⟨_, .head _, .head _, rfl⟩

end Program

end Gradual
