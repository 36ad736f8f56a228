import Mathlib
import Gradual.Proofs.Check.Blame

/-!
# Names in programs

Two laws of names, for every program. Resolution is exact (`Program.names_exact`): where a program is accepted, every name that
one of its parts asks for is bound there by the rules of lexical scope, and where it is rejected for an unknown name, that name is
not bound at the place to blame. Declarations are unique (`Program.declared_once`): where a program is accepted, no level declares
a value name twice, and where it is rejected for a repeated declaration, the level has that name already.
-/

namespace Gradual

namespace Scope

variable {s : Scope} {Γ : Names} {ds : List Declared} {r : Rejection}

/-! ## Imports -/

/-- A class of the host is declared as a type, at a level without records. -/
theorem Tracks.addClass (h : s.Tracks Γ ds) (hr : s.level.records = []) (n : String) (t : Ty) (span : Span) :
    (s.addType n t).Tracks (Γ.addType n .plain) (ds ++ [⟨n, span, .hostClass⟩]) := by
  have hvalues : Declared.values (ds ++ [⟨n, span, .hostClass⟩]) = Declared.values ds := by
    simp [Declared.values, Declared.isValue]
  refine ⟨h.binds.addType hr rfl n t, fun m => ?_, fun m => ?_, ?_⟩
  · rw [hvalues]
    exact h.value m
  · rw [hasType_addType, h.type, Declared.types_append, List.mem_append, or_comm]
    simp [Declared.types, Declared.isType]
  · rw [hvalues]
    exact h.nodup

/-- Imports bind what they declare. -/
theorem tracks_of_declareImports {is : List Import} {s' : Scope} (h : s.Tracks Γ ds) (hr : s.level.records = [])
    (hs : (s.declareImports is).verdict = .ok s') : s'.Tracks (Γ.addImports is) (ds ++ is.flatMap Import.declared) := by
  induction is generalizing s Γ ds with
  | nil =>
    obtain rfl := Except.ok.inj hs
    simpa [Names.addImports] using h
  | cons i is ih =>
    rw [declareImports] at hs
    rw [Names.addImports, List.flatMap_cons]
    cases hi : i.binding? with
    | none =>
      rw [hi] at hs
      cases hs
    | some n =>
      rw [hi, Run.verdict_bind, Run.verdict_log] at hs
      have hclass := ih (h.addClass hr n (.simple n) i.span) hr hs
      rw [List.append_assoc] at hclass
      simpa [Import.declared, hi] using hclass

/-- Imports are not rejected for a name. -/
theorem isAboutNames_of_declareImports {is : List Import} (hr : (s.declareImports is).verdict = .error r) :
    r.isAboutNames = false := by
  induction is generalizing s with
  | nil => cases hr
  | cons i is ih =>
    rw [declareImports] at hr
    cases hi : i.binding? with
    | none =>
      rw [hi] at hr
      obtain rfl := Except.error.inj hr
      rfl
    | some n =>
      rw [hi, Run.verdict_bind, Run.verdict_log] at hr
      exact ih hr

end Scope

/-! ## Levels that bind each value name once -/

/-- The value names that a level binds, as variables and as functions. -/
def Level.valueNames (l : Level) : List String := l.vars.map (·.1) ++ l.functions.map (·.1)

/-- The value names of a level are the names it has a value of. -/
theorem Level.mem_valueNames_iff {l : Level} {n : String} : n ∈ l.valueNames ↔ l.hasValue n = true := by
  have hlookup : ∀ {α : Type} (ps : List (String × α)), n ∈ ps.map (·.1) ↔ (ps.lookup n).isSome = true := by
    intro α ps
    induction ps with
    | nil => simp
    | cons p ps ih =>
      obtain ⟨k, a⟩ := p
      rw [List.map_cons, List.mem_cons, ih, lookup_cons_ite]
      by_cases hn : n = k <;> simp [hn]
  rw [valueNames, List.mem_append, hlookup, hlookup]
  simp [hasValue, hasVariable, hasFunction]

namespace Scope

/-- No level binds a value name twice. -/
def Distinct (s : Scope) : Prop := ∀ l ∈ s.levels, l.valueNames.Nodup

variable {s : Scope}

/-- The innermost level of a scope binds every name once. -/
theorem Distinct.level (h : s.Distinct) : s.level.valueNames.Nodup := h _ List.mem_cons_self

/-- What changes the innermost level only keeps the levels around it distinct. -/
theorem Distinct.change (h : s.Distinct) {l : Level} (hl : l.valueNames.Nodup) : Distinct ⟨l, s.outer⟩ := by
  intro k hk
  rcases List.mem_cons.1 hk with rfl | hk
  · exact hl
  · exact h k (List.mem_cons_of_mem _ hk)

/-- An empty level binds no name twice. -/
theorem Distinct.child (h : s.Distinct) : s.child.Distinct := by
  intro k hk
  rcases List.mem_cons.1 hk with rfl | hk
  · exact List.nodup_nil
  · exact h k hk

/-- A variable of a new name is the only value of that name. -/
theorem Distinct.addVariable (h : s.Distinct) {n : String} (hn : s.level.hasValue n = false) (ty : Option Ty) :
    (s.addVariable n ty).Distinct := by
  refine h.change ?_
  change (n :: s.level.valueNames).Nodup
  refine List.nodup_cons.2 ⟨fun hm => ?_, h.level⟩
  rw [Level.mem_valueNames_iff, hn] at hm
  cases hm

/-- A function of a new name is the only value of that name. -/
theorem Distinct.addFunction (h : s.Distinct) {n : String} (hn : s.level.hasValue n = false) (d : Option Declaration) :
    (s.addFunction n d).Distinct := by
  refine h.change ?_
  change (s.level.vars.map (·.1) ++ n :: s.level.functions.map (·.1)).Nodup
  rw [List.nodup_middle]
  refine List.nodup_cons.2 ⟨fun hm => ?_, h.level⟩
  have hvalue := Level.mem_valueNames_iff.1 hm
  rw [hn] at hvalue
  cases hvalue

/-- Functions of new names that differ are the only values of these names. -/
theorem Distinct.addFunctions (h : s.Distinct) {ns : List String} (hns : ns.Nodup)
    (hnew : ∀ n ∈ ns, s.level.hasValue n = false) : (ns.foldl (fun s n => s.addFunction n none) s).Distinct := by
  induction ns generalizing s with
  | nil => exact h
  | cons n ns ih =>
    obtain ⟨hn, hns⟩ := List.nodup_cons.1 hns
    obtain ⟨hfirst, hrest⟩ := List.forall_mem_cons.1 hnew
    refine ih (h.addFunction hfirst none) hns fun m hm => ?_
    rw [← Bool.not_eq_true, hasValue_addFunction, hrest m hm]
    rintro (rfl | hvalue)
    · exact hn hm
    · cases hvalue

/-- A parameter of a new name is the only value of that name. -/
theorem Distinct.addParameter (h : s.Distinct) {n : String} (hn : s.level.hasValue n = false) (ty : Ty) :
    (s.addParameter n ty).Distinct := by
  unfold Scope.addParameter
  split
  · exact h.addFunction hn _
  · exact h.addVariable hn _

/-- Generic parameters are no values. -/
theorem Distinct.withGenerics (h : s.Distinct) (owner : String) (generics : List String) :
    (s.withGenerics owner generics).Distinct := by
  unfold Scope.withGenerics
  have hc := h.child
  generalize s.child = c at hc ⊢
  induction generics generalizing c with
  | nil => exact hc
  | cons n ns ih => exact ih _ (hc.change hc.level)

/-- A step of a check binds no value name that its level binds already. -/
theorem Step.distinct {s r : Scope} (h : Step s r) (hs : s.Distinct) : r.Distinct := by
  cases h with
  | child => exact hs.child
  | generics owner generics => exact hs.withGenerics owner generics
  | type n => exact hs.change hs.level
  | function hnew hd => exact hs.addFunction (ensureNewFunction_ok_iff.1 hnew) _
  | method hnew hd => exact hs.addFunction (ensureNewFunction_ok_iff.1 hnew) _
  | @record n span fields layout hnew hl =>
    have htype : (s.addType n (.simple n)).Distinct := hs.change hs.level
    have hconstructor := htype.addFunction (ensureNewRecord_ok_iff.1 hnew).2 (some layout.constructor)
    exact hconstructor.change hconstructor.level
  | receiver record => exact hs.child.addVariable rfl _
  | parameter hnew ht => exact hs.addParameter (ensureNewVariable_ok_iff.1 hnew) _
  | annotated hnew ht => exact hs.addVariable (ensureNewVariable_ok_iff.1 hnew) _
  | value hnew ht => exact hs.addVariable (ensureNewVariable_ok_iff.1 hnew) _
  | untyped hnew => exact hs.addVariable (ensureNewVariable_ok_iff.1 hnew) _
  | element ht => exact hs.child.addVariable rfl _

/-- The functions of the prelude are listed in alphabetical order. -/
theorem coreFunctions_increasing : coreFunctions.Pairwise (· < ·) := List.isChain_iff_pairwise.1 (by decide +kernel)

/-- The prelude binds every name once. -/
theorem distinct_prelude : prelude.Distinct := by
  have htypes : (preludeTypes.foldl (fun s n => s.addType n (.simple n)) empty).Distinct := by
    intro l hl
    rw [List.mem_singleton.1 hl]
    exact List.nodup_nil
  -- A list in order repeats no name, so only the one function that is declared before the list is left to compare.
  refine (htypes.addFunction rfl (some rangeDeclaration)).addFunctions (coreFunctions_increasing.imp ne_of_lt) fun n hn => ?_
  rw [← Bool.not_eq_true, hasValue_addFunction]
  rintro (rfl | hvalue)
  · revert hn
    decide +kernel
  · cases hvalue

end Scope

/-! ## What a rejection says -/

/-- A rejection tells what was asked for, and where. -/
theorem Use.rejection_inj {u v : Use} {span span' : Span} (h : u.rejection span = v.rejection span') : u = v ∧ span = span' := by
  cases u <;> cases v <;> cases h <;> exact ⟨rfl, rfl⟩

/-- The rejection of a repeated declaration is not that of an unknown name. -/
theorem Declared.rejection_ne (d : Declared) (u : Use) (span : Span) : d.rejection ≠ u.rejection span := by
  obtain ⟨n, at', kind⟩ := d
  intro h
  cases kind <;> cases u <;> cases h

namespace Explained

variable {places : List Place} {scopes : List Scope} {n : String} {span : Span}

/-- An unknown name is one that a part asks for where it is not bound, or else a field that a record does not have. -/
theorem of_use {u : Use} (h : Explained places scopes (u.rejection span)) :
    (∃ q ∈ places, q.part.use? = some (u, span) ∧ ¬q.names.Serves u) ∨
      ∃ n, u = .value n ∧ ∃ q ∈ places, ∃ target record fields, q.part = .expr (.member target n span) ∧
        q.names.kind? record = some (.record fields) ∧ n ∉ fields ∧
          ∃ s ∈ scopes, s.Binds q.names ∧ s.typeOf target = .ok (some (.simple record)) := by
  generalize hr : u.rejection span = r at h
  cases h with
  | @unbound q v at' hq hu hserves =>
    obtain ⟨rfl, rfl⟩ := Use.rejection_inj hr
    exact Or.inl ⟨q, hq, hu, hserves⟩
  | @field q s target n record fields at' hq hpart hs hbinds htarget hkind hn =>
    obtain ⟨rfl, rfl⟩ : u = .value n ∧ span = at' := Use.rejection_inj hr
    exact Or.inr ⟨n, rfl, q, hq, target, record, fields, hpart, hkind, hn, s, hs, hbinds, htarget⟩
  | repeated hq hlevel hd => exact absurd hr.symm (Declared.rejection_ne _ _ _)
  | repeatedField hq hpart hfields hn => cases u <;> cases hr
  | other h =>
    subst hr
    cases u <;> cases h

/-- A variable is declared where its level has the name already, or it is a field that is listed twice. -/
theorem of_variableDeclared (h : Explained places scopes ((Cause.variableDeclared n).at span)) :
    ∃ q ∈ places, (∃ before after, before ++ ⟨n, span, .var⟩ :: after ∈ q.part.levels ∧ n ∈ Declared.values before) ∨
      ∃ record fields is before after, q.part = .stmt (.record record fields is span) ∧
        fields.map (·.name) = before ++ n :: after ∧ n ∈ before := by
  generalize hr : (Cause.variableDeclared n).at span = r at h
  cases h with
  | @unbound q u at' hq hu hserves => cases u <;> cases hr
  | field => cases hr
  | @repeated q before after d hq hlevel hd =>
    obtain ⟨m, at', kind⟩ := d
    cases kind <;> cases hr
    rcases hd.2 with hd | ⟨hkind, -⟩
    · exact ⟨q, hq, Or.inl ⟨before, after, hlevel, hd⟩⟩
    · cases hkind
  | @repeatedField q record m fields is at' before after hq hpart hfields hn =>
    cases hr
    exact ⟨q, hq, Or.inr ⟨record, fields, is, before, after, hpart, hfields, hn⟩⟩
  | other h =>
    subst hr
    cases h

/-- A function or a record is declared where its level has the name already, a record also where the level has it as a type. -/
theorem of_functionDeclared (h : Explained places scopes ((Cause.functionDeclared n).at span)) :
    ∃ q ∈ places, ∃ before after,
      (before ++ ⟨n, span, .function⟩ :: after ∈ q.part.levels ∧ n ∈ Declared.values before) ∨
      before ++ ⟨n, span, .record⟩ :: after ∈ q.part.levels ∧ (n ∈ Declared.values before ∨ n ∈ Declared.types before) := by
  generalize hr : (Cause.functionDeclared n).at span = r at h
  cases h with
  | @unbound q u at' hq hu hserves => cases u <;> cases hr
  | field => cases hr
  | @repeated q before after d hq hlevel hd =>
    refine ⟨q, hq, before, after, ?_⟩
    obtain ⟨m, at', kind⟩ := d
    obtain ⟨hvalue, hd⟩ := hd
    cases kind with
    | var => cases hr
    | function =>
      cases hr
      exact Or.inl ⟨hlevel, hd.resolve_right fun h => DeclaredKind.noConfusion h.1⟩
    | record =>
      cases hr
      exact Or.inr ⟨hlevel, hd.imp_right And.right⟩
    | hostClass => cases hvalue
  | repeatedField => cases hr
  | other h =>
    subst hr
    cases h

end Explained

/-! ## Programs -/

namespace Program

variable {p : Program}

/-- The imports of a program bind what they declare, inside the prelude. -/
theorem tracks_of_imports {s : Scope} (h : (Scope.prelude.child.declareImports p.imports).verdict = .ok s) :
    s.Tracks (Names.prelude.addImports p.imports) (p.imports.flatMap Import.declared) :=
  Scope.tracks_of_declareImports Scope.binds_prelude.tracks_child rfl h

/-- Every part of an accepted program is in order. -/
theorem proper_of_validate (h : p.validate.verdict = .ok ()) : ∀ q ∈ p.places, q.Proper := by
  simp only [validate, Run.verdict_bind, Run.verdict_log] at h
  obtain ⟨s, hs, h⟩ := bind_eq_ok_iff.1 h
  obtain ⟨r, hr, -⟩ := bind_eq_ok_iff.1 h
  have htracks := tracks_of_imports hs
  obtain ⟨Γ, hlevel⟩ := Scope.tracks_of_checkStmts htracks hr
  rw [places, List.forall_mem_cons]
  refine ⟨.of_levels rfl (List.forall_mem_singleton.2 hlevel.nodup), ?_⟩
  exact Scope.proper_of_checkStmts (fun st _ => Scope.proper_cases.all_stmts st) htracks hr

/-- The rejection of a program is explained by its parts and the scopes that they are checked in. -/
theorem explained_of_validate {r : Rejection} (h : p.validate.verdict = .error r) : Explained p.places p.visited r := by
  simp only [validate, Run.verdict_bind, Run.verdict_log] at h
  rcases bind_eq_error_iff.1 h with h | ⟨s, hs, h⟩
  · exact .other (Scope.isAboutNames_of_declareImports h)
  rcases bind_eq_error_iff.1 h with h | ⟨r, -, h⟩
  · rcases Scope.explained_of_checkStmts (fun st _ => Scope.explained_cases.all_stmts st) (tracks_of_imports hs) h with he | hc
    · refine he.mono (List.subset_cons_self _ _) fun q hq => ?_
      refine List.mem_cons_of_mem _ (List.mem_append_right _ ?_)
      exact mem_following_iff.2 ⟨s, hs, hq⟩
    · have hlevel : Declared.Clash [] (p.imports.flatMap Import.declared ++ p.body.flatMap Stmt.declared) r :=
        Declared.Clash.append_right hc
      exact hlevel.explained List.mem_cons_self List.mem_cons_self _
  · cases h

/-- Names are resolved exactly. In an accepted program, every name that is used as a value, called or named as a type is bound at
its place by the rules of lexical scope. Where a program is rejected for an unknown function or an unknown type, a part asks for
it at that place, and it is not bound there. Where it is rejected for an unknown variable, a part asks for it where it is not
bound, or it is a member of something that is known to be of a record, which is visible there and has no such field. -/
theorem names_exact (p : Program) :
    (p.validate.verdict = .ok () → ∀ q ∈ p.places, ∀ u span, q.part.use? = some (u, span) → q.names.Serves u) ∧
    (∀ n span, p.validate.verdict = .error ((Cause.unknownFunction n).at span) →
      ∃ q ∈ p.places, q.part.use? = some (.callee n, span) ∧ n ∉ q.names.values) ∧
    (∀ n span, p.validate.verdict = .error ((Cause.unknownType n).at span) →
      ∃ q ∈ p.places, q.part.use? = some (.type n, span) ∧ q.names.kind? n = none) ∧
    ∀ n span, p.validate.verdict = .error ((Cause.unknownVariable n).at span) →
      ∃ q ∈ p.places, (q.part.use? = some (.value n, span) ∧ n ∉ q.names.values) ∨
        ∃ target record fields, q.part = .expr (.member target n span) ∧ q.names.kind? record = some (.record fields) ∧
          n ∉ fields ∧ ∃ s ∈ p.visited, s.Binds q.names ∧ s.typeOf target = .ok (some (.simple record)) := by
  refine ⟨fun h q hq => (proper_of_validate h q hq).serves, fun n span h => ?_, fun n span h => ?_, fun n span h => ?_⟩
  · rcases (explained_of_validate h).of_use (u := .callee n) with ⟨q, hq, hu, hserves⟩ | ⟨m, hm, -⟩
    · exact ⟨q, hq, hu, hserves⟩
    · cases hm
  · rcases (explained_of_validate h).of_use (u := .type n) with ⟨q, hq, hu, hserves⟩ | ⟨m, hm, -⟩
    · exact ⟨q, hq, hu, Option.not_isSome_iff_eq_none.1 hserves⟩
    · cases hm
  · rcases (explained_of_validate h).of_use (u := .value n) with ⟨q, hq, hu, hserves⟩ | ⟨m, hm, q, hq, hfield⟩
    · exact ⟨q, hq, Or.inl ⟨hu, hserves⟩⟩
    · cases hm
      exact ⟨q, hq, Or.inr hfield⟩

/-- `record Pair(left: Nil) implements Sized { defmethod size(by: Nil) -> Nil { left } }`. -/
def pairRecord : Stmt :=
  .record "Pair" [⟨"left", .named "Nil" [] ⟨18, 21⟩, ⟨12, 21⟩⟩]
    [⟨"Sized", [⟨"size", [⟨"by", .named "Nil" [] ⟨61, 64⟩, ⟨57, 64⟩⟩], some (.named "Nil" [] ⟨69, 72⟩),
      ⟨[.expr (.name "left" ⟨75, 79⟩)], ⟨73, 81⟩⟩, ⟨42, 81⟩⟩], ⟨23, 83⟩⟩] ⟨0, 83⟩

/-- The record, and a statement after it. -/
def pairProgram (st : Stmt) : Program := ⟨[], [pairRecord, st], ⟨0, 116⟩⟩

/-- `Pair(nil)`. -/
def pairOf : Expr := .call "Pair" [.literal .nil ⟨89, 92⟩] ⟨84, 93⟩

/-- A method sees the fields of its record, no other place does, and a protocol is no type: after the record,
`Pair(nil).size(nil)` is accepted, and `left()`, `def p: Sized = nil` and `Pair(nil).right` are rejected for the names `left`,
`Sized` and `right`. -/
theorem pairProgram_names :
    (∀ q ∈ (pairProgram (.expr (.methodCall .first pairOf "size" [.literal .nil ⟨99, 102⟩] ⟨84, 103⟩))).places, ∀ u span,
      q.part.use? = some (u, span) → q.names.Serves u) ∧
    (∃ q ∈ (pairProgram (.expr (.call "left" [] ⟨84, 90⟩))).places, q.part.use? = some (.callee "left", ⟨84, 90⟩) ∧
      "left" ∉ q.names.values) ∧
    (∃ q ∈ (pairProgram (.define "p" (some (.named "Sized" [] ⟨91, 96⟩)) (.literal .nil ⟨99, 102⟩) ⟨84, 102⟩)).places,
      q.part.use? = some (.type "Sized", ⟨91, 96⟩) ∧ q.names.kind? "Sized" = none) ∧
    ∃ q ∈ (pairProgram (.expr (.member pairOf "right" ⟨84, 99⟩))).places,
      (q.part.use? = some (.value "right", ⟨84, 99⟩) ∧ "right" ∉ q.names.values) ∨
        ∃ target record fields, q.part = .expr (.member target "right" ⟨84, 99⟩) ∧ q.names.kind? record = some (.record fields) ∧
          "right" ∉ fields ∧ ∃ s ∈ (pairProgram (.expr (.member pairOf "right" ⟨84, 99⟩))).visited, s.Binds q.names ∧
            s.typeOf target = .ok (some (.simple record)) := by
  refine ⟨(names_exact _).1 ?_, (names_exact _).2.1 _ _ ?_, (names_exact _).2.2.1 _ _ ?_, (names_exact _).2.2.2 _ _ ?_⟩
  · cbv
  · cbv
  · cbv
  · cbv

/-- Declarations are unique. In an accepted program, no level declares a value name twice, be it as variables, functions, records
or methods; in all scopes of the check of any program, no level binds a name twice, be it as a variable or as a function. Where a
program is rejected because a variable is declared already, the level that declares it has that value before, or else it is listed
twice among the fields of a record; where it is rejected because a function is, the level that declares a function, a method or a
record of that name has that value before, or, for a record, that type. -/
theorem declared_once (p : Program) :
    (p.validate.verdict = .ok () → ∀ q ∈ p.places, ∀ level ∈ q.part.levels, (Declared.values level).Nodup) ∧
    (∀ s ∈ p.visited, ∀ l ∈ s.levels, (l.vars.map (·.1) ++ l.functions.map (·.1)).Nodup) ∧
    (∀ n span, p.validate.verdict = .error ((Cause.variableDeclared n).at span) →
      ∃ q ∈ p.places, (∃ before after, before ++ ⟨n, span, .var⟩ :: after ∈ q.part.levels ∧ n ∈ Declared.values before) ∨
        ∃ record fields is before after, q.part = .stmt (.record record fields is span) ∧
          fields.map (·.name) = before ++ n :: after ∧ n ∈ before) ∧
    ∀ n span, p.validate.verdict = .error ((Cause.functionDeclared n).at span) →
      ∃ q ∈ p.places, ∃ before after,
        (before ++ ⟨n, span, .function⟩ :: after ∈ q.part.levels ∧ n ∈ Declared.values before) ∨
        before ++ ⟨n, span, .record⟩ :: after ∈ q.part.levels ∧ (n ∈ Declared.values before ∨ n ∈ Declared.types before) := by
  refine ⟨fun h q hq => (proper_of_validate h q hq).nodup, fun s hs => ?_, fun n span h => ?_, fun n span h => ?_⟩
  · exact (steps_of_visited hs).keeps (fun s r hstep => hstep.distinct) Scope.distinct_prelude
  · exact (explained_of_validate h).of_variableDeclared
  · exact (explained_of_validate h).of_functionDeclared

/-- After the record, `defn left(by: Nil) { by }` is accepted, `defn left(by: Nil, by: Nil) { by }` declares `by` twice at the
level of its parameters, and `defn size() { nil }` declares the method `size` of the record once more. -/
theorem pairProgram_declared :
    (∀ q ∈ (pairProgram (.function "left" [] [⟨"by", .named "Nil" [] ⟨98, 101⟩, ⟨94, 101⟩⟩] none
        ⟨[.expr (.name "by" ⟨105, 107⟩)], ⟨103, 109⟩⟩ ⟨84, 109⟩)).places,
      ∀ level ∈ q.part.levels, (Declared.values level).Nodup) ∧
    (∃ q ∈ (pairProgram (.function "left" [] [⟨"by", .named "Nil" [] ⟨98, 101⟩, ⟨94, 101⟩⟩,
        ⟨"by", .named "Nil" [] ⟨107, 110⟩, ⟨103, 110⟩⟩]
        none ⟨[.expr (.name "by" ⟨114, 116⟩)], ⟨112, 118⟩⟩ ⟨84, 118⟩)).places,
      (∃ before after, before ++ ⟨"by", ⟨103, 110⟩, .var⟩ :: after ∈ q.part.levels ∧ "by" ∈ Declared.values before) ∨
        ∃ record fields is before after, q.part = .stmt (.record record fields is ⟨103, 110⟩) ∧
          fields.map (·.name) = before ++ "by" :: after ∧ "by" ∈ before) ∧
    ∃ q ∈ (pairProgram (.function "size" [] [] none ⟨[.expr (.literal .nil ⟨98, 101⟩)], ⟨96, 103⟩⟩ ⟨84, 103⟩)).places,
      ∃ before after,
      (before ++ ⟨"size", ⟨84, 103⟩, .function⟩ :: after ∈ q.part.levels ∧ "size" ∈ Declared.values before) ∨
      before ++ ⟨"size", ⟨84, 103⟩, .record⟩ :: after ∈ q.part.levels ∧
        ("size" ∈ Declared.values before ∨ "size" ∈ Declared.types before) := by
  refine ⟨(declared_once _).1 ?_, (declared_once _).2.2.1 _ _ ?_, (declared_once _).2.2.2 _ _ ?_⟩
  · cbv
  · cbv
  · cbv

end Program

end Gradual
