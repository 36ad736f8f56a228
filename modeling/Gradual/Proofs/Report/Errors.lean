import Mathlib
import Gradual.Report.Check
import Gradual.Proofs.Check.Located
import Gradual.Proofs.Check.Paired
import Gradual.Proofs.Grammar.Errors
import Gradual.Proofs.Grammar.Program

/-!
# The errors of a check

A check ends with an error at one of three stages (`checkSource_error`): a fault when the tokens are written out, an error of the
parser, or a rejection of the program. What each stage reports points into the source, at places where a character begins or the
source ends.
-/

namespace Gradual

open Phrase (AllSpans)

variable {source : String}

/-- Writing out the tokens of a source fails at its first fault only. -/
theorem CheckOptions.writeTokens_error {o : CheckOptions} {e : Error} (h : (o.writeTokens source).verdict = .error e) :
    ∃ f, tokenize source = .error f ∧ e = .lexical f := by
  unfold writeTokens at h
  split at h
  · rw [Run.verdict_bind, Run.verdict_write, bind_eq_error_iff] at h
    rcases h with h | ⟨⟨⟩, -, h⟩
    · cases h
    rw [Run.verdict_bind, Run.verdict_ofExcept, bind_eq_error_iff] at h
    rcases h with h | ⟨dump, -, h⟩
    · unfold Gradual.dumpTokens at h
      cases ht : tokenize source with
      | ok ts =>
        rw [ht] at h
        cases h
      | error f =>
        rw [ht] at h
        cases h
        exact ⟨f, rfl, rfl⟩
    · cases h
  · cases h

@[simp] theorem CheckOptions.verdict_writeIf {ε : Type} (wanted : Bool) (s : String) :
    (writeIf wanted s : Run ε Unit).verdict = .ok () := by
  cases wanted <;> rfl

@[simp] theorem CheckOptions.verdict_writeTree (o : CheckOptions) (p : Program) : (o.writeTree p).verdict = .ok () := by
  unfold writeTree
  split <;> rfl

/-- A check fails for a fault in the source, for its grammar, or because its program is rejected. -/
theorem checkSource_error {o : CheckOptions} {e : Error} (h : (checkSource source o).verdict = .error e) :
    (∃ f, tokenize source = .error f ∧ e = .lexical f) ∨ (∃ c, parse source = .error c ∧ e = .ofParse c) ∨
      ∃ p r, parse source = .ok p ∧ p.validate.verdict = .error r ∧ e = .ofRejection r := by
  unfold checkSource at h
  rw [Run.verdict_bind, bind_eq_error_iff] at h
  rcases h with h | ⟨⟨⟩, -, h⟩
  · exact .inl (CheckOptions.writeTokens_error h)
  simp only [Run.verdict_bind, CheckOptions.verdict_writeIf, Run.verdict_ofExcept, Run.verdict_log,
    CheckOptions.verdict_writeTree, Run.verdict_pure, ok_bind] at h
  cases hp : parse source with
  | error c =>
    rw [hp] at h
    cases h
    exact .inr (.inl ⟨c, rfl, rfl⟩)
  | ok p =>
    rw [hp] at h
    simp only [Except.mapError, Run.mapError, ok_bind] at h
    cases hr : p.validate.verdict with
    | ok u =>
      rw [hr] at h
      cases h
    | error r =>
      rw [hr] at h
      cases h
      exact .inr (.inr ⟨p, r, rfl, hr, rfl⟩)

/-! ## Positions -/

/-- Every node of a program that was parsed has a span of the source. -/
theorem allSpans_of_parse {p : Program} (h : parse source = .ok p) : AllSpans (·.Fits source) p.phrases := by
  obtain ⟨⟨ts, t, hts, -, hspells⟩, -, -⟩ := parse_reads h
  obtain ⟨m, hm⟩ := lined_of_tokenize hts
  obtain ⟨l, hl, -⟩ := hm.of_append
  intro s hs
  exact hspells.fits hl hs

/-- A program that was parsed is rejected for an issue at a span of the source, and never for an error of the checker. -/
theorem isAt_of_parse {p : Program} {r : Rejection} (h : parse source = .ok p) (hr : p.validate.verdict = .error r) :
    r.IsAt (·.Fits source) :=
  p.located_validate (allSpans_of_parse h) (parse_reads h).2.2 r hr

/-- Every position that is reported is one of the source: its ends are in order, within the source and no place inside a
character, so that it has a line and a column. -/
theorem position_of_error {o : CheckOptions} {e : Error} {s : Span} (h : (checkSource source o).verdict = .error e)
    (hs : e.span? = some s) :
    s.start ≤ s.stop ∧ s.stop ≤ source.utf8ByteSize ∧ String.Pos.Raw.IsValid source ⟨s.start⟩ ∧
      String.Pos.Raw.IsValid source ⟨s.stop⟩ ∧ (s.lineColumn? source).isSome := by
  have hfits : s.Fits source := by
    rcases checkSource_error h with ⟨f, hf, rfl⟩ | ⟨c, hc, rfl⟩ | ⟨p, r, hp, hr, rfl⟩
    · cases hs
      exact (Reader.shows_ofSource source).fault hf
    · have habout := isAbout_of_parse_error hc
      cases c with
      | lexical f =>
        cases hs
        exact habout
      | grammar c span =>
        cases hs
        exact habout.2
    · have hat := isAt_of_parse hp hr
      cases r with
      | issue i =>
        cases hs
        exact hat
      | internal i => cases hs
  exact ⟨hfits.ordered, hfits.stop_le, hfits.start, hfits.stop, hfits.isSome_lineColumn?⟩

/-- A call of an unknown function on the line below a character of two bytes. -/
def callBelowAccent : String := "\"é\"\nf(nil)"

/-- The call is reported from the start of its line to the end of the source. -/
theorem callBelowAccent_position :
    (checkSource callBelowAccent {}).verdict = .error (.issue ⟨.unknownFunction "f", ⟨5, 11⟩⟩) ∧ 5 ≤ 11 ∧
      11 ≤ callBelowAccent.utf8ByteSize ∧ String.Pos.Raw.IsValid callBelowAccent ⟨5⟩ ∧
      String.Pos.Raw.IsValid callBelowAccent ⟨11⟩ ∧ (Span.lineColumn? ⟨5, 11⟩ callBelowAccent).isSome := by
  have herror : (checkSource callBelowAccent {}).verdict = .error (.issue ⟨.unknownFunction "f", ⟨5, 11⟩⟩) := by cbv
  exact ⟨herror, position_of_error herror rfl⟩

/-! ## Errors of the checker itself -/

/-- No source makes the checker fail by itself. Its verdict is never an internal error: the imports of a program that was parsed
have paths, and signatures, constructors and function types become declarations that are paired, whatever the scope is, as do
their instances. Every scope of a check holds paired declarations only, be it checked or typed in, and only paired ones are
called. Positions are looked up in a call after its arguments were counted, and are then positions of both its types and its
arguments. The places looked up in a partition are in range as well: a search begins at the place of a type, and all parents are
places of types (`Partition.IsForest.parent_lt`, which every step keeps: `Partition.tracks_after`). -/
theorem no_internal_error :
    (∀ source o i, (checkSource source o).verdict ≠ .error (.internal i)) ∧
    (∀ source p, parse source = .ok p → ∀ i ∈ p.imports, i.path ≠ []) ∧
    (∀ s : Scope,
      (∀ n generics params ret, (∀ i, s.functionDeclaration n generics params ret ≠ .error (.internal i)) ∧
        ∀ d, s.functionDeclaration n generics params ret = .ok (some d) → d.names = params.map (·.name) ∧ d.Paired) ∧
      (∀ receiver n params ret, (∀ i, s.methodDeclaration receiver n params ret ≠ .error (.internal i)) ∧
        ∀ d, s.methodDeclaration receiver n params ret = .ok (some d) → d.names = "self" :: params.map (·.name) ∧ d.Paired) ∧
      ∀ n fields layout, s.recordLayout n fields = .ok layout →
        layout.constructor.names = fields.map (·.name) ∧ layout.constructor.Paired) ∧
    (∀ n t d, Declaration.ofFunctionType? n t = some d → d.Paired) ∧
    (∀ d : Declaration, d.Paired → ∀ site, (d.instantiate site).Paired) ∧
    (∀ p : Program, ∀ s ∈ p.visited, s.Paired) ∧
    (∀ s : Scope, s.Paired →
      (∀ n d, s.callee? n = some (.typed d) → d.Paired) ∧ (∀ st r, s.declare st = .ok r → r.Paired) ∧
      (∀ bs r, s.child.bindAll bs = .ok r → r.Paired) ∧
      ∀ ps ts r, s.lambdaScope s.child ps = .ok (some (ts, r)) → r.Paired) ∧
    ∀ (d : Declaration) (args : ArgTypes),
      (d.checkCount args ≠ .ok () → d.checkGenericCall args = .error (.argumentCount d.arity args.length) ∧
        d.resultType args = .error (.argumentCount d.arity args.length)) ∧
      (d.checkCount args = .ok () → ∀ site,
        (∀ m ∈ (d.instantiate site).positions, ∀ i ∈ m.2, i < (d.instantiate site).types.length ∧ i < args.length) ∧
        ∀ p, ∀ i ∈ ((d.instantiate site).positions.lookup p).getD [], i < args.length) := by
  refine ⟨?_, ?_, ?_, ?_, ?_, ?_, ?_, ?_⟩
  · intro source o i h
    rcases checkSource_error h with ⟨f, -, he⟩ | ⟨c, -, he⟩ | ⟨p, r, hp, hr, he⟩
    · cases he
    · cases c <;> cases he
    · have hat := isAt_of_parse hp hr
      cases r with
      | issue => cases he
      | internal => exact hat
  · intro source p hp
    exact (parse_reads hp).2.2
  · intro s
    have hspans : ∀ ps : List Phrase, AllSpans (fun _ => True) ps := fun ps span _ => trivial
    refine ⟨fun n generics params ret => ⟨?_, ?_⟩, fun receiver n params ret => ⟨?_, ?_⟩, ?_⟩
    · exact fun i h => s.located_functionDeclaration (hspans _) (fun a _ => hspans _) _ h
    · exact fun d h => Scope.names_of_functionDeclaration h
    · exact fun i h => s.located_methodDeclaration (hspans _) (fun a _ => hspans _) _ h
    · exact fun d h => Scope.names_of_methodDeclaration h
    · exact fun n fields layout h => ⟨(Scope.names_of_recordLayout h).2, layout.paired_constructor⟩
  · exact fun n t d h => Declaration.paired_ofFunctionType h
  · exact fun d h site => h.instantiate site
  · exact fun p s h => Program.paired_of_visited h
  · intro s hs
    have hchild : s.child.Paired := hs
    exact ⟨fun n d h => hs.callee h, fun st r h => hs.declare h, fun bs r h => hchild.bindAll h,
      fun ps ts r h => hchild.lambdaScope h⟩
  · intro d args
    refine ⟨fun h => Declaration.miscounted h, fun h site => ⟨?_, ?_⟩⟩
    · exact fun m hm i hi => Declaration.lt_of_mem_positions h hm hi
    · intro p i hi
      exact (Declaration.lt_of_mem_positionsOf h ((Declaration.mem_lookup_positions_iff _ p i).1 hi).2).2

/-- A source of an import alone. -/
def importAlone : String := "import a.b;"

/-- The import has a path, and the arguments of a counted call `apply(same, nil)` stand at all positions that it looks up. -/
theorem importAlone_path :
    (∃ p, parse importAlone = .ok p ∧ p.imports ≠ [] ∧ ∀ i ∈ p.imports, i.path ≠ []) ∧
    Scope.applySignature.Paired ∧ (Scope.applySignature.instantiate "call").Paired ∧
    Scope.applySignature.checkCount [none, some .nil] = .ok () ∧
    ∀ m ∈ (Scope.applySignature.instantiate "call").positions, ∀ i ∈ m.2, i < 2 := by
  have hparse : parse importAlone = .ok ⟨[⟨["a", "b"], ⟨0, 11⟩⟩], [], ⟨0, 11⟩⟩ := by cbv
  have hpaired : Scope.applySignature.Paired := rfl
  have hcount : Scope.applySignature.checkCount [none, some .nil] = .ok () := rfl
  obtain ⟨-, hpaths, -, -, hinstance, -, -, hpositions⟩ := no_internal_error
  refine ⟨⟨_, hparse, by simp, hpaths _ _ hparse⟩, hpaired, hinstance _ hpaired _, hcount, ?_⟩
  exact fun m hm i hi => (((hpositions _ _).2 hcount "call").1 m hm i hi).2

end Gradual
