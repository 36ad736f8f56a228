import Mathlib
import Gradual.Proofs.Report.Errors

/-!
# What the options of a check change

The options decide what a check writes. Only writing the tokens out can change its verdict, as the whole source is then read
before it is parsed: a fault that the parser would not have come to, because it stops at an earlier token, is then what is
reported. A source that parses has no fault, since the parser reads it to its end and passes nothing over, so what is accepted is
accepted under all options, and a source without a fault gets one verdict (`verdict_of_options`).
-/

namespace Gradual

variable {source : String}

/-- What a check that writes nothing comes to: the error of the parser, the rejection of the program, or the program. -/
def plainVerdict (source : String) : Except Error Program := do
  let p ← (parse source).mapError .ofParse
  p.validate.verdict.mapError .ofRejection
  pure p

/-- Writing the tokens out fails at the first fault of the source. -/
theorem CheckOptions.verdict_writeTokens (o : CheckOptions) (source : String) :
    (o.writeTokens source).verdict =
      if o.dumpTokens then (tokenize source).mapError .lexical >>= fun _ => .ok () else .ok () := by
  unfold writeTokens
  split
  · simp only [Run.verdict_bind, Run.verdict_write, Run.verdict_ofExcept, ok_bind, Gradual.dumpTokens]
    cases tokenize source <;> rfl
  · rfl

/-- The verdict of a check is the plain one, after the tokens were written out. -/
theorem verdict_checkSource (source : String) (o : CheckOptions) :
    (checkSource source o).verdict = (o.writeTokens source).verdict >>= fun _ => plainVerdict source := by
  simp only [checkSource, Run.verdict_bind, CheckOptions.verdict_writeIf, CheckOptions.verdict_writeTree, Run.verdict_ofExcept,
    Run.verdict_log, Run.verdict_pure, Run.mapError, ok_bind, plainVerdict]
  rfl

/-- A source that is accepted parses, so it was read to its end without a fault. -/
theorem tokenize_of_plainVerdict {p : Program} (h : plainVerdict source = .ok p) : ∃ ts, tokenize source = .ok ts := by
  cases hp : parse source with
  | error e =>
    rw [plainVerdict, hp] at h
    cases h
  | ok q =>
    obtain ⟨⟨ts, t, hts, -, -⟩, -, -⟩ := parse_reads hp
    exact ⟨ts ++ [t], hts⟩

/-- Where no fault is, the verdict is the plain one. -/
theorem verdict_of_tokenize {ts : List Token} (o : CheckOptions) (h : tokenize source = .ok ts) :
    (checkSource source o).verdict = plainVerdict source := by
  rw [verdict_checkSource, CheckOptions.verdict_writeTokens, h]
  split <;> rfl

/-- A check accepts what the plain one does. -/
theorem verdict_ok_iff (source : String) (o : CheckOptions) (p : Program) :
    (checkSource source o).verdict = .ok p ↔ plainVerdict source = .ok p := by
  constructor
  · intro h
    rw [verdict_checkSource] at h
    obtain ⟨⟨⟩, -, hplain⟩ := bind_eq_ok_iff.1 h
    exact hplain
  · intro h
    obtain ⟨ts, hts⟩ := tokenize_of_plainVerdict h
    rw [verdict_of_tokenize o hts, h]

/-- The options of a check do not change what is accepted: a source is accepted under all options, with one program, or under
none. Where the tokens of the source are read without a fault, all options give one verdict, also when it is an error. -/
theorem verdict_of_options (source : String) (o₁ o₂ : CheckOptions) :
    (∀ p, (checkSource source o₁).verdict = .ok p ↔ (checkSource source o₂).verdict = .ok p) ∧
      ∀ ts, tokenize source = .ok ts → (checkSource source o₁).verdict = (checkSource source o₂).verdict := by
  refine ⟨fun p => ?_, fun ts hts => ?_⟩
  · rw [verdict_ok_iff, verdict_ok_iff]
  · rw [verdict_of_tokenize o₁ hts, verdict_of_tokenize o₂ hts]

/-- A definition without a name. -/
def namelessSource : String := "def = nil;"

def namelessTokens : List Token :=
  [⟨.keyword .define, ⟨0, 3⟩⟩, ⟨.mark .eq, ⟨4, 5⟩⟩, ⟨.keyword .nil, ⟨6, 9⟩⟩, ⟨.mark .semi, ⟨9, 10⟩⟩, ⟨.eof, ⟨10, 10⟩⟩]

/-- The missing name is reported under all options alike. -/
theorem namelessSource_verdict :
    tokenize namelessSource = .ok namelessTokens ∧
      (checkSource namelessSource ⟨false, false, false⟩).verdict = .error (.grammar (.expectedName (.mark .eq)) ⟨4, 5⟩) ∧
      ∀ o, (checkSource namelessSource o).verdict = .error (.grammar (.expectedName (.mark .eq)) ⟨4, 5⟩) := by
  have htokens : Reader.drainWithin 5 (Reader.ofSource namelessSource) = some (.ok namelessTokens) := by cbv
  have hts : tokenize namelessSource = .ok namelessTokens := Reader.drain_of_drainWithin htokens
  have hplain : (checkSource namelessSource ⟨false, false, false⟩).verdict =
      .error (.grammar (.expectedName (.mark .eq)) ⟨4, 5⟩) := by cbv
  exact ⟨hts, hplain, fun o => ((verdict_of_options namelessSource o ⟨false, false, false⟩).2 _ hts).trans hplain⟩

end Gradual
