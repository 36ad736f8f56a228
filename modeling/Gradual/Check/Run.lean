import Gradual.Check.Event

/-!
# Runs: a verdict, and what was emitted on the way to it

A run yields a value or stops at an error; what it emitted before is kept either way. The verdict of a sequence of runs is the
sequence of their verdicts, whatever they emit.
-/

namespace Gradual

/-- A verdict, and what was emitted on the way, in order. -/
structure Run (ε α : Type) where
  verdict : Except ε α
  emitted : List Emission

namespace Run

variable {ε ε' α β : Type}

/-- The run that goes on from the value of a run. -/
def andThen (r : Run ε α) (f : α → Run ε β) : Run ε β :=
  match r.verdict with
  | .error e => ⟨.error e, r.emitted⟩
  | .ok a =>
    let next := f a
    ⟨next.verdict, r.emitted ++ next.emitted⟩

instance : Monad (Run ε) where
  pure a := ⟨.ok a, []⟩
  bind := andThen

/-- A run with that verdict, which emits nothing. -/
def ofExcept (r : Except ε α) : Run ε α := ⟨r, []⟩

/-- A run that emits an event. -/
def log (e : Event) : Run ε Unit := ⟨.ok (), [.event e]⟩

/-- A run that emits a text. -/
def write (s : String) : Run ε Unit := ⟨.ok (), [.text s]⟩

/-- A run with another view of its errors. -/
def mapError (f : ε → ε') (r : Run ε α) : Run ε' α := ⟨r.verdict.mapError f, r.emitted⟩

/-- The events of a run, in order. -/
def events (r : Run ε α) : List Event := r.emitted.filterMap Emission.event?

/-- The text that a run writes. -/
def output (r : Run ε α) : String := String.join (r.emitted.filterMap Emission.text?)

/-! ## Verdicts -/

@[simp] theorem verdict_pure (a : α) : (pure a : Run ε α).verdict = .ok a := rfl

@[simp] theorem verdict_bind (r : Run ε α) (f : α → Run ε β) :
    (r >>= f).verdict = r.verdict >>= fun a => (f a).verdict := by
  change (r.andThen f).verdict = _
  unfold andThen
  cases r.verdict <;> rfl

@[simp] theorem verdict_ofExcept (x : Except ε α) : (ofExcept x).verdict = x := rfl

@[simp] theorem verdict_log (e : Event) : (log e : Run ε Unit).verdict = .ok () := rfl

@[simp] theorem verdict_write (s : String) : (write s : Run ε Unit).verdict = .ok () := rfl

end Run

end Gradual
