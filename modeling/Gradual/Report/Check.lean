import Gradual.Check.Validity
import Gradual.Grammar.Program
import Gradual.Report.Diagnostic
import Gradual.Tree.Outline

/-!
# The check of a source

A source is parsed and the program checked. On request the tokens and the tree are written out before the stage that follows
them, and each stage is announced. Writing the tokens out reads the whole source, so a fault anywhere in it is then met before
the grammar is.
-/

namespace Gradual

/-- What a run of the check writes besides its diagnostic. -/
structure CheckOptions where
  dumpTokens : Bool := false
  dumpTree : Bool := false
  verbose : Bool := false
  deriving DecidableEq

namespace CheckOptions

/-- Writes a text if it is wanted. -/
def writeIf {ε : Type} (wanted : Bool) (s : String) : Run ε Unit := if wanted then Run.write s else pure ()

/-- Writes the tokens of a source out, if that is wanted. -/
def writeTokens (o : CheckOptions) (source : String) : Run Error Unit :=
  if o.dumpTokens then do
    Run.write "=== Jest Tokens ===\n"
    let dump ← Run.ofExcept ((Gradual.dumpTokens source).mapError .lexical)
    Run.write dump
    Run.write "=== End Tokens ===\n\n"
  else pure ()

/-- Writes a program out, if that is wanted. -/
def writeTree (o : CheckOptions) (p : Program) : Run Error Unit :=
  if o.dumpTree then do
    Run.write "=== Jest AST ===\n"
    Run.write (p.dump ++ "\n")
    Run.write "=== End AST ===\n\n"
  else pure ()

end CheckOptions

/-- The check of a source, which yields its program. -/
def checkSource (source : String) (o : CheckOptions) : Run Error Program := do
  o.writeTokens source
  CheckOptions.writeIf o.verbose "Parsing...\n"
  let p ← Run.ofExcept ((parse source).mapError .ofParse)
  Run.log (.parsed p.imports.length p.body.length)
  o.writeTree p
  CheckOptions.writeIf o.verbose "Validating...\n"
  p.validate.mapError .ofRejection
  pure p

/-- The check of a source under the name of its file, with a diagnostic when it fails. -/
def checkNamed (file source : String) (o : CheckOptions) : Run Error Unit :=
  let checked := checkSource source o
  let ending : List Emission :=
    match checked.verdict with
    | .ok _ => [.event (.accepted file)]
    | .error e => [.event (.rejected file e.message), .text (e.diagnostic file source)]
  ⟨checked.verdict.map fun _ => (), .event (.checking file) :: checked.emitted ++ ending⟩

/-- The check of a file that was read, or could not be. -/
def checkFile (content : Except ReadFailure String) (o : CheckOptions) : Run Error Program := do
  let source ← Run.ofExcept (content.mapError .unreadable)
  checkSource source o

/-- Whether a source passes every check. -/
def isValid (source : String) : Bool := (checkSource source {}).verdict.isOk

/-- The dump of a source's tree. -/
def dumpTree (source : String) : Except Error String := ((parse source).map Program.dump).mapError .ofParse

end Gradual
