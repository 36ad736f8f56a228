import Gradual.Check.Issue
import Gradual.Grammar.Parser

/-!
# Errors: why a source is not accepted

A source may be impossible to read, hold a text that begins no token, break the grammar, or be rejected by the check. An error
has a message, which stands alone, and a title with labels, which a diagnostic shows beside the source.
-/

namespace Gradual

/-- Why a file could not be read: the system refused, or its bytes are no text. -/
inductive ReadFailure where
  | system (message : String) (code : Nat)
  | notText
  deriving DecidableEq

namespace ReadFailure

/-- There is no such file. -/
def notFound : ReadFailure := .system "No such file or directory" 2

/-- A part of the path that should be a directory is none. -/
def notDirectory : ReadFailure := .system "Not a directory" 20

/-- The path is that of a directory. -/
def isDirectory : ReadFailure := .system "Is a directory" 21

/-- A path, or one of its parts, is longer than the system allows. -/
def nameTooLong : ReadFailure := .system "File name too long" 36

/-- The text of a read failure. -/
def text : ReadFailure → String
  | .system m c => m ++ " (os error " ++ toString c ++ ")"
  | .notText => "stream did not contain valid UTF-8"

end ReadFailure

/-- Why a source is not accepted. -/
inductive Error where
  | unreadable (failure : ReadFailure)
  | lexical (fault : Fault)
  | grammar (cause : GrammarCause) (span : Span)
  | issue (issue : Issue)
  | internal (error : InternalError)
  deriving DecidableEq

/-- A label of a diagnostic: a span of the source, and what to say about it. -/
structure Label where
  span : Span
  text : String
  deriving DecidableEq

namespace Error

/-- The error of a text that does not parse. -/
def ofParse : ParseError → Error
  | .lexical f => .lexical f
  | .grammar c s => .grammar c s

/-- The error of a program that is rejected. -/
def ofRejection : Rejection → Error
  | .issue i => .issue i
  | .internal e => .internal e

/-- What a text that begins no token is told. -/
def faultMessage (f : Fault) : String := "unexpected character '" ++ f.text ++ "'"

/-- The message of an error. -/
def message : Error → String
  | .unreadable f => "IO error: " ++ f.text
  | .lexical f => "Lexer error at " ++ f.span.text ++ ": " ++ faultMessage f
  | .grammar c s => "Parser error at " ++ s.text ++ ": " ++ c.message
  | .issue i => i.cause.message
  | .internal e => e.message

/-- The title of an error. -/
def title : Error → String
  | .unreadable f => "IO error: " ++ f.text
  | .lexical _ => "Lexer error"
  | .grammar _ _ => "Syntax error"
  | .issue i => i.cause.category.title
  | .internal _ => "Internal error"

/-- The labels of an error. -/
def labels : Error → List Label
  | .unreadable _ => []
  | .lexical f => [⟨f.span, faultMessage f⟩]
  | .grammar c s => [⟨s, c.message⟩]
  | .issue i => [⟨i.span, i.cause.message⟩]
  | .internal _ => []

/-- The span of the source that an error is about. -/
def span? : Error → Option Span
  | .unreadable _ => none
  | .lexical f => some f.span
  | .grammar _ s => some s
  | .issue i => some i.span
  | .internal _ => none

end Error

end Gradual
