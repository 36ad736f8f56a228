import Gradual.Types.Text

/-!
# Events: what a run of the checker tells while it runs

A run emits log events and texts, in order. An event has a severity, the part of the checker it comes from, a message and named
fields; a text goes to the error output as it is.
-/

namespace Gradual

/-- How important an event is, the most important first. -/
inductive Severity where
  | error | warn | info | debug | trace
  deriving DecidableEq

namespace Severity

/-- Every severity, the most important first. -/
def all : List Severity := [.error, .warn, .info, .debug, .trace]

/-- The name of a severity on the command line. -/
def name : Severity → String
  | .error => "error"
  | .warn => "warn"
  | .info => "info"
  | .debug => "debug"
  | .trace => "trace"

/-- The label of a severity in the log. -/
def label : Severity → String
  | .error => "ERROR"
  | .warn => "WARN"
  | .info => "INFO"
  | .debug => "DEBUG"
  | .trace => "TRACE"

/-- The severity of that name. -/
def ofName? (s : String) : Option Severity := all.find? (·.name == s)

/-- How far down the list of severities one stands. -/
def rank : Severity → Nat
  | .error => 0
  | .warn => 1
  | .info => 2
  | .debug => 3
  | .trace => 4

end Severity

/-- Something that happened in a run. -/
inductive Event where
  | checking (file : String)
  | parsed (imports statements : Nat)
  | imported (name : String)
  | functionDeclared (name : String) (typed generic : Bool) (depth : Nat)
  | recordDeclared (name : String) (fields : Nat)
  | implementation (record protocol : String)
  | methodDeclared (name : String) (receiver : Ty)
  | variableDeclared (name : String) (ty : Option Ty)
  | untypedCall (function : String)
  | typedCall (function : String) (generic : Bool) (arguments : Nat)
  | validated (statements : Nat)
  | accepted (file : String)
  | rejected (file error : String)
  deriving DecidableEq

/-- The value of a field of an event. -/
inductive FieldValue where
  | number (n : Nat)
  | bool (b : Bool)
  | text (s : String)
  deriving DecidableEq

/-- The text of a field's value. -/
def FieldValue.written : FieldValue → String
  | .number n => toString n
  | .bool b => toString b
  | .text s => s

namespace Event

/-- How important an event is. -/
def severity : Event → Severity
  | .checking _ | .accepted _ => .info
  | .parsed .. | .functionDeclared .. | .recordDeclared .. | .validated _ | .rejected .. => .debug
  | .imported _ | .implementation .. | .methodDeclared .. | .variableDeclared .. | .untypedCall _ | .typedCall .. => .trace

/-- The part of the checker that an event comes from: the run as a whole, or the check of the program's meaning. -/
def target : Event → String
  | .checking _ | .parsed .. | .accepted _ | .rejected .. => "driver"
  | _ => "sema"

/-- The message of an event. -/
def message : Event → String
  | .checking _ => "checking"
  | .parsed .. => "parsed"
  | .imported _ => "import"
  | .functionDeclared .. => "declare function"
  | .recordDeclared .. => "declare record"
  | .implementation .. => "implementation"
  | .methodDeclared .. => "declare method"
  | .variableDeclared .. => "declare variable"
  | .untypedCall _ => "untyped call"
  | .typedCall .. => "check call"
  | .validated _ => "program validated"
  | .accepted _ => "ok"
  | .rejected .. => "rejected"

/-- The fields of an event, in order. -/
def fields : Event → List (String × FieldValue)
  | .checking f => [("file", .text f)]
  | .parsed i s => [("imports", .number i), ("statements", .number s)]
  | .imported n => [("class", .text n)]
  | .functionDeclared n t g d => [("function", .text n), ("typed", .bool t), ("generic", .bool g), ("depth", .number d)]
  | .recordDeclared n f => [("record", .text n), ("fields", .number f)]
  | .implementation r p => [("record", .text r), ("protocol", .text p)]
  | .methodDeclared n r => [("method", .text n), ("receiver", .text r.text)]
  | .variableDeclared n t =>
    [("variable", .text n), ("ty", .text (Text.Outline.option (t.map Ty.outline)).line)]
  | .untypedCall f => [("function", .text f)]
  | .typedCall f g a => [("function", .text f), ("generic", .bool g), ("arguments", .number a)]
  | .validated s => [("statements", .number s)]
  | .accepted f => [("file", .text f)]
  | .rejected f e => [("file", .text f), ("error", .text e)]

end Event

/-- What a run emits. -/
inductive Emission where
  | event (event : Event)
  | text (text : String)
  deriving DecidableEq

/-- The event that an emission is. -/
def Emission.event? : Emission → Option Event
  | .event e => some e
  | .text _ => none

/-- The text that an emission is. -/
def Emission.text? : Emission → Option String
  | .event _ => none
  | .text s => some s

end Gradual
