import Gradual.Report.Check

/-!
# The command line

The options are `-v`, `--dump-ast`, `--dump-tokens` and `--log-level LEVEL`, and one file is named beside them. The arguments are
read from left to right and the first wrong one decides. An option may be given once. After `--` every argument is a file. A
request for the version or for help is answered where it stands, without a look at what follows.
-/

namespace Gradual

/-- The options that are set or not. -/
inductive Switch where
  | verbose | dumpTree | dumpTokens
  deriving DecidableEq

/-- What a command line has said so far. -/
structure Invocation where
  file : Option String := none
  verbose : Bool := false
  dumpTree : Bool := false
  dumpTokens : Bool := false
  logLevel : Option Severity := none
  deriving DecidableEq

/-- What a command line asks for. -/
inductive Command where
  | check (file : String) (options : CheckOptions) (logLevel : Severity)
  | version
  | help
  deriving DecidableEq

/-- What one argument asks for. -/
inductive Flag where
  | switch (switch : Switch)
  | version
  | help
  deriving DecidableEq

/-- A command line that is not understood. -/
inductive UsageError where
  | unknownOption (text : String)
  | unexpectedValue (option : String)
  | missingValue (option : String)
  | badValue (option value : String)
  | repeatedOption (option : String)
  | secondFile (text : String)
  | missingFile
  deriving DecidableEq

/-- The message of a command line that is not understood. -/
def UsageError.message : UsageError → String
  | .unknownOption t => "unexpected argument '" ++ t ++ "' found"
  | .unexpectedValue o => "unexpected value for '" ++ o ++ "' found"
  | .missingValue o => "a value is required for '" ++ o ++ "' but none was supplied"
  | .badValue o v => "invalid value '" ++ v ++ "' for '" ++ o ++ "'"
  | .repeatedOption o => "the argument '" ++ o ++ "' cannot be used multiple times"
  | .secondFile t => "unexpected argument '" ++ t ++ "' found"
  | .missingFile => "the following required arguments were not provided: <INPUT>"

/-- The outcome of reading arguments: the command of a request that is answered at once, or what was said so far. -/
abbrev Reading : Type := Except UsageError (Command ⊕ Invocation)

namespace Invocation

/-- Sets a switch, which may be set once. -/
def set (i : Invocation) : Switch → Except UsageError Invocation
  | .verbose => if i.verbose then .error (.repeatedOption "--verbose") else .ok { i with verbose := true }
  | .dumpTree => if i.dumpTree then .error (.repeatedOption "--dump-ast") else .ok { i with dumpTree := true }
  | .dumpTokens => if i.dumpTokens then .error (.repeatedOption "--dump-tokens") else .ok { i with dumpTokens := true }

/-- Sets the file, of which there is one. -/
def setFile (i : Invocation) (path : String) : Except UsageError Invocation :=
  if i.file.isSome then .error (.secondFile path)
  else if path.isEmpty then .error (.missingValue "<INPUT>")
  else .ok { i with file := some path }

/-- Sets the log level, which may be given once. -/
def setLogLevel (i : Invocation) (value : String) : Except UsageError Invocation :=
  if i.logLevel.isSome then .error (.repeatedOption "--log-level")
  else
    match Severity.ofName? value with
    | some l => .ok { i with logLevel := some l }
    | none => .error (.badValue "--log-level" value)

/-- Acts on a flag: a switch is set, a request is answered. -/
def apply (i : Invocation) : Flag → Reading
  | .switch s => (i.set s).map .inr
  | .version => .ok (.inl .version)
  | .help => .ok (.inl .help)

/-- The flag of a single letter. -/
def shortFlag? : Char → Option Flag
  | 'v' => some (.switch .verbose)
  | 'V' => some .version
  | 'h' => some .help
  | _ => none

/-- The flag of a word. -/
def longFlag? : String → Option Flag
  | "verbose" => some (.switch .verbose)
  | "dump-ast" => some (.switch .dumpTree)
  | "dump-tokens" => some (.switch .dumpTokens)
  | "version" => some .version
  | "help" => some .help
  | _ => none

/-- Reads letters that stand together after one hyphen. -/
def readLetters (i : Invocation) : List Char → Reading
  | [] => .ok (.inr i)
  | c :: cs =>
    match shortFlag? c with
    | none => .error (.unknownOption ("-" ++ c.toString))
    | some f => do
      match ← i.apply f with
      | .inl command => pure (.inl command)
      | .inr i => readLetters i cs

/-- Reads the arguments after `--`, all of them files. -/
def readFiles (i : Invocation) : List String → Except UsageError Invocation
  | [] => .ok i
  | a :: as => do
    let i ← i.setFile a
    readFiles i as

/-- A word after two hyphens, split at its first `=` into the option and its value. -/
def splitOption (cs : List Char) : String × Option String :=
  let option := String.ofList (cs.takeWhile (· ≠ '='))
  match cs.dropWhile (· ≠ '=') with
  | [] => (option, none)
  | _ :: value => (option, some (String.ofList value))

/-- Whether an argument can be the value of an option: it does not begin with a hyphen, or is nothing but one. -/
def isValue (a : String) : Bool := a == "-" || !a.startsWith "-"

/-- Reads arguments from left to right. -/
def read (i : Invocation) : List String → Reading
  | [] => .ok (.inr i)
  | a :: as =>
    match a.toList with
    | ['-', '-'] => (readFiles i as).map .inr
    | '-' :: '-' :: word =>
      match splitOption word with
      | ("log-level", some value) => do
        let i ← i.setLogLevel value
        read i as
      | ("log-level", none) =>
        match as with
        | value :: as =>
          if isValue value then do
            let i ← i.setLogLevel value
            read i as
          else .error (.missingValue "--log-level")
        | [] => .error (.missingValue "--log-level")
      | (option, value) =>
        match longFlag? option, value with
        | none, _ => .error (.unknownOption a)
        | some _, some _ => .error (.unexpectedValue a)
        | some f, none => do
          match ← i.apply f with
          | .inl command => pure (.inl command)
          | .inr i => read i as
    | '-' :: c :: cs => do
      match ← i.readLetters (c :: cs) with
      | .inl command => pure (.inl command)
      | .inr i => read i as
    | _ => do
      let i ← i.setFile a
      read i as

end Invocation

/-- The command that arguments ask for. -/
def Command.ofArguments (args : List String) : Except UsageError Command := do
  match ← Invocation.read {} args with
  | .inl command => pure command
  | .inr i =>
    match i.file with
    | none => .error .missingFile
    | some file => pure (.check file ⟨i.dumpTokens, i.dumpTree, i.verbose⟩ (i.logLevel.getD .warn))

/-- What the program leaves: its exit status, its output, and what it emitted to the error output. -/
structure Effect where
  status : Nat
  output : String
  emitted : List Emission
  deriving DecidableEq

namespace Command

/-- The name of the program and its version. -/
def versionText : String := "jestc 0.1.0\n"

/-- How the program is used. -/
def usage : String := "Usage: jestc [OPTIONS] <INPUT>\n"

/-- What the program says about itself. -/
def helpText : String :=
  "Semantic checker for the Jest language\n\n" ++ usage ++
    "\nArguments:\n  <INPUT>  Input source file (.jest)\n\nOptions:\n" ++
    "  -v, --verbose                Verbose output\n" ++
    "      --dump-ast               Dump AST (for debugging)\n" ++
    "      --dump-tokens            Dump tokens (for debugging)\n" ++
    "      --log-level <LOG_LEVEL>  Log level [default: warn] " ++
    "[possible values: error, warn, info, debug, trace]\n" ++
    "  -h, --help                   Print help\n" ++
    "  -V, --version                Print version\n"

/-- The check of a file that was read, or could not be. -/
def checkEffect (file : String) (content : Except ReadFailure String) (o : CheckOptions) : Effect :=
  match content with
  | .error f => ⟨1, "", [.text ("error: cannot read " ++ file ++ ": " ++ f.text ++ "\n")]⟩
  | .ok source =>
    let run := checkNamed file source o
    let opening : List Emission := if o.verbose then [.text ("Checking " ++ file ++ "\n")] else []
    match run.verdict with
    | .error _ => ⟨1, "", opening ++ run.emitted⟩
    | .ok _ =>
      let closing : List Emission := if o.verbose then [.text ("No errors found in " ++ file ++ "\n")] else []
      ⟨0, "", opening ++ run.emitted ++ closing⟩

/-- What a command leaves, given the content of the files that it may read. -/
def run (content : String → Except ReadFailure String) : Command → Effect
  | .version => ⟨0, versionText, []⟩
  | .help => ⟨0, helpText, []⟩
  | .check file o _ => checkEffect file (content file) o

end Command

/-- What a command line that is not understood leaves. -/
def UsageError.effect (e : UsageError) : Effect :=
  ⟨2, "", [.text ("error: " ++ e.message ++ "\n\n" ++ Command.usage ++ "\nFor more information, try '--help'.\n")]⟩

end Gradual
