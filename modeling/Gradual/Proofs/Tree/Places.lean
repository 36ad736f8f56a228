import Gradual.Scope.Prelude
import Gradual.Tree.Basic

/-!
# The parts of a program, each with the names it sees

The rules of lexical scope, read off the tree alone and without regard to types. `Names` holds the names that a place sees, and
`Program.places` lists every part of a program with them: annotations, expressions, blocks and statements, also those inside the
bodies of functions, methods and lambdas. `Part.use?` is the name that a part asks for, and `Part.levels` the levels that it
opens, each with what it declares, in order.
-/

namespace Gradual

/-! ## Names -/

/-- What a name stands for as a type. -/
inductive TypeKind where
  | plain
  | generic
  | record (fields : List String)
  deriving DecidableEq

/-- The fields of a record, for a name that stands for one. -/
def TypeKind.fields? : TypeKind → Option (List String)
  | .record fields => some fields
  | _ => none

/-- The names that a place sees: the values, and the types with their kinds, the nearest first. -/
structure Names where
  values : List String
  types : List (String × TypeKind)

namespace Names

/-- The kind of the nearest type of a name. -/
def kind? (Γ : Names) (n : String) : Option TypeKind := Γ.types.lookup n

/-- The names with one more value. -/
def addValue (Γ : Names) (n : String) : Names := { Γ with values := n :: Γ.values }

/-- The names with more values, one after the other. -/
def addValues (Γ : Names) (ns : List String) : Names := ns.foldl addValue Γ

/-- The names with one more type. -/
def addType (Γ : Names) (n : String) (kind : TypeKind) : Names := { Γ with types := (n, kind) :: Γ.types }

/-- The names with generic parameters, one after the other. -/
def addGenerics (Γ : Names) (ns : List String) : Names := ns.foldl (fun Γ n => Γ.addType n .generic) Γ

/-- The names with the classes that imports bind. -/
def addImports (Γ : Names) : List Import → Names
  | [] => Γ
  | i :: is =>
    match i.binding? with
    | none => addImports Γ is
    | some n => addImports (Γ.addType n .plain) is

/-- The names with a record: its type, and its constructor. -/
def addRecord (Γ : Names) (n : String) (fields : List Param) : Names :=
  (Γ.addType n (.record (fields.map (·.name)))).addValue n

/-- The names with the methods of implementations. -/
def addMethods (Γ : Names) (is : List Implementation) : Names := is.foldl (fun Γ i => Γ.addValues (i.methods.map (·.name))) Γ

/-- The names that the statements after a statement see. -/
def after (Γ : Names) : Stmt → Names
  | .function n _ _ _ _ _ => Γ.addValue n
  | .record n fields is _ => (Γ.addRecord n fields).addMethods is
  | .define n _ _ _ => Γ.addValue n
  | .expr _ => Γ

/-- The names that the body of a function sees: the function itself, its generic parameters and its parameters. -/
def inFunction (Γ : Names) (n : String) (generics : List String) (params : List Param) : Names :=
  ((Γ.addValue n).addGenerics generics).addValues (params.map (·.name))

/-- The names that the body of a method sees: the method itself, the fields of its record, `self` and its parameters. -/
def inMethod (Γ : Names) (n : String) (fields params : List Param) : Names :=
  (((Γ.addValue n).addValues (fields.map (·.name))).addValue "self").addValues (params.map (·.name))

/-- The names with plain types, one after the other. -/
def addPlain (Γ : Names) (ns : List String) : Names := ns.foldl (fun Γ n => Γ.addType n .plain) Γ

/-- The names of the prelude. -/
def prelude : Names := ((addPlain ⟨[], []⟩ preludeTypes).addValue rangeDeclaration.name).addValues coreFunctions

end Names

/-! ## Places -/

/-- A part of a program. -/
inductive Part where
  | program (program : Program)
  | type (ty : Annotation)
  | expr (expr : Expr)
  | block (block : Block)
  | stmt (stmt : Stmt)

/-- A part of a program, and the names that it sees. -/
structure Place where
  names : Names
  part : Part

namespace Names

mutual

/-- The places of an annotation. -/
def placesOfType (Γ : Names) : Annotation → List Place
  | .named n as span => ⟨Γ, .type (.named n as span)⟩ :: placesOfTypes Γ as
  | .function ps r span => ⟨Γ, .type (.function ps r span)⟩ :: (placesOfTypes Γ ps ++ placesOfType Γ r)

/-- The places of annotations. -/
def placesOfTypes (Γ : Names) : List Annotation → List Place
  | [] => []
  | a :: as => placesOfType Γ a ++ placesOfTypes Γ as

end

/-- The places of the annotations of parameters or fields. -/
def placesOfParams (Γ : Names) (params : List Param) : List Place := Γ.placesOfTypes (params.map (·.ty))

/-- The places of an annotation that may be missing. -/
def placesOfType? (Γ : Names) (ty : Option Annotation) : List Place := Γ.placesOfTypes ty.toList

mutual

/-- The places of an expression. -/
def places (Γ : Names) : Expr → List Place
  | .literal v span => [⟨Γ, .expr (.literal v span)⟩]
  | .name n span => [⟨Γ, .expr (.name n span)⟩]
  | .binary op l r span => ⟨Γ, .expr (.binary op l r span)⟩ :: (places Γ l ++ places Γ r)
  | .unary op e span => ⟨Γ, .expr (.unary op e span)⟩ :: places Γ e
  | .call f args span => ⟨Γ, .expr (.call f args span)⟩ :: placesOfAll Γ args
  | .methodCall threading receiver m args span =>
    ⟨Γ, .expr (.methodCall threading receiver m args span)⟩ :: (places Γ receiver ++ placesOfAll Γ args)
  | .member target field span => ⟨Γ, .expr (.member target field span)⟩ :: places Γ target
  | .get collection key span => ⟨Γ, .expr (.get collection key span)⟩ :: (places Γ collection ++ places Γ key)
  | .vector items span => ⟨Γ, .expr (.vector items span)⟩ :: placesOfAll Γ items
  | .map entries span => ⟨Γ, .expr (.map entries span)⟩ :: placesOfEntries Γ entries
  | .block b => ⟨Γ, .expr (.block b)⟩ :: placesOfBlock Γ b
  | .letIn bindings body span => ⟨Γ, .expr (.letIn bindings body span)⟩ ::
      (placesOfBindings Γ bindings ++ placesOfBlock (Γ.addValues (bindings.map (·.name))) body)
  | .forEach vars iterable body span => ⟨Γ, .expr (.forEach vars iterable body span)⟩ ::
      (places Γ iterable ++ placesOfBlock (Γ.addValues (vars.map (·.name))) body)
  | .cond branches otherwise span => ⟨Γ, .expr (.cond branches otherwise span)⟩ ::
      (placesOfBranches Γ branches ++ placesOfBlock? Γ otherwise)
  | .lambda params body span => ⟨Γ, .expr (.lambda params body span)⟩ ::
      (Γ.placesOfTypes (params.filterMap (·.ty)) ++ places (Γ.addValues (params.map (·.name))) body)
  | .paren e span => ⟨Γ, .expr (.paren e span)⟩ :: places Γ e

/-- The places of expressions. -/
def placesOfAll (Γ : Names) : List Expr → List Place
  | [] => []
  | e :: es => places Γ e ++ placesOfAll Γ es

/-- The places of the entries of a map. -/
def placesOfEntries (Γ : Names) : List Entry → List Place
  | [] => []
  | ⟨key, value⟩ :: es => places Γ key ++ (places Γ value ++ placesOfEntries Γ es)

/-- The places of the bindings of a let, each of which sees those before it. -/
def placesOfBindings (Γ : Names) : List Binding → List Place
  | [] => []
  | ⟨name, value, _⟩ :: bs => places Γ value ++ placesOfBindings (Γ.addValue name) bs

/-- The places of the branches of a conditional. -/
def placesOfBranches (Γ : Names) : List Branch → List Place
  | [] => []
  | ⟨condition, body⟩ :: bs => places Γ condition ++ (placesOfBlock Γ body ++ placesOfBranches Γ bs)

/-- The places of a block that may be missing. -/
def placesOfBlock? (Γ : Names) : Option Block → List Place
  | none => []
  | some b => placesOfBlock Γ b

/-- The places of a block. -/
def placesOfBlock (Γ : Names) : Block → List Place
  | ⟨stmts, span⟩ => ⟨Γ, .block ⟨stmts, span⟩⟩ :: placesOfStmts Γ stmts

/-- The places of statements, each of which sees what those before it define. -/
def placesOfStmts (Γ : Names) : List Stmt → List Place
  | [] => []
  | st :: stmts => placesOfStmt Γ st ++ placesOfStmts (Γ.after st) stmts

/-- The places of the methods of a record, each of which sees itself and those before it. -/
def placesOfMethods (Γ : Names) (fields : List Param) : List Method → List Place
  | [] => []
  | ⟨name, params, ret, body, _⟩ :: ms => Γ.placesOfParams params ++ (Γ.placesOfType? ret ++
      (placesOfBlock (Γ.inMethod name fields params) body ++ placesOfMethods (Γ.addValue name) fields ms))

/-- The places of the implementations of a record. -/
def placesOfImplementations (Γ : Names) (fields : List Param) : List Implementation → List Place
  | [] => []
  | ⟨_, methods, _⟩ :: is => placesOfMethods Γ fields methods ++
      placesOfImplementations (Γ.addValues (methods.map (·.name))) fields is

/-- The places of a statement. -/
def placesOfStmt (Γ : Names) : Stmt → List Place
  | .function n generics params ret body span => ⟨Γ, .stmt (.function n generics params ret body span)⟩ ::
      ((Γ.addGenerics generics).placesOfParams params ++ ((Γ.addGenerics generics).placesOfType? ret ++
        placesOfBlock (Γ.inFunction n generics params) body))
  | .record n fields is span => ⟨Γ, .stmt (.record n fields is span)⟩ ::
      ((Γ.addRecord n fields).placesOfParams fields ++ placesOfImplementations (Γ.addRecord n fields) fields is)
  | .define n ty value span => ⟨Γ, .stmt (.define n ty value span)⟩ :: (Γ.placesOfType? ty ++ places Γ value)
  | .expr e => ⟨Γ, .stmt (.expr e)⟩ :: places Γ e

end

/-- The places of an annotation that is there are its places. -/
theorem placesOfType?_some (Γ : Names) (a : Annotation) : Γ.placesOfType? (some a) = Γ.placesOfType a := by
  simp [placesOfType?, placesOfTypes]

section Lists

variable {Γ : Names} {P : Place → Prop}

/-- What holds of all places of expressions holds of those of each of them. -/
theorem forall_placesOfAll {es : List Expr} : (∀ q ∈ Γ.placesOfAll es, P q) ↔ ∀ e ∈ es, ∀ q ∈ Γ.places e, P q := by
  induction es with
  | nil => simp [placesOfAll]
  | cons e es ih => rw [placesOfAll, List.forall_mem_append, ih, List.forall_mem_cons]

/-- A property of the places of a map's entries is one of their keys and their values. -/
theorem forall_placesOfEntries {es : List Entry} : (∀ q ∈ Γ.placesOfEntries es, P q) ↔
    ∀ e ∈ es, (∀ q ∈ Γ.places e.key, P q) ∧ ∀ q ∈ Γ.places e.value, P q := by
  induction es with
  | nil => simp [placesOfEntries]
  | cons e es ih =>
    obtain ⟨key, value⟩ := e
    rw [placesOfEntries, List.forall_mem_append, List.forall_mem_append, ih, List.forall_mem_cons, and_assoc]

/-- A property of the places of branches is one of their conditions and their bodies. -/
theorem forall_placesOfBranches {bs : List Branch} : (∀ q ∈ Γ.placesOfBranches bs, P q) ↔
    ∀ b ∈ bs, (∀ q ∈ Γ.places b.condition, P q) ∧ ∀ q ∈ Γ.placesOfBlock b.body, P q := by
  induction bs with
  | nil => simp [placesOfBranches]
  | cons b bs ih =>
    obtain ⟨condition, body⟩ := b
    rw [placesOfBranches, List.forall_mem_append, List.forall_mem_append, ih, List.forall_mem_cons, and_assoc]

end Lists

end Names

/-- The places of a program. -/
def Program.places (p : Program) : List Place :=
  ⟨Names.prelude, .program p⟩ :: (Names.prelude.addImports p.imports).placesOfStmts p.body

/-! ## Uses -/

/-- What a name is used as. -/
inductive Use where
  | value (name : String)
  | callee (name : String)
  | type (name : String)

/-- Whether names serve a use. -/
def Names.Serves (Γ : Names) : Use → Prop
  | .value n => n ∈ Γ.values
  | .callee n => n ∈ Γ.values
  | .type n => (Γ.kind? n).isSome = true

/-- The name that a part asks for, and where. -/
def Part.use? : Part → Option (Use × Span)
  | .type (.named n _ span) => some (.type n, span)
  | .expr (.name n span) => some (.value n, span)
  | .expr (.call f _ span) => some (.callee f, span)
  | .expr (.methodCall _ _ m _ span) => some (.callee m, span)
  | _ => none

/-! ## Levels -/

/-- What a level can declare: a variable, a function, a record, which is a type and a function, or a class of the host, which is a
type. -/
inductive DeclaredKind where
  | var
  | function
  | record
  | hostClass
  deriving DecidableEq

/-- A name that a level declares, and where. -/
structure Declared where
  name : String
  span : Span
  kind : DeclaredKind

namespace Declared

/-- Whether what is declared is a value. -/
def isValue (d : Declared) : Bool := d.kind != .hostClass

/-- Whether what is declared is a type. -/
def isType (d : Declared) : Bool := d.kind == .record || d.kind == .hostClass

/-- The value names among what is declared. -/
def values (ds : List Declared) : List String := (ds.filter isValue).map (·.name)

/-- The type names among what is declared. -/
def types (ds : List Declared) : List String := (ds.filter isType).map (·.name)

/-- The declaration of a value repeats one before it when its name is a value there, and that of a record also when it is
a type. -/
def Repeats (d : Declared) (before : List Declared) : Prop :=
  d.isValue = true ∧ (d.name ∈ values before ∨ d.kind = .record ∧ d.name ∈ types before)

end Declared

def Param.declared (p : Param) : Declared := ⟨p.name, p.span, .var⟩

def LambdaParam.declared (p : LambdaParam) : Declared := ⟨p.name, p.span, .var⟩

def LocalName.declared (v : LocalName) : Declared := ⟨v.name, v.span, .var⟩

def Binding.declared (b : Binding) : Declared := ⟨b.name, b.span, .var⟩

def Method.declared (m : Method) : Declared := ⟨m.name, m.span, .function⟩

/-- The receiver of a method, which is declared before its parameters. -/
def Method.receiver (m : Method) : Declared := ⟨"self", m.span, .var⟩

def Import.declared (i : Import) : List Declared := i.binding?.toList.map fun n => ⟨n, i.span, .hostClass⟩

/-- What a statement declares at the level it stands at: a record declares its methods with it. -/
def Stmt.declared : Stmt → List Declared
  | .function n _ _ _ _ span => [⟨n, span, .function⟩]
  | .record n _ is span => ⟨n, span, .record⟩ :: is.flatMap fun i => i.methods.map Method.declared
  | .define n _ _ span => [⟨n, span, .var⟩]
  | .expr _ => []

/-- The levels that a part opens, each with what it declares, in order. -/
def Part.levels : Part → List (List Declared)
  | .program p => [p.imports.flatMap Import.declared ++ p.body.flatMap Stmt.declared]
  | .block b => [b.stmts.flatMap Stmt.declared]
  | .expr (.letIn bindings _ _) => [bindings.map Binding.declared]
  | .expr (.forEach vars _ _ _) => [vars.map LocalName.declared]
  | .expr (.lambda params _ _) => [params.map LambdaParam.declared]
  | .stmt (.function _ _ params _ _ _) => [params.map Param.declared]
  | .stmt (.record _ fields is _) => fields.map Param.declared ::
      (is.flatMap (·.methods)).map fun m => m.receiver :: m.params.map Param.declared
  | _ => []

end Gradual
