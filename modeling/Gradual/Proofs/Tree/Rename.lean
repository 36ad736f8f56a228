import Gradual.Proofs.Tree.Places

/-!
# Renaming a generic parameter in a program

`Stmt.renameParameter x y` gives the generic parameter `x` of a function definition the name `y`, where the definition binds it
and in every annotation that it is bound in: an inner function or an inner record of that name binds it anew, and what it binds is
left alone. `Program.sites` lists the function definitions of a program, each with the names it sees, the generic parameters of
the functions around it and the program with another statement in its place.
-/

namespace Gradual

/-! ## Renaming -/

/-- The names under which annotations are renamed, with some of them kept as they are. -/
def keeping (ν : String → String) (ns : List String) : String → String := fun n => if n ∈ ns then n else ν n

/-- One name renamed, and all others kept. -/
def renameOne (x y : String) : String → String := fun n => if n = x then y else n

namespace Annotation

mutual

/-- An annotation with its names renamed. -/
def rename (ν : String → String) : Annotation → Annotation
  | .named n as span => .named (ν n) (renameAll ν as) span
  | .function ps r span => .function (renameAll ν ps) (rename ν r) span

/-- Annotations with their names renamed. -/
def renameAll (ν : String → String) : List Annotation → List Annotation
  | [] => []
  | a :: as => rename ν a :: renameAll ν as

end

end Annotation

/-- A parameter or a field with its annotation renamed. -/
def Param.rename (ν : String → String) (p : Param) : Param := { p with ty := p.ty.rename ν }

/-- A parameter of a lambda with its annotation renamed. -/
def LambdaParam.rename (ν : String → String) (p : LambdaParam) : LambdaParam := { p with ty := p.ty.map (·.rename ν) }

/-- Renaming types leaves the names of parameters as they are. -/
theorem map_name_rename (ν : String → String) (params : List Param) :
    (params.map (Param.rename ν)).map (·.name) = params.map (·.name) := by
  simp [Param.rename]

/-- The types of renamed parameters are the renamed types. -/
theorem map_ty_rename (ν : String → String) (params : List Param) :
    (params.map (Param.rename ν)).map (·.ty) = Annotation.renameAll ν (params.map (·.ty)) := by
  induction params with
  | nil => rfl
  | cons p ps ih => exact congrArg (p.ty.rename ν :: ·) ih

/-- The renaming of the statements after a statement: the name of a record is bound anew. -/
def Stmt.renamingAfter (ν : String → String) : Stmt → String → String
  | .record n _ _ _ => keeping ν [n]
  | _ => ν

mutual

/-- An expression with the names in its annotations renamed, as far as it does not bind them anew. -/
def Expr.rename (ν : String → String) : Expr → Expr
  | .literal v span => .literal v span
  | .name n span => .name n span
  | .binary op l r span => .binary op (l.rename ν) (r.rename ν) span
  | .unary op e span => .unary op (e.rename ν) span
  | .call f args span => .call f (renameExprs ν args) span
  | .methodCall threading receiver m args span => .methodCall threading (receiver.rename ν) m (renameExprs ν args) span
  | .member target field span => .member (target.rename ν) field span
  | .get collection key span => .get (collection.rename ν) (key.rename ν) span
  | .vector items span => .vector (renameExprs ν items) span
  | .map entries span => .map (renameEntries ν entries) span
  | .block b => .block (b.rename ν)
  | .letIn bindings body span => .letIn (renameBindings ν bindings) (body.rename ν) span
  | .forEach vars iterable body span => .forEach vars (iterable.rename ν) (body.rename ν) span
  | .cond branches otherwise span => .cond (renameBranches ν branches) (renameBlock? ν otherwise) span
  | .lambda params body span => .lambda (params.map (LambdaParam.rename ν)) (body.rename ν) span
  | .paren e span => .paren (e.rename ν) span

/-- Expressions renamed. -/
def renameExprs (ν : String → String) : List Expr → List Expr
  | [] => []
  | e :: es => e.rename ν :: renameExprs ν es

/-- The entries of a map renamed. -/
def renameEntries (ν : String → String) : List Entry → List Entry
  | [] => []
  | ⟨key, value⟩ :: es => ⟨key.rename ν, value.rename ν⟩ :: renameEntries ν es

/-- The bindings of a let renamed. -/
def renameBindings (ν : String → String) : List Binding → List Binding
  | [] => []
  | ⟨name, value, span⟩ :: bs => ⟨name, value.rename ν, span⟩ :: renameBindings ν bs

/-- The branches of a conditional renamed. -/
def renameBranches (ν : String → String) : List Branch → List Branch
  | [] => []
  | ⟨condition, body⟩ :: bs => ⟨condition.rename ν, body.rename ν⟩ :: renameBranches ν bs

/-- A block that may be missing renamed. -/
def renameBlock? (ν : String → String) : Option Block → Option Block
  | none => none
  | some b => some (b.rename ν)

/-- A block renamed. -/
def Block.rename (ν : String → String) : Block → Block
  | ⟨stmts, span⟩ => ⟨renameStmts ν stmts, span⟩

/-- Statements renamed, each as far as those before it did not bind the names anew. -/
def renameStmts (ν : String → String) : List Stmt → List Stmt
  | [] => []
  | st :: stmts => st.rename ν :: renameStmts (st.renamingAfter ν) stmts

/-- The methods of a record renamed. -/
def renameMethods (ν : String → String) : List Method → List Method
  | [] => []
  | ⟨name, params, ret, body, span⟩ :: ms =>
    ⟨name, params.map (Param.rename ν), ret.map (·.rename ν), body.rename ν, span⟩ :: renameMethods ν ms

/-- The implementations of a record renamed. -/
def renameImplementations (ν : String → String) : List Implementation → List Implementation
  | [] => []
  | ⟨protocol, methods, span⟩ :: is => ⟨protocol, renameMethods ν methods, span⟩ :: renameImplementations ν is

/-- A statement renamed; a function binds its generic parameters anew, and a record its name. -/
def Stmt.rename (ν : String → String) : Stmt → Stmt
  | .function n generics params ret body span =>
    .function n generics (params.map (Param.rename (keeping ν generics))) (ret.map (·.rename (keeping ν generics)))
      (body.rename (keeping ν generics)) span
  | .record n fields is span =>
    .record n (fields.map (Param.rename (keeping ν [n]))) (renameImplementations (keeping ν [n]) is) span
  | .define n ty value span => .define n (ty.map (·.rename ν)) (value.rename ν) span
  | .expr e => .expr (e.rename ν)

end

/-- A function definition whose generic parameter `x` is called `y`, where it is bound and wherever it stands for that. -/
def Stmt.renameParameter (x y : String) : Stmt → Stmt
  | .function n generics params ret body span =>
    .function n (generics.map (renameOne x y)) (params.map (Param.rename (renameOne x y)))
      (ret.map (·.rename (renameOne x y))) (body.rename (renameOne x y)) span
  | st => st

/-- Only a name is renamed to a name, and it stays as it is. -/
theorem Expr.eq_name_of_rename {ν : String → String} {e : Expr} {n : String} {span : Span} (h : e.rename ν = .name n span) :
    e = .name n span := by
  cases e <;> simp_all [Expr.rename]

/-- Expressions are renamed one by one. -/
theorem renameExprs_eq_map (ν : String → String) (es : List Expr) : renameExprs ν es = es.map (Expr.rename ν) := by
  induction es with
  | nil => rfl
  | cons e es ih => rw [renameExprs, ih, List.map_cons]

/-- Entries are renamed at their keys and their values. -/
theorem renameEntries_eq_map (ν : String → String) (es : List Entry) :
    renameEntries ν es = es.map fun e => ⟨e.key.rename ν, e.value.rename ν⟩ := by
  induction es with
  | nil => rfl
  | cons e es ih =>
    obtain ⟨key, value⟩ := e
    rw [renameEntries, ih, List.map_cons]

/-- Branches are renamed at their conditions and their bodies. -/
theorem renameBranches_eq_map (ν : String → String) (bs : List Branch) :
    renameBranches ν bs = bs.map fun b => ⟨b.condition.rename ν, b.body.rename ν⟩ := by
  induction bs with
  | nil => rfl
  | cons b bs ih =>
    obtain ⟨condition, body⟩ := b
    rw [renameBranches, ih, List.map_cons]

/-- The arguments that a method receives are renamed one by one. -/
theorem renameExprs_arrange (ν : String → String) (threading : Threading) (receiver : Expr) (args : List Expr) :
    renameExprs ν (threading.arrange receiver args) = threading.arrange (receiver.rename ν) (renameExprs ν args) := by
  cases threading <;> simp [Threading.arrange, renameExprs_eq_map]

/-! ### Nothing renamed -/

@[simp] theorem keeping_id (ns : List String) : keeping id ns = id := by
  funext n
  unfold keeping
  split <;> rfl

namespace Annotation

mutual

/-- Renaming nothing leaves an annotation as it is. -/
theorem rename_id : ∀ a : Annotation, a.rename id = a
  | .named n as span => by rw [rename, renameAll_id as, id]
  | .function ps r span => by rw [rename, renameAll_id ps, rename_id r]

/-- Renaming nothing leaves annotations as they are. -/
theorem renameAll_id : ∀ as : List Annotation, renameAll id as = as
  | [] => rfl
  | a :: as => by rw [renameAll, rename_id a, renameAll_id as]

end

end Annotation

/-- Renaming nothing leaves parameters as they are. -/
theorem map_rename_id (params : List Param) : params.map (Param.rename id) = params := by
  have hparam : Param.rename id = id := by
    funext p
    rw [Param.rename, Annotation.rename_id, id]
  rw [hparam, List.map_id]

/-- Renaming nothing leaves an annotation that may be missing as it is. -/
theorem map_annotation_rename_id (a : Option Annotation) : a.map (·.rename id) = a := by
  cases a with
  | none => rfl
  | some a => rw [Option.map_some, Annotation.rename_id]

/-- Renaming nothing leaves the parameters of a lambda as they are. -/
theorem map_lambdaParam_rename_id (params : List LambdaParam) : params.map (LambdaParam.rename id) = params := by
  have hparam : LambdaParam.rename id = id := by
    funext p
    rw [LambdaParam.rename, map_annotation_rename_id, id]
  rw [hparam, List.map_id]

@[simp] theorem Stmt.renamingAfter_id (st : Stmt) : st.renamingAfter id = id := by
  cases st with
  | record n fields is span => exact keeping_id [n]
  | _ => rfl

mutual

/-- Renaming nothing leaves an expression as it is. -/
theorem Expr.rename_id : ∀ e : Expr, e.rename id = e
  | .literal _ _ => rfl
  | .name _ _ => rfl
  | .binary _ l r _ => by rw [Expr.rename, Expr.rename_id l, Expr.rename_id r]
  | .unary _ e _ => by rw [Expr.rename, Expr.rename_id e]
  | .call _ args _ => by rw [Expr.rename, renameExprs_id args]
  | .methodCall _ receiver _ args _ => by rw [Expr.rename, Expr.rename_id receiver, renameExprs_id args]
  | .member target _ _ => by rw [Expr.rename, Expr.rename_id target]
  | .get collection key _ => by rw [Expr.rename, Expr.rename_id collection, Expr.rename_id key]
  | .vector items _ => by rw [Expr.rename, renameExprs_id items]
  | .map entries _ => by rw [Expr.rename, renameEntries_id entries]
  | .block b => by rw [Expr.rename, Block.rename_id b]
  | .letIn bindings body _ => by rw [Expr.rename, renameBindings_id bindings, Block.rename_id body]
  | .forEach _ iterable body _ => by rw [Expr.rename, Expr.rename_id iterable, Block.rename_id body]
  | .cond branches otherwise _ => by rw [Expr.rename, renameBranches_id branches, renameBlock?_id otherwise]
  | .lambda params body _ => by rw [Expr.rename, map_lambdaParam_rename_id params, Expr.rename_id body]
  | .paren e _ => by rw [Expr.rename, Expr.rename_id e]

/-- Renaming nothing leaves expressions as they are. -/
theorem renameExprs_id : ∀ es : List Expr, renameExprs id es = es
  | [] => rfl
  | e :: es => by rw [renameExprs, Expr.rename_id e, renameExprs_id es]

/-- Renaming nothing leaves the entries of a map as they are. -/
theorem renameEntries_id : ∀ es : List Entry, renameEntries id es = es
  | [] => rfl
  | ⟨key, value⟩ :: es => by rw [renameEntries, Expr.rename_id key, Expr.rename_id value, renameEntries_id es]

/-- Renaming nothing leaves bindings as they are. -/
theorem renameBindings_id : ∀ bs : List Binding, renameBindings id bs = bs
  | [] => rfl
  | ⟨_, value, _⟩ :: bs => by rw [renameBindings, Expr.rename_id value, renameBindings_id bs]

/-- Renaming nothing leaves branches as they are. -/
theorem renameBranches_id : ∀ bs : List Branch, renameBranches id bs = bs
  | [] => rfl
  | ⟨condition, body⟩ :: bs => by rw [renameBranches, Expr.rename_id condition, Block.rename_id body, renameBranches_id bs]

/-- Renaming nothing leaves a block that may be missing as it is. -/
theorem renameBlock?_id : ∀ o : Option Block, renameBlock? id o = o
  | none => rfl
  | some b => by rw [renameBlock?, Block.rename_id b]

/-- Renaming nothing leaves a block as it is. -/
theorem Block.rename_id : ∀ b : Block, b.rename id = b
  | ⟨stmts, _⟩ => by rw [Block.rename, renameStmts_id stmts]

/-- Renaming nothing leaves statements as they are. -/
theorem renameStmts_id : ∀ stmts : List Stmt, renameStmts id stmts = stmts
  | [] => rfl
  | st :: stmts => by rw [renameStmts, Stmt.renamingAfter_id, Stmt.rename_id st, renameStmts_id stmts]

/-- Renaming nothing leaves methods as they are. -/
theorem renameMethods_id : ∀ ms : List Method, renameMethods id ms = ms
  | [] => rfl
  | ⟨_, params, ret, body, _⟩ :: ms => by
    rw [renameMethods, map_rename_id params, map_annotation_rename_id ret, Block.rename_id body, renameMethods_id ms]

/-- Renaming nothing leaves implementations as they are. -/
theorem renameImplementations_id : ∀ is : List Implementation, renameImplementations id is = is
  | [] => rfl
  | ⟨_, methods, _⟩ :: is => by rw [renameImplementations, renameMethods_id methods, renameImplementations_id is]

/-- Renaming nothing leaves a statement as it is. -/
theorem Stmt.rename_id : ∀ st : Stmt, st.rename id = st
  | .function _ generics params ret body _ => by
    rw [Stmt.rename, keeping_id, map_rename_id params, map_annotation_rename_id ret, Block.rename_id body]
  | .record n fields is _ => by rw [Stmt.rename, keeping_id, map_rename_id fields, renameImplementations_id is]
  | .define _ ty value _ => by rw [Stmt.rename, map_annotation_rename_id ty, Expr.rename_id value]
  | .expr e => by rw [Stmt.rename, Expr.rename_id e]

end

/-! ## Sites -/

/-- A function definition in a tree: the names it sees, the generic parameters of the functions around it, and the tree with
another statement in its place. -/
structure Site (α : Type) where
  names : Names
  around : List String
  definition : Stmt
  put : Stmt → α

namespace Site

variable {α β : Type}

/-- The site in a larger tree. -/
def map (f : α → β) (site : Site α) : Site β := ⟨site.names, site.around, site.definition, fun st => f (site.put st)⟩

/-- The tree in which the generic parameter `x` of the definition is called `y`. -/
def renamed (site : Site α) (x y : String) : α := site.put (site.definition.renameParameter x y)

/-- The site in the body of a function with generic parameters. -/
def inFunction (generics : List String) (site : Site α) : Site α := { site with around := generics ++ site.around }

end Site

namespace Names

mutual

/-- The function definitions in an expression. -/
def sites (Γ : Names) : Expr → List (Site Expr)
  | .literal _ _ => []
  | .name _ _ => []
  | .binary op l r span => (sites Γ l).map (Site.map (.binary op · r span)) ++ (sites Γ r).map (Site.map (.binary op l · span))
  | .unary op e span => (sites Γ e).map (Site.map (.unary op · span))
  | .call f args span => (sitesOfAll Γ args).map (Site.map (.call f · span))
  | .methodCall threading receiver m args span =>
    (sites Γ receiver).map (Site.map (.methodCall threading · m args span)) ++
      (sitesOfAll Γ args).map (Site.map (.methodCall threading receiver m · span))
  | .member target field span => (sites Γ target).map (Site.map (.member · field span))
  | .get collection key span =>
    (sites Γ collection).map (Site.map (.get · key span)) ++ (sites Γ key).map (Site.map (.get collection · span))
  | .vector items span => (sitesOfAll Γ items).map (Site.map (.vector · span))
  | .map entries span => (sitesOfEntries Γ entries).map (Site.map (.map · span))
  | .block b => (sitesOfBlock Γ b).map (Site.map .block)
  | .letIn bindings body span => (sitesOfBindings Γ bindings).map (Site.map (.letIn · body span)) ++
      (sitesOfBlock (Γ.addValues (bindings.map (·.name))) body).map (Site.map (.letIn bindings · span))
  | .forEach vars iterable body span => (sites Γ iterable).map (Site.map (.forEach vars · body span)) ++
      (sitesOfBlock (Γ.addValues (vars.map (·.name))) body).map (Site.map (.forEach vars iterable · span))
  | .cond branches otherwise span => (sitesOfBranches Γ branches).map (Site.map (.cond · otherwise span)) ++
      (sitesOfBlock? Γ otherwise).map (Site.map (.cond branches · span))
  | .lambda params body span => (sites (Γ.addValues (params.map (·.name))) body).map (Site.map (.lambda params · span))
  | .paren e span => (sites Γ e).map (Site.map (.paren · span))

/-- The function definitions in expressions. -/
def sitesOfAll (Γ : Names) : List Expr → List (Site (List Expr))
  | [] => []
  | e :: es => (sites Γ e).map (Site.map (· :: es)) ++ (sitesOfAll Γ es).map (Site.map (e :: ·))

/-- The function definitions in the entries of a map. -/
def sitesOfEntries (Γ : Names) : List Entry → List (Site (List Entry))
  | [] => []
  | ⟨key, value⟩ :: es => (sites Γ key).map (Site.map (⟨·, value⟩ :: es)) ++
      ((sites Γ value).map (Site.map (⟨key, ·⟩ :: es)) ++ (sitesOfEntries Γ es).map (Site.map (⟨key, value⟩ :: ·)))

/-- The function definitions in the bindings of a let. -/
def sitesOfBindings (Γ : Names) : List Binding → List (Site (List Binding))
  | [] => []
  | ⟨name, value, span⟩ :: bs => (sites Γ value).map (Site.map (⟨name, ·, span⟩ :: bs)) ++
      (sitesOfBindings (Γ.addValue name) bs).map (Site.map (⟨name, value, span⟩ :: ·))

/-- The function definitions in the branches of a conditional. -/
def sitesOfBranches (Γ : Names) : List Branch → List (Site (List Branch))
  | [] => []
  | ⟨condition, body⟩ :: bs => (sites Γ condition).map (Site.map (⟨·, body⟩ :: bs)) ++
      ((sitesOfBlock Γ body).map (Site.map (⟨condition, ·⟩ :: bs)) ++
        (sitesOfBranches Γ bs).map (Site.map (⟨condition, body⟩ :: ·)))

/-- The function definitions in a block that may be missing. -/
def sitesOfBlock? (Γ : Names) : Option Block → List (Site (Option Block))
  | none => []
  | some b => (sitesOfBlock Γ b).map (Site.map some)

/-- The function definitions in a block. -/
def sitesOfBlock (Γ : Names) : Block → List (Site Block)
  | ⟨stmts, span⟩ => (sitesOfStmts Γ stmts).map (Site.map (⟨·, span⟩))

/-- The function definitions in statements. -/
def sitesOfStmts (Γ : Names) : List Stmt → List (Site (List Stmt))
  | [] => []
  | st :: stmts => (sitesOfStmt Γ st).map (Site.map (· :: stmts)) ++ (sitesOfStmts (Γ.after st) stmts).map (Site.map (st :: ·))

/-- The function definitions in the methods of a record. -/
def sitesOfMethods (Γ : Names) (fields : List Param) : List Method → List (Site (List Method))
  | [] => []
  | ⟨name, params, ret, body, span⟩ :: ms =>
    (sitesOfBlock (Γ.inMethod name fields params) body).map (Site.map (⟨name, params, ret, ·, span⟩ :: ms)) ++
      (sitesOfMethods (Γ.addValue name) fields ms).map (Site.map (⟨name, params, ret, body, span⟩ :: ·))

/-- The function definitions in the implementations of a record. -/
def sitesOfImplementations (Γ : Names) (fields : List Param) : List Implementation → List (Site (List Implementation))
  | [] => []
  | ⟨protocol, methods, span⟩ :: is => (sitesOfMethods Γ fields methods).map (Site.map (⟨protocol, ·, span⟩ :: is)) ++
      (sitesOfImplementations (Γ.addValues (methods.map (·.name))) fields is).map (Site.map (⟨protocol, methods, span⟩ :: ·))

/-- The function definitions in a statement, itself among them. -/
def sitesOfStmt (Γ : Names) : Stmt → List (Site Stmt)
  | .function n generics params ret body span => ⟨Γ, [], .function n generics params ret body span, id⟩ ::
      (sitesOfBlock (Γ.inFunction n generics params) body).map fun site =>
        (site.map (.function n generics params ret · span)).inFunction generics
  | .record n fields is span =>
    (sitesOfImplementations (Γ.addRecord n fields) fields is).map (Site.map (.record n fields · span))
  | .define n ty value span => (sites Γ value).map (Site.map (.define n ty · span))
  | .expr e => (sites Γ e).map (Site.map .expr)

end

end Names

/-- The function definitions of a program. -/
def Program.sites (p : Program) : List (Site Program) :=
  ((Names.prelude.addImports p.imports).sitesOfStmts p.body).map (Site.map fun body => { p with body })

/-! ## What stands in the way of a renaming -/

namespace Part

/-- The generic parameters that a part binds. -/
def generics : Part → List String
  | .stmt (.function _ generics _ _ _ _) => generics
  | _ => []

/-- The names that a part uses for types or binds to types. -/
def typeNames : Part → List String
  | .program p => p.imports.filterMap Import.binding?
  | .type (.named n _ _) => [n]
  | .stmt (.record n _ _ _) => [n]
  | part => part.generics

/-- The generic parameters of a definition are among its type names. -/
theorem generics_subset_typeNames (part : Part) : part.generics ⊆ part.typeNames := by
  unfold typeNames
  split
  · exact List.nil_subset _
  · exact List.nil_subset _
  · exact List.nil_subset _
  · exact List.Subset.refl _

/-- The name that a part applies to type arguments. -/
def applied? : Part → Option String
  | .type (.named n (_ :: _) _) => some n
  | _ => none

end Part

/-- The names that a program uses for types or binds to types. -/
def Program.typeNames (p : Program) : List String := p.places.flatMap (·.part.typeNames)

namespace Site

variable {α : Type}

/-- The places inside a definition. -/
def inside (site : Site α) : List Place := (site.names.placesOfStmt site.definition).tail

/-- Nothing else meets a generic parameter of a definition by its name: no function around the definition or inside it has a
generic parameter of the name, no record of the name is seen there, and where the definition binds the name it is not applied to
type arguments. -/
structure Apart (site : Site α) (x : String) : Prop where
  around : x ∉ site.around
  inside : ∀ q ∈ site.inside, x ∉ q.part.generics
  record : (site.names.kind? x).bind TypeKind.fields? = none
  plain : ∀ q ∈ site.inside, q.names.kind? x = some .generic → q.part.applied? ≠ some x

/-- Where a definition binds the name of a generic parameter, the name is not applied to type arguments. -/
def Plain (site : Site α) (x : String) : Prop :=
  ∀ q ∈ site.inside, q.names.kind? x = some .generic → q.part.applied? ≠ some x

end Site

end Gradual
