import Gradual.Proofs.Tree.Rename

/-!
# The sites of a program are its function definitions

A list of sites covers a tree when it has one site for each function definition in the tree, in order, and each site puts a
statement where the definition stood: the definition itself gives back the tree, and any other statement stands there and sees the
same names (`Site.Covering`). The sites of a program cover it (`Program.covering_sites`).
-/

namespace Gradual

/-- Whether a part is a function definition. -/
def Part.isFunction : Part → Bool
  | .stmt (.function _ _ _ _ _ _) => true
  | _ => false

namespace Site

variable {α β γ : Type}

/-- The definition of a site with the names that it sees. -/
def place (site : Site α) : Place := ⟨site.names, .stmt site.definition⟩

/-- Sites keep their places in a larger tree. -/
theorem map_place_map (f : α → β) (sites : List (Site α)) : (sites.map (Site.map f)).map place = sites.map place := by
  rw [List.map_map]
  rfl

/-- One site for each function definition among the places of a tree, which puts a statement in its place. -/
structure Covering (places : α → List Place) (tree : α) (sites : List (Site α)) : Prop where
  definitions : sites.map place = (places tree).filter (·.part.isFunction)
  put_definition : ∀ site ∈ sites, site.put site.definition = tree
  put : ∀ site ∈ sites, ∀ st, ⟨site.names, .stmt st⟩ ∈ places (site.put st)

namespace Covering

variable {placesα : α → List Place} {placesβ : β → List Place} {placesγ : γ → List Place}

/-- A tree without function definitions has no sites. -/
theorem nil {a : α} (h : (placesα a).filter (·.part.isFunction) = []) : Covering placesα a [] :=
  ⟨h.symm, List.forall_mem_nil _, List.forall_mem_nil _⟩

/-- A tree with one tree in it. -/
theorem one (f : α → β) (own : α → List Place) (hplaces : ∀ a, placesβ (f a) = own a ++ placesα a) {a : α}
    (hown : (own a).filter (·.part.isFunction) = []) {sites : List (Site α)} (h : Covering placesα a sites) :
    Covering placesβ (f a) (sites.map (Site.map f)) := by
  refine ⟨?_, ?_, ?_⟩
  · rw [map_place_map, hplaces, List.filter_append, hown, List.nil_append, h.definitions]
  · rw [List.forall_mem_map]
    exact fun site hm => congrArg f (h.put_definition site hm)
  · rw [List.forall_mem_map]
    intro site hm st
    rw [Site.map, hplaces]
    exact List.mem_append_right _ (h.put site hm st)

/-- A tree with two trees in it, of which the second may see what the first binds. -/
theorem two (f : α → β → γ) (own : α → β → List Place) (placesβ : α → β → List Place)
    (hplaces : ∀ a b, placesγ (f a b) = own a b ++ (placesα a ++ placesβ a b)) {a : α} {b : β}
    (hown : (own a b).filter (·.part.isFunction) = []) {sites : List (Site α)} (h : Covering placesα a sites)
    {sites' : List (Site β)} (h' : Covering (placesβ a) b sites') :
    Covering placesγ (f a b) (sites.map (Site.map (f · b)) ++ sites'.map (Site.map (f a))) := by
  refine ⟨?_, ?_, ?_⟩
  · rw [List.map_append, map_place_map, map_place_map, hplaces, List.filter_append, List.filter_append, hown, List.nil_append,
      h.definitions, h'.definitions]
  · rw [List.forall_mem_append, List.forall_mem_map, List.forall_mem_map]
    exact ⟨fun site hm => congrArg (f · b) (h.put_definition site hm), fun site hm => congrArg (f a) (h'.put_definition site hm)⟩
  · rw [List.forall_mem_append, List.forall_mem_map, List.forall_mem_map]
    refine ⟨fun site hm st => ?_, fun site hm st => ?_⟩ <;> rw [Site.map, hplaces]
    · exact List.mem_append_right _ (List.mem_append_left _ (h.put site hm st))
    · exact List.mem_append_right _ (List.mem_append_right _ (h'.put site hm st))

/-- A list that starts with two trees of its first member. -/
theorem cons_two {δ : Type} (f : α → β → δ) {placesδ : List δ → List Place}
    (hplaces : ∀ a b ds, placesδ (f a b :: ds) = placesα a ++ (placesβ b ++ placesδ ds)) {a : α} {b : β} {ds : List δ}
    {sites : List (Site α)} (h : Covering placesα a sites) {sites' : List (Site β)} (h' : Covering placesβ b sites')
    {sites'' : List (Site (List δ))} (h'' : Covering placesδ ds sites'') :
    Covering placesδ (f a b :: ds) (sites.map (Site.map (f · b :: ds)) ++
      (sites'.map (Site.map (f a · :: ds)) ++ sites''.map (Site.map (f a b :: ·)))) := by
  have hrest : Covering (fun m : β × List δ => placesβ m.1 ++ placesδ m.2) (b, ds)
      (sites'.map (Site.map (·, ds)) ++ sites''.map (Site.map (b, ·))) :=
    two Prod.mk (fun _ _ => []) (fun _ => placesδ) (fun _ _ => rfl) rfl h' h''
  have hall := two (fun a (m : β × List δ) => f a m.1 :: m.2) (fun _ _ => []) (fun _ m => placesβ m.1 ++ placesδ m.2)
    (fun a m => hplaces a m.1 m.2) rfl h hrest
  rw [List.map_append, List.map_map, List.map_map] at hall
  exact hall

end Covering

end Site

open Site

namespace Names

mutual

/-- An annotation holds no definitions. -/
theorem filter_placesOfType (Γ : Names) : ∀ a : Annotation, (Γ.placesOfType a).filter (·.part.isFunction) = []
  | .named _ as _ => filter_placesOfTypes Γ as
  | .function ps r _ => by
    change (Γ.placesOfTypes ps ++ Γ.placesOfType r).filter (·.part.isFunction) = []
    rw [List.filter_append, filter_placesOfTypes Γ ps, filter_placesOfType Γ r, List.nil_append]

/-- Annotations hold no function definitions. -/
theorem filter_placesOfTypes (Γ : Names) : ∀ as : List Annotation, (Γ.placesOfTypes as).filter (·.part.isFunction) = []
  | [] => rfl
  | a :: as => by rw [placesOfTypes, List.filter_append, filter_placesOfType Γ a, filter_placesOfTypes Γ as, List.nil_append]

end

/-- A statement is the first of its places. -/
theorem mem_placesOfStmt (Γ : Names) (st : Stmt) : ⟨Γ, .stmt st⟩ ∈ Γ.placesOfStmt st := by
  cases st <;> exact List.mem_cons_self

/-- A function definition is itself a site, besides those in its body. -/
theorem covering_function {Γ : Names} {n : String} {generics : List String} {params : List Param} {ret : Option Annotation}
    {body : Block} {span : Span} {sites : List (Site Block)}
    (h : Covering (Γ.inFunction n generics params).placesOfBlock body sites) :
    Covering Γ.placesOfStmt (.function n generics params ret body span) (⟨Γ, [], .function n generics params ret body span, id⟩ ::
      sites.map fun site => (site.map (.function n generics params ret · span)).inFunction generics) := by
  refine ⟨?_, ?_, ?_⟩
  · have hbody : ((Γ.addGenerics generics).placesOfParams params ++ ((Γ.addGenerics generics).placesOfType? ret ++
        (Γ.inFunction n generics params).placesOfBlock body)).filter (·.part.isFunction) = sites.map place := by
      rw [List.filter_append, List.filter_append, placesOfParams, placesOfType?, filter_placesOfTypes, filter_placesOfTypes,
        List.nil_append, List.nil_append, h.definitions]
    rw [placesOfStmt, List.filter_cons_of_pos rfl, hbody, List.map_cons, List.map_map]
    rfl
  · rw [List.forall_mem_cons, List.forall_mem_map]
    exact ⟨rfl, fun site hm => congrArg (Stmt.function n generics params ret · span) (h.put_definition site hm)⟩
  · rw [List.forall_mem_cons, List.forall_mem_map]
    refine ⟨Γ.mem_placesOfStmt, fun site hm st => List.mem_cons_of_mem _ ?_⟩
    exact List.mem_append_right _ (List.mem_append_right _ (h.put site hm st))

mutual

/-- The sites of an expression cover it. -/
theorem covering_sites (Γ : Names) : ∀ e : Expr, Covering Γ.places e (Γ.sites e)
  | .literal _ _ => .nil rfl
  | .name _ _ => .nil rfl
  | .binary op l r span =>
    .two (Expr.binary op · · span) (fun l r => [⟨Γ, .expr (.binary op l r span)⟩]) (fun _ => Γ.places)
      (fun _ _ => rfl) rfl (covering_sites Γ l) (covering_sites Γ r)
  | .unary op e span =>
    .one (Expr.unary op · span) (fun e => [⟨Γ, .expr (.unary op e span)⟩]) (fun _ => rfl) rfl (covering_sites Γ e)
  | .call f args span =>
    .one (Expr.call f · span) (fun args => [⟨Γ, .expr (.call f args span)⟩]) (fun _ => rfl) rfl (covering_sitesOfAll Γ args)
  | .methodCall threading receiver m args span =>
    .two (Expr.methodCall threading · m · span) (fun receiver args => [⟨Γ, .expr (.methodCall threading receiver m args span)⟩])
      (fun _ => Γ.placesOfAll) (fun _ _ => rfl) rfl (covering_sites Γ receiver) (covering_sitesOfAll Γ args)
  | .member target field span =>
    .one (Expr.member · field span) (fun target => [⟨Γ, .expr (.member target field span)⟩]) (fun _ => rfl) rfl
      (covering_sites Γ target)
  | .get collection key span =>
    .two (Expr.get · · span) (fun collection key => [⟨Γ, .expr (.get collection key span)⟩]) (fun _ => Γ.places)
      (fun _ _ => rfl) rfl (covering_sites Γ collection) (covering_sites Γ key)
  | .vector items span =>
    .one (Expr.vector · span) (fun items => [⟨Γ, .expr (.vector items span)⟩]) (fun _ => rfl) rfl (covering_sitesOfAll Γ items)
  | .map entries span =>
    .one (Expr.map · span) (fun entries => [⟨Γ, .expr (.map entries span)⟩]) (fun _ => rfl) rfl
      (covering_sitesOfEntries Γ entries)
  | .block b => .one Expr.block (fun b => [⟨Γ, .expr (.block b)⟩]) (fun _ => rfl) rfl (covering_sitesOfBlock Γ b)
  | .letIn bindings body span =>
    .two (Expr.letIn · · span) (fun bindings body => [⟨Γ, .expr (.letIn bindings body span)⟩])
      (fun bindings => (Γ.addValues (bindings.map (·.name))).placesOfBlock) (fun _ _ => rfl) rfl
      (covering_sitesOfBindings Γ bindings) (covering_sitesOfBlock _ body)
  | .forEach vars iterable body span =>
    .two (Expr.forEach vars · · span) (fun iterable body => [⟨Γ, .expr (.forEach vars iterable body span)⟩])
      (fun _ => (Γ.addValues (vars.map (·.name))).placesOfBlock) (fun _ _ => rfl) rfl (covering_sites Γ iterable)
      (covering_sitesOfBlock _ body)
  | .cond branches otherwise span =>
    .two (Expr.cond · · span) (fun branches otherwise => [⟨Γ, .expr (.cond branches otherwise span)⟩])
      (fun _ => Γ.placesOfBlock?) (fun _ _ => rfl) rfl (covering_sitesOfBranches Γ branches)
      (covering_sitesOfBlock? Γ otherwise)
  | .lambda params body span =>
    .one (Expr.lambda params · span)
      (fun body => ⟨Γ, .expr (.lambda params body span)⟩ :: Γ.placesOfTypes (params.filterMap (·.ty)))
      (fun _ => rfl) (filter_placesOfTypes Γ _) (covering_sites _ body)
  | .paren e span =>
    .one (Expr.paren · span) (fun e => [⟨Γ, .expr (.paren e span)⟩]) (fun _ => rfl) rfl (covering_sites Γ e)

/-- The sites of expressions cover them. -/
theorem covering_sitesOfAll (Γ : Names) : ∀ es : List Expr, Covering Γ.placesOfAll es (Γ.sitesOfAll es)
  | [] => .nil rfl
  | e :: es => .two List.cons (fun _ _ => []) (fun _ => Γ.placesOfAll) (fun _ _ => rfl) rfl (covering_sites Γ e)
      (covering_sitesOfAll Γ es)

/-- The sites of a map's entries cover them. -/
theorem covering_sitesOfEntries (Γ : Names) : ∀ es : List Entry, Covering Γ.placesOfEntries es (Γ.sitesOfEntries es)
  | [] => .nil rfl
  | ⟨key, value⟩ :: es => .cons_two Entry.mk (fun _ _ _ => rfl) (covering_sites Γ key) (covering_sites Γ value)
      (covering_sitesOfEntries Γ es)

/-- The sites of bindings cover them. -/
theorem covering_sitesOfBindings (Γ : Names) : ∀ bs : List Binding, Covering Γ.placesOfBindings bs (Γ.sitesOfBindings bs)
  | [] => .nil rfl
  | ⟨name, value, span⟩ :: bs => .two (fun value bs => ⟨name, value, span⟩ :: bs) (fun _ _ => [])
      (fun _ => (Γ.addValue name).placesOfBindings) (fun _ _ => rfl) rfl (covering_sites Γ value)
      (covering_sitesOfBindings _ bs)

/-- The sites of branches cover them. -/
theorem covering_sitesOfBranches (Γ : Names) : ∀ bs : List Branch, Covering Γ.placesOfBranches bs (Γ.sitesOfBranches bs)
  | [] => .nil rfl
  | ⟨condition, body⟩ :: bs => .cons_two Branch.mk (fun _ _ _ => rfl) (covering_sites Γ condition)
      (covering_sitesOfBlock Γ body) (covering_sitesOfBranches Γ bs)

/-- The sites of a block that may be missing cover it. -/
theorem covering_sitesOfBlock? (Γ : Names) : ∀ o : Option Block, Covering Γ.placesOfBlock? o (Γ.sitesOfBlock? o)
  | none => .nil rfl
  | some b => .one some (fun _ => []) (fun _ => rfl) rfl (covering_sitesOfBlock Γ b)

/-- The sites of a block cover it. -/
theorem covering_sitesOfBlock (Γ : Names) : ∀ b : Block, Covering Γ.placesOfBlock b (Γ.sitesOfBlock b)
  | ⟨stmts, span⟩ => .one (Block.mk · span) (fun stmts => [⟨Γ, .block ⟨stmts, span⟩⟩]) (fun _ => rfl) rfl
      (covering_sitesOfStmts Γ stmts)

/-- The sites of statements cover them. -/
theorem covering_sitesOfStmts (Γ : Names) : ∀ stmts : List Stmt, Covering Γ.placesOfStmts stmts (Γ.sitesOfStmts stmts)
  | [] => .nil rfl
  | st :: stmts => .two List.cons (fun _ _ => []) (fun st => (Γ.after st).placesOfStmts) (fun _ _ => rfl) rfl
      (covering_sitesOfStmt Γ st) (covering_sitesOfStmts _ stmts)

/-- The sites of methods cover them. -/
theorem covering_sitesOfMethods (Γ : Names) (fields : List Param) : ∀ ms : List Method,
    Covering (Γ.placesOfMethods fields) ms (Γ.sitesOfMethods fields ms)
  | [] => .nil rfl
  | ⟨name, params, ret, body, span⟩ :: ms => .two (fun body ms => ⟨name, params, ret, body, span⟩ :: ms)
      (fun _ _ => Γ.placesOfParams params ++ Γ.placesOfType? ret) (fun _ => (Γ.addValue name).placesOfMethods fields)
      (fun _ _ => (List.append_assoc _ _ _).symm)
      (by rw [List.filter_append, placesOfParams, placesOfType?, filter_placesOfTypes, filter_placesOfTypes, List.nil_append])
      (covering_sitesOfBlock _ body) (covering_sitesOfMethods _ fields ms)

/-- The sites of implementations cover them. -/
theorem covering_sitesOfImplementations (Γ : Names) (fields : List Param) : ∀ is : List Implementation,
    Covering (Γ.placesOfImplementations fields) is (Γ.sitesOfImplementations fields is)
  | [] => .nil rfl
  | ⟨protocol, methods, span⟩ :: is => .two (fun methods is => ⟨protocol, methods, span⟩ :: is) (fun _ _ => [])
      (fun methods => (Γ.addValues (methods.map (·.name))).placesOfImplementations fields) (fun _ _ => rfl) rfl
      (covering_sitesOfMethods Γ fields methods) (covering_sitesOfImplementations _ fields is)

/-- The sites of a statement cover it. -/
theorem covering_sitesOfStmt (Γ : Names) : ∀ st : Stmt, Covering Γ.placesOfStmt st (Γ.sitesOfStmt st)
  | .function _ _ _ _ body _ => covering_function (covering_sitesOfBlock _ body)
  | .record n fields is span =>
    .one (Stmt.record n fields · span)
      (fun is => ⟨Γ, .stmt (.record n fields is span)⟩ :: (Γ.addRecord n fields).placesOfParams fields) (fun _ => rfl)
      (filter_placesOfTypes _ _) (covering_sitesOfImplementations _ fields is)
  | .define n ty value span =>
    .one (Stmt.define n ty · span) (fun value => ⟨Γ, .stmt (.define n ty value span)⟩ :: Γ.placesOfType? ty) (fun _ => rfl)
      (filter_placesOfTypes _ _) (covering_sites Γ value)
  | .expr e => .one Stmt.expr (fun e => [⟨Γ, .stmt (.expr e)⟩]) (fun _ => rfl) rfl (covering_sites Γ e)

end

end Names

/-- The sites of a program are its function definitions. -/
theorem Program.covering_sites (p : Program) : Covering Program.places p p.sites :=
  .one (fun body => { p with body }) (fun body => [⟨Names.prelude, .program { p with body }⟩]) (fun _ => rfl) rfl
    (Names.covering_sitesOfStmts _ p.body)

end Gradual
