import Gradual.Proofs.Check.Names
import Gradual.Proofs.Check.Renamed.Definition

/-!
# Another statement in the place of a definition

A tree with another statement in the place of a definition has the same type, and is accepted where the tree is, or only where the
tree is, when that holds of the two statements (`unchanged_cases`). The walk over the tree meets the same scopes until it comes to
the definition, and these are neutral. A block that holds the definition goes on in a scope in which the statement may have bound
the same under other names of its own parameters, and nothing of that leaves the block: an expression has the same type, and a
statement other than the definition binds the same.
-/

namespace Gradual

/-! ## Implications either way -/

/-- Which of two propositions implies the other. -/
inductive Direction
  | forth
  | back

/-- The first proposition implies the second, or is implied by it. -/
def Direction.Implies : Direction → Prop → Prop → Prop
  | forth, a, b => a → b
  | back, a, b => b → a

namespace Direction.Implies

variable {δ : Direction} {a a' b b' c : Prop}

/-- A proposition implies itself. -/
theorem refl (δ : Direction) (a : Prop) : δ.Implies a a := by
  cases δ <;> exact fun h => h

/-- Equivalent propositions imply each other. -/
theorem of_iff (h : a ↔ b) : δ.Implies a b := by
  cases δ
  · exact h.1
  · exact h.2

/-- Conjunctions imply each other when their parts do. -/
theorem and_congr (h : δ.Implies a b) (h' : δ.Implies a' b') : δ.Implies (a ∧ a') (b ∧ b') := by
  cases δ <;> exact And.imp h h'

/-- A part of a conjunction may be replaced. -/
theorem and_congr_left (h : δ.Implies a b) : δ.Implies (a ∧ c) (b ∧ c) := h.and_congr (refl δ c)

/-- A part of a conjunction may be replaced where the other holds. -/
theorem and_congr_right (h : c → δ.Implies a b) : δ.Implies (c ∧ a) (c ∧ b) := by
  cases δ <;> exact fun hc => ⟨hc.1, h hc.1 hc.2⟩

/-- What exists is replaced for each thing that may be meant. -/
theorem exists_congr {α : Type} {P Q : α → Prop} (h : ∀ a, δ.Implies (P a) (Q a)) : δ.Implies (∃ a, P a) (∃ a, Q a) := by
  cases δ <;> exact Exists.imp h

end Direction.Implies

namespace Names

variable {Γ : Names} {y : String}

/-- The name stands for no record. -/
def NoRecord (Γ : Names) (y : String) : Prop := (Γ.kind? y).bind TypeKind.fields? = none

namespace NoRecord

/-- Whether a record goes by a name hangs on what the name is bound to. -/
theorem congr (h : Γ.NoRecord y) {Γ' : Names} (hk : Γ'.kind? y = Γ.kind? y) : Γ'.NoRecord y := by
  rwa [NoRecord, hk]

/-- A value is no record. -/
theorem addValue (h : Γ.NoRecord y) (n : String) : (Γ.addValue n).NoRecord y := h

/-- Values are no records. -/
theorem addValues (h : Γ.NoRecord y) (ns : List String) : (Γ.addValues ns).NoRecord y := h.congr (Γ.kind?_addValues ns y)

/-- A type that is no record, or has another name, adds no record of the name. -/
theorem addType (h : Γ.NoRecord y) {n : String} {kind : TypeKind} (hn : n = y → kind.fields? = none) :
    (Γ.addType n kind).NoRecord y := by
  rw [NoRecord, Names.addType, kind?, lookup_cons_ite]
  by_cases hy : y = n
  · simpa [hy] using hn hy.symm
  · rw [if_neg hy]
    exact h

/-- Generic parameters are no records. -/
theorem addGenerics (h : Γ.NoRecord y) (generics : List String) : (Γ.addGenerics generics).NoRecord y := by
  rw [NoRecord, kind?_addGenerics]
  split
  · rfl
  · exact h

/-- A record of another name adds none of this name. -/
theorem addRecord (h : Γ.NoRecord y) {n : String} (hn : n ≠ y) (fields : List Param) : (Γ.addRecord n fields).NoRecord y :=
  (h.addType fun he => absurd he hn).addValue n

/-- Inside a function no record is added. -/
theorem inFunction (h : Γ.NoRecord y) (n : String) (generics : List String) (params : List Param) :
    (Γ.inFunction n generics params).NoRecord y :=
  ((h.addValue n).addGenerics generics).addValues _

/-- Inside a method no record is added. -/
theorem inMethod (h : Γ.NoRecord y) (n : String) (fields params : List Param) : (Γ.inMethod n fields params).NoRecord y :=
  (((h.addValue n).addValues _).addValue "self").addValues _

/-- A statement that avoids a name declares no record of that name. -/
theorem after (h : Γ.NoRecord y) {st : Stmt} (hq : ∀ q ∈ Γ.placesOfStmt st, q.Avoids y) : (Γ.after st).NoRecord y := by
  cases st with
  | record n fields is span =>
    have hn : n ≠ y := fun hn => hq _ List.mem_cons_self (by simp [Part.typeNames, hn])
    exact (h.addRecord hn fields).congr (kind?_addMethods _ is y)
  | _ => exact h

end NoRecord

end Names

namespace Scope

variable {δ : Direction} {y z : String} {st' : Stmt} {s : Scope} {Γ : Names}

/-! ## Trees that are accepted alike -/

/-- Two expressions that have one type in a scope, and of which one is accepted there where the other is. -/
structure Unchanged (δ : Direction) (s : Scope) (Γ : Names) (e e' : Expr) : Prop where
  type : Agree Eq (s.typeOf e) (s.typeOf e')
  passed : ∀ d i, s.passedSignature? d i e = s.passedSignature? d i e'
  check : s.Binds Γ → δ.Implies ((s.checkExpr e).verdict = .ok ()) ((s.checkExpr e').verdict = .ok ())

/-- Two blocks that have one type in a scope, and of which one is accepted there where the other is. -/
structure BlockUnchanged (δ : Direction) (s : Scope) (Γ : Names) (b b' : Block) : Prop where
  type : Agree Eq (s.blockType b) (s.blockType b')
  span : b.span = b'.span
  check : s.Binds Γ → δ.Implies ((s.checkBlock b).verdict = .ok ()) ((s.checkBlock b').verdict = .ok ())

/-- Two statements that bind the same in a scope up to the names of generic parameters of their own, and of which one is accepted
there where the other is. -/
structure StmtUnchanged (δ : Direction) (y : String) (s : Scope) (Γ : Names) (st st' : Stmt) : Prop where
  declare : Agree (Renamed id y) (s.declare st) (s.declare st')
  type : Agree Eq (s.bodyType [st]) (s.bodyType [st'])
  check : ∀ ds, s.Tracks Γ ds →
    δ.Implies (∃ r, (s.checkStmt st).verdict = .ok r) (∃ r, (s.checkStmt st').verdict = .ok r)

/-- An expression is accepted as itself. -/
theorem Unchanged.refl (δ : Direction) (s : Scope) (Γ : Names) (e : Expr) : s.Unchanged δ Γ e e :=
  ⟨.refl_eq _, fun _ _ => rfl, fun _ => .refl δ _⟩

end Scope

/-! ## Sites -/

/-- The statement may stand in the place of the definition, in scopes that are neutral in the names `z` and `y`: no function
around the definition has a generic parameter `z`, and in each such scope the statement binds the same up to the names of its own
parameters, and is accepted where the definition is, or only there. -/
structure Site.Replaceable {α : Type} (δ : Direction) (z y : String) (st' : Stmt) (site : Site α) : Prop where
  around : z ∉ site.around
  unchanged : ∀ s : Scope, s.Neutral z y → site.names.NoRecord y → (∀ q ∈ site.names.placesOfStmt site.definition, q.Avoids y) →
    s.StmtUnchanged δ y site.names site.definition st'

namespace Site

variable {α β : Type} {δ : Direction} {z y : String} {st' : Stmt} {site : Site α}

/-- A statement in a part of a tree is one in the tree. -/
theorem put_map (f : α → β) (st : Stmt) : (site.map f).put st = f (site.put st) := rfl

/-- A statement may stand at a site of a tree when it may at the site of the part. -/
theorem Replaceable.of_map {f : α → β} (h : (site.map f).Replaceable δ z y st') : site.Replaceable δ z y st' :=
  ⟨h.around, h.unchanged⟩

/-- A function around a site has no generic parameter of the name. -/
theorem Replaceable.of_inFunction {generics : List String} (h : (site.inFunction generics).Replaceable δ z y st') :
    z ∉ generics ∧ site.Replaceable δ z y st' := by
  have haround : z ∉ generics ++ site.around := h.around
  rw [List.mem_append, not_or] at haround
  exact ⟨haround.1, haround.2, h.unchanged⟩

/-- The renamed definition is accepted where the definition is, when nothing else goes by the old name. -/
theorem replaceable_forth {x : String} (hx : x ∈ (Part.stmt site.definition).generics) (ha : site.Apart x) :
    site.Replaceable .forth x y (site.definition.renameParameter x y) := by
  obtain ⟨Γ, around, definition, put⟩ := site
  cases definition with
  | function n generics params ret body span =>
    refine ⟨ha.around, fun s h _ hq => ⟨h.declare_renamed hx hq ha.plain, .error _ _, fun ds ht => ?_⟩⟩
    exact h.check_renamed hx hq ha.plain ha.inside ht.binds ha.record
  | _ => cases hx

/-- The definition is accepted where the renamed one is, when the parameter is not applied to type arguments. -/
theorem replaceable_back {x : String} (hx : x ∈ (Part.stmt site.definition).generics) (hz : z ≠ y) (haround : z ∉ site.around)
    (hplain : site.Plain x) : site.Replaceable .back z y (site.definition.renameParameter x y) := by
  obtain ⟨Γ, around, definition, put⟩ := site
  cases definition with
  | function n generics params ret body span =>
    refine ⟨haround, fun s h hy hq => ⟨h.declare_renamed hx hq hplain, .error _ _, fun ds ht => ?_⟩⟩
    exact h.check_of_renamed hz hx hq hplain ht.binds hy
  | _ => cases hx

end Site

namespace Scope

variable {δ : Direction} {y z : String} {st' : Stmt} {s : Scope} {Γ : Names}

/-- An expression is accepted alike wherever in it a definition is replaced. -/
def ReplacedAlike (δ : Direction) (z y : String) (st' : Stmt) (e : Expr) : Prop :=
  ∀ (Γ : Names) (s : Scope), Neutral z y s → Γ.NoRecord y → (∀ q ∈ Γ.places e, q.Avoids y) →
    ∀ site ∈ Γ.sites e, site.Replaceable δ z y st' → s.Unchanged δ Γ e (site.put st')

/-- A block is accepted alike wherever in it a definition is replaced. -/
def BlockReplacedAlike (δ : Direction) (z y : String) (st' : Stmt) (b : Block) : Prop :=
  ∀ (Γ : Names) (s : Scope), Neutral z y s → Γ.NoRecord y → (∀ q ∈ Γ.placesOfBlock b, q.Avoids y) →
    ∀ site ∈ Γ.sitesOfBlock b, site.Replaceable δ z y st' → s.BlockUnchanged δ Γ b (site.put st')

/-- A statement is accepted alike wherever in it a definition is replaced. -/
def StmtReplacedAlike (δ : Direction) (z y : String) (st' : Stmt) (st : Stmt) : Prop :=
  ∀ (Γ : Names) (s : Scope), Neutral z y s → Γ.NoRecord y → (∀ q ∈ Γ.placesOfStmt st, q.Avoids y) →
    ∀ site ∈ Γ.sitesOfStmt st, site.Replaceable δ z y st' → s.StmtUnchanged δ y Γ st (site.put st')

/-! ## Calls -/

/-- The types of arguments that are accepted alike agree. -/
theorem agree_argTypes {es es' : List Expr} (h : List.Forall₂ (s.Unchanged δ Γ) es es') (d : Declaration) (i : Nat) :
    Agree Eq (s.argTypes d i es) (s.argTypes d i es') := by
  induction h generalizing i with
  | nil => exact .ok rfl
  | @cons e e' es es' he _ ih =>
    have harg : Agree Eq (s.argType d i e (s.typeOf e)) (s.argType d i e' (s.typeOf e')) := by
      rw [argType, argType, he.passed]
      cases s.passedSignature? d i e' with
      | none => exact he.type
      | some t => exact .ok rfl
    rw [argTypes, argTypes]
    refine harg.bind fun t t' _ htt => ?_
    rw [htt]
    exact (ih (i + 1)).bind_eq _

/-- Expressions that are accepted alike, one by one, are accepted alike together. -/
theorem checkExprs_unchanged {es es' : List Expr} (h : List.Forall₂ (s.Unchanged δ Γ) es es') (hb : s.Binds Γ) :
    δ.Implies (∀ e ∈ es, (s.checkExpr e).verdict = .ok ()) (∀ e ∈ es', (s.checkExpr e).verdict = .ok ()) := by
  induction h with
  | nil => exact .refl δ _
  | cons he _ ih =>
    rw [List.forall_mem_cons, List.forall_mem_cons]
    exact .and_congr (he.check hb) ih

/-- Calls with arguments that are accepted alike are accepted alike. -/
theorem call_unchanged {es es' : List Expr} (h : List.Forall₂ (s.Unchanged δ Γ) es es') (f : String) (span : Span) :
    s.Unchanged δ Γ (.call f es span) (.call f es' span) := by
  refine ⟨?_, fun _ _ => rfl, fun hb => ?_⟩
  · simp only [typeOf]
    cases s.callee? f with
    | none => exact .error _ _
    | some c =>
      cases c with
      | untyped => exact .ok rfl
      | typed d =>
        dsimp only
        split
        · exact (agree_argTypes h d 0).bind_eq _
        · exact .ok rfl
  · rw [checkExpr_call_iff, checkExpr_call_iff]
    refine .exists_congr fun c => .and_congr_right fun _ => .and_congr (checkExprs_unchanged h hb) (.of_iff ?_)
    rw [checkArguments_ok_iff, checkArguments_ok_iff]
    exact forall₂_congr fun d _ => (agree_argTypes h d 0).exists_congr _

/-- Threading a receiver into the arguments keeps them related one by one. -/
theorem forall₂_arrange {R : Expr → Expr → Prop} (threading : Threading) {receiver receiver' : Expr} (hr : R receiver receiver')
    {args args' : List Expr} (h : List.Forall₂ R args args') :
    List.Forall₂ R (threading.arrange receiver args) (threading.arrange receiver' args') := by
  cases threading with
  | first => exact .cons hr h
  | last => exact List.rel_append h (.cons hr .nil)

/-! ## Lists of expressions, entries, branches and bindings -/

/-- Each of several expressions is accepted alike with a definition replaced in one of them. -/
theorem unchanged_args {es : List Expr} (ih : ∀ e ∈ es, ReplacedAlike δ z y st' e) (h : Neutral z y s) (hy : Γ.NoRecord y)
    (hq : ∀ q ∈ Γ.placesOfAll es, q.Avoids y) {site : Site (List Expr)} (hm : site ∈ Γ.sitesOfAll es)
    (hs : site.Replaceable δ z y st') : List.Forall₂ (s.Unchanged δ Γ) es (site.put st') := by
  induction es generalizing site with
  | nil => cases hm
  | cons e es ihes =>
    rw [List.forall_mem_cons] at ih
    rw [Names.placesOfAll, List.forall_mem_append] at hq
    rw [Names.sitesOfAll, List.mem_append, List.mem_map, List.mem_map] at hm
    rcases hm with ⟨c, hc, rfl⟩ | ⟨c, hc, rfl⟩
    · exact .cons (ih.1 Γ s h hy hq.1 c hc hs.of_map) (List.forall₂_same.2 fun e _ => .refl δ s Γ e)
    · exact .cons (.refl δ s Γ e) (ihes ih.2 hq.2 hc hs.of_map)

/-- The entries of a map are accepted alike with a definition replaced in one of them. -/
theorem checkEntries_replaced {es : List Entry} (ih : ∀ e ∈ es, ReplacedAlike δ z y st' e.key ∧ ReplacedAlike δ z y st' e.value)
    (h : Neutral z y s) (hy : Γ.NoRecord y) (hq : ∀ q ∈ Γ.placesOfEntries es, q.Avoids y) (hb : s.Binds Γ)
    {site : Site (List Entry)} (hm : site ∈ Γ.sitesOfEntries es) (hs : site.Replaceable δ z y st') :
    δ.Implies ((s.checkEntries es).verdict = .ok ()) ((s.checkEntries (site.put st')).verdict = .ok ()) := by
  rw [checkEntries_ok_iff, checkEntries_ok_iff]
  induction es generalizing site with
  | nil => cases hm
  | cons e es ihes =>
    obtain ⟨key, value⟩ := e
    rw [List.forall_mem_cons] at ih
    rw [Names.placesOfEntries, List.forall_mem_append, List.forall_mem_append] at hq
    rw [Names.sitesOfEntries, List.mem_append, List.mem_append, List.mem_map, List.mem_map, List.mem_map] at hm
    rcases hm with ⟨c, hc, rfl⟩ | ⟨c, hc, rfl⟩ | ⟨c, hc, rfl⟩ <;>
      rw [Site.put_map, List.forall_mem_cons, List.forall_mem_cons]
    · exact .and_congr_left (.and_congr_left ((ih.1.1 Γ s h hy hq.1 c hc hs.of_map).check hb))
    · exact .and_congr_left (.and_congr_right fun _ => (ih.1.2 Γ s h hy hq.2.1 c hc hs.of_map).check hb)
    · exact .and_congr_right fun _ => ihes ih.2 hq.2.2 hc hs.of_map

/-- The types of branches stay as they were with a definition replaced in one of them. -/
theorem branchTypes_replaced {bs : List Branch}
    (ih : ∀ b ∈ bs, ReplacedAlike δ z y st' b.condition ∧ BlockReplacedAlike δ z y st' b.body) (h : Neutral z y s)
    (hy : Γ.NoRecord y) (hq : ∀ q ∈ Γ.placesOfBranches bs, q.Avoids y) {site : Site (List Branch)}
    (hm : site ∈ Γ.sitesOfBranches bs) (hs : site.Replaceable δ z y st') :
    Agree Eq (s.branchTypes bs) (s.branchTypes (site.put st')) := by
  induction bs generalizing site with
  | nil => cases hm
  | cons b bs ihbs =>
    obtain ⟨condition, body⟩ := b
    rw [List.forall_mem_cons] at ih
    rw [Names.placesOfBranches, List.forall_mem_append, List.forall_mem_append] at hq
    rw [Names.sitesOfBranches, List.mem_append, List.mem_append, List.mem_map, List.mem_map, List.mem_map] at hm
    rcases hm with ⟨c, hc, rfl⟩ | ⟨c, hc, rfl⟩ | ⟨c, hc, rfl⟩ <;> rw [Site.put_map, branchTypes, branchTypes]
    · exact .refl_eq _
    · have hbody := ih.1.2 Γ s h hy hq.2.1 c hc hs.of_map
      rw [← hbody.span]
      exact hbody.type.bind_eq _
    · refine Agree.bind_left _ fun t _ => ?_
      cases t with
      | none => exact .ok rfl
      | some t => exact (ihbs ih.2 hq.2.2 hc hs.of_map).bind_eq _

/-- Branches are accepted alike with a definition replaced in one of them. -/
theorem checkBranches_replaced {bs : List Branch}
    (ih : ∀ b ∈ bs, ReplacedAlike δ z y st' b.condition ∧ BlockReplacedAlike δ z y st' b.body) (h : Neutral z y s)
    (hy : Γ.NoRecord y) (hq : ∀ q ∈ Γ.placesOfBranches bs, q.Avoids y) (hb : s.Binds Γ)
    {site : Site (List Branch)} (hm : site ∈ Γ.sitesOfBranches bs) (hs : site.Replaceable δ z y st') :
    δ.Implies ((s.checkBranches bs).verdict = .ok ()) ((s.checkBranches (site.put st')).verdict = .ok ()) := by
  rw [checkBranches_ok_iff, checkBranches_ok_iff]
  induction bs generalizing site with
  | nil => cases hm
  | cons b bs ihbs =>
    obtain ⟨condition, body⟩ := b
    rw [List.forall_mem_cons] at ih
    rw [Names.placesOfBranches, List.forall_mem_append, List.forall_mem_append] at hq
    rw [Names.sitesOfBranches, List.mem_append, List.mem_append, List.mem_map, List.mem_map, List.mem_map] at hm
    rcases hm with ⟨c, hc, rfl⟩ | ⟨c, hc, rfl⟩ | ⟨c, hc, rfl⟩ <;>
      rw [Site.put_map, List.forall_mem_cons, List.forall_mem_cons]
    · exact .and_congr_left (.and_congr_left ((ih.1.1 Γ s h hy hq.1 c hc hs.of_map).check hb))
    · exact .and_congr_left (.and_congr_right fun _ => (ih.1.2 Γ s h hy hq.2.1 c hc hs.of_map).check hb)
    · exact .and_congr_right fun _ => ihbs ih.2 hq.2.2 hc hs.of_map

/-- The bindings of a let bind the same with a definition replaced in one of them, and are accepted alike. -/
theorem bindings_replaced {bs : List Binding} (ih : ∀ b ∈ bs, ReplacedAlike δ z y st' b.value) (h : Neutral z y s)
    (hy : Γ.NoRecord y) (hq : ∀ q ∈ Γ.placesOfBindings bs, q.Avoids y) {site : Site (List Binding)}
    (hm : site ∈ Γ.sitesOfBindings bs) (hs : site.Replaceable δ z y st') :
    Agree Eq (s.bindAll bs) (s.bindAll (site.put st')) ∧ (s.Binds Γ → ∀ r,
      δ.Implies ((s.checkBindings bs).verdict = .ok r) ((s.checkBindings (site.put st')).verdict = .ok r)) := by
  induction bs generalizing s Γ site with
  | nil => cases hm
  | cons b bs ihbs =>
    obtain ⟨n, value, span⟩ := b
    rw [List.forall_mem_cons] at ih
    rw [Names.placesOfBindings, List.forall_mem_append] at hq
    rw [Names.sitesOfBindings, List.mem_append, List.mem_map, List.mem_map] at hm
    rcases hm with ⟨c, hc, rfl⟩ | ⟨c, hc, rfl⟩ <;> rw [Site.put_map, bindAll, bindAll]
    · have hvalue := ih.1 Γ s h hy hq.1 c hc hs.of_map
      refine ⟨hvalue.type.bind_eq _, fun hb r => ?_⟩
      rw [checkBindings_cons_iff, checkBindings_cons_iff]
      exact .and_congr_right fun _ => .and_congr (hvalue.check hb) (.of_iff (hvalue.type.exists_congr _))
    · refine ⟨Agree.bind_left _ fun t ht => ?_, fun hb r => ?_⟩
      · exact (ihbs ih.2 (h.addVariable n hq.1 ht) (hy.addValue n) hq.2 hc hs.of_map).1
      · rw [checkBindings_cons_iff, checkBindings_cons_iff]
        refine .and_congr_right fun _ => .and_congr_right fun _ => .exists_congr fun t => .and_congr_right fun ht => ?_
        exact (ihbs ih.2 (h.addVariable n hq.1 ht) (hy.addValue n) hq.2 hc hs.of_map).2 (hb.addVariable n t) r

/-! ## Statements -/

/-- Where a definition is replaced there are statements still. -/
theorem put_ne_nil {stmts : List Stmt} {site : Site (List Stmt)} (hm : site ∈ Γ.sitesOfStmts stmts) :
    site.put st' ≠ [] := by
  cases stmts with
  | nil => cases hm
  | cons st stmts =>
    rw [Names.sitesOfStmts, List.mem_append, List.mem_map, List.mem_map] at hm
    rcases hm with ⟨c, -, rfl⟩ | ⟨c, -, rfl⟩ <;> exact List.cons_ne_nil _ _

/-- The type of a body with a statement before its last is that of the rest, in the scope that the statement leaves. -/
theorem bodyType_cons_of_ne_nil (s : Scope) (st : Stmt) {stmts : List Stmt} (h : stmts ≠ []) :
    s.bodyType (st :: stmts) = s.declare st >>= fun s => s.bodyType stmts := by
  obtain ⟨st', stmts, rfl⟩ := List.exists_cons_of_ne_nil h
  exact bodyType_cons_cons s st st' stmts

/-- Where one of two statements is accepted when the other is, and they bind the same up to names of their own, the statements
after them are accepted together with the one when they are with the other. -/
theorem checkStmts_cons_unchanged (h : s.Closed) {st : Stmt} {ds : List Declared} (ht : s.Tracks Γ ds)
    (hst : s.StmtUnchanged δ y Γ st st') {Γ' : Names} {stmts : List Stmt} (hq : ∀ q ∈ Γ'.placesOfStmts stmts, q.Avoids y) :
    δ.Implies (∃ r, (s.checkStmt st).verdict = .ok r ∧ ∃ r', (r.checkStmts stmts).verdict = .ok r')
      (∃ r, (s.checkStmt st').verdict = .ok r ∧ ∃ r', (r.checkStmts stmts).verdict = .ok r') := by
  have hcheck := hst.check ds ht
  -- Accepted statements bind what their typing binds.
  have hrelated : ∀ {r r'}, (s.checkStmt st).verdict = .ok r → (s.checkStmt st').verdict = .ok r' → Renamed id y r r' := by
    intro r r' hr hr'
    have hd := hst.declare
    rw [declare_of_checkStmt hr, declare_of_checkStmt hr'] at hd
    cases hd with
    | ok hd => exact hd
  cases δ with
  | forth =>
    rintro ⟨r, hr, hrest⟩
    obtain ⟨r', hr'⟩ := hcheck ⟨r, hr⟩
    exact ⟨r', hr', (hrelated hr hr').checkStmts (h.declare (declare_of_checkStmt hr')) hq hrest⟩
  | back =>
    rintro ⟨r', hr', hrest⟩
    obtain ⟨r, hr⟩ := hcheck ⟨r', hr'⟩
    have hback := (hrelated hr hr').symm (h.declare (declare_of_checkStmt hr'))
    exact ⟨r, hr, hback.checkStmts (h.declare (declare_of_checkStmt hr)) hq hrest⟩

/-- The type of a body stays as it was with a definition replaced, be it a statement of the body or in one. -/
theorem bodyType_replaced {stmts : List Stmt} (ih : ∀ st ∈ stmts, StmtReplacedAlike δ z y st' st) (h : Neutral z y s)
    (hy : Γ.NoRecord y) (hq : ∀ q ∈ Γ.placesOfStmts stmts, q.Avoids y) {site : Site (List Stmt)}
    (hm : site ∈ Γ.sitesOfStmts stmts) (hs : site.Replaceable δ z y st') :
    Agree Eq (s.bodyType stmts) (s.bodyType (site.put st')) := by
  induction stmts generalizing s Γ site with
  | nil => cases hm
  | cons st stmts ihs =>
    rw [List.forall_mem_cons] at ih
    rw [Names.placesOfStmts, List.forall_mem_append] at hq
    rw [Names.sitesOfStmts, List.mem_append, List.mem_map, List.mem_map] at hm
    rcases hm with ⟨c, hc, rfl⟩ | ⟨c, hc, rfl⟩
    · have hst := ih.1 Γ s h hy hq.1 c hc hs.of_map
      rw [Site.put_map]
      cases stmts with
      | nil => exact hst.type
      | cons next stmts =>
        rw [bodyType_cons_cons, bodyType_cons_cons]
        exact hst.declare.bind fun r r' _ hr => hr.bodyType_eq hq.2
    · have hne : stmts ≠ [] := by
        rintro rfl
        cases hc
      rw [Site.put_map, bodyType_cons_of_ne_nil s st hne, bodyType_cons_of_ne_nil s st (put_ne_nil hc)]
      exact Agree.bind_left _ fun r hr => ihs ih.2 (h.declare hq.1 hr) (hy.after hq.1) hq.2 hc hs.of_map

/-- Statements are accepted alike with a definition replaced in one of them. -/
theorem checkStmts_replaced {stmts : List Stmt} (ih : ∀ st ∈ stmts, StmtReplacedAlike δ z y st' st) (h : Neutral z y s)
    (hy : Γ.NoRecord y) (hq : ∀ q ∈ Γ.placesOfStmts stmts, q.Avoids y) {ds : List Declared} (ht : s.Tracks Γ ds)
    {site : Site (List Stmt)} (hm : site ∈ Γ.sitesOfStmts stmts) (hs : site.Replaceable δ z y st') :
    δ.Implies (∃ r, (s.checkStmts stmts).verdict = .ok r) (∃ r, (s.checkStmts (site.put st')).verdict = .ok r) := by
  induction stmts generalizing s Γ ds site with
  | nil => cases hm
  | cons st stmts ihs =>
    rw [List.forall_mem_cons] at ih
    rw [Names.placesOfStmts, List.forall_mem_append] at hq
    rw [Names.sitesOfStmts, List.mem_append, List.mem_map, List.mem_map] at hm
    rcases hm with ⟨c, hc, rfl⟩ | ⟨c, hc, rfl⟩ <;> rw [Site.put_map, exists_checkStmts_cons_iff, exists_checkStmts_cons_iff]
    · exact checkStmts_cons_unchanged h.closed ht (ih.1 Γ s h hy hq.1 c hc hs.of_map) hq.2
    · refine .exists_congr fun r => .and_congr_right fun hr => ?_
      exact ihs ih.2 (h.declare hq.1 (declare_of_checkStmt hr)) (hy.after hq.1) hq.2 (tracks_of_checkStmt ht hr) hc hs.of_map

/-! ## Methods -/

/-- What methods bind does not depend on their bodies. -/
theorem declareMethods_replaced {fields : List Param} {ms : List Method} {site : Site (List Method)}
    (hm : site ∈ Γ.sitesOfMethods fields ms) (receiver : Ty) (s : Scope) :
    s.declareMethods receiver (site.put st') = s.declareMethods receiver ms := by
  induction ms generalizing s Γ site with
  | nil => cases hm
  | cons m ms ih =>
    obtain ⟨n, params, ret, body, span⟩ := m
    rw [Names.sitesOfMethods, List.mem_append, List.mem_map, List.mem_map] at hm
    rcases hm with ⟨c, -, rfl⟩ | ⟨c, hc, rfl⟩ <;> rw [Site.put_map, declareMethods, declareMethods]
    simp only [ih hc]

/-- What implementations bind does not depend on the bodies of their methods. -/
theorem declareImplementations_replaced {fields : List Param} {is : List Implementation} {site : Site (List Implementation)}
    (hm : site ∈ Γ.sitesOfImplementations fields is) (receiver : Ty) (s : Scope) :
    s.declareImplementations receiver (site.put st') = s.declareImplementations receiver is := by
  induction is generalizing s Γ site with
  | nil => cases hm
  | cons i is ih =>
    obtain ⟨protocol, methods, span⟩ := i
    rw [Names.sitesOfImplementations, List.mem_append, List.mem_map, List.mem_map] at hm
    rcases hm with ⟨c, hc, rfl⟩ | ⟨c, hc, rfl⟩ <;> rw [Site.put_map, declareImplementations, declareImplementations]
    · rw [declareMethods_replaced hc]
    · simp only [ih hc]

/-- Methods are accepted alike with a definition replaced in one of them, and then bind the same. -/
theorem checkMethods_replaced {receiver : String} {Γ₀ : Names} {fields : List Param} {ms : List Method}
    (ih : ∀ m ∈ ms, BlockReplacedAlike δ z y st' m.body) (h : Neutral z y s) (hy : Γ.NoRecord y)
    (hf : ∀ q ∈ Γ₀.placesOfParams fields, q.Avoids y) (hq : ∀ q ∈ Γ.placesOfMethods fields ms, q.Avoids y) {ds : List Declared}
    (ht : s.Tracks Γ ds) {site : Site (List Method)} (hm : site ∈ Γ.sitesOfMethods fields ms) (hs : site.Replaceable δ z y st')
    (r : Scope) : δ.Implies ((s.checkMethods (.simple receiver) fields ms).verdict = .ok r)
      ((s.checkMethods (.simple receiver) fields (site.put st')).verdict = .ok r) := by
  induction ms generalizing s Γ ds site with
  | nil => cases hm
  | cons m ms ihms =>
    obtain ⟨n, params, ret, body, span⟩ := m
    rw [List.forall_mem_cons] at ih
    rw [Names.placesOfMethods, List.forall_mem_append, List.forall_mem_append, List.forall_mem_append] at hq
    rw [Names.sitesOfMethods, List.mem_append, List.mem_map, List.mem_map] at hm
    rcases hm with ⟨c, hc, rfl⟩ | ⟨c, hc, rfl⟩ <;> rw [Site.put_map, checkMethods_cons_iff, checkMethods_cons_iff] <;>
      refine .and_congr_right fun hnew => .exists_congr fun d => .and_congr_right fun hd => .exists_congr fun around =>
        .and_congr_right fun haround => .exists_congr fun inner => .and_congr_right fun hinner => ?_
    · have hmethod := ht.addFunction span (ensureNewFunction_ok_iff.1 hnew) d
      have haroundTracks := tracks_of_declareParams hmethod.binds.tracks_child haround
      have hself := haroundTracks.binds.tracks_child.addVariable (n := "self") span rfl (some (.simple receiver))
      have hneutral := ((h.addMethod hq.1 hq.2.1 hd).child.declareParams hf haround).child
      have hinnerNeutral := (hneutral.addSelf receiver).declareParams hq.1 hinner
      refine .and_congr_left ?_
      exact (ih.1 _ inner hinnerNeutral (hy.inMethod n fields params) hq.2.2.1 c hc hs.of_map).check
        (tracks_of_declareParams hself hinner).binds
    · refine .and_congr_right fun _ => ?_
      exact ihms ih.2 (h.addMethod hq.1 hq.2.1 hd) (hy.addValue n) hq.2.2.2
        (ht.addFunction span (ensureNewFunction_ok_iff.1 hnew) d) hc hs.of_map

/-- Implementations are accepted alike with a definition replaced in one of their methods, and then bind the same. -/
theorem checkImplementations_replaced {n : String} {Γ₀ : Names} {fields : List Param} {is : List Implementation}
    (ih : ∀ i ∈ is, ∀ m ∈ i.methods, BlockReplacedAlike δ z y st' m.body) (h : Neutral z y s) (hy : Γ.NoRecord y)
    (hf : ∀ q ∈ Γ₀.placesOfParams fields, q.Avoids y) (hq : ∀ q ∈ Γ.placesOfImplementations fields is, q.Avoids y)
    {ds : List Declared} (ht : s.Tracks Γ ds) {site : Site (List Implementation)} (hm : site ∈ Γ.sitesOfImplementations fields is)
    (hs : site.Replaceable δ z y st') (r : Scope) : δ.Implies ((s.checkImplementations n fields is).verdict = .ok r)
      ((s.checkImplementations n fields (site.put st')).verdict = .ok r) := by
  induction is generalizing s Γ ds site with
  | nil => cases hm
  | cons i is ihis =>
    obtain ⟨protocol, methods, span⟩ := i
    rw [List.forall_mem_cons] at ih
    rw [Names.placesOfImplementations, List.forall_mem_append] at hq
    rw [Names.sitesOfImplementations, List.mem_append, List.mem_map, List.mem_map] at hm
    rcases hm with ⟨c, hc, rfl⟩ | ⟨c, hc, rfl⟩ <;>
      rw [Site.put_map, checkImplementations_cons_iff, checkImplementations_cons_iff]
    · exact .exists_congr fun s₁ => .and_congr_left (checkMethods_replaced ih.1 h hy hf hq.1 ht hc hs.of_map s₁)
    · refine .exists_congr fun s₁ => .and_congr_right fun hs₁ => ?_
      have hneutral := h.declareMethods hq.1 (declareMethods_of_checkMethods hs₁)
      exact ihis ih.2 hneutral (hy.addValues _) hq.2 (tracks_of_checkMethods ht hs₁) hc hs.of_map

/-! ## The induction -/

/-- A definition is accepted alike when it is the one replaced, and when that stands in its body. -/
theorem function_unchanged {n : String} {generics : List String} {params : List Param} {ret : Option Annotation} {body : Block}
    {span : Span} (ih : BlockReplacedAlike δ z y st' body) :
    StmtReplacedAlike δ z y st' (.function n generics params ret body span) := by
  intro Γ s h hy hq site hm hs
  rw [Names.sitesOfStmt, List.mem_cons, List.mem_map] at hm
  rcases hm with rfl | ⟨c, hc, rfl⟩
  · exact hs.unchanged s h hy hq
  · obtain ⟨hz, hs⟩ := hs.of_inFunction
    refine ⟨h.declare_self hq, .error _ _, fun ds ht => .exists_congr fun r => ?_⟩
    rw [Names.placesOfStmt, List.forall_mem_cons, List.forall_mem_append, List.forall_mem_append] at hq
    change δ.Implies _ ((s.checkStmt (.function n generics params ret (c.put st') span)).verdict = .ok r)
    rw [checkStmt_function_iff, checkStmt_function_iff]
    refine .and_congr_right fun _ => .exists_congr fun d => .and_congr_right fun hd => .exists_congr fun inner =>
      .and_congr_right fun hinner => .and_congr_left ?_
    have hgenerics := (ht.binds.addFunction n d).withGenerics n generics
    have hneutral := h.inFunction hz hq.1 hq.2.1 hq.2.2.1 hd hinner
    exact (ih _ inner hneutral (hy.inFunction n generics params) hq.2.2.2 c hc hs.of_map).check
      (tracks_of_declareParams hgenerics.tracks_child hinner).binds

/-- A record is accepted alike with a definition replaced in one of its methods. -/
theorem record_unchanged {n : String} {fields : List Param} {is : List Implementation} {span : Span}
    (ih : ∀ i ∈ is, ∀ m ∈ i.methods, BlockReplacedAlike δ z y st' m.body) :
    StmtReplacedAlike δ z y st' (.record n fields is span) := by
  intro Γ s h hy hq site hm hs
  rw [Names.sitesOfStmt, List.mem_map] at hm
  obtain ⟨c, hc, rfl⟩ := hm
  rw [Site.put_map]
  have hdeclare := h.declare_self hq
  rw [Names.placesOfStmt, List.forall_mem_cons, List.forall_mem_append] at hq
  have hn : n ≠ y := fun hn => hq.1 (by simp [Part.typeNames, hn])
  refine ⟨?_, .error _ _, fun ds ht => .exists_congr fun r => ?_⟩
  · have hsame : s.declare (.record n fields (c.put st') span) = s.declare (.record n fields is span) := by
      simp only [declare, declareRecord, declareImplementations_replaced hc]
    rwa [hsame]
  · rw [checkStmt_record_iff, checkStmt_record_iff]
    refine .and_congr_right fun hnew => .and_congr_right fun _ => .exists_congr fun layout => .and_congr_right fun hl => ?_
    have hrecord := ht.bindRecord span (ensureNewRecord_ok_iff.1 hnew).2 hl
    exact checkImplementations_replaced ih (h.bindRecord hn hq.2.1 hl) (hy.addRecord hn fields)
      hq.2.1 hq.2.2 hrecord hc hs.of_map r

/-- A variable definition is accepted alike with a definition replaced in its value. -/
theorem define_unchanged {n : String} {ty : Option Annotation} {value : Expr} {span : Span} (ih : ReplacedAlike δ z y st' value) :
    StmtReplacedAlike δ z y st' (.define n ty value span) := by
  intro Γ s h hy hq site hm hs
  rw [Names.sitesOfStmt, List.mem_map] at hm
  obtain ⟨c, hc, rfl⟩ := hm
  rw [Site.put_map]
  have hdeclare := h.declare_self hq
  rw [Names.placesOfStmt, List.forall_mem_cons, List.forall_mem_append] at hq
  have hvalue := ih Γ s h hy hq.2.2 c hc hs.of_map
  refine ⟨?_, .error _ _, fun ds ht => .exists_congr fun r => ?_⟩
  · cases ty with
    | some a => exact hdeclare
    | none =>
      refine hvalue.type.bind fun t t' ht htt => .ok ?_
      exact htt ▸ (h.addVariable n hq.2.2 ht).refl
  · rw [checkStmt_define_iff, checkStmt_define_iff]
    exact .and_congr_right fun _ => .and_congr (hvalue.check ht.binds) (.of_iff (hvalue.type.exists_congr _))

/-- A loop is accepted alike with a definition replaced in it. -/
theorem forEach_unchanged {vars : List LocalName} {iterable : Expr} {body : Block} {span : Span}
    (ih : ReplacedAlike δ z y st' iterable) (ihb : BlockReplacedAlike δ z y st' body) :
    ReplacedAlike δ z y st' (.forEach vars iterable body span) := by
  intro Γ s h hy hq site hm hs
  rw [Names.places, List.forall_mem_cons, List.forall_mem_append] at hq
  rw [Names.sites, List.mem_append, List.mem_map, List.mem_map] at hm
  rcases hm with ⟨c, hc, rfl⟩ | ⟨c, hc, rfl⟩ <;> refine ⟨.ok rfl, fun _ _ => rfl, fun hb => ?_⟩ <;>
    rw [Site.put_map, checkExpr_forEach_iff, checkExpr_forEach_iff]
  · have hiterable := ih Γ s h hy hq.2.1 c hc hs.of_map
    have hvar : Agree Eq (s.loopVarType vars iterable) (s.loopVarType vars (c.put st')) := by
      unfold loopVarType
      split
      · exact hiterable.type.bind_eq _
      · exact .ok rfl
    exact .and_congr (hiterable.check hb) (.of_iff (hvar.exists_congr _))
  · refine .and_congr_right fun _ => .exists_congr fun t => .and_congr_right fun ht =>
      .exists_congr fun inner => .and_congr_right fun hi => ?_
    exact (ihb _ inner (h.declareLoopVars hq.2.1 ht hi) (hy.addValues _) hq.2.2 c hc hs.of_map).check
      (tracks_of_declareLoopVars hb.tracks_child hi).binds

/-- A let is accepted alike with a definition replaced in it. -/
theorem letIn_unchanged {bindings : List Binding} {body : Block} {span : Span}
    (ih : ∀ b ∈ bindings, ReplacedAlike δ z y st' b.value) (ihb : BlockReplacedAlike δ z y st' body) :
    ReplacedAlike δ z y st' (.letIn bindings body span) := by
  intro Γ s h hy hq site hm hs
  rw [Names.places, List.forall_mem_cons, List.forall_mem_append] at hq
  rw [Names.sites, List.mem_append, List.mem_map, List.mem_map] at hm
  rcases hm with ⟨c, hc, rfl⟩ | ⟨c, hc, rfl⟩ <;> rw [Site.put_map] <;> refine ⟨?_, fun _ _ => rfl, fun hb => ?_⟩
  · exact (bindings_replaced ih h.child hy hq.2.1 hc hs.of_map).1.bind_eq _
  · rw [checkExpr_letIn_iff, checkExpr_letIn_iff]
    exact .exists_congr fun r => .and_congr_left ((bindings_replaced ih h.child hy hq.2.1 hc hs.of_map).2 hb.child r)
  · exact Agree.bind_left _ fun r hr =>
      (ihb _ r (h.child.bindAll hq.2.1 hr) (hy.addValues _) hq.2.2 c hc hs.of_map).type
  · rw [checkExpr_letIn_iff, checkExpr_letIn_iff]
    refine .exists_congr fun r => .and_congr_right fun hr => ?_
    have hneutral := h.child.bindAll hq.2.1 (bindAll_of_checkBindings hr)
    exact (ihb _ r hneutral (hy.addValues _) hq.2.2 c hc hs.of_map).check (tracks_of_checkBindings hb.tracks_child hr).binds

/-- A conditional is accepted alike with a definition replaced in it. -/
theorem cond_unchanged {branches : List Branch} {otherwise : Option Block} {span : Span}
    (ih : ∀ b ∈ branches, ReplacedAlike δ z y st' b.condition ∧ BlockReplacedAlike δ z y st' b.body)
    (iho : ∀ b ∈ otherwise, BlockReplacedAlike δ z y st' b) : ReplacedAlike δ z y st' (.cond branches otherwise span) := by
  intro Γ s h hy hq site hm hs
  rw [Names.places, List.forall_mem_cons, List.forall_mem_append] at hq
  rw [Names.sites, List.mem_append, List.mem_map, List.mem_map] at hm
  rcases hm with ⟨c, hc, rfl⟩ | ⟨c, hc, rfl⟩
  · rw [Site.put_map]
    refine ⟨?_, fun _ _ => rfl, fun hb => ?_⟩
    · cases otherwise with
      | none => exact .ok rfl
      | some b => exact (branchTypes_replaced ih h hy hq.2.1 hc hs.of_map).bind_eq _
    · rw [checkExpr, checkExpr, Run.verdict_bind, Run.verdict_bind, seq_eq_ok_iff, seq_eq_ok_iff]
      exact .and_congr_left (checkBranches_replaced ih h.child hy hq.2.1 hb.child hc hs.of_map)
  · cases otherwise with
    | none => cases hc
    | some b =>
      rw [Names.sitesOfBlock?, List.mem_map] at hc
      obtain ⟨c, hc, rfl⟩ := hc
      rw [Site.put_map, Site.put_map]
      refine ⟨?_, fun _ _ => rfl, fun hb => ?_⟩
      · have hotherwise := iho b rfl Γ s h hy hq.2.2 c hc hs.of_map.of_map
        rw [typeOf, typeOf, ← hotherwise.span]
        refine Agree.bind_left _ fun ts _ => ?_
        cases ts with
        | none => exact .ok rfl
        | some ts => exact hotherwise.type.bind_eq _
      · rw [checkExpr, checkExpr, Run.verdict_bind, Run.verdict_bind, seq_eq_ok_iff, seq_eq_ok_iff]
        exact .and_congr_right fun _ => (iho b rfl Γ s.child h.child hy hq.2.2 c hc hs.of_map.of_map).check hb.child

/-- A lambda is accepted alike with a definition replaced in it. -/
theorem lambda_unchanged {params : List LambdaParam} {body : Expr} {span : Span} (ih : ReplacedAlike δ z y st' body) :
    ReplacedAlike δ z y st' (.lambda params body span) := by
  intro Γ s h hy hq site hm hs
  rw [Names.places, List.forall_mem_cons, List.forall_mem_append] at hq
  rw [Names.sites, List.mem_map] at hm
  obtain ⟨c, hc, rfl⟩ := hm
  rw [Site.put_map]
  refine ⟨?_, fun _ _ => rfl, fun hb => ?_⟩
  · rw [typeOf, typeOf]
    refine Agree.bind_left _ fun o ho => ?_
    cases o with
    | none => exact .ok rfl
    | some m => exact (ih _ m.2 (h.lambdaScope hq.2.1 ho) (hy.addValues _) hq.2.2 c hc hs.of_map).type.bind_eq _
  · rw [checkExpr_lambda_iff, checkExpr_lambda_iff]
    refine .exists_congr fun r => .and_congr_right fun hr => ?_
    have hneutral := h.child.declareLambdaParams hq.2.1 hr
    exact (ih _ r hneutral (hy.addValues _) hq.2.2 c hc hs.of_map).check (tracks_of_declareLambdaParams hb.tracks_child hr).binds

/-- Each construct is accepted alike wherever in it a definition is replaced, when its parts are. -/
theorem unchanged_cases (δ : Direction) (z y : String) (st' : Stmt) :
    TreeCases (ReplacedAlike δ z y st') (BlockReplacedAlike δ z y st') (StmtReplacedAlike δ z y st') where
  literal v span Γ s h hy hq site hm := nomatch hm
  name n span Γ s h hy hq site hm := nomatch hm
  binary op l r span ihl ihr Γ s h hy hq site hm hs := by
    rw [Names.places, List.forall_mem_cons, List.forall_mem_append] at hq
    rw [Names.sites, List.mem_append, List.mem_map, List.mem_map] at hm
    rcases hm with ⟨c, hc, rfl⟩ | ⟨c, hc, rfl⟩ <;> refine ⟨.ok rfl, fun _ _ => rfl, fun hb => ?_⟩ <;>
      rw [Site.put_map, checkExpr_binary_iff, checkExpr_binary_iff]
    · exact .and_congr_left ((ihl Γ s h hy hq.2.1 c hc hs.of_map).check hb)
    · exact .and_congr_right fun _ => (ihr Γ s h hy hq.2.2 c hc hs.of_map).check hb
  unary op e span ih Γ s h hy hq site hm hs := by
    rw [Names.places, List.forall_mem_cons] at hq
    rw [Names.sites, List.mem_map] at hm
    obtain ⟨c, hc, rfl⟩ := hm
    exact ⟨.ok rfl, fun _ _ => rfl, fun hb => (ih Γ s h hy hq.2 c hc hs.of_map).check hb⟩
  call f args span ih Γ s h hy hq site hm hs := by
    rw [Names.places, List.forall_mem_cons] at hq
    rw [Names.sites, List.mem_map] at hm
    obtain ⟨c, hc, rfl⟩ := hm
    exact call_unchanged (unchanged_args ih h hy hq.2 hc hs.of_map) f span
  methodCall threading receiver m args span ihr ih Γ s h hy hq site hm hs := by
    rw [Names.places, List.forall_mem_cons, List.forall_mem_append] at hq
    rw [Names.sites, List.mem_append, List.mem_map, List.mem_map] at hm
    obtain ⟨receiver', args', hsite, hr, hargs⟩ : ∃ receiver' args',
        site.put st' = .methodCall threading receiver' m args' span ∧ s.Unchanged δ Γ receiver receiver' ∧
          List.Forall₂ (s.Unchanged δ Γ) args args' := by
      rcases hm with ⟨c, hc, rfl⟩ | ⟨c, hc, rfl⟩
      · exact ⟨_, _, rfl, ihr Γ s h hy hq.2.1 c hc hs.of_map, List.forall₂_same.2 fun e _ => .refl δ s Γ e⟩
      · exact ⟨_, _, rfl, .refl δ s Γ receiver, unchanged_args ih h hy hq.2.2 hc hs.of_map⟩
    have hcall := call_unchanged (forall₂_arrange threading hr hargs) m span
    rw [hsite]
    refine ⟨?_, fun _ _ => rfl, fun hb => ?_⟩
    · rw [typeOf_methodCall, typeOf_methodCall]
      exact hcall.type
    · rw [verdict_checkExpr_methodCall, verdict_checkExpr_methodCall]
      exact hcall.check hb
  member target field span ih Γ s h hy hq site hm hs := by
    rw [Names.places, List.forall_mem_cons] at hq
    rw [Names.sites, List.mem_map] at hm
    obtain ⟨c, hc, rfl⟩ := hm
    have htarget := ih Γ s h hy hq.2 c hc hs.of_map
    refine ⟨htarget.type.bind_eq _, fun _ _ => rfl, fun hb => ?_⟩
    rw [Site.put_map, checkExpr_member_iff, checkExpr_member_iff]
    exact .and_congr (htarget.check hb) (.of_iff (htarget.type.exists_congr _))
  get collection key span ihc ihk Γ s h hy hq site hm hs := by
    rw [Names.places, List.forall_mem_cons, List.forall_mem_append] at hq
    rw [Names.sites, List.mem_append, List.mem_map, List.mem_map] at hm
    rcases hm with ⟨c, hc, rfl⟩ | ⟨c, hc, rfl⟩
    · have hcollection := ihc Γ s h hy hq.2.1 c hc hs.of_map
      refine ⟨hcollection.type.bind_eq _, fun _ _ => rfl, fun hb => ?_⟩
      rw [Site.put_map, checkExpr_get_iff, checkExpr_get_iff]
      exact .and_congr_left (hcollection.check hb)
    · refine ⟨.refl_eq _, fun _ _ => rfl, fun hb => ?_⟩
      rw [Site.put_map, checkExpr_get_iff, checkExpr_get_iff]
      exact .and_congr_right fun _ => (ihk Γ s h hy hq.2.2 c hc hs.of_map).check hb
  vector items span ih Γ s h hy hq site hm hs := by
    rw [Names.places, List.forall_mem_cons] at hq
    rw [Names.sites, List.mem_map] at hm
    obtain ⟨c, hc, rfl⟩ := hm
    refine ⟨.ok rfl, fun _ _ => rfl, fun hb => ?_⟩
    rw [Site.put_map, checkExpr, checkExpr, checkExprs_ok_iff, checkExprs_ok_iff]
    exact checkExprs_unchanged (unchanged_args ih h hy hq.2 hc hs.of_map) hb
  map entries span ih Γ s h hy hq site hm hs := by
    rw [Names.places, List.forall_mem_cons] at hq
    rw [Names.sites, List.mem_map] at hm
    obtain ⟨c, hc, rfl⟩ := hm
    exact ⟨.ok rfl, fun _ _ => rfl, fun hb => checkEntries_replaced ih h hy hq.2 hb hc hs.of_map⟩
  block b ih Γ s h hy hq site hm hs := by
    rw [Names.places, List.forall_mem_cons] at hq
    rw [Names.sites, List.mem_map] at hm
    obtain ⟨c, hc, rfl⟩ := hm
    have hblock := ih Γ s h hy hq.2 c hc hs.of_map
    exact ⟨hblock.type, fun _ _ => rfl, hblock.check⟩
  letIn bindings body span ih ihb := letIn_unchanged ih ihb
  forEach vars iterable body span ih ihb := forEach_unchanged ih ihb
  cond branches otherwise span ih iho := cond_unchanged ih iho
  lambda params body span ih := lambda_unchanged ih
  paren e span ih Γ s h hy hq site hm hs := by
    rw [Names.places, List.forall_mem_cons] at hq
    rw [Names.sites, List.mem_map] at hm
    obtain ⟨c, hc, rfl⟩ := hm
    have he := ih Γ s h hy hq.2 c hc hs.of_map
    exact ⟨he.type, fun _ _ => rfl, he.check⟩
  stmts stmts span ih Γ s h hy hq site hm hs := by
    rw [Names.placesOfBlock, List.forall_mem_cons] at hq
    rw [Names.sitesOfBlock, List.mem_map] at hm
    obtain ⟨c, hc, rfl⟩ := hm
    refine ⟨bodyType_replaced ih h.child hy hq.2 hc hs.of_map, rfl, fun hb => ?_⟩
    rw [Site.put_map, checkBlock_iff, checkBlock_iff]
    exact checkStmts_replaced ih h.child hy hq.2 hb.tracks_child hc hs.of_map
  function n generics params ret body span ih := function_unchanged ih
  record n fields implementations span ih := record_unchanged ih
  define n ty value span ih := define_unchanged ih
  expr e ih Γ s h hy hq site hm hs := by
    rw [Names.placesOfStmt, List.forall_mem_cons] at hq
    rw [Names.sitesOfStmt, List.mem_map] at hm
    obtain ⟨c, hc, rfl⟩ := hm
    have he := ih Γ s h hy hq.2 c hc hs.of_map
    refine ⟨.ok h.refl, he.type, fun ds ht => .exists_congr fun r => ?_⟩
    rw [Site.put_map, checkStmt_expr_iff, checkStmt_expr_iff]
    exact .and_congr_left (he.check ht.binds)

end Scope

end Gradual
