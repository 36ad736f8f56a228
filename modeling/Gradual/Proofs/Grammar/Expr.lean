import Gradual.Grammar.Expr
import Gradual.Proofs.Grammar.Annotation
import Gradual.Proofs.Tree.Grouping

/-!
# What the grammar of expressions and statements reads

Every production writes what it yields, and groups it. The statements about productions assume it of the parsers for what stands
inside (`Nested.Reads`), and the grammar nested so deep meets them by induction on the depth.

Grouping rests on where an expression ends: no operator that binds as tightly as its bound follows it (`Reader.Stops`). So an
operator that follows a group binds no tighter than that group's own, and becomes its parent.
-/

namespace Gradual

open Reader (Reads)
open Gradual.Expr (AllGrouped blockExprs stmtExprs)

/-- No operator that binds as tightly as `least` comes next. -/
def Reader.Stops (r : Reader) (least : Nat) : Prop :=
  ∀ t r₁, r.next = (.ok t, r₁) → ∀ op, Grammar.binaryOp? t.kind = some op → op.precedence < least

/-- Where an expression stops, it stops after a look ahead too. -/
theorem Reader.Stops.of_same {r r' : Reader} {least : Nat} (hs : r.Stops least) (h : Reads r [] r') : r'.Stops least := by
  unfold Reader.Stops
  rw [h.next_eq]
  exact hs

namespace Grammar

open Gradual.Parser

/-- A token that is read as an operator between operands is the token of that operator. -/
theorem eq_kind_of_binaryOp {k : Kind} {op : BinaryOp} (h : binaryOp? k = some op) : k = op.kind := by
  unfold binaryOp? at h
  split at h <;> cases h <;> rfl

/-- A token that is read as an operator in front of an operand is the token of that operator. -/
theorem eq_kind_of_unaryOp {k : Kind} {op : UnaryOp} (h : unaryOp? k = some op) : k = op.kind := by
  unfold unaryOp? at h
  split at h <;> cases h <;> rfl

/-- An expression read between two readers, whose operators bind at least as tightly as `least` and which ends where no such
operator follows. -/
structure ReadsExpr (least : Nat) (r : Reader) (e : Expr) (r' : Reader) : Prop where
  between : Between r [e.phrase] r'
  grouped : e.Grouped
  tight : ∀ o ∈ e.operator?, least ≤ o.precedence
  stops : r'.Stops least

/-- What the parsers inside a production read. -/
structure Nested.Reads (g : Nested) : Prop where
  expr {least : Nat} {r : Reader} {e : Expr} {r' : Reader} (h : g.expr least r = .ok e r') : ReadsExpr least r e r'
  unary {r : Reader} {e : Expr} {r' : Reader} (h : g.unary r = .ok e r') :
    Between r [e.phrase] r' ∧ e.Grouped ∧ e.operator? = none
  stmt : Writes g.stmt Stmt.phrases fun s => AllGrouped (stmtExprs s)

variable {g : Nested} {r r' : Reader}

/-- An expression inside a production writes what it yields, and groups it. -/
theorem Nested.Reads.writes_expr (hg : g.Reads) (least : Nat) :
    Writes (g.expr least) (fun e => [e.phrase]) fun e => e.Grouped := by
  intro r e r' h
  exact ⟨(hg.expr h).between, (hg.expr h).grouped⟩

/-! ## Blocks -/

/-- The next statement of a block is written and grouped. -/
theorem writes_blockItem (hg : g.Reads) :
    Writes (blockItem g) (fun o => o.elim [] Stmt.phrases) fun o => ∀ s ∈ o, AllGrouped (stmtExprs s) := by
  intro r o r' hr
  obtain ⟨t, r₁, ht, hr⟩ := bind_ok_iff.1 hr
  obtain ⟨hlook, -⟩ := peek_ok ht
  generalize t.kind = k at hr
  split at hr
  · obtain ⟨rfl, rfl⟩ := pure_ok_iff.1 hr
    exact ⟨.of_same hlook, by simp⟩
  · exact absurd hr throw_ne_ok
  · obtain ⟨s, r₂, hs, hr⟩ := bind_ok_iff.1 hr
    obtain ⟨rfl, rfl⟩ := pure_ok_iff.1 hr
    obtain ⟨hbetween, hgrouped⟩ := hg.stmt _ _ _ hs
    exact ⟨(Between.of_same hlook).trans hbetween, by simpa using hgrouped⟩

/-- A block is written and grouped. -/
theorem writes_block (hg : g.Reads) : Writes (block g) (fun b => [b.phrase]) fun b => AllGrouped (blockExprs b) := by
  intro r b r' hr
  obtain ⟨t, r₁, ht, hr⟩ := bind_ok_iff.1 hr
  obtain ⟨ss, r₂, hss, hr⟩ := bind_ok_iff.1 hr
  obtain ⟨c, r₃, hc, hr⟩ := bind_ok_iff.1 hr
  obtain ⟨rfl, rfl⟩ := pure_ok_iff.1 hr
  obtain ⟨hbetween, hgrouped⟩ := writes_bounded (writes_many (writes_blockItem hg)) _ _ _ hss
  refine ⟨?_, by simpa [blockExprs] using hgrouped⟩
  simpa [Block.phrase, Expr.blockParts] using ((stretch_of_expect rfl ht).join hbetween (stretch_of_expect rfl hc)).node

/-! ## Expressions -/

/-- Arguments in parentheses are written so, up to the closing one. -/
theorem arguments_ok {args : List Expr} {close : Span} (hg : g.Reads) (h : arguments g r = .ok (args, close) r') :
    (∃ r₁, Between r (.mark .lparen :: Phrase.listed (args.map Expr.phrase)) r₁ ∧ Stretch r₁ close [.mark .rparen] r') ∧
      ∀ a ∈ args, a.Grouped := by
  obtain ⟨t, r₁, ht, h⟩ := bind_ok_iff.1 h
  obtain ⟨as, r₂, has, h⟩ := bind_ok_iff.1 h
  obtain ⟨c, r₃, hc, h⟩ := bind_ok_iff.1 h
  obtain ⟨heq, rfl⟩ := pure_ok_iff.1 h
  obtain ⟨rfl, rfl⟩ := Prod.mk.inj heq
  obtain ⟨hbetween, hgrouped⟩ := writes_bounded (writes_listUntil (hg.writes_expr 0)) _ _ _ has
  exact ⟨⟨r₂, (stretch_of_expect rfl ht).between.trans hbetween, stretch_of_expect rfl hc⟩, hgrouped⟩

/-- A method call is written as its receiver, the mark and the name that were read before, and the arguments. -/
theorem methodCall_ok {threading : Threading} {receiver e : Expr} {m : String} {r₀ r₁ : Reader} (hg : g.Reads)
    (hreceiver : Between r₀ [receiver.phrase] r₁) (hname : Between r₁ [.mark threading.mark, .name m] r)
    (hgrouped : receiver.Grouped) (hno : receiver.isOperation = false) (h : methodCall g threading receiver m r = .ok e r') :
    Between r₀ [e.phrase] r' ∧ e.Grouped ∧ e.isOperation = false := by
  obtain ⟨t, r₂, ht, h⟩ := bind_ok_iff.1 h
  obtain ⟨hlook, -⟩ := peek_ok ht
  generalize t.kind = k at h
  split at h
  · obtain ⟨⟨args, close⟩, r₃, hargs, h⟩ := bind_ok_iff.1 h
    obtain ⟨rfl, rfl⟩ := pure_ok_iff.1 h
    obtain ⟨⟨r₄, hlist, hclose⟩, hall⟩ := arguments_ok hg hargs
    refine ⟨?_, ?_, rfl⟩
    · have hmiddle := hname.trans ((Between.of_same hlook).trans hlist)
      simpa [Expr.phrase, Expr.parts, Expr.span] using (hreceiver.stretch.join hmiddle hclose).node
    · simpa [Expr.Grouped, Expr.exprs, Expr.IsGrouped, hno] using ⟨hgrouped, hall⟩
  · exact absurd h throw_ne_ok

/-- A binding of a let is written, and its value is grouped. -/
theorem writes_binding (hg : g.Reads) : Writes (binding g) (fun b => [b.phrase]) fun b => b.value.Grouped := by
  intro r b r' hr
  obtain ⟨t, r₁, ht, hr⟩ := bind_ok_iff.1 hr
  obtain ⟨n, r₂, hn, hr⟩ := bind_ok_iff.1 hr
  obtain ⟨c, r₃, hc, hr⟩ := bind_ok_iff.1 hr
  obtain ⟨e, r₄, he, hr⟩ := bind_ok_iff.1 hr
  obtain ⟨rfl, rfl⟩ := pure_ok_iff.1 hr
  have hvalue := hg.expr he
  exact ⟨((stretch_of_name ht hn).join (stretch_of_expect rfl hc).between hvalue.between.stretch).node, hvalue.grouped⟩

/-- What a production that begins an expression yields: it is written, grouped, and no operation. -/
abbrev WritesPrimary (p : Parser Expr) : Prop := Writes p (fun e => [e.phrase]) fun e => e.Grouped ∧ e.isOperation = false

/-- A let is written and grouped, and is no operation. -/
theorem writes_letIn (hg : g.Reads) : WritesPrimary (letIn g) := by
  intro r e r' hr
  obtain ⟨t, r₁, ht, hr⟩ := bind_ok_iff.1 hr
  obtain ⟨bs, r₂, hbs, hr⟩ := bind_ok_iff.1 hr
  obtain ⟨body, r₃, hbody, hr⟩ := bind_ok_iff.1 hr
  obtain ⟨rfl, rfl⟩ := pure_ok_iff.1 hr
  obtain ⟨hbindings, -, hall⟩ := writes_bounded (writes_commaSeparated (writes_binding hg)) _ _ _ hbs
  obtain ⟨hblock, hgrouped⟩ := writes_block hg _ _ _ hbody
  refine ⟨?_, ?_, rfl⟩
  · simpa [Expr.phrase, Expr.parts, Expr.span, Block.phrase] using
      ((stretch_of_expect rfl ht).join hbindings hblock.stretch).node
  · simpa [Expr.Grouped, Expr.exprs, Expr.IsGrouped] using ⟨hall, hgrouped⟩

/-- A loop variable is written. -/
theorem writes_loopVariable : Writes loopVariable (fun v => [v.phrase]) fun _ => True := by
  intro r v r' hr
  obtain ⟨t, r₁, ht, hr⟩ := bind_ok_iff.1 hr
  obtain ⟨n, r₂, hn, hr⟩ := bind_ok_iff.1 hr
  obtain ⟨rfl, rfl⟩ := pure_ok_iff.1 hr
  exact ⟨(stretch_of_name ht hn).node, trivial⟩

/-- A loop is written and grouped, and is no operation. -/
theorem writes_forEach (hg : g.Reads) : WritesPrimary (forEach g) := by
  intro r e r' hr
  obtain ⟨t, r₁, ht, hr⟩ := bind_ok_iff.1 hr
  obtain ⟨vs, r₂, hvs, hr⟩ := bind_ok_iff.1 hr
  obtain ⟨w, r₃, hw, hr⟩ := bind_ok_iff.1 hr
  obtain ⟨iterable, r₄, hit, hr⟩ := bind_ok_iff.1 hr
  obtain ⟨body, r₅, hbody, hr⟩ := bind_ok_iff.1 hr
  obtain ⟨rfl, rfl⟩ := pure_ok_iff.1 hr
  obtain ⟨hvars, -⟩ := writes_bounded (writes_commaSeparated writes_loopVariable) _ _ _ hvs
  have hiterable := hg.expr hit
  obtain ⟨hblock, hgrouped⟩ := writes_block hg _ _ _ hbody
  refine ⟨?_, ?_, rfl⟩
  · have hmiddle := (hvars.trans (stretch_of_expect rfl hw).between).trans hiterable.between
    simpa [Expr.phrase, Expr.parts, Expr.span, Block.phrase] using
      ((stretch_of_expect rfl ht).join hmiddle hblock.stretch).node
  · simpa [Expr.Grouped, Expr.exprs, Expr.IsGrouped] using ⟨hiterable.grouped, hgrouped⟩

/-- The expressions of a branch are grouped. -/
abbrev GroupedBranch (b : Branch) : Prop := b.condition.Grouped ∧ AllGrouped (blockExprs b.body)

/-- A condition and its block are written and grouped. -/
theorem writes_branch (hg : g.Reads) :
    Writes (branch g) (fun b => [b.condition.phrase, b.body.phrase]) GroupedBranch := by
  intro r b r' hr
  obtain ⟨condition, r₁, hcond, hr⟩ := bind_ok_iff.1 hr
  obtain ⟨body, r₂, hbody, hr⟩ := bind_ok_iff.1 hr
  obtain ⟨rfl, rfl⟩ := pure_ok_iff.1 hr
  obtain ⟨hblock, hgrouped⟩ := writes_block hg _ _ _ hbody
  exact ⟨(hg.expr hcond).between.trans hblock, (hg.expr hcond).grouped, hgrouped⟩

/-- A further branch is written, with its keyword, and grouped. -/
theorem writes_elifItem (hg : g.Reads) :
    Writes (elifItem g) (fun o => o.elim [] (Branch.phrases .elif)) fun o => ∀ b ∈ o, GroupedBranch b := by
  intro r o r' hr
  obtain ⟨b, r₁, hb, hr⟩ := bind_ok_iff.1 hr
  rcases accept_ok rfl hb with ⟨rfl, t, ht, hword⟩ | ⟨rfl, hsame⟩
  · obtain ⟨br, r₂, hbr, hr⟩ := bind_ok_iff.1 hr
    obtain ⟨rfl, rfl⟩ := pure_ok_iff.1 hr
    obtain ⟨hbranch, hgrouped⟩ := writes_branch hg _ _ _ hbr
    exact ⟨(Stretch.token ht hword).between.trans hbranch, by simpa using hgrouped⟩
  · obtain ⟨rfl, rfl⟩ := pure_ok_iff.1 hr
    exact ⟨.of_same hsame, by simp⟩

/-- The last branch, if there is one, is written, with its keyword, and grouped. -/
theorem writes_otherwise (hg : g.Reads) :
    Writes (otherwise g) Expr.otherwisePhrases fun o => AllGrouped (Expr.otherwiseExprs o) := by
  intro r o r' hr
  obtain ⟨b, r₁, hb, hr⟩ := bind_ok_iff.1 hr
  rcases accept_ok rfl hb with ⟨rfl, t, ht, hword⟩ | ⟨rfl, hsame⟩
  · obtain ⟨body, r₂, hbody, hr⟩ := bind_ok_iff.1 hr
    obtain ⟨rfl, rfl⟩ := pure_ok_iff.1 hr
    obtain ⟨hblock, hgrouped⟩ := writes_block hg _ _ _ hbody
    exact ⟨by simpa [Expr.otherwisePhrases, Block.phrase] using (Stretch.token ht hword).between.trans hblock,
      by simpa [Expr.otherwiseExprs] using hgrouped⟩
  · obtain ⟨rfl, rfl⟩ := pure_ok_iff.1 hr
    exact ⟨by simpa [Expr.otherwisePhrases] using Between.of_same hsame, by simp [Expr.otherwiseExprs]⟩

/-- What a conditional is written as ends with its last block. -/
theorem exists_last_block (first : Branch) (others : List Branch) (fallback : Option Block) :
    ∃ ps b, [first.condition.phrase, first.body.phrase] ++ others.flatMap (Branch.phrases .elif) ++
      Expr.otherwisePhrases fallback = ps ++ [Block.phrase b] ∧ lastBlockSpan first others fallback = b.span := by
  cases fallback with
  | some b =>
    refine ⟨[first.condition.phrase, first.body.phrase] ++ others.flatMap (Branch.phrases .elif) ++ [.word .otherwise],
      b, ?_, rfl⟩
    simp [Expr.otherwisePhrases, Block.phrase]
  | none =>
    rcases others.eq_nil_or_concat with rfl | ⟨init, last, rfl⟩
    · exact ⟨[first.condition.phrase], first.body, by simp [Expr.otherwisePhrases], rfl⟩
    · refine ⟨[first.condition.phrase, first.body.phrase] ++ init.flatMap (Branch.phrases .elif) ++
        [.word .elif, last.condition.phrase], last.body, ?_, ?_⟩
      · simp [Expr.otherwisePhrases, Branch.phrases]
      · simp [lastBlockSpan, List.getLast_cons]

/-- A conditional is written and grouped, and is no operation. -/
theorem writes_conditional (hg : g.Reads) : WritesPrimary (conditional g) := by
  intro r e r' hr
  obtain ⟨t, r₁, ht, hr⟩ := bind_ok_iff.1 hr
  obtain ⟨first, r₂, hfirst, hr⟩ := bind_ok_iff.1 hr
  obtain ⟨others, r₃, hothers, hr⟩ := bind_ok_iff.1 hr
  obtain ⟨fallback, r₄, hfallback, hr⟩ := bind_ok_iff.1 hr
  obtain ⟨rfl, rfl⟩ := pure_ok_iff.1 hr
  obtain ⟨hbranch, hgrouped⟩ := writes_branch hg _ _ _ hfirst
  obtain ⟨hbranches, hall⟩ := writes_bounded (writes_many (writes_elifItem hg)) _ _ _ hothers
  obtain ⟨hotherwise, hlast⟩ := writes_otherwise hg _ _ _ hfallback
  refine ⟨?_, ?_, rfl⟩
  · have hrest := (hbranch.trans hbranches).trans hotherwise
    obtain ⟨ps, b, hps, hspan⟩ := exists_last_block first others fallback
    obtain ⟨r₅, hinit, hblock⟩ := (hps ▸ hrest).of_append
    have hnode := ((stretch_of_expect rfl ht).join hinit hblock.stretch).node
    change Between r [.node (t.span.join (lastBlockSpan first others fallback)) _] _
    rw [hspan, Expr.parts, Expr.branchPhrases_cons]
    rw [List.append_assoc, ← Block.phrase, ← hps] at hnode
    simpa [Branch.phrases] using hnode
  · simpa [Expr.Grouped, Expr.exprs, Expr.IsGrouped] using ⟨hgrouped.1, hgrouped.2, hall, hlast⟩

/-- A lambda is written and grouped, and is no operation. -/
theorem writes_lambda (hg : g.Reads) : WritesPrimary (lambda g) := by
  intro r e r' hr
  obtain ⟨t, r₁, ht, hr⟩ := bind_ok_iff.1 hr
  obtain ⟨u, r₂, hu, hr⟩ := bind_ok_iff.1 hr
  obtain ⟨ps, r₃, hps, hr⟩ := bind_ok_iff.1 hr
  obtain ⟨c, r₄, hc, hr⟩ := bind_ok_iff.1 hr
  obtain ⟨a, r₅, ha, hr⟩ := bind_ok_iff.1 hr
  obtain ⟨body, r₆, hbody, hr⟩ := bind_ok_iff.1 hr
  obtain ⟨rfl, rfl⟩ := pure_ok_iff.1 hr
  have hparams := (writes_bounded (writes_listUntil writes_lambdaParam) _ _ _ hps).1
  have hvalue := hg.expr hbody
  refine ⟨?_, ?_, rfl⟩
  · have hmarks := (stretch_of_expect rfl hc).between.trans (stretch_of_expect rfl ha).between
    have hmiddle := (stretch_of_expect rfl hu).between.trans (hparams.trans hmarks)
    simpa [Expr.phrase, Expr.parts, Expr.span] using ((stretch_of_expect rfl ht).join hmiddle hvalue.between.stretch).node
  · simpa [Expr.Grouped, Expr.exprs, Expr.IsGrouped] using hvalue.grouped

/-- An entry of a map is written, and its key and its value are grouped. -/
theorem writes_mapItem (hg : g.Reads) :
    Writes (mapItem g) (fun o => o.elim [] Entry.phrases) fun o => ∀ e ∈ o, e.key.Grouped ∧ e.value.Grouped := by
  intro r o r' hr
  obtain ⟨c, r₁, hc, hr⟩ := bind_ok_iff.1 hr
  obtain ⟨hlook, -⟩ := check_ok hc
  cases c with
  | true =>
    obtain ⟨rfl, rfl⟩ := pure_ok_iff.1 hr
    exact ⟨.of_same hlook, by simp⟩
  | false =>
    obtain ⟨key, r₂, hkey, hr⟩ := bind_ok_iff.1 hr
    obtain ⟨value, r₃, hvalue, hr⟩ := bind_ok_iff.1 hr
    obtain ⟨b, r₄, hb, hr⟩ := bind_ok_iff.1 hr
    obtain ⟨rfl, rfl⟩ := pure_ok_iff.1 hr
    have hentry := (hg.expr hkey).between.trans ((hg.expr hvalue).between.trans (.optional hb))
    exact ⟨(Between.of_same hlook).trans hentry, by simpa using ⟨(hg.expr hkey).grouped, (hg.expr hvalue).grouped⟩⟩

/-- A literal of one token. -/
theorem stretch_literal {t : Token} {v : Literal} (h : next r = .ok t r') (hk : t.kind = v.kind) :
    Between r [(Expr.literal v t.span).phrase] r' := by
  have hne : v.kind ≠ .eof := by
    cases v with
    | bool b => cases b <;> simp [Literal.kind]
    | _ => simp [Literal.kind]
  exact (stretch_of_next h hk hne).node

/-- What a token begins is written and grouped, and is no operation. -/
theorem primaryFrom_ok {t : Token} {e : Expr} {r₁ : Reader} (hg : g.Reads) (ht : next r = .ok t r₁)
    (h : primaryFrom g t r₁ = .ok e r') : Between r [e.phrase] r' ∧ e.Grouped ∧ e.isOperation = false := by
  unfold primaryFrom at h
  generalize hk : t.kind = k at h
  split at h
  case h_7 n =>
    obtain ⟨b, r₂, hb, h⟩ := bind_ok_iff.1 h
    obtain ⟨hlook, -⟩ := check_ok hb
    have hname := (stretch_of_next ht hk (by simp)).then_same hlook
    cases b with
    | true =>
      obtain ⟨⟨args, close⟩, r₃, hargs, h⟩ := bind_ok_iff.1 h
      obtain ⟨rfl, rfl⟩ := pure_ok_iff.1 h
      obtain ⟨⟨r₄, hlist, hclose⟩, hall⟩ := arguments_ok hg hargs
      refine ⟨?_, ?_, rfl⟩
      · simpa [Expr.phrase, Expr.parts, Expr.span] using (hname.join hlist hclose).node
      · simpa [Expr.Grouped, Expr.exprs, Expr.IsGrouped] using hall
    | false =>
      obtain ⟨rfl, rfl⟩ := pure_ok_iff.1 h
      exact ⟨hname.node, by simp [Expr.Grouped, Expr.exprs, Expr.IsGrouped], rfl⟩
  case h_8 =>
    obtain ⟨inner, r₂, hinner, h⟩ := bind_ok_iff.1 h
    obtain ⟨c, r₃, hc, h⟩ := bind_ok_iff.1 h
    obtain ⟨rfl, rfl⟩ := pure_ok_iff.1 h
    have hexpr := hg.expr hinner
    refine ⟨((stretch_of_next ht hk (by simp)).join hexpr.between (stretch_of_expect rfl hc)).node, ?_, rfl⟩
    simpa [Expr.Grouped, Expr.exprs, Expr.IsGrouped] using hexpr.grouped
  case h_9 =>
    obtain ⟨items, r₂, hitems, h⟩ := bind_ok_iff.1 h
    obtain ⟨c, r₃, hc, h⟩ := bind_ok_iff.1 h
    obtain ⟨rfl, rfl⟩ := pure_ok_iff.1 h
    obtain ⟨hlist, hall⟩ := writes_bounded (writes_listUntil (hg.writes_expr 0)) _ _ _ hitems
    refine ⟨?_, ?_, rfl⟩
    · simpa [Expr.phrase, Expr.parts, Expr.span] using
        ((stretch_of_next ht hk (by simp)).join hlist (stretch_of_expect rfl hc)).node
    · simpa [Expr.Grouped, Expr.exprs, Expr.IsGrouped] using hall
  case h_10 =>
    obtain ⟨entries, r₂, hentries, h⟩ := bind_ok_iff.1 h
    obtain ⟨c, r₃, hc, h⟩ := bind_ok_iff.1 h
    obtain ⟨rfl, rfl⟩ := pure_ok_iff.1 h
    obtain ⟨hlist, hall⟩ := writes_bounded (writes_many (writes_mapItem hg)) _ _ _ hentries
    refine ⟨?_, ?_, rfl⟩
    · simpa [Expr.phrase, Expr.parts, Expr.span] using
        ((stretch_of_next ht hk (by simp)).join hlist (stretch_of_expect rfl hc)).node
    · simpa [Expr.Grouped, Expr.exprs, Expr.IsGrouped] using hall
  case h_11 => exact absurd h throw_ne_ok
  all_goals
    obtain ⟨rfl, rfl⟩ := pure_ok_iff.1 h
    exact ⟨stretch_literal ht hk, by simp [Expr.Grouped, Expr.exprs, Expr.IsGrouped], rfl⟩

/-- A primary expression is written and grouped, and is no operation. -/
theorem writes_primary (hg : g.Reads) : WritesPrimary (primary g) := by
  intro r e r' hr
  obtain ⟨t, r₁, ht, hr⟩ := bind_ok_iff.1 hr
  obtain ⟨hlook, -⟩ := peek_ok ht
  suffices h : Between r₁ [e.phrase] r' ∧ e.Grouped ∧ e.isOperation = false from
    ⟨(Between.of_same hlook).trans h.1, h.2⟩
  generalize t.kind = k at hr
  split at hr
  · obtain ⟨b, r₂, hb, hr⟩ := bind_ok_iff.1 hr
    obtain ⟨rfl, rfl⟩ := pure_ok_iff.1 hr
    obtain ⟨hblock, hgrouped⟩ := writes_block hg _ _ _ hb
    refine ⟨?_, ?_, rfl⟩
    · simpa [Expr.phrase, Expr.parts, Expr.span, Block.phrase] using hblock
    · simpa [Expr.Grouped, Expr.exprs, Expr.IsGrouped] using hgrouped
  · exact writes_letIn hg _ _ _ hr
  · exact writes_forEach hg _ _ _ hr
  · exact writes_conditional hg _ _ _ hr
  · exact writes_lambda hg _ _ _ hr
  · obtain ⟨u, r₂, hu, hr⟩ := bind_ok_iff.1 hr
    exact primaryFrom_ok hg hu hr

/-- The members, keys and method calls after an expression extend it. -/
theorem chain_ok (hg : g.Reads) (n : Nat) {e e' : Expr} {r₀ : Reader} (hbetween : Between r₀ [e.phrase] r) (hgrouped : e.Grouped)
    (hno : e.isOperation = false) (h : chain g n e r = .ok e' r') :
    Between r₀ [e'.phrase] r' ∧ e'.Grouped ∧ e'.isOperation = false := by
  induction n generalizing e r with
  | zero => exact absurd h tooDeep_ne_ok
  | succ n ih =>
    obtain ⟨t, r₁, ht, h⟩ := bind_ok_iff.1 h
    obtain ⟨hlook, r₂, hnext⟩ := peek_ok ht
    have hread : Between r₀ [e.phrase] r₁ := by simpa using hbetween.trans (.of_same hlook)
    generalize hk : t.kind = k at h
    split at h
    · obtain ⟨u, r₃, hu, h⟩ := bind_ok_iff.1 h
      obtain ⟨m, r₄, hm, h⟩ := bind_ok_iff.1 h
      obtain ⟨field, r₅, hfield, h⟩ := bind_ok_iff.1 h
      obtain ⟨b, r₆, hb, h⟩ := bind_ok_iff.1 h
      obtain ⟨rfl, rfl⟩ := next_ok_unique hnext hu
      obtain ⟨hahead, -⟩ := check_ok hb
      have hdot := (stretch_of_next hu hk (by simp)).between
      have hname := (stretch_of_name hm hfield).then_same hahead
      cases b with
      | true =>
        obtain ⟨call, r₇, hcall, h⟩ := bind_ok_iff.1 h
        have hmark : Between r₁ [.mark Threading.first.mark, .name field] r₆ := hdot.trans hname.between
        obtain ⟨hb', hg', hn'⟩ := methodCall_ok hg hread hmark hgrouped hno hcall
        exact ih hb' hg' hn' h
      | false =>
        refine ih (e := .member e field (e.span.join m.span)) (hread.stretch.join hdot hname).node ?_ rfl h
        simpa [Expr.Grouped, Expr.exprs, Expr.IsGrouped, hno] using hgrouped
    · obtain ⟨u, r₃, hu, h⟩ := bind_ok_iff.1 h
      obtain ⟨m, r₄, hm, h⟩ := bind_ok_iff.1 h
      obtain ⟨call, r₅, hcall, h⟩ := bind_ok_iff.1 h
      obtain ⟨rfl, rfl⟩ := next_ok_unique hnext hu
      have harrow := (stretch_of_next hu hk (by simp)).between
      have hmark : Between r₁ [.mark Threading.last.mark, .name m] r₄ := harrow.trans (writes_expectName _ _ _ hm).1
      obtain ⟨hb', hg', hn'⟩ := methodCall_ok hg hread hmark hgrouped hno hcall
      exact ih hb' hg' hn' h
    · split at h
      · obtain ⟨u, r₃, hu, h⟩ := bind_ok_iff.1 h
        obtain ⟨key, r₄, hkey, h⟩ := bind_ok_iff.1 h
        obtain ⟨c, r₅, hc, h⟩ := bind_ok_iff.1 h
        obtain ⟨rfl, rfl⟩ := next_ok_unique hnext hu
        have hopen := (stretch_of_next hu hk (by simp)).between
        have hexpr := hg.expr hkey
        have hget := (hread.stretch.join (hopen.trans hexpr.between) (stretch_of_expect rfl hc)).node
        refine ih (e := .get e key (e.span.join c.span)) hget ?_ rfl h
        simpa [Expr.Grouped, Expr.exprs, Expr.IsGrouped, hno] using ⟨hgrouped, hexpr.grouped⟩
      · obtain ⟨rfl, rfl⟩ := pure_ok_iff.1 h
        exact ⟨hread, hgrouped, hno⟩
    · obtain ⟨rfl, rfl⟩ := pure_ok_iff.1 h
      exact ⟨hread, hgrouped, hno⟩

/-- An operand is written and grouped, and no operator between operands is at its top. -/
theorem writes_unary (hg : g.Reads) : Writes (unary g) (fun e => [e.phrase]) fun e => e.Grouped ∧ e.operator? = none := by
  intro r e r' hr
  obtain ⟨t, r₁, ht, hr⟩ := bind_ok_iff.1 hr
  obtain ⟨hlook, r₂, hnext⟩ := peek_ok ht
  generalize hop : unaryOp? t.kind = o at hr
  split at hr
  · rename_i op
    obtain ⟨u, r₃, hu, hr⟩ := bind_ok_iff.1 hr
    obtain ⟨operand, r₄, hoperand, hr⟩ := bind_ok_iff.1 hr
    obtain ⟨rfl, rfl⟩ := pure_ok_iff.1 hr
    obtain ⟨rfl, rfl⟩ := next_ok_unique hnext hu
    obtain ⟨hbetween, hgrouped, hno⟩ := hg.unary hoperand
    have hne : op.kind ≠ .eof := by cases op <;> simp [UnaryOp.kind]
    have hsign := (stretch_of_next hu (eq_kind_of_unaryOp hop) hne).of_same hlook
    refine ⟨?_, ?_, rfl⟩
    · simpa [Expr.phrase, Expr.parts, Expr.span] using (hsign.join (.of_same (.refl _)) hbetween.stretch).node
    · simpa [Expr.Grouped, Expr.exprs, Expr.IsGrouped, hno] using hgrouped
  · obtain ⟨e₀, r₃, he₀, hr⟩ := bind_ok_iff.1 hr
    obtain ⟨hbetween, hgrouped, hno⟩ := writes_primary hg _ _ _ he₀
    obtain ⟨hb', hg', hn'⟩ := chain_ok hg _ hbetween hgrouped hno hr
    exact ⟨(Between.of_same hlook).trans hb', hg', Expr.operator?_of_not_isOperation hn'⟩

/-- The operators after an operand extend it to the left: each that follows binds no tighter than the group before it, and one
that binds too loosely leaves the operand as it is. -/
theorem climb_ok (hg : g.Reads) {least : Nat} (n : Nat) {left e : Expr} {r₀ : Reader} (hbetween : Between r₀ [left.phrase] r)
    (hgrouped : left.Grouped) (htight : ∀ o ∈ left.operator?, least ≤ o.precedence)
    (hstops : ∀ o ∈ left.operator?, r.Stops (o.precedence + 1)) (h : climb g least n left r = .ok e r') :
    ReadsExpr least r₀ e r' := by
  induction n generalizing left r with
  | zero => exact absurd h tooDeep_ne_ok
  | succ n ih =>
    obtain ⟨t, r₁, ht, h⟩ := bind_ok_iff.1 h
    obtain ⟨hlook, r₂, hnext⟩ := peek_ok ht
    have hread : Between r₀ [left.phrase] r₁ := by simpa using hbetween.trans (.of_same hlook)
    have hdone (hlow : ∀ op, binaryOp? t.kind = some op → op.precedence < least) : ReadsExpr least r₀ left r₁ := by
      refine ⟨hread, hgrouped, htight, ?_⟩
      intro u r₃ hu op hop
      rw [hnext] at hu
      obtain ⟨hu, -⟩ := Prod.mk.inj hu
      exact hlow op (Except.ok.inj hu ▸ hop)
    generalize hop : binaryOp? t.kind = o at h
    split at h
    · obtain ⟨rfl, rfl⟩ := pure_ok_iff.1 h
      exact hdone (by simp [hop])
    · rename_i op
      split at h
      · rename_i hlow
        obtain ⟨rfl, rfl⟩ := pure_ok_iff.1 h
        refine hdone ?_
        intro op' hop'
        rw [hop] at hop'
        cases hop'
        exact hlow
      · rename_i hhigh
        obtain ⟨u, r₃, hu, h⟩ := bind_ok_iff.1 h
        obtain ⟨right, r₄, hright, h⟩ := bind_ok_iff.1 h
        obtain ⟨rfl, rfl⟩ := next_ok_unique hnext hu
        have hexpr := hg.expr hright
        have hne : op.kind ≠ .eof := by cases op <;> simp [BinaryOp.kind]
        have hmark := (stretch_of_next hu (eq_kind_of_binaryOp hop) hne).between
        have hleft : ∀ o ∈ left.operator?, op.precedence ≤ o.precedence := by
          intro o ho
          have hlt := ((hstops o ho).of_same hlook) u r₃ hnext op hop
          omega
        have hnode : Between r₀ [(Expr.binary op left right (left.span.join right.span)).phrase] r₄ :=
          (hread.stretch.join hmark hexpr.between.stretch).node
        refine ih hnode ?_ ?_ ?_ h
        · simpa [Expr.Grouped, Expr.exprs, Expr.IsGrouped] using ⟨⟨hleft, hexpr.tight⟩, hgrouped, hexpr.grouped⟩
        · intro o ho
          cases ho
          omega
        · intro o ho
          cases ho
          exact hexpr.stops

/-- An expression is read up to where no operator binds as tightly as its bound. -/
theorem exprStep_ok (hg : g.Reads) {least : Nat} {e : Expr} (h : exprStep g least r = .ok e r') : ReadsExpr least r e r' := by
  obtain ⟨left, r₁, hleft, h⟩ := bind_ok_iff.1 h
  obtain ⟨hbetween, hgrouped, hno⟩ := writes_unary hg _ _ _ hleft
  exact climb_ok hg _ hbetween hgrouped (by simp [hno]) (by simp [hno]) h

/-! ## Statements -/

/-- The generic parameters of a function are written. -/
theorem writes_generics : Writes generics genericPhrases fun _ => True := by
  intro r gs r' hr
  refine ⟨?_, trivial⟩
  obtain ⟨b, r₁, hb, hr⟩ := bind_ok_iff.1 hr
  rcases accept_ok rfl hb with ⟨rfl, t, ht, hlt⟩ | ⟨rfl, hsame⟩
  · obtain ⟨names, r₂, hnames, hr⟩ := bind_ok_iff.1 hr
    obtain ⟨c, r₃, hc, hr⟩ := bind_ok_iff.1 hr
    obtain ⟨rfl, rfl⟩ := pure_ok_iff.1 hr
    obtain ⟨hbetween, hne, -⟩ := writes_bounded (writes_commaSeparated writes_expectName) _ _ _ hnames
    have hlist := ((Stretch.token ht hlt).between.trans hbetween).trans (stretch_of_expect rfl hc).between
    simpa [genericPhrases, hne] using hlist
  · obtain ⟨rfl, rfl⟩ := pure_ok_iff.1 hr
    exact .of_same hsame

/-- A function definition is written, and its body is grouped. -/
theorem writes_functionDef (hg : g.Reads) : Writes (functionDef g) Stmt.phrases fun s => AllGrouped (stmtExprs s) := by
  intro r s r' hr
  obtain ⟨t, r₁, ht, hr⟩ := bind_ok_iff.1 hr
  obtain ⟨gs, r₂, hgs, hr⟩ := bind_ok_iff.1 hr
  obtain ⟨n, r₃, hn, hr⟩ := bind_ok_iff.1 hr
  obtain ⟨⟨ps, close⟩, r₄, hps, hr⟩ := bind_ok_iff.1 hr
  obtain ⟨ret, r₅, hret, hr⟩ := bind_ok_iff.1 hr
  obtain ⟨body, r₆, hbody, hr⟩ := bind_ok_iff.1 hr
  obtain ⟨rfl, rfl⟩ := pure_ok_iff.1 hr
  obtain ⟨hblock, hgrouped⟩ := writes_block hg _ _ _ hbody
  refine ⟨?_, by simpa [stmtExprs] using hgrouped⟩
  have hhead := (writes_generics _ _ _ hgs).1.trans (writes_expectName _ _ _ hn).1
  have hsignature := (writes_params _ _ _ hps).1.trans (Grammar.writes_returnAnnotation _ _ _ hret).1
  simpa [Stmt.phrases, Expr.stmtParts, Block.phrase] using
    ((stretch_of_expect rfl ht).join (hhead.trans hsignature) hblock.stretch).node

/-- A method is written, and its body is grouped. -/
theorem writes_method (hg : g.Reads) : Writes (method g) (fun m => [m.phrase]) fun m => AllGrouped (blockExprs m.body) := by
  intro r s r' hr
  obtain ⟨t, r₁, ht, hr⟩ := bind_ok_iff.1 hr
  obtain ⟨n, r₂, hn, hr⟩ := bind_ok_iff.1 hr
  obtain ⟨⟨ps, close⟩, r₃, hps, hr⟩ := bind_ok_iff.1 hr
  obtain ⟨ret, r₄, hret, hr⟩ := bind_ok_iff.1 hr
  obtain ⟨body, r₅, hbody, hr⟩ := bind_ok_iff.1 hr
  obtain ⟨rfl, rfl⟩ := pure_ok_iff.1 hr
  obtain ⟨hblock, hgrouped⟩ := writes_block hg _ _ _ hbody
  refine ⟨?_, hgrouped⟩
  have hsignature := (writes_params _ _ _ hps).1.trans (Grammar.writes_returnAnnotation _ _ _ hret).1
  simpa [Method.phrase, Block.phrase] using
    ((stretch_of_expect rfl ht).join ((writes_expectName _ _ _ hn).1.trans hsignature) hblock.stretch).node

/-- The next method of an implementation, if there is one, is written and grouped. -/
theorem writes_methodItem (hg : g.Reads) :
    Writes (methodItem g) (fun o => o.elim [] fun m => [m.phrase]) fun o => ∀ m ∈ o, AllGrouped (blockExprs m.body) := by
  intro r o r' hr
  obtain ⟨c, r₁, hc, hr⟩ := bind_ok_iff.1 hr
  obtain ⟨hlook, -⟩ := check_ok hc
  cases c with
  | true =>
    obtain ⟨rfl, rfl⟩ := pure_ok_iff.1 hr
    exact ⟨.of_same hlook, by simp⟩
  | false =>
    obtain ⟨m, r₂, hm, hr⟩ := bind_ok_iff.1 hr
    obtain ⟨rfl, rfl⟩ := pure_ok_iff.1 hr
    obtain ⟨hmethod, hgrouped⟩ := writes_method hg _ _ _ hm
    exact ⟨(Between.of_same hlook).trans hmethod, by simpa using hgrouped⟩

/-- The expressions of an implementation are grouped. -/
abbrev GroupedImplementation (i : Implementation) : Prop := ∀ m ∈ i.methods, AllGrouped (blockExprs m.body)

/-- An implementation is written, and its methods are grouped. -/
theorem writes_implementation (hg : g.Reads) : Writes (implementation g) (fun i => [i.phrase]) GroupedImplementation := by
  intro r i r' hr
  obtain ⟨t, r₁, ht, hr⟩ := bind_ok_iff.1 hr
  obtain ⟨n, r₂, hn, hr⟩ := bind_ok_iff.1 hr
  obtain ⟨u, r₃, hu, hr⟩ := bind_ok_iff.1 hr
  obtain ⟨ms, r₄, hms, hr⟩ := bind_ok_iff.1 hr
  obtain ⟨c, r₅, hc, hr⟩ := bind_ok_iff.1 hr
  obtain ⟨rfl, rfl⟩ := pure_ok_iff.1 hr
  obtain ⟨hmethods, hgrouped⟩ := writes_bounded (writes_many (writes_methodItem hg)) _ _ _ hms
  refine ⟨?_, hgrouped⟩
  have hhead := (writes_expectName _ _ _ hn).1.trans (stretch_of_expect rfl hu).between
  simpa [Implementation.phrase, List.map_eq_flatMap] using
    ((stretch_of_expect rfl ht).join (hhead.trans hmethods) (stretch_of_expect rfl hc)).node

/-- The next implementation of a record, if there is one, is written and grouped. -/
theorem writes_implementationItem (hg : g.Reads) :
    Writes (implementationItem g) (fun o => o.elim [] fun i => [i.phrase]) fun o => ∀ i ∈ o, GroupedImplementation i := by
  intro r o r' hr
  obtain ⟨c, r₁, hc, hr⟩ := bind_ok_iff.1 hr
  obtain ⟨hlook, -⟩ := check_ok hc
  cases c with
  | true =>
    obtain ⟨i, r₂, hi, hr⟩ := bind_ok_iff.1 hr
    obtain ⟨rfl, rfl⟩ := pure_ok_iff.1 hr
    obtain ⟨himpl, hgrouped⟩ := writes_implementation hg _ _ _ hi
    exact ⟨(Between.of_same hlook).trans himpl, by simpa using hgrouped⟩
  | false =>
    obtain ⟨rfl, rfl⟩ := pure_ok_iff.1 hr
    exact ⟨.of_same hlook, by simp⟩

/-- A record ends with its semicolon, or else with its last implementation, or else with its fields. -/
theorem recordEnd_ok {s close : Span} {ps qs : List Phrase} {is : List Implementation} {stop : Nat} {r₀ r₁ r₂ : Reader}
    (hfirst : Stretch r₀ s ps r₁) (hm : Between r₁ qs r₂) {rc : Reader} (hclose : Stretch r₂ close [.mark .rparen] rc)
    (his : Between rc (is.map Implementation.phrase) r) (h : recordEnd close is r = .ok stop r') :
    Between r₀ [.node ⟨s.start, stop⟩ (ps ++ qs ++ .mark .rparen :: is.map Implementation.phrase ++ [.optional .semi])] r' := by
  obtain ⟨t, r₃, ht, h⟩ := bind_ok_iff.1 h
  obtain ⟨hlook, r₄, hnext⟩ := peek_ok ht
  have hbefore := hm.trans (hclose.between.trans his)
  generalize hk : t.kind = k at h
  split at h
  · obtain ⟨u, r₅, hu, h⟩ := bind_ok_iff.1 h
    obtain ⟨rfl, rfl⟩ := pure_ok_iff.1 h
    obtain ⟨rfl, rfl⟩ := next_ok_unique hnext hu
    have hsemi : Stretch r u.span [.optional .semi] r₅ :=
      (Stretch.slot (u := .optional (.mark .semi)) (.inl (by rw [hk])) (.single hnext (by simp [hk]))).of_same hlook
    simpa using (hfirst.ends hbefore hsemi).node
  · obtain ⟨rfl, rfl⟩ := pure_ok_iff.1 h
    rcases is.eq_nil_or_concat with rfl | ⟨init, last, rfl⟩
    · obtain ⟨ts, hreads, hspells⟩ := his
      cases hspells
      simpa using (((hfirst.ends hm hclose).then_same hreads).missing hlook .semi).node
    · rw [List.concat_eq_append, List.map_append] at his
      obtain ⟨r₅, hinit, hlast⟩ := his.of_append
      have hrest := hm.trans (hclose.between.trans hinit)
      simpa [Implementation.phrase] using ((hfirst.ends hrest hlast.stretch).missing hlook .semi).node

/-- A record is written, and its methods are grouped. -/
theorem writes_recordDef (hg : g.Reads) : Writes (recordDef g) Stmt.phrases fun s => AllGrouped (stmtExprs s) := by
  intro r s r' hr
  obtain ⟨t, r₁, ht, hr⟩ := bind_ok_iff.1 hr
  obtain ⟨n, r₂, hn, hr⟩ := bind_ok_iff.1 hr
  obtain ⟨⟨ps, close⟩, r₃, hps, hr⟩ := bind_ok_iff.1 hr
  obtain ⟨is, r₄, his, hr⟩ := bind_ok_iff.1 hr
  obtain ⟨stop, r₅, hstop, hr⟩ := bind_ok_iff.1 hr
  obtain ⟨rfl, rfl⟩ := pure_ok_iff.1 hr
  obtain ⟨rp, hfields, hclose⟩ := params_ok hps
  obtain ⟨himpls, hgrouped⟩ := writes_bounded (writes_many (writes_implementationItem hg)) _ _ _ his
  refine ⟨?_, by simpa [stmtExprs] using hgrouped⟩
  simp only [← List.map_eq_flatMap] at himpls
  have hhead := (writes_expectName _ _ _ hn).1.trans hfields
  simpa [Stmt.phrases, Expr.stmtParts, Param.phrasesOf] using
    recordEnd_ok (stretch_of_expect rfl ht) hhead hclose himpls hstop

/-- A variable definition is written, and its value is grouped. -/
theorem writes_define (hg : g.Reads) : Writes (define g) Stmt.phrases fun s => AllGrouped (stmtExprs s) := by
  intro r s r' hr
  obtain ⟨t, r₁, ht, hr⟩ := bind_ok_iff.1 hr
  obtain ⟨n, r₂, hn, hr⟩ := bind_ok_iff.1 hr
  obtain ⟨ty, r₃, hty, hr⟩ := bind_ok_iff.1 hr
  obtain ⟨u, r₄, hu, hr⟩ := bind_ok_iff.1 hr
  obtain ⟨value, r₅, hvalue, hr⟩ := bind_ok_iff.1 hr
  obtain ⟨c, r₆, hc, hr⟩ := bind_ok_iff.1 hr
  obtain ⟨rfl, rfl⟩ := pure_ok_iff.1 hr
  have hexpr := hg.expr hvalue
  refine ⟨?_, by simpa [stmtExprs, Expr.Grouped] using hexpr.grouped⟩
  have hannotation : Between r₂ (Gradual.Annotation.phrasesAfter .colon ty) r₃ := by
    obtain ⟨b, r₇, hb, hty⟩ := bind_ok_iff.1 hty
    rcases accept_ok rfl hb with ⟨rfl, k, hk, hcolon⟩ | ⟨rfl, hsame⟩
    · obtain ⟨a, r₈, ha, hty⟩ := bind_ok_iff.1 hty
      obtain ⟨rfl, rfl⟩ := pure_ok_iff.1 hty
      exact (Stretch.token hk hcolon).between.trans (Grammar.writes_annotation _ _ _ ha).1
    · obtain ⟨rfl, rfl⟩ := pure_ok_iff.1 hty
      exact .of_same hsame
  have hhead := (writes_expectName _ _ _ hn).1.trans hannotation
  have hbody := (stretch_of_expect rfl hu).between.trans hexpr.between
  simpa [Stmt.phrases, Expr.stmtParts, Expr.phrase] using
    ((stretch_of_expect rfl ht).join (hhead.trans hbody) (stretch_of_expect rfl hc)).node

/-- A statement is written and grouped, whichever token it begins with. -/
theorem writes_stmtStep (hg : g.Reads) : Writes (stmtStep g) Stmt.phrases fun s => AllGrouped (stmtExprs s) := by
  intro r s r' hr
  obtain ⟨t, r₁, ht, hr⟩ := bind_ok_iff.1 hr
  obtain ⟨hlook, -⟩ := peek_ok ht
  suffices h : Between r₁ s.phrases r' ∧ AllGrouped (stmtExprs s) from ⟨(Between.of_same hlook).trans h.1, h.2⟩
  generalize t.kind = k at hr
  split at hr
  · exact writes_functionDef hg _ _ _ hr
  · exact writes_recordDef hg _ _ _ hr
  · exact writes_define hg _ _ _ hr
  · obtain ⟨e, r₂, he, hr⟩ := bind_ok_iff.1 hr
    obtain ⟨b, r₃, hb, hr⟩ := bind_ok_iff.1 hr
    obtain ⟨rfl, rfl⟩ := pure_ok_iff.1 hr
    have hexpr := exprStep_ok hg he
    refine ⟨?_, by simpa [stmtExprs, Expr.Grouped] using hexpr.grouped⟩
    simpa [Stmt.phrases, Expr.stmtParts, Expr.phrase] using hexpr.between.trans (.optional hb)

/-! ## The grammar nested at most so deep -/

/-- The grammar nested so deep reads what it should, by induction on the depth. -/
theorem reads_within (n : Nat) : (Nested.within n).Reads := by
  induction n with
  | zero =>
    refine ⟨?_, ?_, ?_⟩
    · intro least r e r' h
      exact absurd h tooDeep_ne_ok
    · intro r e r' h
      exact absurd h tooDeep_ne_ok
    · intro r s r' h
      exact absurd h tooDeep_ne_ok
  | succ n ih =>
    refine ⟨?_, ?_, ?_⟩
    · intro least r e r' h
      exact exprStep_ok ih h
    · intro r e r' h
      exact writes_unary ih r e r' h
    · exact writes_stmtStep ih

/-- A statement is written and grouped. -/
theorem writes_stmt : Writes stmt Stmt.phrases fun s => AllGrouped (stmtExprs s) := writes_bounded fun n => (reads_within n).stmt

end Grammar

end Gradual
