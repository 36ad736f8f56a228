import Mathlib
import Gradual.Grammar.Program
import Gradual.Proofs.Grammar.Expr

/-!
# What the grammar of programs reads

A program is written by the tokens of its text, all of them and in their order (`parse_reads`). So the tree can be compared with
the text: it is written with exactly those tokens, and its operators are grouped by their precedence
(`yield_and_grouping_of_parse`).
-/

namespace Gradual

open Reader (Reads)
open Gradual.Expr (AllGrouped stmtExprs)

namespace Grammar

open Gradual.Parser

/-- A further name of an import path is written after a dot. -/
theorem writes_pathItem : Writes pathItem (fun o => o.elim [] fun n => [.mark .dot, .name n]) fun o => ∀ n ∈ o, True := by
  intro r o r' hr
  obtain ⟨b, r₁, hb, hr⟩ := bind_ok_iff.1 hr
  rcases accept_ok rfl hb with ⟨rfl, t, ht, hdot⟩ | ⟨rfl, hsame⟩
  · obtain ⟨n, r₂, hn, hr⟩ := bind_ok_iff.1 hr
    obtain ⟨rfl, rfl⟩ := pure_ok_iff.1 hr
    exact ⟨(Stretch.token ht hdot).between.trans (writes_expectName _ _ _ hn).1, by simp⟩
  · obtain ⟨rfl, rfl⟩ := pure_ok_iff.1 hr
    exact ⟨.of_same hsame, by simp⟩

/-- Names with a dot before each but the first. -/
theorem intersperse_dots (n : String) (ns : List String) :
    ((n :: ns).map Phrase.name).intersperse (.mark .dot) = .name n :: ns.flatMap fun m => [.mark .dot, .name m] := by
  induction ns generalizing n with
  | nil => rfl
  | cons m ns ih => simpa using ih m

/-- An import is written, and its path is not empty. -/
theorem writes_importDef : Writes importDef (fun i => [i.phrase]) fun i => i.path ≠ [] := by
  intro r i r' hr
  obtain ⟨t, r₁, ht, hr⟩ := bind_ok_iff.1 hr
  obtain ⟨n, r₂, hn, hr⟩ := bind_ok_iff.1 hr
  obtain ⟨ns, r₃, hns, hr⟩ := bind_ok_iff.1 hr
  obtain ⟨c, r₄, hc, hr⟩ := bind_ok_iff.1 hr
  obtain ⟨rfl, rfl⟩ := pure_ok_iff.1 hr
  have hothers := (writes_bounded (writes_many writes_pathItem) _ _ _ hns).1
  have hpath := (writes_expectName _ _ _ hn).1.trans hothers
  refine ⟨?_, by simp⟩
  simp only [Import.phrase, intersperse_dots]
  exact ((stretch_of_expect rfl ht).join hpath (stretch_of_expect rfl hc)).node

/-- The next import, if there is one, is written, and has a path. -/
theorem writes_importItem : Writes importItem (fun o => o.elim [] fun i => [i.phrase]) fun o => ∀ i ∈ o, i.path ≠ [] := by
  intro r o r' hr
  obtain ⟨c, r₁, hc, hr⟩ := bind_ok_iff.1 hr
  obtain ⟨hlook, -⟩ := check_ok hc
  cases c with
  | true =>
    obtain ⟨i, r₂, hi, hr⟩ := bind_ok_iff.1 hr
    obtain ⟨rfl, rfl⟩ := pure_ok_iff.1 hr
    obtain ⟨himport, hpath⟩ := writes_importDef _ _ _ hi
    exact ⟨(Between.of_same hlook).trans himport, by simpa using hpath⟩
  | false =>
    obtain ⟨rfl, rfl⟩ := pure_ok_iff.1 hr
    exact ⟨.of_same hlook, by simp⟩

/-- The next statement, if there is one, is written and grouped. -/
theorem writes_stmtItem : Writes stmtItem (fun o => o.elim [] Stmt.phrases) fun o => ∀ s ∈ o, AllGrouped (stmtExprs s) := by
  intro r o r' hr
  obtain ⟨c, r₁, hc, hr⟩ := bind_ok_iff.1 hr
  obtain ⟨hlook, -⟩ := check_ok hc
  cases c with
  | true =>
    obtain ⟨rfl, rfl⟩ := pure_ok_iff.1 hr
    exact ⟨.of_same hlook, by simp⟩
  | false =>
    obtain ⟨s, r₂, hs, hr⟩ := bind_ok_iff.1 hr
    obtain ⟨rfl, rfl⟩ := pure_ok_iff.1 hr
    obtain ⟨hstmt, hgrouped⟩ := writes_stmt _ _ _ hs
    exact ⟨(Between.of_same hlook).trans hstmt, by simpa using hgrouped⟩

/-- Statements are read up to the end of the text. -/
theorem stmtItem_none {r r' : Reader} (h : stmtItem r = .ok none r') : ∃ t r₁, r'.next = (.ok t, r₁) ∧ t.kind = .eof := by
  obtain ⟨c, r₁, hc, h⟩ := bind_ok_iff.1 h
  obtain ⟨-, t, r₂, ht, hlike⟩ := check_ok hc
  cases c with
  | true =>
    obtain ⟨-, rfl⟩ := pure_ok_iff.1 h
    exact ⟨t, r₂, ht, Kind.isLike_eof_iff.1 hlike.symm⟩
  | false =>
    obtain ⟨s, r₃, hs, h⟩ := bind_ok_iff.1 h
    cases (pure_ok_iff.1 h).1

/-- What a program is, read from a reader: it is written by what lies ahead, up to the end of the text, and stands from the first
token to the end of the text. -/
theorem program_ok {r r' : Reader} {p : Program} (h : program r = .ok p r') :
    (∃ r₁ t r₂, Between r p.phrases r₁ ∧ r₁.next = (.ok t, r₂) ∧ t.kind = .eof ∧
        ∃ u r₃, r.next = (.ok u, r₃) ∧ p.span = ⟨u.span.start, t.span.stop⟩) ∧
      AllGrouped p.exprs ∧ ∀ i ∈ p.imports, i.path ≠ [] := by
  obtain ⟨t, r₁, ht, h⟩ := bind_ok_iff.1 h
  obtain ⟨is, r₂, his, h⟩ := bind_ok_iff.1 h
  obtain ⟨ss, r₃, hss, h⟩ := bind_ok_iff.1 h
  obtain ⟨u, r₄, hu, h⟩ := bind_ok_iff.1 h
  obtain ⟨rfl, rfl⟩ := pure_ok_iff.1 h
  obtain ⟨himports, hpaths⟩ := writes_bounded (writes_many writes_importItem) _ _ _ his
  obtain ⟨hstmts, hgrouped⟩ := writes_bounded (writes_many writes_stmtItem) _ _ _ hss
  obtain ⟨r₅, hlast⟩ := many_ok_last hss
  obtain ⟨c, r₆, hnext, hc⟩ := stmtItem_none hlast
  obtain ⟨hfirst, r₇, htnext⟩ := peek_ok ht
  obtain ⟨hend, r₈, hunext⟩ := peek_ok hu
  obtain ⟨rfl, -⟩ := next_ok_unique hnext (next_ok_iff.2 (hend.next_eq ▸ hunext))
  refine ⟨⟨r₃, u, r₆, ?_, hnext, hc, t, r₇, hfirst.next_eq ▸ htnext, rfl⟩, ?_, hpaths⟩
  · have hall := (Between.of_same hfirst).trans (himports.trans hstmts)
    simpa [Program.phrases, List.map_eq_flatMap] using hall
  · simpa [Program.exprs] using hgrouped

end Grammar

/-- The tokens of a text that is a program write the program, and the end of the text follows. -/
theorem parse_reads {source : String} {p : Program} (h : parse source = .ok p) :
    (∃ ts t, tokenize source = .ok (ts ++ [t]) ∧ t.kind = .eof ∧ Spells p.phrases ts) ∧
      AllGrouped p.exprs ∧ ∀ i ∈ p.imports, i.path ≠ [] := by
  unfold parse at h
  split at h
  · rename_i q r' hq
    cases h
    obtain ⟨⟨r₁, t, r₂, ⟨ts, hreads, hspells⟩, hnext, ht, -⟩, hrest⟩ := Grammar.program_ok hq
    refine ⟨⟨ts, t, ?_, ht, hspells⟩, hrest⟩
    rw [tokenize, hreads.drain, Reader.drain_of_next hnext, if_pos ht]
    rfl
  · cases h

/-- Reading takes every token of a text, in order and once, and groups the operators. The tokens of a text that is a program are
those that the tree is written with, in the order of the tree, but for the optional ones and the keyword `nil` as a type; the end
of the text follows them. In the tree, operators group by precedence and to the left, a leading operator takes no operator between
operands, and no member, key or method is asked of an operation. -/
theorem yield_and_grouping_of_parse {source : String} {p : Program} (h : parse source = .ok p) :
    (∃ ts t, tokenize source = .ok (ts ++ [t]) ∧ t.kind = .eof ∧ Slot.Trims p.slots (ts.map (·.kind)) p.yield) ∧
      ∀ e ∈ p.exprs, e.IsGrouped := by
  obtain ⟨⟨ts, t, htokens, ht, hspells⟩, hgrouped, -⟩ := parse_reads h
  exact ⟨⟨ts, t, htokens, ht, hspells.trims⟩, hgrouped⟩

/-- A definition whose type is written with the keyword `nil`. The second operand of its value binds tighter than the operator
before it, and ends with a comma that means nothing. -/
def nilDefinition : Program :=
  ⟨[], [.define "x" (some (.named "Nil" [] ⟨7, 10⟩))
    (.binary .add (.unary .neg (.name "a" ⟨14, 15⟩) ⟨13, 15⟩)
      (.binary .mul (.name "b" ⟨18, 19⟩) (.vector [.name "c" ⟨23, 24⟩] ⟨22, 26⟩) ⟨18, 26⟩) ⟨13, 26⟩) ⟨0, 27⟩], ⟨0, 27⟩⟩

/-- The text is read as the definition, and takes each of its tokens once. -/
theorem nilDefinition_yield :
    parse "def x: nil = -a + b * [c,];" = .ok nilDefinition ∧
      (∃ ts t, tokenize "def x: nil = -a + b * [c,];" = .ok (ts ++ [t]) ∧ t.kind = .eof ∧
        Slot.Trims nilDefinition.slots (ts.map (·.kind)) nilDefinition.yield) ∧ ∀ e ∈ nilDefinition.exprs, e.IsGrouped := by
  have hparse : parse "def x: nil = -a + b * [c,];" = .ok nilDefinition := by cbv
  exact ⟨hparse, yield_and_grouping_of_parse hparse⟩

end Gradual
