import Gradual.Grammar.Annotation
import Gradual.Proofs.Grammar.Parser

/-!
# What the grammar of annotations reads

Every production writes what it yields. The proofs follow the productions from top to bottom: the first token, what stands
between, and the last token or the last part, which together give the span of the node.
-/

namespace Gradual.Grammar

open Gradual.Parser

/-- An annotation is written when those inside it are. -/
theorem writes_annotationStep {self : Parser Annotation} (h : Writes self (fun a => [a.phrase]) fun _ => True) :
    Writes (annotationStep self) (fun a => [a.phrase]) fun _ => True := by
  intro r a r' hr
  refine ⟨?_, trivial⟩
  obtain ⟨t, r₁, ht, hr⟩ := bind_ok_iff.1 hr
  generalize hk : t.kind = k at hr
  split at hr
  · obtain ⟨ps, r₂, hps, hr⟩ := bind_ok_iff.1 hr
    obtain ⟨c, r₃, hc, hr⟩ := bind_ok_iff.1 hr
    obtain ⟨u, r₄, hu, hr⟩ := bind_ok_iff.1 hr
    obtain ⟨ret, r₅, hret, hr⟩ := bind_ok_iff.1 hr
    obtain ⟨rfl, rfl⟩ := pure_ok_iff.1 hr
    have hfirst := stretch_of_next ht hk (by simp)
    have hparams := (writes_bounded (writes_listUntil h) _ _ _ hps).1
    have hmarks := (stretch_of_expect rfl hc).between.trans (stretch_of_expect rfl hu).between
    simpa [Gradual.Annotation.phrase, Annotation.parts, Annotation.span] using
      (hfirst.join (hparams.trans hmarks) (h _ _ _ hret).1.stretch).node
  · rename_i n
    obtain ⟨b, r₂, hb, hr⟩ := bind_ok_iff.1 hr
    rcases accept_ok rfl hb with ⟨rfl, u, hu, hlt⟩ | ⟨rfl, hsame⟩
    · obtain ⟨args, r₃, hargs, hr⟩ := bind_ok_iff.1 hr
      obtain ⟨c, r₄, hc, hr⟩ := bind_ok_iff.1 hr
      obtain ⟨rfl, rfl⟩ := pure_ok_iff.1 hr
      obtain ⟨hbetween, hne, -⟩ := writes_bounded (writes_commaSeparated h) _ _ _ hargs
      obtain ⟨a, as, rfl⟩ := List.exists_cons_of_ne_nil hne
      have hfirst := stretch_of_next ht hk (by simp)
      have hopen := (Stretch.token hu hlt).between
      simpa [Gradual.Annotation.phrase, Annotation.parts, Annotation.span] using
        (hfirst.join (hopen.trans hbetween) (stretch_of_expect rfl hc)).node
    · obtain ⟨rfl, rfl⟩ := pure_ok_iff.1 hr
      have hread := (Reader.Reads.single (next_ok_iff.1 ht) (by simp [hk])).trans hsame
      exact (Stretch.slot (u := .typeName n) (.inl (by rw [hk])) hread).node
  · obtain ⟨rfl, rfl⟩ := pure_ok_iff.1 hr
    have hread := Reader.Reads.single (next_ok_iff.1 ht) (by simp [hk])
    exact (Stretch.slot (u := .typeName "Nil") (.inr ⟨rfl, by rw [hk]⟩) hread).node
  · exact absurd hr throw_ne_ok

/-- An annotation nested so deep is written. -/
theorem writes_annotationWithin (n : Nat) : Writes (annotationWithin n) (fun a => [a.phrase]) fun _ => True := by
  induction n with
  | zero =>
    intro r a r' hr
    exact absurd hr tooDeep_ne_ok
  | succ n ih => exact writes_annotationStep ih

/-- An annotation is written. -/
theorem writes_annotation : Writes annotation (fun a => [a.phrase]) fun _ => True := writes_bounded writes_annotationWithin

/-- A parameter is written with its annotation. -/
theorem writes_param : Writes param (fun p => [p.phrase]) fun _ => True := by
  intro r p r' hr
  obtain ⟨t, r₁, ht, hr⟩ := bind_ok_iff.1 hr
  obtain ⟨n, r₂, hn, hr⟩ := bind_ok_iff.1 hr
  obtain ⟨c, r₃, hc, hr⟩ := bind_ok_iff.1 hr
  obtain ⟨ty, r₄, hty, hr⟩ := bind_ok_iff.1 hr
  obtain ⟨rfl, rfl⟩ := pure_ok_iff.1 hr
  have hname := stretch_of_name ht hn
  exact ⟨(hname.join (stretch_of_expect rfl hc).between (Grammar.writes_annotation _ _ _ hty).1.stretch).node, trivial⟩

/-- Parameters in parentheses are written so, up to the closing one. -/
theorem params_ok {r r' : Reader} {ps : List Param} {close : Span} (h : params r = .ok (ps, close) r') :
    ∃ r₁, Between r (.mark .lparen :: Phrase.listed (ps.map Param.phrase)) r₁ ∧ Stretch r₁ close [.mark .rparen] r' := by
  obtain ⟨t, r₁, ht, h⟩ := bind_ok_iff.1 h
  obtain ⟨qs, r₂, hqs, h⟩ := bind_ok_iff.1 h
  obtain ⟨c, r₃, hc, h⟩ := bind_ok_iff.1 h
  obtain ⟨heq, rfl⟩ := pure_ok_iff.1 h
  obtain ⟨rfl, rfl⟩ := Prod.mk.inj heq
  have hopen := (stretch_of_expect rfl ht).between
  exact ⟨r₂, hopen.trans (writes_bounded (writes_listUntil writes_param) _ _ _ hqs).1, stretch_of_expect rfl hc⟩

/-- Parameters are written in parentheses, with commas in between. -/
theorem writes_params : Writes params (fun x => Param.phrasesOf x.1) fun _ => True := by
  intro r x r' h
  obtain ⟨r₁, hps, hclose⟩ := params_ok h
  exact ⟨hps.trans hclose.between, trivial⟩

/-- A parameter of a lambda is written, with its annotation if it has one. -/
theorem writes_lambdaParam : Writes lambdaParam (fun p => [p.phrase]) fun _ => True := by
  intro r p r' hr
  obtain ⟨t, r₁, ht, hr⟩ := bind_ok_iff.1 hr
  obtain ⟨n, r₂, hn, hr⟩ := bind_ok_iff.1 hr
  obtain ⟨b, r₃, hb, hr⟩ := bind_ok_iff.1 hr
  have hname := stretch_of_name ht hn
  rcases accept_ok rfl hb with ⟨rfl, c, hc, hcolon⟩ | ⟨rfl, hsame⟩
  · obtain ⟨ty, r₄, hty, hr⟩ := bind_ok_iff.1 hr
    obtain ⟨rfl, rfl⟩ := pure_ok_iff.1 hr
    exact ⟨(hname.join (Stretch.token hc hcolon).between (Grammar.writes_annotation _ _ _ hty).1.stretch).node, trivial⟩
  · obtain ⟨rfl, rfl⟩ := pure_ok_iff.1 hr
    exact ⟨(hname.then_same hsame).node, trivial⟩

/-- The annotation of a result is written after an arrow, if there is one. -/
theorem writes_returnAnnotation : Writes returnAnnotation (Gradual.Annotation.phrasesAfter .arrow) fun _ => True := by
  intro r o r' hr
  obtain ⟨b, r₁, hb, hr⟩ := bind_ok_iff.1 hr
  rcases accept_ok rfl hb with ⟨rfl, t, ht, harrow⟩ | ⟨rfl, hsame⟩
  · obtain ⟨ty, r₂, hty, hr⟩ := bind_ok_iff.1 hr
    obtain ⟨rfl, rfl⟩ := pure_ok_iff.1 hr
    exact ⟨(Stretch.token ht harrow).between.trans (Grammar.writes_annotation _ _ _ hty).1, trivial⟩
  · obtain ⟨rfl, rfl⟩ := pure_ok_iff.1 hr
    exact ⟨.of_same hsame, trivial⟩

end Gradual.Grammar
