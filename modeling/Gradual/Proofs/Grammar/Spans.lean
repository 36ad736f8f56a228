import Mathlib
import Gradual.Proofs.Grammar.Program
import Gradual.Proofs.Token.Tiling
import Gradual.Proofs.Tree.Nodes

/-!
# Where the nodes of a tree stand

The tokens of a text are laid out one after the other (`Laid`), and a node stands from the start of the first to the end of the
last of the tokens that write it. The nodes among its parts are written by tokens of theirs, in order, so they are laid out
between the ends of the node (`Spells.laid`). This holds of every node below a program, from the root down, and says all there is
to say of the spans of a tree: they nest, and those of siblings increase (`spans_nested`).
-/

namespace Gradual

/-- A span that lies in another. -/
def Span.Within (s outer : Span) : Prop := outer.start ≤ s.start ∧ s.stop ≤ outer.stop

/-- A span that ends before another begins, and begins before it. -/
def Span.Precedes (s s' : Span) : Prop := s.stop ≤ s'.start ∧ s.start < s'.start

/-- A node that stands in a text with these tokens as it should: from the start of a token to the end of one, around its children,
which follow each other in the order of the text. -/
structure Node.Stands (source : String) (ts : List Token) (n : Node) : Prop where
  ordered : n.span.start ≤ n.span.stop
  bounded : n.span.stop ≤ source.utf8ByteSize
  start : ∃ t ∈ ts, t.span.start = n.span.start
  stop : ∃ t ∈ ts, t.span.stop = n.span.stop
  nested : ∀ c ∈ n.children, c.span.Within n.span
  increasing : n.children.Pairwise fun a b => a.span.Precedes b.span

/-! ## Spans laid out between two offsets -/

/-- Spans that are not empty and follow each other, between two offsets. -/
def Laid : Nat → List Span → Nat → Prop
  | k, [], m => k ≤ m
  | k, s :: ss, m => k ≤ s.start ∧ s.start < s.stop ∧ Laid s.stop ss m

namespace Laid

variable {k l m : Nat} {s : Span} {ss ss' : List Span}

/-- What is laid out ends behind where it starts. -/
theorem le (h : Laid k ss m) : k ≤ m := by
  induction ss generalizing k with
  | nil => exact h
  | cons s ss ih =>
    obtain ⟨hk, hlt, hss⟩ := h
    have := ih hss
    omega

/-- What is laid out behind a place is laid out behind one before it. -/
theorem widen (h : Laid l ss m) (hk : k ≤ l) : Laid k ss m := by
  cases ss with
  | nil => exact Nat.le_trans hk h
  | cons s ss => exact ⟨Nat.le_trans hk h.1, h.2⟩

/-- What is laid out in one stretch and in the next is laid out in both together. -/
theorem append (h : Laid k ss l) (h' : Laid l ss' m) : Laid k (ss ++ ss') m := by
  induction ss generalizing k with
  | nil => exact h'.widen h
  | cons s ss ih => exact ⟨h.1, h.2.1, ih h.2.2⟩

/-- What is laid out can be taken apart anywhere. -/
theorem of_append (h : Laid k (ss ++ ss') m) : ∃ l, Laid k ss l ∧ Laid l ss' m := by
  induction ss generalizing k with
  | nil => exact ⟨k, Nat.le_refl k, h⟩
  | cons s ss ih =>
    obtain ⟨hk, hlt, hrest⟩ := h
    obtain ⟨l, hss, hss'⟩ := ih hrest
    exact ⟨l, ⟨hk, hlt, hss⟩, hss'⟩

/-- Spans that are laid out lie between the offsets. -/
theorem between (h : Laid k ss m) (hs : s ∈ ss) : k ≤ s.start ∧ s.stop ≤ m := by
  induction ss generalizing k with
  | nil => cases hs
  | cons s' ss ih =>
    obtain ⟨hk, hlt, hss⟩ := h
    rcases List.mem_cons.1 hs with rfl | hs
    · exact ⟨hk, hss.le⟩
    · have := ih hss hs
      omega

/-- Of spans that are laid out, each precedes those after it. -/
theorem pairwise (h : Laid k ss m) : ss.Pairwise Span.Precedes := by
  induction ss generalizing k with
  | nil => exact .nil
  | cons s ss ih =>
    obtain ⟨-, hlt, hss⟩ := h
    refine .cons (fun s' hs' => ?_) (ih hss)
    have hle := (hss.between hs').1
    exact ⟨hle, Nat.lt_of_lt_of_le hlt hle⟩

end Laid

/-- Tokens that are laid out. -/
abbrev LaidTokens (k : Nat) (ts : List Token) (m : Nat) : Prop := Laid k (ts.map (·.span)) m

/-- The tokens that tile a text are laid out in it, the end of the text apart. -/
theorem Tiles.laid {k : Nat} {cs : List Char} {ts us : List Token} {t : Token} (h : Tiles k cs ts) (hts : ts = us ++ [t]) :
    LaidTokens k us (k + byteSize cs) ∧ t.span = ⟨k + byteSize cs, k + byteSize cs⟩ := by
  induction h generalizing us with
  | eof hgap =>
    obtain ⟨rfl, ht⟩ := List.append_inj' (show [] ++ [_] = us ++ [t] from hts) rfl
    obtain rfl := List.singleton_inj.1 ht
    exact ⟨Nat.le_add_right _ _, rfl⟩
  | @token k gap text rest kind ts hgap hne hw h ih =>
    have hpos := byteSize_pos hne
    cases us with
    | nil =>
      obtain ⟨-, rfl⟩ := List.cons.inj hts
      cases h
    | cons u us =>
      obtain ⟨rfl, rfl⟩ := List.cons.inj hts
      obtain ⟨hlaid, hspan⟩ := ih rfl
      simp only [byteSize_append, ← Nat.add_assoc] at hlaid hspan ⊢
      exact ⟨⟨Nat.le_add_right _ _, Nat.lt_add_of_pos_right hpos, hlaid⟩, hspan⟩

/-! ## Nodes among tokens that are laid out -/

/-- A span that runs from the start of the first to the end of the last of some tokens that are laid out. -/
structure RunsOver (s : Span) (ts : List Token) : Prop where
  laid : LaidTokens s.start ts s.stop
  nonempty : s.start < s.stop
  first : ∃ t ∈ ts, t.span.start = s.start
  last : ∃ t ∈ ts, t.span.stop = s.stop

/-- A span from the start of some tokens to the end of others after them. -/
theorem RunsOver.ends {s s' : Span} {ts ms us : List Token} (h : RunsOver s ts) (hm : LaidTokens s.stop ms s'.start)
    (h' : RunsOver s' us) : RunsOver ⟨s.start, s'.stop⟩ (ts ++ ms ++ us) := by
  obtain ⟨t, ht, hstart⟩ := h.first
  obtain ⟨u, hu, hstop⟩ := h'.last
  refine ⟨?_, ?_, ⟨t, by simp [ht], hstart⟩, ⟨u, by simp [hu], hstop⟩⟩
  · simp only [LaidTokens, List.map_append]
    exact (h.laid.append hm).append h'.laid
  · have hlt := h.nonempty
    have hlt' := h'.nonempty
    have hle := hm.le
    simp only
    omega

/-- A span that covers tokens that are laid out runs over them: what stands between the first and the last of them is laid out
between the spans that run over those. -/
theorem Covers.runsOver {s : Span} {ts : List Token} (h : Covers s ts) {k m : Nat} (hl : LaidTokens k ts m) :
    RunsOver s ts ∧ k ≤ s.start ∧ s.stop ≤ m := by
  have hends : ∀ {s s' : Span} {ts ms us : List Token} {k m : Nat},
      (∀ {k m : Nat}, LaidTokens k ts m → RunsOver s ts ∧ k ≤ s.start ∧ s.stop ≤ m) →
      (∀ {k m : Nat}, LaidTokens k us m → RunsOver s' us ∧ k ≤ s'.start ∧ s'.stop ≤ m) →
      LaidTokens k (ts ++ ms ++ us) m → (RunsOver ⟨s.start, s'.stop⟩ (ts ++ ms ++ us) ∧ k ≤ s.start ∧ s'.stop ≤ m) ∧
        s.join s' = ⟨s.start, s'.stop⟩ := by
    intro s s' ts ms us k m ih ih' hl
    simp only [LaidTokens, List.map_append] at hl
    obtain ⟨l', hleft, hus⟩ := hl.of_append
    obtain ⟨l, hts, hms⟩ := hleft.of_append
    obtain ⟨hs, hk, hstop⟩ := ih hts
    obtain ⟨hs', hstart', hm⟩ := ih' hus
    have hmiddle : LaidTokens s.stop ms s'.start := by
      have hend : LaidTokens l' [] s'.start := hstart'
      have hlaid := (hms.widen hstop).append hend
      rwa [List.map_nil, List.append_nil] at hlaid
    have hle := hmiddle.le
    have hlt := hs.nonempty
    have hlt' := hs'.nonempty
    refine ⟨⟨hs.ends hmiddle hs', hk, hm⟩, ?_⟩
    simp only [Span.join, Span.mk.injEq]
    omega
  induction h generalizing k m with
  | token t =>
    obtain ⟨hk, hlt, hm⟩ := hl
    exact ⟨⟨⟨Nat.le_refl _, hlt, Nat.le_refl _⟩, hlt, ⟨t, by simp, rfl⟩, ⟨t, by simp, rfl⟩⟩, hk, hm⟩
  | join _ ms _ ih ih' =>
    obtain ⟨hover, hjoin⟩ := hends ih ih' hl
    rw [hjoin]
    exact hover
  | ends _ ms _ ih ih' => exact (hends ih ih' hl).1

/-- The nodes among phrases are laid out as the tokens that write the phrases are. -/
theorem Spells.laid {ps : List Phrase} {ts : List Token} (h : Spells ps ts) {k m : Nat} (hl : LaidTokens k ts m) :
    Laid k ((Phrase.nodes ps).map Phrase.span) m := by
  induction h generalizing k with
  | nil => exact hl
  | slot _ _ ih =>
    rw [LaidTokens, List.map_append] at hl
    obtain ⟨l, hts, hus⟩ := hl.of_append
    exact (ih hus).widen hts.le
  | node hc _ _ _ ih =>
    rw [LaidTokens, List.map_append] at hl
    obtain ⟨l, hts, hus⟩ := hl.of_append
    obtain ⟨hover, hk, hstop⟩ := hc.runsOver hts
    exact ⟨hk, hover.nonempty, (ih hus).widen hstop⟩

/-- Each of some phrases is written by tokens that stand together. -/
theorem Spells.of_mem {p : Phrase} {ps : List Phrase} {ts : List Token} (h : Spells ps ts) (hp : p ∈ ps) :
    ∃ us, us <:+: ts ∧ Spells [p] us := by
  obtain ⟨qs, qs', rfl⟩ := List.append_of_mem hp
  rw [List.append_cons, List.append_assoc] at h
  obtain ⟨vs, ws, rfl, -, hrest⟩ := h.of_append
  obtain ⟨us, ws, rfl, hone, -⟩ := hrest.of_append
  exact ⟨us, ⟨vs, ws, List.append_assoc ..⟩, hone⟩

namespace Node

variable {source : String} {ts us : List Token} {n c : Node}

/-- Children that are the nodes among phrases are laid out as the tokens that write the phrases are. -/
theorem laid_of_nodes {ps : List Phrase} {k m : Nat} (hnodes : Phrase.nodes ps = n.children.map phrase) (hs : Spells ps us)
    (hl : LaidTokens k us m) : Laid k (n.children.map span) m := by
  have hspans : n.children.map span = (n.children.map phrase).map Phrase.span := by
    rw [List.map_map]
    refine List.map_congr_left fun c _ => ?_
    rw [Function.comp_apply, phrase_eq]
    rfl
  rw [hspans, ← hnodes]
  exact hs.laid hl

/-- Each of the children that are the nodes among phrases is written by some of the tokens that write the phrases. -/
theorem spells_of_nodes {ps : List Phrase} (hnodes : Phrase.nodes ps = n.children.map phrase) (hs : Spells ps us)
    (hc : c ∈ n.children) : ∃ vs, vs <:+: us ∧ Spells [c.phrase] vs := by
  have hmem : c.phrase ∈ Phrase.nodes ps := hnodes ▸ List.mem_map_of_mem hc
  exact hs.of_mem (List.mem_filter.1 hmem).1

/-- A child of a node is written by some of the tokens that write the node. -/
theorem spells_child (hs : Spells [n.phrase] us) (hc : c ∈ n.children) : ∃ vs, vs <:+: us ∧ Spells [c.phrase] vs := by
  rcases n.nodes_parts with hnodes | ⟨c', hc', hphrase⟩
  · rw [phrase_eq] at hs
    exact spells_of_nodes hnodes hs.of_one.2 hc
  · rw [hc', List.mem_singleton] at hc
    rw [hc, hphrase]
    exact ⟨us, List.infix_refl us, hs⟩

/-- The children of a node that is written by tokens which it runs over are laid out in it. -/
theorem laid_children (hs : Spells n.phrase.parts us) (hover : RunsOver n.span us) :
    Laid n.span.start (n.children.map span) n.span.stop := by
  rcases n.nodes_parts with hnodes | ⟨c, hc, hphrase⟩
  · exact laid_of_nodes hnodes hs hover.laid
  · have hspan : c.span = n.span := by
      rw [phrase_eq c, phrase_eq n] at hphrase
      exact (Phrase.node.inj hphrase).1
    rw [hc, List.map_singleton, hspan]
    exact ⟨Nat.le_refl _, hover.nonempty, Nat.le_refl _⟩

/-- Children that are laid out in a node nest in it, and increase. -/
theorem Stands.of_laid (h : Laid n.span.start (n.children.map span) n.span.stop) (hle : n.span.stop ≤ source.utf8ByteSize)
    (hstart : ∃ t ∈ ts, t.span.start = n.span.start) (hstop : ∃ t ∈ ts, t.span.stop = n.span.stop) : n.Stands source ts where
  ordered := h.le
  bounded := hle
  start := hstart
  stop := hstop
  nested _ hc := h.between (List.mem_map_of_mem hc)
  increasing := List.pairwise_map.1 h.pairwise

/-- A node that is written by tokens of a text stands in the text as it should. -/
theorem stands_of_spells (hl : LaidTokens 0 ts source.utf8ByteSize) (hus : us <:+: ts) (hs : Spells [n.phrase] us) :
    n.Stands source ts := by
  obtain ⟨vs, ws, rfl⟩ := hus
  simp only [LaidTokens, List.map_append] at hl
  obtain ⟨l, hleft, hws⟩ := hl.of_append
  obtain ⟨k, -, hlaid⟩ := hleft.of_append
  rw [phrase_eq] at hs
  obtain ⟨hcovers, hparts⟩ := hs.of_one
  obtain ⟨hover, -, hstop⟩ := hcovers.runsOver hlaid
  obtain ⟨t, ht, hfirst⟩ := hover.first
  obtain ⟨u, hu, hlast⟩ := hover.last
  refine .of_laid (laid_children hparts hover) (Nat.le_trans hstop hws.le) ⟨t, ?_, hfirst⟩ ⟨u, ?_, hlast⟩
  · simp [ht]
  · simp [hu]

end Node

/-! ## Programs -/

/-- A program stands from the start of the first token to the end of the text. -/
theorem parse_span {source : String} {p : Program} {t : Token} {ts : List Token} (h : parse source = .ok p)
    (hts : tokenize source = .ok (ts ++ [t])) : p.span = ⟨((ts ++ [t]).head (by simp)).span.start, t.span.stop⟩ := by
  unfold parse at h
  split at h
  · rename_i q r' hq
    cases h
    obtain ⟨⟨r₁, c, r₂, ⟨us, hreads, -⟩, hnext, hc, u, r₃, hu, hspan⟩, -⟩ := Grammar.program_ok hq
    have hlast : us ++ [c] = ts ++ [t] := by
      rw [tokenize, hreads.drain, Reader.drain_of_next hnext, if_pos hc] at hts
      exact Except.ok.inj hts
    obtain ⟨rfl, hct⟩ := List.append_inj' hlast rfl
    obtain rfl := List.singleton_inj.1 hct
    have hhead : (us ++ [c]).head (by simp) = u := by
      obtain ⟨v, r₄, hv, hvs⟩ := Reader.next_of_drain hts
      obtain ⟨hvu, -⟩ := Prod.mk.inj (hv.symm.trans hu)
      obtain rfl := Except.ok.inj hvu
      rcases hvs with ⟨-, he⟩ | ⟨-, ws, -, he⟩ <;> simp [he]
    rw [hhead, hspan]
  · cases h

/-- Every node below a program is the program or is written by some of the tokens that write the program. -/
theorem Node.Below.spells {p : Program} {ts : List Token} {n : Node} (h : Below (.program p) n) (hs : Spells p.phrases ts) :
    n = .program p ∨ ∃ us, us <:+: ts ∧ Spells [n.phrase] us := by
  induction h with
  | root => exact .inl rfl
  | child _ hc ih =>
    right
    rcases ih with rfl | ⟨us, hus, hspells⟩
    · exact spells_of_nodes (nodes_program p) hs hc
    · obtain ⟨vs, hvs, hchild⟩ := spells_child hspells hc
      exact ⟨vs, hvs.trans hus, hchild⟩

/-- A program stands around its imports and statements. -/
theorem Node.stands_program {source : String} {p : Program} {ts : List Token} {t : Token} (h : parse source = .ok p)
    (hts : tokenize source = .ok (ts ++ [t])) (hs : Spells p.phrases ts) (hl : LaidTokens 0 ts source.utf8ByteSize)
    (ht : t.span = ⟨source.utf8ByteSize, source.utf8ByteSize⟩) : (Node.program p).Stands source (ts ++ [t]) := by
  have hspan := parse_span h hts
  have hstart : (Node.program p).span.start = ((ts ++ [t]).head (by simp)).span.start := by rw [Node.span, hspan]
  have hstop : (Node.program p).span.stop = source.utf8ByteSize := by rw [Node.span, hspan, ht]
  have hlaid : LaidTokens (Node.program p).span.start ts (Node.program p).span.stop := by
    rw [hstart, hstop]
    cases ts with
    | nil => simp [LaidTokens, Laid, ht]
    | cons u us => exact ⟨Nat.le_refl _, hl.2⟩
  refine .of_laid (laid_of_nodes (nodes_program p) hs hlaid) (Nat.le_of_eq hstop)
    ⟨_, List.head_mem _, hstart.symm⟩ ⟨t, by simp, ?_⟩
  rw [hstop, ht]

/-- The spans of a tree nest and are ordered. Every node of a program that was parsed stands from the start of a token to the end
of one, within the source; its children stand within it; and of its children, in the order of the text, each ends before the next
begins. -/
theorem spans_nested {source : String} {p : Program} (h : parse source = .ok p) :
    ∃ ts, tokenize source = .ok ts ∧ ∀ n, Node.Below (.program p) n → n.Stands source ts := by
  obtain ⟨⟨ts, t, hts, -, hspells⟩, -, -⟩ := parse_reads h
  have htiles : Tiles 0 source.toList (ts ++ [t]) := Reader.tiles_of_drain (r := Reader.ofSource source) rfl hts
  obtain ⟨hlaid, ht⟩ := htiles.laid rfl
  rw [Nat.zero_add, ← utf8ByteSize_eq_byteSize] at hlaid ht
  refine ⟨ts ++ [t], hts, fun n hn => ?_⟩
  rcases hn.spells hspells with rfl | ⟨us, hus, hphrase⟩
  · exact Node.stands_program h hts hspells hlaid ht
  · have hstands := Node.stands_of_spells hlaid hus hphrase
    obtain ⟨u, hu, hstart⟩ := hstands.start
    obtain ⟨v, hv, hstop⟩ := hstands.stop
    exact { hstands with start := ⟨u, by simp [hu], hstart⟩, stop := ⟨v, by simp [hv], hstop⟩ }

/-- A loop over what a method yields that is called through its last argument. -/
def loopSource : String := "for x in p->m(y) \x7b x; \x7d"

def loopProgram : Program :=
  ⟨[], [.expr (.forEach [⟨"x", ⟨4, 5⟩⟩]
    (.methodCall .last (.name "p" ⟨9, 10⟩) "m" [.name "y" ⟨14, 15⟩] ⟨9, 16⟩) ⟨[.expr (.name "x" ⟨19, 20⟩)], ⟨17, 23⟩⟩ ⟨0, 23⟩)],
    ⟨0, 23⟩⟩

/-- The receiver of the call stands before its argument, though the method receives it last. -/
theorem loopProgram_spans :
    parse loopSource = .ok loopProgram ∧
      ∃ ts, tokenize loopSource = .ok ts ∧ ∀ n, Node.Below (.program loopProgram) n → n.Stands loopSource ts := by
  have hparse : parse loopSource = .ok loopProgram := by cbv
  exact ⟨hparse, spans_nested hparse⟩

end Gradual
