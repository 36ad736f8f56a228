import Mathlib
import Gradual.Proofs.Text.Position
import Gradual.Proofs.Token.Stream
import Gradual.Proofs.Token.Written

/-!
# Tokens tile their source

A source that is read without a fault is a sequence of tokens with layout before each of them and after the last, and nothing else
(`Tiles`). Each token stands for the text of its span, and no byte belongs to two of them (`tokens_tile_source`). A reader that
has looked at nothing tiles what is left of its text; a symbol right after a name is read as two tokens, the second of which is
pending while the first is taken, and the two lie side by side where the symbol stood.
-/

namespace Gradual

/-- Tokens tile a text that stands at an offset: layout and a token by turns, then layout up to the end of the text, where the
last token stands. -/
inductive Tiles : Nat → List Char → List Token → Prop
  | eof {k : Nat} {gap : List Char} (hgap : Layout gap []) :
      Tiles k gap [⟨.eof, ⟨k + byteSize gap, k + byteSize gap⟩⟩]
  | token {k : Nat} {gap text rest : List Char} {kind : Kind} {ts : List Token} (hgap : Layout gap (text ++ rest))
      (hne : text ≠ []) (hw : Written kind text) (h : Tiles (k + byteSize gap + byteSize text) rest ts) :
      Tiles k (gap ++ text ++ rest) (⟨kind, ⟨k + byteSize gap, k + byteSize gap + byteSize text⟩⟩ :: ts)

/-- A token that stands for the text of its span. -/
def Token.StandsIn (t : Token) (source : String) : Prop :=
  ∃ before text after, source.toList = before ++ text ++ after ∧ t.span = ⟨byteSize before, byteSize before + byteSize text⟩ ∧
    text ≠ [] ∧ Written t.kind text

/-- A text that is not empty takes a byte at least. -/
theorem byteSize_pos {cs : List Char} (h : cs ≠ []) : 0 < byteSize cs := by
  obtain ⟨c, ds, rfl⟩ := List.exists_cons_of_ne_nil h
  have hpos := c.utf8Size_pos
  rw [byteSize_cons]
  omega

namespace Token.StandsIn

variable {t : Token} {source : String}

/-- A token that stands in a source fits it. -/
theorem fits (h : t.StandsIn source) : t.span.Fits source := by
  obtain ⟨before, text, after, hsource, hspan, -, -⟩ := h
  rw [hspan]
  exact .of_append hsource

/-- A token that stands in a source takes a byte. -/
theorem start_lt_stop (h : t.StandsIn source) : t.span.start < t.span.stop := by
  obtain ⟨before, text, after, -, hspan, hne, -⟩ := h
  rw [hspan]
  exact Nat.lt_add_of_pos_right (byteSize_pos hne)

/-- A token that stands in a source is not its end. -/
theorem kind_ne_eof (h : t.StandsIn source) : t.kind ≠ .eof := by
  obtain ⟨before, text, after, -, -, -, hw⟩ := h
  intro heof
  rw [heof] at hw
  cases hw

end Token.StandsIn

namespace Tiles

variable {k : Nat} {cs : List Char} {ts : List Token}

/-- No token stands before the text that is tiled. -/
theorem le_start (h : Tiles k cs ts) {t : Token} (ht : t ∈ ts) : k ≤ t.span.start := by
  induction h with
  | eof =>
    obtain rfl := List.mem_singleton.1 ht
    exact Nat.le_add_right _ _
  | @token k gap text rest kind ts _ _ _ _ ih =>
    rcases List.mem_cons.1 ht with rfl | ht
    · exact Nat.le_add_right _ _
    · have := ih ht
      omega

/-- Where a text is tiled up to its end, the last token stands at the end and the others, one after the other, for their texts. -/
theorem standsIn (h : Tiles k cs ts) {source : String} {before : List Char} (hsource : source.toList = before ++ cs)
    (hk : byteSize before = k) :
    ∃ us : List Token, ts = us ++ [⟨.eof, ⟨source.utf8ByteSize, source.utf8ByteSize⟩⟩] ∧ (∀ t ∈ us, t.StandsIn source) ∧
      us.Pairwise fun t u => t.span.stop ≤ u.span.start := by
  induction h generalizing before with
  | @eof k gap _ =>
    refine ⟨[], ?_, List.forall_mem_nil _, .nil⟩
    rw [utf8ByteSize_eq_byteSize, hsource, byteSize_append, hk]
    rfl
  | @token k gap text rest kind ts _ hne hw h ih =>
    have hsplit : source.toList = before ++ gap ++ text ++ rest := by rw [hsource]; simp only [List.append_assoc]
    have hend : byteSize (before ++ gap ++ text) = k + byteSize gap + byteSize text := by
      rw [byteSize_append, byteSize_append, hk]
    obtain ⟨us, rfl, hstands, hpairs⟩ := ih hsplit hend
    refine ⟨⟨kind, ⟨k + byteSize gap, k + byteSize gap + byteSize text⟩⟩ :: us, rfl, ?_, ?_⟩
    · refine List.forall_mem_cons.2 ⟨⟨before ++ gap, text, rest, hsplit, ?_, hne, hw⟩, hstands⟩
      rw [byteSize_append, hk]
    · exact .cons (fun u hu => h.le_start (List.mem_append_left _ hu)) hpairs

end Tiles

/-! ## What a reader finds -/

namespace Reader

/-- What is found at an offset where a text stands: a token, or the colon of a symbol right after a name, the name in which is
then pending. -/
inductive Found (k : Nat) (text : List Char) : Token → List Token → Prop
  | token {kind : Kind} (hne : text ≠ []) (hw : Written kind text) : Found k text ⟨kind, ⟨k, k + byteSize text⟩⟩ []
  | halves {n : String} (hn : Word Piece.isSymbolChar n.toList) (htext : text = ':' :: n.toList) :
      Found k text ⟨.mark .colon, ⟨k, k + 1⟩⟩ [⟨.name n, ⟨k + 1, k + byteSize text⟩⟩]

/-- What is read off the text is classified as what is found there. -/
theorem found_classify {r : Reader} {k : Nat} {text : List Char} {kind : Kind} (hp : r.pending = []) (hne : text ≠ [])
    (hw : Written kind text) :
    Found k text (r.classify kind ⟨k, k + byteSize text⟩).1 (r.classify kind ⟨k, k + byteSize text⟩).2.pending := by
  unfold classify
  split
  · rename_i n
    split
    · rw [hp]
      cases hw with
      | symbol hn => exact .halves hn rfl
    · rw [hp]
      exact .token hne hw
  · rw [hp]
    exact .token hne hw
  · rw [hp]
    exact .token hne hw

/-- Classifying a token leaves the reader where it is. -/
theorem classify_rest (r : Reader) (kind : Kind) (span : Span) :
    (r.classify kind span).2.rest = r.rest ∧ (r.classify kind span).2.offset = r.offset := by
  unfold classify
  split
  · split <;> exact ⟨rfl, rfl⟩
  · exact ⟨rfl, rfl⟩
  · exact ⟨rfl, rfl⟩

/-- A reader that has looked at nothing reads the end of the text, after layout, or passes over layout and finds a token. -/
theorem scan_cases {r r' : Reader} {t : Token} (hp : r.pending = []) (h : r.scan = (.ok t, r')) :
    (Layout r.rest [] ∧ t = ⟨.eof, ⟨r.offset + byteSize r.rest, r.offset + byteSize r.rest⟩⟩) ∨
      ∃ gap text, r.rest = gap ++ text ++ r'.rest ∧ Layout gap (text ++ r'.rest) ∧
        Found (r.offset + byteSize gap) text t r'.pending ∧ r'.offset = r.offset + byteSize gap + byteSize text := by
  fun_induction Reader.scan r with
  | case1 r hr =>
    left
    obtain ⟨ht, -⟩ := Prod.mk.inj h
    rw [hr]
    exact ⟨.empty [], (Except.ok.inj ht).symm⟩
  | case2 r c cs hr p hlex ih =>
    have hsplit : r.rest = p.text ++ (r.skip p).rest := by rw [hr]; exact (Piece.first_append c cs).symm
    have hoffset : (r.skip p).offset = r.offset + byteSize p.text := rfl
    rcases ih hp h with ⟨hgap, rfl⟩ | ⟨gap, text, hrest, hgap, hfound, hend⟩
    · left
      have hlayout : Layout (p.text ++ (r.skip p).rest) [] := hgap.piece hlex (List.append_nil _).symm
      rw [hsplit, byteSize_append, hoffset, Nat.add_assoc]
      exact ⟨hlayout, rfl⟩
    · right
      have hafter : p.rest = gap ++ (text ++ r'.rest) := by rw [← List.append_assoc]; exact hrest
      have hlayout : Layout (p.text ++ gap) (text ++ r'.rest) := hgap.piece hlex hafter
      refine ⟨p.text ++ gap, text, ?_, hlayout, ?_, ?_⟩
      · rw [hsplit, hrest]
        simp only [List.append_assoc]
      · rw [byteSize_append, ← Nat.add_assoc]
        exact hfound
      · rw [byteSize_append, ← Nat.add_assoc]
        exact hend
  | case3 r c cs hr p span hlex => cases h
  | case4 r c cs hr p span kind hlex t₁ r₁ hclass =>
    right
    have hsplit : r.rest = p.text ++ p.rest := by rw [hr]; exact (Piece.first_append c cs).symm
    obtain ⟨ht, hr'⟩ := Prod.mk.inj h
    obtain rfl := Except.ok.inj ht
    subst hr'
    have hfound : Found r.offset p.text ((r.skip p).classify kind span).1 ((r.skip p).classify kind span).2.pending :=
      found_classify hp (Piece.text_first_ne_nil c cs) (Piece.isWritten_first c cs kind hlex)
    obtain ⟨hrest, hoffset⟩ := classify_rest (r.skip p) kind span
    rw [hclass] at hfound hrest hoffset
    refine ⟨[], p.text, ?_, .empty _, hfound, hoffset⟩
    rw [hrest]
    exact hsplit

/-- A token that is found is not the end of the text. -/
theorem Found.ne_eof {k : Nat} {text : List Char} {t : Token} {ps : List Token} (h : Found k text t ps) :
    ∀ u ∈ t :: ps, u.kind ≠ .eof := by
  cases h with
  | token hne hw =>
    refine List.forall_mem_cons.2 ⟨?_, List.forall_mem_nil _⟩
    rintro rfl
    cases hw
  | halves => simp

/-- What is found after layout tiles the text together with what tiles the rest; the name glued to a colon stands right after it,
so the layout between the two is empty. -/
theorem Found.tiles {k : Nat} {gap text rest : List Char} {t : Token} {ps ts : List Token}
    (h : Found (k + byteSize gap) text t ps) (hgap : Layout gap (text ++ rest))
    (hrest : Tiles (k + byteSize gap + byteSize text) rest ts) : Tiles k (gap ++ text ++ rest) (t :: (ps ++ ts)) := by
  cases h with
  | token hne hw => exact .token hgap hne hw hrest
  | @halves n hn htext =>
    subst htext
    have hsize : k + byteSize gap + byteSize (':' :: n.toList) = k + byteSize gap + 1 + byteSize n.toList := by
      rw [byteSize_cons, ← Nat.add_assoc]
      rfl
    rw [hsize] at hrest ⊢
    have hname : Tiles (k + byteSize gap + 1) (n.toList ++ rest)
        (⟨.name n, ⟨k + byteSize gap + 1, k + byteSize gap + 1 + byteSize n.toList⟩⟩ :: ts) :=
      .token (.empty _) hn.ne_nil (.name hn) hrest
    have hcolon : Tiles k (gap ++ [':'] ++ (n.toList ++ rest))
        (⟨.mark .colon, ⟨k + byteSize gap, k + byteSize gap + 1⟩⟩ ::
          ⟨.name n, ⟨k + byteSize gap + 1, k + byteSize gap + 1 + byteSize n.toList⟩⟩ :: ts) :=
      .token hgap (List.cons_ne_nil _ _) (.mark .colon) hname
    rw [List.append_assoc] at hcolon ⊢
    exact hcolon

/-- What is pending is taken before the text is read. -/
theorem reads_pending {r : Reader} (h : ∀ t ∈ r.pending, t.kind ≠ .eof) : Reads r r.pending { r with pending := [] } := by
  generalize hps : r.pending = ps at h
  induction ps generalizing r with
  | nil =>
    refine .same ?_
    rw [← hps]
  | cons t ps ih =>
    obtain ⟨ht, hts⟩ := List.forall_mem_cons.1 h
    have hnext : r.next = (.ok t, { r with pending := ps }) := by rw [next, hps]
    exact .take hnext ht (ih rfl hts)

/-- The tokens that lie ahead of a reader that has looked at nothing tile what is left of its text. By induction on the number of
tokens: one step takes what is found, and with it what is then pending. -/
theorem tiles_of_drain {r : Reader} {ts : List Token} (hp : r.pending = []) (h : r.drain = .ok ts) :
    Tiles r.offset r.rest ts := by
  induction hn : ts.length using Nat.strong_induction_on generalizing r ts with
  | _ n ih =>
    obtain ⟨t, r', hnext, hts⟩ := next_of_drain h
    have hscan : r.scan = (.ok t, r') := by rwa [next, hp] at hnext
    rcases scan_cases hp hscan with ⟨hgap, rfl⟩ | ⟨gap, text, hrest, hgap, hfound, hoffset⟩
    · rcases hts with ⟨-, rfl⟩ | ⟨ht, -⟩
      · exact .eof hgap
      · exact absurd rfl ht
    · obtain ⟨ht, hpending⟩ := List.forall_mem_cons.1 hfound.ne_eof
      rcases hts with ⟨heof, -⟩ | ⟨-, us, hus, rfl⟩
      · exact absurd heof ht
      · rw [(reads_pending hpending).drain] at hus
        cases hvs : { r' with pending := [] : Reader }.drain with
        | error f =>
          rw [hvs] at hus
          cases hus
        | ok vs =>
          rw [hvs] at hus
          obtain rfl := Except.ok.inj hus
          have hlt : vs.length < n := by
            rw [← hn, List.length_cons, List.length_append]
            omega
          have htiles := ih vs.length hlt rfl hvs rfl
          rw [hrest]
          exact hfound.tiles hgap (hoffset ▸ htiles)

end Reader

/-- The tokens of a source tile it: they end with the end of the text, each of the others stands for the text of its span, which
is not empty and cuts no character, and they follow each other with layout between them. -/
theorem tokens_tile_source {source : String} {ts : List Token} (h : tokenize source = .ok ts) :
    Tiles 0 source.toList ts ∧
      ∃ us : List Token, ts = us ++ [⟨.eof, ⟨source.utf8ByteSize, source.utf8ByteSize⟩⟩] ∧
        (∀ t ∈ us, t.kind ≠ .eof ∧ t.span.start < t.span.stop ∧ t.span.Fits source ∧ t.StandsIn source) ∧
        us.Pairwise fun t u => t.span.stop ≤ u.span.start := by
  have htiles : Tiles 0 source.toList ts := Reader.tiles_of_drain (r := Reader.ofSource source) rfl h
  obtain ⟨us, hus, hstands, hpairs⟩ := htiles.standsIn (List.nil_append _).symm byteSize_nil
  refine ⟨htiles, us, hus, fun t ht => ?_, hpairs⟩
  exact ⟨(hstands t ht).kind_ne_eof, (hstands t ht).start_lt_stop, (hstands t ht).fits, hstands t ht⟩

/-- A symbol that is split, a string with an escaped quote, and comments of both sorts. -/
def gluedSource : String := "x:A /* / */ \"\\\"\" != // e"

def gluedTokens : List Token :=
  [⟨.name "x", ⟨0, 1⟩⟩, ⟨.mark .colon, ⟨1, 2⟩⟩, ⟨.name "A", ⟨2, 3⟩⟩, ⟨.string "\"", ⟨12, 16⟩⟩, ⟨.mark .notEq, ⟨17, 19⟩⟩,
    ⟨.eof, ⟨24, 24⟩⟩]

/-- The tokens of a glued symbol tile the source, its two halves side by side. -/
theorem gluedSource_tiled :
    tokenize gluedSource = .ok gluedTokens ∧ Tiles 0 gluedSource.toList gluedTokens ∧
      ∃ us : List Token, gluedTokens = us ++ [⟨.eof, ⟨gluedSource.utf8ByteSize, gluedSource.utf8ByteSize⟩⟩] ∧
        (∀ t ∈ us, t.kind ≠ .eof ∧ t.span.start < t.span.stop ∧ t.span.Fits gluedSource ∧ t.StandsIn gluedSource) ∧
        us.Pairwise fun t u => t.span.stop ≤ u.span.start := by
  have htokens : Reader.drainWithin 6 (Reader.ofSource gluedSource) = some (.ok gluedTokens) := by cbv
  have hts : tokenize gluedSource = .ok gluedTokens := Reader.drain_of_drainWithin htokens
  exact ⟨hts, tokens_tile_source hts⟩

end Gradual
