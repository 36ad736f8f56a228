import Mathlib
import Gradual.Proofs.Check.Visited
import Gradual.Proofs.Grammar.ReadBack
import Gradual.Proofs.Scope.Names

/-!
# The types that messages show

A message shows a type by its text. In the scopes of a check a name stands, as a type, for the type of that name or for a generic
parameter of that name (`Scope.NamesTypes`), so a type that an annotation stands for has the text of the annotation
(`Scope.text_of_resolve`). That text is source: the grammar reads it to its end as the annotation, up to spans, which stands for
the type again (`Scope.displayed_types_are_source`).
-/

namespace Gradual

namespace Scope

variable {s r : Scope}

/-! ## What type names stand for -/

/-- A name that is bound as a type stands for the type of that name, or for a generic parameter of that name. -/
def NamesTypes (s : Scope) : Prop := ∀ n t, s.type? n = some t → t = .simple n ∨ ∃ p, t = .parameter p ∧ p.name = n

namespace NamesTypes

/-- Only what is bound as a type matters. -/
theorem congr (h : s.NamesTypes) (hr : ∀ n, r.type? n = s.type? n) : r.NamesTypes := by
  intro n t ht
  rw [hr] at ht
  exact h n t ht

/-- A type of its own name keeps a scope naming types. -/
theorem addType (h : s.NamesTypes) (n : String) : (s.addType n (.simple n)).NamesTypes := by
  intro m t ht
  rw [type?_addType] at ht
  by_cases hm : m = n
  · rw [if_pos hm, Option.some.injEq] at ht
    exact Or.inl (by rw [← ht, hm])
  · rw [if_neg hm] at ht
    exact h m t ht

/-- Generic parameters keep a scope naming types. -/
theorem withGenerics (h : s.NamesTypes) (owner : String) (generics : List String) :
    (s.withGenerics owner generics).NamesTypes := by
  intro m t ht
  rw [type?_withGenerics] at ht
  by_cases hm : m ∈ generics
  · rw [if_pos hm, Option.some.injEq] at ht
    exact Or.inr ⟨.declared m owner, ht.symm, rfl⟩
  · rw [if_neg hm] at ht
    exact h m t ht

end NamesTypes

/-- In the prelude names stand for types of their own names. -/
theorem namesTypes_prelude : prelude.NamesTypes := by
  refine prelude_induction ?_ (fun s n hs => hs.addType n) (fun s hs => hs.congr fun _ => rfl) fun s n hs => hs.congr fun _ => rfl
  rintro n t ⟨⟩

/-- A step binds a type name to the type or to the generic parameter of that name. -/
theorem Step.namesTypes (h : Step s r) (hs : s.NamesTypes) : r.NamesTypes := by
  cases h with
  | generics owner generics => exact hs.withGenerics owner generics
  | type n => exact hs.addType n
  | record hnew hl => exact (hs.addType _).congr (type?_bindRecord (names_of_recordLayout hl).1)
  | parameter hnew ht => exact hs.congr (type?_addParameter s _ _)
  | child => exact hs.congr (type?_child s)
  | _ => exact hs.congr fun _ => rfl

/-! ## Types and annotations have one text -/

mutual

/-- The type that an annotation stands for has its text. -/
theorem text_of_resolve (h : s.NamesTypes) : ∀ (a : Annotation) {t : Ty}, s.resolve a = .ok t → t.text = a.text
  | .named n [] span, t, ht => by
    unfold resolve at ht
    split at ht
    · cases ht
    · rename_i base hb
      obtain rfl := Except.ok.inj ht
      rcases h n _ hb with rfl | ⟨p, rfl, rfl⟩
      · rw [Ty.text, Annotation.text]
      · rw [Ty.text, Annotation.text]
  | .named n (a :: as) span, t, ht => by
    unfold resolve at ht
    split at ht
    · cases ht
    · obtain ⟨ts, hts, ht⟩ := bind_eq_ok_iff.1 ht
      obtain rfl := Except.ok.inj ht
      rw [Ty.text, Annotation.text, textAll_of_resolveAll h (a :: as) hts]
      simp
  | .function ps r span, t, ht => by
    unfold resolve at ht
    obtain ⟨ts, hts, ht⟩ := bind_eq_ok_iff.1 ht
    obtain ⟨u, hu, ht⟩ := bind_eq_ok_iff.1 ht
    obtain rfl := Except.ok.inj ht
    rw [Ty.text, Annotation.text, textAll_of_resolveAll h ps hts, text_of_resolve h r hu]

/-- The types that annotations stand for have the texts of the annotations. -/
theorem textAll_of_resolveAll (h : s.NamesTypes) : ∀ (as : List Annotation) {ts : List Ty}, s.resolveAll as = .ok ts →
    Ty.textAll ts = Annotation.textAll as
  | [], ts, hts => by
    obtain rfl := Except.ok.inj hts
    rfl
  | a :: as, ts, hts => by
    unfold resolveAll at hts
    obtain ⟨t, ht, hts⟩ := bind_eq_ok_iff.1 hts
    obtain ⟨us, hus, hts⟩ := bind_eq_ok_iff.1 hts
    obtain rfl := Except.ok.inj hts
    have hrest := textAll_of_resolveAll h as hus
    have hlength := length_resolveAll hus
    cases as with
    | nil =>
      obtain rfl := List.eq_nil_of_length_eq_zero hlength
      exact text_of_resolve h a ht
    | cons b bs =>
      cases us with
      | nil => cases hlength
      | cons u us =>
        rw [Ty.textAll, Annotation.textAll, text_of_resolve h a ht, hrest]
        · simp
        · simp

end

/-! ## Spans do not matter to what an annotation stands for -/

mutual

/-- An annotation stands for the same without its spans. -/
theorem agree_spanless (s : Scope) : ∀ a : Annotation, Agree Eq (s.resolve a) (s.resolve a.spanless)
  | .named n as span => by
    have hall := agree_spanlessAnnotations s as
    simp only [resolve, Annotation.spanless]
    cases s.type? n with
    | none => exact .error _ _
    | some base =>
      cases as with
      | nil => exact .ok rfl
      | cons a as => exact hall.bind_eq _
  | .function ps r span => by
    simp only [resolve, Annotation.spanless]
    refine (agree_spanlessAnnotations s ps).bind fun ts ts' _ hts => ?_
    refine (agree_spanless s r).bind fun t t' _ ht => .ok ?_
    rw [hts, ht]

/-- Annotations stand for the same without their spans. -/
theorem agree_spanlessAnnotations (s : Scope) : ∀ as : List Annotation,
    Agree Eq (s.resolveAll as) (s.resolveAll (spanlessAnnotations as))
  | [] => .ok rfl
  | a :: as => by
    simp only [resolveAll, spanlessAnnotations]
    refine (agree_spanless s a).bind fun t t' _ ht => ?_
    refine (agree_spanlessAnnotations s as).bind fun ts ts' _ hts => .ok ?_
    rw [ht, hts]

end

/-- Annotations that are equal up to spans stand for one type. -/
theorem resolve_of_spanless {a a' : Annotation} {t : Ty} (h : a'.spanless = a.spanless) (ht : s.resolve a = .ok t) :
    s.resolve a' = .ok t := by
  have hspanless := s.agree_spanless a
  have hspanless' := s.agree_spanless a'
  rw [h] at hspanless'
  rw [ht] at hspanless
  generalize s.resolve a.spanless = x at hspanless hspanless'
  cases hspanless with
  | ok hx =>
    generalize s.resolve a' = y at hspanless' ⊢
    cases hspanless' with
    | ok hy => rw [hy, hx]

/-! ## Displayed types -/

/-- Displayed types are source. In every scope of a check a type name stands for the type or the generic parameter of that name.
Where that is so, a type that an annotation stands for has the text of the annotation, provided that the names in the annotation
are names: the text is tokenized to what the annotation is written with, and the grammar reads from it, up to the end of the text,
an annotation that is the same up to spans, and stands for the type again. -/
theorem displayed_types_are_source :
    (∀ p : Program, ∀ s ∈ p.visited, s.NamesTypes) ∧
    ∀ (s : Scope) (a : Annotation) (t : Ty), s.NamesTypes → (∀ n ∈ a.names, PlainName n) → s.resolve a = .ok t →
      t.text = a.text ∧ (∃ ts, tokenize t.text = .ok ts ∧ ts.map (·.kind) = a.yield ++ [.eof]) ∧
      ∃ a' r, Grammar.annotation (Reader.ofSource t.text) = .ok a' r ∧ a'.spanless = a.spanless ∧ r.Ahead [.eof] ∧
        s.resolve a' = .ok t := by
  refine ⟨fun p s hs => ?_, fun s a t hs hnames ht => ?_⟩
  · exact (Program.steps_of_visited hs).keeps (fun _ _ hstep => hstep.namesTypes) namesTypes_prelude
  · obtain ⟨htokens, a', r, hread, hspanless, hend⟩ := Grammar.annotation_of_text hnames
    have htext := text_of_resolve hs a ht
    rw [htext]
    exact ⟨rfl, htokens, a', r, hread, hspanless, hend, resolve_of_spanless hspanless ht⟩

/-- A record `Box!`, inside a function `f` of the generic parameter `T?`. -/
def boxedScope : Scope := (prelude.child.addType "Box!" (.simple "Box!")).withGenerics "f" ["T?"]

/-- `Map<Box!, (Vector<List<T?>>) -> () -> Nil>`. -/
def boxedAnnotation : Annotation :=
  .named "Map" [.named "Box!" [] ⟨4, 8⟩, .function [.named "Vector" [.named "List" [.named "T?" [] ⟨23, 25⟩] ⟨18, 26⟩] ⟨11, 27⟩]
    (.function [] (.named "Nil" [] ⟨38, 41⟩) ⟨32, 41⟩) ⟨10, 41⟩] ⟨0, 42⟩

/-- The type that it stands for. -/
def boxedType : Ty :=
  .applied "Map" [.simple "Box!", .function [.applied "Vector" [.applied "List" [.parameter (.declared "T?" "f")]]]
    (.function [] (.simple "Nil"))]

/-- Closing brackets, arrows and names that end in a mark do not run together. -/
theorem boxedType_is_source :
    boxedScope.NamesTypes ∧ (∀ n ∈ boxedAnnotation.names, PlainName n) ∧ boxedScope.resolve boxedAnnotation = .ok boxedType ∧
      boxedType.text = "Map<Box!, (Vector<List<T?>>) -> () -> Nil>" ∧ boxedType.text = boxedAnnotation.text ∧
      (∃ ts, tokenize boxedType.text = .ok ts ∧ ts.map (·.kind) = boxedAnnotation.yield ++ [.eof]) ∧
      ∃ a' r, Grammar.annotation (Reader.ofSource boxedType.text) = .ok a' r ∧ a'.spanless = boxedAnnotation.spanless ∧
        r.Ahead [.eof] ∧ boxedScope.resolve a' = .ok boxedType := by
  have hscope : boxedScope.NamesTypes :=
    NamesTypes.withGenerics ((namesTypes_prelude.congr (type?_child _)).addType "Box!") "f" ["T?"]
  have hnames : ∀ n ∈ boxedAnnotation.names, PlainName n := by
    have hlist : boxedAnnotation.names = ["Map", "Box!", "Vector", "List", "T?", "Nil"] := rfl
    rw [hlist]
    decide
  have htype : boxedScope.resolve boxedAnnotation = .ok boxedType := by cbv
  exact ⟨hscope, hnames, htype, by cbv, displayed_types_are_source.2 boxedScope boxedAnnotation boxedType hscope hnames htype⟩

end Scope

end Gradual
