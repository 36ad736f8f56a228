import Gradual.Grammar.Parser
import Gradual.Tree.Basic

/-!
# The grammar of annotations and parameters

An annotation is a name with optional arguments between angle brackets, or a list of annotations in parentheses, an arrow and
an annotation. The keyword `nil` names the type `Nil`.
-/

namespace Gradual.Grammar

open Gradual.Parser

/-- An annotation whose parts are read by `self`. -/
def annotationStep (self : Parser Annotation) : Parser Annotation := do
  let t ← next
  match t.kind with
  | .mark .lparen => do
    let params ← bounded (listUntil (.mark .rparen) self)
    let _ ← expect (.mark .rparen)
    let _ ← expect (.mark .arrow)
    let ret ← self
    pure (.function params ret (t.span.join ret.span))
  | .name n => do
    if ← accept (.mark .lt) then do
      let args ← bounded (commaSeparated self)
      let close ← expect (.mark .gt)
      pure (.named n args (t.span.join close.span))
    else pure (.named n [] t.span)
  | .keyword .nil => pure (.named "Nil" [] t.span)
  | k => throw (.grammar (.expectedType k) t.span)

/-- An annotation nested at most so deep. -/
def annotationWithin : Nat → Parser Annotation
  | 0 => tooDeep
  | n + 1 => annotationStep (annotationWithin n)

/-- An annotation. -/
def annotation : Parser Annotation := bounded annotationWithin

/-- A parameter with its annotation. -/
def param : Parser Param := do
  let t ← next
  let n ← nameOf t
  let _ ← expect (.mark .colon)
  let ty ← annotation
  pure ⟨n, ty, t.span.join ty.span⟩

/-- Parameters in parentheses, and where the closing one stands. -/
def params : Parser (List Param × Span) := do
  let _ ← expect (.mark .lparen)
  let ps ← bounded (listUntil (.mark .rparen) param)
  let close ← expect (.mark .rparen)
  pure (ps, close.span)

/-- A parameter of a lambda. -/
def lambdaParam : Parser LambdaParam := do
  let t ← next
  let n ← nameOf t
  if ← accept (.mark .colon) then do
    let ty ← annotation
    pure ⟨n, some ty, t.span.join ty.span⟩
  else pure ⟨n, none, t.span⟩

/-- The annotation of a result after an arrow, if there is one. -/
def returnAnnotation : Parser (Option Annotation) := do
  if ← accept (.mark .arrow) then do
    let ty ← annotation
    pure (some ty)
  else pure none

end Gradual.Grammar
