import Gradual.Call.Basic

/-!
# Issues: what is wrong with a program that parses

An issue is a cause and the span of the text to blame. Causes fall into five categories. The check of a program stops at the
first issue; besides, it may run into an internal error, which no text leads to.
-/

namespace Gradual

/-- Why a program is rejected. -/
inductive Cause where
  | variableDeclared (name : String)
  | functionDeclared (name : String)
  | unknownVariable (name : String)
  | unknownFunction (name : String)
  | unknownType (name : String)
  | argumentCount (function : String) (expected actual : Nat)
  | notFunction (function parameter : String) (expected actual : Ty)
  | branchTypes (expected actual : Ty)
  | notExpression
  | variableType (name : String) (expected actual : Ty)
  | parameterType (function parameter : String) (expected actual : Ty)
  | inconsistent (function parameter : String) (types : List Ty)
  | unsolved (function : String) (args : ArgTypes)
  | noCommonType (function : String) (types : List Ty)
  deriving DecidableEq

/-- What a cause is about: declarations, names, the shape of calls and values, types, or generic parameters. -/
inductive Category where
  | scope | resolution | shape | type | generics
  deriving DecidableEq

/-- The title of a category. -/
def Category.title : Category → String
  | .scope => "Scope error"
  | .resolution => "Resolution error"
  | .shape => "Shape error"
  | .type => "Type error"
  | .generics => "Generics error"

namespace Cause

/-- The category of a cause. -/
def category : Cause → Category
  | .variableDeclared _ | .functionDeclared _ => .scope
  | .unknownVariable _ | .unknownFunction _ | .unknownType _ => .resolution
  | .argumentCount .. | .notFunction .. | .branchTypes .. | .notExpression => .shape
  | .variableType .. | .parameterType .. => .type
  | .inconsistent .. | .unsolved .. | .noCommonType .. => .generics

/-- The message of a cause. -/
def message : Cause → String
  | .variableDeclared n => "variable '" ++ n ++ "' is already declared in this scope"
  | .functionDeclared n => "function '" ++ n ++ "' is already declared in this scope"
  | .unknownVariable n => "unknown variable '" ++ n ++ "'"
  | .unknownFunction n => "unknown function '" ++ n ++ "'"
  | .unknownType n => "unknown type '" ++ n ++ "'"
  | .argumentCount f e a =>
    "function '" ++ f ++ "' expects " ++ toString e ++ " argument(s) but was called with " ++ toString a
  | .notFunction f p e a =>
    "parameter '" ++ p ++ "' of function '" ++ f ++ "' expects " ++ e.text ++ " but was given " ++ a.text
  | .branchTypes e a => "conditional branches have different types: " ++ e.text ++ " and " ++ a.text
  | .notExpression => "expected an expression, found a definition"
  | .variableType n e a =>
    "variable '" ++ n ++ "' is declared as " ++ e.text ++ " but assigned a value of type " ++ a.text
  | .parameterType f p e a =>
    "parameter '" ++ p ++ "' of function '" ++ f ++ "' has type " ++ e.text ++ " but was given " ++ a.text
  | .inconsistent f p ts =>
    "call to '" ++ f ++ "' binds generic parameter " ++ p ++ " to inconsistent types: " ++ Ty.textAll ts
  | .unsolved f args =>
    "cannot solve generic parameters of '" ++ f ++ "' for argument types (" ++ Ty.textOfKnown args ++ ")"
  | .noCommonType f ts => "cannot find a common type for the result of '" ++ f ++ "' among: " ++ Ty.textAll ts

end Cause

/-- The cause that a call error is in a call of `function`. -/
def CallError.cause (function : String) : CallError → Cause
  | .argumentCount e a => .argumentCount function e a
  | .parameterType p e a => .parameterType function p e a
  | .notFunction p e a => .notFunction function p e a
  | .inconsistent p ts => .inconsistent function p.name ts
  | .unsolved args => .unsolved function args
  | .noCommonType ts => .noCommonType function ts

/-- A cause, and the span of the text to blame. -/
structure Issue where
  cause : Cause
  span : Span
  deriving DecidableEq

/-- Why the check of a program stops: an issue of the program, or an error of the checker. -/
inductive Rejection where
  | issue (issue : Issue)
  | internal (error : InternalError)
  deriving DecidableEq

/-- A rejection for a cause at a span. -/
def Cause.at (c : Cause) (s : Span) : Rejection := .issue ⟨c, s⟩

/-- The outcome of a step of the check that leaves no log. -/
abbrev Outcome (α : Type) : Type := Except Rejection α

/-- The outcome of a call of `function` at a span. -/
def Outcome.ofCall {α : Type} (function : String) (span : Span) (r : Except CallError α) : Outcome α :=
  r.mapError fun e => (e.cause function).at span

end Gradual
