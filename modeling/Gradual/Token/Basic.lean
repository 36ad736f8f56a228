import Gradual.Number.Shortest
import Gradual.Text.Quoted
import Gradual.Text.Span

/-!
# Tokens: the words and marks of a program

A token is a kind and the span of text it was read from. The kinds are the keywords, the marks (operators, brackets and
punctuation), four classes with a payload, and the end of the text. Each kind has a spelling, which messages use, and an
outline, which dumps use.
-/

namespace Gradual

/-- The words of the language that cannot be names. -/
inductive Keyword where
  | imports | defn | define | defmethod | record | implements | fn
  | letIn | forEach | within | ifThen | elif | otherwise
  | and | or | yes | no | nil
  deriving DecidableEq

namespace Keyword

/-- Every keyword. -/
def all : List Keyword :=
  [.imports, .defn, .define, .defmethod, .record, .implements, .fn, .letIn, .forEach, .within, .ifThen, .elif, .otherwise,
    .and, .or, .yes, .no, .nil]

/-- How a keyword is written. -/
def spelling : Keyword → String
  | .imports => "import"
  | .defn => "defn"
  | .define => "def"
  | .defmethod => "defmethod"
  | .record => "record"
  | .implements => "implements"
  | .fn => "fn"
  | .letIn => "let"
  | .forEach => "for"
  | .within => "in"
  | .ifThen => "if"
  | .elif => "elif"
  | .otherwise => "else"
  | .and => "and"
  | .or => "or"
  | .yes => "true"
  | .no => "false"
  | .nil => "nil"

/-- The label of a keyword in a dump. -/
def label : Keyword → String
  | .imports => "Import"
  | .defn => "Defn"
  | .define => "Def"
  | .defmethod => "Defmethod"
  | .record => "Record"
  | .implements => "Implements"
  | .fn => "Fn"
  | .letIn => "Let"
  | .forEach => "For"
  | .within => "In"
  | .ifThen => "If"
  | .elif => "Elif"
  | .otherwise => "Else"
  | .and => "And"
  | .or => "Or"
  | .yes => "True"
  | .no => "False"
  | .nil => "Nil"

/-- The keyword written so, if there is one. -/
def ofSpelling? (s : String) : Option Keyword := all.find? (·.spelling == s)

end Keyword

/-- Operators, brackets and punctuation. -/
inductive Mark where
  | arrow | eqEq | notEq | ltEq | gtEq | mapOpen
  | plus | minus | star | slash | percent | bang | eq | lt | gt
  | lparen | rparen | lbrace | rbrace | lbracket | rbracket
  | semi | comma | colon | dot
  deriving DecidableEq

namespace Mark

/-- Every mark. -/
def all : List Mark :=
  [.arrow, .eqEq, .notEq, .ltEq, .gtEq, .mapOpen, .plus, .minus, .star, .slash, .percent, .bang, .eq, .lt, .gt, .lparen,
    .rparen, .lbrace, .rbrace, .lbracket, .rbracket, .semi, .comma, .colon, .dot]

/-- How a mark is written. -/
def spelling : Mark → String
  | .arrow => "->"
  | .eqEq => "=="
  | .notEq => "!="
  | .ltEq => "<="
  | .gtEq => ">="
  | .mapOpen => "%\x7b"
  | .plus => "+"
  | .minus => "-"
  | .star => "*"
  | .slash => "/"
  | .percent => "%"
  | .bang => "!"
  | .eq => "="
  | .lt => "<"
  | .gt => ">"
  | .lparen => "("
  | .rparen => ")"
  | .lbrace => "\x7b"
  | .rbrace => "\x7d"
  | .lbracket => "["
  | .rbracket => "]"
  | .semi => ";"
  | .comma => ","
  | .colon => ":"
  | .dot => "."

/-- The label of a mark in a dump. -/
def label : Mark → String
  | .arrow => "Arrow"
  | .eqEq => "EqEq"
  | .notEq => "NotEq"
  | .ltEq => "LtEq"
  | .gtEq => "GtEq"
  | .mapOpen => "MapOpen"
  | .plus => "Plus"
  | .minus => "Minus"
  | .star => "Star"
  | .slash => "Slash"
  | .percent => "Percent"
  | .bang => "Bang"
  | .eq => "Eq"
  | .lt => "Lt"
  | .gt => "Gt"
  | .lparen => "LParen"
  | .rparen => "RParen"
  | .lbrace => "LBrace"
  | .rbrace => "RBrace"
  | .lbracket => "LBracket"
  | .rbracket => "RBracket"
  | .semi => "Semi"
  | .comma => "Comma"
  | .colon => "Colon"
  | .dot => "Dot"

end Mark

/-- What a token is: a keyword, a mark, a literal, a name, or the end of the text. -/
inductive Kind where
  | keyword (word : Keyword)
  | mark (mark : Mark)
  | number (value : Double)
  | string (text : String)
  | symbol (name : String)
  | name (name : String)
  | eof
  deriving DecidableEq

namespace Kind

/-- Two kinds are alike when they agree up to the payload of a literal or a name. -/
def isLike : Kind → Kind → Bool
  | .keyword a, .keyword b => a == b
  | .mark a, .mark b => a == b
  | .number _, .number _ => true
  | .string _, .string _ => true
  | .symbol _, .symbol _ => true
  | .name _, .name _ => true
  | .eof, .eof => true
  | _, _ => false

/-- The text of a kind in messages. -/
def text : Kind → String
  | .keyword w => w.spelling
  | .mark m => m.spelling
  | .number v => NumberLayout.plain.text v
  | .string s => Text.quoted s
  | .symbol s => ":" ++ s
  | .name s => s
  | .eof => "EOF"

/-- The label of a kind in a dump, without its payload. -/
def label : Kind → String
  | .keyword w => w.label
  | .mark m => m.label
  | .number _ => "NumberLiteral"
  | .string _ => "StringLiteral"
  | .symbol _ => "Symbol"
  | .name _ => "Identifier"
  | .eof => "Eof"

/-- The text of a kind in a dump: its label, followed by the payload in parentheses. -/
def dump (k : Kind) : String :=
  match k with
  | .number v => k.label ++ "(" ++ NumberLayout.dump.text v ++ ")"
  | .string s | .symbol s | .name s => k.label ++ "(" ++ Text.quoted s ++ ")"
  | _ => k.label

end Kind

/-- A kind and the span of text it was read from. -/
structure Token where
  kind : Kind
  span : Span
  deriving DecidableEq

namespace Token

/-- A token in a dump, with its span and a newline. -/
def dump (t : Token) : String := t.kind.dump ++ " @ " ++ t.span.text ++ "\n"

end Token

/-- A text that begins no token, and where it stands. -/
structure Fault where
  text : String
  span : Span
  deriving DecidableEq

end Gradual
