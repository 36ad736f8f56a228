import Gradual.Report.Error

/-!
# Diagnostics: an error beside the line it is about

A diagnostic shows the title of an error, the place, the line of the source, and under it a row of carets that marks the span,
followed by the label's text. The line is laid out in cells, one for each character and one for the place after its end. A cell
takes one column, the cell of a tab goes on to the next tab stop, and that of a control character takes none. The row has a caret
for each column of a cell that the span touches, and a blank for each column of a cell before it. A span that covers nothing
touches the cell at its start.
-/

namespace Gradual

namespace Diagnostic

/-- The line of a source on which an offset stands: its number, its text before the offset, and its text as shown. -/
structure Place where
  line : Nat
  lead : List Char
  text : List Char

/-- A line without the carriage returns and zero bytes at its end. -/
def trimLine (cs : List Char) : List Char := (cs.reverse.dropWhile fun c => c == '\r' || c == '\x00').reverse

/-- The place of byte offset `k` in a source; none inside a character. -/
def place? (source : String) (k : Nat) : Option Place :=
  (before? source.toList k).map fun cs =>
    let lead := (cs.reverse.takeWhile (· ≠ '\n')).reverse
    let rest := (source.toList.drop cs.length).takeWhile (· ≠ '\n')
    ⟨cs.count '\n' + 1, lead, trimLine (lead ++ rest)⟩

/-- The distance between tab stops. -/
def tabWidth : Nat := 4

/-- Whether a character is a control character, which takes no column. -/
def isControl (c : Char) : Bool := c.toNat < 0x20 || (0x7f ≤ c.toNat && c.toNat < 0xa0)

/-- The columns that a character takes from column `column` on. -/
def columns (column : Nat) (c : Char) : Nat :=
  if c = '\t' then tabWidth - column % tabWidth else if isControl c then 0 else 1

/-- A cell of a shown line: the bytes from `start` up to and without `stop`, its columns, and what is shown there. -/
structure Cell where
  start : Nat
  stop : Nat
  width : Nat
  shown : List Char

/-- The cells of a line from a byte offset and a column on, the last one for the place after the end. -/
def cells (offset column : Nat) : List Char → List Cell
  | [] => [⟨offset, offset + 1, 1, []⟩]
  | c :: cs =>
    let width := columns column c
    let shown := if c = '\t' then List.replicate width ' ' else [c]
    ⟨offset, offset + c.utf8Size, width, shown⟩ :: cells (offset + c.utf8Size) (column + width) cs

/-- What stands under a cell when the bytes from `start` up to and without `stop` are marked. -/
def mark (start stop : Nat) (c : Cell) : List Char :=
  if max start c.start < min stop c.stop then List.replicate c.width '^'
  else if c.start < stop then List.replicate c.width ' '
  else []

/-- As many blanks. -/
def blanks (n : Nat) : String := String.ofList (List.replicate n ' ')

/-- The lines of a diagnostic about a label at a place. -/
def labelText (file : String) (label : Label) (p : Place) : String :=
  let number := toString p.line
  let gutter := blanks number.length
  let row := cells 0 0 p.text
  let start := byteSize p.lead
  let marks := row.flatMap (mark start (start + max 1 label.span.size))
  gutter ++ " ┌─ " ++ file ++ ":" ++ number ++ ":" ++ toString (p.lead.length + 1) ++ "\n" ++
    gutter ++ " │\n" ++
    number ++ " │ " ++ String.ofList (row.flatMap (·.shown)) ++ "\n" ++
    gutter ++ " │ " ++ String.ofList marks ++ " " ++ label.text ++ "\n"

/-- The lines of a diagnostic about a label, none when the label begins inside a character. -/
def label (file source : String) (l : Label) : String := ((place? source l.span.start).map (labelText file l)).getD ""

end Diagnostic

/-- The diagnostic of an error in a file. -/
def Error.diagnostic (e : Error) (file source : String) : String :=
  "error: " ++ e.title ++ "\n" ++ String.join (e.labels.map (Diagnostic.label file source)) ++ "\n"

end Gradual
