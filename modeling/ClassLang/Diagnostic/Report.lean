import ClassLang.Source.Position
import ClassLang.Source.Line
import ClassLang.Text.WhiteSpace
import ClassLang.Diagnostic.Cause

/-!
# Diagnostics and how they are drawn

A diagnostic is a cause at a span. Its report names the cause and the file and, if the span
starts on a line of the text, shows that line with a caret under the column:

    Error: UnknownType (Unknown type `Missing` found)
    -> test.cls
      |
    2 | x: Missing;
      | ---^

The line is shown without its indentation and without the white space at its end; dashes fill
the way to the caret. A report is drawn only if the caret and its dashes take at most 65535
characters.
-/

namespace ClassLang

/-- A cause and where it lies. -/
structure Diagnostic where
  cause : Cause
  span : Span
deriving DecidableEq

namespace Diagnostic

/-- A fault of the resolver itself. -/
def internal (message : String) (span : Span) : Diagnostic := ⟨.internal message, span⟩

/-- The line that names the cause. -/
def headline (d : Diagnostic) : String :=
  match d.cause.tip? with
  | some tip => "Error: " ++ d.cause.name ++ " (" ++ tip ++ ")"
  | none => "Error: " ++ d.cause.name

/-- Whether a character counts as indentation of a shown line. -/
def isIndent (c : Char) : Bool := c = ' ' || c = '\t'

/-- A text filled up on its left to the given width. -/
def fillLeft (width : Nat) (filler : Char) (text : List Char) : String :=
  String.ofList (text.leftpad width filler)

/-- The number of characters that indent a line. -/
def indentOf (line : String) : Nat := (line.toList.takeWhile isIndent).length

/-- How many characters the caret under `column` takes with its dashes. -/
def caretWidth (column : Nat) (line : String) : Nat := max 1 (column - indentOf line)

/-- The shown line, numbered, with a caret under its `column`. -/
def excerpt (number column : Nat) (line : String) : List String :=
  let bar := fillLeft (number.repr.length + 2) ' ' ['|']
  [bar,
   number.repr ++ " | " ++ String.ofList (trimEnd (line.toList.drop (indentOf line))),
   bar ++ " " ++ fillLeft (caretWidth column line) '-' ['^']]

/-- The lines of a report about `source`. -/
def reportLines (d : Diagnostic) (source : String) : List String :=
  d.headline :: ("-> " ++ d.span.file) ::
    match lineAt? source d.span.start.line.toNat with
    | some line => excerpt d.span.start.line.toNat d.span.start.column.toNat line
    | none => []

/-- The report about `source`, without a newline at its end, however wide it is. -/
def report (d : Diagnostic) (source : String) : String := "\n".intercalate (d.reportLines source)

/-- The greatest width to which a line is filled up. -/
def widest : Nat := 65535

/-- Whether the report about `source` is narrow enough to be drawn. -/
def isDrawable (d : Diagnostic) (source : String) : Bool :=
  match lineAt? source d.span.start.line.toNat with
  | some line => caretWidth d.span.start.column.toNat line ≤ widest
  | none => true

/-- The report about `source`, if it can be drawn. -/
def report? (d : Diagnostic) (source : String) : Option String :=
  if d.isDrawable source then some (d.report source) else none

end Diagnostic

end ClassLang
