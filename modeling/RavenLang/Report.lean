import RavenLang.Report.Diagnostic
import RavenLang.Report.Lines
import RavenLang.Text.Blank
import RavenLang.Text.Width

/-!
# Reports

A failure shown in its source: a headline, the place, the lines of the span and
the label under them. The span is read as character offsets.
-/

namespace RavenLang.Report

/-- The range to be marked; an empty span marks one character. -/
def marked (s : Span) : Span := if s.start = s.stop then ⟨s.start, s.stop + 1⟩ else s

def spaces (n : Nat) : List Char := List.replicate n ' '

def decimal (n : Nat) : List Char := Nat.toDigits 10 n

/-! ## Lines as they are shown -/

/-- A character at a column as it is shown: a tab up to the next multiple of four,
other white space as one space. -/
def shownChar (column : Nat) (c : Char) : List Char :=
  if c = '\t' then spaces (4 - column % 4) else if Text.isBlank c then [' '] else [c]

def cells (column : Nat) (c : Char) : Nat :=
  if c = '\t' then 4 - column % 4 else if Text.isBlank c then 1 else Text.width c

def visible (l : SourceLine) : List Char := Text.trimEnd l.chars

def shown (l : SourceLine) : List Char :=
  ((visible l).zipIdx.map fun (c, column) => shownChar column c).flatten

/-- Cells of a column; those behind the visible text are one cell wide. -/
def cellsAt (l : SourceLine) (column : Nat) : Nat :=
  match (visible l)[column]? with
  | some c => cells column c
  | none => 1

/-! ## Margins -/

def numbered (margin number : Nat) : List Char :=
  let digits := decimal number
  ' ' :: spaces (margin - digits.length) ++ digits ++ [' ', '│', ' ']

def unnumbered (margin : Nat) : List Char := spaces (margin + 2) ++ ['│', ' ']

/-! ## Marks under the source -/

def column (width : Nat) (first more : Char) : List Char :=
  match width with
  | 0 => []
  | n + 1 => first :: List.replicate n more

def underline (l : SourceLine) (s : Span) (middle : Nat) : List Char :=
  (List.range (s.stop - l.start + 2)).flatMap fun i =>
    if i = middle then column (cellsAt l i) '┬' '─'
    else if s.start ≤ l.start + i ∧ l.start + i < s.stop then column (cellsAt l i) '─' '─'
    else column (cellsAt l i) ' ' ' '

def arm (l : SourceLine) (s : Span) (middle : Nat) : List Char :=
  (List.range (s.stop - l.start + 2)).flatMap fun i =>
    if i = middle then column (cellsAt l i) '╰' '─'
    else if middle < i then column (cellsAt l i) '─' '─'
    else column (cellsAt l i) ' ' ' '

/-- A span within one line. One that ends behind the line has no mark. -/
def singleLine (margin : Nat) (l : SourceLine) (s : Span) (label : List Char) : List (List Char) :=
  if l.stop < s.stop then [unnumbered margin]
  else
    let middle := (s.start + s.stop) / 2 - l.start
    [numbered margin l.number ++ shown l,
      unnumbered margin ++ underline l s middle,
      unnumbered margin ++ arm l s middle ++ ' ' :: label]

def lineCells (l : SourceLine) : Nat :=
  (List.range (l.chars.length + 2)).foldl (fun sum i => sum + cellsAt l i) 0

/-- The lines of a longer span after its first: the last one carries the label, of
the others the first is a gap and the rest is left out. -/
def laterLines (margin : Nat) (s : Span) (label : List Char) : (gap : Bool) → List SourceLine → List (List Char)
  | _, [] => []
  | gap, l :: ls =>
    if l.start ≤ s.stop - 1 ∧ s.stop - 1 < l.stop then
      (numbered margin l.number ++ ['├', '─', '▶', ' '] ++ shown l) ::
        (unnumbered margin ++ '│' :: spaces (3 + lineCells l)) ::
        (unnumbered margin ++ '╰' :: List.replicate (3 + lineCells l) '─' ++ ' ' :: label) ::
        laterLines margin s label gap ls
    else if gap then laterLines margin s label gap ls
    else (spaces (margin + 2) ++ ['┆', ' ', '┆', ' ', ' ', ' ']) :: laterLines margin s label true ls

def multiLine (margin : Nat) (lines : List SourceLine) (s : Span) (label : List Char) : List (List Char) :=
  match lines with
  | [] => []
  | l :: ls =>
    (numbered margin l.number ++ ['╭', '─', '▶', ' '] ++ shown l) :: laterLines margin s label false ls

/-! ## The report -/

def location (id : List Char) (l : SourceLine) (s : Span) : List Char :=
  id ++ ':' :: decimal l.number ++ ':' :: decimal (s.start - l.start + 1)

def header (margin : Nat) (place : List Char) : List (List Char) :=
  [spaces (margin + 2) ++ ['╭', '─', '[', ' '] ++ place ++ [' ', ']'], spaces (margin + 2) ++ ['│']]

def footer (margin : Nat) : List Char := List.replicate (margin + 2) '─' ++ ['╯']

def body (id : List Char) (source : List Char) (d : Diagnostic) : List (List Char) :=
  let s := marked d.span
  let lines := linesOf source
  match lineAt? lines source.length s.start, lineAt? lines source.length (s.stop - 1) with
  | some first, some last =>
    let margin := (decimal last.number).length
    let excerpt :=
      if first.number = last.number then singleLine margin first s d.label.toList
      else multiLine margin
        (lines.filter fun l => first.number ≤ l.number ∧ l.number ≤ last.number) s d.label.toList
    header margin (location id first s) ++ excerpt ++ [footer margin]
  | _, _ => []

def text (id source : String) (d : Diagnostic) : String :=
  .ofList ((("Error: " ++ d.headline).toList :: body id.toList source.toList d).flatMap (· ++ ['\n']))

end RavenLang.Report

namespace RavenLang

def Failure.report (functions : Functions) (id source : String) (f : Failure) : String :=
  Report.text id source (f.diagnostic functions)

end RavenLang
