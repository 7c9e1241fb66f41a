/-!
# Source lines

A report counts characters. A line includes the terminator that ends it.
-/

namespace RavenLang.Report

structure SourceLine where
  /-- Counted from one. -/
  number : Nat
  start : Nat
  chars : List Char

namespace SourceLine

def stop (l : SourceLine) : Nat := l.start + l.chars.length

end SourceLine

/-- CR, LF, VT, FF, NEL and the line and paragraph separators. -/
def isTerminator (c : Char) : Bool :=
  c = '\r' || c = '\n' || c = '\x0b' || c = '\x0c' || c = '\u0085' || c = '\u2028' || c = '\u2029'

/-- Splits behind each terminator; CR LF is one of them. -/
def splitLines : List Char → List (List Char)
  | [] => []
  | '\r' :: '\n' :: cs => ['\r', '\n'] :: splitLines cs
  | c :: cs =>
    if isTerminator c then [c] :: splitLines cs
    else
      match splitLines cs with
      | [] => [[c]]
      | l :: ls => (c :: l) :: ls

theorem flatten_splitLines (cs : List Char) : (splitLines cs).flatten = cs := by
  fun_induction splitLines cs with
  | case1 => rfl
  | case2 cs ih => simp [ih]
  | case3 c cs _ h ih => simp [ih]
  | case4 c cs _ _ h ih => rw [h] at ih; simp_all
  | case5 c cs _ _ l ls h ih => rw [h] at ih; simpa using ih

def place (number start : Nat) : List (List Char) → List SourceLine
  | [] => []
  | l :: ls => ⟨number, start, l⟩ :: place (number + 1) (start + l.length) ls

/-- The lines of a source; an empty one is one empty line. -/
def linesOf (source : List Char) : List SourceLine :=
  place 1 0 (if source.isEmpty then [[]] else splitLines source)

/-- The last line that starts at or before an offset. No line has an offset behind
the end of the source. -/
def lineAt? (lines : List SourceLine) (size offset : Nat) : Option SourceLine :=
  if size < offset then none else (lines.filter (·.start ≤ offset)).getLast?

end RavenLang.Report
