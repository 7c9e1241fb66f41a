import RavenLang.Shell.Brackets

/-!
# Input

Lines are gathered until their brackets are complete. A closing bracket that
matches nothing is complained about, but what was gathered stays, so the complaint
comes back with every further line.
-/

namespace RavenLang.Shell

def linesOf : List Char → List (List Char)
  | [] => []
  | c :: cs =>
    if c = '\n' then [c] :: linesOf cs
    else
      match linesOf cs with
      | [] => [[c]]
      | l :: ls => (c :: l) :: ls

theorem flatten_linesOf (cs : List Char) : (linesOf cs).flatten = cs := by
  fun_induction linesOf cs with
  | case1 => rfl
  | case2 cs ih => simp [ih]
  | case3 c cs _ h ih => rw [h] at ih; simp_all
  | case4 c cs _ l ls h ih => rw [h] at ih; simpa using ih

/-- Drops a line feed at the end, and a carriage return before it. -/
def dropLineEnd (text : List Char) : List Char :=
  match text.reverse with
  | '\n' :: '\r' :: cs => cs.reverse
  | '\n' :: cs => cs.reverse
  | _ => text

structure Input where
  complaints : String
  text : List Char
  deriving DecidableEq, Repr

structure Inputs where
  complete : List Input
  complaints : String
  deriving DecidableEq, Repr

def readLines (gathered : List Char) (complaints : String) : List (List Char) → Inputs
  | [] => ⟨[], complaints⟩
  | line :: lines =>
    let text := dropLineEnd (gathered ++ line)
    let verdict := judge text
    match verdict with
    | .complete =>
      let later := readLines [] "" lines
      ⟨⟨complaints, text⟩ :: later.complete, later.complaints⟩
    | .incomplete => readLines (gathered ++ line) complaints lines
    | .unmatched .. => readLines text (complaints ++ verdict.complaint) lines

def readInputs (source : String) : Inputs := readLines [] "" (linesOf source.toList)

end RavenLang.Shell
