import RavenLang.CommandLine.Similar

/-!
# Reading arguments

What arguments ask for, or why they ask for nothing.
-/

namespace RavenLang.CommandLine

structure Outcome where
  exit : Nat
  out : String
  err : String
  deriving DecidableEq, Repr

inductive Answer (α : Type) where
  | request (a : α)
  | info (text : String)
  | refusal (text : String)

inductive Form where
  /-- Two dashes alone: everything behind them is a value. -/
  | separator
  | long (name : String) (value : Option String)
  | short (letter : Char)
  | value
  deriving DecidableEq, Repr

def Form.of (argument : String) : Form :=
  match argument.toList with
  | ['-', '-'] => .separator
  | '-' :: '-' :: cs =>
    match cs.dropWhile (· ≠ '=') with
    | [] => .long (.ofList cs) none
    | _ :: behind => .long (.ofList (cs.takeWhile (· ≠ '='))) (some (.ofList behind))
  | '-' :: c :: _ => .short c
  | _ => .value

def versionText : String := "raven 0.1.0\n"

def complaint (wrong : String) (tip usage : Option String) : String :=
  "error: " ++ wrong ++
    (match tip with | some t => "\n\n  tip: " ++ t | none => "") ++
    (match usage with | some u => "\n\nUsage: " ++ u | none => "")

def refusalText (wrong : String) (tip usage : Option String) : String :=
  complaint wrong tip usage ++ "\n\nFor more information, try '--help'.\n"

def unexpected (argument usage : String) (tip : Option String) : String :=
  refusalText ("unexpected argument '" ++ argument ++ "' found") tip (some usage)

def valueMissing (argument : String) : String :=
  refusalText ("a value is required for '" ++ argument ++ "' but none was supplied") none none

def valueUnneeded (value argument usage : String) : String :=
  refusalText ("unexpected value '" ++ value ++ "' for '" ++ argument ++ "' found; no more were expected")
    none (some usage)

def repeated (argument usage : String) : String :=
  refusalText ("the argument '" ++ argument ++ "' cannot be used multiple times") none (some usage)

/-- An option after those that were used before it, which are named once each. -/
def addUsed (used : List String) (name : String) : List String :=
  if used.contains name then used else used ++ [name]

/-- The refusal of a long option that is not among the known ones. If one of these is
close to it, the usage shows that one as if it had been meant. -/
def unknownLong (known : List String) (usage : List String → String) (used : List String)
    (name : String) (otherwise : Option String) : String :=
  match closest? known name with
  | some k =>
    unexpected ("--" ++ name) (usage (addUsed used k)) (some ("a similar argument exists: '--" ++ k ++ "'"))
  | none => unexpected ("--" ++ name) (usage used) otherwise

def Answer.outcome {α : Type} (perform : α → Outcome) : Answer α → Outcome
  | request a => perform a
  | info text => ⟨0, text, ""⟩
  | refusal text => ⟨2, "", text⟩

end RavenLang.CommandLine
