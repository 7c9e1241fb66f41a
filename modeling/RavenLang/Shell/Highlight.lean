import RavenLang.Shell.Brackets
import RavenLang.Text.Size

/-!
# Highlighting

Strings are green, the pair of brackets beside the cursor is blue, and brackets
that do not match are red. The line is written with its colours from left to right;
an opening bracket that turns out to need a colour is replaced where it was written.
-/

namespace RavenLang.Shell

inductive Colour where
  | green
  | blue
  | boldBlue
  | red
  | boldRed
  deriving DecidableEq, Repr

def Colour.code : Colour → List Char
  | green => ['3', '2']
  | blue => ['3', '4']
  | boldBlue => ['1', ';', '3', '4']
  | red => ['3', '1']
  | boldRed => ['1', ';', '3', '1']

def sequence (parameters : List Char) : List Char := '\x1b' :: '[' :: parameters ++ ['m']

structure Cell where
  char : Char
  colour : Option Colour
  deriving DecidableEq, Repr

def Cell.text (c : Cell) : List Char :=
  match c.colour with
  | some colour => sequence colour.code ++ c.char :: sequence ['0']
  | none => [c.char]

/-- The place of the character that the cursor stands behind. -/
def placeBeside (cursor : Nat) : Option Nat := if cursor = 0 then none else some (cursor - 1)

/-- An opening bracket, its offset in the line, and its offset in what is written. -/
structure Opened where
  bracket : Char
  column : Nat
  place : Nat
  deriving DecidableEq, Repr

/-- What is written of a line, and the brackets that are open behind it, innermost
first. -/
structure Writing where
  inString : Bool
  opened : List Opened
  text : List Char
  deriving DecidableEq, Repr

/-- Puts a text in place of the byte at an offset, if that byte is a character. -/
def replaceByte? (new : List Char) : List Char → Nat → Option (List Char)
  | [], _ => none
  | c :: cs, 0 => if c.utf8Size = 1 then some (new ++ cs) else none
  | c :: cs, place + 1 =>
    if place + 1 < c.utf8Size then none
    else (replaceByte? new cs (place + 1 - c.utf8Size)).map (c :: ·)

namespace Writing

def start : Writing := ⟨false, [], []⟩

def put (w : Writing) (colour : Option Colour) (c : Char) : Writing :=
  { w with text := w.text ++ Cell.text ⟨c, colour⟩ }

/-- Colours a bracket that is written already. -/
def recolour? (w : Writing) (b : Opened) (colour : Colour) : Option Writing :=
  (replaceByte? (Cell.text ⟨b.bracket, some colour⟩) w.text b.place).map fun text => { w with text }

/-- Writes the character at an offset of the line. -/
def step? (beside : Option Nat) (offset : Nat) (w : Writing) (c : Char) : Option Writing :=
  if w.inString then some { w.put (some .green) c with inString := c ≠ '"' }
  else if c = '"' then some { w.put (some .green) c with inString := true }
  else if isOpening c then some { w.put none c with opened := ⟨c, offset, Text.size w.text⟩ :: w.opened }
  else if isClosing c then
    match w.opened with
    | [] => some (w.put (some .red) c)
    | b :: others =>
      let w := { w with opened := others }
      if isPair b.bracket c then
        if beside = some offset ∨ beside = some b.column then (w.put (some .blue) c).recolour? b .boldBlue
        else some (w.put none c)
      else (w.put (some .red) c).recolour? b .boldRed
  else some (w.put none c)

def run? (beside : Option Nat) (offset : Nat) (w : Writing) : List Char → Option Writing
  | [] => some w
  | c :: cs => (w.step? beside offset c).bind fun w => run? beside (offset + c.utf8Size) w cs

end Writing

/-- The line with its colours. There is none if a bracket were to be replaced where no
character of one byte stands. -/
def highlight? (line : String) (cursor : Nat) : Option String :=
  (Writing.start.run? (placeBeside cursor) 0 line.toList).map fun w => .ofList w.text

end RavenLang.Shell
