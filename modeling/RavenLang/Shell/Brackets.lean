/-!
# Brackets

Whether a text may be run as it stands, judged by its brackets and strings alone.
Block comments are not known here.
-/

namespace RavenLang.Shell

def isOpening (c : Char) : Bool := c = '(' || c = '[' || c = '{'

def isClosing (c : Char) : Bool := c = ')' || c = ']' || c = '}'

def isPair (opening closing : Char) : Bool :=
  (opening = '(' && closing = ')') || (opening = '[' && closing = ']') || (opening = '{' && closing = '}')

inductive Verdict where
  | complete
  /-- An open bracket or string: more input may close it. -/
  | incomplete
  /-- A closing bracket that matches nothing, at a byte offset. -/
  | unmatched (bracket : Char) (offset : Nat)
  deriving DecidableEq, Repr

def Verdict.complaint : Verdict → String
  | unmatched bracket offset =>
    "  - Unmatched '" ++ bracket.toString ++ "' at position " ++ toString offset
  | _ => ""

inductive Context where
  | code
  | string
  | lineComment
  deriving DecidableEq, Repr

/-- Judges the text from an offset on, with the brackets that are open there,
innermost first. -/
def judgeFrom (context : Context) (opened : List Char) (offset : Nat) : List Char → Verdict
  | [] => if context = .string ∨ opened ≠ [] then .incomplete else .complete
  | c :: cs =>
    let next := offset + c.utf8Size
    match context with
    | .lineComment => judgeFrom (if c = '\n' then .code else .lineComment) opened next cs
    | .string => judgeFrom (if c = '"' then .code else .string) opened next cs
    | .code =>
      if c = '"' then judgeFrom .string opened next cs
      else if c = '/' ∧ cs.head? = some '/' then judgeFrom .lineComment opened next cs
      else if isOpening c then judgeFrom .code (c :: opened) next cs
      else if isClosing c then
        match opened with
        | opening :: others =>
          if isPair opening c then judgeFrom .code others next cs else .unmatched c offset
        | [] => .unmatched c offset
      else judgeFrom .code opened next cs

def judge (text : List Char) : Verdict := judgeFrom .code [] 0 text

end RavenLang.Shell
