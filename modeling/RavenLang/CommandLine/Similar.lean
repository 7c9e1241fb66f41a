/-!
# Similar words

Which known words a mistyped one may have been meant for. Two words are compared by
the characters they share at nearly the same place, and by how many of those stand
in another order: the Jaro similarity.
-/

namespace RavenLang.CommandLine

/-- Takes the first free place in a window that holds `c`; the places before the
window come first in the list. -/
def takePlace (c : Char) (low high : Nat) :
    (at_ : Nat) → List (Char × Bool) → Option (List (Char × Bool))
  | _, [] => none
  | i, (d, taken) :: places =>
    if low ≤ i ∧ i < high ∧ c = d ∧ !taken then some ((d, true) :: places)
    else (takePlace c low high (i + 1) places).map ((d, taken) :: ·)

def shared (reach : Nat) : (at_ : Nat) → List Char → List (Char × Bool) → List Char × List (Char × Bool)
  | _, [], places => ([], places)
  | i, c :: cs, places =>
    match takePlace c (i - reach) (i + reach + 1) 0 places with
    | some places =>
      let (found, places) := shared reach (i + 1) cs places
      (c :: found, places)
    | none => shared reach (i + 1) cs places

/-- The similarity of two words, between zero and one. It is computed with doubles, so
that their rounding decides near a bound. -/
def similarity (a b : List Char) : Float :=
  if a = [] ∧ b = [] then 1
  else
    let (found, places) := shared (max a.length b.length / 2 - 1) 0 a (b.map ((·, false)))
    let others := (places.filter (·.2)).map (·.1)
    let moved := ((found.zip others).filter fun (c, d) => c ≠ d).length / 2
    let m := found.length
    let part (n of : Nat) : Float := n.toFloat / of.toFloat
    if m = 0 then 0 else (part m a.length + part m b.length + part (m - moved) m) / 3

/-- The known words that are more than seven tenths similar, the closest last. -/
def similarWords (known : List String) (word : String) : List String :=
  let rated := known.map fun k => (similarity word.toList k.toList, k)
  let close := rated.filter fun (s, _) => 0.7 < s
  (close.mergeSort fun (s, _) (s', _) => s ≤ s').map (·.2)

def closest? (known : List String) (word : String) : Option String := (similarWords known word).getLast?

end RavenLang.CommandLine
