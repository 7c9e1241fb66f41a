/-!
# Ranges of characters

A class of characters as a list of ranges of code points, ends included.
-/

namespace RavenLang.Text

abbrev Ranges := List (Nat × Nat)

def Ranges.contains (rs : Ranges) (c : Char) : Bool :=
  rs.any fun (lo, hi) => lo ≤ c.toNat && c.toNat ≤ hi

end RavenLang.Text
