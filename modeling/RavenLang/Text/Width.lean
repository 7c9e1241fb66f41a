import RavenLang.Text.Wide
import RavenLang.Text.Zero

/-!
# Width

How many cells of a terminal a character fills.
-/

namespace RavenLang.Text

/-- Cells of a character that is no white space. Controls fill one, the Khmer sign
U+17D8, an abbreviation of three letters, fills three. -/
def width (c : Char) : Nat :=
  if c.toNat < 0x7f then 1
  else if c.toNat = 0x17d8 then 3
  else if zeroWidth.contains c then 0
  else if wide.contains c then 2
  else 1

end RavenLang.Text
