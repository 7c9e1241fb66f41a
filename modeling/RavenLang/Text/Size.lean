/-!
# Size of a text

Offsets count the bytes of the UTF-8 form, so a text's size is a sum over its
characters.
-/

namespace RavenLang.Text

def size : List Char → Nat
  | [] => 0
  | c :: cs => c.utf8Size + size cs

@[simp] theorem size_nil : size [] = 0 := rfl

@[simp] theorem size_cons (c : Char) (cs : List Char) : size (c :: cs) = c.utf8Size + size cs := rfl

@[simp] theorem size_append (as bs : List Char) : size (as ++ bs) = size as + size bs := by
  induction as with
  | nil => simp
  | cons a as ih => simp [ih, Nat.add_assoc]

/-- The characters before a byte offset, if it stands between two characters. -/
def before? : List Char → Nat → Option (List Char)
  | _, 0 => some []
  | [], _ + 1 => none
  | c :: cs, n => if n < c.utf8Size then none else (before? cs (n - c.utf8Size)).map (c :: ·)

end RavenLang.Text
