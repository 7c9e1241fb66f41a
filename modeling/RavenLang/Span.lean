/-!
# Spans

A span is a half-open range of byte offsets into a source text.
-/

namespace RavenLang

/-- Byte offsets `start` (included) and `stop` (excluded). -/
structure Span where
  start : Nat
  stop : Nat
  deriving DecidableEq, Repr, Inhabited

namespace Span

def merge (a b : Span) : Span := ⟨min a.start b.start, max a.stop b.stop⟩

def point (offset : Nat) : Span := ⟨offset, offset⟩

def text (s : Span) : String := toString s.start ++ ".." ++ toString s.stop

def shift (s : Span) (n : Nat) : Span := ⟨s.start + n, s.stop + n⟩

end Span

end RavenLang
