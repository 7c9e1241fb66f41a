import RavenLang.Proofs.Grammar.Lines

/-!
# Texts line by line

No lexeme of a text that is scanned to its end goes on behind a line feed, and scanning carries nothing over it.
So the tokens of two texts with a line feed between them are those of the first and, further behind, those of
the second.
-/

namespace RavenLang

theorem Text.size_toList (s : String) : size s.toList = s.utf8ByteSize := by
  have size_eq (cs : List Char) : size cs = (String.ofList cs).utf8ByteSize := by
    induction cs with
    | nil => rfl
    | cons c cs ih =>
      rw [size_cons, ih, String.ofList_cons, String.utf8ByteSize_append, String.utf8ByteSize_singleton]
  rw [size_eq, String.ofList_toList]

/-- A text that has tokens is followed by a line as if both stood alone: the end-of-input token of the first gives
way to the tokens of the second, or to its fault. -/
theorem tokenize_lines {a : String} {ts : List Token} (h : tokenize a = .ok ts) (b : String) :
    (∃ us, ts = us ++ [.endAt a.utf8ByteSize] ∧ ∀ t ∈ us, t.kind ≠ .endOfInput) ∧
      tokenize (a ++ "\n" ++ b) =
        match tokenize b with
        | .ok us => .ok (ts.dropLast ++ us.map (Token.mapSpan (·.shift (a.utf8ByteSize + 1))))
        | .error fault => .error (fault.mapSpan (·.shift (a.utf8ByteSize + 1))) := by
  obtain ⟨us, rfl, hus⟩ := Scanned.of_scan h
  rw [Nat.zero_add, ← Text.size_toList]
  refine ⟨⟨us, rfl, fun t ht => hus.ne_endOfInput ht⟩, ?_⟩
  rw [List.dropLast_concat, tokenize, tokenize, Text.toList_lines, hus.scan_behindLine]
  cases Token.scan 0 b.toList <;> rfl

/-- Behind a line that ends in a comment with a quote in it, a line that is cut and one that is not. -/
theorem tokenize_lines_comment :
    let a := "\"//\" / f // (\"é"
    ∃ ts, tokenize a = .ok (ts ++ [.endAt 16]) ∧
      tokenize (a ++ "\n" ++ "g\"é\"") =
        .ok (ts ++ [⟨.identifier, "g", ⟨17, 18⟩⟩, ⟨.string, "é", ⟨18, 22⟩⟩, .endAt 22]) ∧
      tokenize (a ++ "\n" ++ "g \"") = .error ⟨.unterminatedString, ⟨19, 20⟩⟩ := by
  intro a
  obtain ⟨ts, h, -⟩ : ∃ ts, tokenize a = .ok ts ∧ ts.length = 4 := by decide +kernel
  obtain ⟨⟨us, rfl, -⟩, hok⟩ := tokenize_lines h "g\"é\""
  obtain ⟨-, herror⟩ := tokenize_lines h "g \""
  have hsize : a.utf8ByteSize = 16 := by decide
  have hb : tokenize "g\"é\"" = .ok [⟨.identifier, "g", ⟨0, 1⟩⟩, ⟨.string, "é", ⟨1, 5⟩⟩, .endAt 5] := by decide +kernel
  have hb' : tokenize "g \"" = .error ⟨.unterminatedString, ⟨2, 3⟩⟩ := by decide +kernel
  rw [hb, hsize, List.dropLast_concat] at hok
  rw [hb', hsize] at herror
  exact ⟨us, hsize ▸ h, hok, herror⟩

end RavenLang
