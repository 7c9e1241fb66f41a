import RavenLang.Span
import RavenLang.Text.Size

/-!
# What stands at a place

A place is a pair of byte offsets. Characters stand there if both offsets part characters of the text.
-/

namespace RavenLang.Text

variable {as bs cs ds part : List Char} {o : Nat} {s : Span}

theorem size_eq_zero : size cs = 0 ↔ cs = [] := by
  cases cs with
  | nil => simp
  | cons c cs =>
    have := c.utf8Size_pos
    simp only [size_cons, reduceCtorEq, iff_false]
    omega

theorem length_le_size (cs : List Char) : cs.length ≤ size cs := by
  induction cs with
  | nil => exact Nat.le_refl _
  | cons c cs ih =>
    have := c.utf8Size_pos
    rw [List.length_cons, size_cons]
    omega

/-- A text has as many bytes as characters if every character is one byte long. -/
theorem size_eq_length_iff : size cs = cs.length ↔ ∀ c ∈ cs, c.utf8Size = 1 := by
  induction cs with
  | nil => simp
  | cons c cs ih =>
    have := c.utf8Size_pos
    have := length_le_size cs
    rw [List.forall_mem_cons, ← ih, List.length_cons, size_cons]
    omega

/-- Of two ways to part a text the one with less before its offset comes first. -/
theorem exists_of_append_eq_append (h : as ++ bs = cs ++ ds) (hs : size as ≤ size cs) :
    ∃ ms, cs = as ++ ms ∧ bs = ms ++ ds := by
  rcases List.append_eq_append_iff.1 h with ⟨ms, hc, hb⟩ | ⟨ms, rfl, rfl⟩
  · exact ⟨ms, hc, hb⟩
  · rw [size_append] at hs
    obtain rfl : ms = [] := size_eq_zero.1 (by omega)
    exact ⟨[], by simp, by simp⟩

theorem append_inj (h : as ++ bs = cs ++ ds) (hs : size as = size cs) : as = cs ∧ bs = ds := by
  obtain ⟨ms, rfl, rfl⟩ := exists_of_append_eq_append h (Nat.le_of_eq hs)
  rw [size_append] at hs
  obtain rfl : ms = [] := size_eq_zero.1 (by omega)
  exact ⟨by simp, by simp⟩

/-- In a text that begins at an offset, these characters stand at this place. -/
def At (offset : Nat) (cs : List Char) (place : Span) (part : List Char) : Prop :=
  ∃ before after, cs = before ++ (part ++ after) ∧
    place = ⟨offset + size before, offset + size before + size part⟩

theorem at_head (part after : List Char) (o : Nat) : At o (part ++ after) ⟨o, o + size part⟩ part :=
  ⟨[], after, rfl, rfl⟩

namespace At

theorem start_le (h : At o cs s part) : o ≤ s.start ∧ s.start ≤ s.stop := by
  obtain ⟨before, after, -, rfl⟩ := h
  exact ⟨Nat.le_add_right _ _, Nat.le_add_right _ _⟩

theorem stop_le (h : At o cs s part) : s.stop ≤ o + size cs := by
  obtain ⟨before, after, rfl, rfl⟩ := h
  simp only [size_append]
  omega

theorem unique {part' : List Char} (h : At o cs s part) (h' : At o cs s part') : part = part' := by
  obtain ⟨before, after, rfl, rfl⟩ := h
  obtain ⟨before', after', he, hs⟩ := h'
  simp only [Span.mk.injEq] at hs
  have hrest := (append_inj he (by omega)).2
  exact (append_inj hrest (by omega)).1

theorem behind (h : At (o + size as) cs s part) : At o (as ++ cs) s part := by
  obtain ⟨before, after, rfl, rfl⟩ := h
  exact ⟨as ++ before, after, by simp, by simp [Nat.add_assoc]⟩

theorem of_behind (h : At o (as ++ cs) s part) (hs : o + size as ≤ s.start) : At (o + size as) cs s part := by
  obtain ⟨before, after, he, rfl⟩ := h
  obtain ⟨ms, rfl, rfl⟩ := exists_of_append_eq_append he (Nat.le_of_add_le_add_left hs)
  exact ⟨ms, after, rfl, by simp [Nat.add_assoc]⟩

theorem place_eq (h : At o cs s part) {k : Nat} (hs : s.start = k) : s = ⟨k, k + size part⟩ := by
  obtain ⟨before, after, rfl, rfl⟩ := h
  rw [← hs]

/-- What stands at the beginning. -/
theorem eq_append (h : At o cs s part) (hs : s.start = o) : ∃ after, cs = part ++ after := by
  obtain ⟨before, after, rfl, rfl⟩ := h
  have hz : size before = 0 := Nat.add_eq_left.1 hs
  obtain rfl : before = [] := size_eq_zero.1 hz
  exact ⟨after, rfl⟩

end At

/-! ## Places between characters -/

/-- The offset stands between two characters of the text, or at an end of it. -/
def Boundary (offset : Nat) (cs : List Char) (k : Nat) : Prop :=
  ∃ before after, cs = before ++ after ∧ k = offset + size before

theorem exists_at_iff :
    (∃ part, At o cs s part) ↔ Boundary o cs s.start ∧ Boundary o cs s.stop ∧ s.start ≤ s.stop := by
  constructor
  · rintro ⟨part, before, after, rfl, rfl⟩
    exact ⟨⟨before, part ++ after, rfl, rfl⟩,
      ⟨before ++ part, after, by simp, by simp [Nat.add_assoc]⟩, Nat.le_add_right _ _⟩
  · rintro ⟨⟨before, after, rfl, hstart⟩, ⟨before', after', he, hstop⟩, hle⟩
    obtain ⟨part, rfl, rfl⟩ := exists_of_append_eq_append he (by omega)
    rw [size_append] at hstop
    refine ⟨part, before, after', rfl, ?_⟩
    cases s
    simp only at hstart hstop
    rw [hstart, hstop, Nat.add_assoc]

theorem exists_at_merge {t : Span} (hs : ∃ part, At o cs s part) (ht : ∃ part, At o cs t part) :
    ∃ part, At o cs (s.merge t) part := by
  obtain ⟨hs, hs', hsle⟩ := exists_at_iff.1 hs
  obtain ⟨ht, ht', htle⟩ := exists_at_iff.1 ht
  refine exists_at_iff.2 ⟨?_, ?_, ?_⟩
  · rcases Nat.le_total s.start t.start with h | h
    · rwa [Span.merge, Nat.min_eq_left h]
    · rwa [Span.merge, Nat.min_eq_right h]
  · rcases Nat.le_total s.stop t.stop with h | h
    · rwa [Span.merge, Nat.max_eq_right h]
    · rwa [Span.merge, Nat.max_eq_left h]
  · simp only [Span.merge]
    omega

end RavenLang.Text
