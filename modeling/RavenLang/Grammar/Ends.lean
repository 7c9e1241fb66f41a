import RavenLang.Grammar.Buffer

/-!
# Where the input ends

A token list ends at its first end-of-input token, and a list without one as if such a token stood behind
its last token.
-/

namespace RavenLang.Token

def beforeEnd (ts : List Token) : List Token := ts.takeWhile (·.kind ≠ .endOfInput)

/-- Where the input ends: at the first end-of-input token, or without one behind
the last token. -/
def endSpan (ts : List Token) : Span :=
  match ts.find? (·.kind = .endOfInput) with
  | some t => t.span
  | none => .point ((ts.getLast?.map (·.span.stop)).getD 0)

theorem kind_of_mem_beforeEnd {ts : List Token} {t : Token} (h : t ∈ beforeEnd ts) : t.kind ≠ .endOfInput := by
  have hall := List.all_takeWhile (p := fun t : Token => t.kind ≠ .endOfInput) (l := ts)
  simpa using List.all_eq_true.1 hall t h

section
variable {ts : List Token} (h : ∀ t ∈ ts, t.kind ≠ .endOfInput) {e : Token} (he : e.kind = .endOfInput)
include h

theorem beforeEnd_eq_self : beforeEnd ts = ts := by
  have hkept : ∀ t ∈ ts, decide (t.kind ≠ .endOfInput) = true := by simpa using h
  have happend : (ts ++ []).takeWhile _ = ts ++ [].takeWhile _ := List.takeWhile_append_of_pos hkept
  rwa [List.append_nil, List.takeWhile_nil, List.append_nil] at happend

theorem endSpan_eq_point : endSpan ts = .point ((ts.getLast?.map (·.span.stop)).getD 0) := by
  have hts : ts.find? (·.kind = .endOfInput) = none := by simpa using h
  rw [endSpan, hts]

theorem closed_eq_append : closed ts = ts ++ [.endAt ((ts.getLast?.map (·.span.stop)).getD 0)] := by
  rw [closed]
  cases ht : ts.getLast? with
  | none =>
    obtain rfl := List.getLast?_eq_none_iff.1 ht
    rfl
  | some t =>
    have hk : t.kind ≠ .endOfInput := h t (List.mem_of_getLast? ht)
    simp [hk]

include he

theorem beforeEnd_append_cons (after : List Token) : beforeEnd (ts ++ e :: after) = ts := by
  rw [beforeEnd, List.takeWhile_append_of_pos (by simpa using h), List.takeWhile_cons_of_neg (by simp [he]),
    List.append_nil]

theorem endSpan_append_cons (after : List Token) : endSpan (ts ++ e :: after) = e.span := by
  have hts : ts.find? (·.kind = .endOfInput) = none := by simpa using h
  have hfind : (ts ++ e :: after).find? (·.kind = .endOfInput) = some e := by
    rw [List.find?_append, hts, Option.none_or, List.find?_cons_of_pos (by simpa using he)]
  rw [endSpan, hfind]

end

theorem beforeEnd_append_endAt {ts : List Token} (h : ∀ t ∈ ts, t.kind ≠ .endOfInput) (offset : Nat) :
    beforeEnd (ts ++ [endAt offset]) = ts :=
  beforeEnd_append_cons h rfl []

theorem endSpan_append_endAt {ts : List Token} (h : ∀ t ∈ ts, t.kind ≠ .endOfInput) (offset : Nat) :
    endSpan (ts ++ [endAt offset]) = .point offset :=
  endSpan_append_cons h rfl []

/-- An input without an end-of-input token, or one that is cut at the first of them. -/
theorem endless_or_ends (ts : List Token) :
    (∀ t ∈ ts, t.kind ≠ .endOfInput) ∨
      ∃ front e after, ts = front ++ e :: after ∧ (∀ t ∈ front, t.kind ≠ .endOfInput) ∧ e.kind = .endOfInput := by
  cases hf : ts.find? (·.kind = .endOfInput) with
  | none => exact .inl (by simpa using hf)
  | some e =>
    obtain ⟨he, front, after, rfl, hfront⟩ := List.find?_eq_some_iff_append.1 hf
    exact .inr ⟨front, e, after, rfl, by simpa using hfront, by simpa using he⟩

theorem exists_closed_append (ts : List Token) : ∃ us, closed ts = ts ++ us := by
  unfold closed
  split
  · next h =>
    obtain rfl := List.getLast?_eq_none_iff.1 h
    exact ⟨_, rfl⟩
  · split
    · exact ⟨[], (List.append_nil ts).symm⟩
    · exact ⟨_, rfl⟩

/-- Behind the tokens before the end stands an end-of-input token, at the place that is the end. -/
theorem exists_end (ts : List Token) :
    ∃ e after, closed ts = beforeEnd ts ++ e :: after ∧ e.kind = .endOfInput ∧ e.span = endSpan ts := by
  rcases endless_or_ends ts with h | ⟨front, e, after, rfl, hfront, he⟩
  · refine ⟨_, [], by rw [closed_eq_append h, beforeEnd_eq_self h], rfl, ?_⟩
    rw [endSpan_eq_point h]
    rfl
  · obtain ⟨us, hus⟩ := exists_closed_append (front ++ e :: after)
    refine ⟨e, after ++ us, ?_, he, (endSpan_append_cons hfront he after).symm⟩
    rw [hus, beforeEnd_append_cons hfront he]
    simp

theorem beforeEnd_closed (ts : List Token) : beforeEnd (closed ts) = beforeEnd ts := by
  obtain ⟨e, after, hc, he, -⟩ := exists_end ts
  rw [hc]
  exact beforeEnd_append_cons (fun _ h => kind_of_mem_beforeEnd h) he after

theorem endSpan_closed (ts : List Token) : endSpan (closed ts) = endSpan ts := by
  obtain ⟨e, after, hc, he, hs⟩ := exists_end ts
  rw [hc, ← hs]
  exact endSpan_append_cons (fun _ h => kind_of_mem_beforeEnd h) he after

end RavenLang.Token
