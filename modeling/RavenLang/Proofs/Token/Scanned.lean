import RavenLang.Proofs.Token.Spelling

/-!
# What is scanned

The texts that are scanned, and into which tokens, without a scanner: one rule for each way to cut a
lexeme off. White space is cut off one character at a time.
-/

namespace RavenLang

/-! ## Lexemes -/

/-- The kind and the text of a lexeme, and what may stand behind it. The line feed that ends a line
comment is not part of it. -/
inductive Cut : Option TokenKind → List Char → List Char → Prop
  | blank {c rest} : c.isWhitespace = true → Cut none [c] rest
  | line {inside rest} : '\n' ∉ inside → (∀ c, rest.head? = some c → c = '\n') →
      Cut none ('/' :: '/' :: inside) rest
  | block {inside rest} : ¬ ['*', '/'] <:+: inside → Cut none ('/' :: '*' :: (inside ++ ['*', '/'])) rest
  | string {inside rest} : '"' ∉ inside → Cut (some .string) ('"' :: (inside ++ ['"'])) rest
  | word {us rest} : us ≠ [] → (∀ c ∈ us, c.isAlpha = true) → (∀ c, rest.head? = some c → c.isAlpha = false) →
      Cut (some (.ofWord us)) us rest
  | digits {us rest} : Number.IsDigits us → (∀ c, rest.head? = some c → c.isDigit = false) →
      Cut (some .number) us rest
  | mark {c kind rest} : TokenKind.ofMark? c = some kind →
      (c = '/' → ∀ d, rest.head? = some d → d ≠ '/' ∧ d ≠ '*') → Cut (some kind) [c] rest

namespace Lexeme

theorem closeComment?_eq_some {cs taken rest : List Char} (h : closeComment? cs = some (taken, rest)) :
    ∃ inside, taken = inside ++ ['*', '/'] ∧ ¬ ['*', '/'] <:+: inside := by
  fun_induction closeComment? cs generalizing taken rest with
  | case1 =>
    cases h
    exact ⟨[], rfl, by simp⟩
  | case2 c cs hne ih =>
    obtain ⟨⟨i, r⟩, hi, he⟩ := Option.map_eq_some_iff.1 h
    cases he
    obtain ⟨inside, rfl, hn⟩ := ih hi
    refine ⟨c :: inside, rfl, fun hin => ?_⟩
    rcases List.infix_cons_iff.1 hin with hp | hin
    · have hcs := closeComment?_append hi
      obtain ⟨us, hus⟩ := hp
      cases hus
      exact hne _ rfl hcs.symm
    · exact hn hin
  | case3 => cases h

theorem closeString?_eq_some {cs taken rest : List Char} (h : closeString? cs = some (taken, rest)) :
    ∃ inside, taken = inside ++ ['"'] ∧ '"' ∉ inside := by
  fun_induction closeString? cs generalizing taken rest with
  | case1 =>
    cases h
    exact ⟨[], rfl, by simp⟩
  | case2 c cs hne ih =>
    obtain ⟨⟨i, r⟩, hi, he⟩ := Option.map_eq_some_iff.1 h
    cases he
    obtain ⟨inside, rfl, hn⟩ := ih hi
    exact ⟨c :: inside, rfl, by simp [hn, Ne.symm hne]⟩
  | case3 => cases h

theorem head?_dropWhile_eq_false {p : Char → Bool} {cs : List Char} {c : Char}
    (h : (cs.dropWhile p).head? = some c) : p c = false := by
  have := List.head?_dropWhile_not p cs
  rw [h] at this
  simpa using this

theorem cut_of_next {c : Char} {cs : List Char} {l : Lexeme (c :: cs)} (h : next c cs = .ok l)
    (hc : c.isWhitespace = false) : Cut l.kind l.taken l.rest := by
  unfold next at h
  split at h
  · cases h
    refine @Cut.line (List.takeWhile (· != '\n') _) _ (fun hm => ?_) fun c hc => ?_
    · simpa using List.mem_takeWhile_imp hm
    · simpa using head?_dropWhile_eq_false hc
  · rw [comment] at h
    split at h
    · next hs =>
      cases h
      obtain ⟨inside, rfl, hn⟩ := closeComment?_eq_some hs
      exact .block hn
    · cases h
  · rw [string] at h
    split at h
    · next hs =>
      cases h
      obtain ⟨inside, rfl, hn⟩ := closeString?_eq_some hs
      exact .string hn
    · cases h
  · next hl hb =>
    rw [if_neg (by simp [hc])] at h
    split_ifs at h with ha hd
    · cases h
      refine .word (List.cons_ne_nil _ _) (fun d hd => ?_) fun d hd => head?_dropWhile_eq_false hd
      rcases List.mem_cons.1 hd with rfl | hd
      · exact ha
      · exact List.mem_takeWhile_imp hd
    · cases h
      refine .digits ⟨List.cons_ne_nil _ _, fun d hm => ?_⟩ fun d hd => head?_dropWhile_eq_false hd
      rcases List.mem_cons.1 hm with rfl | hm
      · exact hd
      · exact List.mem_takeWhile_imp hm
    · rw [mark] at h
      split at h
      · next hm =>
        cases h
        refine .mark hm fun hc d hd => ?_
        cases cs with
        | nil => cases hd
        | cons e es =>
          cases hd
          exact ⟨fun h => hl es hc (by rw [h]), fun h => hb es hc (by rw [h])⟩
      · cases h

end Lexeme

theorem Cut.ne_nil {kind : Option TokenKind} {taken rest : List Char} (h : Cut kind taken rest) :
    taken ≠ [] := by
  cases h with
  | word h => exact h
  | digits h => exact h.1
  | _ => exact List.cons_ne_nil _ _

theorem Cut.of_isWhitespace {kind : Option TokenKind} {c : Char} {us rest : List Char}
    (h : Cut kind (c :: us) rest) (hc : c.isWhitespace = true) : us = [] := by
  have hn {b : Bool} (ha : b = true) (hb : c.isAlphanum = b) : c.isWhitespace = false :=
    isWhitespace_of_isAlphanum (hb.trans ha)
  cases h with
  | blank => rfl
  | mark => rfl
  | line | block | string => exact absurd hc (by decide)
  | word _ ha => exact absurd hc (by simp [hn rfl (by simp [Char.isAlphanum, ha c List.mem_cons_self])])
  | digits hd => exact absurd hc (by simp [hn rfl (by simp [Char.isAlphanum, hd.2 c List.mem_cons_self])])

theorem Cut.next {kind : Option TokenKind} {c : Char} {us rest : List Char} (h : Cut kind (c :: us) rest)
    (hc : c.isWhitespace = false) :
    (Lexeme.next c (us ++ rest)).map Lexeme.cut = .ok (kind, c :: us, rest) := by
  cases h with
  | blank hw => rw [hw] at hc; cases hc
  | line hi hr => exact Lexeme.next_line hi hr
  | block hi =>
    rw [List.cons_append, List.append_assoc]
    exact Lexeme.next_block hi rest
  | string hi =>
    rw [List.append_assoc]
    exact Lexeme.next_string hi rest
  | word _ ha hr =>
    have hn := Lexeme.next_word (ha c List.mem_cons_self) (us ++ rest)
    have hrun := run_append (fun d hd => ha d (List.mem_cons_of_mem c hd)) hr
    rwa [hrun.1, hrun.2] at hn
  | digits hd hr =>
    have hn := Lexeme.next_digits (hd.2 c List.mem_cons_self) (us ++ rest)
    have hrun := run_append (fun d hm => hd.2 d (List.mem_cons_of_mem c hm)) hr
    rwa [hrun.1, hrun.2] at hn
  | mark hm hr => exact Lexeme.next_mark hm hr

theorem Cut.before_line {kind : Option TokenKind} {taken rest : List Char} (h : Cut kind taken rest)
    (ds : List Char) : Cut kind taken (rest ++ '\n' :: ds) := by
  have hhead {c : Char} (hc : (rest ++ '\n' :: ds).head? = some c) : rest.head? = some c ∨ c = '\n' := by
    cases rest with
    | nil => exact .inr (Option.some.inj hc).symm
    | cons d rest => exact .inl hc
  cases h with
  | blank hc => exact .blank hc
  | line hi hr => exact .line hi fun c hc => (hhead hc).elim (hr c) id
  | block hi => exact .block hi
  | string hi => exact .string hi
  | word hne ha hr => exact .word hne ha fun c hc => (hhead hc).elim (hr c) fun h => h ▸ by decide
  | digits hd hr => exact .digits hd fun c hc => (hhead hc).elim (hr c) fun h => h ▸ by decide
  | mark hm hr =>
    exact .mark hm fun hs c hc => (hhead hc).elim (hr hs c) fun h => h ▸ by decide

/-- The token that a lexeme is, without its place. -/
def Piece.ofCut (kind : TokenKind) (taken : List Char) : Piece :=
  ⟨kind, .ofList (if kind = .string then taken.tail.dropLast else taken)⟩

theorem Piece.runsInto_of_isWord {p : Piece} (h : p.kind.isWord = true) (c : Char) :
    p.runsInto c = c.isAlpha := by
  rw [runsInto]
  split
  · next hk => simp [hk, TokenKind.isWord] at h
  · next hk => simp [hk, TokenKind.isWord] at h
  · rw [h, Bool.true_and]

/-- Every token is cut off as its piece is spelled, and does not run into what follows. -/
theorem Cut.piece {kind : TokenKind} {taken rest : List Char} (h : Cut (some kind) taken rest) :
    kind.Fits (Piece.ofCut kind taken).text.toList ∧ (Piece.ofCut kind taken).spelled = taken ∧
      ∀ c, rest.head? = some c → (Piece.ofCut kind taken).runsInto c = false := by
  cases h with
  | string hi => exact ⟨.string (by simpa [Piece.ofCut] using hi), by simp [Piece.ofCut, Piece.spelled], by
      simp [Piece.ofCut, Piece.runsInto, TokenKind.isWord]⟩
  | word hne ha hr =>
    have hw := TokenKind.isWord_ofWord taken
    have hs : TokenKind.ofWord taken ≠ .string := fun hs => by simp [hs, TokenKind.isWord] at hw
    have ht : Piece.ofCut (.ofWord taken) taken = ⟨.ofWord taken, .ofList taken⟩ := by simp [Piece.ofCut, hs]
    rw [ht]
    refine ⟨by simpa using TokenKind.Fits.word hne ha, by simp [Piece.spelled, hs], fun c hc => ?_⟩
    rw [Piece.runsInto_of_isWord hw]
    exact hr c hc
  | digits hd hr =>
    exact ⟨.number (by simpa [Piece.ofCut] using hd), by simp [Piece.ofCut, Piece.spelled], by
      simpa [Piece.ofCut, Piece.runsInto] using hr⟩
  | @mark c _ _ hm hr =>
    obtain ⟨hs, hn, -, hw⟩ := TokenKind.not_isWord_of_ofMark? hm
    have ht : Piece.ofCut kind [c] = ⟨kind, .ofList [c]⟩ := by simp [Piece.ofCut, hs]
    rw [ht]
    refine ⟨by simpa using TokenKind.Fits.mark hm, by simp [Piece.spelled, hs], fun d hd => ?_⟩
    rw [Piece.runsInto]
    split
    · next hk => exact absurd hk hn
    · next hk =>
      by_cases hc : c = '/'
      · simp [hr hc d hd]
      · have ht : String.ofList [c] ≠ "/" := fun h => hc (by simpa using congrArg String.toList h)
        exact Bool.and_eq_false_imp.2 fun h => absurd (of_decide_eq_true h) ht
    · simp [hw]

theorem Cut.scan_trivia {taken rest : List Char} (h : Cut none taken rest) (o : Nat) :
    Token.scan o (taken ++ rest) = Token.scan (o + Text.size taken) rest := by
  cases h with
  | blank hc => exact (Token.scan_blank hc o rest).trans (by simp)
  | line hi hr => exact Token.scan_of_trivia (Lexeme.next_line hi hr) o
  | block hi =>
    have hn := Token.scan_of_trivia (Lexeme.next_block hi rest) o
    simpa using hn

theorem Cut.scan_token {kind : TokenKind} {taken rest : List Char} (h : Cut (some kind) taken rest) (o : Nat) :
    Token.scan o (taken ++ rest) = (Token.scan (o + Text.size taken) rest).map
      (⟨kind, (Piece.ofCut kind taken).text, ⟨o, o + Text.size taken⟩⟩ :: ·) := by
  obtain ⟨hf, hs, hr⟩ := h.piece
  have hp := Token.scan_piece hf hr o
  rwa [hs] at hp

/-! ## Texts -/

/-- From an offset on a text is cut into these tokens. -/
inductive Scanned : Nat → List Char → List Token → Prop
  | nil {o} : Scanned o [] []
  | trivia {o taken rest ts} : Cut none taken rest → Scanned (o + Text.size taken) rest ts →
      Scanned o (taken ++ rest) ts
  | token {o kind taken rest ts} : Cut (some kind) taken rest → Scanned (o + Text.size taken) rest ts →
      Scanned o (taken ++ rest) (⟨kind, (Piece.ofCut kind taken).text, ⟨o, o + Text.size taken⟩⟩ :: ts)

namespace Scanned

theorem of_scan {o : Nat} {cs : List Char} {us : List Token} (h : Token.scan o cs = .ok us) :
    ∃ ts, us = ts ++ [.endAt (o + Text.size cs)] ∧ Scanned o cs ts := by
  induction hn : cs.length using Nat.strongRecOn generalizing o cs us with
  | ind n ih =>
    subst hn
    match cs with
    | [] =>
      rw [Token.scan] at h
      cases h
      exact ⟨[], rfl, .nil⟩
    | c :: cs =>
      cases hc : c.isWhitespace with
      | true =>
        rw [Token.scan_blank hc] at h
        obtain ⟨ts, rfl, hs⟩ := ih cs.length (Nat.lt_succ_self _) h rfl
        exact ⟨ts, by rw [Text.size_cons, Nat.add_assoc], .trivia (.blank hc) (by simpa using hs)⟩
      | false =>
        cases hl : Lexeme.next c cs with
        | error cause =>
          rw [Token.scan, hl] at h
          cases h
        | ok l =>
          have hcut := Lexeme.cut_of_next hl hc
          have hm : (Lexeme.next c cs).map Lexeme.cut = .ok (l.kind, l.taken, l.rest) := by rw [hl]; rfl
          have hlt := l.rest_length_lt
          have hrest := l.taken_append_rest
          generalize l.kind = kind, l.taken = taken, l.rest = rest at hcut hm hlt hrest
          have hsize : o + Text.size (c :: cs) = o + Text.size taken + Text.size rest := by
            rw [← hrest, Text.size_append, Nat.add_assoc]
          rw [hsize, ← hrest]
          cases kind with
          | none =>
            rw [Token.scan_of_trivia hm] at h
            obtain ⟨ts, rfl, hs⟩ := ih rest.length hlt h rfl
            exact ⟨ts, rfl, .trivia hcut hs⟩
          | some kind =>
            rw [Token.scan_of_token hm] at h
            cases hr : Token.scan (o + Text.size taken) rest with
            | error fault => rw [hr] at h; cases h
            | ok vs =>
              obtain ⟨ts, rfl, hs⟩ := ih rest.length hlt hr rfl
              rw [hr] at h
              cases h
              exact ⟨_, rfl, .token hcut hs⟩

theorem scan {o : Nat} {cs : List Char} {ts : List Token} (h : Scanned o cs ts) :
    Token.scan o cs = .ok (ts ++ [.endAt (o + Text.size cs)]) := by
  induction h with
  | nil => rw [Token.scan]; rfl
  | trivia hcut _ ih => rw [hcut.scan_trivia, ih, Text.size_append, Nat.add_assoc]
  | token hcut _ ih =>
    rw [hcut.scan_token, ih, Text.size_append, Nat.add_assoc]
    rfl

/-- What is scanned, exactly. -/
theorem scan_eq_ok_iff {o : Nat} {cs : List Char} {us : List Token} :
    Token.scan o cs = .ok us ↔ ∃ ts, us = ts ++ [.endAt (o + Text.size cs)] ∧ Scanned o cs ts := by
  refine ⟨of_scan, ?_⟩
  rintro ⟨ts, rfl, h⟩
  exact h.scan

theorem scan_lines {o : Nat} {cs : List Char} {ts : List Token} (h : Scanned o cs ts) (ds : List Char) :
    Token.scan o (cs ++ '\n' :: ds) = (Token.scan (o + Text.size cs + 1) ds).map (ts ++ ·) := by
  induction h with
  | @nil o =>
    have hs : Token.scan o ([] ++ '\n' :: ds) = Token.scan (o + Text.size [] + 1) ds :=
      Token.scan_blank (by decide) o ds
    rw [hs]
    cases Token.scan (o + Text.size [] + 1) ds <;> rfl
  | trivia hcut _ ih =>
    rw [List.append_assoc, (hcut.before_line ds).scan_trivia, ih, Text.size_append, ← Nat.add_assoc]
  | @token o _ taken rest _ hcut _ ih =>
    rw [List.append_assoc, (hcut.before_line ds).scan_token, ih, Text.size_append, ← Nat.add_assoc]
    cases Token.scan (o + Text.size taken + Text.size rest + 1) ds <;> rfl

theorem iff_of_scan {o k : Nat} {cs ds : List Char} {ts vs : List Token}
    (h : Token.scan o cs = (Token.scan k ds).map (ts ++ ·)) :
    Scanned o cs vs ↔ ∃ us, vs = ts ++ us ∧ Scanned k ds us := by
  have snoc {us ws : List Token} {e e' : Token} (he : ts ++ (us ++ [e]) = ws ++ [e']) : ws = ts ++ us := by
    rw [← List.append_assoc] at he
    exact (List.append_inj_left' he rfl).symm
  constructor
  · intro hv
    rw [hv.scan] at h
    cases hd : Token.scan k ds with
    | error fault =>
      rw [hd] at h
      cases h
    | ok us =>
      obtain ⟨us, rfl, hus⟩ := of_scan hd
      rw [hd] at h
      exact ⟨us, snoc (Except.ok.inj h).symm, hus⟩
  · intro hv
    obtain ⟨us, rfl, hus⟩ := hv
    rw [hus.scan] at h
    obtain ⟨ws, he, hws⟩ := of_scan h
    exact snoc he ▸ hws

/-- A line feed parts what stands before it from what stands behind it. -/
theorem lines_iff {o : Nat} {cs ds : List Char} {ts vs : List Token} (h : Scanned o cs ts) :
    Scanned o (cs ++ '\n' :: ds) vs ↔ ∃ us, vs = ts ++ us ∧ Scanned (o + Text.size cs + 1) ds us :=
  iff_of_scan (h.scan_lines ds)

end Scanned

end RavenLang
