import RavenLang.Proofs.Text.Slices
import RavenLang.Proofs.Token.Scanned

/-!
# Where scanning stops

A text is cut up to the first place where no lexeme starts, whatever follows there. More text can mend
only a string or a comment that is not closed.
-/

namespace RavenLang

/-- The rest of a text at which no lexeme can be cut off, and why. -/
inductive Uncut : List Char → LexicalCause → Prop
  | string {cs} : '"' ∉ cs → Uncut ('"' :: cs) .unterminatedString
  | comment {cs} : ¬ ['*', '/'] <:+: cs → Uncut ('/' :: '*' :: cs) .unterminatedComment
  | character {c cs} : c.isWhitespace = false → c.isAlphanum = false → c ≠ '"' → TokenKind.ofMark? c = none →
      Uncut (c :: cs) (.invalidCharacter c)

theorem Uncut.ne_nil {rest : List Char} {cause : LexicalCause} (h : Uncut rest cause) : rest ≠ [] := by
  cases h <;> exact List.cons_ne_nil _ _

/-! ## Lexemes -/

namespace Lexeme

theorem closeString?_eq_none {cs : List Char} (h : closeString? cs = none) : '"' ∉ cs := by
  intro hq
  obtain ⟨inside, rest, rfl, hinside⟩ := List.eq_append_cons_of_mem hq
  rw [closeString?_append_quote hinside] at h
  cases h

theorem closeComment?_eq_none {cs : List Char} (h : closeComment? cs = none) : ¬ ['*', '/'] <:+: cs := by
  fun_induction closeComment? cs with
  | case1 => cases h
  | case2 c cs hne ih =>
    intro hin
    rcases List.infix_cons_iff.1 hin with ⟨us, hus⟩ | hin
    · cases hus
      exact hne us rfl rfl
    · exact ih (Option.map_eq_none_iff.1 h) hin
  | case3 => simp

theorem uncut_of_next {c : Char} {cs : List Char} {cause : LexicalCause} (h : next c cs = .error cause) :
    Uncut (c :: cs) cause := by
  unfold next at h
  split at h
  · cases h
  · rw [comment] at h
    split at h
    · cases h
    · next hn =>
      cases h
      exact .comment (closeComment?_eq_none hn)
  · rw [string] at h
    split at h
    · cases h
    · next hn =>
      cases h
      exact .string (closeString?_eq_none hn)
  · next hq _ _ =>
    split_ifs at h with hw ha hd
    rw [mark] at h
    split at h
    · cases h
    · next hm =>
      cases h
      exact .character (by simpa using hw) (by simp [Char.isAlphanum, ha, hd]) hq hm

end Lexeme

namespace Cut

variable {kind : Option TokenKind} {taken rest cs : List Char} {c : Char}

theorem congr_head {rest' : List Char} (h : Cut kind taken rest) (hh : rest'.head? = rest.head?) :
    Cut kind taken rest' := by
  cases h with
  | blank hc => exact .blank hc
  | line hi hr => exact .line hi (hh ▸ hr)
  | block hi => exact .block hi
  | string hi => exact .string hi
  | word hne ha hr => exact .word hne ha (hh ▸ hr)
  | digits hd hr => exact .digits hd (hh ▸ hr)
  | mark hm hr => exact .mark hm (hh ▸ hr)

theorem of_append {more : List Char} (h : Cut kind taken (rest ++ more)) : Cut kind taken rest := by
  have hhead {c : Char} (hc : rest.head? = some c) : (rest ++ more).head? = some c := by
    rw [List.head?_append, hc]
    rfl
  cases h with
  | blank hc => exact .blank hc
  | line hi hr => exact .line hi fun c hc => hr c (hhead hc)
  | block hi => exact .block hi
  | string hi => exact .string hi
  | word hne ha hr => exact .word hne ha fun c hc => hr c (hhead hc)
  | digits hd hr => exact .digits hd fun c hc => hr c (hhead hc)
  | mark hm hr => exact .mark hm fun hs c hc => hr hs c (hhead hc)

/-- A lexeme is told by its first character. -/
theorem of_head (h : Cut kind taken rest) (hcs : taken ++ rest = c :: cs) :
    c.isWhitespace = true ∨ c.isAlphanum = true ∨ c = '"' ∧ kind = some .string ∨
      (TokenKind.ofMark? c).isSome = true := by
  cases h with
  | blank hc =>
    cases hcs
    exact .inl hc
  | line | block =>
    cases hcs
    exact .inr (.inr (.inr rfl))
  | string =>
    cases hcs
    exact .inr (.inr (.inl ⟨rfl, rfl⟩))
  | word hne ha =>
    obtain ⟨d, us, rfl⟩ := List.exists_cons_of_ne_nil hne
    cases hcs
    exact .inr (.inl (by simp [Char.isAlphanum, ha c List.mem_cons_self]))
  | digits hd =>
    obtain ⟨d, us, rfl⟩ := List.exists_cons_of_ne_nil hd.1
    cases hcs
    exact .inr (.inl (by simp [Char.isAlphanum, hd.2 c List.mem_cons_self]))
  | mark hm =>
    cases hcs
    exact .inr (.inr (.inr (by rw [hm]; rfl)))

end Cut

/-! ## Texts -/

namespace Scanned

variable {o : Nat} {c : Char} {cs : List Char} {ts : List Token}

theorem head_string (h : Scanned o ('"' :: cs) ts) : ∃ t us, ts = t :: us ∧ t.kind = .string := by
  generalize hds : '"' :: cs = ds at h
  cases h with
  | nil => cases hds
  | trivia hcut =>
    rcases hcut.of_head hds.symm with h | h | ⟨-, h⟩ | h <;> exact absurd h (by decide)
  | token hcut =>
    rcases hcut.of_head hds.symm with h | h | ⟨-, h⟩ | h
    · exact absurd h (by decide)
    · exact absurd h (by decide)
    · exact ⟨_, _, rfl, Option.some.inj h⟩
    · exact absurd h (by decide)

theorem not_invalid {d : Char} (hu : Uncut (c :: cs) (.invalidCharacter d)) (ds : List Char) :
    ¬ Scanned o (c :: ds) ts := by
  intro h
  generalize hes : c :: ds = es at h
  cases hu with
  | character hw ha hq hm =>
    have none {kind : Option TokenKind} {taken rest : List Char} (hcut : Cut kind taken rest)
        (hcs : c :: ds = taken ++ rest) : False := by
      rcases hcut.of_head hcs.symm with h | h | ⟨h, -⟩ | h
      · rw [hw] at h; cases h
      · rw [ha] at h; cases h
      · exact hq h
      · rw [hm] at h; cases h
    cases h with
    | nil => cases hes
    | trivia hcut => exact none hcut hes
    | token hcut => exact none hcut hes

end Scanned

/-- A lexeme is cut off in the same way before every text that begins with the same character. -/
theorem Cut.exists_scan {kind : Option TokenKind} {taken rest : List Char} (h : Cut kind taken rest) (o : Nat) :
    ∃ ts, ∀ rest' : List Char, rest'.head? = rest.head? →
      Token.scan o (taken ++ rest') = (Token.scan (o + Text.size taken) rest').map (ts ++ ·) := by
  cases kind with
  | none =>
    refine ⟨[], fun rest' hh => ?_⟩
    rw [(h.congr_head hh).scan_trivia]
    cases Token.scan (o + Text.size taken) rest' <;> rfl
  | some kind => exact ⟨[_], fun rest' hh => (h.congr_head hh).scan_token o⟩

theorem Lexeme.exists_cut {c : Char} {cs : List Char} {l : Lexeme (c :: cs)} (h : next c cs = .ok l) :
    ∃ kind taken rest, taken ++ rest = c :: cs ∧ rest.length < (c :: cs).length ∧ Cut kind taken rest := by
  cases hc : c.isWhitespace with
  | true => exact ⟨none, [c], cs, rfl, Nat.lt_succ_self _, .blank hc⟩
  | false => exact ⟨l.kind, l.taken, l.rest, l.taken_append_rest, l.rest_length_lt, cut_of_next h hc⟩

/-- In front of a rest, from an offset on, a text is cut into these tokens. -/
inductive ScannedBefore (rest : List Char) : Nat → List Char → List Token → Prop
  | nil {o} : ScannedBefore rest o [] []
  | trivia {o taken us ts} : Cut none taken (us ++ rest) → ScannedBefore rest (o + Text.size taken) us ts →
      ScannedBefore rest o (taken ++ us) ts
  | token {o kind taken us ts} : Cut (some kind) taken (us ++ rest) →
      ScannedBefore rest (o + Text.size taken) us ts →
      ScannedBefore rest o (taken ++ us)
        (⟨kind, (Piece.ofCut kind taken).text, ⟨o, o + Text.size taken⟩⟩ :: ts)

namespace ScannedBefore

variable {rest rest' cs : List Char} {o : Nat} {ts : List Token}

/-- Of the rest only its first character matters. -/
theorem congr_head (h : ScannedBefore rest o cs ts) (hh : rest'.head? = rest.head?) :
    ScannedBefore rest' o cs ts := by
  have happ (us : List Char) : (us ++ rest').head? = (us ++ rest).head? := by
    rw [List.head?_append, List.head?_append, hh]
  induction h with
  | nil => exact .nil
  | trivia hcut _ ih => exact .trivia (hcut.congr_head (happ _)) ih
  | token hcut _ ih => exact .token (hcut.congr_head (happ _)) ih

/-- The rest need not be there. -/
theorem alone (h : ScannedBefore rest o cs ts) : Scanned o cs ts := by
  induction h with
  | nil => exact .nil
  | trivia hcut _ ih => exact .trivia hcut.of_append ih
  | token hcut _ ih => exact .token hcut.of_append ih

theorem of_scanned (h : Scanned o cs ts) : ScannedBefore [] o cs ts := by
  induction h with
  | nil => exact .nil
  | trivia hcut _ ih => exact .trivia ((List.append_nil _).symm ▸ hcut) ih
  | token hcut _ ih => exact .token ((List.append_nil _).symm ▸ hcut) ih

theorem scan (h : ScannedBefore rest o cs ts) :
    Token.scan o (cs ++ rest) = (Token.scan (o + Text.size cs) rest).map (ts ++ ·) := by
  induction h with
  | @nil o =>
    rw [List.nil_append, Text.size_nil, Nat.add_zero]
    cases Token.scan o rest <;> rfl
  | trivia hcut _ ih => rw [List.append_assoc, hcut.scan_trivia, ih, Text.size_append, ← Nat.add_assoc]
  | @token o _ taken us _ hcut _ ih =>
    rw [List.append_assoc, hcut.scan_token, ih, Text.size_append, ← Nat.add_assoc]
    cases Token.scan (o + Text.size taken + Text.size us) rest <;> rfl

theorem exists_of_cut {kind : Option TokenKind} {taken us : List Char} (hcut : Cut kind taken (us ++ rest))
    (h : ScannedBefore rest (o + Text.size taken) us ts) : ∃ vs, ScannedBefore rest o (taken ++ us) vs := by
  cases kind with
  | none => exact ⟨ts, .trivia hcut h⟩
  | some kind => exact ⟨_, .token hcut h⟩

end ScannedBefore

/-- A text that is not cut up to its end is cut up to where no lexeme starts. -/
theorem Token.exists_scannedBefore {o : Nat} {cs : List Char} {fault : LexicalFault}
    (h : scan o cs = .error fault) :
    ∃ before rest ts, cs = before ++ rest ∧ ScannedBefore rest o before ts ∧ Uncut rest fault.cause ∧
      fault.span.start = o + Text.size before := by
  induction hn : cs.length using Nat.strongRecOn generalizing o cs with
  | ind n ih =>
    subst hn
    cases cs with
    | nil =>
      rw [scan] at h
      cases h
    | cons c cs =>
      cases hl : Lexeme.next c cs with
      | error cause =>
        rw [scan, hl] at h
        cases h
        exact ⟨[], c :: cs, [], rfl, .nil, Lexeme.uncut_of_next hl, rfl⟩
      | ok l =>
        obtain ⟨kind, taken, rest, hcs, hlt, hcut⟩ := Lexeme.exists_cut hl
        obtain ⟨ts, hts⟩ := hcut.exists_scan o
        rw [← hcs, hts rest rfl] at h
        cases hr : scan (o + Text.size taken) rest with
        | ok us =>
          rw [hr] at h
          cases h
        | error fault' =>
          rw [hr] at h
          cases h
          obtain ⟨before, rest, us, rfl, hbefore, hu, hstart⟩ := ih _ hlt hr rfl
          obtain ⟨vs, hvs⟩ := ScannedBefore.exists_of_cut hcut hbefore
          refine ⟨taken ++ before, rest, vs, by rw [← hcs, List.append_assoc], hvs, hu, ?_⟩
          rw [hstart, Text.size_append, Nat.add_assoc]

/-- What stands before the place at which scanning stops is cut into tokens whatever follows, and the rest
is cut apart from it. -/
theorem Token.scan_eq_error {o : Nat} {cs : List Char} {fault : LexicalFault} (h : scan o cs = .error fault) :
    ∃ before rest ts, cs = before ++ rest ∧ Uncut rest fault.cause ∧
      ∀ more, scan o (cs ++ more) = (scan (o + Text.size before) (rest ++ more)).map (ts ++ ·) := by
  obtain ⟨before, rest, ts, rfl, hbefore, hu, -⟩ := exists_scannedBefore h
  refine ⟨before, rest, ts, rfl, hu, fun more => ?_⟩
  rw [List.append_assoc]
  exact (hbefore.congr_head (List.head?_append_of_ne_nil _ hu.ne_nil)).scan

/-! ## Text directly behind -/

theorem Scanned.eq_nil {o : Nat} {ts : List Token} (h : Scanned o [] ts) : ts = [] := by
  have hscan := (@Scanned.nil o).scan.symm.trans h.scan
  simpa using hscan

/-- The last lexeme of a text is cut off behind what stands before it. It is a token that ends with the text, or
trivia. -/
theorem Scanned.exists_last {o : Nat} {cs : List Char} {ts : List Token} (h : Scanned o cs ts) (hne : cs ≠ []) :
    ∃ before taken kind init, cs = before ++ taken ∧ ScannedBefore taken o before init ∧ Cut kind taken [] ∧
      ts = init ++ (kind.map fun kind =>
        ⟨kind, (Piece.ofCut kind taken).text, ⟨o + Text.size before, o + Text.size cs⟩⟩).toList := by
  induction h with
  | nil => exact absurd rfl hne
  | @trivia o taken rest ts hcut hs ih =>
    cases rest with
    | nil =>
      obtain rfl := hs.eq_nil
      exact ⟨[], taken, none, [], by simp, .nil, hcut, rfl⟩
    | cons c rest =>
      obtain ⟨before, last, kind, init, he, hb, hlast, rfl⟩ := ih (List.cons_ne_nil c rest)
      rw [he] at hcut ⊢
      exact ⟨taken ++ before, last, kind, init, by simp, .trivia hcut hb, hlast, by simp [Nat.add_assoc]⟩
  | @token o _ taken rest ts hcut hs ih =>
    cases rest with
    | nil =>
      obtain rfl := hs.eq_nil
      exact ⟨[], taken, some _, [], by simp, .nil, hcut, by simp⟩
    | cons c rest =>
      obtain ⟨before, last, kind, init, he, hb, hlast, rfl⟩ := ih (List.cons_ne_nil c rest)
      rw [he] at hcut ⊢
      exact ⟨taken ++ before, last, kind, _, by simp, .token hcut hb, hlast, by simp [Nat.add_assoc]⟩

theorem ScannedBefore.stop_le {rest cs : List Char} {o : Nat} {ts : List Token} (h : ScannedBefore rest o cs ts) :
    ∀ t ∈ ts, t.span.stop ≤ o + Text.size cs := by
  induction h with
  | nil => exact List.forall_mem_nil _
  | trivia _ _ ih => simpa [← Nat.add_assoc] using ih
  | token _ _ ih => simpa [← Nat.add_assoc] using ih

/-- A token that a text ends with is its last lexeme. -/
theorem Scanned.exists_ending {o : Nat} {cs : List Char} {ts : List Token} {t : Token} (h : Scanned o cs (ts ++ [t]))
    (hstop : t.span.stop = o + Text.size cs) :
    ∃ before taken, cs = before ++ taken ∧ ScannedBefore taken o before ts ∧ Cut (some t.kind) taken [] ∧
      t.text = (Piece.ofCut t.kind taken).text ∧ t.span.start = o + Text.size before := by
  have hne : cs ≠ [] := by
    rintro rfl
    simpa using h.eq_nil
  obtain ⟨before, taken, kind, init, rfl, hb, hlast, hts⟩ := h.exists_last hne
  cases kind with
  | none =>
    -- behind the tokens there is more
    obtain rfl : ts ++ [t] = init := hts.trans (List.append_nil init)
    have hle := hb.stop_le t (by simp)
    have hpos := mt Text.size_eq_zero.1 hlast.ne_nil
    rw [hstop, Text.size_append] at hle
    omega
  | some kind =>
    obtain ⟨rfl, ht⟩ := List.append_inj' hts rfl
    obtain rfl := List.singleton_inj.1 ht
    exact ⟨before, taken, rfl, hb, hlast, rfl, rfl⟩

/-- The same kind, or another word. -/
def TokenKind.Kindred (kind kind' : TokenKind) : Prop :=
  kind' = kind ∨ kind.isWord = true ∧ kind'.isWord = true

/-- Text directly behind a token makes it longer or leaves it as it is, but a slash may begin a comment. -/
theorem Cut.lengthened {kind : TokenKind} {taken : List Char} (h : Cut (some kind) taken []) (more : List Char) :
    kind = .operator ∧ taken = ['/'] ∨
      ∃ kind' us rest, more = us ++ rest ∧ Cut (some kind') (taken ++ us) rest ∧ kind.Kindred kind' := by
  cases h with
  | string hi => exact .inr ⟨_, [], more, rfl, by simpa using Cut.string hi, .inl rfl⟩
  | word hne ha =>
    refine .inr ⟨_, more.takeWhile Char.isAlpha, more.dropWhile Char.isAlpha, by simp,
      .word (by simp [hne]) (List.forall_mem_append.2 ⟨ha, fun c hc => List.mem_takeWhile_imp hc⟩) ?_,
      .inr ⟨TokenKind.isWord_ofWord _, TokenKind.isWord_ofWord _⟩⟩
    exact fun c hc => Lexeme.head?_dropWhile_eq_false hc
  | digits hd =>
    refine .inr ⟨_, more.takeWhile Char.isDigit, more.dropWhile Char.isDigit, by simp,
      .digits ⟨by simp [hd.1], List.forall_mem_append.2 ⟨hd.2, fun c hc => List.mem_takeWhile_imp hc⟩⟩ ?_, .inl rfl⟩
    exact fun c hc => Lexeme.head?_dropWhile_eq_false hc
  | @mark c _ _ hm _ =>
    by_cases hc : c = '/'
    · subst hc
      exact .inl ⟨(Option.some.inj hm).symm, rfl⟩
    · exact .inr ⟨_, [], more, rfl, .mark hm fun h => absurd h hc, .inl rfl⟩

/-- Text directly behind another leaves its tokens as they are, but for one that the text ends with. -/
theorem Scanned.directly {o : Nat} {cs more : List Char} {ts vs : List Token} (h : Scanned o cs ts)
    (hv : Scanned o (cs ++ more) vs) :
    (∃ us, vs = ts ++ us) ∨ ∃ init t us, ts = init ++ [t] ∧ vs = init ++ us ∧
      (t.kind = .operator ∧ t.text = "/" ∧ t.span.stop = o + Text.size cs ∨
        ∃ t' ws, us = t' :: ws ∧ t.kind.Kindred t'.kind) := by
  by_cases hne : cs = []
  · subst hne
    obtain rfl := h.eq_nil
    exact .inl ⟨vs, rfl⟩
  obtain ⟨before, taken, kind, init, rfl, hb, hlast, rfl⟩ := h.exists_last hne
  have hscan := (hb.congr_head (List.head?_append_of_ne_nil _ hlast.ne_nil : (taken ++ more).head? = _)).scan
  rw [← List.append_assoc] at hscan
  obtain ⟨us, rfl, hus⟩ := (Scanned.iff_of_scan hscan).1 hv
  cases kind with
  | none => exact .inl ⟨us, by simp⟩
  | some kind =>
    refine .inr ⟨init, _, us, rfl, rfl, ?_⟩
    rcases hlast.lengthened more with ⟨rfl, rfl⟩ | ⟨kind', ws, rest, rfl, hcut, hk⟩
    · exact .inl ⟨rfl, rfl, rfl⟩
    · rw [← List.append_assoc] at hus
      obtain ⟨ws, rfl, -⟩ := (@Scanned.iff_of_scan _ _ _ _ [_] _ (hcut.scan_token _)).1 hus
      exact .inr ⟨_, ws, rfl, hk⟩

end RavenLang
