import RavenLang.Grammar.Reading

/-!
# What readers read

A reader is exact for a relation if it reads the heads that the relation allows
before the rest, and no others. `many` is exact for repetitions if its phrase is.
-/

namespace RavenLang.Grammar

variable {α β : Type} {n : Nat}

def Reads (r : Reading α n) (v : α) (rest : List Token) : Prop := ∃ h, r = .ok ⟨v, rest, h⟩

def ReadsMany (r : Except SyntaxFault (Phrases α n)) (vs : List α) (rest : List Token) : Prop :=
  ∃ h, r = .ok ⟨vs, rest, h⟩

/-- `D v us rest` says that the tokens `us` before `rest` are read as `v`. -/
def Exact {P : List Token → Prop} (D : α → List Token → List Token → Prop)
    (reader : ∀ ts : List Token, P ts → Reading α ts.length) : Prop :=
  ∀ ts h v rest, Reads (reader ts h) v rest ↔ ∃ us, ts = us ++ rest ∧ D v us rest

/-! ## Sequencing -/

theorem Reads.of_eq {r : Reading α n} {p : Phrase α n} (h : r = .ok p) :
    Reads r p.value p.rest := ⟨p.rest_lt, h⟩

theorem Reads.lt {r : Reading α n} {v : α} {rest : List Token} (h : Reads r v rest) : rest.length < n :=
  h.elim fun h _ => h

theorem Reads.unique {r : Reading α n} {v w : α} {us vs : List Token} (h : Reads r v us) (h' : Reads r w vs) :
    v = w ∧ us = vs := by
  obtain ⟨_, h⟩ := h
  obtain ⟨_, h'⟩ := h'
  rw [h] at h'
  cases h'
  exact ⟨rfl, rfl⟩

@[simp] theorem reads_ok (p : Phrase α n) (v : α) (rest : List Token) :
    Reads (.ok p) v rest ↔ p.value = v ∧ p.rest = rest := by
  constructor
  · intro h
    obtain ⟨_, h⟩ := h
    cases h
    exact ⟨rfl, rfl⟩
  · intro h
    obtain ⟨rfl, rfl⟩ := h
    exact ⟨p.rest_lt, rfl⟩

@[simp] theorem reads_pure (p : Phrase α n) (v : α) (rest : List Token) :
    Reads (pure p) v rest ↔ p.value = v ∧ p.rest = rest := reads_ok p v rest

@[simp] theorem not_reads_error (e : SyntaxFault) (v : α) (rest : List Token) :
    ¬ Reads (.error e : Reading α n) v rest := fun ⟨_, h⟩ => nomatch h

@[simp] theorem not_reads_throw (e : SyntaxFault) (v : α) (rest : List Token) :
    ¬ Reads (throw e : Reading α n) v rest := not_reads_error e v rest

theorem reads_bind {x : Except SyntaxFault β} {f : β → Reading α n} {v : α} {rest : List Token} :
    Reads (x >>= f) v rest ↔ ∃ y, x = .ok y ∧ Reads (f y) v rest := by
  cases x with
  | error e => exact ⟨fun h => (not_reads_error e v rest h).elim, fun ⟨_, h, _⟩ => nomatch h⟩
  | ok y => exact ⟨fun h => ⟨y, rfl, h⟩, fun ⟨_, h, h'⟩ => by cases h; exact h'⟩

theorem reads_bind_phrase {m : Nat} {x : Reading β m} {f : Phrase β m → Reading α n} {v : α}
    {rest : List Token} :
    Reads (x >>= f) v rest ↔ ∃ w mid, ∃ h : mid.length < m, Reads x w mid ∧ Reads (f ⟨w, mid, h⟩) v rest := by
  rw [reads_bind]
  constructor
  · intro h
    obtain ⟨p, hp, h⟩ := h
    exact ⟨p.value, p.rest, p.rest_lt, .of_eq hp, h⟩
  · intro h
    obtain ⟨w, mid, _, ⟨_, hx⟩, h⟩ := h
    exact ⟨_, hx, h⟩

theorem reads_bind_phrases {m : Nat} {x : Except SyntaxFault (Phrases β m)} {f : Phrases β m → Reading α n}
    {v : α} {rest : List Token} :
    Reads (x >>= f) v rest ↔ ∃ ws mid, ∃ h : mid.length ≤ m, ReadsMany x ws mid ∧
      Reads (f ⟨ws, mid, h⟩) v rest := by
  rw [reads_bind]
  constructor
  · intro h
    obtain ⟨p, hp, h⟩ := h
    exact ⟨p.values, p.rest, p.rest_le, ⟨_, hp⟩, h⟩
  · intro h
    obtain ⟨ws, mid, _, ⟨_, hx⟩, h⟩ := h
    exact ⟨_, hx, h⟩

/-! ## Single tokens -/

theorem accept_eq_some {kind : TokenKind} {ts us : List Token} {t : Token} {h : us.length < ts.length} :
    accept kind ts = some ⟨t, us, h⟩ ↔ ts = t :: us ∧ t.kind = kind := by
  cases ts with
  | nil => simp [accept]
  | cons u ts =>
    simp only [accept]
    split
    · next hk =>
      simp only [Option.some.injEq, Phrase.mk.injEq, List.cons.injEq]
      exact (and_iff_left_of_imp fun he => he.1 ▸ hk).symm
    · next hk =>
      simp only [reduceCtorEq, List.cons.injEq, false_iff]
      intro h
      obtain ⟨⟨rfl, -⟩, h⟩ := h
      exact hk h

theorem accept_eq_none {kind : TokenKind} {ts : List Token} :
    accept kind ts = none ↔ ∀ t, ts.head? = some t → t.kind ≠ kind := by
  cases ts with
  | nil => simp [accept]
  | cons t ts => simp [accept]

theorem startsWith_eq_true {kind : TokenKind} {ts : List Token} :
    startsWith kind ts = true ↔ ∃ t, ts.head? = some t ∧ t.kind = kind := by
  cases ts <;> simp [startsWith]

theorem reads_token {stop : Span} {kind : TokenKind} {expected : String} {ts rest : List Token} {t : Token} :
    Reads (token stop kind expected ts) t rest ↔ ts = t :: rest ∧ t.kind = kind := by
  rw [token]
  split
  · next p hp =>
    obtain ⟨u, us, _⟩ := p
    obtain ⟨rfl, hk⟩ := accept_eq_some.1 hp
    simp only [reads_ok, List.cons.injEq]
    exact (and_iff_left_of_imp fun he => he.1 ▸ hk).symm
  · next hn =>
    simp only [not_reads_error, false_iff]
    intro h
    obtain ⟨rfl, hk⟩ := h
    exact accept_eq_none.1 hn t rfl hk

/-! ## Repetition -/

theorem map_values_eq_ok {r : Except SyntaxFault (Phrases α n)} {vs : List α} :
    r.map (·.values) = .ok vs ↔ ∃ rest, ReadsMany r vs rest := by
  constructor
  · intro h
    cases r with
    | error e => cases h
    | ok p =>
      cases h
      exact ⟨p.rest, p.rest_le, rfl⟩
  · intro h
    obtain ⟨_, _, rfl⟩ := h
    rfl

theorem map_values_eq_error {r : Except SyntaxFault (Phrases α n)} {f : SyntaxFault} :
    r.map (·.values) = .error f ↔ r = .error f := by
  cases r <;> simp [Except.map]

/-- Phrases one after the other. What may follow a phrase is up to `D`. -/
inductive Repeated (D : α → List Token → List Token → Prop) (rest : List Token) : List α → List Token → Prop
  | nil : Repeated D rest [] []
  | cons {v vs us ws} : D v us (ws ++ rest) → Repeated D rest vs ws → Repeated D rest (v :: vs) (us ++ ws)

variable {starts : Token → Bool} {phrase : Reader α n}

theorem readsMany_nil {h : ([] : List Token).length < n} {vs : List α} {rest : List Token} :
    ReadsMany (many starts phrase [] h) vs rest ↔ vs = [] ∧ rest = [] := by
  rw [many]
  constructor
  · intro h
    obtain ⟨_, h⟩ := h
    cases h
    exact ⟨rfl, rfl⟩
  · intro h
    obtain ⟨rfl, rfl⟩ := h
    exact ⟨Nat.le_refl _, rfl⟩

theorem readsMany_stop {t : Token} {ts : List Token} (ht : starts t = false) {h : (t :: ts).length < n}
    {vs : List α} {rest : List Token} :
    ReadsMany (many starts phrase (t :: ts) h) vs rest ↔ vs = [] ∧ rest = t :: ts := by
  rw [many, ht]
  constructor
  · intro h
    obtain ⟨_, h⟩ := h
    cases h
    exact ⟨rfl, rfl⟩
  · intro h
    obtain ⟨rfl, rfl⟩ := h
    exact ⟨Nat.le_refl _, rfl⟩

theorem readsMany_cons {t : Token} {ts : List Token} (ht : starts t = true) {h : (t :: ts).length < n}
    {vs : List α} {rest : List Token} :
    ReadsMany (many starts phrase (t :: ts) h) vs rest ↔
      ∃ p : Phrase α (t :: ts).length, phrase (t :: ts) h = .ok p ∧
        ∃ ws, vs = p.value :: ws ∧
          ReadsMany (many starts phrase p.rest (Nat.lt_trans p.rest_lt h)) ws rest := by
  rw [many, ht, if_pos rfl]
  cases phrase (t :: ts) h with
  | error e =>
    constructor
    · intro h
      obtain ⟨_, h⟩ := h
      cases h
    · intro h
      obtain ⟨_, h, _⟩ := h
      cases h
  | ok p =>
    simp only [Except.ok.injEq, exists_eq_left']
    change ReadsMany (many starts phrase p.rest _ >>= _) vs rest ↔ _
    cases many starts phrase p.rest (Nat.lt_trans p.rest_lt h) with
    | error e =>
      constructor
      · intro h
        obtain ⟨_, h⟩ := h
        cases h
      · intro h
        obtain ⟨_, _, _, h⟩ := h
        cases h
    | ok q =>
      constructor
      · intro h
        obtain ⟨_, h⟩ := h
        cases h
        exact ⟨q.values, rfl, q.rest_le, rfl⟩
      · intro h
        obtain ⟨ws, rfl, _, h⟩ := h
        cases h
        exact ⟨_, rfl⟩

def Started (starts : Token → Bool) (D : α → List Token → List Token → Prop) (v : α)
    (us rest : List Token) : Prop :=
  D v us rest ∧ ∃ t, us.head? = some t ∧ starts t = true

/-- Where a phrase can start is told by one token, so repetition stops exactly at the
first token that starts none. -/
theorem readsMany_iff {D : α → List Token → List Token → Prop} (hp : Exact D phrase) (ts : List Token)
    (h : ts.length < n) (vs : List α) (rest : List Token) :
    ReadsMany (many starts phrase ts h) vs rest ↔
      ∃ us, ts = us ++ rest ∧ Repeated (Started starts D) rest vs us ∧
        ∀ t, rest.head? = some t → starts t = false := by
  obtain ⟨k, hk⟩ : ∃ k, ts.length = k := ⟨_, rfl⟩
  induction k using Nat.strongRecOn generalizing ts vs with
  | ind k ih =>
  subst hk
  constructor
  · intro hr
    cases ts with
    | nil =>
      obtain ⟨rfl, rfl⟩ := readsMany_nil.1 hr
      exact ⟨[], rfl, .nil, by simp⟩
    | cons t ts =>
      cases ht : starts t with
      | false =>
        obtain ⟨rfl, rfl⟩ := (readsMany_stop ht).1 hr
        exact ⟨[], rfl, .nil, by simpa using ht⟩
      | true =>
        obtain ⟨p, hpe, ws, rfl, hw⟩ := (readsMany_cons ht).1 hr
        obtain ⟨us, hus, hd⟩ := (hp _ _ _ _).1 (.of_eq hpe)
        obtain ⟨ws', hws', hrep, hstop⟩ := (ih _ p.rest_lt p.rest _ _ rfl).1 hw
        have hhead : us.head? = some t := by
          cases us with
          | nil => exact absurd (congrArg List.length hus) (Nat.ne_of_gt p.rest_lt)
          | cons u us => simp only [List.cons_append, List.cons.injEq] at hus; rw [hus.1]; rfl
        rw [hws'] at hd hus
        exact ⟨us ++ ws', by simpa using hus, .cons ⟨hd, t, hhead, ht⟩ hrep, hstop⟩
  · intro h
    obtain ⟨us, rfl, hrep, hstop⟩ := h
    cases hrep with
    | nil =>
      cases rest with
      | nil => exact readsMany_nil.2 ⟨rfl, rfl⟩
      | cons t rest => exact (readsMany_stop (hstop t rfl)).2 ⟨rfl, rfl⟩
    | @cons v vs us ws hd hrep =>
      obtain ⟨hd, t, ht, hst⟩ := hd
      obtain ⟨us, rfl⟩ := List.head?_eq_some_iff.1 ht
      obtain ⟨hlt, hread⟩ := (hp ((t :: us) ++ ws ++ rest) h v (ws ++ rest)).2 ⟨t :: us, by simp, hd⟩
      refine (readsMany_cons hst).2 ⟨_, hread, vs, rfl, ?_⟩
      exact (ih _ hlt _ _ _ rfl).2 ⟨ws, rfl, hrep, hstop⟩

theorem Repeated.snoc {D : α → List Token → List Token → Prop} {v : α} {vs : List α} {us ws rest : List Token}
    (h : Repeated D (us ++ rest) vs ws) (hv : D v us rest) : Repeated D rest (vs ++ [v]) (ws ++ us) := by
  induction h with
  | nil => simpa using Repeated.cons (by simpa using hv) .nil
  | cons hd _ ih => simpa using Repeated.cons (by simpa using hd) ih

theorem Repeated.head_starts {D : α → List Token → List Token → Prop} {vs : List α} {ws rest : List Token}
    {t : Token} (h : Repeated (Started starts D) rest vs ws) (ht : (ws ++ rest).head? = some t)
    (hs : starts t = false) :
    vs = [] ∧ ws = [] := by
  cases h with
  | nil => exact ⟨rfl, rfl⟩
  | cons hd _ =>
    obtain ⟨_, u, hu, hsu⟩ := hd
    obtain ⟨us, rfl⟩ := List.head?_eq_some_iff.1 hu
    simp only [List.cons_append, List.head?_cons, Option.some.injEq] at ht
    rw [ht, hs] at hsu
    cases hsu

end RavenLang.Grammar
