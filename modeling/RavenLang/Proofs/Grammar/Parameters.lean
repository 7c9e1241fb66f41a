import RavenLang.Proofs.Grammar.Nesting
import RavenLang.Proofs.Grammar.Printed
import RavenLang.Proofs.Syntax.Nodes

/-!
# Parameter lists

Parameters are read as arguments first and are names only if they turn out to be. Which lists can
still become parameters is told by their tokens.
-/

namespace RavenLang.Grammar

open Piece

/-! ## Parameters -/

/-- A name as it stands among the parameters, bare or in parentheses. -/
inductive Parameter : String → List Token → Prop
  | bare {t} : t.kind = .identifier → Parameter t.text [t]
  | grouped {name o us c} : o.kind = .openParen → Parameter name us → c.kind = .closeParen →
      Parameter name (o :: (us ++ [c]))

def Bare (name : String) (us : List Token) : Prop := ∃ t, t.kind = .identifier ∧ name = t.text ∧ us = [t]

/-- Items with commas between them, and none behind the last. -/
inductive Listed (Item : String → List Token → Prop) : List String → List Token → Prop
  | none : Listed Item [] []
  | last {name us} : Item name us → Listed Item [name] us
  | next {name other names us c vs} : Item name us → c.kind = .comma → Listed Item (other :: names) vs →
      Listed Item (name :: other :: names) (us ++ c :: vs)

section
variable {names : List String} {us : List Token}

theorem Parameter.of_derives {l : Level} {e : Expr} (h : Derives (.expr l e) us) {name : String}
    (hn : e.name? = some name) : Parameter name us := by
  generalize hf : Form.expr l e = f at h
  induction h generalizing l e with
  | name hk =>
    cases hf
    cases hn
    exact .bare hk
  | @group o c e' us ho _ hc ih =>
    cases hf
    have hn : e'.name? = some name := by cases e' <;> simp_all [Expr.name?, Expr.withSpan]
    exact .grouped ho (ih hn rfl) hc
  | tighter _ _ ih =>
    cases hf
    exact ih hn rfl
  | string | number | field | index | call | binary | object | assign =>
    cases hf
    cases hn
  | _ => cases hf

theorem Listed.of_derives {es : List Expr} (h : Derives (.arguments es) us)
    (hn : es.map Expr.name? = names.map some) : Listed Parameter names us := by
  generalize hf : Form.arguments es = f at h
  induction h generalizing es names with
  | noArguments =>
    cases hf
    obtain rfl : names = [] := by simpa using hn.symm
    exact .none
  | argument he =>
    cases hf
    match names, hn with
    | [name], hn => exact .last (.of_derives he (List.cons.inj hn).1)
    | _ :: _ :: _, hn => cases (List.cons.inj hn).2
  | nextArgument he hc _ _ ih =>
    cases hf
    match names, hn with
    | [_], hn => cases (List.cons.inj hn).2
    | name :: other :: names, hn =>
      obtain ⟨hname, hnames⟩ := List.cons.inj hn
      exact .next (.of_derives he hname) hc (ih hnames rfl)
  | _ => cases hf

/-- Without parentheses around them, parameters are nothing but their names. -/
theorem Listed.bare (h : Listed Parameter names us) (hus : ∀ t ∈ us, t.kind ≠ .openParen) :
    Listed Bare names us := by
  have item {name : String} {us : List Token} (h : Parameter name us) (hus : ∀ t ∈ us, t.kind ≠ .openParen) :
      Bare name us := by
    cases h with
    | bare hk => exact ⟨_, hk, rfl, rfl⟩
    | grouped ho => exact absurd ho (hus _ List.mem_cons_self)
  induction h with
  | none => exact .none
  | last h => exact .last (item h hus)
  | next h hc _ ih =>
    rw [List.forall_mem_append, List.forall_mem_cons] at hus
    exact .next (item h hus.1) hc (ih hus.2.2)

theorem Listed.kind_head {t : Token} (h : Listed Bare names (t :: us)) : t.kind = .identifier := by
  generalize hts : t :: us = ts at h
  cases h with
  | none => cases hts
  | last h =>
    obtain ⟨t', hk, -, rfl⟩ := h
    exact (List.cons.inj hts).1 ▸ hk
  | next h =>
    obtain ⟨t', hk, -, rfl⟩ := h
    exact (List.cons.inj hts).1 ▸ hk

end

/-! ## Beginnings of parameter lists -/

/-- Whether tokens may begin a list of names, each of them bare or in parentheses, of which `depth`
are open and `named` says whether the name stands there. -/
def beginsNames : (depth : Nat) → (named : Bool) → List Token → Bool
  | _, _, [] => true
  | depth, false, t :: ts =>
    if t.kind = .openParen then beginsNames (depth + 1) false ts
    else decide (t.kind = .identifier) && beginsNames depth true ts
  | depth, true, t :: ts =>
    if t.kind = .closeParen then decide (depth ≠ 0) && beginsNames (depth - 1) true ts
    else decide (t.kind = .comma ∧ depth = 0) && beginsNames depth false ts

theorem beginsNames_congr {ts us : List Token} (h : ts.map Token.kind = us.map Token.kind) (depth : Nat)
    (named : Bool) : beginsNames depth named ts = beginsNames depth named us := by
  induction ts generalizing us depth named with
  | nil => rw [List.map_eq_nil_iff.1 h.symm]
  | cons t ts ih =>
    obtain ⟨u, us, rfl, hu, hus⟩ := List.map_eq_cons_iff.1 h.symm
    cases named <;> simp only [beginsNames, hu, ih hus.symm]

theorem beginsNames_of_append {depth : Nat} {named : Bool} {ts us : List Token}
    (h : beginsNames depth named (ts ++ us) = true) : beginsNames depth named ts = true := by
  induction ts generalizing depth named with
  | nil => rw [beginsNames]
  | cons t ts ih =>
    cases named with
    | false =>
      rw [List.cons_append, beginsNames] at h
      rw [beginsNames]
      split at h
      · next hk => rw [if_pos hk, ih h]
      · next hk =>
        rw [Bool.and_eq_true] at h
        rw [if_neg hk, h.1, ih h.2, Bool.and_self]
    | true =>
      rw [List.cons_append, beginsNames] at h
      rw [beginsNames]
      split at h
      · next hk =>
        rw [Bool.and_eq_true] at h
        rw [if_pos hk, h.1, ih h.2, Bool.and_self]
      · next hk =>
        rw [Bool.and_eq_true] at h
        rw [if_neg hk, h.1, ih h.2, Bool.and_self]

/-- A name, maybe in parentheses. -/
def Named (ts : List Token) : Prop := ∃ e name, Derives (.expr .primary e) ts ∧ e.name? = some name

theorem Named.bare {t : Token} (h : t.kind = .identifier) : Named [t] := ⟨_, t.text, .name h, rfl⟩

theorem Named.grouped {o c : Token} {ts : List Token} (ho : o.kind = .openParen) (h : Named ts)
    (hc : c.kind = .closeParen) : Named (o :: (ts ++ [c])) := by
  obtain ⟨e, name, hd, hn⟩ := h
  refine ⟨_, name, .group ho (hd.loosen (by decide)) hc, ?_⟩
  cases e <;> simp_all [Expr.name?, Expr.withSpan]

/-- Names with commas between them. -/
def Names (ts : List Token) : Prop :=
  ∃ es, ∃ names : List String, es ≠ [] ∧ Derives (.arguments es) ts ∧ es.map Expr.name? = names.map some

theorem Named.names {ts : List Token} (h : Named ts) : Names ts := by
  obtain ⟨e, name, hd, hn⟩ := h
  exact ⟨[e], [name], by simp, .argument (hd.loosen (by decide)), by simp [hn]⟩

theorem Named.comma {c : Token} {ts us : List Token} (h : Named ts) (hc : c.kind = .comma) (hus : Names us) :
    Names (ts ++ c :: us) := by
  obtain ⟨e, name, hd, hn⟩ := h
  obtain ⟨es, names, hne, hes, hnames⟩ := hus
  obtain ⟨f, es, rfl⟩ := List.exists_cons_of_ne_nil hne
  refine ⟨e :: f :: es, name :: names, by simp, .nextArgument (hd.loosen (by decide)) hc hes, ?_⟩
  rw [List.map_cons, hn, hnames, List.map_cons]

theorem fitting_x {ps : List Piece} (h : Fitting ps) : Fitting (word "x" :: ps) :=
  fitting_cons.2 ⟨fits_name (n := "x") (by decide), h⟩

theorem fitting_mark {c : Char} {kind : TokenKind} (hc : TokenKind.ofMark? c = some kind) {ps : List Piece}
    (h : Fitting ps) : Fitting (mark c :: ps) :=
  fitting_cons.2 ⟨fits_mark hc, h⟩

/-- A name is finished by closing the parentheses around it. -/
theorem Named.close {os xs : List Token} (ho : ∀ o ∈ os, o.kind = .openParen) (h : Named xs) :
    ∃ ps : List Piece, Fitting ps ∧ Named (os.reverse ++ xs ++ ps.map Piece.token) := by
  induction os generalizing xs with
  | nil => exact ⟨[], fitting_nil, by simpa using h⟩
  | cons o os ih =>
    rw [List.forall_mem_cons] at ho
    obtain ⟨ps, hps, hn⟩ := ih ho.2 (h.grouped ho.1 (kind_mark (c := ')') rfl))
    exact ⟨mark ')' :: ps, fitting_mark (c := ')') rfl hps, by simpa using hn⟩

/-- What may begin a list of names goes on to one. The parentheses `os` are open, and `xs` is the
name, if it stands there. -/
theorem names_of_beginsNames {os xs ts : List Token} {named : Bool} (ho : ∀ o ∈ os, o.kind = .openParen)
    (hx : if named then Named xs else xs = []) (h : beginsNames os.length named ts = true) :
    ∃ ps : List Piece, Fitting ps ∧ Names (os.reverse ++ xs ++ ts ++ ps.map Piece.token) := by
  induction ts generalizing os xs named with
  | nil =>
    cases named with
    | true =>
      obtain ⟨ps, hps, hn⟩ := Named.close ho hx
      exact ⟨ps, hps, by simpa using hn.names⟩
    | false =>
      obtain rfl : xs = [] := hx
      obtain ⟨ps, hps, hn⟩ := Named.close ho (.bare (t := (word "x").token) rfl)
      exact ⟨word "x" :: ps, fitting_x hps, by simpa using hn.names⟩
  | cons t ts ih =>
    cases named with
    | false =>
      obtain rfl : xs = [] := hx
      rw [beginsNames] at h
      split at h
      · next hk =>
        have ho : ∀ o ∈ t :: os, o.kind = .openParen := List.forall_mem_cons.2 ⟨hk, ho⟩
        simpa using @ih (t :: os) [] false ho rfl h
      · rw [Bool.and_eq_true, decide_eq_true_eq] at h
        simpa using @ih os [t] true ho (.bare h.1) h.2
    | true =>
      rw [beginsNames] at h
      split at h
      · next hk =>
        rw [Bool.and_eq_true, decide_eq_true_eq] at h
        cases os with
        | nil => exact absurd rfl h.1
        | cons o os =>
          rw [List.forall_mem_cons] at ho
          simpa using @ih os (o :: (xs ++ [t])) true ho.2 (Named.grouped ho.1 hx hk) h.2
      · rw [Bool.and_eq_true, decide_eq_true_eq, List.length_eq_zero_iff] at h
        obtain ⟨⟨hk, rfl⟩, h⟩ := h
        obtain ⟨ps, hps, hn⟩ := @ih [] [] false ho rfl h
        exact ⟨ps, hps, by simpa using Named.comma hx hk (by simpa using hn)⟩

theorem exists_names {ts : List Token} (h : beginsNames 0 false ts = true) :
    ∃ ps : List Piece, Fitting ps ∧ Names (ts ++ ps.map Piece.token) := by
  simpa using @names_of_beginsNames [] [] ts false (List.forall_mem_nil _) rfl h

theorem Parameter.beginsNames {name : String} {us : List Token} (h : Parameter name us) (depth : Nat)
    (rest : List Token) : beginsNames depth false (us ++ rest) = beginsNames depth true rest := by
  induction h generalizing depth rest with
  | bare hk => simp [Grammar.beginsNames, hk]
  | grouped ho _ hc ih =>
    rw [List.cons_append, List.append_assoc, Grammar.beginsNames, if_pos ho, ih]
    simp [Grammar.beginsNames, hc]

theorem Listed.beginsNames {names : List String} {us : List Token} (h : Listed Parameter names us) :
    beginsNames 0 false us = true := by
  induction h with
  | none => rw [Grammar.beginsNames]
  | last h =>
    have hb := h.beginsNames 0 []
    rwa [List.append_nil] at hb
  | next h hc _ ih =>
    rw [h.beginsNames]
    simp [Grammar.beginsNames, hc, ih]

/-! ## Open parameter lists -/

theorem append_eq_append_cons {xs ys us vs : List Token} {k : Token} (h : xs ++ ys = us ++ k :: vs) :
    (∃ ws, xs = us ++ k :: ws ∧ vs = ws ++ ys) ∨ ∃ ws, us = xs ++ ws ∧ ys = ws ++ k :: vs := by
  rcases List.append_eq_append_iff.1 h with ⟨ws, hu, hy⟩ | ⟨ws, hx, hk⟩
  · exact .inr ⟨ws, hu, hy⟩
  · cases ws with
    | nil => exact .inr ⟨[], by simpa using hx.symm, by simpa using hk.symm⟩
    | cons w ws =>
      obtain ⟨rfl, hv⟩ := List.cons.inj hk
      exact .inl ⟨ws, hx, hv⟩

/-- What stands in the parameter list that starts here, if it is not closed. -/
def openHere? : List Token → Option (List Token)
  | k :: n :: o :: us =>
    if k.kind = .fnWord ∧ n.kind = .identifier ∧ o.kind = .openParen ∧ (nest [] us).isSome then some us else none
  | _ => none

/-- What stands in the parameter lists that are not closed. -/
def openParameters : List Token → List (List Token)
  | [] => []
  | t :: ts => (openHere? (t :: ts)).toList ++ openParameters ts

theorem openHere?_eq_some {ts us : List Token} :
    openHere? ts = some us ↔ ∃ k n o, ts = k :: n :: o :: us ∧ k.kind = .fnWord ∧ n.kind = .identifier ∧
      o.kind = .openParen ∧ (nest [] us).isSome := by
  unfold openHere?
  split
  · next k n o vs =>
    rw [Option.ite_none_right_eq_some]
    constructor
    · rintro ⟨h, he⟩
      cases he
      exact ⟨k, n, o, rfl, h⟩
    · rintro ⟨_, _, _, he, h⟩
      cases he
      exact ⟨h, rfl⟩
  · next hne =>
    refine iff_of_false nofun ?_
    rintro ⟨k, n, o, rfl, -⟩
    exact hne k n o us rfl

theorem mem_openParameters {ts us : List Token} :
    us ∈ openParameters ts ↔ ∃ vs k n o, ts = vs ++ k :: n :: o :: us ∧ k.kind = .fnWord ∧
      n.kind = .identifier ∧ o.kind = .openParen ∧ (nest [] us).isSome := by
  induction ts with
  | nil => simp [openParameters]
  | cons t ts ih =>
    rw [openParameters, List.mem_append, Option.mem_toList, openHere?_eq_some, ih]
    constructor
    · rintro (⟨k, n, o, he, h⟩ | ⟨vs, k, n, o, rfl, h⟩)
      · exact ⟨[], k, n, o, he, h⟩
      · exact ⟨t :: vs, k, n, o, rfl, h⟩
    · rintro ⟨vs, k, n, o, he, h⟩
      cases vs with
      | nil => exact .inl ⟨k, n, o, he, h⟩
      | cons v vs => exact .inr ⟨vs, k, n, o, (List.cons.inj he).2, h⟩

theorem mem_openParameters_of_append {us ts vs : List Token} (h : vs ∈ openParameters (us ++ ts))
    (hus : ∀ t ∈ us, t.kind ≠ .fnWord) : vs ∈ openParameters ts := by
  obtain ⟨ws, k, n, o, he, hk, hopen⟩ := mem_openParameters.1 h
  rcases append_eq_append_cons he with ⟨xs, rfl, -⟩ | ⟨xs, -, rfl⟩
  · exact absurd hk (hus k (by simp))
  · exact mem_openParameters.2 ⟨xs, k, n, o, rfl, hk, hopen⟩

theorem mem_of_mem_openParameters {ts us : List Token} (h : us ∈ openParameters ts) {t : Token} (ht : t ∈ us) :
    t ∈ ts := by
  obtain ⟨ws, k, n, o, rfl, -⟩ := mem_openParameters.1 h
  simp [ht]

/-- Whatever stands in a parameter list that is not closed may begin a list of names. -/
def PlainParameters (ts : List Token) : Prop := ∀ us ∈ openParameters ts, beginsNames 0 false us = true

instance (ts : List Token) : Decidable (PlainParameters ts) :=
  inferInstanceAs (Decidable (∀ us ∈ openParameters ts, beginsNames 0 false us = true))

namespace PlainParameters

theorem of_append {us ts : List Token} (h : PlainParameters (us ++ ts)) : PlainParameters ts := by
  intro vs hvs
  obtain ⟨ws, k, n, o, rfl, hopen⟩ := mem_openParameters.1 hvs
  exact h vs (mem_openParameters.2 ⟨us ++ ws, k, n, o, by simp, hopen⟩)

theorem of_cons {t : Token} {ts : List Token} (h : PlainParameters (t :: ts)) : PlainParameters ts :=
  @of_append [t] ts h

theorem congr {ts us : List Token} (hk : ts.map Token.kind = us.map Token.kind) (h : PlainParameters us) :
    PlainParameters ts := by
  intro vs hvs
  obtain ⟨ws, k, n, o, rfl, hfn, hid, hparen, hopen⟩ := mem_openParameters.1 hvs
  simp only [List.map_append, List.map_cons] at hk
  obtain ⟨ws', _, rfl, -, hrest⟩ := List.map_eq_append_iff.1 hk.symm
  obtain ⟨k', _, rfl, hk', hrest⟩ := List.map_eq_cons_iff.1 hrest
  obtain ⟨n', _, rfl, hn', hrest⟩ := List.map_eq_cons_iff.1 hrest
  obtain ⟨o', vs', rfl, ho', hvs'⟩ := List.map_eq_cons_iff.1 hrest
  rw [nest_congr hvs'.symm] at hopen
  rw [beginsNames_congr hvs'.symm]
  exact h vs' (mem_openParameters.2
    ⟨ws', k', n', o', rfl, hk'.trans hfn, hn'.trans hid, ho'.trans hparen, hopen⟩)

end PlainParameters

/-! ## Parameter lists of programs -/

/-- A parenthesis that closes nothing among balanced tokens. -/
theorem Neutral.nest_closeParen {us ws : List Token} {c : Token} (hu : Neutral us) (hc : c.kind = .closeParen) :
    nest [] (us ++ c :: ws) = none := by
  rw [hu]
  simp [nest, hc, TokenKind.bracket?, Shell.isOpening]

/-- Balanced tokens end where a parenthesis closes that was opened before them. -/
theorem Neutral.eq_of_closeParen {us vs ws xs : List Token} {c d : Token} (hu : Neutral us) (hv : Neutral vs)
    (hc : c.kind = .closeParen) (hd : d.kind = .closeParen) (h : us ++ c :: ws = vs ++ d :: xs) : us = vs := by
  have whole {us vs : List Token} {c : Token} (hu : Neutral us) (hv : Neutral vs) (hc : c.kind = .closeParen)
      (ws : List Token) : vs ≠ us ++ c :: ws := by
    intro he
    have hnest := hv [] []
    rw [List.append_nil, he, hu.nest_closeParen hc] at hnest
    cases hnest
  rcases append_eq_append_cons h with ⟨ys, he, -⟩ | ⟨ys, he, hys⟩
  · exact absurd he (whole hv hu hd ys)
  · cases ys with
    | nil => exact (he.trans (List.append_nil us)).symm
    | cons y ys =>
      obtain rfl := (List.cons.inj hys).1
      exact absurd he (whole hu hv hc ys)

/-- Whether tokens of a kind stand in expressions. -/
def standsInExpressions : TokenKind → Bool
  | .letWord | .constWord | .fnWord | .semicolon | .endOfInput => false
  | _ => true

theorem Derives.standsInExpressions {f : Form} {ts : List Token} (h : Derives f ts) :
    ∀ t ∈ ts, standsInExpressions t.kind = true := by
  have stands {t : Token} {kind : TokenKind} (hk : t.kind = kind)
      (hs : Grammar.standsInExpressions kind = true) : Grammar.standsInExpressions t.kind = true :=
    hk ▸ hs
  induction h with
  | name hk | string hk | number hk | shorthand hk => exact List.forall_mem_singleton.2 (stands hk rfl)
  | group ho _ hc ih | object ho _ hc ih =>
    simp only [List.forall_mem_cons, List.forall_mem_append]
    exact ⟨stands ho rfl, ih, stands hc rfl, List.forall_mem_nil _⟩
  | tighter _ _ ih | argument _ ih | lastEntry _ ih => exact ih
  | field _ hd hn ih =>
    simp only [List.forall_mem_cons, List.forall_mem_append]
    exact ⟨ih, stands hd rfl, stands hn rfl, List.forall_mem_nil _⟩
  | index _ ho _ hc ih ihs | call _ ho _ hc ih ihs =>
    simp only [List.forall_mem_cons, List.forall_mem_append]
    exact ⟨ih, stands ho rfl, ihs, stands hc rfl, List.forall_mem_nil _⟩
  | noArguments | noEntries => exact List.forall_mem_nil _
  | nextArgument _ hc _ ih ihs | nextEntry _ hc _ ih ihs | assign _ hc _ ih ihs =>
    simp only [List.forall_mem_cons, List.forall_mem_append]
    exact ⟨ih, stands hc rfl, ihs⟩
  | @binary _ _ _ op _ _ _ ho _ ih ihs =>
    have hk : op.kind = .operator := by simp_all [Token.isOperator]
    simp only [List.forall_mem_cons, List.forall_mem_append]
    exact ⟨ih, stands hk rfl, ihs⟩
  | pair hk hc _ ih =>
    simp only [List.forall_mem_cons]
    exact ⟨stands hk rfl, stands hc rfl, ih⟩

theorem Derives.kind_ne_fnWord {f : Form} {ts : List Token} (h : Derives f ts) :
    ∀ t ∈ ts, t.kind ≠ .fnWord := by
  intro t ht hk
  have hs := h.standsInExpressions t ht
  rw [hk] at hs
  cases hs

theorem standsInExpressions_of_beginsNames {depth : Nat} {named : Bool} {ts : List Token}
    (h : beginsNames depth named ts = true) : ∀ t ∈ ts, standsInExpressions t.kind = true := by
  induction ts generalizing depth named with
  | nil => exact List.forall_mem_nil _
  | cons t ts ih =>
    rw [List.forall_mem_cons]
    cases named with
    | false =>
      rw [beginsNames] at h
      split at h
      · next hk => exact ⟨by rw [hk]; rfl, ih h⟩
      · rw [Bool.and_eq_true, decide_eq_true_eq] at h
        exact ⟨by rw [h.1]; rfl, ih h.2⟩
    | true =>
      rw [beginsNames] at h
      split at h
      · next hk =>
        rw [Bool.and_eq_true] at h
        exact ⟨by rw [hk]; rfl, ih h.2⟩
      · rw [Bool.and_eq_true, decide_eq_true_eq] at h
        exact ⟨by rw [h.1.1]; rfl, ih h.2⟩

def Block.program : Block → Program
  | .statement _ s => [s]
  | .statements ss => ss

/-- Every `fn` begins a function of the program. -/
theorem Spells.function_behind {Ends : List Token → List Token → Prop} {b : Block} {ts : List Token}
    (h : Spells Ends b ts) {us vs : List Token} {k : Token} (hts : ts = us ++ k :: vs) (hk : k.kind = .fnWord) :
    ∃ span name names body ws rest, k :: vs = ws ++ rest ∧
      Spells Ends (.statement true (.function span name names body)) ws ∧
      b.program.Holds (.stmt (.function span name names body)) := by
  have without {ts us vs : List Token} {P : Prop} (hts : ts = us ++ k :: vs)
      (hn : ∀ t ∈ ts, t.kind ≠ .fnWord) : P :=
    absurd hk (hn k (by simp [hts]))
  induction h generalizing us vs with
  | undefined hl hn hs =>
    refine without hts ?_
    simp [hl, hn, hs]
  | defined hl hn hq hd hs =>
    refine without hts ?_
    simp only [List.forall_mem_cons, List.forall_mem_append]
    exact ⟨by rcases hl with hl | hl <;> simp [hl], by simp [hn], by simp [hq], hd.kind_ne_fnWord, by simp [hs],
      List.forall_mem_nil _⟩
  | @function k' n o es ps c names start body bs last hk' hn ho hd hc hnames hstart hbody hlast ih =>
    cases us with
    | nil =>
      refine ⟨_, _, _, _, _, [], ?_, .function hk' hn ho hd hc hnames hstart hbody hlast, .stmt List.mem_cons_self⟩
      rw [← List.nil_append (k :: vs), ← hts, List.append_nil]
    | cons u us =>
      have hts : (n :: o :: (ps ++ [c, start])) ++ (bs ++ [last]) = us ++ k :: vs := by
        simpa using (List.cons.inj hts).2
      rcases append_eq_append_cons hts with ⟨ws, hws, -⟩ | ⟨us, rfl, hus⟩
      · refine without hws ?_
        simp only [List.forall_mem_cons, List.forall_mem_append]
        exact ⟨by simp [hn], by simp [ho], hd.kind_ne_fnWord, by simp [hc], by simp [hstart],
          List.forall_mem_nil _⟩
      · rcases append_eq_append_cons hus with ⟨ws, rfl, rfl⟩ | ⟨ws, rfl, hws⟩
        · obtain ⟨span, name, names, body, ws, rest, he, hf, hn⟩ := ih rfl
          refine ⟨span, name, names, body, ws, rest ++ [last], ?_, hf, hn.within fun s hs => ?_⟩
          · rw [← List.cons_append, he, List.append_assoc]
          · exact .child (.stmt List.mem_cons_self) (List.mem_map_of_mem hs)
        · exact without hws (by simp [hlast])
  | terminated hd hl =>
    refine without hts (List.forall_mem_append.2 ⟨hd.kind_ne_fnWord, by simp [hl]⟩)
  | bare hd => exact without hts hd.kind_ne_fnWord
  | nil => exact without hts (List.forall_mem_nil _)
  | @cons _ _ _ _ others _ _ _ ihs ih =>
    rcases append_eq_append_cons hts with ⟨ws, rfl, rfl⟩ | ⟨ws, rfl, rfl⟩
    · obtain ⟨span, name, names, body, ws, rest, he, hf, hn⟩ := ihs rfl
      refine ⟨span, name, names, body, ws, rest ++ others, ?_, hf, hn.within fun s hs => ?_⟩
      · rw [← List.cons_append, he, List.append_assoc]
      · rw [List.mem_singleton.1 hs]
        exact .stmt List.mem_cons_self
    · obtain ⟨span, name, names, body, ws, rest, he, hf, hn⟩ := ih rfl
      exact ⟨span, name, names, body, ws, rest, he, hf, hn.within fun s hs => .stmt (List.mem_cons_of_mem _ hs)⟩

/-- The name of a function, and the arguments in its parentheses that its parameters are read from. -/
theorem Spells.exists_arguments {Ends : List Token → List Token → Prop} {closed : Bool} {span : Span} {name : String}
    {names : List String} {body : List Stmt} {ts : List Token}
    (h : Spells Ends (.statement closed (.function span name names body)) ts) :
    ∃ k n o es us c rest, ts = k :: n :: o :: (us ++ c :: rest) ∧ k.kind = .fnWord ∧ n.kind = .identifier ∧
      n.text = name ∧ o.kind = .openParen ∧ Derives (.arguments es) us ∧ c.kind = .closeParen ∧
      es.map Expr.name? = names.map some := by
  cases h with
  | function hk hn ho hd hc hnames => exact ⟨_, _, _, _, _, _, _, rfl, hk, hn, rfl, ho, hd, hc, hnames⟩

/-- Behind a `fn` the arguments that the parameters are read from stand closed in parentheses. -/
theorem Spells.arguments_behind {Ends : List Token → List Token → Prop} {b : Block} {us vs : List Token} {k : Token}
    (h : Spells Ends b (us ++ k :: vs)) (hk : k.kind = .fnWord) :
    ∃ n o es ps c rest, ∃ names : List String, vs = n :: o :: (ps ++ c :: rest) ∧ Derives (.arguments es) ps ∧
      c.kind = .closeParen ∧ es.map Expr.name? = names.map some := by
  obtain ⟨_, _, names, _, ws, others, hvs, hf, -⟩ := h.function_behind rfl hk
  obtain ⟨_, n, o, es, ps, c, rest, rfl, -, -, -, -, hd, hc, hnames⟩ := hf.exists_arguments
  refine ⟨n, o, es, ps, c, rest ++ others, names, ?_, hd, hc, hnames⟩
  simpa using (List.cons.inj hvs).2

/-- No program begins with a parameter list that holds more than names. -/
theorem Spells.plainParameters {Ends : List Token → List Token → Prop} {b : Block} {ts us : List Token}
    (h : Spells Ends b (ts ++ us)) : PlainParameters ts := by
  intro vs hvs
  obtain ⟨ws, k, n, o, rfl, hk, -, -, hnest⟩ := mem_openParameters.1 hvs
  rw [List.append_assoc, List.cons_append] at h
  obtain ⟨_, _, _, ps, c, rest, _, he, hd, hc, hnames⟩ := h.arguments_behind hk
  have he : vs ++ us = ps ++ c :: rest := (List.cons.inj (List.cons.inj he).2).2
  rcases append_eq_append_cons he with ⟨ws, rfl, -⟩ | ⟨ws, rfl, rfl⟩
  · -- the list is closed, so it is not open
    rw [hd.neutral.nest_closeParen hc] at hnest
    cases hnest
  · exact beginsNames_of_append (Listed.of_derives hd hnames).beginsNames

end RavenLang.Grammar
