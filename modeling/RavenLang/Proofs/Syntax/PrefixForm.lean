import RavenLang.Proofs.Number.Written
import RavenLang.Proofs.Syntax.Source
import RavenLang.Proofs.Syntax.Spans
import RavenLang.Syntax.PrefixForm

/-!
# Prefix forms are legible

A tree can be told from its prefix form, up to spans: how a form starts says which node it is, and where
it ends is known without what follows.
-/

namespace RavenLang

/-! ## Texts one behind the other -/

def delimiters : List Char := [' ', ')', ',', '\x7d', '\n']

/-- What may follow a form. -/
def Stops (rest : List Char) : Prop := ∀ c, rest.head? = some c → c ∈ delimiters

theorem stops_nil : Stops [] := by simp [Stops]

theorem stops_cons {c : Char} (h : c ∈ delimiters) (rest : List Char) : Stops (c :: rest) :=
  fun _ hd => Option.some.inj hd ▸ h

theorem stops_close (rest : List Char) : Stops (')' :: rest) := stops_cons (by decide) rest

theorem Stops.head?_eq_false {rest : List Char} (h : Stops rest) {p : Char → Bool}
    (hp : delimiters.any p = false) : ∀ c, rest.head? = some c → p c = false :=
  fun c hc => Bool.eq_false_iff.2 (List.any_eq_false.1 hp c (h c hc))

/-- A run of characters ends where the next one is not of their kind. -/
theorem run_inj {p : Char → Bool} {us vs r r' : List Char} (hu : ∀ c ∈ us, p c = true)
    (hv : ∀ c ∈ vs, p c = true) (hr : ∀ c, r.head? = some c → p c = false)
    (hr' : ∀ c, r'.head? = some c → p c = false) (h : us ++ r = vs ++ r') : us = vs ∧ r = r' := by
  obtain ⟨ht, hd⟩ := run_append hu hr
  obtain ⟨ht', hd'⟩ := run_append hv hr'
  rw [h] at ht hd
  exact ⟨ht.symm.trans ht', hd.symm.trans hd'⟩

/-- Texts, each behind a separator. -/
def behindAll (separator : List Char) (texts : List (List Char)) : List Char := texts.flatMap (separator ++ ·)

theorem intercalate_cons (separator text : List Char) (texts : List (List Char)) :
    separator.intercalate (text :: texts) = text ++ behindAll separator texts := by
  induction texts generalizing text with
  | nil => simp [behindAll]
  | cons next texts ih =>
    rw [List.intercalate_cons_cons, ih, behindAll, behindAll, List.flatMap_cons]
    simp only [List.append_assoc]

section
variable {α β : Type} {form : α → List Char} {meaning : α → β} {good : α → Prop} {as bs : List α}
  {r r' separator : List Char} {s : Char}

/-- What a form means and where it ends can be told from any text that starts with it. -/
def Legible (form : α → List Char) (meaning : α → β) (good : α → Prop) (a : α) : Prop :=
  ∀ b, good b → ∀ r r', Stops r → Stops r' → form a ++ r = form b ++ r' → meaning a = meaning b ∧ r = r'

theorem stops_behindAll (hs : s ∈ delimiters) (hr : Stops r) (texts : List (List Char)) :
    Stops (behindAll (s :: separator) texts ++ r) := by
  cases texts with
  | nil => exact hr
  | cons text texts => exact stops_cons hs _

/-- So can be lists of forms, whatever ends the list. -/
theorem Legible.behindAll (ha : ∀ a ∈ as, Legible form meaning good a) (hb : ∀ b ∈ bs, good b)
    (hs : s ∈ delimiters) (hr : Stops r) (hr' : Stops r') (hne : r.head? ≠ some s)
    (hne' : r'.head? ≠ some s)
    (h : behindAll (s :: separator) (as.map form) ++ r = behindAll (s :: separator) (bs.map form) ++ r') :
    as.map meaning = bs.map meaning ∧ r = r' := by
  induction as generalizing bs with
  | nil =>
    cases bs with
    | nil => exact ⟨rfl, h⟩
    | cons b bs => exact absurd (congrArg List.head? h) hne
  | cons a as ih =>
    cases bs with
    | nil => exact absurd (congrArg List.head? h).symm hne'
    | cons b bs =>
      obtain ⟨ha, has⟩ := List.forall_mem_cons.1 ha
      obtain ⟨hb, hbs⟩ := List.forall_mem_cons.1 hb
      simp only [RavenLang.behindAll, List.map_cons, List.flatMap_cons, List.append_assoc,
        List.append_cancel_left_eq] at h
      obtain ⟨hm, h⟩ := ha b hb _ _ (stops_behindAll hs hr _) (stops_behindAll hs hr' _) h
      obtain ⟨hms, h⟩ := ih has hbs h
      exact ⟨by rw [List.map_cons, List.map_cons, hm, hms], h⟩

theorem Legible.intercalate (hgood : ∀ a ∈ as, good a) (ha : ∀ a ∈ as, Legible form meaning good a)
    (hb : ∀ b ∈ bs, good b) (hstart : ∀ a, good a → ∀ rest, ¬Stops (form a ++ rest))
    (hs : s ∈ delimiters) (hr : Stops r) (hr' : Stops r') (hne : r.head? ≠ some s)
    (hne' : r'.head? ≠ some s)
    (h : (s :: separator).intercalate (as.map form) ++ r = (s :: separator).intercalate (bs.map form) ++ r') :
    as.map meaning = bs.map meaning ∧ r = r' := by
  cases as with
  | nil =>
    cases bs with
    | nil => exact ⟨rfl, h⟩
    | cons b bs =>
      rw [List.map_cons, intercalate_cons, List.append_assoc] at h
      obtain rfl : r = _ := h
      exact absurd hr (hstart b (hb b List.mem_cons_self) _)
  | cons a as =>
    cases bs with
    | nil =>
      rw [List.map_cons, intercalate_cons, List.append_assoc] at h
      obtain rfl : _ = r' := h
      exact absurd hr' (hstart a (hgood a List.mem_cons_self) _)
    | cons b bs =>
      obtain ⟨ha, has⟩ := List.forall_mem_cons.1 ha
      obtain ⟨hb, hbs⟩ := List.forall_mem_cons.1 hb
      rw [List.map_cons, List.map_cons, intercalate_cons, intercalate_cons, List.append_assoc,
        List.append_assoc] at h
      obtain ⟨hm, h⟩ := ha b hb _ _ (stops_behindAll hs hr _) (stops_behindAll hs hr' _) h
      obtain ⟨hms, h⟩ := Legible.behindAll has hbs hs hr hr' hne hne' h
      exact ⟨by rw [List.map_cons, List.map_cons, hm, hms], h⟩

end

/-! ## Forms -/

abbrev Expr.form (e : Expr) : List Char := e.prefixForm.toList

abbrev Entry.form (e : Entry) : List Char := e.prefixForm.toList

abbrev Stmt.form (s : Stmt) : List Char := s.prefixForm.toList

section
variable {s : Span} {computed constant : Bool} {n t op : String} (rest : List Char)

theorem Expr.form_string : (Expr.string s t).form ++ rest = '"' :: (t.toList ++ '"' :: rest) := by
  simp [form, prefixForm]

theorem Expr.form_object (es : List Entry) :
    (Expr.object s es).form ++ rest = '\x7b' :: ([',', ' '].intercalate (es.map Entry.form) ++ '\x7d' :: rest) := by
  simp [form, prefixForm, Entry.prefixForms_eq_map, Function.comp_def]

theorem Expr.form_binary (l r : Expr) :
    (Expr.binary s op l r).form ++ rest =
      '(' :: (op.toList ++ ' ' :: (l.form ++ ' ' :: (r.form ++ ')' :: rest))) := by
  simp [form, prefixForm]

theorem Expr.form_assign (t v : Expr) :
    (Expr.assign s t v).form ++ rest = '(' :: '=' :: ' ' :: (t.form ++ ' ' :: (v.form ++ ')' :: rest)) := by
  simp [form, prefixForm]

theorem Expr.form_call (f : Expr) (as : List Expr) :
    (Expr.call s f as).form ++ rest = '(' :: 'c' :: 'a' :: 'l' :: 'l' :: ' ' ::
      (f.form ++ (behindAll [' '] (as.map Expr.form) ++ ')' :: rest)) := by
  simp [form, prefixForm, Expr.prefixForms_eq_map, intercalate_cons, Function.comp_def]

theorem Expr.form_member (o p : Expr) :
    (Expr.member s computed o p).form ++ rest =
      '(' :: ((if computed then ['[', ']'] else ['.']) ++ ' ' :: (o.form ++ ' ' :: (p.form ++ ')' :: rest))) := by
  cases computed <;> simp [form, prefixForm]

theorem Entry.form_pair (v : Expr) :
    (Entry.pair s n v).form ++ rest = n.toList ++ ':' :: ' ' :: (v.form ++ rest) := by
  simp [form, prefixForm]

theorem Stmt.form_declare (value : Option Expr) :
    (Stmt.declare s constant n value).form ++ rest =
      '(' :: ((if constant then "const" else "let").toList ++ ' ' ::
        (n.toList ++ (behindAll [' '] (value.toList.map Expr.form) ++ ')' :: rest))) := by
  cases constant <;> cases value <;> simp [form, prefixForm, behindAll]

theorem Stmt.form_function (ps : List String) (body : List Stmt) :
    (Stmt.function s n ps body).form ++ rest =
      '(' :: 'f' :: 'n' :: ' ' :: (n.toList ++ ' ' :: '(' :: ([' '].intercalate (ps.map String.toList) ++
        ')' :: (behindAll [' '] (body.map Stmt.form) ++ ')' :: rest))) := by
  simp [form, prefixForm, Stmt.prefixForms_eq_map, intercalate_cons, behindAll, Function.comp_def]

end

/-! ## How forms start -/

inductive Start where
  | name
  | number
  | string
  | object
  | binary
  | assign
  | call
  | member (computed : Bool)
  | declare (constant : Bool)
  | function
  /-- No form starts like this. -/
  | none

/-- What stands in parentheses. -/
def Start.inside : List Char → Start
  | 'l' :: _ => declare false
  | 'c' :: 'o' :: _ => declare true
  | 'c' :: _ => call
  | 'f' :: _ => function
  | '=' :: _ => assign
  | '.' :: _ => member false
  | '[' :: _ => member true
  | _ => binary

def Start.of : List Char → Start
  | [] => none
  | c :: cs =>
    if c.isDigit then number
    else if c.isAlpha then name
    else if c = '"' then string
    else if c = '\x7b' then object
    else if c = '(' then inside cs
    else none

def Expr.start : Expr → Start
  | name .. => .name
  | number .. => .number
  | string .. => .string
  | object .. => .object
  | binary .. => .binary
  | assign .. => .assign
  | call .. => .call
  | member _ computed .. => .member computed

def Stmt.start : Stmt → Start
  | declare _ constant .. => .declare constant
  | function .. => .function
  | expr _ e => e.start

theorem Start.of_stops {rest : List Char} (h : Stops rest) : Start.of rest = none := by
  cases rest with
  | nil => rfl
  | cons c rest =>
    have hc := h c rfl
    simp only [delimiters, List.mem_cons, List.not_mem_nil, or_false] at hc
    rcases hc with rfl | rfl | rfl | rfl | rfl <;> rfl

theorem Start.of_digits {ds : List Char} (h : Number.IsDigits ds) (rest : List Char) :
    Start.of (ds ++ rest) = number := by
  obtain ⟨c, cs, rfl⟩ := List.exists_cons_of_ne_nil h.1
  exact if_pos (h.2 c List.mem_cons_self)

theorem Start.of_name {n : String} (h : IsName n) (rest : List Char) : Start.of (n.toList ++ rest) = name := by
  obtain ⟨hne, ha, -⟩ := h
  obtain ⟨c, cs, hn⟩ := List.exists_cons_of_ne_nil hne
  have hc : c.isAlpha = true := ha c (hn ▸ List.mem_cons_self)
  have hd : c.isDigit = false := Bool.eq_false_iff.2 fun hd => by simp [isAlpha_of_isDigit hd] at hc
  rw [hn]
  simp [Start.of, hc, hd]

theorem Start.of_operator {op : String} (h : op ∈ ["+", "-", "*", "/", "%", "^"]) (rest : List Char) :
    Start.of ('(' :: (op.toList ++ rest)) = binary := by
  simp only [List.mem_cons, List.not_mem_nil, or_false] at h
  rcases h with rfl | rfl | rfl | rfl | rfl | rfl <;> rfl

theorem Expr.WellFormed.start_form {e : Expr} (h : e.WellFormed Number.IsWhole) (rest : List Char) :
    Start.of (e.form ++ rest) = e.start := by
  cases h with
  | name hn => exact Start.of_name hn rest
  | number hx => exact Start.of_digits hx.isDigits_write rest
  | string => rw [form_string]; rfl
  | object => rw [form_object]; rfl
  | binary hop =>
    rw [form_binary]
    exact Start.of_operator hop _
  | assign => rw [form_assign]; rfl
  | call => rw [form_call]; rfl
  | field | index => rw [form_member]; rfl

theorem Stmt.WellFormed.start_form {s : Stmt} (h : s.WellFormed Number.IsWhole) (rest : List Char) :
    Start.of (s.form ++ rest) = s.start := by
  cases h with
  | undefined => rw [form_declare]; rfl
  | @defined _ constant => rw [form_declare]; cases constant <;> rfl
  | function => rw [form_function]; rfl
  | expr he => exact he.start_form rest

/-! ## Expressions -/

theorem IsName.inj {n n' : String} (hn : IsName n) (hn' : IsName n') {r r' : List Char}
    (hr : ∀ c, r.head? = some c → c.isAlpha = false) (hr' : ∀ c, r'.head? = some c → c.isAlpha = false)
    (h : n.toList ++ r = n'.toList ++ r') : n = n' ∧ r = r' :=
  (run_inj hn.2.1 hn'.2.1 hr hr' h).imp_left String.toList_inj.1

theorem Stops.isAlpha {r : List Char} (h : Stops r) : ∀ c, r.head? = some c → c.isAlpha = false :=
  h.head?_eq_false (by decide)

abbrev Expr.IsLegible (e : Expr) : Prop := Legible Expr.form Expr.erase (·.WellFormed Number.IsWhole) e

abbrev Entry.IsLegible (e : Entry) : Prop := Legible Entry.form Entry.erase (·.WellFormed Number.IsWhole) e

theorem Expr.start_eq {e e' : Expr} (he : e.WellFormed Number.IsWhole) (he' : e'.WellFormed Number.IsWhole)
    {r r' : List Char} (h : e.form ++ r = e'.form ++ r') : e.start = e'.start := by
  rw [← he.start_form r, h, he'.start_form]

theorem Expr.pair_inj {a b a' b' : Expr} (ha : a.IsLegible) (hb : b.IsLegible)
    (ha' : a'.WellFormed Number.IsWhole) (hb' : b'.WellFormed Number.IsWhole) {r r' : List Char}
    (h : a.form ++ ' ' :: (b.form ++ ')' :: r) = a'.form ++ ' ' :: (b'.form ++ ')' :: r')) :
    a.erase = a'.erase ∧ b.erase = b'.erase ∧ r = r' := by
  obtain ⟨hae, h⟩ := ha a' ha' _ _ (stops_cons (by decide) _) (stops_cons (by decide) _) h
  obtain ⟨hbe, h⟩ := hb b' hb' _ _ (stops_cons (by decide) _) (stops_cons (by decide) _) (List.cons.inj h).2
  exact ⟨hae, hbe, (List.cons.inj h).2⟩

section
variable {s : Span}

theorem legible_name {n : String} (hn : IsName n) : (Expr.name s n).IsLegible := by
  intro e' he' r r' hr hr' h
  have hs := Expr.start_eq (.name hn) he' h
  cases he' with
  | name hn' =>
    obtain ⟨rfl, rfl⟩ := hn.inj hn' hr.isAlpha hr'.isAlpha h
    exact ⟨rfl, rfl⟩
  | _ => cases hs

theorem legible_number {x : Float} (hx : Number.IsWhole x) : (Expr.number s x).IsLegible := by
  intro e' he' r r' hr hr' h
  have hs := Expr.start_eq (.number hx) he' h
  cases he' with
  | number hx' =>
    obtain ⟨hd, rfl⟩ := run_inj hx.isDigits_write.2 hx'.isDigits_write.2 (hr.head?_eq_false (by decide))
      (hr'.head?_eq_false (by decide)) h
    obtain rfl := hx.write_inj hx' (String.toList_inj.1 hd)
    exact ⟨rfl, rfl⟩
  | _ => cases hs

theorem legible_string {t : String} (ht : '"' ∉ t.toList) : (Expr.string s t).IsLegible := by
  intro e' he' r r' hr hr' h
  have hs := Expr.start_eq (.string ht) he' h
  cases he' with
  | @string _ t' ht' =>
    simp only [Expr.form_string, List.cons.injEq, true_and] at h
    have hquote {t : String} (ht : '"' ∉ t.toList) : ∀ c ∈ t.toList, (c != '"') = true := by
      intro c hc
      exact bne_iff_ne.2 (ne_of_mem_of_not_mem hc ht)
    obtain ⟨htt, hq⟩ := run_inj (hquote ht) (hquote ht') (by simp) (by simp) h
    obtain rfl := String.toList_inj.1 htt
    exact ⟨rfl, (List.cons.inj hq).2⟩
  | _ => cases hs

theorem ne_blank_of_operator {op : String} (h : op ∈ ["+", "-", "*", "/", "%", "^"]) :
    ∀ c ∈ op.toList, (c != ' ') = true := by
  simp only [List.mem_cons, List.not_mem_nil, or_false] at h
  rcases h with rfl | rfl | rfl | rfl | rfl | rfl <;> simp

theorem legible_binary {op : String} {l r : Expr} (hop : op ∈ ["+", "-", "*", "/", "%", "^"])
    (hl : l.WellFormed Number.IsWhole) (hr : r.WellFormed Number.IsWhole) (hll : l.IsLegible) (hrl : r.IsLegible) :
    (Expr.binary s op l r).IsLegible := by
  intro e' he' q q' _ _ h
  have hs := Expr.start_eq (.binary hop hl hr) he' h
  cases he' with
  | @binary _ op' l' r' hop' hl' hr' =>
    simp only [Expr.form_binary, List.cons.injEq, true_and] at h
    obtain ⟨hops, hp⟩ := run_inj (ne_blank_of_operator hop) (ne_blank_of_operator hop') (by simp) (by simp) h
    obtain rfl := String.toList_inj.1 hops
    obtain ⟨hle, hre, rfl⟩ := Expr.pair_inj hll hrl hl' hr' (List.cons.inj hp).2
    exact ⟨by simp only [Expr.erase, Expr.mapSpans, Span.forget_eq, hle, hre], rfl⟩
  | _ => cases hs

theorem legible_assign {t v : Expr} (ht : t.WellFormed Number.IsWhole) (hv : v.WellFormed Number.IsWhole)
    (htl : t.IsLegible) (hvl : v.IsLegible) : (Expr.assign s t v).IsLegible := by
  intro e' he' r r' _ _ h
  have hs := Expr.start_eq (.assign ht hv) he' h
  cases he' with
  | assign ht' hv' =>
    simp only [Expr.form_assign, List.cons.injEq, true_and] at h
    obtain ⟨hte, hve, rfl⟩ := Expr.pair_inj htl hvl ht' hv' h
    exact ⟨by simp only [Expr.erase, Expr.mapSpans, Span.forget_eq, hte, hve], rfl⟩
  | _ => cases hs

theorem legible_member {computed : Bool} {o p : Expr} (hm : (Expr.member s computed o p).WellFormed Number.IsWhole)
    (hol : o.IsLegible) (hpl : p.IsLegible) : (Expr.member s computed o p).IsLegible := by
  intro e' he' r r' _ _ h
  have hs := Expr.start_eq hm he' h
  have members {s' : Span} {o' p' : Expr} (ho' : o'.WellFormed Number.IsWhole) (hp' : p'.WellFormed Number.IsWhole)
      (h : (Expr.member s computed o p).form ++ r = (Expr.member s' computed o' p').form ++ r') :
      (Expr.member s computed o p).erase = (Expr.member s' computed o' p').erase ∧ r = r' := by
    simp only [Expr.form_member, List.cons.injEq, true_and, List.append_cancel_left_eq] at h
    obtain ⟨hoe, hpe, rfl⟩ := Expr.pair_inj hol hpl ho' hp' h
    exact ⟨by simp only [Expr.erase, Expr.mapSpans, Span.forget_eq, hoe, hpe], rfl⟩
  cases he' with
  | field ho' hn' =>
    cases hs
    exact members ho' (.name hn') h
  | index ho' hp' =>
    cases hs
    exact members ho' hp' h
  | _ => cases hs

theorem legible_call {f : Expr} {as : List Expr} (hc : (Expr.call s f as).WellFormed Number.IsWhole)
    (hfl : f.IsLegible) (hasl : ∀ a ∈ as, a.IsLegible) : (Expr.call s f as).IsLegible := by
  intro e' he' r r' _ _ h
  have hs := Expr.start_eq hc he' h
  cases he' with
  | call hf' has' =>
    simp only [Expr.form_call, List.cons.injEq, true_and] at h
    obtain ⟨hfe, h⟩ := hfl _ hf' _ _ (stops_behindAll (by decide) (stops_close r) _)
      (stops_behindAll (by decide) (stops_close r') _) h
    obtain ⟨hase, h⟩ := Legible.behindAll hasl has' (by decide) (stops_close r) (stops_close r') (by simp) (by simp) h
    refine ⟨?_, (List.cons.inj h).2⟩
    simp only [Expr.erase, Expr.mapSpans, Span.forget_eq, Expr.mapSpansAll_eq_map, hfe, hase]
  | _ => cases hs

theorem IsName.not_stops {n : String} (hn : IsName n) (rest : List Char) : ¬Stops (n.toList ++ rest) :=
  fun h => by cases (Start.of_name hn rest).symm.trans (Start.of_stops h)

theorem Entry.not_stops {e : Entry} (h : e.WellFormed Number.IsWhole) (rest : List Char) :
    ¬Stops (e.form ++ rest) := by
  cases h with
  | shorthand hk => exact hk.not_stops rest
  | pair hk =>
    rw [form_pair]
    exact hk.not_stops _

theorem legible_object {es : List Entry} (hes : ∀ e ∈ es, e.WellFormed Number.IsWhole)
    (hesl : ∀ e ∈ es, e.IsLegible) : (Expr.object s es).IsLegible := by
  intro e' he' r r' _ _ h
  have hs := Expr.start_eq (.object hes) he' h
  cases he' with
  | object hes' =>
    simp only [Expr.form_object, List.cons.injEq, true_and] at h
    obtain ⟨hese, h⟩ := Legible.intercalate hes hesl hes' (fun _ => Entry.not_stops) (by decide)
      (stops_cons (by decide) r) (stops_cons (by decide) r') (by simp) (by simp) h
    refine ⟨?_, (List.cons.inj h).2⟩
    simp only [Expr.erase, Expr.mapSpans, Span.forget_eq, Entry.mapSpansAll_eq_map, hese]
  | _ => cases hs

theorem legible_shorthand {k : String} (hk : IsName k) : (Entry.shorthand s k).IsLegible := by
  intro e' he' r r' hr hr' h
  cases he' with
  | shorthand hk' =>
    obtain ⟨rfl, rfl⟩ := hk.inj hk' hr.isAlpha hr'.isAlpha h
    exact ⟨rfl, rfl⟩
  | pair hk' =>
    rw [Entry.form_pair] at h
    obtain ⟨-, rfl⟩ := hk.inj hk' hr.isAlpha (by simp) h
    exact absurd (hr _ rfl) (by decide)

theorem legible_pair {k : String} {v : Expr} (hk : IsName k) (hvl : v.IsLegible) : (Entry.pair s k v).IsLegible := by
  intro e' he' r r' hr hr' h
  rw [Entry.form_pair] at h
  cases he' with
  | shorthand hk' =>
    obtain ⟨-, rfl⟩ := hk.inj hk' (by simp) hr'.isAlpha h
    exact absurd (hr' _ rfl) (by decide)
  | pair hk' hv' =>
    rw [Entry.form_pair] at h
    obtain ⟨rfl, hp⟩ := hk.inj hk' (by simp) (by simp) h
    simp only [List.cons.injEq, true_and] at hp
    obtain ⟨hve, rfl⟩ := hvl _ hv' _ _ hr hr' hp
    exact ⟨by simp only [Entry.erase, Entry.mapSpans, Span.forget_eq, hve], rfl⟩

end

mutual

theorem Expr.WellFormed.isLegible {e : Expr} : e.WellFormed Number.IsWhole → e.IsLegible
  | .name hn => legible_name hn
  | .number hx => legible_number hx
  | .string ht => legible_string ht
  | .object hes => legible_object hes fun e he => (hes e he).isLegible
  | .binary hop hl hr => legible_binary hop hl hr hl.isLegible hr.isLegible
  | .assign ht hv => legible_assign ht hv ht.isLegible hv.isLegible
  | .call hf has => legible_call (.call hf has) hf.isLegible fun a ha => (has a ha).isLegible
  | .field ho hn => legible_member (.field ho hn) ho.isLegible (legible_name hn)
  | .index ho hp => legible_member (.index ho hp) ho.isLegible hp.isLegible

theorem Entry.WellFormed.isLegible {e : Entry} : e.WellFormed Number.IsWhole → e.IsLegible
  | .shorthand hk => legible_shorthand hk
  | .pair hk hv => legible_pair hk hv.isLegible

end

/-! ## Statements -/

abbrev Stmt.IsLegible (s : Stmt) : Prop := Legible Stmt.form Stmt.erase (·.WellFormed Number.IsWhole) s

theorem Stmt.start_eq {s s' : Stmt} (hs : s.WellFormed Number.IsWhole) (hs' : s'.WellFormed Number.IsWhole)
    {r r' : List Char} (h : s.form ++ r = s'.form ++ r') : s.start = s'.start := by
  rw [← hs.start_form r, h, hs'.start_form]

theorem Stmt.not_stops {s : Stmt} (h : s.WellFormed Number.IsWhole) (rest : List Char) :
    ¬Stops (s.form ++ rest) := by
  intro hstops
  have hs := (h.start_form rest).symm.trans (Start.of_stops hstops)
  cases s with
  | declare | function => cases hs
  | expr _ e => cases e <;> cases hs

theorem isName_legible {n : String} (hn : IsName n) : Legible String.toList id IsName n :=
  fun _ hn' _ _ hr hr' h => hn.inj hn' hr.isAlpha hr'.isAlpha h

theorem Stmt.WellFormed.declared {s : Span} {constant : Bool} {n : String} {value : Option Expr}
    {number : Float → Prop} (h : (Stmt.declare s constant n value).WellFormed number) :
    IsName n ∧ ∀ v ∈ value.toList, v.WellFormed number := by
  cases h with
  | undefined hn => exact ⟨hn, by simp⟩
  | defined hn he => exact ⟨hn, by simpa using he⟩

section
variable {s : Span} {n : String}

theorem legible_declare {constant : Bool} {value : Option Expr}
    (hw : (Stmt.declare s constant n value).WellFormed Number.IsWhole) :
    (Stmt.declare s constant n value).IsLegible := by
  intro s' hw' r r' _ _ h
  have hs := Stmt.start_eq hw hw' h
  cases s' with
  | function => cases hs
  | expr _ e => cases e <;> cases hs
  | declare _ constant' n' value' =>
    cases hs
    obtain ⟨hn, hv⟩ := hw.declared
    obtain ⟨hn', hv'⟩ := hw'.declared
    simp only [Stmt.form_declare, List.cons.injEq, true_and, List.append_cancel_left_eq] at h
    obtain ⟨rfl, ht⟩ := hn.inj hn' (stops_behindAll (by decide) (stops_close r) _).isAlpha
      (stops_behindAll (by decide) (stops_close r') _).isAlpha h
    obtain ⟨hve, ht⟩ := Legible.behindAll (fun v hm => (hv v hm).isLegible) hv' (by decide) (stops_close r) (stops_close r')
      (by simp) (by simp) ht
    have hvalue : value.map Expr.erase = value'.map Expr.erase := by
      cases value <;> cases value' <;> simp_all
    exact ⟨by simp only [Stmt.erase, Stmt.mapSpans, Span.forget_eq, hvalue], (List.cons.inj ht).2⟩

theorem legible_function {ps : List String} {body : List Stmt} (hn : IsName n) (hps : ∀ p ∈ ps, IsName p)
    (hbody : ∀ b ∈ body, b.WellFormed Number.IsWhole) (hbodyl : ∀ b ∈ body, b.IsLegible) :
    (Stmt.function s n ps body).IsLegible := by
  intro s' hw' r r' _ _ h
  have hs := Stmt.start_eq (.function hn hps hbody) hw' h
  cases hw' with
  | undefined | defined => cases hs
  | @expr _ e => cases e <;> cases hs
  | @function _ n' ps' body' hn' hps' hbody' =>
    simp only [Stmt.form_function, List.cons.injEq, true_and] at h
    obtain ⟨rfl, ht⟩ := hn.inj hn' (by simp) (by simp) h
    simp only [List.cons.injEq, true_and] at ht
    obtain ⟨hpse, ht⟩ := Legible.intercalate hps (fun p hp => isName_legible (hps p hp)) hps'
      (fun _ => IsName.not_stops) (by decide) (stops_close _) (stops_close _) (by simp) (by simp) ht
    rw [List.map_id, List.map_id] at hpse
    obtain ⟨hbodye, ht⟩ := Legible.behindAll hbodyl hbody' (by decide) (stops_close r) (stops_close r') (by simp) (by simp)
      (List.cons.inj ht).2
    refine ⟨?_, (List.cons.inj ht).2⟩
    simp only [Stmt.erase, Stmt.mapSpans, Span.forget_eq, Stmt.mapSpansAll_eq_map, hpse, hbodye]

theorem legible_statement {e : Expr} (he : e.WellFormed Number.IsWhole) : (Stmt.expr s e).IsLegible := by
  intro s' hw' r r' hr hr' h
  have hs := Stmt.start_eq (.expr he) hw' h
  cases hw' with
  | undefined | defined | function => cases e <;> cases hs
  | expr he' =>
    obtain ⟨hee, rfl⟩ := he.isLegible _ he' r r' hr hr' h
    exact ⟨by simp only [Stmt.erase, Stmt.mapSpans, Span.forget_eq, hee], rfl⟩

end

theorem Stmt.WellFormed.isLegible {s : Stmt} : s.WellFormed Number.IsWhole → s.IsLegible
  | .undefined hn => legible_declare (.undefined hn)
  | .defined hn he => legible_declare (.defined hn he)
  | .function hn hps hbody => legible_function hn hps hbody fun b hb => (hbody b hb).isLegible
  | .expr he => legible_statement he

/-- Programs with the same prefix form are the same up to spans. -/
theorem Program.WellFormed.prefixForm_inj {p q : Program} (hp : p.WellFormed Number.IsWhole)
    (hq : q.WellFormed Number.IsWhole) (h : p.prefixForm = q.prefixForm) : p.erase = q.erase := by
  have hforms {p : Program} : p.prefixForm.toList = ['\n'].intercalate (p.map Stmt.form) := by
    simp [Program.prefixForm, Stmt.prefixForms_eq_map, Function.comp_def]
  have htexts : ['\n'].intercalate (p.map Stmt.form) ++ [] = ['\n'].intercalate (q.map Stmt.form) ++ [] := by
    rw [← hforms, ← hforms, h]
  exact (Legible.intercalate hp (fun s hs => (hp s hs).isLegible) hq (fun _ => Stmt.not_stops) (by decide)
    stops_nil stops_nil (by simp) (by simp) htexts).1

end RavenLang
