import RavenLang.Proofs.Grammar.Derivation
import RavenLang.Shell.Brackets

/-!
# Brackets of phrases

Every phrase closes the brackets that it opens, so what is open before it is open behind it.
-/

namespace RavenLang

def TokenKind.bracket? : TokenKind → Option Char
  | .openParen => some '('
  | .closeParen => some ')'
  | .openBracket => some '['
  | .closeBracket => some ']'
  | .openBrace => some '{'
  | .closeBrace => some '}'
  | _ => none

namespace Grammar

open Shell

/-- The brackets that are open behind the tokens, innermost first, if every closing bracket
matches. -/
def nest (opened : List Char) : List Token → Option (List Char)
  | [] => some opened
  | t :: ts =>
    match t.kind.bracket? with
    | none => nest opened ts
    | some c =>
      if isOpening c then nest (c :: opened) ts
      else
        match opened with
        | [] => none
        | opening :: others => if isPair opening c then nest others ts else none

theorem nest_plain {t : Token} (h : t.kind.bracket? = none) (opened : List Char) (ts : List Token) :
    nest opened (t :: ts) = nest opened ts := by
  rw [nest, h]

theorem nest_opening {t : Token} {c : Char} (h : t.kind.bracket? = some c) (hc : isOpening c = true)
    (opened : List Char) (ts : List Token) : nest opened (t :: ts) = nest (c :: opened) ts := by
  rw [nest, h]
  exact if_pos hc

theorem nest_closing {t : Token} {o c : Char} (h : t.kind.bracket? = some c) (hc : isOpening c = false)
    (hp : isPair o c = true) (opened : List Char) (ts : List Token) :
    nest (o :: opened) (t :: ts) = nest opened ts := by
  rw [nest, h]
  simp only [hc, Bool.false_eq_true, if_false, hp, if_true]

theorem nest_append (opened : List Char) (ts us : List Token) :
    nest opened (ts ++ us) = (nest opened ts).bind (nest · us) := by
  fun_induction nest opened ts with
  | case1 => rfl
  | case2 opened t ts hk ih => rw [List.cons_append, nest_plain hk, ih]
  | case3 opened t ts c hk ho ih => rw [List.cons_append, nest_opening hk ho, ih]
  | case4 t ts c hk ho => simp [nest, hk, ho]
  | case5 t ts c hk ho opening others hp ih => simp [nest, hk, ho, hp, ih]
  | case6 t ts c hk ho opening others hp => simp [nest, hk, ho, hp]

theorem nest_congr {ts us : List Token} (h : ts.map Token.kind = us.map Token.kind) (opened : List Char) :
    nest opened ts = nest opened us := by
  induction ts generalizing us opened with
  | nil => rw [List.map_eq_nil_iff.1 h.symm]
  | cons t ts ih =>
    obtain ⟨u, us, rfl, hu, hus⟩ := List.map_eq_cons_iff.1 h.symm
    simp only [nest, hu, ih hus.symm]

def Neutral (us : List Token) : Prop := ∀ opened ts, nest opened (us ++ ts) = nest opened ts

namespace Neutral

variable {t o c : Token} {us vs : List Token}

theorem nil : Neutral [] := fun _ _ => rfl

theorem append (hu : Neutral us) (hv : Neutral vs) : Neutral (us ++ vs) := by
  intro opened ts
  rw [List.append_assoc, hu, hv]

theorem cons (ht : t.kind.bracket? = none) (hu : Neutral us) : Neutral (t :: us) := by
  intro opened ts
  rw [List.cons_append, nest_plain ht, hu]

theorem bracketed {a b : Char} (ho : o.kind.bracket? = some a) (ha : isOpening a = true)
    (hc : c.kind.bracket? = some b) (hb : isOpening b = false) (hp : isPair a b = true) (hu : Neutral us) :
    Neutral (o :: (us ++ [c])) := by
  intro opened ts
  rw [List.cons_append, List.append_assoc, nest_opening ho ha, hu, List.singleton_append,
    nest_closing hc hb hp]

theorem parens (ho : o.kind = .openParen) (hc : c.kind = .closeParen) (hu : Neutral us) :
    Neutral (o :: (us ++ [c])) :=
  bracketed (by rw [ho]; rfl) rfl (by rw [hc]; rfl) rfl rfl hu

theorem brackets (ho : o.kind = .openBracket) (hc : c.kind = .closeBracket) (hu : Neutral us) :
    Neutral (o :: (us ++ [c])) :=
  bracketed (by rw [ho]; rfl) rfl (by rw [hc]; rfl) rfl rfl hu

theorem braces (ho : o.kind = .openBrace) (hc : c.kind = .closeBrace) (hu : Neutral us) :
    Neutral (o :: (us ++ [c])) :=
  bracketed (by rw [ho]; rfl) rfl (by rw [hc]; rfl) rfl rfl hu

end Neutral

theorem bracket?_of_isOperator {t : Token} {operators : List String} (h : t.isOperator operators = true) :
    t.kind.bracket? = none := by
  have hk : t.kind = .operator := by simp_all [Token.isOperator]
  rw [hk]
  rfl

theorem Derives.neutral {f : Form} {ts : List Token} (h : Derives f ts) : Neutral ts := by
  have plain {t : Token} {kind : TokenKind} (hk : t.kind = kind) (hn : kind.bracket? = none) {us : List Token}
      (hu : Neutral us) : Neutral (t :: us) :=
    .cons (hk ▸ hn) hu
  induction h with
  | name hk | string hk | number hk | shorthand hk => exact plain hk rfl .nil
  | group ho _ hc ih => exact ih.parens ho hc
  | tighter _ _ ih | argument _ ih | lastEntry _ ih => exact ih
  | field _ hd hn ih => exact ih.append (plain hd rfl (plain hn rfl .nil))
  | index _ ho _ hc ih ihk => exact ih.append (ihk.brackets ho hc)
  | call _ ho _ hc ih iha => exact ih.append (iha.parens ho hc)
  | noArguments | noEntries => exact .nil
  | nextArgument _ hc _ ih ihs | nextEntry _ hc _ ih ihs => exact ih.append (plain hc rfl ihs)
  | binary _ hop _ ihl ihr => exact ihl.append (.cons (bracket?_of_isOperator hop) ihr)
  | pair hk hc _ ih => exact plain hk rfl (plain hc rfl ih)
  | object ho _ hc ih => exact ih.braces ho hc
  | assign _ hq _ iht ihv => exact iht.append (plain hq rfl ihv)

theorem Spells.neutral {Ends : List Token → List Token → Prop} {b : Block} {ts : List Token}
    (h : Spells Ends b ts) : Neutral ts := by
  have plain {t : Token} {kind : TokenKind} (hk : t.kind = kind) (hn : kind.bracket? = none) {us : List Token}
      (hu : Neutral us) : Neutral (t :: us) :=
    .cons (hk ▸ hn) hu
  induction h with
  | undefined hk hn hl => exact plain hk rfl (plain hn rfl (plain hl rfl .nil))
  | defined hk hn hq hd hl =>
    have hv := plain hn rfl (plain hq rfl (hd.neutral.append (plain hl rfl .nil)))
    rcases hk with hk | hk
    · exact plain hk rfl hv
    · exact plain hk rfl hv
  | function hk hn ho hd hc _ hs _ hl ih =>
    have hv := (hd.neutral.parens ho hc).append (ih.braces hs hl)
    simpa using plain hk rfl (plain hn rfl hv)
  | terminated hd hl => exact hd.neutral.append (plain hl rfl .nil)
  | bare hd => exact hd.neutral
  | nil => exact .nil
  | cons _ _ _ ih ihs => exact ih.append ihs

end Grammar

end RavenLang
