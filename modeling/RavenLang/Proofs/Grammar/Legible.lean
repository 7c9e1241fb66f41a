import RavenLang.Proofs.Grammar.Shapes
import RavenLang.Proofs.Syntax.PrefixForm

/-!
# Programs and their prefix forms

Two texts whose programs have the same prefix form have the same program, whatever stands in their strings
and however they are laid out, unless a number in them is too large.
-/

namespace RavenLang.Program

theorem ofSource_whole {source : String} {p : Program} (h : ofSource source = .ok p)
    (hp : ∀ x ∈ p.numbers, Number.IsFinite x) : p.WellFormed Number.IsWhole :=
  (ofSource_numerals h).imp fun x hx hn => hn.isWhole (hp x hx)

/-- The prefix form of a program that was read shows everything of it but its spans. -/
theorem ofSource_prefixForm {source source' : String} {p q : Program} (hp : ofSource source = .ok p)
    (hq : ofSource source' = .ok q) (hpx : ∀ x ∈ p.numbers, Number.IsFinite x)
    (hqx : ∀ x ∈ q.numbers, Number.IsFinite x) (h : p.prefixForm = q.prefixForm) : p.erase = q.erase :=
  (ofSource_whole hp hpx).prefixForm_inj (ofSource_whole hq hqx) h

/-- A string with brackets in it, and the same numbers in other digits. -/
theorem ofSource_prefixForm_layouts :
    let spaced := "let x = \x7b a: \"s) \x7d\", b \x7d;\nf(1, 20);"
    let dense := "let x=\x7ba:\"s) \x7d\",b\x7d;f(01,020)"
    let text := "(let x \x7ba: \"s) \x7d\", b\x7d)\n(call f 1 20)"
    ∃ p q, ofSource spaced = .ok p ∧ ofSource dense = .ok q ∧ p.prefixForm = text ∧ q.prefixForm = text ∧
      p.erase = q.erase := by
  intro spaced dense text
  have read (source : String) (h : (ofSource source).toOption.map
      (fun p => (p.numbers.all fun x => Number.IsFinite x, p.prefixForm)) = some (true, text)) :
      ∃ p, ofSource source = .ok p ∧ (∀ x ∈ p.numbers, Number.IsFinite x) ∧ p.prefixForm = text := by
    cases hp : ofSource source with
    | error fault => simp [hp, Except.toOption] at h
    | ok p =>
      simp only [hp, Except.toOption, Option.map_some, Option.some.injEq, Prod.mk.injEq, List.all_eq_true,
        decide_eq_true_eq] at h
      exact ⟨p, rfl, h⟩
  obtain ⟨p, hp, hpx, hpt⟩ := read spaced (by rw [ofSource_eq]; decide +kernel)
  obtain ⟨q, hq, hqx, hqt⟩ := read dense (by rw [ofSource_eq]; decide +kernel)
  exact ⟨p, q, hp, hq, hpt, hqt, ofSource_prefixForm hp hq hpx hqx (hpt.trans hqt.symm)⟩

end RavenLang.Program
