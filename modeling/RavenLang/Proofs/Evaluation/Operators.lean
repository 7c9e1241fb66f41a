import RavenLang.Proofs.Evaluation.Places
import RavenLang.Proofs.Grammar.Shapes

/-!
# Operators that are evaluated

Operators are kept as texts, and evaluation stops at a text that is none. No program that was read has
such a text, and so has no function that an earlier program left behind.
-/

namespace RavenLang

def Node.WellFormed (number : Float → Prop) : Node → Prop
  | stmt s => s.WellFormed number
  | expr e => e.WellFormed number
  | entry e => e.WellFormed number

theorem Node.wellFormed_hereditary (number : Float → Prop) : Node.Hereditary (Node.WellFormed number) := by
  intro m n hm hn
  have one {e : Expr} (he : e.WellFormed number) (hn : n ∈ [expr e]) : n.WellFormed number := by
    obtain rfl := List.mem_singleton.1 hn
    exact he
  have two {l r : Expr} (hl : l.WellFormed number) (hr : r.WellFormed number) (hn : n ∈ [expr l, expr r]) :
      n.WellFormed number := by
    rcases List.mem_cons.1 hn with rfl | hn
    · exact hl
    · exact one hr hn
  cases m with
  | stmt s =>
    cases hm with
    | undefined => cases hn
    | defined _ he => exact one he hn
    | function _ _ hbody =>
      obtain ⟨s, hs, rfl⟩ := List.mem_map.1 hn
      exact hbody s hs
    | expr he => exact one he hn
  | expr e =>
    cases hm with
    | name | number | string => cases hn
    | object hes =>
      obtain ⟨e, he, rfl⟩ := List.mem_map.1 hn
      exact hes e he
    | binary _ hl hr => exact two hl hr hn
    | assign ht hv => exact two ht hv hn
    | call hf has =>
      rcases List.mem_cons.1 hn with rfl | hn
      · exact hf
      · obtain ⟨a, ha, rfl⟩ := List.mem_map.1 hn
        exact has a ha
    | field ho hname => exact two ho (.name hname) hn
    | index ho hp => exact two ho hp hn
  | entry e =>
    cases hm with
    | shorthand => cases hn
    | pair _ hv => exact one hv hn

/-- A node of a shape that source text has is no unknown operator. -/
theorem Node.WellFormed.not_raises {number : Float → Prop} {n : Node} (h : n.WellFormed number) (op : String)
    (span : Span) : ¬ n.Raises (.unknownOperator op span) := by
  intro hr
  cases hr with
  | operator hop =>
    cases h with
    | binary hmem =>
      simp only [List.mem_cons, List.not_mem_nil, or_false] at hmem
      rcases hmem with rfl | rfl | rfl | rfl | rfl | rfl <;> cases hop

namespace Request

theorem RanAmong.wellFormed {rs : List Request} {n : Node} (h : RanAmong rs n) :
    n.WellFormed Number.IsMagnitude := by
  obtain ⟨r, -, p, hp, hn⟩ := h
  exact hn.among (Node.wellFormed_hereditary _) fun s hs => Program.ofSource_wellFormed hp s hs

theorem not_unknownOperator (earlier : List Request) (r : Request) (op : String) (span : Span) :
    (r.answer global (storeBehind earlier)).outcome ≠ .error (.stopped (.unknownOperator op span)) := by
  intro h
  have hbodies : (storeBehind earlier).BodiesAmong (Node.WellFormed Number.IsMagnitude) := fun id f hf s hs =>
    RanAmong.wellFormed (storeBehind_bodiesAmong earlier id f hf s hs)
  obtain ⟨n, hn, hr⟩ := (answer_raisesAmong (Node.wellFormed_hereditary _)
    (fun p hp s hs => Program.ofSource_wellFormed hp s hs) hbodies).2 _ h
  exact hn.not_raises op span hr

/-- What is read has the shapes that source text has. Thus no request in the global scope stops at an
operator, whatever ran before it, and no text is rejected for a numeral. -/
theorem operators_known :
    (∀ (source : String) (p : Program), Program.ofSource source = .ok p → p.WellFormed Number.IsMagnitude) ∧
      (∀ (earlier : List Request) (r : Request) (op : String) (span : Span),
        (r.answer global (storeBehind earlier)).outcome ≠ .error (.stopped (.unknownOperator op span))) ∧
      ∀ (source : String) (fault : SyntaxFault), Program.ofSource source = .error fault →
        fault.expected? ≠ some Expected.numeral :=
  ⟨fun _ _ => Program.ofSource_wellFormed, not_unknownOperator, fun _ _ => Program.ofSource_expected?_ne_numeral⟩

/-- A function with operators is called by a later request, and a text ends where an operand is missing. -/
theorem operators_known_called :
    let declaring : Request := ⟨default, 1, "fn f(x) \x7b 2 * (x % 7) ^ x - \"s\" \x7d"⟩
    let calling : Request := ⟨default, 1, "f(1 / 0) + 3"⟩
    (∃ p, Program.ofSource declaring.source = .ok p ∧ p.length = 1 ∧ p.WellFormed Number.IsMagnitude) ∧
      (∀ op span, (calling.answer global (storeBehind [declaring])).outcome ≠
        .error (.stopped (.unknownOperator op span))) ∧
      ∃ fault, Program.ofSource "1 +" = .error fault ∧ fault.expected? ≠ some Expected.numeral := by
  intro declaring calling
  refine ⟨?_, operators_known.2.1 [declaring] calling, ?_⟩
  · obtain ⟨p, h, hlength⟩ : ∃ p, Program.ofSource declaring.source = .ok p ∧ p.length = 1 := by
      rw [Program.ofSource_eq]
      decide +kernel
    exact ⟨p, h, hlength, operators_known.1 _ p h⟩
  · obtain ⟨fault, h, -⟩ : ∃ fault, Program.ofSource "1 +" = .error fault ∧ fault.isIncomplete = true := by
      rw [Program.ofSource_eq]
      decide +kernel
    exact ⟨fault, h, operators_known.2.2 _ fault h⟩

end Request

end RavenLang
