import Mathlib.Data.List.Induction
import RavenLang.Proofs.Evaluation.Raised
import RavenLang.Proofs.Evaluation.Session
import RavenLang.Proofs.Grammar.Places

/-!
# Places of failures

A fault has the place of a node of the program that is evaluated, or of a node in the body of a
function that it calls. Functions are kept for later programs, and their places with them.
-/

namespace RavenLang

/-- A fault has the place of a node of the program at whose nodes it is raised. -/
theorem Program.Holds.span_mem {p : Program} {n : Node} (hn : p.Holds n) {f : Fault} (hf : n.Raises f) :
    f.span ∈ p.spans := by
  rcases hf.span with h | ⟨m, hm, h⟩
  · exact h ▸ hn.spans_subset n.span_mem_spans
  · exact h ▸ (hn.child hm).spans_subset m.span_mem_spans

theorem Store.bodiesAmong_populated (Among : Node → Prop) : Store.populated.BodiesAmong Among := by
  intro id f hf
  have : Store.populated.functions = #[] := rfl
  rw [this] at hf
  cases hf

namespace Request

/-- The store behind requests that are answered in the global scope. -/
def storeBehind (rs : List Request) : Store := rs.foldl (fun st r => (r.answer global st).store) .populated

def Within (r : Request) (s : Span) : Prop := s.Within (Text.size r.source.toList)

/-- The nodes of the programs that were run. -/
def RanAmong (rs : List Request) (n : Node) : Prop :=
  ∃ r ∈ rs, ∃ p, Program.ofSource r.source = .ok p ∧ p.Holds n

theorem ranAmong_hereditary (rs : List Request) : Node.Hereditary (RanAmong rs) := by
  rintro m n ⟨r, hr, p, hp, hm⟩ hn
  exact ⟨r, hr, p, hp, hm.child hn⟩

theorem storeBehind_bodiesAmong (rs : List Request) : (storeBehind rs).BodiesAmong (RanAmong rs) := by
  induction rs using List.reverseRecOn with
  | nil => exact Store.bodiesAmong_populated _
  | append_singleton rs r ih =>
    have hold : (storeBehind rs).BodiesAmong (RanAmong (rs ++ [r])) := by
      intro id f hf s hs
      obtain ⟨q, hq, hp⟩ := ih id f hf s hs
      exact ⟨q, List.mem_append_left _ hq, hp⟩
    rw [storeBehind, List.foldl_append]
    refine (answer_raisesAmong (ranAmong_hereditary _) (fun p hp s hs => ?_) hold).1
    exact ⟨r, by simp, p, hp, .stmt hs⟩

/-- A failure has its place in the text that is run, or in the body of a function that is called and
that an earlier text declares. -/
theorem failure_place (earlier : List Request) (r : Request) {failure : Failure}
    (h : (r.answer global (storeBehind earlier)).outcome = .error failure) :
    r.Within failure.span ∨ ∃ (fault : Fault) (id : FunctionId) (f : Function), failure = .stopped fault ∧
      (storeBehind earlier).functions[id]? = some f ∧ fault.span ∈ Program.spans f.body ∧
      ∃ q ∈ earlier, q.Within fault.span := by
  cases failure with
  | tooDeep => exact .inl (Span.within_point (Nat.zero_le _))
  | notAProgram fault => exact .inl (Program.ofSource_fault_place (ofSource_of_notAProgram h))
  | stopped fault =>
    -- the nodes of this program, and those of the bodies that are there before it
    let Among (n : Node) : Prop := (∃ p, Program.ofSource r.source = .ok p ∧ p.Holds n) ∨
      ∃ (id : FunctionId) (f : Function), (storeBehind earlier).functions[id]? = some f ∧ Program.Holds f.body n
    have hA : Node.Hereditary Among := by
      rintro m n (⟨p, hp, hm⟩ | ⟨id, f, hf, hm⟩) hn
      · exact .inl ⟨p, hp, hm.child hn⟩
      · exact .inr ⟨id, f, hf, hm.child hn⟩
    have hbodies : (storeBehind earlier).BodiesAmong Among := fun id f hf s hs => .inr ⟨id, f, hf, .stmt hs⟩
    have hraised := (answer_raisesAmong hA (fun p hp s hs => .inl ⟨p, hp, .stmt hs⟩) hbodies).2 fault h
    obtain ⟨n, ⟨p, hp, hn⟩ | ⟨id, f, hf, hn⟩, hr⟩ := hraised
    · exact .inl (Program.ofSource_places hp _ (hn.span_mem hr))
    · obtain ⟨q, hq, p, hp, hn'⟩ := hn.among (ranAmong_hereditary earlier) (storeBehind_bodiesAmong earlier id f hf)
      have hplace := Program.ofSource_places hp _ (hn'.span_mem hr)
      exact .inr ⟨fault, id, f, rfl, hf, hn.span_mem hr, q, hq, hplace⟩

/-- The body of a function is kept with its places in the text that declares it. -/
theorem failure_place_called :
    let declaring : Request := ⟨default, 1, "let pad = 1; fn f() \x7b nope \x7d"⟩
    let calling : Request := ⟨default, 1, "f()"⟩
    ∃ failure, (calling.answer global (storeBehind [declaring])).outcome = .error failure ∧
      (calling.Within failure.span ∨ ∃ (fault : Fault) (id : FunctionId) (f : Function),
        failure = .stopped fault ∧ (storeBehind [declaring]).functions[id]? = some f ∧
          fault.span ∈ Program.spans f.body ∧ ∃ q ∈ [declaring], q.Within fault.span) := by
  intro declaring calling
  have hfails : (calling.answer global (storeBehind [declaring])).outcome.isOk = false := by
    simp only [storeBehind, List.foldl, answer, run_eq]
    decide +kernel
  cases h : (calling.answer global (storeBehind [declaring])).outcome with
  | ok v =>
    rw [h] at hfails
    cases hfails
  | error failure => exact ⟨failure, rfl, failure_place [declaring] calling h⟩

/-- A failure whose place is not in the text that is run: it ends behind it. -/
theorem failure_place_elsewhere :
    let declaring : Request := ⟨default, 1, "let pad = 1; fn f() \x7b nope \x7d"⟩
    let calling : Request := ⟨default, 1, "f()"⟩
    ∃ failure, (calling.answer global (storeBehind [declaring])).outcome = .error failure ∧
      failure.span = ⟨22, 26⟩ ∧ ¬ calling.Within failure.span := by
  intro declaring calling
  have hcheck : (match (calling.answer global (storeBehind [declaring])).outcome with
      | .error failure => decide (failure.span = ⟨22, 26⟩)
      | .ok _ => false) = true := by
    simp only [storeBehind, List.foldl, answer, run_eq]
    decide +kernel
  split at hcheck
  · next failure h =>
    have hspan : failure.span = ⟨22, 26⟩ := of_decide_eq_true hcheck
    refine ⟨failure, h, hspan, fun hw => ?_⟩
    rw [hspan] at hw
    exact absurd hw.stop_le (by decide)
  · cases hcheck

end Request

end RavenLang
