import RavenLang.Proofs.Evaluation.Constants
import RavenLang.Proofs.Evaluation.Depth
import RavenLang.Proofs.Evaluation.Requests
import RavenLang.Proofs.Evaluation.Twins

/-!
# Environments apart

Source texts are run in two populated global scopes of one store. What is answered in one of
them does not depend on what is run in the other.
-/

namespace RavenLang

/-! ## Two parties -/

namespace Request

/-- The evaluation ends within the depth that is allowed, and without asking for the time. -/
def Timeless (r : Request) (scope : ScopeId) (st : Store) : Prop :=
  (run (Calls.clockless r.depth) scope r.source st.unprinted).1 ≠ .error .tooDeep

instance decidableTooDeep : (r : Except Failure Value) → Decidable (r = .error .tooDeep)
  | .ok _ => isFalse nofun
  | .error (.notAProgram _) => isFalse nofun
  | .error (.stopped _) => isFalse nofun
  | .error .tooDeep => isTrue rfl

instance (r : Request) (scope : ScopeId) (st : Store) : Decidable (r.Timeless scope st) :=
  inferInstanceAs (Decidable (¬ _ = _))

end Request

inductive Party where
  | a
  | b
  deriving DecidableEq

/-- One populated global scope after the other. -/
def Store.addGlobals (st : Store) : Store := st.addGlobal.2.addGlobal.2

namespace Party

def scope (st : Store) : Party → ScopeId
  | .a => st.addGlobal.1
  | .b => st.addGlobal.2.addGlobal.1

section
variable (scope : Party → ScopeId)

def answers : List (Party × Request) → Store → List (Party × Answer)
  | [], _ => []
  | (p, r) :: rs, st => (p, r.answer (scope p) st) :: answers rs (r.answer (scope p) st).store

def Timeless : List (Party × Request) → Store → Prop
  | [], _ => True
  | (p, r) :: rs, st => r.Timeless (scope p) st ∧ Timeless rs (r.answer (scope p) st).store

end

/-- What belongs to one party, in its order. -/
def own {α : Type} (p : Party) (xs : List (Party × α)) : List α :=
  (xs.filter (·.1 = p)).map (·.2)

theorem own_cons_self {α : Type} (p : Party) (x : α) (xs : List (Party × α)) :
    p.own ((p, x) :: xs) = x :: p.own xs := by
  simp [own]

theorem own_cons_of_ne {α : Type} {p q : Party} (h : q ≠ p) (x : α) (xs : List (Party × α)) :
    p.own ((q, x) :: xs) = p.own xs := by
  simp [own, h]

end Party

/-! ## Answers that are alike -/

inductive Failure.Alike (w : Pairing) : Failure → Failure → Prop
  | notAProgram (f : SyntaxFault) : Failure.Alike w (.notAProgram f) (.notAProgram f)
  | stopped {f f' : Fault} : f.Alike id w f' → Failure.Alike w (.stopped f) (.stopped f')
  | tooDeep : Failure.Alike w .tooDeep .tooDeep

inductive OutcomeAlike (w : Pairing) : Except Failure Value → Except Failure Value → Prop
  | value {v v' : Value} : v.Alike w v' → OutcomeAlike w (.ok v) (.ok v')
  | failure {e e' : Failure} : e.Alike w e' → OutcomeAlike w (.error e) (.error e')

structure Answer.Alike (a a' : Answer) : Prop where
  outcome : ∃ w : Pairing, w.Holds id a.store a'.store ∧ OutcomeAlike w a.outcome a'.outcome
  shown : a'.shown = a.shown
  printed : a'.printed = a.printed

theorem Failure.Alike.message {w : Pairing} {st st' : Store} (h : w.Holds id st st') {e e' : Failure}
    (he : e.Alike w e') : e'.message st'.functions = e.message st.functions := by
  cases he with
  | notAProgram | tooDeep => rfl
  | stopped hf => exact hf.message h

theorem Answer.shown_of_alike {w : Pairing} {a a' : Answer} (h : w.Holds id a.store a'.store)
    (ho : OutcomeAlike w a.outcome a'.outcome) : a'.shown = a.shown := by
  obtain ⟨r, st⟩ := a
  obtain ⟨r', st'⟩ := a'
  cases ho with
  | value hv => exact congrArg Except.ok (hv.text h)
  | failure he => exact congrArg Except.error (he.message h)

theorem Pairing.Holds.unprinted {w : Pairing} {place : Span → Span} {st st' : Store}
    (h : w.Holds place st st') : w.Holds place st.unprinted st'.unprinted :=
  ⟨h.scope, h.function, h.scope_unique, h.function_unique⟩

/-- What stands for something on the left may not have changed on the right. -/
theorem Pairing.Holds.frame {w : Pairing} {place : Span → Span} {st st' st'' : Store}
    (h : w.Holds place st st')
    (hs : ∀ {i i'} {sc : Scope}, w.scope i i' → st'.scopes[i']? = some sc → st''.scopes[i']? = some sc)
    (hf : ∀ {g : FunctionId} {f : Function}, st'.functions[g]? = some f → st''.functions[g]? = some f) :
    w.Holds place st st'' where
  scope hi := by
    obtain ⟨sc, sc', hl, hr, ha⟩ := h.scope hi
    exact ⟨sc, sc', hl, hs hi hr, ha⟩
  function hg := by
    obtain ⟨f, f', hl, hr, ha⟩ := h.function hg
    exact ⟨f, f', hl, hf hr, ha⟩
  scope_unique := h.scope_unique
  function_unique := h.function_unique

/-! ## One run -/

section
variable {i i' : ScopeId}

theorem run_of_below {calls calls' : Calls} (h : calls.Below calls') {source : String} {st : Store}
    (ht : (run calls i source st).1 ≠ .error .tooDeep) : run calls' i source st = run calls i source st := by
  simp only [run] at ht ⊢
  cases hp : Program.ofSource source with
  | error fault => rfl
  | ok p =>
    simp only [hp] at ht ⊢
    rcases h.program p .null (i := i) st with hd | he
    · rw [Program.eval] at ht
      exact absurd (by rw [hd]; rfl) ht
    · rw [Program.eval, Program.eval, he]

theorem Native.clockless_matching {place : Span → Span} {now : Clock} (T : Twins place now) (n : Native) {xs xs' : List Value}
    (hxs : List.Forall₂ (Value.Alike T.pairing) xs xs') :
    T.Match Value.Alike (n.clockless xs i) (n.clockless xs' i') := by
  have hplain : T.Match _ ((Host.plain now).native n xs i) ((Host.plain now).native n xs' i') := n.matching T hxs
  cases n with
  | time => exact .idle rfl rfl .tooDeep
  | print | embedded => exact hplain

theorem Calls.clockless_matching (place : Span → Span) (now : Clock) (d : Nat) :
    Matching place now (clockless d) (clockless d) := by
  induction d with
  | zero =>
    refine ⟨fun T _ _ _ _ _ _ _ => ?_, fun T n _ _ _ _ hxs _ => n.clockless_matching T hxs⟩
    exact .idle rfl rfl .tooDeep
  | succ d ih =>
    refine ⟨fun T _ _ _ _ span hg hxs => ih.enter T span hg hxs, fun T n _ _ _ _ hxs _ => ?_⟩
    exact n.clockless_matching T hxs

theorem Twins.run {calls : Calls} {now : Clock} (h : calls.Matching id now calls) (T : Twins id now) (hi : T.pairing.scope i i')
    (source : String) :
    ∃ U : Twins id now, U.left = (RavenLang.run calls i source T.left).2 ∧
      U.right = (RavenLang.run calls i' source T.right).2 ∧ T.Onward U ∧
      OutcomeAlike U.pairing (RavenLang.run calls i source T.left).1
        (RavenLang.run calls i' source T.right).1 := by
  simp only [RavenLang.run]
  cases Program.ofSource source with
  | error fault => exact ⟨T, rfl, rfl, .refl T, .failure (.notAProgram fault)⟩
  | ok p =>
    obtain ⟨U, hl, hr, hTU, he⟩ := h.program p hi .null
    rw [Stmt.mapSpansAll_id] at hr he
    refine ⟨U, hl, hr, hTU, ?_⟩
    simp only [Program.eval]
    generalize ((p.evalFrom calls i .null).perform T.left).1 = r at he ⊢
    generalize ((p.evalFrom calls i' .null).perform T.right).1 = r' at he ⊢
    cases he with
    | ok hv => exact .value hv
    | fault hf => exact .failure (.stopped hf)
    | tooDeep => exact .failure .tooDeep

theorem OutcomeAlike.tooDeep_iff {w : Pairing} {r r' : Except Failure Value} (h : OutcomeAlike w r r') :
    r = .error .tooDeep ↔ r' = .error .tooDeep := by
  cases h with
  | value => exact iff_of_false nofun nofun
  | failure he =>
    cases he with
    | notAProgram | stopped => exact iff_of_false nofun nofun
    | tooDeep => exact iff_of_true rfl rfl

/-- A request in two stores, in scopes that stand for each other. The one on the right ends within its
depth, and so the other one does. -/
theorem Pairing.Holds.answer {w : Pairing} {st st' : Store} (h : w.Holds id st st') (hi : w.scope i i')
    {r s : Request} (hs : s.source = r.source) (hd : r.depth ≤ s.depth) (ht : r.Timeless i' st') :
    ∃ U : Twins id default, U.left = (s.answer i st).store ∧ U.right = (r.answer i' st').store ∧
      (⟨st.unprinted, st'.unprinted, w, h.unprinted, fun _ => rfl⟩ : Twins id default).Onward U ∧
      (s.answer i st).Alike (r.answer i' st') := by
  obtain ⟨now, depth, source⟩ := s
  obtain rfl : source = r.source := hs
  let s : Request := ⟨now, depth, r.source⟩
  let T : Twins id default := ⟨st.unprinted, st'.unprinted, w, h.unprinted, fun _ => rfl⟩
  obtain ⟨U, hl, hr, hTU, ho⟩ := T.run (Calls.clockless_matching id default r.depth) hi r.source
  have ht' := mt ho.tooDeep_iff.1 ht
  rw [← run_of_below (Calls.clockless_below r.now (Nat.le_refl _)) ht] at hr ho
  rw [← run_of_below (Calls.clockless_below now hd) ht'] at hl ho
  replace hl : U.left = (s.answer i st).store := hl
  replace hr : U.right = (r.answer i' st').store := hr
  have hholds : U.pairing.Holds id (s.answer i st).store (r.answer i' st').store := by
    rw [← hl, ← hr]
    exact U.holds
  refine ⟨U, hl, hr, hTU, ⟨U.pairing, hholds, ho⟩, Answer.shown_of_alike hholds ho, ?_⟩
  obtain ⟨text, htl, htr⟩ := hTU.printed
  rw [Answer.printed, Answer.printed, ← hl, ← hr, htl, htr]
  rfl

end

/-! ## Side by side -/

/-- One store holds the scopes of all parties, and each party has a store of its own besides. What
the parties have in the common store is apart. -/
structure Abreast (scope home : Party → ScopeId) (joint : Store) (alone : Party → Store)
    (w : Party → Pairing) : Prop where
  holds : ∀ p, (w p).Holds id (alone p) joint
  globals : ∀ p, (w p).scope (home p) (scope p)
  apart : ∀ {p q i j k}, (w p).scope i k → (w q).scope j k → p = q

namespace Abreast

variable {scope home : Party → ScopeId} {joint : Store} {alone : Party → Store} {w : Party → Pairing}

/-- A request in the common store and in the party's own one. -/
theorem answer (h : Abreast scope home joint alone w) (p : Party) {r s : Request} (hs : s.source = r.source)
    (hd : r.depth ≤ s.depth) (ht : r.Timeless (scope p) joint) :
    (∃ w', Abreast scope home (r.answer (scope p) joint).store
        (Function.update alone p (s.answer (home p) (alone p)).store) w') ∧
      (s.answer (home p) (alone p)).Alike (r.answer (scope p) joint) := by
  obtain ⟨U, hl, hr, hTU, halike⟩ := (h.holds p).answer (h.globals p) hs hd ht
  have hholds : U.pairing.Holds id (s.answer (home p) (alone p)).store (r.answer (scope p) joint).store := by
    rw [← hl, ← hr]
    exact U.holds
  refine ⟨⟨Function.update w p U.pairing, ?_, ?_, ?_⟩, halike⟩
  · intro q
    by_cases hq : q = p
    · subst hq
      rwa [Function.update_self, Function.update_self]
    · rw [Function.update_of_ne hq, Function.update_of_ne hq, ← hr]
      refine (h.holds q).frame (fun hi hsc => hTU.others (fun j hj => hq ?_) hsc) hTU.functions
      exact h.apart hi hj
  · intro q
    by_cases hq : q = p
    · subst hq
      rw [Function.update_self]
      exact hTU.pairing.scope (h.globals q)
    · rw [Function.update_of_ne hq]
      exact h.globals q
  · intro q q' i j k hi hj
    have fresh {q i j k} (hq : q ≠ p) (hi : U.pairing.scope i k) (hj : (w q).scope j k) : False := by
      rcases hTU.fresh hi with hi | hle
      · exact hq (h.apart hj hi)
      · exact absurd ((h.holds q).lt_size hj).2 (Nat.not_lt_of_le hle)
    by_cases hq : q = p <;> by_cases hq' : q' = p
    · rw [hq, hq']
    · rw [hq, Function.update_self] at hi
      rw [Function.update_of_ne hq'] at hj
      exact (fresh hq' hi hj).elim
    · rw [Function.update_of_ne hq] at hi
      rw [hq', Function.update_self] at hj
      exact (fresh hq hj hi).elim
    · rw [Function.update_of_ne hq] at hi
      rw [Function.update_of_ne hq'] at hj
      exact h.apart hi hj

/-- Requests of all parties in the common store, and those of one in its own. -/
theorem answers (h : Abreast scope home joint alone w) (p : Party) {rs : List (Party × Request)}
    {ss : List Request} (ht : Party.Timeless scope rs joint)
    (hs : List.Forall₂ (fun r s => s.source = r.source ∧ r.depth ≤ s.depth) (p.own rs) ss) :
    List.Forall₂ Answer.Alike (Request.answers (home p) ss (alone p)) (p.own (Party.answers scope rs joint)) := by
  induction rs generalizing joint alone w ss with
  | nil =>
    cases hs
    exact .nil
  | cons x rs ih =>
    obtain ⟨q, r⟩ := x
    by_cases hq : q = p
    · subst hq
      rw [Party.own_cons_self] at hs
      rw [Party.answers, Party.own_cons_self]
      cases hs with
      | @cons _ s _ ss hrs hs =>
        obtain ⟨⟨w', h'⟩, ha⟩ := h.answer q hrs.1 hrs.2 ht.1
        have ih := ih h' ht.2 hs
        rw [Function.update_self] at ih
        exact .cons ha ih
    · rw [Party.own_cons_of_ne hq] at hs
      rw [Party.answers, Party.own_cons_of_ne hq]
      obtain ⟨⟨w', h'⟩, -⟩ := h.answer q rfl (Nat.le_refl _) ht.1
      have ih := ih h' ht.2 hs
      rwa [Function.update_of_ne (Ne.symm hq)] at ih

end Abreast

/-! ## From the start -/

theorem Scope.populated_alike (w : Pairing) (i i' : ScopeId) : populated.Alike w i i' populated := by
  have h : Scope.Alike w i i' (.fresh none) (.fresh none) := ⟨.inl ⟨rfl, rfl⟩, .nil, fun _ => rfl⟩
  have h := h.bind "true" ((Value.Alike.boolean true).bound true)
  have h := h.bind "false" ((Value.Alike.boolean false).bound true)
  have h := h.bind "null" (Value.Alike.null.bound true)
  have h := h.bind "print" ((Value.Alike.native .print "print").bound true)
  exact h.bind "time" ((Value.Alike.native .time "time").bound true)

theorem Store.scopes_addGlobals (st : Store) (p : Party) :
    st.addGlobals.scopes[p.scope st]? = some .populated := by
  cases p with
  | a => exact (Grows.addGlobal st.addGlobal.2).scopes _ _ st.scopes_addGlobal
  | b => exact st.addGlobal.2.scopes_addGlobal

theorem Store.fst_addGlobal (st : Store) : st.addGlobal.1 = st.scopes.size := rfl

theorem Party.scope_inj (st : Store) {p q : Party} (h : p.scope st = q.scope st) : p = q := by
  have hlt : Party.a.scope st < Party.b.scope st := by
    rw [scope, scope, st.addGlobal.2.fst_addGlobal]
    exact (Array.getElem?_eq_some_iff.1 st.scopes_addGlobal).1
  cases p <;> cases q
  · rfl
  · exact absurd h (Nat.ne_of_lt hlt)
  · exact absurd h (Nat.ne_of_gt hlt)
  · rfl

/-- Nothing stands for anything but the two global scopes for each other. -/
def Pairing.single (i i' : ScopeId) : Pairing := ⟨fun j j' => j = i ∧ j' = i', fun _ _ => False⟩

theorem Pairing.single_holds {st st' : Store} {i i' : ScopeId} (h : st.scopes[i]? = some .populated)
    (h' : st'.scopes[i']? = some .populated) : (single i i').Holds id st st' where
  scope := by
    rintro _ _ ⟨rfl, rfl⟩
    exact ⟨_, _, h, h', Scope.populated_alike _ _ _⟩
  function := False.elim
  scope_unique := by
    rintro _ _ _ _ ⟨rfl, rfl⟩ ⟨rfl, rfl⟩
    exact iff_of_true rfl rfl
  function_unique := False.elim

theorem Abreast.start (st st' : Store) :
    Abreast (Party.scope st) (fun _ => st'.addGlobal.1) st.addGlobals (fun _ => st'.addGlobal.2)
      (fun p => .single st'.addGlobal.1 (p.scope st)) where
  holds p := Pairing.single_holds st'.scopes_addGlobal (st.scopes_addGlobals p)
  globals _ := ⟨rfl, rfl⟩
  apart hi hj := Party.scope_inj st (hi.2.symm.trans hj.2)

/-- Whatever else is run in the other environment: if evaluations end without asking for the time,
a party's requests are answered as they are when it is alone, in an environment just made. -/
theorem Party.answers_alone (st st' : Store) (p : Party) {rs : List (Party × Request)} {ss : List Request}
    (ht : Party.Timeless (Party.scope st) rs st.addGlobals)
    (hs : List.Forall₂ (fun r s => s.source = r.source ∧ r.depth ≤ s.depth) (p.own rs) ss) :
    List.Forall₂ Answer.Alike (Request.answers st'.addGlobal.1 ss st'.addGlobal.2)
      (p.own (Party.answers (Party.scope st) rs st.addGlobals)) :=
  (Abreast.start st st').answers p ht hs

/-- Both parties declare a variable and a function of the same names. -/
theorem Party.answers_alone_names :
    let r : Request := ⟨default, 2, "let x = true; fn f() \x7b x \x7d"⟩
    let r' : Request := ⟨default, 2, "let x = null; fn f() \x7b print(x) \x7d"⟩
    let s : Request := ⟨default, 2, "f(); f"⟩
    let rs := [(Party.a, r), (Party.b, r'), (Party.b, s), (Party.a, s)]
    Party.Timeless (Party.scope .empty) rs Store.empty.addGlobals ∧
      (Party.a.own (Party.answers (Party.scope .empty) rs Store.empty.addGlobals)).map Answer.printed =
        ["", ""] ∧
      List.Forall₂ Answer.Alike (Request.answers Store.empty.addGlobal.1 [r, s] Store.empty.addGlobal.2)
        (Party.a.own (Party.answers (Party.scope .empty) rs Store.empty.addGlobals)) := by
  intro r r' s rs
  have ht : Party.Timeless (Party.scope .empty) rs Store.empty.addGlobals := by
    simp only [rs, Party.Timeless, Request.Timeless, Request.answer, run_eq]
    decide +kernel
  have hprinted : (Party.a.own (Party.answers (Party.scope .empty) rs Store.empty.addGlobals)).map Answer.printed =
      ["", ""] := by
    simp only [rs, Party.answers, Request.answer, run_eq]
    decide +kernel
  refine ⟨ht, hprinted, Party.answers_alone .empty .empty .a ht ?_⟩
  exact .cons ⟨rfl, Nat.le_refl _⟩ (.cons ⟨rfl, Nat.le_refl _⟩ .nil)

end RavenLang
