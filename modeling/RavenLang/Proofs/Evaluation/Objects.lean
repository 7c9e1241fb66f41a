import RavenLang.Proofs.Evaluation.Writes
import RavenLang.Proofs.Value.Equality
import RavenLang.Proofs.Value.Ordered

/-!
# Object literals

The entries of a literal are evaluated one after the other, those too whose keys stand again further on. The
object reads the last entry of each key, and nothing else about the entries can be told from it.
-/

namespace RavenLang

/-! ## Entries -/

namespace Entry

section
variable (calls : Calls) (i : ScopeId)

/-- What an entry comes to: the value of its expression, or that of the variable named by its key. -/
inductive Gives : Entry → Store → Value → Store → Prop
  | shorthand {span : Span} {k : String} {st : Store} {x : Value} : st.read i k span = .ok x →
      Gives (.shorthand span k) st x st
  | pair {span : Span} {k : String} {e : Expr} {st : Store} {x : Value} {st' : Store} :
      (e.eval calls i).perform st = (.ok x, st') → Gives (.pair span k e) st x st'

/-- Each entry gives its value once, in the store that the entries before it left. -/
inductive Runs : List Entry → Store → List (String × Value) → Store → Prop
  | nil {st : Store} : Runs [] st [] st
  | cons {e : Entry} {es : List Entry} {st mid st' : Store} {x : Value} {results : List (String × Value)} :
      Gives calls i e st x mid → Runs es mid results st' → Runs (e :: es) st ((e.key, x) :: results) st'

end

variable {calls : Calls} {i : ScopeId} {st st' : Store}

theorem perform_eval_eq_ok {e : Entry} {p : String × Value} :
    (e.eval calls i).perform st = (.ok p, st') ↔ p.1 = e.key ∧ e.Gives calls i st p.2 st' := by
  obtain ⟨k, x⟩ := p
  cases e with
  | shorthand span l =>
    rw [eval, Action.perform_bind_eq_ok, Store.perform_lookup_eq]
    constructor
    · intro h
      obtain ⟨v, mid, hv, h⟩ := h
      cases h
      obtain ⟨hread, rfl⟩ := Prod.mk.inj hv
      exact ⟨rfl, .shorthand hread⟩
    · intro h
      obtain ⟨rfl, h⟩ := h
      cases h with
      | shorthand h => exact ⟨x, st, by rw [h], rfl⟩
  | pair span l e =>
    rw [eval, Action.perform_bind_eq_ok]
    constructor
    · intro h
      obtain ⟨v, mid, hv, h⟩ := h
      cases h
      exact ⟨rfl, .pair hv⟩
    · intro h
      obtain ⟨rfl, h⟩ := h
      cases h with
      | pair h => exact ⟨x, st', h, rfl⟩

theorem perform_evalAll_eq_ok {es : List Entry} {results : List (String × Value)} :
    (evalAll calls i es).perform st = (.ok results, st') ↔ Runs calls i es st results st' := by
  induction es generalizing st results with
  | nil =>
    constructor
    · intro h
      cases h
      exact .nil
    · intro h
      cases h
      rfl
  | cons e es ih =>
    rw [evalAll, Action.perform_bind_eq_ok]
    constructor
    · intro h
      obtain ⟨⟨k, x⟩, mid, hx, h⟩ := h
      obtain ⟨rest, st₁, hrest, h⟩ := Action.perform_bind_eq_ok.1 h
      cases h
      obtain ⟨rfl, hx⟩ := perform_eval_eq_ok.1 hx
      exact .cons hx (ih.1 hrest)
    · intro h
      cases h with
      | @cons _ _ _ mid _ x rest hx hrest =>
        refine ⟨(e.key, x), mid, perform_eval_eq_ok.2 ⟨rfl, hx⟩, ?_⟩
        exact Action.perform_bind_eq_ok.2 ⟨rest, st', ih.2 hrest, rfl⟩

namespace Runs

variable {es behind : List Entry} {e : Entry} {results : List (String × Value)}

theorem keys (h : Runs calls i es st results st') : results.map (·.1) = es.map key := by
  induction h with
  | nil => rfl
  | cons _ _ ih => rw [List.map_cons, List.map_cons, ih]

/-- Around any entry stand the runs of those before it and of those behind it. -/
theorem split {before : List Entry} (h : Runs calls i (before ++ e :: behind) st results st') :
    ∃ first mid x mid' last, Runs calls i before st first mid ∧ e.Gives calls i mid x mid' ∧
      Runs calls i behind mid' last st' ∧ results = first ++ (e.key, x) :: last := by
  induction before generalizing st results with
  | nil =>
    cases h with
    | cons hx hrest => exact ⟨[], st, _, _, _, .nil, hx, hrest, rfl⟩
  | cons e' before ih =>
    cases h with
    | cons hx hrest =>
      obtain ⟨first, mid, y, mid', last, hfirst, hy, hlast, rfl⟩ := ih hrest
      exact ⟨_ :: first, mid, y, mid', last, .cons hx hfirst, hy, hlast, rfl⟩

end Runs

end Entry

theorem Expr.perform_object_eq_ok {calls : Calls} {i : ScopeId} {span : Span} {es : List Entry} {st st' : Store}
    {v : Value} :
    ((Expr.object span es).eval calls i).perform st = (.ok v, st') ↔
      ∃ results, Entry.Runs calls i es st results st' ∧ v = .object (fieldsOfEntries results) := by
  rw [eval, Action.perform_bind_eq_ok]
  constructor
  · intro h
    obtain ⟨results, mid, hresults, h⟩ := h
    cases h
    exact ⟨results, Entry.perform_evalAll_eq_ok.1 hresults, rfl⟩
  · intro h
    obtain ⟨results, hresults, rfl⟩ := h
    exact ⟨results, st', Entry.perform_evalAll_eq_ok.2 hresults, rfl⟩

/-! ## Objects of like entries -/

namespace Value

theorem field_of_lastEntry {entries : List (String × Value)} {k : String} {x : Value} (h : LastEntry entries k x)
    (span : Span) : (object (fieldsOfEntries entries)).field span k = .ok x := by
  rw [field, lookup_fieldsOfEntries.2 h, Option.getD_some]

theorem fieldsOfEntries_eq {entries entries' : List (String × Value)}
    (h : ∀ k x, LastEntry entries k x ↔ LastEntry entries' k x) :
    fieldsOfEntries entries = fieldsOfEntries entries' := by
  apply (increasing_fieldsOfEntries entries).ext (increasing_fieldsOfEntries entries')
  intro k
  apply Option.ext
  intro x
  rw [lookup_fieldsOfEntries, lookup_fieldsOfEntries]
  exact h k x

/-- Entries whose last values are equal make objects that are equal. -/
theorem same_fieldsOfEntries {entries entries' : List (String × Value)}
    (h : ∀ k x, LastEntry entries k x → ∃ y, LastEntry entries' k y ∧ x.beq y = true)
    (h' : ∀ k y, LastEntry entries' k y → ∃ x, LastEntry entries k x) :
    Same (object (fieldsOfEntries entries)) (object (fieldsOfEntries entries')) := by
  rw [object_same_iff (increasing_fieldsOfEntries _) (increasing_fieldsOfEntries _)]
  intro k
  cases hx : (fieldsOfEntries entries).lookup k with
  | some x =>
    obtain ⟨y, hy, hxy⟩ := h k x (lookup_fieldsOfEntries.1 hx)
    rw [lookup_fieldsOfEntries.2 hy]
    exact .some (same_of_beq hxy)
  | none =>
    cases hy : (fieldsOfEntries entries').lookup k with
    | none => exact .none
    | some y =>
      obtain ⟨x, hx'⟩ := h' k y (lookup_fieldsOfEntries.1 hy)
      rw [lookup_fieldsOfEntries.2 hx'] at hx
      cases hx

end Value

/-! ## Literals -/

/-- The last of the entries with one key gives the value that the object reads. -/
theorem Entry.Runs.last {calls : Calls} {i : ScopeId} {before behind : List Entry} {e : Entry}
    {results : List (String × Value)} {st st' : Store} (h : Runs calls i (before ++ e :: behind) st results st')
    (hbehind : ∀ e' ∈ behind, e'.key ≠ e.key) :
    ∃ first mid x mid' last, Runs calls i before st first mid ∧ e.Gives calls i mid x mid' ∧
      Runs calls i behind mid' last st' ∧
      ∀ span, (Value.object (fieldsOfEntries results)).field span e.key = .ok x := by
  obtain ⟨first, mid, x, mid', last, hfirst, hx, hlast, rfl⟩ := h.split
  refine ⟨first, mid, x, mid', last, hfirst, hx, hlast, ?_⟩
  apply Value.field_of_lastEntry
  refine ⟨first, last, rfl, fun p hp => ?_⟩
  have hkey : p.1 ∈ behind.map key := by
    rw [← hlast.keys]
    exact List.mem_map_of_mem hp
  obtain ⟨e', he', hkey⟩ := List.mem_map.1 hkey
  rw [← hkey]
  exact hbehind e' he'

/-- A literal evaluates its entries once each, from left to right. The object has the keys of the entries, and
each of them reads what the last of its entries gave. Entries with the same last values make the same object, so
one text, and an object that is equal to the other unless there is a NaN in it; entries whose last values are equal
make objects that are equal and have the same text. In the text each key of an object stands once and the keys
are in strictly increasing order of their code points, at every depth: if the values of the entries are ordered, as
are all values of a session, and all values where the natives keep to it. -/
theorem Value.object_of_entries :
    (∀ (calls : Calls) (i : ScopeId) (span : Span) (es : List Entry) (st st' : Store) (v : Value),
      ((Expr.object span es).eval calls i).perform st = (.ok v, st') ↔
        ∃ results, Entry.Runs calls i es st results st' ∧ v = object (fieldsOfEntries results)) ∧
      (∀ (calls : Calls) (i : ScopeId) (es : List Entry) (st st' : Store) (results : List (String × Value)),
        Entry.Runs calls i es st results st' →
          (∀ k, k ∈ (fieldsOfEntries results).map (·.1) ↔ k ∈ es.map Entry.key) ∧
          ∀ before e behind, es = before ++ e :: behind → (∀ e' ∈ behind, e'.key ≠ e.key) →
            ∃ first mid x mid' last, Entry.Runs calls i before st first mid ∧ e.Gives calls i mid x mid' ∧
              Entry.Runs calls i behind mid' last st' ∧
              ∀ s, (object (fieldsOfEntries results)).field s e.key = .ok x) ∧
      (∀ entries entries' : List (String × Value), (∀ k x, LastEntry entries k x ↔ LastEntry entries' k x) →
        let v := object (fieldsOfEntries entries)
        let w := object (fieldsOfEntries entries')
        (v.beq w = true ↔ v.NaNFree) ∧ ∀ functions, v.text functions = w.text functions) ∧
      (∀ entries entries' : List (String × Value),
        (∀ k x, LastEntry entries k x → ∃ y, LastEntry entries' k y ∧ x.beq y = true) →
        (∀ k y, LastEntry entries' k y → ∃ x, LastEntry entries k x) →
        let v := object (fieldsOfEntries entries)
        let w := object (fieldsOfEntries entries')
        v.beq w = true ∧ ∀ functions, v.text functions = w.text functions) ∧
      (∀ (entries : List (String × Value)) (functions : Functions), (∀ p ∈ entries, p.2.Ordered) →
        let v := object (fieldsOfEntries entries)
        v.Ordered ∧ v.Shows functions false (v.text functions)) ∧
      (∀ (s : Session) (now : Clock) (d : Nat) (i : ScopeId) (e : Expr) (v : Value) (st' : Store),
        (e.eval ((Host.plain now).calls d) i).perform s.store = (.ok v, st') →
          v.Ordered ∧ ∀ functions, v.Shows functions false (v.text functions)) ∧
      ∀ (host : Host), (∀ key xs i, (∀ x ∈ xs, x.Ordered) → (host.embedded key xs i).Yields Ordered Ordered) →
        ∀ (d : Nat) (i : ScopeId) (e : Expr) (st st' : Store) (v : Value), st.Binds Ordered →
          (e.eval (host.calls d) i).perform st = (.ok v, st') →
            st'.Binds Ordered ∧ v.Ordered ∧ ∀ functions, v.Shows functions false (v.text functions) := by
  have hshows {v : Value} (h : v.Ordered) : v.Ordered ∧ ∀ functions, v.Shows functions false (v.text functions) :=
    ⟨h, fun functions => h.shows functions false⟩
  refine ⟨fun _ _ _ _ _ _ _ => Expr.perform_object_eq_ok, fun calls i es st st' results h => ⟨fun k => ?_, ?_⟩,
    fun entries entries' h => ?_, fun entries entries' h h' => ?_, fun entries functions h => ?_,
    fun s now d i e v st' h => ?_, fun host hn d i e st st' v hst h => ?_⟩
  · rw [mem_keys_fieldsOfEntries, h.keys]
  · intro before e behind hes hbehind
    subst hes
    exact h.last hbehind
  · simp only [← fieldsOfEntries_eq h, beq_iff_same, same_self_iff, implies_true, and_true]
  · have hsame := same_fieldsOfEntries h h'
    exact ⟨hsame.beq, fun functions => hsame.render functions false⟩
  · have hordered := ordered_fieldsOfEntries h
    exact ⟨hordered, hordered.shows functions false⟩
  · have hstore : s.store.Binds Ordered := by
      apply s.binds_store pervasive_ordered
      intro c hc
      simp only [Store.globals, List.mem_cons, List.not_mem_nil, or_false] at hc
      rcases hc with rfl | rfl | rfl | rfl | rfl <;> trivial
    obtain ⟨-, hv⟩ := (Host.plain_calls_yield pervasive_ordered now d).expr pervasive_ordered e s.store hstore
    exact hshows (hv v (by rw [h]))
  · have hcalls := Host.calls_yield pervasive_ordered (fun n _ i => Host.native_yields pervasive_ordered hn n i) d
    obtain ⟨hst', hv⟩ := hcalls.expr pervasive_ordered e st hst
    rw [h] at hst' hv
    exact ⟨hst', hshows (hv v rfl)⟩

/-- An entry that is overwritten assigns the variable which the next one reads, and an object inside has its keys
in disorder. -/
theorem Value.object_of_entries_overwritten :
    let s : Span := default
    let turn : Turn := ⟨default, 1, [.declare s false "a" none]⟩
    let inner : List Entry :=
      [.pair s "d" (.string s "y"), .shorthand s "null", .pair s "c" (.number s 2), .pair s "d" (.object s [])]
    let es : List Entry :=
      [.pair s "b" (.assign s (.name s "a") (.string s "x")), .shorthand s "a", .pair s "b" (.object s inner)]
    let calls := (Host.plain default).calls 1
    let st := Session.store [turn]
    ∃ v st' results, ((Expr.object s es).eval calls global).perform st = (.ok v, st') ∧
      Entry.Runs calls global es st results st' ∧
      (st'.binding? global "a").map (·.value.text st'.functions) = some "x" ∧
      v.text st'.functions = "\x7b a: \"x\", b: \x7b c: 2, d: \x7b\x7d, null: null \x7d \x7d" ∧
      v.Shows st'.functions false (v.text st'.functions) ∧
      (v.beq v = true ↔ v.NaNFree) := by
  intro s turn inner es calls st
  obtain ⟨hliteral, -, hsame, -, -, hsession, -⟩ := Value.object_of_entries
  have htext : let ran := ((Expr.object s es).eval calls global).perform st
      (ran.2.binding? global "a").map (·.value.text ran.2.functions) = some "x" ∧
        ran.1.toOption.map (·.text ran.2.functions) =
          some "\x7b a: \"x\", b: \x7b c: 2, d: \x7b\x7d, null: null \x7d \x7d" := by decide +kernel
  cases hr : ((Expr.object s es).eval calls global).perform st with
  | mk r st' =>
    rw [hr] at htext
    cases r with
    | error stop => cases htext.2
    | ok v =>
      obtain ⟨results, hruns, rfl⟩ := (hliteral calls global s es st st' v).1 hr
      refine ⟨_, st', results, rfl, hruns, htext.1, Option.some.inj htext.2, ?_, ?_⟩
      · exact (hsession [turn] default 1 global (.object s es) _ st' hr).2 st'.functions
      · exact (hsame results results fun _ _ => Iff.rfl).1

end RavenLang
