import Mathlib.Data.List.Forall2
import Mathlib.Data.List.Induction
import RavenLang.Proofs.Evaluation.Growth
import RavenLang.Proofs.Evaluation.Session

/-!
# Lexical scoping

Every scope but the global one belongs to one call of a function, and lies in the
scope that the function was declared in. So the scopes around a call are those of the
functions around the declaration, wherever the call comes from.
-/

namespace RavenLang

def declaredNames (body : List Stmt) : List String := body.filterMap Stmt.declared?

def Stmt.Declares (s : Stmt) (f : Function) : Prop := ∃ span, s = .function span f.name f.parameters f.body

namespace Session

/-- A call of the function began when the scope was the next to be made, and got past
the limit on nested calls. -/
def Created (s : Session) (g : FunctionId) (f : Function) (i : ScopeId) : Prop :=
  ∃ now d xs span st,
    s.Reached now (d + 1) (.call g xs span) st ∧ st.functions[g]? = some f ∧ st.scopes.size = i

/-- The declaration was executed in a scope when the function was the next to be made. -/
def Executed (s : Session) (decl : Stmt) (i : ScopeId) (g : FunctionId) : Prop :=
  ∃ now d st, s.Reached now d (.statement i decl) st ∧ st.functions.size = g

/-- Function declarations of a program of the session, each standing directly in the body of the
one behind it, the last one in the program itself. -/
inductive Nested (s : Session) : List Stmt → Prop
  | outermost {turn decl} : turn ∈ s → decl ∈ turn.program → Nested s [decl]
  | inside {decl span n ps body decls} : decl ∈ body → Nested s (.function span n ps body :: decls) →
      Nested s (decl :: .function span n ps body :: decls)

end Session

/-! ## The invariant -/

/-- A store and, for each of its scopes, the function whose call made it. -/
structure Chronicle where
  store : Store
  makers : Array (Option FunctionId)

namespace Chronicle

variable (session : Session)

/-- A statement stands directly in the code that runs in a scope. -/
def Stands (c : Chronicle) (i : ScopeId) (st : Stmt) : Prop :=
  i = global ∧ (∃ turn ∈ session, st ∈ turn.program) ∨
    ∃ g f, c.makers[i]? = some (some g) ∧ c.store.functions[g]? = some f ∧ st ∈ f.body

structure Frame (c : Chronicle) (i : ScopeId) (g : FunctionId) (f : Function) (sc : Scope) : Prop where
  function : c.store.functions[g]? = some f
  scope : c.store.scopes[i]? = some sc
  outer : sc.outer = some f.scope
  older : f.scope < i
  names : ∀ n ∈ sc.names, n ∈ f.parameters ∨ n ∈ declaredNames f.body
  created : session.Created g f i

structure Lexical (c : Chronicle) : Prop where
  size : c.makers.size = c.store.scopes.size
  outermost : c.makers[global]? = some none ∧ ∃ sc, c.store.scopes[global]? = some sc ∧ sc.outer = none
  unmade : ∀ {i : ScopeId}, c.makers[i]? = some none → i = global
  frame : ∀ {i : ScopeId} {g : FunctionId}, c.makers[i]? = some (some g) → ∃ f sc, Frame session c i g f sc
  function : ∀ {g : FunctionId} {f : Function}, c.store.functions[g]? = some f →
    f.scope < c.store.scopes.size ∧
      ∃ decl, decl.Declares f ∧ c.Stands session f.scope decl ∧ session.Executed decl f.scope g

def Fits (c : Chronicle) : Task → Prop
  | .statement i st => c.Stands session i st
  | .statements i _ ss => ∀ st ∈ ss, c.Stands session i st
  | .parameters i _ ps _ =>
    ∃ g f, c.makers[i]? = some (some g) ∧ c.store.functions[g]? = some f ∧ ∀ p ∈ ps, p ∈ f.parameters
  | _ => True

/-- Later: nothing that is known of scopes and functions has changed. -/
structure Extends (c c' : Chronicle) : Prop where
  makers : ∀ {i : ScopeId} {g : FunctionId}, c.makers[i]? = some (some g) → c'.makers[i]? = some (some g)
  functions : ∀ {g : FunctionId} {f : Function}, c.store.functions[g]? = some f →
    c'.store.functions[g]? = some f

def Kept (c c' : Chronicle) : Prop := c.Lexical session → c'.Lexical session ∧ c.Extends c'

def Holds (now : Clock) (d : Nat) (task : Task) (c : Chronicle) : Prop :=
  session.Reached now d task c.store ∧ c.Lexical session ∧ c.Fits session task

variable {session : Session} {c c' : Chronicle} {i : ScopeId}

namespace Extends

theorem refl (c : Chronicle) : c.Extends c := ⟨id, id⟩

theorem trans {c'' : Chronicle} (h : c.Extends c') (h' : c'.Extends c'') : c.Extends c'' :=
  ⟨fun hm => h'.makers (h.makers hm), fun hf => h'.functions (h.functions hf)⟩

theorem stands (h : c.Extends c') {st : Stmt} (hst : c.Stands session i st) : c'.Stands session i st := by
  rcases hst with hg | ⟨g, f, hm, hf, hst⟩
  · exact .inl hg
  · exact .inr ⟨g, f, h.makers hm, h.functions hf, hst⟩

theorem fits (h : c.Extends c') {task : Task} (ht : c.Fits session task) : c'.Fits session task := by
  cases task with
  | statement => exact h.stands ht
  | statements => exact fun st hst => h.stands (ht st hst)
  | parameters =>
    obtain ⟨g, f, hm, hf, hps⟩ := ht
    exact ⟨g, f, h.makers hm, h.functions hf, hps⟩
  | _ => trivial

end Extends

/-! ## Every change keeps it -/

theorem Lexical.lt_size (h : c.Lexical session) {st : Stmt} (hst : c.Stands session i st) :
    i < c.store.scopes.size := by
  rw [← h.size]
  rcases hst with ⟨rfl, -⟩ | ⟨g, f, hm, -⟩
  · exact (Array.getElem?_eq_some_iff.1 h.outermost.1).1
  · exact (Array.getElem?_eq_some_iff.1 hm).1

theorem Lexical.modifyScope (h : c.Lexical session) (j : ScopeId) (change : Scope → Scope)
    (ho : ∀ sc, (change sc).outer = sc.outer)
    (hn : ∀ g f sc, c.makers[j]? = some (some g) → Frame session c j g f sc →
      ∀ n ∈ (change sc).names, n ∈ f.parameters ∨ n ∈ declaredNames f.body) :
    Lexical session { c with store := c.store.modifyScope j change } where
  size := by rw [h.size, Store.scopes_size_modifyScope]
  outermost := by
    obtain ⟨hm, sc, hsc, hout⟩ := h.outermost
    refine ⟨hm, if global = j then change sc else sc, ?_, ?_⟩
    · rw [Store.scopes_modifyScope, hsc]
      split <;> rfl
    · split
      · exact (ho sc).trans hout
      · exact hout
  unmade := h.unmade
  frame {i g} hm := by
    obtain ⟨f, sc, hfr⟩ := h.frame hm
    refine ⟨f, if i = j then change sc else sc, hfr.function, ?_, ?_, hfr.older, ?_, hfr.created⟩
    · rw [Store.scopes_modifyScope, hfr.scope]
      split <;> rfl
    · split
      · exact (ho sc).trans hfr.outer
      · exact hfr.outer
    · split
      · next hij => exact hn g f sc (hij ▸ hm) (hij ▸ hfr)
      · exact hfr.names
  function hf := by
    rw [Store.scopes_size_modifyScope]
    exact h.function hf

theorem Lexical.enclose (h : c.Lexical session) {g : FunctionId} {f : Function}
    (hf : c.store.functions[g]? = some f) (hc : session.Created g f c.store.scopes.size) :
    Lexical session ⟨(c.store.addScope (some f.scope)).2, c.makers.push (some g)⟩ ∧
      c.Extends ⟨(c.store.addScope (some f.scope)).2, c.makers.push (some g)⟩ := by
  have hgrows := Store.Grows.addScope c.store (some f.scope)
  have hx : c.Extends ⟨(c.store.addScope (some f.scope)).2, c.makers.push (some g)⟩ :=
    ⟨fun hm => getElem?_push_of_eq_some hm _, fun hf => hf⟩
  refine ⟨{ size := ?_, outermost := ?_, unmade := ?_, frame := ?_, function := ?_ }, hx⟩
  · simp [Store.addScope, h.size]
  · obtain ⟨hm, sc, hsc, hout⟩ := h.outermost
    exact ⟨getElem?_push_of_eq_some hm _, sc, hgrows.scopes _ _ hsc, hout⟩
  · intro i hm
    rw [Array.getElem?_push] at hm
    split at hm
    · cases hm
    · exact h.unmade hm
  · intro i g' hm
    rw [Array.getElem?_push] at hm
    by_cases hi : i = c.makers.size
    · -- the scope that is added
      rw [if_pos hi] at hm
      cases hm
      rw [hi, h.size]
      refine ⟨f, .fresh (some f.scope), hf, ?_, rfl, (h.function hf).1, by simp [Scope.names, Scope.fresh], hc⟩
      simp [Store.addScope]
    · rw [if_neg hi] at hm
      obtain ⟨f', sc, hfr⟩ := h.frame hm
      have hsc := hgrows.scopes _ _ hfr.scope
      exact ⟨f', sc, hfr.function, hsc, hfr.outer, hfr.older, hfr.names, hfr.created⟩
  · intro g' f' hf'
    obtain ⟨hlt, decl, hd, hs, he⟩ := h.function hf'
    refine ⟨?_, decl, hd, hx.stands hs, he⟩
    rw [Store.addScope, Array.size_push]
    exact Nat.lt_succ_of_lt hlt

theorem Lexical.make (h : c.Lexical session) {f : Function} {decl : Stmt} (hd : decl.Declares f)
    (hs : c.Stands session f.scope decl) (he : session.Executed decl f.scope c.store.functions.size) :
    Lexical session { c with store := (c.store.addFunction f).2 } ∧
      c.Extends { c with store := (c.store.addFunction f).2 } := by
  have hx : c.Extends { c with store := (c.store.addFunction f).2 } :=
    ⟨fun hm => hm, fun hf => getElem?_push_of_eq_some hf _⟩
  refine ⟨{ size := h.size, outermost := h.outermost, unmade := h.unmade, frame := ?_, function := ?_ }, hx⟩
  · intro i g hm
    obtain ⟨f', sc, hfr⟩ := h.frame hm
    exact ⟨f', sc, hx.functions hfr.function, hfr.scope, hfr.outer, hfr.older, hfr.names, hfr.created⟩
  · intro g f' hg
    rw [Store.addFunction, Array.getElem?_push] at hg
    split at hg
    · next hg' =>
      obtain rfl : f = f' := Option.some.inj hg
      exact ⟨h.lt_size hs, decl, hd, hx.stands hs, hg' ▸ he⟩
    · obtain ⟨hlt, decl', hd', hs', he'⟩ := h.function hg
      exact ⟨hlt, decl', hd', hx.stands hs', he'⟩

theorem Lexical.congr (h : c.Lexical session) {st : Store} (hs : st.scopes = c.store.scopes)
    (hf : st.functions = c.store.functions) :
    Lexical session { c with store := st } ∧ c.Extends { c with store := st } := by
  obtain ⟨scopes, functions, printed, readings⟩ := st
  cases hs
  cases hf
  refine ⟨⟨h.size, h.outermost, h.unmade, ?_, h.function⟩, ⟨id, id⟩⟩
  intro i g hm
  obtain ⟨f', sc, hfr⟩ := h.frame hm
  exact ⟨f', sc, hfr.function, hfr.scope, hfr.outer, hfr.older, hfr.names, hfr.created⟩

/-! ## Every evaluation keeps it -/

theorem Fits.part {calls : Calls} {task part : Task} {st st' : Store} (h : c.Fits session task)
    (hb : Begins calls task st part st') : c.Fits session part := by
  cases hb with
  | firstStatement => exact h _ List.mem_cons_self
  | otherStatements => exact fun st hst => h st (List.mem_cons_of_mem _ hst)
  | otherParameters =>
    obtain ⟨g, f, hm, hf, hps⟩ := h
    exact ⟨g, f, hm, hf, fun p hp => hps p (List.mem_cons_of_mem _ hp)⟩
  | _ => trivial

theorem leads_declare {n : String} {b : Binding} {span : Span}
    (hn : c.Lexical session → ∀ g f, c.makers[i]? = some (some g) → c.store.functions[g]? = some f →
      n ∈ f.parameters ∨ n ∈ declaredNames f.body) :
    Leads store (Kept session) (Action.declare i n b span) c := by
  rw [Leads, Action.perform_declare]
  split
  · exact ⟨c, rfl, fun h => ⟨h, .refl c⟩⟩
  · refine ⟨{ c with store := c.store.modifyScope i (·.bind n b) }, rfl, fun h => ⟨?_, ⟨id, id⟩⟩⟩
    refine h.modifyScope i _ (fun _ => rfl) fun g f sc hm hfr m hmem => ?_
    rcases Scope.mem_names_bind.1 hmem with rfl | hmem
    · exact hn h g f hm hfr.function
    · exact hfr.names m hmem

theorem keeps (session : Session) (now : Clock) : Keeps store (Kept session) (.plain now)
    (Holds session now) where
  refl c h := ⟨h, .refl c⟩
  trans h h' hl := by
    obtain ⟨hl', hx⟩ := h hl
    obtain ⟨hl'', hx'⟩ := h' hl'
    exact ⟨hl'', hx.trans hx'⟩
  begins := by
    intro d task part c c' h hk hb
    obtain ⟨hr, hl, hfit⟩ := h
    obtain ⟨hl', hx⟩ := hk hl
    exact ⟨hr.part hb, hl', (hx.fits hfit).part hb⟩
  enters := by
    intro d id xs span c f h hf
    obtain ⟨hr, hl, -⟩ := h
    have hcreated : session.Created id f c.store.scopes.size := ⟨now, d, xs, span, c.store, hr, hf, rfl⟩
    obtain ⟨hl', hx⟩ := hl.enclose hf hcreated
    have hm : (c.makers.push (some id))[c.store.scopes.size]? = some (some id) := by
      rw [Array.getElem?_push, if_pos hl.size.symm]
    refine ⟨_, rfl, fun _ => ⟨hl', hx⟩, ⟨hr.parameters hf, hl', id, f, hm, hf, fun _ hp => hp⟩, ?_⟩
    intro u hk hps
    obtain ⟨hlu, hxu⟩ := hk hl'
    exact ⟨hr.body hf hps, hlu, fun st hst => .inr ⟨id, f, hxu.makers hm, hxu.functions hf, hst⟩⟩
  assigns := by
    intro d scope span target value c c' n x _ _
    rw [Leads, Action.perform_assign]
    split
    · exact ⟨c', rfl, fun h => ⟨h, .refl c'⟩⟩
    · split
      · exact ⟨c', rfl, fun h => ⟨h, .refl c'⟩⟩
      · next owner _ _ =>
        refine ⟨{ c' with store := c'.store.modifyScope owner (·.update n x) }, rfl, fun h => ⟨?_, ⟨id, id⟩⟩⟩
        refine h.modifyScope owner _ (fun _ => rfl) fun g f sc _ hfr m hmem => ?_
        exact hfr.names m (by rwa [Scope.names_update] at hmem)
  natives := by
    intro d scope span f as c c' n xs _ _
    cases n with
    | print | time => exact ⟨{ c' with store := _ }, rfl, fun h => h.congr rfl rfl⟩
    | embedded => exact ⟨c', rfl, fun h => ⟨h, .refl c'⟩⟩
  declares := by
    intro d scope st c c' n b span h hd hk
    obtain ⟨-, hl, hst⟩ := h
    obtain ⟨-, hx⟩ := hk hl
    refine leads_declare fun h g f hm hf => ?_
    rcases hx.stands hst with ⟨rfl, -⟩ | ⟨g', f', hm', hf', hst⟩
    · cases hm.symm.trans h.outermost.1
    · cases hm.symm.trans hm'
      cases hf.symm.trans hf'
      exact .inr (List.mem_filterMap.2 ⟨st, hst, hd⟩)
  functions := by
    intro d scope span n ps body c h
    obtain ⟨hr, hl, hst⟩ := h
    have he : session.Executed (.function span n ps body) scope c.store.functions.size :=
      ⟨now, d, c.store, hr, rfl⟩
    exact ⟨_, rfl, fun h => h.make (f := ⟨n, ps, body, scope⟩) ⟨span, rfl⟩ hst he⟩
  binds := by
    intro d scope span p ps xs b c h
    obtain ⟨-, hl, g, f, hm, hf, hps⟩ := h
    refine leads_declare fun _ g' f' hm' hf' => ?_
    cases hm.symm.trans hm'
    cases hf.symm.trans hf'
    exact .inl (hps p List.mem_cons_self)

theorem lexical_populated (session : Session) : Lexical session ⟨.populated, #[none]⟩ where
  size := rfl
  outermost := ⟨rfl, _, rfl, rfl⟩
  unmade {i} h := by
    have hlt := (Array.getElem?_eq_some_iff.1 h).1
    exact Nat.lt_one_iff.1 hlt
  frame {i g} h := by
    have hlt := (Array.getElem?_eq_some_iff.1 h).1
    obtain rfl : i = 0 := Nat.lt_one_iff.1 hlt
    cases h
  function h := by cases (Array.getElem?_eq_some_iff.1 h).1

theorem holds_turn {before later : Session} {turn : Turn} (hc : c.store = before.store)
    (hl : c.Lexical (before ++ turn :: later)) :
    Holds (before ++ turn :: later) turn.now turn.depth turn.task c := by
  have hd : During turn.host turn.depth turn.task before.store turn.depth turn.task c.store := hc ▸ .itself
  exact ⟨.turn rfl rfl hd, hl, fun st hst => .inl ⟨rfl, turn, by simp, hst⟩⟩

theorem exists_store (before later : Session) :
    ∃ c : Chronicle, c.store = before.store ∧ c.Lexical (before ++ later) := by
  induction before using List.reverseRecOn generalizing later with
  | nil => exact ⟨_, rfl, lexical_populated _⟩
  | append_singleton before turn ih =>
    rw [List.append_assoc, List.singleton_append]
    obtain ⟨c, hc, hl⟩ := ih (turn :: later)
    obtain ⟨c', hc', hk⟩ := (keeps _ turn.now).task (holds_turn hc hl)
    refine ⟨c', ?_, (hk hl).1⟩
    rw [hc', hc, Session.store_append]
    rfl

theorem exists_reached {now : Clock} {d : Nat} {task : Task} {st : Store}
    (h : session.Reached now d task st) :
    ∃ c : Chronicle, c.store = st ∧ Holds session now d task c := by
  cases h with
  | @turn before turn later hs hnow hd =>
    subst hs
    subst hnow
    obtain ⟨c, hc, hl⟩ := exists_store before (turn :: later)
    rw [← hc] at hd
    obtain ⟨c', hc', -, hh, -⟩ := (keeps _ turn.now).during (holds_turn hc hl) hd
    exact ⟨c', hc', hh⟩

theorem exists_visited {st : Store} (h : session.Visits st) :
    ∃ c : Chronicle, c.store = st ∧ c.Lexical session := by
  cases h with
  | start => exact ⟨_, rfl, lexical_populated _⟩
  | during h =>
    obtain ⟨c, hc, -, hl, -⟩ := exists_reached h
    exact ⟨c, hc, hl⟩
  | @behind now d task st h =>
    obtain ⟨c, rfl, hh⟩ := exists_reached h
    obtain ⟨c', hc', hk⟩ := (keeps session now).task hh
    exact ⟨c', hc', (hk hh.2.1).1⟩

/-! ## The scopes around a scope -/

def maker (c : Chronicle) (i : ScopeId) : FunctionId := (c.makers[i]?.join).getD 0

theorem maker_eq {g : FunctionId} (h : c.makers[i]? = some (some g)) : c.maker i = g := by
  simp [maker, h]

end Chronicle

/-- The scope belongs to a call of the function that the statement declares, and lies in
the scope in which the statement was executed. -/
def Session.ScopeOf (session : Session) (st : Store) (maker : ScopeId → FunctionId) (i : ScopeId)
    (decl : Stmt) : Prop :=
  ∃ f sc, st.functions[maker i]? = some f ∧ decl.Declares f ∧ session.Executed decl f.scope (maker i) ∧
    st.scopes[i]? = some sc ∧ sc.outer = some f.scope ∧ session.Created (maker i) f i ∧
    ∀ n ∈ sc.names, n ∈ f.parameters ∨ n ∈ declaredNames f.body

namespace Chronicle

variable {session : Session} {c : Chronicle}

theorem Lexical.exists_decls (h : c.Lexical session) {i : ScopeId} {g : FunctionId}
    (hm : c.makers[i]? = some (some g)) :
    ∃ frames decl decls, c.store.chain i = i :: frames ++ [global] ∧ session.Nested (decl :: decls) ∧
      List.Forall₂ (session.ScopeOf c.store c.maker) (i :: frames) (decl :: decls) := by
  induction i using Nat.strongRecOn generalizing g with
  | ind i ih =>
    obtain ⟨f, sc, hfr⟩ := h.frame hm
    obtain ⟨-, decl, hd, hs, he⟩ := h.function hfr.function
    have hchain := Store.chain_of_outer hfr.scope hfr.outer hfr.older
    have hframe : session.ScopeOf c.store c.maker i decl := by
      rw [Session.ScopeOf, maker_eq hm]
      exact ⟨f, sc, hfr.function, hd, he, hfr.scope, hfr.outer, hfr.created, hfr.names⟩
    rcases hs with ⟨ho, turn, ht, hp⟩ | ⟨g', f', hm', hf', hbody⟩
    · obtain ⟨-, sc', hsc', hout⟩ := h.outermost
      rw [ho, Store.chain_of_outermost hsc' hout] at hchain
      exact ⟨[], decl, [], hchain, .outermost ht hp, .cons hframe .nil⟩
    · obtain ⟨frames, decl', decls, hc', hn, hall⟩ := ih f.scope hfr.older hm'
      -- the declaration behind is that of the function whose body holds this one
      obtain ⟨f'', -, hf'', ⟨span, rfl⟩, -⟩ := (List.forall₂_cons.1 hall).1
      rw [maker_eq hm'] at hf''
      cases hf'.symm.trans hf''
      exact ⟨f.scope :: frames, decl, _, by rw [hchain, hc']; rfl, .inside hbody hn, .cons hframe hall⟩

end Chronicle

/-- Lexical scoping at every moment of a session. -/
theorem Session.lexical_scoping (session : Session) {st : Store} (h : session.Visits st) :
    (∃ sc, st.scopes[global]? = some sc ∧ sc.outer = none) ∧
      ∃ maker : ScopeId → FunctionId, ∀ i, i < st.scopes.size → i ≠ global →
        ∃ frames decls, st.chain i = frames ++ [global] ∧ frames.head? = some i ∧ session.Nested decls ∧
          List.Forall₂ (session.ScopeOf st maker) frames decls ∧ (st.chain i).length = decls.length + 1 ∧
          ∀ n j, st.owner? i n = some j → j = global ∨ j ∈ frames := by
  obtain ⟨c, rfl, hl⟩ := Chronicle.exists_visited h
  refine ⟨hl.outermost.2, c.maker, fun i hi hg => ?_⟩
  rw [← hl.size] at hi
  obtain ⟨m, hm⟩ : ∃ m, c.makers[i]? = some m := ⟨_, Array.getElem?_eq_getElem hi⟩
  cases m with
  | none => exact absurd (hl.unmade hm) hg
  | some g =>
    obtain ⟨frames, decl, decls, hc, hn, hall⟩ := hl.exists_decls hm
    have hlen : (c.store.chain i).length = (decl :: decls).length + 1 := by
      rw [hc, List.length_append, hall.length_eq]
      rfl
    refine ⟨i :: frames, decl :: decls, hc, rfl, hn, hall, hlen, fun n j hj => ?_⟩
    have hmem := List.mem_of_find?_eq_some hj
    rw [hc, List.mem_append, List.mem_singleton] at hmem
    exact hmem.symm

/-- A function in a function: the scope of the inner call has two scopes around it. -/
theorem Session.lexical_scoping_nested :
    let s : Span := default
    let inner : Stmt := .function s "g" [] [.expr s (.name s "a")]
    let outer : Stmt := .function s "f" ["a"] [inner, .expr s (.call s (.name s "g") [])]
    let session : Session := [⟨default, 2, [outer, .expr s (.call s (.name s "f") [])]⟩]
    let st := session.store
    session.Visits st ∧ st.scopes.size = 3 ∧
      ∃ maker frames decls, st.chain 2 = frames ++ [global] ∧ session.Nested decls ∧ decls.length = 2 ∧
        List.Forall₂ (session.ScopeOf st maker) frames decls := by
  intro s inner outer session st
  have hv : session.Visits st := session.visits_store
  obtain ⟨-, maker, h⟩ := session.lexical_scoping hv
  have hsize : st.scopes.size = 3 := by decide +kernel
  have hchain : (st.chain 2).length = 3 := by decide +kernel
  obtain ⟨frames, decls, hc, -, hn, hall, hlen, -⟩ := h 2 (by rw [hsize]; decide) (by decide)
  exact ⟨hv, hsize, maker, frames, decls, hc, hn, by omega, hall⟩

end RavenLang
