import RavenLang.Proofs.Evaluation.Keeps

/-!
# Sessions

Programs evaluated one after the other in one populated global scope, with no
natives but those of the language. A fault ends its own program only.
-/

namespace RavenLang

structure Turn where
  now : Clock
  depth : Nat
  program : Program

abbrev Session := List Turn

def global : ScopeId := 0

def Store.populated : Store := Store.empty.addGlobal.2

namespace Turn

def host (t : Turn) : Host := .plain t.now

def task (t : Turn) : Task := .statements global .null t.program

def after (t : Turn) (st : Store) : Store := t.task.after (t.host.calls t.depth) st

end Turn

namespace Session

def store (s : Session) : Store := s.foldl (fun st t => t.after st) .populated

/-- What is begun at some moment of the session. -/
inductive Reached (s : Session) (now : Clock) (d : Nat) (task : Task) (st : Store) : Prop
  | turn {before turn later} : s = before ++ turn :: later → turn.now = now →
      During turn.host turn.depth turn.task (Session.store before) d task st → Reached s now d task st

/-- The stores during and after a session: before anything is evaluated, where a task
begins and where it ends. -/
inductive Visits (s : Session) : Store → Prop
  | start : Visits s .populated
  | during {now d task st} : s.Reached now d task st → Visits s st
  | behind {now d task st} : s.Reached now d task st → Visits s (task.after ((Host.plain now).calls d) st)

namespace Reached

variable {s : Session} {now : Clock} {d : Nat} {task : Task} {st st' : Store}

theorem part {part : Task} (h : s.Reached now d task st)
    (hb : Begins ((Host.plain now).calls d) task st part st') :
    s.Reached now d part st' := by
  obtain ⟨hs, rfl, hd⟩ := h
  exact ⟨hs, rfl, .part hd hb⟩

theorem parameters {id : FunctionId} {xs : List Value} {span : Span} {f : Function}
    (h : s.Reached now (d + 1) (.call id xs span) st) (hf : st.functions[id]? = some f) :
    s.Reached now d (.parameters st.scopes.size span f.parameters xs) (st.addScope (some f.scope)).2 := by
  obtain ⟨hs, rfl, hd⟩ := h
  exact ⟨hs, rfl, .parameters hd hf⟩

theorem body {id : FunctionId} {xs : List Value} {span : Span} {f : Function}
    (h : s.Reached now (d + 1) (.call id xs span) st) (hf : st.functions[id]? = some f)
    (hps : (Action.bindParameters st.scopes.size span f.parameters xs).perform (st.addScope (some f.scope)).2
      = (.ok ⟨⟩, st')) :
    s.Reached now d (.statements st.scopes.size .null f.body) st' := by
  obtain ⟨hs, rfl, hd⟩ := h
  exact ⟨hs, rfl, .body hd hf hps⟩

end Reached

theorem store_append (s : Session) (turn : Turn) : store (s ++ [turn]) = turn.after s.store := by
  rw [store, store, List.foldl_append]
  rfl

theorem visits_store (s : Session) : s.Visits s.store := by
  rcases s.eq_nil_or_concat with rfl | ⟨before, turn, rfl⟩
  · exact .start
  · rw [List.concat_eq_append, store_append]
    exact .behind (.turn rfl rfl .itself)

end Session

end RavenLang
