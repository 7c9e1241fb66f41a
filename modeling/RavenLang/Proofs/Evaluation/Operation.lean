import RavenLang.Proofs.Evaluation.Growth
import RavenLang.Proofs.Evaluation.Keeps

/-!
# Operations on scopes

What an embedding program can do with scopes, in any order: make them, declare,
assign and look up names in them, and evaluate in them.
-/

namespace RavenLang

inductive Operation where
  | new
  /-- A scope with the constants that every program may use. -/
  | populate
  | enclose (outer : ScopeId)
  | declare (id : ScopeId) (name : String) (b : Binding) (span : Span)
  | assign (id : ScopeId) (name : String) (value : Value) (span : Span)
  | lookup (id : ScopeId) (name : String) (span : Span)
  | addPrimitive (id : ScopeId) (name : String) (native : Native)
  | evaluate (host : Host) (depth : Nat) (task : Task)

/-- Natives that write to no scope. To functions nobody can write. -/
def Host.Quiet (host : Host) : Prop :=
  ∀ key xs scope (st : Store), st.Grows ((host.embedded key xs scope).perform st).2

namespace Operation

def after (st : Store) : Operation → Store
  | new => (st.addScope none).2
  | populate => st.addGlobal.2
  | enclose outer => (st.addScope (some outer)).2
  | declare id name b span => ((Action.declare id name b span).perform st).2
  | assign id name value span => ((Action.assign id name value span).perform st).2
  | lookup id name span => ((Action.lookup id name span).perform st).2
  | addPrimitive id name native => st.addPrimitive id name native
  | evaluate host depth task => task.after (host.calls depth) st

/-- Not `addPrimitive`, which replaces bindings, and only with quiet natives. -/
def Plain : Operation → Prop
  | addPrimitive .. => False
  | evaluate host _ _ => host.Quiet
  | _ => True

end Operation

/-- What may become of a store: by plain operations one after the other, up to a moment in the
middle of an evaluation, and from the end of a part of an evaluation to the end of the whole. -/
inductive Store.Later (st : Store) : Store → Prop
  | same : Later st st
  | behind {st' : Store} {op : Operation} : Later st st' → op.Plain → Later st (op.after st')
  | during {st' st'' : Store} {host : Host} {d d' : Nat} {task part : Task} : Later st st' → host.Quiet →
      During host d task st' d' part st'' → Later st st''
  | resumed {st' st'' : Store} {host : Host} {d d' : Nat} {task part : Task} :
      Later st (part.after (host.calls d') st'') → host.Quiet → During host d task st' d' part st'' →
      Later st (task.after (host.calls d) st')

theorem Host.plain_quiet (now : Clock) : (Host.plain now).Quiet := fun _ _ _ st => .refl st

theorem Host.Quiet.native {host : Host} (h : host.Quiet) (n : Native) (xs : List Value) (scope : ScopeId)
    (st : Store) :
    st.Grows ((host.native n xs scope).perform st).2 := by
  cases n with
  | print => exact .print st _
  | time => exact .readClock st
  | embedded key => exact h key xs scope st

end RavenLang
