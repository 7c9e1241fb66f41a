import RavenLang.Proofs.Evaluation.Parts

/-!
# What evaluations keep

A relation between stores that every single change keeps is kept by every
evaluation. What is known of the task that makes the change may be used, and the
states that are related may know more than the store.
-/

namespace RavenLang

def Stmt.declared? : Stmt → Option String
  | .declare _ _ name _ | .function _ name _ _ => some name
  | .expr .. => none

section
variable {σ : Type} (store : σ → Store) (Kept : σ → σ → Prop) {α β : Type}

/-- The store behind an action belongs to a state that the one before it is related to. -/
def Leads (a : Action α) (s : σ) : Prop := ∃ t, store t = (a.perform (store s)).2 ∧ Kept s t

/-- The obligations: `Holds` is passed on to every part that a task begins, and every
change that a task makes itself keeps the relation. -/
structure Keeps (host : Host) (Holds : Nat → Task → σ → Prop) : Prop where
  refl : ∀ s, Kept s s
  trans : ∀ {s t u}, Kept s t → Kept t u → Kept s u
  begins : ∀ {d task part s t}, Holds d task s → Kept s t →
    Begins (host.calls d) task (store s) part (store t) →
    Holds d part t
  enters : ∀ {d id xs span s f}, Holds (d + 1) (.call id xs span) s → (store s).functions[id]? = some f →
    ∃ t, store t = ((store s).addScope (some f.scope)).2 ∧ Kept s t ∧
      Holds d (.parameters (store s).scopes.size span f.parameters xs) t ∧
      ∀ u, Kept t u →
        (Action.bindParameters (store s).scopes.size span f.parameters xs).perform (store t) =
          (.ok ⟨⟩, store u) →
        Holds d (.statements (store s).scopes.size .null f.body) u
  assigns : ∀ {d scope span target value s t n x}, Holds d (.expr scope (.assign span target value)) s →
    Kept s t →
    Leads store Kept (Action.assign scope n x span) t
  natives : ∀ {d scope span f as s t n xs}, Holds d (.expr scope (.call span f as)) s → Kept s t →
    Leads store Kept (host.native n xs scope) t
  declares : ∀ {d scope st s t n b span}, Holds d (.statement scope st) s → st.declared? = some n → Kept s t →
    Leads store Kept (Action.declare scope n b span) t
  functions : ∀ {d scope span n ps body s}, Holds d (.statement scope (.function span n ps body)) s →
    Leads store Kept (Action.makeFunction ⟨n, ps, body, scope⟩) s
  binds : ∀ {d scope span p ps xs b s}, Holds d (.parameters scope span (p :: ps) xs) s →
    Leads store Kept (Action.declare scope p b span) s

end

theorem Action.perform_bind_eq_ok {α β : Type} {a : Action α} {f : α → Action β} {st st' : Store} {y : β} :
    (a >>= f).perform st = (.ok y, st') ↔
      ∃ x mid, a.perform st = (.ok x, mid) ∧ (f x).perform mid = (.ok y, st') := by
  rw [perform_bind]
  cases a.perform st with
  | mk r mid =>
    cases r with
    | error e =>
      constructor
      · rintro ⟨⟩
      · intro h
        obtain ⟨_, _, ⟨⟩, -⟩ := h
    | ok x =>
      constructor
      · intro h
        exact ⟨x, mid, rfl, h⟩
      · intro h
        obtain ⟨_, _, ⟨⟩, h⟩ := h
        exact h

theorem Host.native_calls (host : Host) (d : Nat) : (host.calls d).native = host.native := by cases d <;> rfl

theorem Calls.perform_enter (calls : Calls) (id : FunctionId) (xs : List Value) (span : Span) (st : Store) :
    (calls.enter id xs span).perform st =
      match st.functions[id]? with
      | none => (.ok .null, st)
      | some f =>
        (do
          Action.bindParameters st.scopes.size span f.parameters xs
          Program.evalFrom calls st.scopes.size .null f.body : Action Value).perform
            (st.addScope (some f.scope)).2 := by
  simp only [Calls.enter, Action.perform_bind, Action.perform_get]
  cases st.functions[id]? with
  | none => rfl
  | some f =>
    simp only [Action.perform_bind, Action.perform_enclose]
    rfl

theorem Host.perform_call (host : Host) (d : Nat) {id : FunctionId} {f : Function} {st : Store}
    (xs : List Value) (span : Span) (hf : st.functions[id]? = some f) :
    ((host.calls (d + 1)).function id xs span).perform st =
      (do
        Action.bindParameters st.scopes.size span f.parameters xs
        Program.evalFrom (host.calls d) st.scopes.size .null f.body : Action Value).perform
          (st.addScope (some f.scope)).2 := by
  rw [Host.calls, Calls.perform_enter, hf]

section
variable {σ : Type} {store : σ → Store} {Kept : σ → σ → Prop} {host : Host} {Holds : Nat → Task → σ → Prop}
  {α β : Type} {d : Nat} {scope : ScopeId} {s : σ}

namespace Keeps

theorem idle (K : Keeps store Kept host Holds) {a : Action α} (h : (a.perform (store s)).2 = store s) :
    Leads store Kept a s :=
  ⟨s, h.symm, K.refl s⟩

theorem andThen (K : Keeps store Kept host Holds) {a : Action α} {f : α → Action β} {x : α} {t : σ}
    (ha : a.perform (store s) = (.ok x, store t)) (hst : Kept s t) (hf : Leads store Kept (f x) t) :
    Leads store Kept (a >>= f) s := by
  obtain ⟨u, hu, htu⟩ := hf
  refine ⟨u, ?_, K.trans hst htu⟩
  rw [Action.perform_bind, ha]
  exact hu

theorem bind (K : Keeps store Kept host Holds) {a : Action α} {f : α → Action β} (ha : Leads store Kept a s)
    (hf : ∀ x t, a.perform (store s) = (.ok x, store t) → Kept s t → Leads store Kept (f x) t) :
    Leads store Kept (a >>= f) s := by
  obtain ⟨t, ht, hst⟩ := ha
  cases hr : a.perform (store s) with
  | mk r st =>
    obtain rfl : store t = st := by rw [ht, hr]
    cases r with
    | ok x => exact K.andThen hr hst (hf x t hr hst)
    | error e => exact ⟨t, by rw [Action.perform_bind, hr], hst⟩

theorem map (K : Keeps store Kept host Holds) {a : Action α} {f : α → β} (ha : Leads store Kept a s) :
    Leads store Kept (do return f (← a)) s :=
  K.bind ha fun _ _ _ _ => K.idle rfl

theorem ofExcept (K : Keeps store Kept host Holds) (r : Except Fault α) :
    Leads store Kept (Action.ofExcept r) s := by
  cases r <;> exact K.idle rfl

theorem lookup (K : Keeps store Kept host Holds) (n : String) (span : Span) :
    Leads store Kept (Action.lookup scope n span) s := by
  refine K.idle ?_
  rw [Action.perform_lookup]
  split <;> rfl

def CallsLead (store : σ → Store) (Kept : σ → σ → Prop) (host : Host) (Holds : Nat → Task → σ → Prop)
    (d : Nat) : Prop :=
  ∀ {id xs span s}, Holds d (.call id xs span) s → Leads store Kept ((host.calls d).function id xs span) s

theorem applied (K : Keeps store Kept host Holds) (hcall : CallsLead store Kept host Holds d) {span : Span}
    {f : Expr} {as : List Expr} {xs : List Value} {v : Value} {st : Store} {t : σ}
    (h : Holds d (.expr scope (.call span f as)) s) (hst : Kept s t)
    (hxs : (Expr.evalAll (host.calls d) scope as).perform (store s) = (.ok xs, st))
    (hv : (f.eval (host.calls d) scope).perform st = (.ok v, store t)) :
    Leads store Kept (v.apply (host.calls d) scope f.span span xs) t := by
  cases v with
  | native n name =>
    rw [Value.apply, Host.native_calls]
    exact K.natives h hst
  | function id => exact hcall (K.begins h hst (.called hxs hv))
  | _ => exact K.idle rfl

mutual

theorem expr (K : Keeps store Kept host Holds) (hcall : CallsLead store Kept host Holds d) (e : Expr) {s : σ}
    (h : Holds d (.expr scope e) s) : Leads store Kept (e.eval (host.calls d) scope) s := by
  match e with
  | .name span n => exact K.lookup n span
  | .number .. => exact K.idle rfl
  | .string .. => exact K.idle rfl
  | .object span es =>
    exact K.map (K.evalEntries hcall es (K.begins h (K.refl s) .entries))
  | .binary span op l r =>
    refine K.bind (K.expr hcall l (K.begins h (K.refl s) .left)) fun x t hx hst => ?_
    exact K.bind (K.expr hcall r (K.begins h hst (.right hx))) fun y u _ _ => K.ofExcept _
  | .assign span target value =>
    rw [Expr.eval]
    cases hn : target.name? with
    | none => exact K.idle rfl
    | some n =>
      refine K.bind (K.expr hcall value (K.begins h (K.refl s) (.assigned hn))) fun x t _ hst => ?_
      exact K.bind (K.assigns h hst) fun _ _ _ _ => K.idle rfl
  | .call span f as =>
    refine K.bind (K.evalExprs hcall as (K.begins h (K.refl s) .arguments)) fun xs t hxs hst => ?_
    refine K.bind (K.expr hcall f (K.begins h hst (.callee hxs))) fun v u hv htu => ?_
    exact K.applied hcall h (K.trans hst htu) hxs hv
  | .member span computed object property =>
    refine K.bind (K.expr hcall object (K.begins h (K.refl s) .object)) fun x t hx hst => ?_
    cases hp : if computed then none else property.name? with
    | some n => exact K.ofExcept _
    | none =>
      refine K.bind (K.expr hcall property (K.begins h hst (.key hx hp))) fun k u _ _ => ?_
      exact K.bind (K.ofExcept _) fun _ _ _ _ => K.ofExcept _

theorem evalEntry (K : Keeps store Kept host Holds) (hcall : CallsLead store Kept host Holds d) (e : Entry)
    {s : σ} (h : Holds d (.entry scope e) s) : Leads store Kept (e.eval (host.calls d) scope) s := by
  match e with
  | .shorthand span k => exact K.map (K.lookup k span)
  | .pair span k v => exact K.map (K.expr hcall v (K.begins h (K.refl s) .value))

theorem evalEntries (K : Keeps store Kept host Holds) (hcall : CallsLead store Kept host Holds d)
    (es : List Entry) {s : σ} (h : Holds d (.entries scope es) s) :
    Leads store Kept (Entry.evalAll (host.calls d) scope es) s := by
  match es with
  | [] => exact K.idle rfl
  | e :: es =>
    refine K.bind (K.evalEntry hcall e (K.begins h (K.refl s) .firstEntry)) fun x t hx hst => ?_
    exact K.map (K.evalEntries hcall es (K.begins h hst (.otherEntries hx)))

theorem evalExprs (K : Keeps store Kept host Holds) (hcall : CallsLead store Kept host Holds d)
    (es : List Expr) {s : σ} (h : Holds d (.exprs scope es) s) :
    Leads store Kept (Expr.evalAll (host.calls d) scope es) s := by
  match es with
  | [] => exact K.idle rfl
  | e :: es =>
    refine K.bind (K.expr hcall e (K.begins h (K.refl s) .firstExpr)) fun x t hx hst => ?_
    exact K.map (K.evalExprs hcall es (K.begins h hst (.otherExprs hx)))

end

theorem evalStmt (K : Keeps store Kept host Holds) (hcall : CallsLead store Kept host Holds d) (st : Stmt)
    {s : σ} (h : Holds d (.statement scope st) s) : Leads store Kept (st.eval (host.calls d) scope) s := by
  match st with
  | .declare span constant n none =>
    refine K.bind (K.idle rfl) fun _ t _ hst => ?_
    exact K.bind (K.declares h rfl hst) fun _ _ _ _ => K.idle rfl
  | .declare span constant n (some e) =>
    refine K.bind (K.expr hcall e (K.begins h (K.refl s) .initial)) fun x t _ hst => ?_
    exact K.bind (K.declares h rfl hst) fun _ _ _ _ => K.idle rfl
  | .function span n ps body =>
    refine K.bind (K.functions h) fun v t _ hst => ?_
    exact K.bind (K.declares h rfl hst) fun _ _ _ _ => K.idle rfl
  | .expr span e => exact K.expr hcall e (K.begins h (K.refl s) .expression)

theorem evalFrom (K : Keeps store Kept host Holds) (hcall : CallsLead store Kept host Holds d)
    (ss : List Stmt) {last : Value} {s : σ} (h : Holds d (.statements scope last ss) s) :
    Leads store Kept (Program.evalFrom (host.calls d) scope last ss) s := by
  induction ss generalizing last s with
  | nil => exact K.idle rfl
  | cons st ss ih =>
    refine K.bind (K.evalStmt hcall st (K.begins h (K.refl s) .firstStatement)) fun x t hx hst => ?_
    exact ih (K.begins h hst (.otherStatements hx))

theorem bindParameters (K : Keeps store Kept host Holds) {span : Span} (ps : List String) {xs : List Value}
    {s : σ} (h : Holds d (.parameters scope span ps xs) s) :
    Leads store Kept (Action.bindParameters scope span ps xs) s := by
  induction ps generalizing xs s with
  | nil => exact K.idle rfl
  | cons p ps ih =>
    refine K.bind (K.binds h) fun x t hx hst => ?_
    exact ih (K.begins h hst (.otherParameters hx))

theorem call (K : Keeps store Kept host Holds) (d : Nat) : CallsLead store Kept host Holds d := by
  induction d with
  | zero => exact fun _ => K.idle rfl
  | succ d ih =>
    intro id xs span s h
    cases hf : (store s).functions[id]? with
    | none => exact K.idle (by rw [Host.calls, Calls.perform_enter, hf])
    | some f =>
      obtain ⟨t, ht, hst, hp, hb⟩ := K.enters h hf
      obtain ⟨u, hu, htu⟩ := K.bind (K.bindParameters f.parameters hp) fun _ u hu htu =>
        K.evalFrom ih f.body (hb u htu hu)
      exact ⟨u, by rw [hu, ht, Host.perform_call _ _ _ _ hf], K.trans hst htu⟩

/-- What is kept by every change is kept by every task. -/
theorem task (K : Keeps store Kept host Holds) {task : Task} {s : σ} (h : Holds d task s) :
    ∃ t, store t = task.after (host.calls d) (store s) ∧ Kept s t := by
  cases task with
  | expr scope e => exact K.expr (K.call d) e h
  | exprs scope es => exact K.evalExprs (K.call d) es h
  | entry scope e => exact K.evalEntry (K.call d) e h
  | entries scope es => exact K.evalEntries (K.call d) es h
  | statement scope st => exact K.evalStmt (K.call d) st h
  | statements scope last ss => exact K.evalFrom (K.call d) ss h
  | parameters scope span ps xs => exact K.bindParameters ps h
  | call id xs span => exact K.call d h

/-! ## At every moment -/

theorem state {a : Action α} (h : Leads store Kept a s) {r : Except Stop α} {st : Store}
    (ha : a.perform (store s) = (r, st)) : ∃ t, store t = st ∧ Kept s t := by
  obtain ⟨t, ht, hst⟩ := h
  exact ⟨t, by rw [ht, ha], hst⟩

theorem part (K : Keeps store Kept host Holds) {task part : Task} {st : Store} (h : Holds d task s)
    (hb : Begins (host.calls d) task (store s) part st) : ∃ t, store t = st ∧ Kept s t ∧ Holds d part t := by
  suffices hs : ∃ t, store t = st ∧ Kept s t by
    obtain ⟨t, rfl, hst⟩ := hs
    exact ⟨t, rfl, hst, K.begins h hst hb⟩
  cases hb with
  | right hx => exact state (K.expr (K.call d) _ (K.begins h (K.refl s) .left)) hx
  | callee hxs => exact state (K.evalExprs (K.call d) _ (K.begins h (K.refl s) .arguments)) hxs
  | called hxs hv =>
    obtain ⟨t, rfl, hst⟩ := state (K.evalExprs (K.call d) _ (K.begins h (K.refl s) .arguments)) hxs
    obtain ⟨u, rfl, htu⟩ := state (K.expr (K.call d) _ (K.begins h hst (.callee hxs))) hv
    exact ⟨u, rfl, K.trans hst htu⟩
  | key hx _ => exact state (K.expr (K.call d) _ (K.begins h (K.refl s) .object)) hx
  | otherEntries hx => exact state (K.evalEntry (K.call d) _ (K.begins h (K.refl s) .firstEntry)) hx
  | otherExprs hx => exact state (K.expr (K.call d) _ (K.begins h (K.refl s) .firstExpr)) hx
  | otherStatements hx => exact state (K.evalStmt (K.call d) _ (K.begins h (K.refl s) .firstStatement)) hx
  | otherParameters hx => exact state (K.binds h) hx
  | _ => exact ⟨s, rfl, K.refl s⟩

/-! ## From every moment on -/

theorem resume (K : Keeps store Kept host Holds) {a : Action α} {f : α → Action β} {st : Store} {u : σ}
    (hu : store u = (a.perform st).2)
    (hf : ∀ x, a.perform st = (.ok x, store u) → Leads store Kept (f x) u) :
    ∃ v, store v = ((a >>= f).perform st).2 ∧ Kept u v := by
  rw [Action.perform_bind]
  cases hr : a.perform st with
  | mk r st' =>
    obtain rfl : store u = st' := by rw [hu, hr]
    cases r with
    | ok x => exact hf x hr
    | error e => exact ⟨u, rfl, K.refl u⟩

theorem skip {a : Action α} {f : α → Action β} {x : α} {st st' : Store} {u : σ}
    (ha : a.perform st = (.ok x, st')) (h : ∃ v, store v = ((f x).perform st').2 ∧ Kept u v) :
    ∃ v, store v = ((a >>= f).perform st).2 ∧ Kept u v := by
  rw [Action.perform_bind, ha]
  exact h

/-- What a task does behind a part keeps the relation too. -/
theorem rest (K : Keeps store Kept host Holds) {task part : Task} {t u : σ} (h : Holds d task s)
    (hst : Kept s t) (hb : Begins (host.calls d) task (store s) part (store t)) (htu : Kept t u)
    (hu : store u = part.after (host.calls d) (store t)) :
    ∃ v, store v = task.after (host.calls d) (store s) ∧ Kept u v := by
  have hsu := K.trans hst htu
  generalize store t = st' at hb hu
  generalize hs : store s = st at hb
  cases hb with
  | entries | value => exact K.resume hu fun _ _ => K.idle rfl
  | left =>
    refine K.resume hu fun x hx => ?_
    exact K.bind (K.expr (K.call d) _ (K.begins h hsu (.right (hs ▸ hx)))) fun _ _ _ _ => K.ofExcept _
  | right hx => exact skip hx (K.resume hu fun _ _ => K.ofExcept _)
  | assigned hn =>
    rw [Task.after, Expr.eval, hn]
    exact K.resume hu fun x _ => K.bind (K.assigns h hsu) fun _ _ _ _ => K.idle rfl
  | arguments =>
    refine K.resume hu fun xs hxs => ?_
    refine K.bind (K.expr (K.call d) _ (K.begins h hsu (.callee (hs ▸ hxs)))) fun v w hv huw => ?_
    exact K.applied (K.call d) h (K.trans hsu huw) (hs ▸ hxs) hv
  | callee hxs => exact skip hxs (K.resume hu fun v hv => K.applied (K.call d) h hsu (hs ▸ hxs) hv)
  | called hxs hv => exact skip hxs (skip hv ⟨u, hu, K.refl u⟩)
  | @object _ _ c o p =>
    refine K.resume hu fun x hx => ?_
    cases hp : if c then none else p.name? with
    | some n => exact K.ofExcept _
    | none =>
      refine K.bind (K.expr (K.call d) p (K.begins h hsu (.key (hs ▸ hx) hp))) fun k w _ _ => ?_
      exact K.bind (K.ofExcept _) fun _ _ _ _ => K.ofExcept _
  | @key _ _ c o p _ x _ hx hp =>
    refine skip hx ?_
    cases hq : if c then none else p.name? with
    | some n => cases hq.symm.trans hp
    | none => exact K.resume hu fun k _ => K.bind (K.ofExcept _) fun _ _ _ _ => K.ofExcept _
  | firstEntry =>
    exact K.resume hu fun x hx =>
      K.map (K.evalEntries (K.call d) _ (K.begins h hsu (.otherEntries (hs ▸ hx))))
  | firstExpr =>
    exact K.resume hu fun x hx => K.map (K.evalExprs (K.call d) _ (K.begins h hsu (.otherExprs (hs ▸ hx))))
  | otherEntries hx | otherExprs hx => exact skip hx (K.resume hu fun _ _ => K.idle rfl)
  | initial => exact K.resume hu fun x _ => K.bind (K.declares h rfl hsu) fun _ _ _ _ => K.idle rfl
  | expression => exact ⟨u, hu, K.refl u⟩
  | firstStatement =>
    exact K.resume hu fun x hx => K.evalFrom (K.call d) _ (K.begins h hsu (.otherStatements (hs ▸ hx)))
  | otherStatements hx | otherParameters hx => exact skip hx ⟨u, hu, K.refl u⟩

/-- What is kept is kept up to every moment of a task, and from there to its end. -/
theorem during (K : Keeps store Kept host Holds) {task : Task} (h : Holds d task s) {d' : Nat} {task' : Task}
    {st : Store} (hd : During host d task (store s) d' task' st) :
    ∃ t, store t = st ∧ Kept s t ∧ Holds d' task' t ∧
      ∀ u, Kept t u → store u = task'.after (host.calls d') st →
        ∃ v, store v = task.after (host.calls d) (store s) ∧ Kept u v := by
  induction hd with
  | itself => exact ⟨s, rfl, K.refl s, h, fun u _ hu => ⟨u, hu, K.refl u⟩⟩
  | part _ hb ih =>
    obtain ⟨t, rfl, hst, ht, hend⟩ := ih
    obtain ⟨u, rfl, htu, hpart⟩ := K.part ht hb
    refine ⟨u, rfl, K.trans hst htu, hpart, fun v huv hv => ?_⟩
    obtain ⟨w, hw, hvw⟩ := K.rest ht htu hb huv hv
    obtain ⟨x, hx, hwx⟩ := hend w (K.trans htu (K.trans huv hvw)) hw
    exact ⟨x, hx, K.trans hvw hwx⟩
  | @parameters d' id xs span _ f _ hf ih =>
    obtain ⟨t, rfl, hst, ht, hend⟩ := ih
    obtain ⟨u, hu, htu, hp, hbody⟩ := K.enters ht hf
    refine ⟨u, hu, K.trans hst htu, hp, fun v huv hv => ?_⟩
    have hrest : ∃ w, store w = Task.after (host.calls (d' + 1)) (store t) (.call id xs span) ∧ Kept v w := by
      rw [Task.after, Host.perform_call _ _ _ _ hf, ← hu]
      rw [← hu] at hv
      exact K.resume hv fun _ hps => K.evalFrom (K.call d') f.body (hbody v huv hps)
    obtain ⟨w, hw, hvw⟩ := hrest
    obtain ⟨x, hx, hwx⟩ := hend w (K.trans htu (K.trans huv hvw)) hw
    exact ⟨x, hx, K.trans hvw hwx⟩
  | @body d' id xs span _ f _ _ _ hf hps ih =>
    obtain ⟨t, rfl, hst, ht, hend⟩ := ih
    obtain ⟨u, hu, htu, hp, hbody⟩ := K.enters ht hf
    rw [← hu] at hps
    obtain ⟨v, rfl, huv⟩ := state (K.bindParameters _ hp) hps
    refine ⟨v, rfl, K.trans hst (K.trans htu huv), hbody v huv hps, fun w hvw hw => ?_⟩
    have hrest : store w = Task.after (host.calls (d' + 1)) (store t) (.call id xs span) := by
      rw [Task.after, Host.perform_call _ _ _ _ hf, hw, Task.after, ← hu]
      simp only [Action.perform_bind, hps]
    exact hend w (K.trans htu (K.trans huv hvw)) hrest

end Keeps

end

end RavenLang
