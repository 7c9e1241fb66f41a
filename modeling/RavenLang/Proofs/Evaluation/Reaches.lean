import RavenLang.Proofs.Evaluation.Links
import RavenLang.Proofs.Evaluation.Operation

/-!
# Stores that are reached

Whatever an embedding program does with scopes, as long as it refers to what is there: each scope lies in an
older one, so looking outwards comes to an end, and what values refer to is there.
-/

namespace RavenLang

/-! ## What can be done -/

def Operation.Refers (st : Store) : Operation → Prop
  | new | populate => True
  | enclose i | lookup i _ _ | addPrimitive i _ _ => i < st.scopes.size
  | declare i _ b _ => i < st.scopes.size ∧ st.Knows b.value
  | assign i _ v _ => i < st.scopes.size ∧ st.Knows v
  | evaluate _ _ task => task.Refers st

mutual

/-- What may become of a store: by operations one after the other, up to a moment in the middle of an
evaluation, and by functions that the embedding program makes itself. -/
inductive Store.Reaches : Store → Store → Prop
  | same {st : Store} : Store.Reaches st st
  | function {st st' : Store} {f : Function} : Store.Reaches st st' → f.scope < st'.scopes.size →
      Store.Reaches st (st'.addFunction f).2
  | operation {st st' : Store} {op : Operation} : Store.Reaches st st' → op.Refers st' →
      (∀ host d task, op = .evaluate host d task → Host.Operates host) → Store.Reaches st (op.after st')
  | during {st st' st'' : Store} {host : Host} {d d' : Nat} {task part : Task} : Store.Reaches st st' →
      Host.Operates host → task.Refers st' → During host d task st' d' part st'' → Store.Reaches st st''

/-- Natives that do with a store what an embedding program can do, and give or report values that are
there. -/
inductive Host.Operates : Host → Prop
  | intro {host : Host} :
      (∀ key xs i (st : Store), st.Linked → i < st.scopes.size → st.KnowsAll xs →
        Store.Reaches st ((host.embedded key xs i).perform st).2) →
      (∀ key xs i (st : Store), st.Linked → i < st.scopes.size → st.KnowsAll xs →
        ∀ v, ((host.embedded key xs i).perform st).1 = .ok v ∨
            (∃ f : Fault, ((host.embedded key xs i).perform st).1 = .error (.fault f) ∧ f.value? = some v) →
          ((host.embedded key xs i).perform st).2.Knows v) →
      Host.Operates host

end

/-! ## The stores are linked -/

theorem Store.Linked.setConstant {st : Store} (h : st.Linked) (i : ScopeId) (n : String) {v : Value}
    (hv : v.functionIds = []) : (st.setConstant i n v).Linked ∧ st.Smaller (st.setConstant i n v) := by
  refine ⟨h.bind fun g hg => ?_, .modifyScope ..⟩
  rw [hv] at hg
  cases hg

theorem Store.Linked.addGlobal {st : Store} (h : st.Linked) : st.addGlobal.2.Linked ∧ st.Smaller st.addGlobal.2 := by
  have h₀ : (st.addScope none).2.Linked := h.addScope nofun
  obtain ⟨h₁, hle₁⟩ := h₀.setConstant st.scopes.size "true" (v := .boolean true) rfl
  obtain ⟨h₂, hle₂⟩ := h₁.setConstant st.scopes.size "false" (v := .boolean false) rfl
  obtain ⟨h₃, hle₃⟩ := h₂.setConstant st.scopes.size "null" (v := .null) rfl
  obtain ⟨h₄, hle₄⟩ := h₃.setConstant st.scopes.size "print" (v := .native .print "print") rfl
  obtain ⟨h₅, hle₅⟩ := h₄.setConstant st.scopes.size "time" (v := .native .time "time") rfl
  have hle := (Store.Smaller.addScope st none).trans hle₁
  exact ⟨h₅, hle.trans (hle₂.trans (hle₃.trans (hle₄.trans hle₅)))⟩

theorem Operation.linked {op : Operation} {st : Store} (h : st.Linked) (hop : op.Refers st)
    (hnatives : ∀ host d task, op = .evaluate host d task → (host.calls d).Links) :
    (op.after st).Linked ∧ st.Smaller (op.after st) := by
  cases op with
  | new => exact ⟨h.addScope nofun, .addScope ..⟩
  | populate => exact h.addGlobal
  | enclose outer =>
    refine ⟨h.addScope fun o ho => ?_, .addScope ..⟩
    cases ho
    exact hop
  | declare i n b span =>
    have hd : (Action.declare i n b span).Links (fun _ _ => True) st := .declare h hop.2
    exact ⟨hd.linked, hd.smaller⟩
  | assign i n v span =>
    have ha : (Action.assign i n v span).Links (fun _ _ => True) st := .assign h hop.2
    exact ⟨ha.linked, ha.smaller⟩
  | lookup i n span =>
    have hl : (Action.lookup i n span).Links Store.Knows st := .lookup h
    exact ⟨hl.linked, hl.smaller⟩
  | addPrimitive i n native => exact h.setConstant i n (v := .native native n) rfl
  | evaluate host d task => exact (hnatives host d task rfl).task h hop

theorem Host.native_links {host : Host}
    (h : ∀ {st : Store} {xs : List Value} {i : ScopeId} (key : String), st.Linked → i < st.scopes.size →
      st.KnowsAll xs → (host.embedded key xs i).Links Store.Knows st)
    {st : Store} {xs : List Value} {i : ScopeId} (n : Native) (hst : st.Linked) (hi : i < st.scopes.size)
    (hxs : st.KnowsAll xs) : (host.native n xs i).Links Store.Knows st := by
  cases n with
  | print => exact .changes rfl (hst.print _) ⟨Nat.le_refl _, Nat.le_refl _⟩ Store.knows_null
  | time => exact .changes rfl hst.readClock ⟨Nat.le_refl _, Nat.le_refl _⟩ (Store.knows_number _)
  | embedded key => exact h key hst hi hxs

mutual

theorem Store.Reaches.linked {st st' : Store} (h : st.Reaches st') (hst : st.Linked) :
    st'.Linked ∧ st.Smaller st' := by
  match h with
  | .same => exact ⟨hst, .refl st⟩
  | .function h hf =>
    obtain ⟨hst', hle⟩ := h.linked hst
    exact ⟨hst'.addFunction hf, hle.trans (.addFunction ..)⟩
  | .operation h hop hnatives =>
    obtain ⟨hst', hle⟩ := h.linked hst
    obtain ⟨hst'', hle'⟩ := Operation.linked hst' hop fun host d task ho => (hnatives host d task ho).links d
    exact ⟨hst'', hle.trans hle'⟩
  | .during h hnatives ht hd =>
    obtain ⟨hst', hle⟩ := h.linked hst
    obtain ⟨hst'', hle', -⟩ := hd.linked hnatives.links hst' ht
    exact ⟨hst'', hle.trans hle'⟩

theorem Host.Operates.links {host : Host} (h : host.Operates) (d : Nat) : (host.calls d).Links := by
  match h with
  | .intro hreaches hknown =>
    refine Host.calls_links (Host.native_links fun {st xs i} key hst hi hxs => ?_) d
    obtain ⟨hst', hle⟩ := (hreaches key xs i st hst hi hxs).linked hst
    refine ⟨hst', hle, fun v hv => ?_, fun f v hf hv => ?_⟩
    · exact hknown key xs i st hst hi hxs v (.inl hv)
    · exact hknown key xs i st hst hi hxs v (.inr ⟨f, hf, hv⟩)

end

/-! ## Looking outwards -/

/-- The scopes that are met by going from scope to outer scope until there is none. Unlike in `Store.chain`
nothing says beforehand that there is an end. -/
inductive Store.Outward (st : Store) : ScopeId → List ScopeId → Prop
  | outermost {i sc} : st.scopes[i]? = some sc → sc.outer = none → Outward st i [i]
  | inside {i sc o is} : st.scopes[i]? = some sc → sc.outer = some o → Outward st o is → Outward st i (i :: is)

namespace Store.Linked

variable {st : Store} (h : st.Linked) {i : ScopeId}

include h

theorem chain_eq {sc : Scope} (hs : st.scopes[i]? = some sc) :
    st.chain i = i :: (sc.outer.map st.chain).getD [] := by
  cases ho : sc.outer with
  | none => exact chain_of_outermost hs ho
  | some o => exact chain_of_outer hs ho (h.outer hs ho)

theorem outward_chain (hi : i < st.scopes.size) :
    st.Outward i (st.chain i) ∧ (∀ j ∈ st.chain i, j ≤ i) ∧ (st.chain i).Pairwise (· > ·) := by
  induction i using Nat.strongRecOn with
  | ind i ih =>
    have hs := Array.getElem?_eq_getElem hi
    rw [h.chain_eq hs]
    cases ho : (st.scopes[i]).outer with
    | none => exact ⟨.outermost hs ho, by simp, by simp⟩
    | some o =>
      have hlt := h.outer hs ho
      obtain ⟨hwalk, hle, hpair⟩ := ih o hlt (Nat.lt_trans hlt hi)
      have hlower : ∀ j ∈ st.chain o, j < i := fun j hj => Nat.lt_of_le_of_lt (hle j hj) hlt
      refine ⟨.inside hs ho hwalk, ?_, List.pairwise_cons.2 ⟨hlower, hpair⟩⟩
      exact List.forall_mem_cons.2 ⟨Nat.le_refl i, fun j hj => Nat.le_of_lt (hlower j hj)⟩

theorem owner?_eq {sc : Scope} (hs : st.scopes[i]? = some sc) (n : String) :
    st.owner? i n = if (st.binding? i n).isSome then some i else sc.outer.bind (st.owner? · n) := by
  rw [owner?, h.chain_eq hs, List.find?_cons]
  cases (st.binding? i n).isSome with
  | true => rfl
  | false => cases sc.outer <;> rfl

theorem visibleNames_eq {sc : Scope} (hs : st.scopes[i]? = some sc) :
    st.visibleNames i = sc.names ++ (sc.outer.map st.visibleNames).getD [] := by
  rw [visibleNames, h.chain_eq hs, List.flatMap_cons, hs]
  cases sc.outer <;> rfl

end Store.Linked

/-! ## Stores from nothing -/

theorem Store.Linked.empty : Store.empty.Linked where
  outer hs := by simp [Store.empty] at hs
  bound hs := by simp [Store.empty] at hs
  marked _ _ hs := by simp [Store.empty] at hs
  declared hf := by simp [Store.empty] at hf

theorem Store.Linked.exists_function {st : Store} (h : st.Linked) {v : Value} (hv : st.Knows v) :
    ∀ g ∈ v.functionIds, ∃ f, st.functions[g]? = some f ∧ f.scope < st.scopes.size := by
  intro g hg
  have hf := Array.getElem?_eq_getElem (hv g hg)
  exact ⟨_, hf, h.declared hf⟩

theorem Host.plain_operates (now : Clock) : (Host.plain now).Operates := by
  refine .intro (fun _ _ _ _ _ _ _ => .same) fun _ _ _ st _ _ _ v hv => ?_
  rcases hv with hv | ⟨f, hf, -⟩
  · cases hv
    exact Store.knows_null
  · cases hf

/-- A function that is declared in the scope it was made in. -/
theorem Store.exists_reaches_cycle : ∃ st, Store.empty.Reaches st ∧ ∃ i n g f,
    st.binding? i n = some ⟨.function g, true⟩ ∧ st.functions[g]? = some f ∧ f.scope = i := by
  have hempty : Store.empty.Reaches (Operation.after .empty .new) := .operation .same trivial nofun
  have hdeclared : Store.empty.Reaches (Operation.after (Operation.after .empty .new)
      (.evaluate (.plain default) 0 (.statement 0 (.function default "f" [] [])))) :=
    .operation hempty Nat.one_pos fun _ _ _ ho => by
      cases ho
      exact Host.plain_operates _
  exact ⟨_, hdeclared, 0, "f", 0, ⟨"f", [], [], 0⟩, rfl, rfl, rfl⟩

/-- In a store that is reached from the empty one constants are bound in the scope of their mark, scopes lie in
older scopes, and the functions in all values that are bound, or that an evaluation ends with, are there with
the scopes that they were declared in. So looking outwards ends, with strictly older scopes all the way, and
seeing a name or listing names is the recursion on outer scopes. Cycles through functions there are. -/
theorem Store.Reaches.well_linked {st : Store} (h : Store.empty.Reaches st) :
    (∀ i n, st.isConstant i n = true → (st.binding? i n).isSome = true) ∧
      (∀ (i : ScopeId) (sc : Scope), st.scopes[i]? = some sc →
        (∀ o, sc.outer = some o → o < i) ∧
          ∀ p ∈ sc.bindings, ∀ g ∈ p.2.functionIds,
            ∃ f, st.functions[g]? = some f ∧ f.scope < st.scopes.size) ∧
      (∀ (host : Host) (d : Nat) (i : ScopeId) (p : Program) (v : Value), host.Operates → i < st.scopes.size →
        let ran := (p.eval (host.calls d) i).perform st
        (ran.1 = .ok v ∨ ∃ f : Fault, ran.1 = .error (.fault f) ∧ f.value? = some v) →
          ∀ g ∈ v.functionIds, ∃ f, ran.2.functions[g]? = some f ∧ f.scope < ran.2.scopes.size) ∧
      (∀ i < st.scopes.size,
        st.Outward i (st.chain i) ∧ (st.chain i).Pairwise (· > ·) ∧
          ∃ sc, st.scopes[i]? = some sc ∧ st.visibleNames i = sc.names ++ (sc.outer.map st.visibleNames).getD [] ∧
            ∀ n, st.owner? i n = if (st.binding? i n).isSome then some i else sc.outer.bind (st.owner? · n)) ∧
      ∃ st', Store.empty.Reaches st' ∧ ∃ i n g f,
        st'.binding? i n = some ⟨.function g, true⟩ ∧ st'.functions[g]? = some f ∧ f.scope = i := by
  obtain ⟨hst, -⟩ := h.linked .empty
  refine ⟨fun i n hc => ?_, fun i sc hs => ?_, ?_, fun i hi => ?_, Store.exists_reaches_cycle⟩
  · cases hb : st.binding? i n with
    | none =>
      rw [hst.marked.isConstant_eq_false hb] at hc
      cases hc
    | some b => rfl
  · exact ⟨fun o ho => hst.outer hs ho, fun p hp => hst.exists_function (hst.bound hs p hp)⟩
  · intro host d i p v hnatives hi ran hv
    have hran := (hnatives.links d).program p hst hi Store.knows_null
    refine hran.linked.exists_function ?_
    rcases hv with hv | ⟨f, hf, hv⟩
    · exact hran.value v hv
    · exact hran.fault f v hf hv
  · obtain ⟨hwalk, -, hpair⟩ := hst.outward_chain hi
    have hs := Array.getElem?_eq_getElem hi
    exact ⟨hwalk, hpair, _, hs, hst.visibleNames_eq hs, hst.owner?_eq hs⟩

/-- A native that declares its first argument in the scope of the call. -/
def Host.declaring (name : String) : Host where
  now := default
  embedded _ xs i := do
    Action.declare i name ⟨xs.headD .null, false⟩ default
    return xs.headD .null

theorem Host.declaring_operates (name : String) : (Host.declaring name).Operates := by
  refine .intro (fun _ xs i st _ hi hxs => ?_) fun key xs i st hst hi hxs v hv => ?_
  · have hop : (Operation.declare i name ⟨xs.headD .null, false⟩ default).Refers st := ⟨hi, hxs.head⟩
    have hrun := Store.Reaches.operation .same hop nofun
    simp only [declaring, Action.perform_bind]
    rw [Operation.after] at hrun
    generalize (Action.declare i name ⟨xs.headD .null, false⟩ default).perform st = ran at hrun
    obtain ⟨_ | _, _⟩ := ran <;> exact hrun
  · have hlinks : ((declaring name).embedded key xs i).Links Store.Knows st :=
      (Action.Links.declare hst hxs.head).bind fun _ _ hle hst' _ => .pure hst' (hxs.head.mono hle)
    rcases hv with hv | ⟨f, hf, hv⟩
    · exact hlinks.value v hv
    · exact hlinks.fault f v hf hv

/-- A function in an object is given to a native that declares it in the scope of the call. -/
theorem Store.Reaches.well_linked_native :
    let s : Span := default
    let body : List Stmt := [.function s "get" [] [.expr s (.name s "get")],
      .expr s (.call s (.name s "bind") [.object s [.shorthand s "get"]])]
    let program : Program := [.function s "make" [] body, .declare s false "o" (some (.call s (.name s "make") []))]
    let prepared := Operation.after (Operation.after .empty .populate) (.addPrimitive 0 "bind" (.embedded "bind"))
    let st := Operation.after prepared (.evaluate (.declaring "bound") 1 (.statements 0 .null program))
    Store.empty.Reaches st ∧ st.scopes.size = 2 ∧
      (st.binding? 0 "o").map (·.value.functionIds) = some [1] ∧ (st.binding? 1 "bound").isSome = true ∧
      (∃ f, st.functions[1]? = some f ∧ f.scope < st.scopes.size) ∧ st.Outward 1 [1, 0] := by
  intro s body program prepared st
  have hpopulated : 0 < (Operation.after .empty .populate).scopes.size := by decide
  have hglobal : Store.empty.Reaches (Operation.after .empty .populate) := .operation .same trivial nofun
  have hprepared : Store.empty.Reaches prepared := .operation hglobal hpopulated nofun
  have h : Store.empty.Reaches st := .operation hprepared ⟨hpopulated, Store.knows_null⟩ fun _ _ _ ho => by
    cases ho
    exact Host.declaring_operates "bound"
  obtain ⟨-, hbound, -, hwalks, -⟩ := h.well_linked
  have hsize : st.scopes.size = 2 := by decide +kernel
  have ho : (st.binding? 0 "o").map (·.value.functionIds) = some [1] := by decide +kernel
  have hchain : st.chain 1 = [1, 0] := by decide +kernel
  refine ⟨h, hsize, ho, by decide +kernel, ?_, hchain ▸ (hwalks 1 (by omega)).1⟩
  obtain ⟨b, hb, hids⟩ := Option.map_eq_some_iff.1 ho
  obtain ⟨sc, hs, hn⟩ := Option.bind_eq_some_iff.1 hb
  obtain ⟨v, hv, rfl⟩ := Option.map_eq_some_iff.1 hn
  exact (hbound 0 sc hs).2 ("o", v) (mem_of_lookup_eq_some hv) 1 (by simp [hids])

end RavenLang
