import RavenLang.Proofs.Grammar.Program
import RavenLang.Proofs.Syntax.Spans
import RavenLang.Proofs.Token.Spelling

/-!
# Derivations do not see places

Token lists that agree in kinds and texts spell the same trees, up to spans.
-/

namespace RavenLang.Grammar

def Form.erase : Form → Form
  | .expr l e => .expr l e.erase
  | .arguments es => .arguments (es.map Expr.erase)
  | .entry e => .entry e.erase
  | .entries es => .entries (es.map Entry.erase)

def Block.erase : Block → Block
  | .statement closed s => .statement closed s.erase
  | .statements ss => .statements (ss.map Stmt.erase)

/-- Kinds and texts agree, one by one. -/
def Alike (ts us : List Token) : Prop := ts.map Token.piece = us.map Token.piece

namespace Alike

variable {t u : Token} {ts us vs : List Token}

theorem of_append (h : Alike (ts ++ us) vs) : ∃ vs₁ vs₂, vs = vs₁ ++ vs₂ ∧ Alike ts vs₁ ∧ Alike us vs₂ := by
  rw [Alike, List.map_append] at h
  obtain ⟨vs₁, vs₂, rfl, h₁, h₂⟩ := List.map_eq_append_iff.1 h.symm
  exact ⟨vs₁, vs₂, rfl, h₁.symm, h₂.symm⟩

theorem of_cons (h : Alike (t :: ts) vs) :
    ∃ u us, vs = u :: us ∧ t.kind = u.kind ∧ t.text = u.text ∧ Alike ts us := by
  rw [Alike, List.map_cons] at h
  obtain ⟨u, us, rfl, hu, hus⟩ := List.map_eq_cons_iff.1 h.symm
  obtain ⟨hk, ht⟩ := Piece.mk.inj hu
  exact ⟨u, us, rfl, hk.symm, ht.symm, hus.symm⟩

theorem of_nil (h : Alike [] vs) : vs = [] := List.map_eq_nil_iff.1 h.symm

theorem of_singleton (h : Alike [t] vs) : ∃ u, vs = [u] ∧ t.kind = u.kind ∧ t.text = u.text := by
  obtain ⟨u, us, rfl, hk, ht, hus⟩ := h.of_cons
  obtain rfl := hus.of_nil
  exact ⟨u, rfl, hk, ht⟩

theorem of_bracketed {o c : Token} (h : Alike (o :: (ts ++ [c])) vs) :
    ∃ o' us c', vs = o' :: (us ++ [c']) ∧ o.kind = o'.kind ∧ Alike ts us ∧ c.kind = c'.kind := by
  obtain ⟨o', _, rfl, ho, -, h⟩ := h.of_cons
  obtain ⟨us, _, rfl, hus, h⟩ := h.of_append
  obtain ⟨c', rfl, hc, -⟩ := h.of_singleton
  exact ⟨o', us, c', rfl, ho, hus, hc⟩

end Alike

/-! A form that is the same without places is of the same shape. -/

theorem Derives.expr_alike {l : Level} {e : Expr} {us : List Token}
    (h : ∃ g, Derives g us ∧ g.erase = Form.erase (.expr l e)) :
    ∃ e', Derives (.expr l e') us ∧ e'.erase = e.erase := by
  obtain ⟨g, hd, hg⟩ := h
  cases g with
  | expr m e' =>
    obtain ⟨rfl, he⟩ := Form.expr.inj hg
    exact ⟨e', hd, he⟩
  | _ => cases hg

theorem Derives.arguments_alike {es : List Expr} {us : List Token}
    (h : ∃ g, Derives g us ∧ g.erase = Form.erase (.arguments es)) :
    ∃ es', Derives (.arguments es') us ∧ es'.map Expr.erase = es.map Expr.erase := by
  obtain ⟨g, hd, hg⟩ := h
  cases g with
  | arguments es' => exact ⟨es', hd, Form.arguments.inj hg⟩
  | _ => cases hg

theorem Derives.entry_alike {e : Entry} {us : List Token}
    (h : ∃ g, Derives g us ∧ g.erase = Form.erase (.entry e)) :
    ∃ e', Derives (.entry e') us ∧ e'.erase = e.erase := by
  obtain ⟨g, hd, hg⟩ := h
  cases g with
  | entry e' => exact ⟨e', hd, Form.entry.inj hg⟩
  | _ => cases hg

theorem Derives.entries_alike {es : List Entry} {us : List Token}
    (h : ∃ g, Derives g us ∧ g.erase = Form.erase (.entries es)) :
    ∃ es', Derives (.entries es') us ∧ es'.map Entry.erase = es.map Entry.erase := by
  obtain ⟨g, hd, hg⟩ := h
  cases g with
  | entries es' => exact ⟨es', hd, Form.entries.inj hg⟩
  | _ => cases hg

theorem Derives.alike {f : Form} {ts : List Token} (h : Derives f ts) {us : List Token} (hu : Alike ts us) :
    ∃ g, Derives g us ∧ g.erase = f.erase := by
  induction h generalizing us with
  | name hk =>
    obtain ⟨t, rfl, hkt, htt⟩ := hu.of_singleton
    exact ⟨_, .name (hkt ▸ hk), by simp [Form.erase, Expr.mapSpans, htt]⟩
  | string hk =>
    obtain ⟨t, rfl, hkt, htt⟩ := hu.of_singleton
    exact ⟨_, .string (hkt ▸ hk), by simp [Form.erase, Expr.mapSpans, htt]⟩
  | number hk hx =>
    obtain ⟨t, rfl, hkt, htt⟩ := hu.of_singleton
    exact ⟨_, .number (hkt ▸ hk) (htt ▸ hx), by simp [Form.erase, Expr.mapSpans]⟩
  | group ho _ hc ih =>
    obtain ⟨o, us, c, rfl, hko, hus, hkc⟩ := hu.of_bracketed
    obtain ⟨e, hd, he⟩ := expr_alike (ih hus)
    exact ⟨_, .group (hko ▸ ho) hd (hkc ▸ hc), by simpa [Form.erase] using he⟩
  | tighter hl _ ih =>
    obtain ⟨e, hd, he⟩ := expr_alike (ih hu)
    exact ⟨_, .tighter hl hd, by rw [Form.erase, he, Form.erase]⟩
  | field _ hd hn ih =>
    obtain ⟨us, _, rfl, hus, hu⟩ := hu.of_append
    obtain ⟨d', _, rfl, hkd, -, hu⟩ := hu.of_cons
    obtain ⟨n', rfl, hkn, htn⟩ := hu.of_singleton
    obtain ⟨e, he', he⟩ := expr_alike (ih hus)
    exact ⟨_, .field he' (hkd ▸ hd) (hkn ▸ hn), by simp [Form.erase, Expr.mapSpans, htn, he]⟩
  | index _ ho _ hc ihe ihk =>
    obtain ⟨us, _, rfl, hus, hu⟩ := hu.of_append
    obtain ⟨o, vs, c, rfl, hko, hvs, hkc⟩ := hu.of_bracketed
    obtain ⟨e, hd, he⟩ := expr_alike (ihe hus)
    obtain ⟨key, hdk, hk⟩ := expr_alike (ihk hvs)
    exact ⟨_, .index hd (hko ▸ ho) hdk (hkc ▸ hc), by simp [Form.erase, Expr.mapSpans, he, hk]⟩
  | call _ ho _ hc ihe iha =>
    obtain ⟨us, _, rfl, hus, hu⟩ := hu.of_append
    obtain ⟨o, vs, c, rfl, hko, hvs, hkc⟩ := hu.of_bracketed
    obtain ⟨e, hd, he⟩ := expr_alike (ihe hus)
    obtain ⟨args, hda, ha⟩ := arguments_alike (iha hvs)
    exact ⟨_, .call hd (hko ▸ ho) hda (hkc ▸ hc), by simp [Form.erase, Expr.mapSpans, he, ha]⟩
  | noArguments =>
    obtain rfl := hu.of_nil
    exact ⟨_, .noArguments, rfl⟩
  | argument _ ih =>
    obtain ⟨e, hd, he⟩ := expr_alike (ih hu)
    exact ⟨_, .argument hd, by simp [Form.erase, he]⟩
  | nextArgument _ hc _ ihe iha =>
    obtain ⟨us, _, rfl, hus, hu⟩ := hu.of_append
    obtain ⟨c, vs, rfl, hkc, -, hvs⟩ := hu.of_cons
    obtain ⟨e, hd, he⟩ := expr_alike (ihe hus)
    obtain ⟨args, hda, ha⟩ := arguments_alike (iha hvs)
    obtain ⟨f, fs, rfl, hf, hfs⟩ := List.map_eq_cons_iff.1 ha
    exact ⟨_, .nextArgument hd (hkc ▸ hc) hda, by simp [Form.erase, he, hf, hfs]⟩
  | @binary l _ _ op _ _ _ hop _ ihl ihr =>
    obtain ⟨us, _, rfl, hus, hu⟩ := hu.of_append
    obtain ⟨q, vs, rfl, hkq, htq, hvs⟩ := hu.of_cons
    obtain ⟨left, hdl, hl⟩ := expr_alike (ihl hus)
    obtain ⟨right, hdr, hr⟩ := expr_alike (ihr hvs)
    have hq : q.isOperator l.operators = true := by rwa [Token.isOperator, ← hkq, ← htq]
    exact ⟨_, .binary hdl hq hdr, by simp [Form.erase, Expr.mapSpans, htq, hl, hr]⟩
  | shorthand hk =>
    obtain ⟨t, rfl, hkt, htt⟩ := hu.of_singleton
    exact ⟨_, .shorthand (hkt ▸ hk), by simp [Form.erase, Entry.mapSpans, htt]⟩
  | pair hk hc _ ih =>
    obtain ⟨t, _, rfl, hkt, htt, hu⟩ := hu.of_cons
    obtain ⟨c, us, rfl, hkc, -, hus⟩ := hu.of_cons
    obtain ⟨e, hd, he⟩ := expr_alike (ih hus)
    exact ⟨_, .pair (hkt ▸ hk) (hkc ▸ hc) hd, by simp [Form.erase, Entry.mapSpans, htt, he]⟩
  | noEntries =>
    obtain rfl := hu.of_nil
    exact ⟨_, .noEntries, rfl⟩
  | lastEntry _ ih =>
    obtain ⟨e, hd, he⟩ := entry_alike (ih hu)
    exact ⟨_, .lastEntry hd, by simp [Form.erase, he]⟩
  | nextEntry _ hc _ ihe ihs =>
    obtain ⟨us, _, rfl, hus, hu⟩ := hu.of_append
    obtain ⟨c, vs, rfl, hkc, -, hvs⟩ := hu.of_cons
    obtain ⟨e, hd, he⟩ := entry_alike (ihe hus)
    obtain ⟨es, hds, hs⟩ := entries_alike (ihs hvs)
    exact ⟨_, .nextEntry hd (hkc ▸ hc) hds, by simp [Form.erase, he, hs]⟩
  | object ho _ hc ih =>
    obtain ⟨o, us, c, rfl, hko, hus, hkc⟩ := hu.of_bracketed
    obtain ⟨es, hd, hs⟩ := entries_alike (ih hus)
    exact ⟨_, .object (hko ▸ ho) hd (hkc ▸ hc), by simp [Form.erase, Expr.mapSpans, hs]⟩
  | assign _ hq _ iht ihv =>
    obtain ⟨us, _, rfl, hus, hu⟩ := hu.of_append
    obtain ⟨q, vs, rfl, hkq, -, hvs⟩ := hu.of_cons
    obtain ⟨target, hdt, ht⟩ := expr_alike (iht hus)
    obtain ⟨value, hdv, hv⟩ := expr_alike (ihv hvs)
    exact ⟨_, .assign hdt (hkq ▸ hq) hdv, by simp [Form.erase, Expr.mapSpans, ht, hv]⟩

/-! ## Statements -/

variable {E : List Token → List Token → Prop}

theorem Spells.statement_alike {closed : Bool} {s : Stmt} {us : List Token}
    (h : ∃ b, Spells E b us ∧ b.erase = Block.erase (.statement closed s)) :
    ∃ s', Spells E (.statement closed s') us ∧ s'.erase = s.erase := by
  obtain ⟨b, hs, hb⟩ := h
  cases b with
  | statement closed' s' =>
    obtain ⟨rfl, he⟩ := Block.statement.inj hb
    exact ⟨s', hs, he⟩
  | statements => cases hb

theorem Spells.statements_alike {ss : List Stmt} {us : List Token}
    (h : ∃ b, Spells E b us ∧ b.erase = Block.erase (.statements ss)) :
    ∃ ss', Spells E (.statements ss') us ∧ ss'.map Stmt.erase = ss.map Stmt.erase := by
  obtain ⟨b, hs, hb⟩ := h
  cases b with
  | statements ss' => exact ⟨ss', hs, Block.statements.inj hb⟩
  | statement => cases hb

theorem map_name?_erase (es : List Expr) : (es.map Expr.erase).map Expr.name? = es.map Expr.name? := by
  simp [Function.comp_def]

theorem Spells.alike (hE : ∀ {us vs us' vs'}, Alike us us' → Alike vs vs' → E us vs → E us' vs') {b : Block}
    {ts : List Token} (h : Spells E b ts) {us : List Token} (hu : Alike ts us) :
    ∃ c, Spells E c us ∧ c.erase = b.erase := by
  induction h generalizing us with
  | undefined hk hn hl =>
    obtain ⟨k, _, rfl, hkk, -, hu⟩ := hu.of_cons
    obtain ⟨n, _, rfl, hkn, htn, hu⟩ := hu.of_cons
    obtain ⟨l, rfl, hkl, -⟩ := hu.of_singleton
    exact ⟨_, .undefined (hkk ▸ hk) (hkn ▸ hn) (hkl ▸ hl), by simp [Block.erase, Stmt.mapSpans, htn]⟩
  | defined hk hn hq hd hl =>
    obtain ⟨k, _, rfl, hkk, -, hu⟩ := hu.of_cons
    obtain ⟨n, _, rfl, hkn, htn, hu⟩ := hu.of_cons
    obtain ⟨q, us, l, rfl, hkq, hus, hkl⟩ := hu.of_bracketed
    obtain ⟨e, he', he⟩ := Derives.expr_alike (hd.alike hus)
    exact ⟨_, .defined (hkk ▸ hk) (hkn ▸ hn) (hkq ▸ hq) he' (hkl ▸ hl),
      by simp [Block.erase, Stmt.mapSpans, htn, hkk, he]⟩
  | function hk hn ho hd hc hps hst _ hl ih =>
    obtain ⟨k, _, rfl, hkk, -, hu⟩ := hu.of_cons
    obtain ⟨n, _, rfl, hkn, htn, hu⟩ := hu.of_cons
    obtain ⟨o, _, rfl, hko, -, hu⟩ := hu.of_cons
    obtain ⟨us, _, rfl, hus, hu⟩ := hu.of_append
    obtain ⟨c, _, rfl, hkc, -, hu⟩ := hu.of_cons
    obtain ⟨st, vs, l, rfl, hkst, hvs, hkl⟩ := hu.of_bracketed
    obtain ⟨es, hes', hes⟩ := Derives.arguments_alike (hd.alike hus)
    obtain ⟨body, hb', hb⟩ := statements_alike (ih hvs)
    have hps' := hps
    rw [← map_name?_erase, ← hes, map_name?_erase] at hps'
    exact ⟨_, .function (hkk ▸ hk) (hkn ▸ hn) (hko ▸ ho) hes' (hkc ▸ hc) hps' (hkst ▸ hst) hb' (hkl ▸ hl),
      by simp [Block.erase, Stmt.mapSpans, htn, hb]⟩
  | terminated hd hl =>
    obtain ⟨us, _, rfl, hus, hu⟩ := hu.of_append
    obtain ⟨l, rfl, hkl, -⟩ := hu.of_singleton
    obtain ⟨e, he', he⟩ := Derives.expr_alike (hd.alike hus)
    exact ⟨_, .terminated he' (hkl ▸ hl), by simp [Block.erase, Stmt.mapSpans, he]⟩
  | bare hd =>
    obtain ⟨e, he', he⟩ := Derives.expr_alike (hd.alike hu)
    exact ⟨_, .bare he', by simp [Block.erase, Stmt.mapSpans, he]⟩
  | nil =>
    obtain rfl := hu.of_nil
    exact ⟨_, .nil, rfl⟩
  | cons _ hend _ ihs ih =>
    obtain ⟨us, vs, rfl, hus, hvs⟩ := hu.of_append
    obtain ⟨s, hs', hs⟩ := statement_alike (ihs hus)
    obtain ⟨ss, hss', hss⟩ := statements_alike (ih hvs)
    exact ⟨_, .cons hs' (fun hc => hE hus hvs (hend hc)) hss', by simp [Block.erase, hs, hss]⟩

end RavenLang.Grammar
