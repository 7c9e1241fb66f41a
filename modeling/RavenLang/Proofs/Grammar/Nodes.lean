import RavenLang.Proofs.Grammar.Moved
import RavenLang.Proofs.Syntax.Nodes
import RavenLang.Proofs.Token.Spaced

/-!
# Places of nodes

A node is spelled by a run of tokens, and its place is theirs. The nodes below it are spelled by runs
apart from each other, so the text at the place of a node, read by itself, is that node.
-/

namespace RavenLang

/-! ## Places of tokens -/

/-- Tokens one behind the other. -/
structure Token.InOrder (ts : List Token) : Prop where
  nonempty : ∀ t ∈ ts, t.span.start < t.span.stop
  ordered : ts.Pairwise fun t u => t.span.stop ≤ u.span.start

theorem Token.inOrder_append {us vs : List Token} :
    InOrder (us ++ vs) ↔ InOrder us ∧ InOrder vs ∧ ∀ t ∈ us, ∀ u ∈ vs, t.span.stop ≤ u.span.start := by
  constructor
  · rintro ⟨hne, hp⟩
    obtain ⟨hu, hv, huv⟩ := List.pairwise_append.1 hp
    exact ⟨⟨fun t ht => hne t (List.mem_append_left _ ht), hu⟩,
      ⟨fun t ht => hne t (List.mem_append_right _ ht), hv⟩, huv⟩
  · rintro ⟨hu, hv, huv⟩
    exact ⟨List.forall_mem_append.2 ⟨hu.nonempty, hv.nonempty⟩, List.pairwise_append.2 ⟨hu.ordered, hv.ordered, huv⟩⟩

/-- From the beginning of the first token to the end of the last. -/
structure Span.Covers (s : Span) (ts : List Token) : Prop where
  start_eq : ts.head?.map (·.span.start) = some s.start
  stop_eq : ts.getLast?.map (·.span.stop) = some s.stop

namespace Span.Covers

open Token (InOrder)

variable {a b s : Span} {us vs ts : List Token}

theorem single (t : Token) : t.span.Covers [t] := ⟨rfl, rfl⟩

theorem first (h : s.Covers ts) : ∃ t ∈ ts, t.span.start = s.start := by
  obtain ⟨t, ht, he⟩ := Option.map_eq_some_iff.1 h.start_eq
  exact ⟨t, List.mem_of_head? ht, he⟩

theorem last (h : s.Covers ts) : ∃ t ∈ ts, t.span.stop = s.stop := by
  obtain ⟨t, ht, he⟩ := Option.map_eq_some_iff.1 h.stop_eq
  exact ⟨t, List.mem_of_getLast? ht, he⟩

theorem mem_within (h : s.Covers ts) (ho : InOrder ts) {u : Token} (hu : u ∈ ts) :
    s.start ≤ u.span.start ∧ u.span.stop ≤ s.stop := by
  obtain ⟨t, ht, hs⟩ := Option.map_eq_some_iff.1 h.start_eq
  obtain ⟨v, hv, he⟩ := Option.map_eq_some_iff.1 h.stop_eq
  rw [← hs, ← he]
  constructor
  · obtain ⟨ts, rfl⟩ := List.head?_eq_some_iff.1 ht
    rcases List.mem_cons.1 hu with rfl | hu
    · exact Nat.le_refl _
    · exact Nat.le_trans (Nat.le_of_lt (ho.nonempty t List.mem_cons_self))
        ((List.pairwise_cons.1 ho.ordered).1 u hu)
  · obtain ⟨us, rfl⟩ := List.getLast?_eq_some_iff.1 hv
    have hlast := Token.inOrder_append.1 ho
    rcases List.mem_append.1 hu with hu | hu
    · exact Nat.le_trans (hlast.2.2 u hu v List.mem_cons_self)
        (Nat.le_of_lt (hlast.2.1.nonempty v List.mem_cons_self))
    · rw [List.mem_singleton.1 hu]

theorem start_lt_stop (h : s.Covers ts) (ho : InOrder ts) : s.start < s.stop := by
  obtain ⟨t, ht, -⟩ := h.first
  have := h.mem_within ho ht
  have := ho.nonempty t ht
  omega

theorem stop_le_start (ha : a.Covers us) (hb : b.Covers vs)
    (h : ∀ t ∈ us, ∀ u ∈ vs, t.span.stop ≤ u.span.start) : a.stop ≤ b.start := by
  obtain ⟨t, ht, hs⟩ := ha.last
  obtain ⟨u, hu, he⟩ := hb.first
  rw [← hs, ← he]
  exact h t ht u hu

theorem merge (ha : a.Covers us) (ws : List Token) (hb : b.Covers vs) (ho : InOrder (us ++ (ws ++ vs))) :
    (a.merge b).Covers (us ++ (ws ++ vs)) := by
  obtain ⟨hu, hv, huv⟩ := Token.inOrder_append.1 ho
  have hle := ha.stop_le_start hb fun t ht u hu => huv t ht u (List.mem_append_right _ hu)
  have hlt := ha.start_lt_stop hu
  have hlt' := hb.start_lt_stop (Token.inOrder_append.1 hv).2.1
  have hmerge : a.merge b = ⟨a.start, b.stop⟩ := by
    simp only [Span.merge, Span.mk.injEq]
    omega
  obtain ⟨t, ht, hs⟩ := Option.map_eq_some_iff.1 ha.start_eq
  obtain ⟨u, hu, he⟩ := Option.map_eq_some_iff.1 hb.stop_eq
  rw [hmerge]
  constructor
  · simp [ht, hs]
  · simp [List.getLast?_append, hu, he]

/-- The place of some of the tokens lies within the place of all of them. -/
theorem within (ha : a.Covers ts) (hs : s.Covers us) (hus : us ⊆ ts) (ho : InOrder ts) :
    a.start ≤ s.start ∧ s.stop ≤ a.stop := by
  obtain ⟨t, ht, hstart⟩ := hs.first
  obtain ⟨u, hu, hstop⟩ := hs.last
  rw [← hstart, ← hstop]
  exact ⟨(ha.mem_within ho (hus ht)).1, (ha.mem_within ho (hus hu)).2⟩

end Span.Covers

namespace Grammar

open Token (InOrder)

/-! ## Places of phrases -/

def Form.span? : Form → Option Span
  | .expr _ e => some e.span
  | .entry e => some e.span
  | .arguments _ | .entries _ => none

def Block.span? : Block → Option Span
  | .statement _ s => some s.span
  | .statements _ => none

theorem Derives.covers {f : Form} {ts : List Token} (h : Derives f ts) (ho : InOrder ts) :
    ∀ s, f.span? = some s → s.Covers ts := by
  have single {t : Token} {s : Span} (hs : some t.span = some s) : s.Covers [t] :=
    Option.some.inj hs ▸ .single t
  have merge {a b s : Span} {us vs : List Token} (ha : a.Covers us) (ws : List Token) (hb : b.Covers vs)
      (ho : InOrder (us ++ (ws ++ vs))) (hs : some (a.merge b) = some s) : s.Covers (us ++ (ws ++ vs)) :=
    Option.some.inj hs ▸ ha.merge ws hb ho
  have left {us vs : List Token} (ho : InOrder (us ++ vs)) : InOrder us := (Token.inOrder_append.1 ho).1
  have right (us : List Token) {vs : List Token} (ho : InOrder (us ++ vs)) : InOrder vs := (Token.inOrder_append.1 ho).2.1
  induction h with
  | name | string | number | shorthand => exact fun _ => single
  | tighter _ _ ih => exact ih ho
  | @group o c _ _ _ _ _ ih =>
    intro s hs
    rw [Form.span?, Expr.span_withSpan] at hs
    exact merge (.single o) _ (.single c) ho hs
  | @object o _ _ c => exact fun s => merge (.single o) _ (.single c) ho
  | @field _ ts d n _ _ _ ih => exact fun s => merge (ih (left ho) _ rfl) [d] (.single n) ho
  | @index _ ts o _ us c _ _ _ _ ih _ => exact fun s => merge (ih (left ho) _ rfl) (o :: us) (.single c) ho
  | @call _ ts o _ us c _ _ _ _ ih _ =>
    have hlist : (o.span.merge c.span).Covers (o :: (us ++ [c])) :=
      merge (.single o) us (.single c) (right ts ho) rfl
    exact fun s => merge (ih (left ho) _ rfl) [] hlist ho
  | @binary _ _ ts op _ us _ _ _ ihl ihr =>
    exact fun s => merge (ihl (left ho) _ rfl) [op] (ihr (right [op] (right ts ho)) _ rfl) ho
  | @assign _ ts q _ us _ _ _ iht ihv =>
    exact fun s => merge (iht (left ho) _ rfl) [q] (ihv (right [q] (right ts ho)) _ rfl) ho
  | @pair k c _ ts _ _ _ ih =>
    exact fun s => merge (.single k) [c] (ih (right [k, c] ho) _ rfl) ho
  | noArguments | argument | nextArgument | noEntries | lastEntry | nextEntry => exact fun s hs => nomatch hs

theorem Spells.covers {Ends : List Token → List Token → Prop} {b : Block} {ts : List Token} (h : Spells Ends b ts)
    (ho : InOrder ts) : ∀ s, b.span? = some s → s.Covers ts := by
  have keyword {k last : Token} {s : Span} (ws : List Token) (ho : InOrder (k :: (ws ++ [last])))
      (hs : some (k.span.merge last.span) = some s) : s.Covers (k :: (ws ++ [last])) :=
    Option.some.inj hs ▸ Span.Covers.merge (.single k) ws (.single last) ho
  cases h with
  | @undefined _ n => exact fun s => keyword [n] ho
  | @defined _ n q _ ts => exact fun s => keyword (n :: q :: ts) ho
  | @function _ n o _ us c _ start _ vs last =>
    intro s hs
    have hc := keyword (n :: o :: (us ++ c :: start :: vs)) (by simpa using ho) hs
    simpa using hc
  | @terminated _ ts last hd =>
    intro s hs
    obtain rfl := Option.some.inj hs
    exact (hd.covers (Token.inOrder_append.1 ho).1 _ rfl).merge [] (.single last) ho
  | bare hd => exact hd.covers ho
  | nil | cons => exact fun s hs => nomatch hs

end Grammar

/-! ## Nodes and their tokens -/

open Grammar

/-- The tokens of a node, whatever it is a part of. -/
def Node.SpelledBy : Node → List Token → Prop
  | .stmt s, us => ∃ closed, Spells Level.assignment.Stops (.statement closed s) us
  | .expr e, us => Derives (.expr .assignment e) us
  | .entry e, us => Derives (.entry e) us

/-- The nodes are spelled by runs of the tokens, one behind the other. -/
inductive Laid : List Node → List Token → Prop
  | nil {gap} : Laid [] gap
  | cons {n ns gap us ts} : Node.SpelledBy n us → Laid ns ts → Laid (n :: ns) (gap ++ (us ++ ts))

namespace Laid

variable {m n : Node} {ms ns : List Node} {us ts : List Token}

theorem behind (h : Laid ns ts) (gap : List Token) : Laid ns (gap ++ ts) := by
  cases h with
  | nil => exact .nil
  | @cons _ _ gap' us ts hn hns =>
    rw [← List.append_assoc]
    exact .cons hn hns

theorem append (hm : Laid ms us) (hn : Laid ns ts) : Laid (ms ++ ns) (us ++ ts) := by
  induction hm with
  | nil => exact hn.behind _
  | @cons _ _ gap us vs hm _ ih =>
    rw [List.append_assoc, List.append_assoc]
    exact .cons hm ih

theorem before (h : Laid ns ts) (gap : List Token) : Laid ns (ts ++ gap) := by
  have := h.append (Laid.nil : Laid [] gap)
  rwa [List.append_nil] at this

theorem single (h : n.SpelledBy us) : Laid [n] us := by
  have : Laid [n] ([] ++ (us ++ [])) := .cons h .nil
  rwa [List.append_nil] at this

theorem pair (hm : m.SpelledBy us) (hn : n.SpelledBy ts) (gap : List Token) : Laid [m, n] (us ++ (gap ++ ts)) :=
  (single hm).append ((single hn).behind gap)

theorem exists_run (h : Laid ns ts) (hn : n ∈ ns) : ∃ ws us vs, ts = ws ++ (us ++ vs) ∧ n.SpelledBy us := by
  induction h with
  | nil => cases hn
  | @cons m _ gap us ts hm _ ih =>
    rcases List.mem_cons.1 hn with rfl | hn
    · exact ⟨gap, us, ts, rfl, hm⟩
    · obtain ⟨ws, us', vs, rfl, hs⟩ := ih hn
      exact ⟨gap ++ (us ++ ws), us', vs, by simp, hs⟩

end Laid

namespace Grammar

def Form.nodes : Form → List Node
  | .expr _ e => (Node.expr e).children
  | .arguments es => es.map .expr
  | .entry e => (Node.entry e).children
  | .entries es => es.map .entry

def Block.nodes : Block → List Node
  | .statement _ s => (Node.stmt s).children
  | .statements ss => ss.map .stmt

theorem Derives.laid {f : Form} {ts : List Token} (h : Derives f ts) : Laid f.nodes ts := by
  have spelled {l : Level} {e : Expr} {us : List Token} (h : Derives (.expr l e) us) : Node.SpelledBy (.expr e) us :=
    h.loosen (Nat.zero_le _)
  induction h with
  | name | string | number | shorthand | noArguments | noEntries => exact .nil
  | tighter _ _ ih => exact ih
  | @group o c e ts _ _ _ ih =>
    rw [Form.nodes, Node.children_withSpan]
    exact (ih.before [c]).behind [o]
  | @field e ts d n hd _ hn => exact .pair (spelled hd) (spelled (.name hn)) [d]
  | @index e ts o key us c hd _ hk =>
    exact (Laid.single (spelled hd)).append (((Laid.single (spelled hk)).before [c]).behind [o])
  | @call e ts o es us c hd _ _ _ _ ih => exact (Laid.single (spelled hd)).append ((ih.before [c]).behind [o])
  | argument hd => exact .single (spelled hd)
  | @nextArgument e ts c f es us hd _ _ _ ih => exact (Laid.single (spelled hd)).append (ih.behind [c])
  | @binary l left ts op right us hl _ hr => exact .pair (spelled hl) (spelled hr) [op]
  | @pair k c e ts _ _ hd => exact (Laid.single (spelled hd)).behind [k, c]
  | lastEntry hd => exact .single (n := .entry _) hd
  | @nextEntry e ts c es us hd _ _ _ ih => exact (Laid.single (n := .entry _) hd).append (ih.behind [c])
  | @object o es ts c _ _ _ ih => exact (ih.before [c]).behind [o]
  | @assign target ts q value us ht _ hv => exact .pair (spelled ht) (spelled hv) [q]

theorem Spells.laid {b : Block} {ts : List Token} (h : Spells Level.assignment.Stops b ts) : Laid b.nodes ts := by
  have spelled {e : Expr} {us : List Token} (h : Derives (.expr .assignment e) us) : Laid [.expr e] us := .single h
  induction h with
  | undefined | nil => exact .nil
  | @defined k n q e ts last _ _ _ hd => exact ((spelled hd).before [last]).behind [k, n, q]
  | @function k n o es us c ps start body vs last _ _ _ _ _ _ _ _ _ ih =>
    exact (((ih.before [last]).behind [c, start]).behind us).behind [k, n, o]
  | @terminated e ts last hd => exact (spelled hd).before [last]
  | bare hd => exact spelled hd
  | cons hs _ _ _ ih => exact (Laid.single (n := .stmt _) ⟨_, hs⟩).append ih

end Grammar

namespace Node

open Token (InOrder)

variable {n : Node} {us : List Token}

theorem SpelledBy.covers (h : n.SpelledBy us) (ho : InOrder us) : n.span.Covers us := by
  cases n with
  | stmt s =>
    obtain ⟨closed, h⟩ := h
    exact h.covers ho _ rfl
  | expr e => exact Derives.covers h ho _ rfl
  | entry e => exact Derives.covers h ho _ rfl

theorem SpelledBy.laid (h : n.SpelledBy us) : Laid n.children us := by
  cases n with
  | stmt s =>
    obtain ⟨closed, h⟩ := h
    exact h.laid
  | expr e => exact Derives.laid h
  | entry e => exact Derives.laid h

end Node

theorem Laid.apart {ns : List Node} {ts : List Token} (h : Laid ns ts) (ho : Token.InOrder ts) :
    ns.Pairwise fun m n => m.span.stop ≤ n.span.start := by
  induction h with
  | nil => exact .nil
  | @cons n ns gap us ts hn hns ih =>
    obtain ⟨hu, ht, hut⟩ := Token.inOrder_append.1 (Token.inOrder_append.1 ho).2.1
    refine List.pairwise_cons.2 ⟨fun m hm => ?_, ih ht⟩
    obtain ⟨ws, vs, xs, rfl, hs⟩ := hns.exists_run hm
    have hv := (Token.inOrder_append.1 (Token.inOrder_append.1 ht).2.1).1
    refine (hn.covers hu).stop_le_start (hs.covers hv) fun t ht u hu => hut t ht u ?_
    exact List.mem_append_right _ (List.mem_append_left _ hu)

/-! ## Texts of nodes -/

/-- Tokens that are cut off a text stand so much further behind as it does. -/
theorem Scanned.exists_shift {n o : Nat} {cs : List Char} {us : List Token} (h : Scanned (o + n) cs us) :
    ∃ ts, Scanned o cs ts ∧ us = ts.map (Token.mapSpan (·.shift n)) := by
  have hs := h.scan
  rw [Token.scan_shift] at hs
  cases hts : Token.scan o cs with
  | error fault =>
    rw [hts] at hs
    cases hs
  | ok vs =>
    obtain ⟨ts, rfl, ht⟩ := of_scan hts
    rw [hts] at hs
    have he := Except.ok.inj hs
    rw [List.map_append] at he
    exact ⟨ts, ht, (List.append_inj_left' he rfl).symm⟩

/-- The program that is spelled by the tokens of a part of a text is what the part reads as by itself. -/
theorem Program.ofSource_of_spells {n : Nat} {cs : List Char} {us : List Token} {p : Program} (hus : Scanned n cs us)
    (hp : Spells Level.assignment.Stops (.statements p) us) :
    ∃ q, ofSource (.ofList cs) = .ok q ∧ q.map (·.mapSpans (·.shift n)) = p := by
  have hfrom : Scanned (0 + n) cs us := by rwa [Nat.zero_add]
  obtain ⟨ts, hts, rfl⟩ := hfrom.exists_shift
  have hread := program_mapSpan (f := (·.shift n)) (Span.shift_merge n) (.point (Text.size cs)) ts
  rw [program_eq_ok.2 hp] at hread
  have hcs : ofSource (.ofList cs) = program (.point (Text.size cs)) ts := by
    rw [ofSource_of_scanned (by rwa [String.toList_ofList]), String.toList_ofList]
  rw [hcs]
  cases hq : program (.point (Text.size cs)) ts with
  | error fault =>
    rw [hq] at hread
    cases hread
  | ok q =>
    rw [hq] at hread
    exact ⟨q, rfl, (Except.ok.inj hread).symm⟩

theorem Program.Holds.exists_run {p : Program} {n : Node} {ts : List Token} (h : p.Holds n)
    (hp : Spells Level.assignment.Stops (.statements p) ts) :
    ∃ ws us vs, ts = ws ++ (us ++ vs) ∧ n.SpelledBy us := by
  induction h with
  | stmt hs => exact hp.laid.exists_run (List.mem_map_of_mem hs)
  | child _ hn ih =>
    obtain ⟨ws, us, vs, rfl, hm⟩ := ih
    obtain ⟨ws', us', vs', rfl, hs⟩ := hm.laid.exists_run hn
    exact ⟨ws ++ ws', us', vs' ++ vs, by simp, hs⟩

/-- The place of a node in a text. -/
structure Node.Placed (source : String) (n : Node) : Prop where
  start_lt_stop : n.span.start < n.span.stop
  stop_le : n.span.stop ≤ Text.size source.toList
  inside : ∀ m ∈ n.children, n.span.start ≤ m.span.start ∧ m.span.stop ≤ n.span.stop
  apart : n.children.Pairwise fun m k => m.span.stop ≤ k.span.start
  /-- What stands there, read by itself, is the node. -/
  reread : ∃ part, Text.At 0 source.toList n.span part ∧
    ∀ s, n.statement? = some s →
      ∃ t, Program.ofSource (.ofList part) = .ok [t] ∧ t.mapSpans (·.shift n.span.start) = s

theorem Node.SpelledBy.statement {n : Node} {us : List Token} (h : n.SpelledBy us) {s : Stmt}
    (hs : n.statement? = some s) : Spells Level.assignment.Stops (.statements [s]) us := by
  have whole {closed : Bool} (h : Spells Level.assignment.Stops (.statement closed s) us) :
      Spells Level.assignment.Stops (.statements [s]) us := by
    have := Spells.cons h (fun _ => Level.stops_nil _ us) .nil
    rwa [List.append_nil] at this
  cases n with
  | stmt r =>
    cases hs
    obtain ⟨closed, h⟩ := h
    exact whole h
  | expr e =>
    cases hs
    exact whole (.bare h)
  | entry => cases hs

theorem Node.SpelledBy.placed {source : String} {n : Node} {ws us vs : List Token} (h : n.SpelledBy us)
    (hs : Spaced 0 source.toList (ws ++ (us ++ vs))) (ho : Token.InOrder us) : n.Placed source := by
  have hc := h.covers ho
  obtain ⟨t, ht, hstart⟩ := Option.map_eq_some_iff.1 hc.start_eq
  obtain ⟨part, hat, hpart⟩ := hs.run ht
  have hplace : n.span = ⟨t.span.start, Token.stopOf 0 us⟩ := by
    rw [Token.stopOf, hc.stop_eq, hstart]
    rfl
  rw [← hplace] at hat
  refine ⟨hc.start_lt_stop ho, ?_, fun m hm => ?_, h.laid.apart ho, part, hat, fun s hst => ?_⟩
  · have := hat.stop_le
    rwa [Nat.zero_add] at this
  · obtain ⟨ws', us', vs', rfl, hm⟩ := h.laid.exists_run hm
    have hu := (Token.inOrder_append.1 (Token.inOrder_append.1 ho).2.1).1
    refine hc.within (hm.covers hu) (fun u hu => ?_) ho
    exact List.mem_append_right _ (List.mem_append_left _ hu)
  · rw [hstart] at hpart
    obtain ⟨q, hq, he⟩ := Program.ofSource_of_spells (Spaced.scanned_iff.1 hpart) (h.statement hst)
    obtain ⟨t, rfl, ht⟩ := List.map_eq_singleton_iff.1 he
    exact ⟨t, hq, ht⟩

/-- Every node of a program stands at its place, apart from its siblings, and is what is read there. -/
theorem Program.ofSource_placed {source : String} {p : Program} (h : ofSource source = .ok p) :
    (∀ n, p.Holds n → n.Placed source) ∧ p.Pairwise fun s t => s.span.stop ≤ t.span.start := by
  obtain ⟨ts, hts, hp⟩ := ofSource_eq_ok.1 h
  have ho : Token.InOrder ts := ⟨hts.lossless.nonempty, hts.lossless.ordered⟩
  refine ⟨fun n hn => ?_, ?_⟩
  · obtain ⟨ws, us, vs, rfl, hn⟩ := hn.exists_run hp
    exact hn.placed (Spaced.scanned_iff.2 hts) (Token.inOrder_append.1 (Token.inOrder_append.1 ho).2.1).1
  · exact List.pairwise_map.1 (hp.laid.apart ho)

/-- A call of a parenthesised sum, an assignment to a member and a function, behind a comment of two bytes
a character. -/
theorem Program.ofSource_placed_nested :
    let source := "/*éé*/ (a + b)(\x7b k, l: \"é\" \x7d, c[1]); o.p = q fn f(x) \x7b (x) \x7d"
    ∃ p, ofSource source = .ok p ∧ p.length = 3 ∧ (∀ n, p.Holds n → n.Placed source) ∧
      p.Pairwise fun s t => s.span.stop ≤ t.span.start := by
  intro source
  obtain ⟨p, h, hlength⟩ : ∃ p, ofSource source = .ok p ∧ p.length = 3 := by
    simp only [ofSource_eq]
    decide +kernel
  exact ⟨p, h, hlength, Program.ofSource_placed h⟩

end RavenLang
