import RavenLang.Proofs.Syntax.Nodes

/-!
# Places in trees

The spans of all nodes of a tree.
-/

namespace RavenLang

/-- A range of a text of so many bytes. -/
structure Span.Within (s : Span) (size : Nat) : Prop where
  start_le : s.start ≤ s.stop
  stop_le : s.stop ≤ size

instance (s : Span) (size : Nat) : Decidable (s.Within size) :=
  decidable_of_iff (s.start ≤ s.stop ∧ s.stop ≤ size) ⟨fun h => ⟨h.1, h.2⟩, fun h => ⟨h.1, h.2⟩⟩

theorem Span.Within.merge {a b : Span} {size : Nat} (ha : a.Within size) (hb : b.Within size) :
    (a.merge b).Within size := by
  have := ha.start_le
  have := ha.stop_le
  have := hb.stop_le
  constructor <;> simp only [Span.merge] <;> omega

theorem Span.within_point {offset size : Nat} (h : offset ≤ size) : (Span.point offset).Within size :=
  ⟨Nat.le_refl _, h⟩

/-! ## Spans of trees -/

mutual

def Expr.spans : Expr → List Span
  | .name s _ | .number s _ | .string s _ => [s]
  | .object s es => s :: Entry.spansAll es
  | .binary s _ l r => s :: (l.spans ++ r.spans)
  | .assign s t v => s :: (t.spans ++ v.spans)
  | .call s f as => s :: (f.spans ++ Expr.spansAll as)
  | .member s _ o p => s :: (o.spans ++ p.spans)

def Entry.spans : Entry → List Span
  | .shorthand s _ => [s]
  | .pair s _ v => s :: v.spans

def Entry.spansAll : List Entry → List Span
  | [] => []
  | e :: es => e.spans ++ Entry.spansAll es

def Expr.spansAll : List Expr → List Span
  | [] => []
  | e :: es => e.spans ++ Expr.spansAll es

end

mutual

def Stmt.spans : Stmt → List Span
  | .declare s _ _ none => [s]
  | .declare s _ _ (some e) => s :: e.spans
  | .function s _ _ body => s :: Stmt.spansAll body
  | .expr s e => s :: e.spans

def Stmt.spansAll : List Stmt → List Span
  | [] => []
  | s :: ss => s.spans ++ Stmt.spansAll ss

end

def Program.spans (p : Program) : List Span := Stmt.spansAll p

theorem Expr.span_mem_spans (e : Expr) : e.span ∈ e.spans := by
  cases e <;> simp [Expr.span, Expr.spans]

theorem Expr.mem_spans_withSpan {e : Expr} {s t : Span} (h : s ∈ (e.withSpan t).spans) : s = t ∨ s ∈ e.spans := by
  cases e <;> exact (List.mem_cons.1 h).imp_right (List.mem_cons_of_mem _)

theorem Expr.mem_spansAll {e : Expr} {es : List Expr} (he : e ∈ es) : e.spans ⊆ Expr.spansAll es := by
  induction es with
  | nil => cases he
  | cons e' es ih =>
    rw [Expr.spansAll]
    rcases List.mem_cons.1 he with rfl | he
    · exact List.subset_append_left _ _
    · exact List.Subset.trans (ih he) (List.subset_append_right _ _)

theorem Entry.mem_spansAll {e : Entry} {es : List Entry} (he : e ∈ es) : e.spans ⊆ Entry.spansAll es := by
  induction es with
  | nil => cases he
  | cons e' es ih =>
    rw [Entry.spansAll]
    rcases List.mem_cons.1 he with rfl | he
    · exact List.subset_append_left _ _
    · exact List.Subset.trans (ih he) (List.subset_append_right _ _)

theorem Stmt.mem_spansAll {s : Stmt} {ss : List Stmt} (hs : s ∈ ss) : s.spans ⊆ Stmt.spansAll ss := by
  induction ss with
  | nil => cases hs
  | cons s' ss ih =>
    rw [Stmt.spansAll]
    rcases List.mem_cons.1 hs with rfl | hs
    · exact List.subset_append_left _ _
    · exact List.Subset.trans (ih hs) (List.subset_append_right _ _)

/-! ## Nodes -/

def Node.spans : Node → List Span
  | stmt s => s.spans
  | expr e => e.spans
  | entry e => e.spans

theorem Node.span_mem_spans (n : Node) : n.span ∈ n.spans := by
  cases n with
  | stmt s => rcases s with ⟨_, _, _, _ | _⟩ | _ | _ <;> exact List.mem_cons_self
  | expr e => exact e.span_mem_spans
  | entry e => cases e <;> exact List.mem_cons_self

theorem Node.spans_subset {m n : Node} (h : n ∈ m.children) : n.spans ⊆ m.spans := by
  have pair {l r : Expr} {s : Span} (h : n ∈ [expr l, expr r]) : n.spans ⊆ s :: (l.spans ++ r.spans) := by
    simp only [List.mem_cons, List.not_mem_nil, or_false] at h
    rcases h with rfl | rfl
    · exact List.subset_cons_of_subset _ (List.subset_append_left _ _)
    · exact List.subset_cons_of_subset _ (List.subset_append_right _ _)
  match m, h with
  | .stmt (.declare _ _ _ (some e)), h =>
    obtain rfl := List.mem_singleton.1 h
    exact List.subset_cons_self _ _
  | .stmt (.function _ _ _ body), h =>
    obtain ⟨s, hs, rfl⟩ := List.mem_map.1 h
    exact List.subset_cons_of_subset _ (Stmt.mem_spansAll hs)
  | .stmt (.expr _ e), h =>
    obtain rfl := List.mem_singleton.1 h
    exact List.subset_cons_self _ _
  | .expr (.object _ es), h =>
    obtain ⟨e, he, rfl⟩ := List.mem_map.1 h
    exact List.subset_cons_of_subset _ (Entry.mem_spansAll he)
  | .expr (.binary ..), h | .expr (.assign ..), h | .expr (.member ..), h => exact pair h
  | .expr (.call _ f as), h =>
    rcases List.mem_cons.1 h with rfl | h
    · exact List.subset_cons_of_subset _ (List.subset_append_left _ _)
    · obtain ⟨a, ha, rfl⟩ := List.mem_map.1 h
      have hsub := List.Subset.trans (Expr.mem_spansAll ha) (List.subset_append_right f.spans _)
      exact List.subset_cons_of_subset _ hsub
  | .entry (.pair _ _ v), h =>
    obtain rfl := List.mem_singleton.1 h
    exact List.subset_cons_self _ _

theorem Program.Holds.spans_subset {p : Program} {n : Node} (h : p.Holds n) : n.spans ⊆ p.spans := by
  induction h with
  | stmt hs => exact Stmt.mem_spansAll hs
  | child _ hn ih => exact List.Subset.trans (Node.spans_subset hn) ih

end RavenLang
