import RavenLang.Syntax

/-!
# Nodes

The statements, the expressions and the entries of a program, each below the node that it is a part of.
-/

namespace RavenLang

inductive Node where
  | stmt (s : Stmt)
  | expr (e : Expr)
  | entry (e : Entry)

namespace Node

def span : Node → Span
  | stmt s => s.span
  | expr e => e.span
  | entry e => e.span

/-- The nodes right below a node, in the order of the text. -/
def children : Node → List Node
  | stmt (.declare _ _ _ value) => value.toList.map expr
  | stmt (.function _ _ _ body) => body.map stmt
  | stmt (.expr _ e) => [expr e]
  | expr (.name ..) | expr (.number ..) | expr (.string ..) => []
  | expr (.object _ es) => es.map entry
  | expr (.binary _ _ l r) => [expr l, expr r]
  | expr (.assign _ t v) => [expr t, expr v]
  | expr (.call _ f as) => expr f :: as.map expr
  | expr (.member _ _ o p) => [expr o, expr p]
  | entry (.shorthand ..) => []
  | entry (.pair _ _ v) => [expr v]

/-- The statement that a node is by itself. An entry is none. -/
def statement? : Node → Option Stmt
  | stmt s => some s
  | expr e => some (.expr e.span e)
  | entry _ => none

@[simp] theorem children_withSpan (e : Expr) (s : Span) :
    (expr (e.withSpan s)).children = (expr e).children := by
  cases e <;> rfl

end Node

/-- The nodes of a program. -/
inductive Program.Holds (p : Program) : Node → Prop
  | stmt {s} : s ∈ p → Holds p (.stmt s)
  | child {m n} : Holds p m → n ∈ m.children → Holds p n

theorem Program.Holds.within {p q : Program} {n : Node} (h : p.Holds n) (hp : ∀ s ∈ p, q.Holds (.stmt s)) :
    q.Holds n := by
  induction h with
  | stmt hs => exact hp _ hs
  | child _ hn ih => exact ih.child hn

end RavenLang
