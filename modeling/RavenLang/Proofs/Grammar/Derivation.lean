import RavenLang.Grammar.Statement

/-!
# The grammar

Which token lists spell which trees, without a reader: one rule for each way to
build a phrase, free to stop anywhere. Operators and suffixes nest to the left,
assignments to the right.
-/

namespace RavenLang.Grammar

/-! ## Levels -/

/-- The levels of an expression, loosest first. -/
inductive Level where
  | assignment
  | object
  | additive
  | multiplicative
  | postfixed
  | primary
  deriving DecidableEq, Repr

namespace Level

def tighter : Level → Level
  | assignment => object
  | object => additive
  | additive => multiplicative
  | multiplicative => postfixed
  | postfixed => primary
  | primary => primary

def operators : Level → List String
  | additive => ["+", "-"]
  | multiplicative => ["*", "/", "%", "^"]
  | _ => []

def rank : Level → Nat
  | assignment => 0
  | object => 1
  | additive => 2
  | multiplicative => 3
  | postfixed => 4
  | primary => 5

theorem rank_inj {l m : Level} (h : l.rank = m.rank) : l = m := by
  revert h
  cases l <;> cases m <;> decide

theorem rank_of_operator {l : Level} {t : Token} (h : t.isOperator l.operators) :
    2 ≤ l.rank ∧ l.rank ≤ 4 := by
  cases l <;> first | decide | simp [operators, Token.isOperator] at h

theorem tighter_rank_le {l m : Level} (hne : l ≠ m) (h : l.rank ≤ m.rank) : l.tighter.rank ≤ m.rank := by
  revert hne h
  cases l <;> cases m <;> decide

theorem rank_le_tighter (l : Level) : l.rank ≤ l.tighter.rank := by cases l <;> decide

end Level

/-! ## Expressions -/

inductive Form where
  | expr (level : Level) (e : Expr)
  | arguments (es : List Expr)
  | entry (e : Entry)
  | entries (es : List Entry)

/-- A parenthesised expression takes the place of its parentheses; every other node
covers its first to its last token. -/
inductive Derives : Form → List Token → Prop
  | name {t} : t.kind = .identifier → Derives (.expr .primary (.name t.span t.text)) [t]
  | string {t} : t.kind = .string → Derives (.expr .primary (.string t.span t.text)) [t]
  | number {t x} : t.kind = .number → Number.read? t.text = some x →
      Derives (.expr .primary (.number t.span x)) [t]
  | group {o c e ts} : o.kind = .openParen → Derives (.expr .assignment e) ts → c.kind = .closeParen →
      Derives (.expr .primary (e.withSpan (o.span.merge c.span))) (o :: (ts ++ [c]))
  | tighter {l : Level} {e ts} : l ≠ .primary → Derives (.expr l.tighter e) ts → Derives (.expr l e) ts
  -- suffixes
  | field {e ts d n} : Derives (.expr .postfixed e) ts → d.kind = .dot → n.kind = .identifier →
      Derives (.expr .postfixed (.member (e.span.merge n.span) false e (.name n.span n.text))) (ts ++ [d, n])
  | index {e ts o key us c} : Derives (.expr .postfixed e) ts → o.kind = .openBracket →
      Derives (.expr .assignment key) us → c.kind = .closeBracket →
      Derives (.expr .postfixed (.member (e.span.merge c.span) true e key)) (ts ++ o :: (us ++ [c]))
  | call {e ts o es us c} : Derives (.expr .postfixed e) ts → o.kind = .openParen →
      Derives (.arguments es) us → c.kind = .closeParen →
      Derives (.expr .postfixed (.call (e.span.merge (o.span.merge c.span)) e es)) (ts ++ o :: (us ++ [c]))
  | noArguments : Derives (.arguments []) []
  | argument {e ts} : Derives (.expr .assignment e) ts → Derives (.arguments [e]) ts
  | nextArgument {e ts c f es us} : Derives (.expr .assignment e) ts → c.kind = .comma →
      Derives (.arguments (f :: es)) us → Derives (.arguments (e :: f :: es)) (ts ++ c :: us)
  -- operators
  | binary {l left ts op right us} : Derives (.expr l left) ts → op.isOperator l.operators →
      Derives (.expr l.tighter right) us →
      Derives (.expr l (.binary (left.span.merge right.span) op.text left right)) (ts ++ op :: us)
  -- objects and assignment
  | shorthand {k} : k.kind = .identifier → Derives (.entry (.shorthand k.span k.text)) [k]
  | pair {k c e ts} : k.kind = .identifier → c.kind = .colon → Derives (.expr .assignment e) ts →
      Derives (.entry (.pair (k.span.merge e.span) k.text e)) (k :: c :: ts)
  | noEntries : Derives (.entries []) []
  | lastEntry {e ts} : Derives (.entry e) ts → Derives (.entries [e]) ts
  | nextEntry {e ts c es us} : Derives (.entry e) ts → c.kind = .comma → Derives (.entries es) us →
      Derives (.entries (e :: es)) (ts ++ c :: us)
  | object {o es ts c} : o.kind = .openBrace → Derives (.entries es) ts → c.kind = .closeBrace →
      Derives (.expr .object (.object (o.span.merge c.span) es)) (o :: (ts ++ [c]))
  | assign {target ts q value us} : Derives (.expr .object target) ts → q.kind = .equals →
      Derives (.expr .assignment value) us →
      Derives (.expr .assignment (.assign (target.span.merge value.span) target value)) (ts ++ q :: us)

namespace Derives

theorem ne_nil {l : Level} {e : Expr} {us : List Token} (h : Derives (.expr l e) us) : us ≠ [] := by
  generalize hf : Form.expr l e = f at h
  induction h generalizing l e <;> simp_all

theorem head {l : Level} {e : Expr} {us : List Token} (h : Derives (.expr l e) us) :
    ∃ t, us.head? = some t ∧ (t.kind = .identifier ∨ t.kind = .string ∨ t.kind = .number ∨
      t.kind = .openParen ∨ t.kind = .openBrace ∧ l.rank < 2) := by
  generalize hf : Form.expr l e = f at h
  induction h generalizing l e with
  | name hk | string hk | number hk | group hk => exact ⟨_, rfl, by simp [hk]⟩
  | object hk =>
    cases hf
    exact ⟨_, rfl, by simp [hk, Level.rank]⟩
  | @tighter m _ _ _ _ ih =>
    cases hf
    obtain ⟨t, ht, hk⟩ := ih rfl
    refine ⟨t, ht, ?_⟩
    have := m.rank_le_tighter
    grind
  | field _ _ _ ih | index _ _ _ _ ih | call _ _ _ _ ih | binary _ _ _ ih | assign _ _ _ ih =>
    cases hf
    obtain ⟨t, ht, hk⟩ := ih rfl
    refine ⟨t, by simp [ht], ?_⟩
    grind [Level.rank]
  | noArguments | argument | nextArgument | shorthand | pair | noEntries | lastEntry | nextEntry => cases hf

theorem loosen {l m : Level} {e : Expr} {ts : List Token} (h : Derives (.expr l e) ts)
    (hle : m.rank ≤ l.rank) : Derives (.expr m e) ts := by
  by_cases hm : m = l
  · exact hm ▸ h
  · have hlt : m.rank < m.tighter.rank := by
      revert hm hle
      cases m <;> cases l <;> decide
    exact .tighter (by rintro rfl; exact absurd hlt (by decide)) (h.loosen (Level.tighter_rank_le hm hle))
termination_by l.rank - m.rank
decreasing_by
  have := Level.tighter_rank_le hm hle
  omega

end Derives

/-- Only an object literal ends in a brace, alone or as the value of an assignment. -/
def endsInBrace (us : List Token) : Bool := us.getLast?.any (·.kind = .closeBrace)

@[simp] theorem endsInBrace_append_cons (us vs : List Token) (t : Token) :
    endsInBrace (us ++ t :: vs) = endsInBrace (t :: vs) := by
  simp [endsInBrace, List.getLast?_append, List.getLast?_cons]

@[simp] theorem endsInBrace_singleton (t : Token) : endsInBrace [t] = decide (t.kind = .closeBrace) := by
  simp [endsInBrace]

theorem endsInBrace_append {us : List Token} (h : us ≠ []) (vs : List Token) :
    endsInBrace (vs ++ us) = endsInBrace us := by
  cases us with
  | nil => exact absurd rfl h
  | cons t us => exact endsInBrace_append_cons vs us t

theorem endsInBrace_cons {us : List Token} (h : us ≠ []) (t : Token) :
    endsInBrace (t :: us) = endsInBrace us :=
  endsInBrace_append h [t]

theorem Derives.endsInBrace_eq_false {l : Level} {e : Expr} {us : List Token} (h : Derives (.expr l e) us)
    (hl : 2 ≤ l.rank) : endsInBrace us = false := by
  generalize hf : Form.expr l e = f at h
  induction h generalizing l e with
  | name hk | string hk | number hk => simp [hk]
  | group _ _ hk => simp [endsInBrace_cons, hk]
  | field _ _ hk => simp [endsInBrace_cons, hk]
  | index _ _ _ hk | call _ _ _ hk => simp [endsInBrace_cons, hk]
  | @tighter m _ _ hp _ ih =>
    cases hf
    exact ih (Nat.le_trans hl m.rank_le_tighter) rfl
  | @binary m _ _ _ _ _ _ _ hr _ ih =>
    cases hf
    rw [endsInBrace_append_cons, endsInBrace_cons hr.ne_nil]
    exact ih (Nat.le_trans hl m.rank_le_tighter) rfl
  | object | assign =>
    cases hf
    exact absurd hl (by decide)
  | noArguments | argument | nextArgument | shorthand | pair | noEntries | lastEntry | nextEntry => cases hf

/-! ## Statements -/

/-- A statement, and whether it ends by itself: in `;` or in the brace of a body. -/
inductive Block where
  | statement (closed : Bool) (s : Stmt)
  | statements (ss : List Stmt)

/-- `Ends us rest` says where an expression statement `us` may end without a `;`: what
follows it among the statements around it is `rest`. -/
inductive Spells (Ends : List Token → List Token → Prop) : Block → List Token → Prop
  | undefined {k n last} : k.kind = .letWord → n.kind = .identifier → last.kind = .semicolon →
      Spells Ends (.statement true (.declare (k.span.merge last.span) false n.text none)) [k, n, last]
  | defined {k n q e ts last} : k.kind = .letWord ∨ k.kind = .constWord → n.kind = .identifier →
      q.kind = .equals → Derives (.expr .assignment e) ts → last.kind = .semicolon →
      Spells Ends (.statement true (.declare (k.span.merge last.span) (k.kind = .constWord) n.text (some e)))
        (k :: n :: q :: (ts ++ [last]))
  | function {k n o es us c parameters start body vs last} : k.kind = .fnWord → n.kind = .identifier →
      o.kind = .openParen → Derives (.arguments es) us → c.kind = .closeParen →
      es.map Expr.name? = parameters.map some → start.kind = .openBrace → Spells Ends (.statements body) vs →
      last.kind = .closeBrace →
      Spells Ends (.statement true (.function (k.span.merge last.span) n.text parameters body))
        (k :: n :: o :: (us ++ c :: start :: (vs ++ [last])))
  | terminated {e ts last} : Derives (.expr .assignment e) ts → last.kind = .semicolon →
      Spells Ends (.statement true (.expr (e.span.merge last.span) e)) (ts ++ [last])
  | bare {e ts} : Derives (.expr .assignment e) ts → Spells Ends (.statement false (.expr e.span e)) ts
  | nil : Spells Ends (.statements []) []
  | cons {closed s us ss rest} : Spells Ends (.statement closed s) us → (closed = false → Ends us rest) →
      Spells Ends (.statements ss) rest → Spells Ends (.statements (s :: ss)) (us ++ rest)

end RavenLang.Grammar
