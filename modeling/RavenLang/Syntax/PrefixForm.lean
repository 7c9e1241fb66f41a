import RavenLang.Number.Decimal
import RavenLang.Syntax

/-!
# Prefix form

Trees as parenthesised text with the operator in front: `(+ 1 (* 2 3))`. It shows
everything of a tree but its spans.
-/

namespace RavenLang

mutual

def Expr.prefixForm : Expr → String
  | .name _ n => n
  | .number _ x => Number.write .plain x
  | .string _ s => "\"" ++ s ++ "\""
  | .object _ es => "\x7b" ++ ", ".intercalate (Entry.prefixForms es) ++ "\x7d"
  | .binary _ op l r => "(" ++ op ++ " " ++ l.prefixForm ++ " " ++ r.prefixForm ++ ")"
  | .assign _ t v => "(= " ++ t.prefixForm ++ " " ++ v.prefixForm ++ ")"
  | .call _ f as => "(call " ++ " ".intercalate (f.prefixForm :: Expr.prefixForms as) ++ ")"
  | .member _ computed o p =>
    (if computed then "([] " else "(. ") ++ o.prefixForm ++ " " ++ p.prefixForm ++ ")"

def Entry.prefixForm : Entry → String
  | .shorthand _ k => k
  | .pair _ k v => k ++ ": " ++ v.prefixForm

def Entry.prefixForms : List Entry → List String
  | [] => []
  | e :: es => e.prefixForm :: Entry.prefixForms es

def Expr.prefixForms : List Expr → List String
  | [] => []
  | e :: es => e.prefixForm :: Expr.prefixForms es

end

mutual

def Stmt.prefixForm : Stmt → String
  | .declare _ constant name value =>
    (if constant then "(const " else "(let ") ++ name ++
      (match value with
      | some e => " " ++ e.prefixForm
      | none => "") ++ ")"
  | .function _ name parameters body =>
    "(fn " ++ " ".intercalate (name :: ("(" ++ " ".intercalate parameters ++ ")") :: Stmt.prefixForms body) ++ ")"
  | .expr _ e => e.prefixForm

def Stmt.prefixForms : List Stmt → List String
  | [] => []
  | s :: ss => s.prefixForm :: Stmt.prefixForms ss

end

theorem Entry.prefixForms_eq_map (es : List Entry) : Entry.prefixForms es = es.map Entry.prefixForm := by
  induction es with
  | nil => rfl
  | cons e es ih => rw [Entry.prefixForms, ih, List.map_cons]

theorem Expr.prefixForms_eq_map (es : List Expr) : Expr.prefixForms es = es.map Expr.prefixForm := by
  induction es with
  | nil => rfl
  | cons e es ih => rw [Expr.prefixForms, ih, List.map_cons]

theorem Stmt.prefixForms_eq_map (ss : List Stmt) : Stmt.prefixForms ss = ss.map Stmt.prefixForm := by
  induction ss with
  | nil => rfl
  | cons s ss ih => rw [Stmt.prefixForms, ih, List.map_cons]

/-- One line for each statement, unless a string in it holds line breaks. -/
def Program.prefixForm (p : Program) : String := "\n".intercalate (Stmt.prefixForms p)

end RavenLang
