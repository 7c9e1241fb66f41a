import RavenLang.Span

/-!
# Syntax

The trees of the language. Every node carries the span it was read from. An
operator is kept as its text; which texts are operators is decided when a tree
is evaluated.
-/

namespace RavenLang

mutual

inductive Expr where
  | name (span : Span) (name : String)
  | number (span : Span) (value : Float)
  | string (span : Span) (value : String)
  | object (span : Span) (entries : List Entry)
  | binary (span : Span) (operator : String) (left right : Expr)
  | assign (span : Span) (target value : Expr)
  | call (span : Span) (callee : Expr) (arguments : List Expr)
  /-- `object.property`, or `object[property]` if the key is computed. -/
  | member (span : Span) (computed : Bool) (object property : Expr)

inductive Entry where
  /-- A bare key, which stands for the variable of that name. -/
  | shorthand (span : Span) (key : String)
  | pair (span : Span) (key : String) (value : Expr)

end

inductive Stmt where
  | declare (span : Span) (constant : Bool) (name : String) (value : Option Expr)
  | function (span : Span) (name : String) (parameters : List String) (body : List Stmt)
  | expr (span : Span) (expr : Expr)

abbrev Program := List Stmt

instance : Inhabited Expr := ⟨.name default ""⟩
instance : Inhabited Stmt := ⟨.expr default default⟩

namespace Expr

def span : Expr → Span
  | name span _ | number span _ | string span _ | object span _ | binary span .. | assign span ..
  | call span .. | member span .. => span

def withSpan (s : Span) : Expr → Expr
  | name _ n => name s n
  | number _ x => number s x
  | string _ t => string s t
  | object _ es => object s es
  | binary _ op l r => binary s op l r
  | assign _ t v => assign s t v
  | call _ f as => call s f as
  | member _ c o p => member s c o p

@[simp] theorem span_withSpan (s : Span) (e : Expr) : (e.withSpan s).span = s := by cases e <;> rfl

def name? : Expr → Option String
  | name _ n => some n
  | _ => none

end Expr

namespace Entry

def span : Entry → Span
  | shorthand span _ | pair span .. => span

def key : Entry → String
  | shorthand _ key | pair _ key _ => key

end Entry

namespace Stmt

def span : Stmt → Span
  | declare span .. | function span .. | expr span _ => span

end Stmt

end RavenLang
