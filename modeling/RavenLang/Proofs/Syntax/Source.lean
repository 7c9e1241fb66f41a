import RavenLang.Proofs.Grammar.Derivation
import RavenLang.Proofs.Number.Whole
import RavenLang.Proofs.Token.Spelling

/-!
# Trees as source text

A tree is written with the parentheses it needs and no others: around a part whose
level is too loose for its position. How a number is written is left open.
-/

namespace RavenLang

open Grammar

/-! ## Well-formed trees -/

def IsName (name : String) : Prop :=
  name.toList ≠ [] ∧ (∀ c ∈ name.toList, c.isAlpha = true) ∧ TokenKind.ofWord name.toList = .identifier

instance (name : String) : Decidable (IsName name) :=
  decidable_of_iff (name.toList ≠ [] ∧ name.toList.all Char.isAlpha = true ∧
    TokenKind.ofWord name.toList = .identifier) (by simp [IsName])

mutual

/-- Expressions of the shapes that source text has, with numbers of a certain kind. -/
inductive Expr.WellFormed (number : Float → Prop) : Expr → Prop
  | name {s n} : IsName n → Expr.WellFormed number (.name s n)
  | number {s x} : number x → Expr.WellFormed number (.number s x)
  | string {s t} : '"' ∉ t.toList → Expr.WellFormed number (.string s t)
  | object {s es} : (∀ e ∈ es, Entry.WellFormed number e) → Expr.WellFormed number (.object s es)
  | binary {s op l r} : op ∈ ["+", "-", "*", "/", "%", "^"] → Expr.WellFormed number l →
      Expr.WellFormed number r →
      Expr.WellFormed number (.binary s op l r)
  | assign {s t v} : Expr.WellFormed number t → Expr.WellFormed number v →
      Expr.WellFormed number (.assign s t v)
  | call {s f as} : Expr.WellFormed number f → (∀ a ∈ as, Expr.WellFormed number a) →
      Expr.WellFormed number (.call s f as)
  | field {s s' o n} : Expr.WellFormed number o → IsName n →
      Expr.WellFormed number (.member s false o (.name s' n))
  | index {s o p} : Expr.WellFormed number o → Expr.WellFormed number p →
      Expr.WellFormed number (.member s true o p)

inductive Entry.WellFormed (number : Float → Prop) : Entry → Prop
  | shorthand {s k} : IsName k → Entry.WellFormed number (.shorthand s k)
  | pair {s k v} : IsName k → Expr.WellFormed number v → Entry.WellFormed number (.pair s k v)

end

/-- Statements of the shapes that source text has: only a variable can do without a value. -/
inductive Stmt.WellFormed (number : Float → Prop) : Stmt → Prop
  | undefined {s n} : IsName n → Stmt.WellFormed number (.declare s false n none)
  | defined {s constant n e} : IsName n → Expr.WellFormed number e →
      Stmt.WellFormed number (.declare s constant n (some e))
  | function {s n ps body} : IsName n → (∀ p ∈ ps, IsName p) → (∀ b ∈ body, Stmt.WellFormed number b) →
      Stmt.WellFormed number (.function s n ps body)
  | expr {s e} : Expr.WellFormed number e → Stmt.WellFormed number (.expr s e)

def Program.WellFormed (number : Float → Prop) (p : Program) : Prop := ∀ s ∈ p, s.WellFormed number

/-- Numbers that are written as digits and read back from them. -/
def Number.WrittenBy (digits : Float → String) (x : Float) : Prop :=
  IsDigits (digits x).toList ∧ read? (digits x) = some x

theorem Number.writtenBy_decimal {x : Float} (h : IsWhole x) : WrittenBy decimal x :=
  ⟨isDigits_decimal x, read?_decimal h⟩

/-! ## Numbers in trees -/

mutual

def Expr.numbers : Expr → List Float
  | .name .. | .string .. => []
  | .number _ x => [x]
  | .object _ es => Entry.numbersAll es
  | .binary _ _ l r => l.numbers ++ r.numbers
  | .assign _ t v => t.numbers ++ v.numbers
  | .call _ f as => f.numbers ++ Expr.numbersAll as
  | .member _ _ o p => o.numbers ++ p.numbers

def Entry.numbers : Entry → List Float
  | .shorthand .. => []
  | .pair _ _ v => v.numbers

def Entry.numbersAll : List Entry → List Float
  | [] => []
  | e :: es => e.numbers ++ Entry.numbersAll es

def Expr.numbersAll : List Expr → List Float
  | [] => []
  | e :: es => e.numbers ++ Expr.numbersAll es

end

mutual

def Stmt.numbers : Stmt → List Float
  | .declare _ _ _ none => []
  | .declare _ _ _ (some e) => e.numbers
  | .function _ _ _ body => Stmt.numbersAll body
  | .expr _ e => e.numbers

def Stmt.numbersAll : List Stmt → List Float
  | [] => []
  | s :: ss => s.numbers ++ Stmt.numbersAll ss

end

def Program.numbers (p : Program) : List Float := Stmt.numbersAll p

theorem Entry.numbersAll_eq_flatMap (es : List Entry) : Entry.numbersAll es = es.flatMap Entry.numbers := by
  induction es with
  | nil => rfl
  | cons e es ih => rw [Entry.numbersAll, ih, List.flatMap_cons]

theorem Expr.numbersAll_eq_flatMap (es : List Expr) : Expr.numbersAll es = es.flatMap Expr.numbers := by
  induction es with
  | nil => rfl
  | cons e es ih => rw [Expr.numbersAll, ih, List.flatMap_cons]

theorem Stmt.numbersAll_eq_flatMap (ss : List Stmt) : Stmt.numbersAll ss = ss.flatMap Stmt.numbers := by
  induction ss with
  | nil => rfl
  | cons s ss ih => rw [Stmt.numbersAll, ih, List.flatMap_cons]

section
variable {number number' : Float → Prop}

mutual

/-- What holds of numbers need only be known of those in the tree. -/
theorem Expr.WellFormed.imp {e : Expr} :
    e.WellFormed number → (∀ x ∈ e.numbers, number x → number' x) → e.WellFormed number'
  | .name hn, _ => .name hn
  | .number hx, h => .number (h _ List.mem_cons_self hx)
  | .string ht, _ => .string ht
  | @Expr.WellFormed.object _ _ es hes, h => .object fun e he => (hes e he).imp fun x hx => h x <| by
      rw [Expr.numbers, Entry.numbersAll_eq_flatMap]
      exact List.mem_flatMap.2 ⟨e, he, hx⟩
  | .binary hop hl hr, h =>
    .binary hop (hl.imp fun x hx => h x (List.mem_append_left _ hx))
      (hr.imp fun x hx => h x (List.mem_append_right _ hx))
  | .assign ht hv, h =>
    .assign (ht.imp fun x hx => h x (List.mem_append_left _ hx))
      (hv.imp fun x hx => h x (List.mem_append_right _ hx))
  | .call hf has, h =>
    .call (hf.imp fun x hx => h x (List.mem_append_left _ hx)) fun a ha => (has a ha).imp fun x hx => h x <| by
      rw [Expr.numbers, Expr.numbersAll_eq_flatMap]
      exact List.mem_append_right _ (List.mem_flatMap.2 ⟨a, ha, hx⟩)
  | .field ho hn, h => .field (ho.imp fun x hx => h x (List.mem_append_left _ hx)) hn
  | .index ho hp, h =>
    .index (ho.imp fun x hx => h x (List.mem_append_left _ hx))
      (hp.imp fun x hx => h x (List.mem_append_right _ hx))

theorem Entry.WellFormed.imp {e : Entry} :
    e.WellFormed number → (∀ x ∈ e.numbers, number x → number' x) → e.WellFormed number'
  | .shorthand hk, _ => .shorthand hk
  | .pair hk hv, h => .pair hk (hv.imp h)

end

theorem Stmt.WellFormed.imp {s : Stmt} :
    s.WellFormed number → (∀ x ∈ s.numbers, number x → number' x) → s.WellFormed number'
  | .undefined hn, _ => .undefined hn
  | .defined hn he, h => .defined hn (he.imp h)
  | .function hn hps hbody, h => .function hn hps fun b hb => (hbody b hb).imp fun x hx => h x <| by
      rw [Stmt.numbers, Stmt.numbersAll_eq_flatMap]
      exact List.mem_flatMap.2 ⟨b, hb, hx⟩
  | .expr he, h => .expr (he.imp h)

theorem Program.WellFormed.imp {p : Program} (hp : p.WellFormed number)
    (h : ∀ x ∈ p.numbers, number x → number' x) : p.WellFormed number' := fun s hs =>
  (hp s hs).imp fun x hx => h x <| by
    rw [Program.numbers, Stmt.numbersAll_eq_flatMap]
    exact List.mem_flatMap.2 ⟨s, hs, hx⟩

theorem Stmt.WellFormed.mono (h : ∀ x, number x → number' x) {s : Stmt} (hs : s.WellFormed number) :
    s.WellFormed number' :=
  hs.imp fun x _ => h x

end

/-! ## Writing -/

namespace Piece

def word (w : String) : Piece := ⟨.ofWord w.toList, w⟩

@[simp] theorem text_word (w : String) : (word w).text = w := rfl

def mark (c : Char) : Piece := ⟨(TokenKind.ofMark? c).getD .endOfInput, .singleton c⟩

def commas : List (List Piece) → List Piece
  | [] => []
  | [ps] => ps
  | ps :: qs :: rest => ps ++ mark ',' :: commas (qs :: rest)

end Piece

open Piece

/-- The tightest level a tree is read at without parentheses. -/
def Expr.level : Expr → Level
  | .name .. | .number .. | .string .. => .primary
  | .call .. | .member .. => .postfixed
  | .binary _ op _ _ => if op ∈ Level.additive.operators then .additive else .multiplicative
  | .object .. => .object
  | .assign .. => .assignment

@[simp] theorem Expr.level_object (s : Span) (es : List Entry) : (Expr.object s es).level = .object := rfl

@[simp] theorem Expr.level_assign (s : Span) (t v : Expr) : (Expr.assign s t v).level = .assignment := rfl

@[simp] theorem Expr.level_call (s : Span) (f : Expr) (as : List Expr) :
    (Expr.call s f as).level = .postfixed := rfl

@[simp] theorem Expr.level_member (s : Span) (computed : Bool) (o p : Expr) :
    (Expr.member s computed o p).level = .postfixed := rfl

/-- Pieces at a position for a level: parentheses around what is looser. -/
def grouped (required level : Level) (ps : List Piece) : List Piece :=
  if required.rank ≤ level.rank then ps else mark '(' :: (ps ++ [mark ')'])

section

variable (digits : Float → String)

mutual

def Expr.pieces : Expr → List Piece
  | .name _ n => [word n]
  | .number _ x => [⟨.number, digits x⟩]
  | .string _ t => [⟨.string, t⟩]
  | .object _ es => mark '\x7b' :: (commas (Entry.piecesAll es) ++ [mark '\x7d'])
  | .binary s op l r =>
    let level := (Expr.binary s op l r).level
    grouped level l.level l.pieces ++ ⟨.operator, op⟩ :: grouped level.tighter r.level r.pieces
  | .assign _ t v => grouped .object t.level t.pieces ++ mark '=' :: v.pieces
  | .call _ f as =>
    grouped .postfixed f.level f.pieces ++ mark '(' :: (commas (Expr.piecesAll as) ++ [mark ')'])
  | .member _ false o p => grouped .postfixed o.level o.pieces ++ mark '.' :: p.pieces
  | .member _ true o p => grouped .postfixed o.level o.pieces ++ mark '[' :: (p.pieces ++ [mark ']'])

def Entry.pieces : Entry → List Piece
  | .shorthand _ k => [word k]
  | .pair _ k v => word k :: mark ':' :: v.pieces

def Entry.piecesAll : List Entry → List (List Piece)
  | [] => []
  | e :: es => e.pieces :: Entry.piecesAll es

def Expr.piecesAll : List Expr → List (List Piece)
  | [] => []
  | e :: es => e.pieces :: Expr.piecesAll es

end

mutual

def Stmt.pieces : Stmt → List Piece
  | .declare _ constant n none => [word (if constant then "const" else "let"), word n, mark ';']
  | .declare _ constant n (some e) =>
    word (if constant then "const" else "let") :: word n :: mark '=' :: (e.pieces digits ++ [mark ';'])
  | .function _ n ps body =>
    word "fn" :: word n :: mark '(' :: (commas (ps.map fun p => [word p]) ++
      mark ')' :: mark '\x7b' :: (Stmt.piecesAll body ++ [mark '\x7d']))
  | .expr _ e => e.pieces digits ++ [mark ';']

def Stmt.piecesAll : List Stmt → List Piece
  | [] => []
  | s :: ss => s.pieces ++ Stmt.piecesAll ss

end

def Program.pieces (p : Program) : List Piece := Stmt.piecesAll digits p

/-- The text of a program, its pieces separated by single spaces. -/
def Program.source (p : Program) : String :=
  .ofList ((Program.pieces digits p).flatMap fun q => q.spelled ++ [' '])

end

/-! ## The texts of pieces -/

variable {digits : Float → String}

theorem layout_spaced (ps : List Piece) : Layout ps (ps.flatMap fun q => q.spelled ++ [' ']) := by
  induction ps with
  | nil => exact .nil .nil
  | cons p ps ih =>
    have hr : p.runsInto ' ' = false := p.runsInto_of_isWhitespace rfl
    simpa using Layout.cons .nil (by simpa using hr) (ih.blank (c := ' ') rfl)

theorem fits_mark {c : Char} {kind : TokenKind} (h : TokenKind.ofMark? c = some kind) :
    (mark c).kind.Fits (mark c).text.toList := by
  have hk : (mark c).kind = kind := by simp [mark, h]
  have ht : (mark c).text.toList = [c] := by simp [mark]
  rw [hk, ht]
  exact .mark h

theorem fits_word {w : String} (hne : w.toList ≠ []) (ha : w.toList.all Char.isAlpha = true) :
    (word w).kind.Fits w.toList :=
  .word hne (List.all_eq_true.1 ha)

theorem fits_name {n : String} (h : IsName n) : (word n).kind.Fits n.toList := .word h.1 h.2.1

theorem Fitting.grouped {ps : List Piece} (h : Fitting ps) (required level : Level) :
    Fitting (grouped required level ps) := by
  unfold RavenLang.grouped
  split
  · exact h
  · simp [h, fits_mark (c := '(') rfl, fits_mark (c := ')') rfl]

theorem Fitting.commas {pss : List (List Piece)} (h : ∀ ps ∈ pss, Fitting ps) : Fitting (commas pss) := by
  match pss with
  | [] => exact fitting_nil
  | [ps] => exact h ps List.mem_cons_self
  | ps :: qs :: pss =>
    have hr := Fitting.commas fun rs hrs => h rs (List.mem_cons_of_mem ps hrs)
    simp [Piece.commas, h ps List.mem_cons_self, hr, fits_mark (c := ',') rfl]

mutual

theorem Fitting.pieces (e : Expr) (he : e.WellFormed (Number.WrittenBy digits)) :
    Fitting (e.pieces digits) := by
  match e, he with
  | .name _ n, .name hn => simp [Expr.pieces, fits_name hn]
  | .number _ x, .number hx => simpa [Expr.pieces] using TokenKind.Fits.number hx.1
  | .string _ t, .string ht => simpa [Expr.pieces] using TokenKind.Fits.string ht
  | .object _ es, .object hes =>
    have h := Fitting.commas (Fitting.piecesEntries es hes)
    simp [Expr.pieces, h, fits_mark (c := '\x7b') rfl, fits_mark (c := '\x7d') rfl]
  | .binary s op l r, .binary hop hl hr =>
    have hl := (Fitting.pieces l hl).grouped
    have hr := (Fitting.pieces r hr).grouped
    have hop : TokenKind.Fits .operator op.toList := by
      simp only [List.mem_cons, List.not_mem_nil, or_false] at hop
      rcases hop with rfl | rfl | rfl | rfl | rfl | rfl <;> exact .mark rfl
    simp [Expr.pieces, hl, hr, hop]
  | .assign s t v, .assign ht hv =>
    simp [Expr.pieces, (Fitting.pieces t ht).grouped, Fitting.pieces v hv, fits_mark (c := '=') rfl]
  | .call s f as, .call hf has =>
    have h := Fitting.commas (Fitting.piecesArguments as has)
    simp [Expr.pieces, (Fitting.pieces f hf).grouped, h, fits_mark (c := '(') rfl, fits_mark (c := ')') rfl]
  | .member _ false o (.name _ n), .field ho hn =>
    simp [Expr.pieces, (Fitting.pieces o ho).grouped, fits_name hn, fits_mark (c := '.') rfl]
  | .member _ true o p, .index ho hp =>
    simp [Expr.pieces, (Fitting.pieces o ho).grouped, Fitting.pieces p hp, fits_mark (c := '[') rfl,
      fits_mark (c := ']') rfl]

theorem Fitting.piecesEntry (e : Entry) (he : e.WellFormed (Number.WrittenBy digits)) :
    Fitting (e.pieces digits) := by
  match e, he with
  | .shorthand _ k, .shorthand hk => simp [Entry.pieces, fits_name hk]
  | .pair _ k v, .pair hk hv => simp [Entry.pieces, fits_name hk, Fitting.pieces v hv,
      fits_mark (c := ':') rfl]

theorem Fitting.piecesEntries (es : List Entry) (hes : ∀ e ∈ es, e.WellFormed (Number.WrittenBy digits)) :
    ∀ ps ∈ Entry.piecesAll digits es, Fitting ps := by
  match es with
  | [] => simp [Entry.piecesAll]
  | e :: es =>
    rw [Entry.piecesAll, List.forall_mem_cons]
    exact ⟨Fitting.piecesEntry e (hes e List.mem_cons_self),
      Fitting.piecesEntries es fun f hf => hes f (List.mem_cons_of_mem e hf)⟩

theorem Fitting.piecesArguments (es : List Expr) (hes : ∀ e ∈ es, e.WellFormed (Number.WrittenBy digits)) :
    ∀ ps ∈ Expr.piecesAll digits es, Fitting ps := by
  match es with
  | [] => simp [Expr.piecesAll]
  | e :: es =>
    rw [Expr.piecesAll, List.forall_mem_cons]
    exact ⟨Fitting.pieces e (hes e List.mem_cons_self),
      Fitting.piecesArguments es fun f hf => hes f (List.mem_cons_of_mem e hf)⟩

end

theorem Fitting.parameters {ps : List String} (hps : ∀ p ∈ ps, IsName p) :
    ∀ qs ∈ ps.map fun p => [word p], Fitting qs := by
  simpa using fun p hp => fits_name (hps p hp)

mutual

theorem Fitting.piecesStmt (s : Stmt) (hs : s.WellFormed (Number.WrittenBy digits)) :
    Fitting (s.pieces digits) := by
  match s, hs with
  | .declare _ false n none, .undefined hn =>
    have hk : (word "let").kind.Fits ['l', 'e', 't'] := fits_word (w := "let") (by decide) (by decide)
    simp [Stmt.pieces, hk, fits_name hn, fits_mark (c := ';') rfl]
  | .declare _ constant n (some e), .defined hn he =>
    have hk : (word (if constant then "const" else "let")).kind.Fits
        (if constant then "const" else "let").toList := by
      cases constant <;> exact fits_word (by decide) (by decide)
    simp [Stmt.pieces, hk, fits_name hn, Fitting.pieces e he, fits_mark (c := '=') rfl,
      fits_mark (c := ';') rfl]
  | .function _ n ps body, .function hn hps hbody =>
    have hk : (word "fn").kind.Fits ['f', 'n'] := fits_word (w := "fn") (by decide) (by decide)
    simp [Stmt.pieces, hk, fits_name hn, Fitting.commas (Fitting.parameters hps),
      Fitting.piecesAll body hbody, fits_mark (c := '(') rfl, fits_mark (c := ')') rfl,
      fits_mark (c := '\x7b') rfl, fits_mark (c := '\x7d') rfl]
  | .expr _ e, .expr he => simp [Stmt.pieces, Fitting.pieces e he, fits_mark (c := ';') rfl]

theorem Fitting.piecesAll (ss : List Stmt) (hss : ∀ s ∈ ss, s.WellFormed (Number.WrittenBy digits)) :
    Fitting (Stmt.piecesAll digits ss) := by
  match ss with
  | [] => exact fitting_nil
  | s :: ss =>
    rw [Stmt.piecesAll, fitting_append]
    exact ⟨Fitting.piecesStmt s (hss s List.mem_cons_self),
      Fitting.piecesAll ss fun r hr => hss r (List.mem_cons_of_mem s hr)⟩

end

end RavenLang
