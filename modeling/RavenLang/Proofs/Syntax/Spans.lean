import RavenLang.Syntax

/-!
# Trees up to spans

The same tree at other places. Two trees that agree when every span is replaced by
one and the same differ in spans only.
-/

namespace RavenLang

mutual

def Expr.mapSpans (f : Span → Span) : Expr → Expr
  | .name s n => .name (f s) n
  | .number s x => .number (f s) x
  | .string s t => .string (f s) t
  | .object s es => .object (f s) (Entry.mapSpansAll f es)
  | .binary s op l r => .binary (f s) op (l.mapSpans f) (r.mapSpans f)
  | .assign s t v => .assign (f s) (t.mapSpans f) (v.mapSpans f)
  | .call s g as => .call (f s) (g.mapSpans f) (Expr.mapSpansAll f as)
  | .member s computed o p => .member (f s) computed (o.mapSpans f) (p.mapSpans f)

def Entry.mapSpans (f : Span → Span) : Entry → Entry
  | .shorthand s k => .shorthand (f s) k
  | .pair s k v => .pair (f s) k (v.mapSpans f)

def Entry.mapSpansAll (f : Span → Span) : List Entry → List Entry
  | [] => []
  | e :: es => e.mapSpans f :: Entry.mapSpansAll f es

def Expr.mapSpansAll (f : Span → Span) : List Expr → List Expr
  | [] => []
  | e :: es => e.mapSpans f :: Expr.mapSpansAll f es

end

mutual

def Stmt.mapSpans (f : Span → Span) : Stmt → Stmt
  | .declare s constant name value => .declare (f s) constant name (value.map (·.mapSpans f))
  | .function s name parameters body => .function (f s) name parameters (Stmt.mapSpansAll f body)
  | .expr s e => .expr (f s) (e.mapSpans f)

def Stmt.mapSpansAll (f : Span → Span) : List Stmt → List Stmt
  | [] => []
  | s :: ss => s.mapSpans f :: Stmt.mapSpansAll f ss

end

variable {f : Span → Span}

@[simp] theorem Entry.mapSpansAll_eq_map (es : List Entry) :
    Entry.mapSpansAll f es = es.map (·.mapSpans f) := by
  induction es with
  | nil => rfl
  | cons e es ih => rw [Entry.mapSpansAll, ih, List.map_cons]

@[simp] theorem Expr.mapSpansAll_eq_map (es : List Expr) : Expr.mapSpansAll f es = es.map (·.mapSpans f) := by
  induction es with
  | nil => rfl
  | cons e es ih => rw [Expr.mapSpansAll, ih, List.map_cons]

@[simp] theorem Stmt.mapSpansAll_eq_map (ss : List Stmt) : Stmt.mapSpansAll f ss = ss.map (·.mapSpans f) := by
  induction ss with
  | nil => rfl
  | cons s ss ih => rw [Stmt.mapSpansAll, ih, List.map_cons]

namespace Expr

@[simp] theorem span_mapSpans (e : Expr) : (e.mapSpans f).span = f e.span := by
  cases e <;> rw [mapSpans] <;> rfl

@[simp] theorem mapSpans_withSpan (e : Expr) (s : Span) :
    (e.withSpan s).mapSpans f = (e.mapSpans f).withSpan (f s) := by
  cases e <;> simp only [withSpan, mapSpans]

@[simp] theorem name?_mapSpans (e : Expr) : (e.mapSpans f).name? = e.name? := by
  cases e <;> rw [mapSpans] <;> rfl

end Expr

/-! ## The same places -/

mutual

theorem Expr.mapSpans_id (e : Expr) : e.mapSpans id = e := by
  match e with
  | .name .. | .number .. | .string .. => rfl
  | .object _ es => rw [Expr.mapSpans, Entry.mapSpansAll_id es, id]
  | .binary _ _ l r => rw [Expr.mapSpans, Expr.mapSpans_id l, Expr.mapSpans_id r, id]
  | .assign _ t v => rw [Expr.mapSpans, Expr.mapSpans_id t, Expr.mapSpans_id v, id]
  | .call _ f as => rw [Expr.mapSpans, Expr.mapSpans_id f, Expr.mapSpansAll_id as, id]
  | .member _ _ o p => rw [Expr.mapSpans, Expr.mapSpans_id o, Expr.mapSpans_id p, id]

theorem Entry.mapSpans_id (e : Entry) : e.mapSpans id = e := by
  match e with
  | .shorthand .. => rfl
  | .pair _ _ v => rw [Entry.mapSpans, Expr.mapSpans_id v, id]

theorem Entry.mapSpansAll_id (es : List Entry) : Entry.mapSpansAll id es = es := by
  match es with
  | [] => rfl
  | e :: es => rw [Entry.mapSpansAll, Entry.mapSpans_id e, Entry.mapSpansAll_id es]

theorem Expr.mapSpansAll_id (es : List Expr) : Expr.mapSpansAll id es = es := by
  match es with
  | [] => rfl
  | e :: es => rw [Expr.mapSpansAll, Expr.mapSpans_id e, Expr.mapSpansAll_id es]

end

mutual

theorem Stmt.mapSpans_id (s : Stmt) : s.mapSpans id = s := by
  match s with
  | .declare _ _ _ none => rfl
  | .declare _ _ _ (some e) => rw [Stmt.mapSpans, Option.map_some, Expr.mapSpans_id e, id]
  | .function _ _ _ body => rw [Stmt.mapSpans, Stmt.mapSpansAll_id body, id]
  | .expr _ e => rw [Stmt.mapSpans, Expr.mapSpans_id e, id]

theorem Stmt.mapSpansAll_id (ss : List Stmt) : Stmt.mapSpansAll id ss = ss := by
  match ss with
  | [] => rfl
  | s :: ss => rw [Stmt.mapSpansAll, Stmt.mapSpans_id s, Stmt.mapSpansAll_id ss]

end

/-! ## One after the other -/

variable {g : Span → Span}

mutual

theorem Expr.mapSpans_mapSpans (e : Expr) : (e.mapSpans f).mapSpans g = e.mapSpans (g ∘ f) := by
  match e with
  | .name .. | .number .. | .string .. => rfl
  | .object s es => simp only [Expr.mapSpans, Entry.mapSpansAll_mapSpansAll, Function.comp]
  | .binary s op l r =>
    simp only [Expr.mapSpans, Expr.mapSpans_mapSpans l, Expr.mapSpans_mapSpans r, Function.comp]
  | .assign s t v =>
    simp only [Expr.mapSpans, Expr.mapSpans_mapSpans t, Expr.mapSpans_mapSpans v, Function.comp]
  | .call s h as =>
    simp only [Expr.mapSpans, Expr.mapSpans_mapSpans h, Expr.mapSpansAll_mapSpansAll as, Function.comp]
  | .member s c o p =>
    simp only [Expr.mapSpans, Expr.mapSpans_mapSpans o, Expr.mapSpans_mapSpans p, Function.comp]

theorem Entry.mapSpans_mapSpans (e : Entry) : (e.mapSpans f).mapSpans g = e.mapSpans (g ∘ f) := by
  match e with
  | .shorthand .. => rfl
  | .pair s k v => simp only [Entry.mapSpans, Expr.mapSpans_mapSpans v, Function.comp]

theorem Entry.mapSpansAll_mapSpansAll (es : List Entry) :
    Entry.mapSpansAll g (Entry.mapSpansAll f es) = Entry.mapSpansAll (g ∘ f) es := by
  match es with
  | [] => rfl
  | e :: es =>
    simp only [Entry.mapSpansAll, Entry.mapSpans_mapSpans e, Entry.mapSpansAll_mapSpansAll es]

theorem Expr.mapSpansAll_mapSpansAll (es : List Expr) :
    Expr.mapSpansAll g (Expr.mapSpansAll f es) = Expr.mapSpansAll (g ∘ f) es := by
  match es with
  | [] => rfl
  | e :: es => simp only [Expr.mapSpansAll, Expr.mapSpans_mapSpans e, Expr.mapSpansAll_mapSpansAll es]

end

mutual

theorem Stmt.mapSpans_mapSpans (s : Stmt) : (s.mapSpans f).mapSpans g = s.mapSpans (g ∘ f) := by
  match s with
  | .declare _ _ _ none => rfl
  | .declare _ _ _ (some e) =>
    simp only [Stmt.mapSpans, Option.map_some, Expr.mapSpans_mapSpans e, Function.comp]
  | .function _ _ _ body => simp only [Stmt.mapSpans, Stmt.mapSpansAll_mapSpansAll body, Function.comp]
  | .expr _ e => simp only [Stmt.mapSpans, Expr.mapSpans_mapSpans e, Function.comp]

theorem Stmt.mapSpansAll_mapSpansAll (ss : List Stmt) :
    Stmt.mapSpansAll g (Stmt.mapSpansAll f ss) = Stmt.mapSpansAll (g ∘ f) ss := by
  match ss with
  | [] => rfl
  | s :: ss => simp only [Stmt.mapSpansAll, Stmt.mapSpans_mapSpans s, Stmt.mapSpansAll_mapSpansAll ss]

end

/-! ## No places -/

def Span.forget (_ : Span) : Span := default

@[simp] theorem Span.forget_eq (s : Span) : s.forget = default := rfl

@[simp] theorem Span.merge_default : (default : Span).merge default = default := rfl

/-- The tree without its places. -/
abbrev Expr.erase (e : Expr) : Expr := e.mapSpans .forget

abbrev Entry.erase (e : Entry) : Entry := e.mapSpans .forget

abbrev Stmt.erase (s : Stmt) : Stmt := s.mapSpans .forget

abbrev Program.erase (p : Program) : Program := p.map Stmt.erase

theorem Program.erase_mapSpans (f : Span → Span) (p : Program) :
    Program.erase (p.map (·.mapSpans f)) = Program.erase p := by
  rw [Program.erase, List.map_map]
  exact List.map_congr_left fun s _ => s.mapSpans_mapSpans

theorem Program.erase_erase (p : Program) : (Program.erase p).map Stmt.erase = Program.erase p :=
  Program.erase_mapSpans .forget p

@[simp] theorem Expr.withSpan_erase (e : Expr) : e.erase.withSpan default = e.erase := by
  cases e <;> simp only [mapSpans, withSpan, Span.forget_eq]

end RavenLang
