import LoxSyntax.Proofs.Decimal.Layout
import LoxSyntax.Proofs.Expr.Unplaced
import LoxSyntax.Proofs.Token.Placement

/-!
# The printed text determines the expression

A printed literal holds no blank and no parenthesis, and every other expression begins with a parenthesis and a word.
What follows an operand is a blank or a closing parenthesis, and it tells whether the operator has one operand or two.
So from the text of an expression and of anything that may follow it the expression is read off.  This fails for string
literals, whose texts are printed as they are.

* `Literal.eq_of_display_eq`: the printed texts of literals are different.
* `Expr.unplaced_eq_of_render_append`: an expression is read off a text that goes on, by induction on the expression.
* `Expr.isPlain_of_spells`: the operators of a program are written as their symbols.
* `printed_determines`: the printed text of a program determines its expression up to places.
-/

namespace LoxSyntax

/-! ### Words -/

/-- Two texts that go on with a character of neither of them are read off. -/
private theorem append_cons_inj {x y z w : List Char} {c d : Char} (hx : d ∉ x) (hy : c ∉ y)
    (h : x ++ c :: z = y ++ d :: w) : x = y ∧ c = d ∧ z = w := by
  induction x generalizing y with
  | nil =>
    cases y with
    | nil =>
      obtain ⟨hcd, hzw⟩ := List.cons.inj h
      exact ⟨rfl, hcd, hzw⟩
    | cons b y => exact absurd ((List.cons.inj h).1 ▸ List.mem_cons_self) hy
  | cons a x ih =>
    cases y with
    | nil => exact absurd ((List.cons.inj h).1 ▸ List.mem_cons_self) hx
    | cons b y =>
      obtain ⟨rfl, htail⟩ := List.cons.inj h
      obtain ⟨rfl, hcd, hzw⟩ := ih (List.not_mem_of_not_mem_cons hx) (List.not_mem_of_not_mem_cons hy) htail
      exact ⟨rfl, hcd, hzw⟩

namespace Literal

/-- A literal that is no string. -/
def TextFree : Literal → Prop
  | text _ => False
  | _ => True

instance : (v : Literal) → Decidable v.TextFree
  | null | bool _ | number _ => .isTrue trivial
  | text _ => .isFalse id

/-- A printed literal holds no blank and no parenthesis. -/
theorem notMem_display {v : Literal} (h : v.TextFree) {c : Char} (hc : c ∈ [' ', '(', ')']) : c ∉ v.display.toList := by
  have hword {t : List Char} (ht : [' ', '(', ')'].all (fun c => !t.contains c) = true) : c ∉ t := by
    have hnot := List.all_eq_true.1 ht c hc
    simpa using hnot
  cases v with
  | null => exact hword (by decide)
  | bool b => cases b <;> exact hword (by decide)
  | number x =>
    intro hm
    rw [display, Decimal.showFloat, String.toList_ofList] at hm
    have hin := Decimal.inNumber_of_mem_float x c hm
    have hout : [' ', '(', ')'].all (fun c => !Decimal.inNumber c) = true := by decide
    have hnot := List.all_eq_true.1 hout c hc
    rw [hin] at hnot
    cases hnot
  | text s => exact h.elim

/-- A number is printed as no word. -/
private theorem showFloat_ne {x : Float} {s : String} {c : Char} (hc : c ∈ s.toList)
    (hout : Decimal.inNumber c = false) : Decimal.showFloat x ≠ s := by
  rintro rfl
  rw [Decimal.showFloat, String.toList_ofList] at hc
  rw [Decimal.inNumber_of_mem_float x c hc] at hout
  cases hout

private theorem showFloat_ne_null (x : Float) : Decimal.showFloat x ≠ "null" :=
  showFloat_ne (c := 'u') (by decide) (by decide)

private theorem showFloat_ne_bool (x : Float) (b : Bool) : Decimal.showFloat x ≠ if b then "true" else "false" := by
  cases b with
  | true => exact showFloat_ne (c := 't') (by decide) (by decide)
  | false => exact showFloat_ne (c := 's') (by decide) (by decide)

/-- The printed texts of literals are different. -/
theorem eq_of_display_eq {v w : Literal} (hv : v.TextFree) (hw : w.TextFree) (h : v.display = w.display) : v = w := by
  cases v with
  | null =>
    cases w with
    | null => rfl
    | bool b => cases b <;> exact absurd h (by decide)
    | number x => exact absurd h.symm (showFloat_ne_null x)
    | text s => exact hw.elim
  | bool b =>
    cases w with
    | null => cases b <;> exact absurd h (by decide)
    | bool b' => cases b <;> cases b' <;> first | rfl | exact absurd h (by decide)
    | number x => exact absurd h.symm (showFloat_ne_bool x b)
    | text s => exact hw.elim
  | number x =>
    cases w with
    | null => exact absurd h (showFloat_ne_null x)
    | bool b => exact absurd h (showFloat_ne_bool x b)
    | number y => rw [Decimal.showFloat_injective h]
    | text s => exact hw.elim
  | text s => exact hv.elim

end Literal

/-- A token that is written as the symbol of its kind. -/
structure Token.IsSymbol (t : Token) : Prop where
  lexeme : t.lexeme = t.kind.symbol
  literal : t.literal = .null

namespace Token.IsSymbol

theorem notMem {t : Token} (h : t.IsSymbol) : ' ' ∉ t.lexeme.toList := by
  rw [h.lexeme]
  cases t.kind <;> decide

theorem ne_group {t : Token} (h : t.IsSymbol) : t.lexeme ≠ "group" := by
  rw [h.lexeme]
  cases t.kind <;> decide

theorem unplaced_eq {s t : Token} (hs : s.IsSymbol) (ht : t.IsSymbol) (h : s.lexeme = t.lexeme) :
    s.unplaced = t.unplaced := by
  have hkind : s.kind = t.kind := by
    have hsymbol : s.kind.symbol = t.kind.symbol := by rw [← hs.lexeme, ← ht.lexeme, h]
    have hof := Kind.ofSymbol?_symbol s.kind
    rw [hsymbol, Kind.ofSymbol?_symbol, Option.some.injEq] at hof
    exact hof.symm
  rw [unplaced, unplaced, h, hkind, hs.literal, ht.literal]

end Token.IsSymbol

namespace Expr

variable {α β : Type}

/-! ### Reading off an expression -/

/-- An expression without string literals. -/
def TextFree : Expr α → Prop
  | literal _ v => v.TextFree
  | unary _ _ e => e.TextFree
  | binary _ l _ r => l.TextFree ∧ r.TextFree
  | grouping _ e => e.TextFree

instance decidableTextFree : (e : Expr α) → Decidable e.TextFree
  | literal _ v => inferInstanceAs (Decidable v.TextFree)
  | unary _ _ e => decidableTextFree e
  | binary _ l _ r => @instDecidableAnd _ _ (decidableTextFree l) (decidableTextFree r)
  | grouping _ e => decidableTextFree e

/-- An expression without string literals whose operators are written as their symbols. -/
def IsPlain : Expr α → Prop
  | literal _ v => v.TextFree
  | unary _ op e => op.IsSymbol ∧ e.IsPlain
  | binary _ l op r => l.IsPlain ∧ op.IsSymbol ∧ r.IsPlain
  | grouping _ e => e.IsPlain

theorem render_unary_append (i : α) (op : Token) (e : Expr α) (t : List Char) :
    (unary i op e).render.toList ++ t = '(' :: (op.lexeme.toList ++ ' ' :: (e.render.toList ++ ')' :: t)) := by
  simp [render, String.toList_append]

theorem render_binary_append (i : α) (l : Expr α) (op : Token) (r : Expr α) (t : List Char) :
    (binary i l op r).render.toList ++ t
      = '(' :: (op.lexeme.toList ++ ' ' :: (l.render.toList ++ ' ' :: (r.render.toList ++ ')' :: t))) := by
  simp [render, String.toList_append]

theorem render_grouping_append (i : α) (e : Expr α) (t : List Char) :
    (grouping i e).render.toList ++ t = '(' :: ("group".toList ++ ' ' :: (e.render.toList ++ ')' :: t)) := by
  simp [render, String.toList_append]

/-- A literal is no expression in parentheses. -/
private theorem display_append_ne {v : Literal} (hv : v.TextFree) {c : Char} (hc : c ∈ [' ', ')']) (t u : List Char) :
    v.display.toList ++ c :: t ≠ '(' :: u := by
  have hopening := Literal.notMem_display hv (c := '(') (by decide)
  intro h
  cases hd : v.display.toList with
  | nil =>
    rw [hd, List.nil_append, List.cons.injEq] at h
    rw [h.1] at hc
    revert hc
    decide
  | cons d ds =>
    rw [hd, List.cons_append, List.cons.injEq] at h
    rw [hd, h.1] at hopening
    exact hopening List.mem_cons_self

/-- The word after a parenthesis is read off. -/
private theorem word_inj {w w' : String} {t t' : List Char} (hw : ' ' ∉ w.toList) (hw' : ' ' ∉ w'.toList)
    (h : '(' :: (w.toList ++ ' ' :: t) = '(' :: (w'.toList ++ ' ' :: t')) : w = w' ∧ t = t' := by
  obtain ⟨hword, -, ht⟩ := append_cons_inj hw hw' (List.cons.inj h).2
  exact ⟨String.toList_inj.1 hword, ht⟩

/-- An expression is read off a text that goes on with a blank or a closing parenthesis. -/
theorem unplaced_eq_of_render_append {e : Expr α} {f : Expr β} (he : e.IsPlain) (hf : f.IsPlain) {c d : Char}
    (hc : c ∈ [' ', ')']) (hd : d ∈ [' ', ')']) {t u : List Char}
    (h : e.render.toList ++ c :: t = f.render.toList ++ d :: u) : e.unplaced = f.unplaced ∧ c = d ∧ t = u := by
  have hblank : ' ' ∈ [' ', ')'] := by decide
  have hclosing : ')' ∈ [' ', ')'] := by decide
  have hgroup : ' ' ∉ "group".toList := by decide
  induction e generalizing f c d t u with
  | literal i v =>
    cases f with
    | literal j w =>
      have hdelimiter : [' ', ')'] ⊆ [' ', '(', ')'] := List.cons_subset_cons _ (List.subset_cons_self _ _)
      have hv := Literal.notMem_display he (hdelimiter hd)
      have hw := Literal.notMem_display hf (hdelimiter hc)
      obtain ⟨hvalue, hcd, htu⟩ := append_cons_inj hv hw h
      have hvw := Literal.eq_of_display_eq he hf (String.toList_inj.1 hvalue)
      exact ⟨congrArg (Expr.literal Span.nowhere) hvw, hcd, htu⟩
    | unary j op e =>
      rw [render_unary_append] at h
      exact absurd h (display_append_ne he hc _ _)
    | binary j l op r =>
      rw [render_binary_append] at h
      exact absurd h (display_append_ne he hc _ _)
    | grouping j e =>
      rw [render_grouping_append] at h
      exact absurd h (display_append_ne he hc _ _)
  | unary i op e ih =>
    rw [render_unary_append] at h
    cases f with
    | literal j w => exact absurd h.symm (display_append_ne hf hd _ _)
    | unary j op' e' =>
      rw [render_unary_append] at h
      obtain ⟨hop, h⟩ := word_inj he.1.notMem hf.1.notMem h
      obtain ⟨hee, -, h⟩ := ih he.2 hf.2 hclosing hclosing h
      rw [List.cons.injEq] at h
      exact ⟨by rw [unplaced, unplaced, he.1.unplaced_eq hf.1 hop, hee], h⟩
    | binary j l op' r =>
      -- one operand is followed by a parenthesis, and the first of two by a blank
      rw [render_binary_append] at h
      obtain ⟨-, h⟩ := word_inj he.1.notMem hf.2.1.notMem h
      obtain ⟨-, hne, -⟩ := ih he.2 hf.1 hclosing hblank h
      exact absurd hne (by decide)
    | grouping j e' =>
      rw [render_grouping_append] at h
      exact absurd (word_inj he.1.notMem hgroup h).1 he.1.ne_group
  | binary i l op r ihl ihr =>
    rw [render_binary_append] at h
    cases f with
    | literal j w => exact absurd h.symm (display_append_ne hf hd _ _)
    | unary j op' e' =>
      rw [render_unary_append] at h
      obtain ⟨-, h⟩ := word_inj he.2.1.notMem hf.1.notMem h
      obtain ⟨-, hne, -⟩ := ihl he.1 hf.2 hblank hclosing h
      exact absurd hne (by decide)
    | binary j l' op' r' =>
      rw [render_binary_append] at h
      obtain ⟨hop, h⟩ := word_inj he.2.1.notMem hf.2.1.notMem h
      obtain ⟨hll, -, h⟩ := ihl he.1 hf.1 hblank hblank h
      obtain ⟨hrr, -, h⟩ := ihr he.2.2 hf.2.2 hclosing hclosing h
      rw [List.cons.injEq] at h
      exact ⟨by rw [unplaced, unplaced, he.2.1.unplaced_eq hf.2.1 hop, hll, hrr], h⟩
    | grouping j e' =>
      rw [render_grouping_append] at h
      exact absurd (word_inj he.2.1.notMem hgroup h).1 he.2.1.ne_group
  | grouping i e ih =>
    rw [render_grouping_append] at h
    cases f with
    | literal j w => exact absurd h.symm (display_append_ne hf hd _ _)
    | unary j op' e' =>
      rw [render_unary_append] at h
      exact absurd (word_inj hgroup hf.1.notMem h).1.symm hf.1.ne_group
    | binary j l op' r =>
      rw [render_binary_append] at h
      exact absurd (word_inj hgroup hf.2.1.notMem h).1.symm hf.2.1.ne_group
    | grouping j e' =>
      rw [render_grouping_append] at h
      obtain ⟨-, h⟩ := word_inj hgroup hgroup h
      obtain ⟨hee, -, h⟩ := ih he (f := e') hf hclosing hclosing h
      rw [List.cons.injEq] at h
      exact ⟨by rw [unplaced, unplaced, hee], h⟩

theorem unplaced_eq_of_render_eq {e : Expr α} {f : Expr β} (he : e.IsPlain) (hf : f.IsPlain)
    (h : e.render = f.render) : e.unplaced = f.unplaced := by
  have hclosing : ')' ∈ [' ', ')'] := by decide
  have happend : e.render.toList ++ [')'] = f.render.toList ++ [')'] := by rw [h]
  exact (unplaced_eq_of_render_append he hf hclosing hclosing happend).1

end Expr

/-! ### Programs -/

/-- A token of a program that is an operator of an expression is written as its symbol. -/
theorem Segment.First.isSymbol {t : List Char} {g : Segment} (h : First t g) {span : Span} {token : Token}
    (ht : g.token? span = some token) (hk : token.kind ∈ Kind.exprOperators) : token.IsSymbol := by
  have hnot : ∀ k ∈ Kind.exprOperators, k ∉ Kind.number :: .string :: .identifier :: .or :: Kind.words := by decide
  have hkind := hnot _ hk
  rw [List.mem_cons, List.mem_cons, not_or, not_or] at hkind
  cases h with
  | longest h =>
    obtain ⟨rest, -, hw⟩ := h
    cases hw with
    | operator =>
      cases ht
      exact ⟨String.ofList_toList, rfl⟩
    | whole hd =>
      cases ht
      exact absurd rfl hkind.1
    | decimal hd hf =>
      cases ht
      exact absurd rfl hkind.1
    | word hc hw =>
      cases ht
      exact absurd rfl (wordKind_ne hkind.2.2 _)
    | string hq hv =>
      cases ht
      exact absurd rfl hkind.2.1
    | _ => cases ht
  | unterminated => cases ht
  | unexpected => cases ht

theorem isSymbol_of_mem {program : String} {t : Token} (h : t ∈ ExprReader.body (Lexed.ofProgram program).tokens)
    (hk : t.kind ∈ Kind.exprOperators) : t.IsSymbol := by
  have hend := ExprReader.isEnd_of_mem_body h
  have hmem := (List.takeWhile_sublist _).subset h
  rw [lexed_tokens] at hmem
  rcases List.mem_append.1 hmem with hmem | hmem
  · obtain ⟨p, hp, htoken⟩ := List.mem_filterMap.1 hmem
    exact (Located.first_of_mem_ofProgram hp).isSymbol htoken hk
  · rw [List.mem_singleton.1 hmem] at hend
    cases hend

/-- The operators of an expression are among its tokens. -/
theorem Expr.isPlain_of_spells {α : Type} {e : Expr α} {n : Nat} {w : List Token} (hn : e.HasLevel n) (hw : e.Spells w)
    (hfree : e.TextFree) (hsymbol : ∀ t ∈ w, t.kind ∈ Kind.exprOperators → t.IsSymbol) : e.IsPlain := by
  induction hn generalizing w with
  | literal i v => exact hfree
  | unary i hop _ _ ih =>
    cases hw with
    | unary _ op he =>
      rw [List.forall_mem_cons] at hsymbol
      exact ⟨hsymbol.1 (Kind.prefix_mem_exprOperators hop), ih he hfree hsymbol.2⟩
  | binary i hop _ _ _ _ ihl ihr =>
    cases hw with
    | binary _ op hl hr =>
      rw [List.forall_mem_append, List.forall_mem_cons] at hsymbol
      exact ⟨ihl hl hfree.1 hsymbol.1, hsymbol.2.1 (Kind.mem_exprOperators hop), ihr hr hfree.2 hsymbol.2.2⟩
  | grouping i _ ih =>
    cases hw with
    | grouping _ _ _ he =>
      rw [List.forall_mem_append, List.forall_mem_cons] at hsymbol
      exact ih he hfree hsymbol.1.2

theorem isPlain_of_tree? {limit : Nat} {program : String} {e : Expr Span}
    (h : (Parsed.ofProgram limit program).tree? = some e) (hfree : e.TextFree) : e.IsPlain := by
  obtain ⟨r', hp⟩ := ExprReader.parse_of_tree? h
  obtain ⟨⟨n, hn⟩, hw⟩ := ExprReader.spells_of_parse hp
  exact Expr.isPlain_of_spells hn hw hfree fun t ht => isSymbol_of_mem ht

/-- Expressions of programs without string literals that are printed as the same text have the same shape, the same
operators and the same literals. -/
theorem printed_determines {limit printing : Nat} {p q : String} {e f : Expr Span}
    (he : (Parsed.ofProgram limit p).tree? = some e) (hf : (Parsed.ofProgram limit q).tree? = some f)
    (hefree : e.TextFree) (hffree : f.TextFree) {s : String} (hes : e.printed? printing = some s)
    (hfs : f.printed? printing = some s) : e.unplaced = f.unplaced := by
  obtain ⟨-, hetext⟩ := Expr.printed?_eq_some_iff.1 hes
  obtain ⟨-, hftext⟩ := Expr.printed?_eq_some_iff.1 hfs
  have hrender : e.render = f.render := hetext.trans hftext.symm
  exact Expr.unplaced_eq_of_render_eq (isPlain_of_tree? he hefree) (isPlain_of_tree? hf hffree) hrender

/-- Blanks, comments and zeros at the end of a number are not printed. -/
theorem printed_determines_zeros :
    let p := "1.50 - -2"
    let q := "1.5 // half\n - - 2.0"
    ∃ e f, (Parsed.ofProgram 100 p).tree? = some e ∧ (Parsed.ofProgram 100 q).tree? = some f ∧
      e.printed? 100 = some "(- 1.5 (- 2.0))" ∧ e.unplaced = f.unplaced := by
  intro p q
  let shown (e : Expr Span) : Bool := decide (e.TextFree ∧ e.printed? 100 = some "(- 1.5 (- 2.0))")
  have hp : (Parsed.ofProgram 100 p).tree?.any shown = true := by decide +kernel
  have hq : (Parsed.ofProgram 100 q).tree?.any shown = true := by decide +kernel
  obtain ⟨e, he, hshown⟩ := (Option.any_eq_true _ _).1 hp
  obtain ⟨f, hf, hshown'⟩ := (Option.any_eq_true _ _).1 hq
  obtain ⟨hefree, hes⟩ := of_decide_eq_true hshown
  obtain ⟨hffree, hfs⟩ := of_decide_eq_true hshown'
  exact ⟨e, f, he, hf, hes, printed_determines he hf hefree hffree hes hfs⟩

end LoxSyntax
