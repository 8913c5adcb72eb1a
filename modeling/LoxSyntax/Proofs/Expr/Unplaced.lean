import LoxSyntax.Expr.Printer
import LoxSyntax.Proofs.Expr.Parsing

/-!
# Parsing does not look at places

Where a token says that it is goes into the spans of the nodes and into nothing else.  So tokens without their places
are parsed to the expression without its places, and an expression is printed without looking at them.

* `step_unplaced`: what a token does to an assembly.
* `run_unplaced`: what a run comes to, by induction on the tokens that it takes.
* `tree?_unplaced`, `map_tree?_congr`: what tokens are parsed to.
-/

namespace LoxSyntax

/-- A token without its place. -/
def Token.unplaced (t : Token) : Token := { kind := t.kind, lexeme := t.lexeme, literal := t.literal }

namespace Expr

variable {α : Type}

/-- An expression without the places of its nodes and operators. -/
def unplaced : Expr α → Expr Span
  | literal _ v => .literal Span.nowhere v
  | unary _ op e => .unary Span.nowhere op.unplaced e.unplaced
  | binary _ l op r => .binary Span.nowhere l.unplaced op.unplaced r.unplaced
  | grouping _ e => .grouping Span.nowhere e.unplaced

@[simp]
theorem info_unplaced (e : Expr α) : e.unplaced.info = Span.nowhere := by
  cases e <;> rfl

theorem printingCalls_unplaced (e : Expr α) : e.unplaced.printingCalls = e.printingCalls := by
  induction e with
  | literal i v => cases v <;> rfl
  | unary i op e ih => simp [unplaced, printingCalls, ih]
  | binary i l op r ihl ihr => simp [unplaced, printingCalls, ihl, ihr]
  | grouping i e ih => simp [unplaced, printingCalls, ih]

theorem render_unplaced (e : Expr α) : e.unplaced.render = e.render := by
  induction e with
  | literal i v => rfl
  | unary i op e ih => simp [unplaced, render, Token.unplaced, ih]
  | binary i l op r ihl ihr => simp [unplaced, render, Token.unplaced, ihl, ihr]
  | grouping i e ih => simp [unplaced, render, ih]

theorem printed?_unplaced (limit : Nat) (e : Expr α) : e.unplaced.printed? limit = e.printed? limit := by
  rw [printed?, printed?, printingCalls_unplaced, render_unplaced]

end Expr

/-! ### Assemblies without places -/

/-- A frame without places. -/
def Frame.unplaced : Frame → Frame
  | unary op => .unary op.unplaced
  | binary l op level => .binary l.unplaced op.unplaced level
  | paren opening => .paren opening.unplaced

namespace Assembly

/-- An assembly without places. -/
def unplaced (s : Assembly) : Assembly := ⟨s.pending.map Frame.unplaced, s.operand?.map Expr.unplaced⟩

/-- A step without places. -/
def Step.unplaced : Step → Step
  | shift s => .shift s.unplaced
  | accept e => .accept e.unplaced
  | reject why => .reject why

/-- A verdict without places. -/
def Verdict.unplaced : Verdict → Verdict
  | accepted e => .accepted e.unplaced
  | rejected t why => .rejected t.unplaced why
  | exhausted => .exhausted

theorem makeUnary_unplaced (op : Token) (e : Expr Span) :
    makeUnary op.unplaced e.unplaced = (makeUnary op e).unplaced := by
  simp [makeUnary, Expr.unplaced, Token.unplaced, Span.join_self]

theorem makeBinary_unplaced (l : Expr Span) (op : Token) (r : Expr Span) :
    makeBinary l.unplaced op.unplaced r.unplaced = (makeBinary l op r).unplaced := by
  simp [makeBinary, Expr.unplaced, Span.join_self]

theorem makeGrouping_unplaced (opening : Token) (e : Expr Span) (closing : Token) :
    makeGrouping opening.unplaced e.unplaced closing.unplaced = (makeGrouping opening e closing).unplaced := by
  simp [makeGrouping, Expr.unplaced, Token.unplaced, Span.join_self]

theorem close_unplaced (level : Nat) (fs : List Frame) (e : Expr Span) :
    close level (fs.map Frame.unplaced) e.unplaced
      = ((close level fs e).1.map Frame.unplaced, (close level fs e).2.unplaced) := by
  induction fs generalizing e with
  | nil => rfl
  | cons f fs ih =>
    cases f with
    | unary op =>
      rw [List.map_cons, Frame.unplaced, close, close, makeUnary_unplaced, ih]
      split <;> rfl
    | binary l op m =>
      rw [List.map_cons, Frame.unplaced, close, close, makeBinary_unplaced, ih]
      split <;> rfl
    | paren opening => rfl

theorem floor_unplaced (base : Nat) (fs : List Frame) : floor base (fs.map Frame.unplaced) = floor base fs := by
  induction fs with
  | nil => rfl
  | cons f fs ih => cases f <;> first | rfl | exact ih

theorem depth_unplaced (fs : List Frame) : depth (fs.map Frame.unplaced) = depth fs := by
  induction fs with
  | nil => rfl
  | cons f fs ih =>
    cases f with
    | unary op => exact congrArg (· + 1) ih
    | binary l op m => exact ih
    | paren opening => exact congrArg (· + 11) ih

theorem stepOperand_unplaced (limit base : Nat) (fs : List Frame) (t : Token) :
    stepOperand limit base (fs.map Frame.unplaced) t.unplaced = (stepOperand limit base fs t).unplaced := by
  have hempty : (fs.map Frame.unplaced).isEmpty = fs.isEmpty := List.isEmpty_map
  have hvalue : t.unplaced.value? = t.value? := rfl
  have hkind : t.unplaced.kind = t.kind := rfl
  rw [stepOperand, stepOperand, depth_unplaced, hempty, hvalue, hkind]
  split
  · split <;> rfl
  split
  · rfl
  split
  · rfl
  split <;> rfl

theorem stepClosing_unplaced (fs : List Frame) (e : Expr Span) (t : Token) :
    stepClosing (fs.map Frame.unplaced) e.unplaced t.unplaced = (stepClosing fs e t).unplaced := by
  have hkind : t.unplaced.kind = t.kind := rfl
  rw [stepClosing, stepClosing, close_unplaced, hkind]
  rcases close 0 fs e with ⟨_ | ⟨_ | _ | opening, fs'⟩, e'⟩
  · rfl
  · rfl
  · rfl
  · show (if _ then _ else _) = Step.unplaced (if _ then _ else _)
    rw [makeGrouping_unplaced]
    split <;> rfl

theorem stepOperator_unplaced (base : Nat) (fs : List Frame) (e : Expr Span) (t : Token) :
    stepOperator base (fs.map Frame.unplaced) e.unplaced t.unplaced = (stepOperator base fs e t).unplaced := by
  have hkind : t.unplaced.kind = t.kind := rfl
  rw [stepOperator, stepOperator, hkind, stepClosing_unplaced]
  split
  · rw [close_unplaced]
    dsimp only
    rw [floor_unplaced, close_unplaced]
    split <;> rfl
  · rfl

/-- A token without its place does to an assembly without places what the token does to the assembly. -/
theorem step_unplaced (limit base : Nat) (s : Assembly) (t : Token) :
    s.unplaced.step limit base t.unplaced = (s.step limit base t).unplaced := by
  obtain ⟨fs, _ | e⟩ := s
  · exact stepOperand_unplaced limit base fs t
  · exact stepOperator_unplaced base fs e t

theorem run_unplaced (limit : Nat) (s : Assembly) (ts : List Token) :
    run limit loosestLevel s.unplaced (ts.map Token.unplaced)
      = ((run limit loosestLevel s ts).1.unplaced, (run limit loosestLevel s ts).2.map Token.unplaced) := by
  induction ts generalizing s with
  | nil =>
    rw [List.map_nil, run, run, settled?_loosestLevel, settled?_loosestLevel]
    rfl
  | cons t ts ih =>
    rw [List.map_cons, run, run, settled?_loosestLevel, settled?_loosestLevel]
    dsimp only
    rw [step_unplaced]
    cases s.step limit loosestLevel t with
    | shift s' => exact ih s'
    | accept e => rfl
    | reject why => rfl

/-- The expression that is accepted where the input ends. -/
def whole? : Verdict × List Token → Option (Expr Span)
  | (.accepted e, t :: _) => if t.isEnd then some e else none
  | _ => none

theorem whole?_unplaced (v : Verdict) (ts : List Token) :
    whole? (v.unplaced, ts.map Token.unplaced) = (whole? (v, ts)).map Expr.unplaced := by
  cases v with
  | accepted e =>
    cases ts with
    | nil => rfl
    | cons t ts =>
      have hend : t.unplaced.isEnd = t.isEnd := rfl
      rw [List.map_cons, Verdict.unplaced, whole?, whole?, hend]
      split <;> rfl
  | rejected t why => rfl
  | exhausted => rfl

end Assembly

namespace ExprReader

theorem terminated_unplaced (tokens : List Token) :
    terminated (tokens.map Token.unplaced) = (terminated tokens).map Token.unplaced := by
  rw [terminated, terminated, List.getLast?_map]
  cases tokens.getLast? with
  | none => rfl
  | some t =>
    have hend : t.unplaced.isEnd = t.isEnd := rfl
    dsimp only [Option.map_some]
    rw [hend]
    split
    · rfl
    · rw [List.map_append]
      rfl

theorem tree?_eq_whole? (limit : Nat) (program : String) (tokens : List Token) :
    (Parsed.ofTokens limit program tokens).tree? =
      Assembly.whole? (Assembly.run limit loosestLevel {} (terminated tokens)) := by
  obtain ⟨p, t, s, hs, h⟩ := exists_stops limit tokens
  obtain ⟨q, hq⟩ := hs.split
  rw [hq, Assembly.run_shiftAll? hs.taken, Parsed.ofTokens]
  rcases h with ⟨e, ha⟩ | ⟨why, hr⟩
  · obtain ⟨r', -, -, hp⟩ := parse_of_accept hs ha { program := program }
    rw [hp, Assembly.run_of_accept ha, Assembly.whole?]
    cases t.isEnd <;> rfl
  · obtain ⟨r', -, -, hp⟩ := parse_of_reject hs hr { program := program }
    rw [hp, Assembly.run_of_reject hr]
    rfl

/-- Tokens without their places are parsed to the expression without its places. -/
theorem tree?_unplaced (limit : Nat) (program : String) (tokens : List Token) :
    (Parsed.ofTokens limit program (tokens.map Token.unplaced)).tree?
      = (Parsed.ofTokens limit program tokens).tree?.map Expr.unplaced := by
  have hrun := Assembly.run_unplaced limit {} (terminated tokens)
  rw [tree?_eq_whole?, tree?_eq_whole?, terminated_unplaced, ← Assembly.whole?_unplaced]
  exact congrArg Assembly.whole? hrun

/-- Tokens that differ in their places are parsed to expressions that differ in their places. -/
theorem tree?_congr {tokens tokens' : List Token} (h : tokens.map Token.unplaced = tokens'.map Token.unplaced)
    (limit : Nat) (program program' : String) :
    (Parsed.ofTokens limit program tokens).tree?.map Expr.unplaced
      = (Parsed.ofTokens limit program' tokens').tree?.map Expr.unplaced := by
  rw [← tree?_unplaced, ← tree?_unplaced, h, tree?_eq_whole?, tree?_eq_whole?]

/-- What does not look at places is the same of both expressions. -/
theorem map_tree?_congr {β : Type} {f : Expr Span → β} (hf : ∀ e : Expr Span, f e.unplaced = f e)
    {tokens tokens' : List Token} (h : tokens.map Token.unplaced = tokens'.map Token.unplaced)
    (limit : Nat) (program program' : String) :
    (Parsed.ofTokens limit program tokens).tree?.map f = (Parsed.ofTokens limit program' tokens').tree?.map f := by
  have hcomp : f ∘ Expr.unplaced = f := funext hf
  have key := congrArg (Option.map f) (tree?_congr h limit program program')
  rwa [Option.map_map, Option.map_map, hcomp] at key

end ExprReader

end LoxSyntax
