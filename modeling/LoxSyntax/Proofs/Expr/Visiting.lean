import Mathlib
import LoxSyntax.Expr.Traversal
import LoxSyntax.Proofs.Expr.Extent
import LoxSyntax.Proofs.Token.Gaps

/-!
# What a traversal visits

A traversal starts at the root and goes from every node to what stands directly below it.  A path of indices says how to
get to a place in an expression, and the order of the paths is the one in which the places are met.  A record is made at
each place whose class has a handler, unless a handler above it stops, and its level is the number of handlers above it
that go on.  Calls are nested on the way down to a place, and a traversal does not come back when they are too many.

* `Thing.visit?_eq`, `Thing.occurrences_eq`: both walks, one step at a time.
* `Thing.mem_occurrences_iff`, `Thing.occurrences_pairwise`: every place occurs once, and in order.
* `Thing.visit?_eq_some_iff`: a traversal comes back if it fits into its limit, and then it has recorded the places that
  it meets, by induction on what stands below.
* `Thing.fits_of_height`: how high a thing can be to fit into a limit.
* `visit_exact`: this, and what a traversal records of the tokens of a program.
-/

namespace LoxSyntax

namespace Expr

variable {α : Type}

/-! ### Places -/

/-- What a traversal meets: a node with all that is below it, or an operator. -/
inductive Thing (α : Type) where
  | node (e : Expr α)
  | operator (op : Token)

/-- A place in a thing: the path to it, the things above it from the outermost on, and what is there. -/
structure Occurrence (α : Type) where
  path : List Nat
  above : List (Thing α)
  thing : Thing α

/-- The same place in a thing that stands directly below `x` in position `i`. -/
def Occurrence.under (x : Thing α) (i : Nat) (o : Occurrence α) : Occurrence α := ⟨i :: o.path, x :: o.above, o.thing⟩

namespace Thing

/-- The class of a thing. -/
def kind : Thing α → Class
  | node (.literal _ _) => .literal
  | node (.unary _ _ _) => .unary
  | node (.binary _ _ _ _) => .binary
  | node (.grouping _ _) => .grouping
  | operator _ => .operator

/-- The text of a thing in a record. -/
def label : Thing α → String
  | node (.literal _ v) => v.display
  | node (.unary _ op _) => op.lexeme
  | node (.binary _ _ op _) => op.lexeme
  | node (.grouping _ _) => ""
  | operator op => op.lexeme

/-- What stands directly below a thing, from left to right. -/
def below : Thing α → List (Thing α)
  | node (.literal _ _) => []
  | node (.unary _ op e) => [operator op, node e]
  | node (.binary _ l op r) => [node l, operator op, node r]
  | node (.grouping _ e) => [node e]
  | operator _ => []

/-- A path leads from a thing down to another one, past the things above that. -/
inductive Leads : Thing α → List Nat → (above : List (Thing α)) → Thing α → Prop
  | here (x : Thing α) : Leads x [] [] x
  | down {x y z : Thing α} {i : Nat} {p : List Nat} {above : List (Thing α)} (hi : x.below[i]? = some y)
      (h : Leads y p above z) : Leads x (i :: p) (x :: above) z

/-- What holds of a thing if it holds of all that stands directly below, holds of all things. -/
theorem induction {P : Thing α → Prop} (step : ∀ x, (∀ y ∈ x.below, P y) → P x) (x : Thing α) : P x := by
  have operator (op : Token) : P (.operator op) := step _ (by simp [below])
  cases x with
  | operator op => exact operator op
  | node e =>
    induction e with
    | literal i v => exact step _ (by simp [below])
    | unary i op e ih => exact step _ (by simp [below, operator, ih])
    | binary i l op r ihl ihr => exact step _ (by simp [below, operator, ihl, ihr])
    | grouping i e ih => exact step _ (by simp [below, ih])

end Thing

/-- The places in an expression: each node comes before what is below it, and this comes from left to right. -/
def occurrences : Expr α → List (Occurrence α)
  | .literal i v => [⟨[], [], .node (.literal i v)⟩]
  | .unary i op e =>
    let x : Thing α := .node (.unary i op e)
    ⟨[], [], x⟩ :: ⟨[0], [x], .operator op⟩ :: e.occurrences.map (Occurrence.under x 1)
  | .binary i l op r =>
    let x : Thing α := .node (.binary i l op r)
    ⟨[], [], x⟩ :: (l.occurrences.map (Occurrence.under x 0)
      ++ ⟨[1], [x], .operator op⟩ :: r.occurrences.map (Occurrence.under x 2))
  | .grouping i e =>
    let x : Thing α := .node (.grouping i e)
    ⟨[], [], x⟩ :: e.occurrences.map (Occurrence.under x 0)

namespace Thing

/-- The places in a thing. -/
def occurrences : Thing α → List (Occurrence α)
  | node e => e.occurrences
  | operator op => [⟨[], [], .operator op⟩]

/-- How many calls are nested while the fields of a thing are listed. -/
def fields : Thing α → Nat
  | node _ => fieldCalls
  | operator _ => 0

/-- The visits of a thing, which is met at a level. -/
def visit? (h : Handlers) (limit depth : Nat) : Thing α → Option (List Visit)
  | node e => visitFrom? h e limit depth
  | operator op => visitOperator? h limit depth op

theorem visit?_eq (h : Handlers) (limit depth : Nat) (x : Thing α) :
    x.visit? h limit depth = handle? h limit x.kind x.label depth x.fields fun limit d =>
      (x.below.mapM (visit? h limit d)).map List.flatten := by
  cases x with
  | operator op => rfl
  | node e =>
    cases e <;> simp [visit?, visitFrom?, kind, label, fields, below, List.mapM_cons, Option.map_bind,
      Option.bind_assoc]

theorem occurrences_eq (x : Thing α) :
    x.occurrences = ⟨[], [], x⟩ :: x.below.zipIdx.flatMap fun y => y.1.occurrences.map (Occurrence.under x y.2) := by
  cases x with
  | operator op => rfl
  | node e => cases e <;> simp [occurrences, Expr.occurrences, below, Occurrence.under]

theorem mem_occurrences_iff {x : Thing α} {o : Occurrence α} :
    o ∈ x.occurrences ↔ Leads x o.path o.above o.thing := by
  induction x using Thing.induction generalizing o with
  | step x ih =>
    rw [occurrences_eq, List.mem_cons, List.mem_flatMap]
    constructor
    · rintro (rfl | ⟨⟨y, i⟩, hy, ho⟩)
      · exact .here x
      · obtain ⟨o', ho', rfl⟩ := List.mem_map.1 ho
        have hi := List.mem_zipIdx_iff_getElem?.1 hy
        exact .down hi ((ih y (List.mem_of_getElem? hi)).1 ho')
    · intro h
      obtain ⟨path, above, thing⟩ := o
      cases h with
      | here => exact Or.inl rfl
      | @down _ y _ i p above hi h =>
        have ho := (ih y (List.mem_of_getElem? hi) (o := ⟨p, above, thing⟩)).2 h
        exact Or.inr ⟨(y, i), List.mem_zipIdx_iff_getElem?.2 hi, List.mem_map.2 ⟨_, ho, rfl⟩⟩

private theorem zipIdx_pairwise {β : Type} (l : List β) (n : Nat) : (l.zipIdx n).Pairwise fun a b => a.2 < b.2 := by
  induction l generalizing n with
  | nil => exact .nil
  | cons a l ih =>
    rw [List.zipIdx_cons]
    refine .cons (fun b hb => ?_) (ih (n + 1))
    have := List.le_snd_of_mem_zipIdx hb
    exact this

/-- No place occurs twice, and the paths are in order. -/
theorem occurrences_pairwise (x : Thing α) : x.occurrences.Pairwise fun o o' => o.path < o'.path := by
  induction x using Thing.induction with
  | step x ih =>
    rw [occurrences_eq]
    refine .cons ?_ (List.pairwise_flatMap.2 ⟨?_, ?_⟩)
    · intro o ho
      obtain ⟨y, -, ho⟩ := List.mem_flatMap.1 ho
      obtain ⟨o, -, rfl⟩ := List.mem_map.1 ho
      exact List.Lex.nil
    · rintro ⟨y, i⟩ hy
      have hmem := List.mem_of_getElem? (List.mem_zipIdx_iff_getElem?.1 hy)
      exact List.pairwise_map.2 ((ih y hmem).imp List.Lex.cons)
    · refine (zipIdx_pairwise x.below 0).imp ?_
      intro a b hab o ho o' ho'
      obtain ⟨o, -, rfl⟩ := List.mem_map.1 ho
      obtain ⟨o', -, rfl⟩ := List.mem_map.1 ho'
      exact List.Lex.rel hab

end Thing

/-! ### Records -/

/-- A place that a traversal gets to: nothing above it stops. -/
def Occurrence.Reached (h : Handlers) (o : Occurrence α) : Prop := ∀ y ∈ o.above, h y.kind ≠ some .stop

/-- A place where a record is made: its class has a handler, and none above it stops. -/
def Occurrence.Met (h : Handlers) (o : Occurrence α) : Prop := h o.thing.kind ≠ none ∧ o.Reached h

instance (h : Handlers) (o : Occurrence α) : Decidable (o.Met h) :=
  inferInstanceAs (Decidable (_ ∧ ∀ _ ∈ _, _))

/-- The record of a place in a thing that is met at a level: every handler above that goes on adds one. -/
def Occurrence.record (h : Handlers) (depth : Nat) (o : Occurrence α) : Visit :=
  ⟨o.thing.kind, o.thing.label, depth + o.above.countP fun y => h y.kind = some .descend⟩

/-- How many calls are nested at a place. -/
def Occurrence.calls (h : Handlers) (o : Occurrence α) : Nat :=
  (o.above.map fun y => callsAround (h y.kind)).sum + callsFor o.thing.fields (h o.thing.kind)

/-- No place that a traversal gets to nests more calls than the limit allows. -/
def Thing.Fits (h : Handlers) (limit : Nat) (x : Thing α) : Prop :=
  ∀ o ∈ x.occurrences, o.Reached h → o.calls h ≤ limit

namespace Occurrence

variable {h : Handlers} {x : Thing α}

theorem reached_under (i : Nat) (o : Occurrence α) : (o.under x i).Reached h ↔ h x.kind ≠ some .stop ∧ o.Reached h := by
  simp only [Reached, under, List.forall_mem_cons]

theorem met_root : (⟨[], [], x⟩ : Occurrence α).Met h ↔ h x.kind ≠ none := by
  simp [Met, Reached]

theorem met_under (i : Nat) (o : Occurrence α) : (o.under x i).Met h ↔ h x.kind ≠ some .stop ∧ o.Met h := by
  rw [Met, reached_under]
  exact and_left_comm

theorem record_root (h : Handlers) (depth : Nat) (x : Thing α) :
    (⟨[], [], x⟩ : Occurrence α).record h depth = ⟨x.kind, x.label, depth⟩ := rfl

theorem record_under (depth i : Nat) (o : Occurrence α) :
    (o.under x i).record h depth = o.record h (if h x.kind = some .descend then depth + 1 else depth) := by
  simp only [record, under, List.countP_cons, decide_eq_true_eq, Visit.mk.injEq, true_and]
  split <;> omega

theorem calls_under (i : Nat) (o : Occurrence α) : (o.under x i).calls h = callsAround (h x.kind) + o.calls h := by
  rw [calls, calls, under, List.map_cons, List.sum_cons, Nat.add_assoc]

end Occurrence

theorem callsAround_le_callsFor (fields : Nat) {handling : Option Handling} (hgo : handling ≠ some .stop) :
    callsAround handling ≤ callsFor fields handling := by
  rcases handling with _ | _ | _
  · exact Nat.le_add_right 2 fields
  · exact absurd rfl hgo
  · exact Nat.le_add_right 3 fields

/-- A traversal of a thing fits if the thing alone does, and so does what is directly below it unless it is passed
by. -/
theorem Thing.fits_iff {h : Handlers} {limit : Nat} {x : Thing α} :
    x.Fits h limit ↔ callsFor x.fields (h x.kind) ≤ limit ∧
      (h x.kind ≠ some .stop → ∀ y ∈ x.below, y.Fits h (limit - callsAround (h x.kind))) := by
  unfold Fits
  rw [occurrences_eq, List.forall_mem_cons]
  have hroot : (Occurrence.Reached h (⟨[], [], x⟩ : Occurrence α) → Occurrence.calls h ⟨[], [], x⟩ ≤ limit)
      ↔ callsFor x.fields (h x.kind) ≤ limit := by
    simp [Occurrence.Reached, Occurrence.calls]
  rw [hroot]
  refine and_congr_right fun hself => ?_
  constructor
  · intro hall hgo y hy o ho hreached
    obtain ⟨i, hi⟩ := List.mem_iff_getElem?.1 hy
    have hmem : o.under x i ∈ x.below.zipIdx.flatMap fun y => y.1.occurrences.map (Occurrence.under x y.2) :=
      List.mem_flatMap.2 ⟨(y, i), List.mem_zipIdx_iff_getElem?.2 hi, List.mem_map_of_mem ho⟩
    have hle := hall _ hmem ((Occurrence.reached_under i o).2 ⟨hgo, hreached⟩)
    rw [Occurrence.calls_under] at hle
    omega
  · intro hbelow o ho hreached
    obtain ⟨⟨y, i⟩, hy, ho⟩ := List.mem_flatMap.1 ho
    obtain ⟨o', ho', rfl⟩ := List.mem_map.1 ho
    obtain ⟨hgo, hreached⟩ := (Occurrence.reached_under i o').1 hreached
    have hle := hbelow hgo y (List.mem_of_getElem? (List.mem_zipIdx_iff_getElem?.1 hy)) o' ho' hreached
    have hself := (callsAround_le_callsFor x.fields hgo).trans hself
    rw [Occurrence.calls_under]
    omega

/-- Lists that may fail, one after the other. -/
private theorem mapM_flatten_eq_some_iff {β γ : Type} {f : β → Option (List γ)} {P : β → Prop} {g : β → List γ}
    {l : List β} (hf : ∀ y ∈ l, ∀ r, f y = some r ↔ P y ∧ r = g y) {records : List γ} :
    (l.mapM f).map List.flatten = some records ↔ (∀ y ∈ l, P y) ∧ records = l.flatMap g := by
  induction l generalizing records with
  | nil => simp [eq_comm]
  | cons y l ih =>
    have ih {records : List γ} := @ih (fun y' hy' => hf y' (List.mem_cons_of_mem y hy')) records
    simp only [Option.map_eq_some_iff] at ih
    simp only [List.mapM_cons, Option.bind_eq_bind, Option.pure_def, Option.map_eq_some_iff,
      Option.bind_eq_some_iff, Option.some.injEq, List.forall_mem_cons, List.flatMap_cons]
    constructor
    · rintro ⟨_, ⟨a, ha, as, has, rfl⟩, rfl⟩
      obtain ⟨hP, rfl⟩ := (hf y List.mem_cons_self a).1 ha
      obtain ⟨hall, hflat⟩ := ih.1 ⟨as, has, rfl⟩
      exact ⟨⟨hP, hall⟩, by rw [List.flatten_cons, hflat]⟩
    · rintro ⟨⟨hP, hall⟩, rfl⟩
      obtain ⟨as, has, hflat⟩ := ih.2 ⟨hall, rfl⟩
      exact ⟨_, ⟨g y, (hf y List.mem_cons_self _).2 ⟨hP, rfl⟩, as, has, rfl⟩, by rw [List.flatten_cons, hflat]⟩

/-- A traversal that fits makes a record at every place that it meets, in the order of the places; any other fails. -/
theorem Thing.visit?_eq_some_iff {h : Handlers} {limit depth : Nat} {x : Thing α} {records : List Visit} :
    x.visit? h limit depth = some records ↔
      x.Fits h limit ∧ records = (x.occurrences.filter fun o => o.Met h).map (Occurrence.record h depth) := by
  induction x using Thing.induction generalizing limit depth records with
  | step x ih =>
    -- the records of what stands directly below, one after the other
    have hbelow (limit d : Nat) {records : List Visit} :
        (x.below.mapM (visit? h limit d)).map List.flatten = some records ↔ (∀ y ∈ x.below, y.Fits h limit) ∧
          records = x.below.zipIdx.flatMap fun y =>
            (y.1.occurrences.filter fun o => o.Met h).map (Occurrence.record h d) := by
      rw [mapM_flatten_eq_some_iff fun y hy r => ih y hy]
      conv => lhs; rw [← List.zipIdx_map_fst 0 x.below, List.flatMap_map, List.zipIdx_map_fst]
    rw [visit?_eq, handle?, fits_iff, occurrences_eq, List.filter_cons, List.filter_flatMap]
    simp only [List.filter_map, Function.comp_def, Occurrence.met_root, Occurrence.met_under]
    by_cases hself : limit < callsFor x.fields (h x.kind)
    · rw [if_pos hself]
      exact ⟨nofun, fun hfits => absurd hfits.1.1 (by omega)⟩
    · rw [if_neg hself]
      have hself : callsFor x.fields (h x.kind) ≤ limit := Nat.le_of_not_lt hself
      cases hk : h x.kind with
      | none =>
        rw [hk] at hself
        simp [hbelow, hself, List.map_flatMap, Function.comp_def, Occurrence.record_under, hk]
      | some handling =>
        rw [hk] at hself
        cases handling with
        | stop => simp [hself, Occurrence.record_root, List.flatMap_eq_nil_iff.2, @eq_comm _ records]
        | descend =>
          show (Option.map _ _).map _ = some records ↔ _
          rw [Option.map_eq_some_iff]
          simp only [hbelow, and_assoc, exists_and_left, exists_eq_left]
          simp [hself, List.map_flatMap, Function.comp_def, Occurrence.record_root, Occurrence.record_under, hk,
            @eq_comm _ records]

/-- The visits of an expression whose traversal comes back. -/
theorem visit?_eq_some_iff {h : Handlers} {limit : Nat} {e : Expr α} {records : List Visit} :
    e.visit? h limit = some records ↔
      (Thing.node e).Fits h limit ∧
        records = ((Thing.node e).occurrences.filter fun o => o.Met h).map (Occurrence.record h 0) :=
  Thing.visit?_eq_some_iff (x := .node e)

theorem visit?_isSome_iff {h : Handlers} {limit : Nat} {e : Expr α} :
    (e.visit? h limit).isSome ↔ (Thing.node e).Fits h limit := by
  simp only [Option.isSome_iff_exists, visit?_eq_some_iff, exists_and_left, exists_eq, and_true]

/-! ### Traversals that fit -/

namespace Thing

/-- How many nodes the longest path down from a thing has. -/
def height : Thing α → Nat
  | node e => e.height
  | operator _ => 0

theorem height_lt_of_mem_below {x y : Thing α} (hy : y ∈ x.below) : y.height < x.height := by
  cases x with
  | operator op => simp [below] at hy
  | node e =>
    cases e <;> simp only [below, List.mem_cons, List.not_mem_nil, or_false] at hy <;>
      rcases hy with rfl | rfl | rfl <;> simp only [height, Expr.height] <;> omega

theorem Leads.length_add_height_le {x y : Thing α} {p : List Nat} {above : List (Thing α)} (h : Leads x p above y) :
    above.length + y.height ≤ x.height := by
  induction h with
  | here x => simp
  | down hi _ ih =>
    have := height_lt_of_mem_below (List.mem_of_getElem? hi)
    rw [List.length_cons]
    omega

private theorem sum_callsAround_le (h : Handlers) (xs : List (Thing α)) :
    (xs.map fun y => callsAround (h y.kind)).sum ≤ 3 * xs.length := by
  induction xs with
  | nil => exact Nat.zero_le _
  | cons y xs ih =>
    have hy : callsAround (h y.kind) ≤ 3 := by
      rcases h y.kind with _ | _ | _ <;> decide
    rw [List.map_cons, List.sum_cons, List.length_cons]
    omega

/-- How many calls a thing takes is bounded by how high it is. -/
theorem fits_of_height {h : Handlers} {limit : Nat} {x : Thing α} (hlimit : 3 * x.height + 3 ≤ limit) :
    x.Fits h limit := by
  intro o ho _
  have hheight := (mem_occurrences_iff.1 ho).length_add_height_le
  have hsum := sum_callsAround_le h o.above
  have hself : callsFor o.thing.fields (h o.thing.kind) ≤ 3 * o.thing.height + 3 := by
    have hfields : o.thing.fields ≤ 3 * o.thing.height := by
      cases o.thing with
      | operator op => exact Nat.zero_le _
      | node e => cases e <;> simp only [fields, fieldCalls, height, Expr.height] <;> omega
    rcases h o.thing.kind with _ | _ | _ <;> simp only [callsFor, callsAround] <;> omega
  unfold Occurrence.calls
  omega

end Thing

/-! ### The tokens of a program -/

/-- Handlers of literals and operators, and of nothing else. -/
def leafHandlers (literal operator : Handling) : Handlers
  | .literal => some literal
  | .operator => some operator
  | _ => none

end Expr

namespace Token

/-- Whether a token is a parenthesis. -/
def isParen (t : Token) : Bool := t.kind == .leftParen || t.kind == .rightParen

/-- The record of a token that is a literal or an operator. -/
def visit (t : Token) : Expr.Visit :=
  match t.value? with
  | some v => ⟨.literal, v.display, 0⟩
  | none => ⟨.operator, t.lexeme, 0⟩

theorem visit_of_denotes {t : Token} {v : Literal} (h : t.Denotes v) :
    t.isParen = false ∧ t.visit = ⟨.literal, v.display, 0⟩ := by
  refine ⟨?_, by rw [visit, value?_eq_some_iff.2 h]⟩
  cases h <;> simp [isParen, *]

theorem visit_of_operator {op : Token} (h : op.kind ∈ Kind.exprOperators) :
    op.isParen = false ∧ op.visit = ⟨.operator, op.lexeme, 0⟩ := by
  have hkind : ∀ k ∈ Kind.exprOperators,
      k ∉ [Kind.leftParen, .rightParen, .falseWord, .trueWord, .nullWord, .number, .string] := by decide
  have hnot := hkind _ h
  simp only [List.mem_cons, List.not_mem_nil, or_false, not_or] at hnot
  have hparen : op.isParen = false := by simp [isParen, hnot]
  have hvalue : op.value? = none := by
    unfold value?
    split <;> simp_all
  exact ⟨hparen, by rw [visit, hvalue]⟩

end Token

namespace Expr

variable {α : Type}

section

variable {h : Handlers} {limit fields : Nat} {kind : Class} {label : String} {records : List Visit}

private theorem handle?_leaf {c : Handling} (hc : h kind = some c)
    (hvisit : handle? h limit kind label 0 fields (fun _ _ => some []) = some records) :
    records = [⟨kind, label, 0⟩] := by
  rw [handle?, hc] at hvisit
  split at hvisit
  · cases hvisit
  · cases c <;> exact (Option.some.inj hvisit).symm

private theorem handle?_default {depth : Nat} {below : (limit depth : Nat) → Option (List Visit)}
    (hc : h kind = none) (hvisit : handle? h limit kind label depth fields below = some records) :
    below (limit - callsAround none) depth = some records := by
  rw [handle?, hc] at hvisit
  split at hvisit
  · cases hvisit
  · exact hvisit

end

/-- Literals and operators are met in the order in which the tokens spell them. -/
theorem visitFrom?_of_spells (a b : Handling) {e : Expr α} {n : Nat} {w : List Token} (hn : e.HasLevel n)
    (hw : e.Spells w) {limit : Nat} {records : List Visit}
    (hvisit : visitFrom? (leafHandlers a b) e limit 0 = some records) :
    records = (w.filter (! ·.isParen)).map Token.visit := by
  induction hn generalizing w limit records with
  | literal i v =>
    cases hw with
    | literal _ ht =>
      obtain ⟨hp, hv⟩ := Token.visit_of_denotes ht
      rw [handle?_leaf (c := a) rfl hvisit]
      simp [hp, hv]
  | @unary i op e n hop _ _ ih =>
    cases hw with
    | unary _ _ he =>
      obtain ⟨hp, hv⟩ := Token.visit_of_operator (Kind.prefix_mem_exprOperators hop)
      obtain ⟨first, hfirst, second, hsecond, rfl⟩ : ∃ first, _ ∧ ∃ second, _ ∧ first ++ second = records := by
        simpa [Option.bind_eq_some_iff] using handle?_default rfl hvisit
      rw [handle?_leaf (c := b) rfl hfirst, ih he hsecond]
      simp [hp, hv]
  | @binary i l r op level m n hop _ _ _ _ ihl ihr =>
    cases hw with
    | binary _ _ hl hr =>
      obtain ⟨hp, hv⟩ := Token.visit_of_operator (Kind.mem_exprOperators hop)
      obtain ⟨first, hfirst, second, hsecond, third, hthird, rfl⟩ :
          ∃ first, _ ∧ ∃ second, _ ∧ ∃ third, _ ∧ first ++ (second ++ third) = records := by
        simpa [Option.bind_eq_some_iff] using handle?_default rfl hvisit
      rw [ihl hl hfirst, handle?_leaf (c := b) rfl hsecond, ihr hr hthird]
      simp [hp, hv]
  | @grouping i e n _ ih =>
    cases hw with
    | @grouping _ _ w opening closing ho hc he =>
      have hopening : opening.isParen = true := by simp [Token.isParen, ho]
      have hclosing : closing.isParen = true := by simp [Token.isParen, hc]
      rw [ih he (handle?_default rfl hvisit)]
      simp [hopening, hclosing]

end Expr

theorem body_lexed (program : String) :
    ExprReader.body (Lexed.ofProgram program).tokens = (Lexed.ofProgram program).tokens.filter (! ·.isEnd) := by
  have hending : [Token.ending program.toList].takeWhile (! ·.isEnd) = [] := rfl
  conv => lhs; rw [tokens_eq_filter program]
  rw [ExprReader.body, List.takeWhile_append_of_pos fun t ht => (List.mem_filter.1 ht).2, hending, List.append_nil]

namespace Expr

/-- A prefix operator many times over does not come back when each of them nests three calls. -/
theorem visitFrom?_of_chain {h : Handlers} (hunary : h .unary = some .descend) (i : α) (op : Token) (e : Expr α)
    {n limit : Nat} (hlimit : limit < 3 * n) (depth : Nat) :
    visitFrom? h ((unary i op)^[n] e) limit depth = none := by
  induction n generalizing limit depth with
  | zero => omega
  | succ n ih =>
    rw [Function.iterate_succ_apply', visitFrom?, handle?, hunary]
    split
    · rfl
    · rename_i hself
      have hrest : limit - callsAround (some .descend) < 3 * n := by
        simp only [callsFor, callsAround] at hself ⊢
        omega
      dsimp only
      rw [ih hrest]
      cases visitOperator? h (limit - callsAround (some .descend)) (depth + 1) op <;> rfl

end Expr

end LoxSyntax
