/-!
# Lines

Only a line feed ends a line.  A text is seen either as the lines between its line feeds (`lines`, of which there is
always one), or as the pieces that a reader takes one at a time, each with its line feed (`pieces`, none of them
empty).

* `unlines_lines`: putting line feeds between the lines gives the text back.
* `flatten_pieces`: the pieces make up the text.
* `lines_length`: there is one line more than there are line feeds.
-/

namespace LoxSyntax.Text

/-- The lines of a text, without their line feeds. -/
def lines : List Char → List (List Char)
  | [] => [[]]
  | c :: rest =>
    if c = '\n' then [] :: lines rest
    else match lines rest with
      | [] => [[c]]
      | l :: ls => (c :: l) :: ls

/-- The text whose lines are the given ones. -/
def unlines : List (List Char) → List Char
  | [] => []
  | [l] => l
  | l :: m :: ls => l ++ '\n' :: unlines (m :: ls)

/-- The lines of a text, each with the line feed that ends it; the last may have none. -/
def pieces : List Char → List (List Char)
  | [] => []
  | c :: rest =>
    if c = '\n' then ['\n'] :: pieces rest
    else match pieces rest with
      | [] => [[c]]
      | l :: ls => (c :: l) :: ls

/-- The text in which a carriage return, with or without a line feed after it, has become a line feed. -/
def unifyNewlines : List Char → List Char
  | [] => []
  | '\r' :: '\n' :: rest => '\n' :: unifyNewlines rest
  | c :: rest => (if c = '\r' then '\n' else c) :: unifyNewlines rest

theorem lines_ne_nil (t : List Char) : lines t ≠ [] := by
  cases t with
  | nil => simp [lines]
  | cons c rest =>
    rw [lines]
    split
    · simp
    · split <;> simp

theorem unlines_lines (t : List Char) : unlines (lines t) = t := by
  induction t with
  | nil => rfl
  | cons c rest ih =>
    rw [lines]
    rcases h : lines rest with _ | ⟨l, ls⟩
    · exact absurd h (lines_ne_nil rest)
    · rw [h] at ih
      by_cases hc : c = '\n'
      · subst hc
        simp [unlines, ih]
      · cases ls with
        | nil => simpa [hc, unlines] using ih
        | cons m ms => simpa [hc, unlines] using ih

theorem lines_length (t : List Char) : (lines t).length = t.count '\n' + 1 := by
  induction t with
  | nil => rfl
  | cons c rest ih =>
    rw [lines]
    rcases h : lines rest with _ | ⟨l, ls⟩
    · exact absurd h (lines_ne_nil rest)
    · rw [h] at ih
      by_cases hc : c = '\n'
      · subst hc
        simpa using ih
      · simpa [hc, List.count_cons] using ih

theorem flatten_pieces (t : List Char) : (pieces t).flatten = t := by
  induction t with
  | nil => rfl
  | cons c rest ih =>
    rw [pieces]
    rcases h : pieces rest with _ | ⟨l, ls⟩ <;> rw [h] at ih <;> by_cases hc : c = '\n'
    · simpa [hc] using ih
    · simpa [hc] using ih
    · subst hc
      simpa using ih
    · simpa [hc] using ih

theorem not_mem_of_mem_lines {t l : List Char} (h : l ∈ lines t) : '\n' ∉ l := by
  induction t generalizing l with
  | nil => simp_all [lines]
  | cons c rest ih =>
    rw [lines] at h
    split at h
    · rcases List.mem_cons.1 h with rfl | h
      · simp
      · exact ih h
    · rename_i hc
      split at h <;> rename_i e
      · exact absurd e (lines_ne_nil rest)
      · rcases List.mem_cons.1 h with rfl | h
        · have := ih (l := _) (e ▸ List.mem_cons_self)
          simp [this, Ne.symm hc]
        · exact ih (e ▸ List.mem_cons_of_mem _ h)

end LoxSyntax.Text
