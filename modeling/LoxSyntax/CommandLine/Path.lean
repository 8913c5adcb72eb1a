/-!
# Paths

A path is written as parts with slashes between them.

* `mem_pathParts`: a part is not empty, it is not a single dot, and it holds no slash.
-/

namespace LoxSyntax.CommandLine

/-- The parts of a path between its slashes, without the empty ones and those that are a single dot. -/
def pathParts : List Char → List (List Char)
  | [] => []
  | c :: rest =>
    if c = '/' then pathParts rest
    else
      let part := c :: rest.takeWhile (· != '/')
      let others := pathParts (rest.dropWhile (· != '/'))
      if part = ['.'] then others else part :: others
termination_by path => path.length
decreasing_by
  · simp
  · have := (List.dropWhile_sublist (l := rest) (· != '/')).length_le
    simp only [List.length_cons]
    omega

/-- Whether a path starts at the root of all folders. -/
def isAbsolute (path : String) : Bool := path.toList.head? == some '/'

/-- A path without redundant slashes and dots; a path that has no other part is the folder itself. -/
def normalPath (path : String) : String :=
  let body := String.intercalate "/" ((pathParts path.toList).map String.ofList)
  if isAbsolute path then "/" ++ body
  else if body = "" then "." else body

theorem mem_pathParts {path part : List Char} (h : part ∈ pathParts path) :
    part ≠ [] ∧ part ≠ ['.'] ∧ '/' ∉ part := by
  fun_induction pathParts path with
  | case1 => simp at h
  | case2 rest ih => exact ih h
  | case3 c rest hc p others hp ih => exact ih h
  | case4 c rest hc p others hp ih =>
    rcases List.mem_cons.1 h with rfl | h
    · refine ⟨by simp [p], hp, ?_⟩
      intro hs
      rcases List.mem_cons.1 hs with e | hs
      · exact hc e.symm
      · simpa using List.all_eq_true.1 (List.all_takeWhile (l := rest) (p := (· != '/'))) _ hs
    · exact ih h

end LoxSyntax.CommandLine
