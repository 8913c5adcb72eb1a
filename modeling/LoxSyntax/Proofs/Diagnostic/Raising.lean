import LoxSyntax.Diagnostic.Log

/-!
# Raising a log

A log is raised as one text.  It has the listings of the first ten diagnostics, and says how many more there are; the
log is empty then.  One of the ten that has no listing stops this before anything is lost: no text is made and the log
stays as it is.  What comes behind the tenth is counted only.

* `listings?_eq_some_iff`, `listings?_eq_none_iff`: the text of some listings, and when there is none.
* `Tells`: what the text says of the log, and `Omits`, what it says of the diagnostics that are not listed.
* `exists_tells`: there is one such text if the first ten diagnostics have listings.
* `raise_of_tells`, `raise_of_unlistable`: the two outcomes for a log that is not empty.
* `raise_accounts`: every diagnostic is listed, counted or kept.
-/

namespace LoxSyntax

namespace Log

/-! ### Listings of all diagnostics -/

private theorem listings?_cons_eq_some_iff {d : Diagnostic} {log : Log} {text : String} :
    listings? (d :: log) = some text ↔
      ∃ listing rest, d.listing? = some listing ∧ listings? log = some rest ∧ text = "\n\n" ++ listing ++ rest := by
  rw [listings?]
  constructor
  · intro h
    split at h
    · rename_i listing rest hd hlog
      exact ⟨listing, rest, hd, hlog, (Option.some.inj h).symm⟩
    · cases h
  · rintro ⟨listing, rest, hd, hlog, rfl⟩
    rw [hd, hlog]

/-- The text has the listings of all diagnostics in their order, each behind a blank line. -/
theorem listings?_eq_some_iff {log : Log} {text : String} :
    listings? log = some text ↔ ∃ listings : List String, log.map Diagnostic.listing? = listings.map some ∧
      text = String.join (listings.map ("\n\n" ++ ·)) := by
  induction log generalizing text with
  | nil =>
    constructor
    · intro h
      exact ⟨[], rfl, (Option.some.inj h).symm⟩
    · rintro ⟨listings, hlistings, rfl⟩
      rw [List.map_eq_nil_iff.1 hlistings.symm]
      rfl
  | cons d log ih =>
    rw [listings?_cons_eq_some_iff]
    constructor
    · rintro ⟨listing, rest, hd, hlog, rfl⟩
      obtain ⟨listings, hlistings, rfl⟩ := ih.1 hlog
      refine ⟨listing :: listings, ?_, ?_⟩
      · rw [List.map_cons, List.map_cons, hd, hlistings]
      · rw [List.map_cons, String.join_cons]
    · rintro ⟨listings, hlistings, rfl⟩
      cases listings with
      | nil => cases hlistings
      | cons listing listings =>
        obtain ⟨hd, hlog⟩ := List.cons.inj hlistings
        refine ⟨listing, _, hd, ih.2 ⟨listings, hlog, rfl⟩, ?_⟩
        rw [List.map_cons, String.join_cons]

theorem listings?_eq_none_iff {log : Log} : listings? log = none ↔ ∃ d ∈ log, d.listing? = none := by
  induction log with
  | nil => simp [listings?]
  | cons d log ih =>
    have hcons : (∃ e ∈ d :: log, e.listing? = none) ↔ d.listing? = none ∨ ∃ e ∈ log, e.listing? = none := by
      simp only [List.mem_cons, or_and_right, exists_or, exists_eq_left]
    rw [hcons, ← ih, listings?]
    cases d.listing? <;> cases listings? log <;> simp

/-! ### The text of a log that is raised -/

/-- What is said of the diagnostics behind the tenth, when there are `k` in all. -/
inductive Omits : (k : Nat) → String → Prop
  | nothing {k : Nat} (h : k ≤ 10) : Omits k ""
  | one : Omits 11 "\n\nShowing 10 errors, omitting 1 error..."
  | many {k : Nat} (h : 11 < k) : Omits k ("\n\nShowing 10 errors, omitting " ++ (k - 10).repr ++ " errors...")

theorem Omits.eq_omission {k : Nat} {text : String} (h : Omits k text) : text = omission k := by
  cases h with
  | nothing h => exact (if_pos h).symm
  | one => decide
  | many h =>
    have hshown : Decimal.showInt maxShown = "10" := by decide
    have hcount : Decimal.showInt ((k - maxShown : Nat) : Int) = (k - 10).repr := rfl
    have hmore : 1 < k - maxShown := Nat.lt_sub_of_add_lt h
    unfold omission
    rw [if_neg (show ¬ k ≤ maxShown by unfold maxShown; omega)]
    dsimp only
    rw [hshown, hcount, if_pos hmore]
    simp only [String.append_assoc]
    rfl

theorem omits_omission (k : Nat) : Omits k (omission k) := by
  have hexists : ∃ text, Omits k text := by
    rcases (show k ≤ 10 ∨ k = 11 ∨ 11 < k by omega) with h | rfl | h
    · exact ⟨_, .nothing h⟩
    · exact ⟨_, .one⟩
    · exact ⟨_, .many h⟩
  obtain ⟨text, h⟩ := hexists
  rwa [h.eq_omission] at h

/-- The text has the listings of the first ten diagnostics in their order, each behind a blank line, and what is said
of the others. -/
def Tells (log : Log) (text : String) : Prop :=
  ∃ (listings : List String) (others : String), (log.take 10).map Diagnostic.listing? = listings.map some ∧
    Omits log.length others ∧ text = String.join (listings.map ("\n\n" ++ ·)) ++ others

theorem tells_iff {log : Log} {text : String} :
    log.Tells text ↔ ∃ listed, listings? (log.take 10) = some listed ∧ text = listed ++ omission log.length := by
  constructor
  · rintro ⟨listings, others, hlistings, hothers, rfl⟩
    exact ⟨_, listings?_eq_some_iff.2 ⟨listings, hlistings, rfl⟩, by rw [hothers.eq_omission]⟩
  · rintro ⟨listed, hlisted, rfl⟩
    obtain ⟨listings, hlistings, rfl⟩ := listings?_eq_some_iff.1 hlisted
    exact ⟨listings, _, hlistings, omits_omission _, rfl⟩

/-- There is one text that tells of a log whose first ten diagnostics have listings. -/
theorem exists_tells {log : Log} (h : ∀ d ∈ log.take 10, d.listing?.isSome = true) :
    ∃ text, ∀ told, log.Tells told ↔ told = text := by
  have hsome : ¬ listings? (log.take 10) = none := by
    rw [listings?_eq_none_iff]
    rintro ⟨d, hd, hnone⟩
    have hlisting := h d hd
    rw [hnone] at hlisting
    cases hlisting
  obtain ⟨listed, hlisted⟩ := Option.ne_none_iff_exists'.1 hsome
  refine ⟨listed ++ omission log.length, fun told => ?_⟩
  rw [tells_iff, hlisted]
  simp only [Option.some.injEq, exists_eq_left']

/-! ### Raising -/

theorem raise_of_ne_nil {log : Log} (hne : log ≠ []) (stage : Stage) :
    log.raise stage = match listings? (log.take 10) with
      | none => (.unlistable, log)
      | some listed => (.failure stage (listed ++ omission log.length), []) := by
  have hempty : ¬ log.isEmpty = true := fun h => hne (List.isEmpty_iff.1 h)
  rw [raise, if_neg hempty]
  rfl

theorem raise_of_tells {log : Log} {text : String} (hne : log ≠ []) (h : log.Tells text) (stage : Stage) :
    log.raise stage = (.failure stage text, []) := by
  obtain ⟨listed, hlisted, rfl⟩ := tells_iff.1 h
  rw [raise_of_ne_nil hne, hlisted]

theorem raise_of_unlistable {log : Log} (h : ∃ d ∈ log.take 10, d.listing? = none) (stage : Stage) :
    log.raise stage = (.unlistable, log) := by
  have hne : log ≠ [] := by
    rintro rfl
    obtain ⟨d, hd, -⟩ := h
    cases hd
  rw [raise_of_ne_nil hne, listings?_eq_none_iff.2 h]

/-- What comes of raising a log depends on its first ten diagnostics and on the number of the others. -/
theorem raise_fst_congr {log other : Log} (htake : other.take 10 = log.take 10) (hlength : other.length = log.length)
    (stage : Stage) : (other.raise stage).1 = (log.raise stage).1 := by
  by_cases hne : log = []
  · rw [hne, List.length_nil, List.length_eq_zero_iff] at hlength
    rw [hne, hlength]
  · have hother : other ≠ [] := by
      rw [← List.length_pos_iff, hlength, List.length_pos_iff]
      exact hne
    rw [raise_of_ne_nil hne, raise_of_ne_nil hother, htake, hlength]
    cases listings? (log.take 10) <;> rfl

/-- Raising an empty log does nothing.  When the first ten diagnostics have listings, a stage fails with the one text
that tells of the log, and the log is emptied; when one of them has none, the log stays as it is.  The others are
counted, whether they have listings or not. -/
theorem raise_accounts (log : Log) (stage : Stage) :
    (log = [] → log.raise stage = (.nothing, log)) ∧
    (log ≠ [] → (∀ d ∈ log.take 10, d.listing?.isSome = true) →
      ∃ text, log.raise stage = (.failure stage text, []) ∧ ∀ told, log.Tells told ↔ told = text) ∧
    ((∃ d ∈ log.take 10, d.listing? = none) → log.raise stage = (.unlistable, log)) ∧
    (∀ d : Diagnostic, d.listing? = none ↔ d.cause = .unspecified ∨ d.cause = .lexical) ∧
    ∀ other : Log, other.take 10 = log.take 10 → other.length = log.length →
      (other.raise stage).1 = (log.raise stage).1 := by
  refine ⟨?_, ?_, fun h => raise_of_unlistable h stage, ?_, fun other htake hlength =>
    raise_fst_congr htake hlength stage⟩
  · rintro rfl
    rfl
  · intro hne h
    obtain ⟨text, htext⟩ := exists_tells h
    exact ⟨text, raise_of_tells hne ((htext text).2 rfl) stage, htext⟩
  · intro d
    rw [← Option.not_isSome_iff_eq_none, Diagnostic.listing?_isSome_iff, Bool.not_eq_false]
    cases d.cause <;> simp [Cause.isUnnamed]

/-- Ten unexpected characters, and something unnamed behind or before them. -/
theorem raise_accounts_unnamed :
    let mistake : Diagnostic := ⟨"@", ⟨⟨1, 0⟩, ⟨1, 1⟩⟩, .unexpectedCharacter⟩
    let unnamed : Diagnostic := ⟨"@", ⟨⟨1, 0⟩, ⟨1, 1⟩⟩, .lexical⟩
    let log : Log := List.replicate 10 mistake
    (∃ text, raise (log ++ [unnamed]) .scanner = (.failure .scanner text, []) ∧
      ∀ told, Tells (log ++ [unnamed]) told ↔ told = text) ∧
    raise (unnamed :: log) .scanner = (.unlistable, unnamed :: log) := by
  intro mistake unnamed log
  refine ⟨(raise_accounts (log ++ [unnamed]) .scanner).2.1 (by decide) (by decide), ?_⟩
  exact (raise_accounts (unnamed :: log) .scanner).2.2.1 ⟨unnamed, List.mem_cons_self, rfl⟩

end Log

end LoxSyntax
