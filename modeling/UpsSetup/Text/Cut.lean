/-!
# Cutting a text at a separator

`cutFirst` and `cutLast` part a text at the first and at the last occurrence of a character, and
answer `none` when it does not occur. In both cases what was cut is the text before, the separator
and the text after, so nothing is lost.
-/

namespace UpsSetup.Text

/-! ## Over characters -/

/-- What precedes and what follows the first `sep`. -/
def cutFirstChars (sep : Char) : List Char → Option (List Char × List Char)
  | [] => none
  | c :: cs =>
    if c = sep then some ([], cs)
    else (cutFirstChars sep cs).map fun (before, after) => (c :: before, after)

/-- What precedes and what follows the last `sep`. -/
def cutLastChars (sep : Char) : List Char → Option (List Char × List Char)
  | [] => none
  | c :: cs =>
    match cutLastChars sep cs with
    | some (before, after) => some (c :: before, after)
    | none => if c = sep then some ([], cs) else none

/-- The cut is at the one separator with none in front of it. -/
theorem cutFirstChars_eq_some_iff {sep : Char} {cs before after : List Char} :
    cutFirstChars sep cs = some (before, after) ↔
      cs = before ++ sep :: after ∧ sep ∉ before := by
  induction cs generalizing before with
  | nil => simp [cutFirstChars]
  | cons c cs ih =>
    rw [cutFirstChars]
    split
    next h =>
      subst h
      cases before with
      | nil => simp [eq_comm]
      | cons b bs => simp; grind
    next h =>
      cases before with
      | nil => simp; grind
      | cons b bs => simp [ih]; grind

/-- There is no cut only where there is no separator. -/
theorem cutFirstChars_eq_none_iff {sep : Char} {cs : List Char} :
    cutFirstChars sep cs = none ↔ sep ∉ cs := by
  induction cs with
  | nil => simp [cutFirstChars]
  | cons c cs ih => by_cases h : c = sep <;> simp [cutFirstChars, h, ih]; exact fun _ h' => h h'.symm

theorem cutLastChars_eq_none_iff {sep : Char} {cs : List Char} :
    cutLastChars sep cs = none ↔ sep ∉ cs := by
  induction cs with
  | nil => simp [cutLastChars]
  | cons c cs ih =>
    rw [cutLastChars]
    split <;> grind

theorem eq_append_of_cutLastChars {sep : Char} {cs before after : List Char}
    (h : cutLastChars sep cs = some (before, after)) :
    cs = before ++ sep :: after ∧ sep ∉ after := by
  induction cs generalizing before with
  | nil => simp [cutLastChars] at h
  | cons c cs ih =>
    rw [cutLastChars] at h
    split at h
    next b a hb =>
      simp only [Option.some.injEq, Prod.mk.injEq] at h
      obtain ⟨rfl, rfl⟩ := h
      simpa using ih hb
    next hn =>
      split at h <;> simp at h
      obtain ⟨rfl, rfl⟩ := h
      exact ⟨by simp [*], cutLastChars_eq_none_iff.mp hn⟩

theorem cutLastChars_append {sep : Char} (before : List Char) {after : List Char}
    (h : sep ∉ after) : cutLastChars sep (before ++ sep :: after) = some (before, after) := by
  induction before with
  | nil => simp [cutLastChars, cutLastChars_eq_none_iff.mpr h]
  | cons b bs ih => simp [cutLastChars, ih]

/-- The cut is at the one separator with none behind it. -/
theorem cutLastChars_eq_some_iff {sep : Char} {cs before after : List Char} :
    cutLastChars sep cs = some (before, after) ↔
      cs = before ++ sep :: after ∧ sep ∉ after :=
  ⟨eq_append_of_cutLastChars, fun ⟨h, hn⟩ => h ▸ cutLastChars_append before hn⟩

/-! ## Over texts -/

/-- What precedes and what follows the first `sep` of a text. -/
def cutFirst (sep : Char) (s : String) : Option (String × String) :=
  (cutFirstChars sep s.toList).map fun (before, after) => (String.ofList before, String.ofList after)

/-- What precedes and what follows the last `sep` of a text. -/
def cutLast (sep : Char) (s : String) : Option (String × String) :=
  (cutLastChars sep s.toList).map fun (before, after) => (String.ofList before, String.ofList after)

end UpsSetup.Text
