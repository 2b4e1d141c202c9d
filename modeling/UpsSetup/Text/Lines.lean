/-!
# Lines of a text

A text is cut after each line feed. A carriage return ends no line, except where a whole file is
read: there `unifyEnds` first turns each of the three usual line ends into a line feed.

**`lines_unlines`**: cutting undoes joining, as long as no line holds a line feed.
-/

namespace UpsSetup.Text

/-! ## Cutting -/

/-- The pieces between line feeds. What follows the last line feed is a line only if it is not
empty, so a text that ends in a line feed has no empty last line. -/
def cutLines : List Char → List (List Char)
  | [] => []
  | c :: cs =>
    if c = '\n' then [] :: cutLines cs
    else match cutLines cs with
      | [] => [[c]]
      | l :: ls => (c :: l) :: ls

/-- The lines of a text, without their line feeds. -/
def lines (s : String) : List String :=
  (cutLines s.toList).map String.ofList

/-- A carriage return followed by a line feed, and a carriage return alone, become a line feed. -/
def unifyEndChars : List Char → List Char
  | [] => []
  | '\r' :: '\n' :: cs => '\n' :: unifyEndChars cs
  | '\r' :: cs => '\n' :: unifyEndChars cs
  | c :: cs => c :: unifyEndChars cs

/-- The text with every line end written as a line feed. -/
def unifyEnds (s : String) : String :=
  String.ofList (unifyEndChars s.toList)

/-! ## Joining -/

/-- Each line followed by a line feed. -/
def unlines (ls : List String) : String :=
  String.join (ls.map (· ++ "\n"))

/-! ## Cutting undoes joining -/

/-- A line ends at the first line feed. -/
theorem cutLines_append {l : List Char} (h : '\n' ∉ l) (rest : List Char) :
    cutLines (l ++ '\n' :: rest) = l :: cutLines rest := by
  induction l with
  | nil => simp [cutLines]
  | cons c cs ih =>
    simp only [List.mem_cons, not_or] at h
    simp [cutLines, Ne.symm h.1, ih h.2]

theorem toList_unlines_cons (l : String) (ls : List String) :
    (unlines (l :: ls)).toList = l.toList ++ '\n' :: (unlines ls).toList := by
  simp [unlines]

/-- Lines that hold no line feed are found again in the text that joins them. -/
theorem lines_unlines {ls : List String} (h : ∀ l ∈ ls, '\n' ∉ l.toList) :
    lines (unlines ls) = ls := by
  induction ls with
  | nil => simp [lines, unlines, cutLines]
  | cons l ls ih =>
    simp only [List.mem_cons, forall_eq_or_imp] at h
    have ih := ih h.2
    simp only [lines] at ih ⊢
    rw [toList_unlines_cons, cutLines_append h.1, List.map_cons, ih, String.ofList_toList]

end UpsSetup.Text
