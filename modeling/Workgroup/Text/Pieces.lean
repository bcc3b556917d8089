/-!
Contract: cutting a text at a separator.

The pieces are what stands between two separators, before the first and behind
the last; they can be empty, and there is always at least one.
-/

namespace Workgroup.Text

/-- The pieces of a text between its separators. -/
def pieces (separator : Char) : List Char → List (List Char)
  | [] => [[]]
  | char :: rest =>
      if char = separator then [] :: pieces separator rest
      else
        match pieces separator rest with
        | [] => [[char]]
        | piece :: others => (char :: piece) :: others

theorem pieces_ne_nil (separator : Char) (text : List Char) : pieces separator text ≠ [] := by
  cases text with
  | nil => simp [pieces]
  | cons char rest =>
      unfold pieces
      split
      · simp
      · split <;> simp

end Workgroup.Text
