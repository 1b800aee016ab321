import CilGraft.Text.Search

/-!
# Lines

* `cutLines s` — the lines of `s`, each with the line feed that ends it; their concatenation is
  `s` (`flatten_cutLines`).
* `lines s` — the same lines without their ends. A line ends in a line feed or in a carriage
  return and a line feed; a carriage return alone is text.
-/

set_option autoImplicit false

namespace CilGraft.Text

/-- The lines of a text with their line feeds; an empty text has no line. -/
def cutLines : List Char → List (List Char)
  | [] => []
  | c :: s =>
    if c = '\n' then [c] :: cutLines s
    else
      match cutLines s with
      | [] => [[c]]
      | l :: ls => (c :: l) :: ls

/-- No character is lost between the lines. -/
theorem flatten_cutLines (s : List Char) : (cutLines s).flatten = s := by
  induction s with
  | nil => rfl
  | cons c s ih =>
    simp only [cutLines]
    split
    · simp [ih]
    · split
      · rename_i h; rw [h] at ih; simpa using ih
      · rename_i h; rw [h] at ih; simpa using ih

/-- A line without the characters that end it. -/
def lineText (line : List Char) : List Char :=
  match line.reverse with
  | '\n' :: '\r' :: front => front.reverse
  | '\n' :: front => front.reverse
  | _ => line

/-- The lines of a text without their ends. -/
def lines (s : List Char) : List (List Char) := (cutLines s).map lineText

end CilGraft.Text
