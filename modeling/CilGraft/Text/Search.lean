/-!
# Looking for a piece of text

* `after? lead s` — what follows `lead` when `s` begins with it.
* `breakOn? mark s` — the text in front of the first `mark` in `s`, and the text behind it.
* `hasPiece mark s` — `mark` occurs in `s`.
* `splitLast? p s` — the text in front of the last character satisfying `p`, and behind it.
* `replaceEach c by s` — every occurrence of one character replaced by a text.
-/

set_option autoImplicit false

namespace CilGraft.Text

/-- What follows `lead` in a text that begins with it. -/
def after? : List Char → List Char → Option (List Char)
  | [], s => some s
  | _ :: _, [] => none
  | a :: lead, c :: s => if a = c then after? lead s else none

theorem after?_eq_some_iff {lead s rest : List Char} :
    after? lead s = some rest ↔ s = lead ++ rest := by
  induction lead generalizing s with
  | nil => simp [after?]
  | cons a lead ih =>
    cases s with
    | nil => simp [after?]
    | cons c s =>
      by_cases h : a = c
      · subst h; simp [after?, ih]
      · simp [after?, h, Ne.symm h]

/-- True when `s` begins with `lead`. -/
def startsWith (lead s : List Char) : Bool := (after? lead s).isSome

/-- The text in front of the first occurrence of `mark`, and the text behind it. -/
def breakOn? (mark : List Char) : List Char → Option (List Char × List Char)
  | [] => if mark = [] then some ([], []) else none
  | c :: s =>
    match after? mark (c :: s) with
    | some rest => some ([], rest)
    | none => (breakOn? mark s).map fun (front, rest) => (c :: front, rest)

theorem eq_append_of_breakOn? {mark s front rest : List Char}
    (h : breakOn? mark s = some (front, rest)) : s = front ++ mark ++ rest := by
  induction s generalizing front with
  | nil =>
    simp only [breakOn?] at h
    split at h
    · rename_i hm; cases h; simp [hm]
    · cases h
  | cons c s ih =>
    simp only [breakOn?] at h
    split at h
    · rename_i r hr
      cases h
      simpa using after?_eq_some_iff.1 hr
    · obtain ⟨⟨f, r⟩, hf, heq⟩ := Option.map_eq_some_iff.1 h
      cases heq
      simp [ih hf]

/-- True when `mark` occurs somewhere in the text. -/
def hasPiece (mark s : List Char) : Bool := (breakOn? mark s).isSome

/-- The text in front of the last character satisfying `p`, and the text behind it. -/
def splitLast? (p : Char → Bool) (s : List Char) : Option (List Char × List Char) :=
  let back := s.reverse.takeWhile (!p ·)
  match s.reverse.dropWhile (!p ·) with
  | [] => none
  | _ :: front => some (front.reverse, back.reverse)

/-- The text behind the last character satisfying `p`; the whole text when there is none. -/
def afterLast (p : Char → Bool) (s : List Char) : List Char :=
  (s.reverse.takeWhile (!p ·)).reverse

/-- The text cut at every character satisfying `p`. -/
def pieces (p : Char → Bool) : List Char → List (List Char)
  | [] => [[]]
  | c :: s =>
    if p c then [] :: pieces p s
    else
      match pieces p s with
      | [] => [[c]]
      | w :: ws => (c :: w) :: ws

/-- Every occurrence of `c` replaced by the text `t`. -/
def replaceEach (c : Char) (t s : List Char) : List Char :=
  s.flatMap fun d => if d = c then t else [d]

/-- Equality of texts up to the case of ASCII letters. -/
def sameIgnoringAsciiCase (s t : List Char) : Bool := s.map Char.toLower == t.map Char.toLower

end CilGraft.Text
