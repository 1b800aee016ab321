import CilGraft.Text.CaseTable

/-!
# Lower case

`lower` maps a text to lower case by the rules of the Unicode standard: each character by its
simple mapping, `İ` by its two-character mapping, and a capital sigma by its place — `ς` at the
end of a word, `σ` elsewhere.
-/

set_option autoImplicit false

namespace CilGraft.Text

/-- Membership in a list of closed ranges of code points. -/
def inRanges (ranges : List (Nat × Nat)) (c : Char) : Bool :=
  ranges.any fun (lo, hi) => lo ≤ c.toNat && c.toNat ≤ hi

/-- The code point moves with this run. -/
def CaseRun.covers (run : CaseRun) (n : Nat) : Bool :=
  run.first ≤ n && n ≤ run.last && (n - run.first) % run.step == 0

/-- The simple lower-case form of a character. -/
def lowerChar (c : Char) : Char :=
  match lowerRuns.find? (·.covers c.toNat) with
  | some run => Char.ofNat (c.toNat + run.shift).toNat
  | none => c

/-- The first character that is not ignorable for case is a letter with case. -/
def meetsCased (s : List Char) : Bool :=
  match s.dropWhile (inRanges caseIgnorableRanges) with
  | [] => false
  | c :: _ => inRanges casedRanges c

/-- Lower case with the characters already passed at hand, the nearest one first. -/
def lowerAfter (passed : List Char) : List Char → List Char
  | [] => []
  | c :: s =>
    let here :=
      if c = 'Σ' then [if meetsCased passed && !meetsCased s then 'ς' else 'σ']
      else if c = 'İ' then ['i', '\u0307']
      else [lowerChar c]
    here ++ lowerAfter (c :: passed) s

/-- The text in lower case. -/
def lower (s : List Char) : List Char := lowerAfter [] s

end CilGraft.Text
