import CilGraft.Text.Blank
import CilGraft.Text.Lines
import CilGraft.Text.Search

/-!
# The source that is compiled

A compiled patch says for which framework it was compiled. The line with this attribute is put
behind the preamble of the source, the leading lines that are blank or hold a comment, a
directive or the use of a namespace.

* `splitPreamble` — the lines of the preamble and the lines behind it.
* `attributeLine` — the line that is put between them.
* `prepare` — the source with the line.
-/

set_option autoImplicit false

namespace CilGraft.Patch

/-! ## The preamble -/

/-- What follows a word that may be missing. -/
def afterOptional (word line : List Char) : List Char := (Text.after? word line).getD line

/-- The line makes the names of a namespace known. -/
def isUsing (line : List Char) : Bool :=
  match Text.after? "using".toList (afterOptional "global ".toList line) with
  | some (c :: rest) => Text.isBlank c && (Text.trimEnd (c :: rest)).getLast? == some ';'
  | _ => false

/-- The line is blank or a directive, or begins with a comment up to its end. -/
def isPlainPreamble (line : List Char) : Bool :=
  line.isEmpty || Text.startsWith "//".toList line || Text.startsWith "#".toList line ||
    Text.startsWith "extern alias ".toList line || isUsing line

/-- Whether a comment is open behind a line of the preamble, when it is one. A comment was open in
front of the line or not. -/
def openAfter? (isOpen : Bool) (line : List Char) : Option Bool :=
  if isOpen then some (!Text.hasPiece "*/".toList line)
  else
    match Text.after? "/*".toList line with
    | some rest => some (!Text.hasPiece "*/".toList rest)
    | none => if isPlainPreamble line then some false else none

/-- The longest run of leading lines that belong to the preamble, and the lines behind it. -/
def splitPreamble (isOpen : Bool) :
    List (List Char) → List (List Char) × List (List Char)
  | [] => ([], [])
  | line :: rest =>
    match openAfter? isOpen (Text.trim line) with
    | none => ([], line :: rest)
    | some stillOpen =>
      let (front, back) := splitPreamble stillOpen rest
      (line :: front, back)

/-- No line is lost. -/
theorem append_splitPreamble (isOpen : Bool) (ls : List (List Char)) :
    (splitPreamble isOpen ls).1 ++ (splitPreamble isOpen ls).2 = ls := by
  induction ls generalizing isOpen with
  | nil => rfl
  | cons line rest ih =>
    simp only [splitPreamble]
    split
    · rfl
    · simp [ih]

/-! ## The attribute -/

/-- The text inside of a string literal. -/
def escape (s : List Char) : List Char :=
  Text.replaceEach '"' "\\\"".toList (Text.replaceEach '\\' "\\\\".toList s)

/-- The line that names the framework. -/
def attributeLine (framework : List Char) : List Char :=
  "[assembly: System.Runtime.Versioning.TargetFramework(\"".toList ++ escape framework ++
    "\")]\n".toList

/-- The line feed that a source lacks behind its last line, when it is all preamble. -/
def missingEnd (front back : List Char) : List Char :=
  if back = [] ∧ front ≠ [] ∧ front.getLast? ≠ some '\n' then ['\n'] else []

/-- The source with the line that names the framework behind its preamble. -/
def prepare (content framework : List Char) : List Char :=
  let (lines, others) := splitPreamble false (Text.cutLines content)
  let front := lines.flatten
  let back := others.flatten
  front ++ missingEnd front back ++ attributeLine framework ++ back

end CilGraft.Patch
