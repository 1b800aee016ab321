import CilGraft.Error
import CilGraft.Text.Blank
import CilGraft.Text.Lines
import CilGraft.Text.Search
import CilGraft.Text.Utf8

/-!
# The header of a patch source

A patch source says in its leading comment what it patches, by lines `@Key=Value` and by lines
`@using` with the path of a library.

* `headerLines` — the lines of the comment that are not blank. The header ends with the comment, and
  at the latest in front of the first line that declares something.
* `headerValue?` — the value of a key. Its first line counts, and a blank value is no value.
* `libraryNames` — the paths of the libraries, as they are written.
-/

set_option autoImplicit false

namespace CilGraft.Patch

/-! ## The end of the header -/

/-- The words that declare a namespace or a type. -/
def declarationWords : List String :=
  ["namespace", "class", "struct", "interface", "enum", "record", "delegate"]

/-- The words that may stand in front of a declaration. -/
def modifierWords : List String :=
  ["public", "internal", "private", "protected", "static", "sealed", "abstract", "partial",
    "unsafe", "readonly", "ref", "file", "new"]

/-- The mark that opens a block. -/
def blockMark : Char := '\x7b'

/-- The character ends a word of a declaration. -/
def endsWord (c : Char) : Bool := Text.isBlank c || c == blockMark || c == ':' || c == '<'

/-- The words of a line. -/
def lineWords (line : List Char) : List String :=
  ((Text.pieces endsWord line).filter (!·.isEmpty)).map String.ofList

/-- The line opens a block, or declares a namespace or a type: the first word that is no modifier
says so. -/
def isDeclaration (line : List Char) : Bool :=
  line.head? == some blockMark ||
    match (lineWords line).find? (!modifierWords.contains ·) with
    | some word => declarationWords.contains word
    | none => false

/-! ## Lines -/

/-- The mark that opens a comment. -/
def openMark : List Char := ['/', '*']

/-- The mark that closes a comment. -/
def closeMark : List Char := ['*', '/']

/-- The text of a comment line without the star that decorates it. -/
def plainText (text : List Char) : List Char :=
  match text with
  | '*' :: rest => Text.trim rest
  | _ => Text.trim text

/-- The line of a text, which is none when the text is blank. -/
def keepText (text : List Char) : List (List Char) :=
  if plainText text = [] then [] else [plainText text]

/-- The header lines among the given lines, which start inside of the comment or in front of it. -/
def headerFrom (inside : Bool) : List (List Char) → List (List Char)
  | [] => []
  | raw :: rest =>
    let line := Text.trim raw
    if isDeclaration line then []
    else
      match if inside then some line else Text.after? openMark line with
      | none => headerFrom false rest
      | some text =>
        match Text.breakOn? closeMark text with
        | some (front, _) => keepText front
        | none => keepText text ++ headerFrom true rest

/-- The header lines of a source. -/
def headerLines (content : List Char) : List (List Char) := headerFrom false (Text.lines content)

/-! ## Values -/

/-- What follows the key in a line that gives it a value. -/
def valueIn? (key : String) (line : List Char) : Option (List Char) :=
  Text.after? ('@' :: key.toList ++ ['=']) line

/-- The value of a key. -/
def headerValue? (lines : List (List Char)) (key : String) : Option (List Char) :=
  match lines.findSome? (valueIn? key) with
  | none => none
  | some value => if Text.trim value = [] then none else some (Text.trim value)

/-! ## Libraries -/

/-- What stands in front of the path of a library. -/
def usingMark : List Char := "@using ".toList

/-- How the path of a library ends. -/
def libraryEnding : List Char := ".dll".toList

/-- The path in a line that asks for a library. -/
def libraryIn? (line : List Char) : Option (List Char) :=
  (Text.after? usingMark line).map fun rest =>
    Text.trim ((Text.trim rest).reverse.dropWhile (· == ';')).reverse

/-- The text is long enough to have more than the ending. -/
def isLongerThanEnding (name : List Char) : Bool :=
  libraryEnding.length < (Text.Utf8.encode name).length

/-- The paths of the libraries that a header asks for. Only paths with the ending of a library count.
The ending is cut off by its number of bytes, and a path in which a character would be cut
stands for nothing. -/
def libraryNames : List (List Char) → Except Error (List (List Char))
  | [] => .ok []
  | line :: rest =>
    match libraryIn? line with
    | none => libraryNames rest
    | some name =>
      if !isLongerThanEnding name then libraryNames rest
      else
        match Text.Utf8.endOfSize? libraryEnding.length name with
        | none => .error (.brokenReference (String.ofList name))
        | some ending =>
          match libraryNames rest with
          | .error e => .error e
          | .ok names =>
            .ok (if Text.sameIgnoringAsciiCase ending libraryEnding then name :: names else names)

end CilGraft.Patch
