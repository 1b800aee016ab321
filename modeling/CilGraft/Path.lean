import CilGraft.Text.Search

/-!
# Paths

A path is kept as it was written; its components are what it means. Repeated separators, a
separator at the end, and `.` anywhere but at the start of a relative path mean nothing.

* `Path.components` — the components; `Path.same` compares paths by them, `Path.before` orders
  them.
* `Path.join` — one path behind another, or the other alone when it is absolute.
* `Path.parent?`, `Path.fileName?`, `Path.stem?`, `Path.extension?` — the parts of a path.
* `Path.normalize` — an absolute path without `.` and `..`, by its text alone.
* `Path.resolve` — the same of any path, a relative one being seen from the current folder.
-/

set_option autoImplicit false

namespace CilGraft

/-- A path as it was written. -/
structure Path where
  text : String
  deriving DecidableEq, Repr, Inhabited

/-- A component of a path. -/
inductive Component where
  | root
  | current
  | parent
  | name (s : String)
  deriving DecidableEq, Repr

namespace Path

/-- The separator of names. -/
def separator : Char := '/'

/-- The path starts at the root. -/
def isAbsolute (p : Path) : Bool := p.text.toList.head? == some separator

/-- The texts between the separators, without the mark that an absolute path begins with. -/
def pieces (p : Path) : List String :=
  let cut := (Text.pieces (· == separator) p.text.toList).map String.ofList
  if p.isAbsolute then cut.drop 1 else cut

/-- The path begins with `.` and is relative; only this `.` is a component. -/
def startsHere (p : Path) : Bool := !p.isAbsolute && p.pieces.head? == some "."

/-- The piece stands for no component behind the start of a path. -/
def isIdle (piece : String) : Bool := piece == "" || piece == "."

/-- The pieces behind the start of the path. -/
def body (p : Path) : List String := if p.startsHere then p.pieces.drop 1 else p.pieces

/-- The component of a piece that is not idle. -/
def componentOf (piece : String) : Component := if piece == ".." then .parent else .name piece

/-- The components of the path. -/
def components (p : Path) : List Component :=
  let rest := (p.body.filter (!isIdle ·)).map componentOf
  if p.isAbsolute then .root :: rest
  else if p.startsHere then .current :: rest
  else rest

/-- The two paths have the same components. -/
def same (p q : Path) : Bool := p.components == q.components

/-- The rank of a kind of component in the order of paths. -/
def rank : Component → Nat
  | .root => 0
  | .current => 1
  | .parent => 2
  | .name _ => 3

/-- The component comes before another one; names are ordered by their characters. -/
def componentBefore : Component → Component → Bool
  | .name s, .name t => s < t
  | a, b => rank a < rank b

/-- The components come before others, the first difference deciding. -/
def componentsBefore : List Component → List Component → Bool
  | [], [] => false
  | [], _ :: _ => true
  | _ :: _, [] => false
  | a :: as, b :: bs => if a = b then componentsBefore as bs else componentBefore a b

/-- The path comes before another one. -/
def before (p q : Path) : Bool := componentsBefore p.components q.components

/-- The path of `q` seen from `p`: `q` itself when it is absolute. -/
def join (p q : Path) : Path :=
  if q.isAbsolute then q
  else
    let gap := if p.text == "" || p.text.toList.getLast? == some separator then "" else "/"
    ⟨p.text ++ gap ++ q.text⟩

/-- The path of a name seen from `p`. -/
def child (p : Path) (name : String) : Path := p.join ⟨name⟩

/-- The text of pieces with separators between them. -/
def unpieces (start : String) (ps : List String) : String :=
  let body := "/".intercalate ps
  if start == "" then body
  else if ps.isEmpty || start == "/" then start ++ body
  else start ++ "/" ++ body

/-- The path without its last component; none for the root and the empty path. -/
def parent? (p : Path) : Option Path :=
  let start := if p.isAbsolute then "/" else if p.startsHere then "." else ""
  match p.body.reverse.dropWhile isIdle with
  | [] => if p.startsHere then some ⟨""⟩ else none
  | _ :: front => some ⟨unpieces start (front.dropWhile isIdle).reverse⟩

/-- The last component, when it is a name. -/
def fileName? (p : Path) : Option String :=
  match p.components.getLast? with
  | some (.name s) => some s
  | _ => none

/-- The parts of a file name at its last point; a point at the start separates nothing. -/
def splitName (name : String) : String × Option String :=
  if name == ".." then (name, none)
  else
    match Text.splitLast? (· == '.') name.toList with
    | some (c :: front, back) => (String.ofList (c :: front), some (String.ofList back))
    | _ => (name, none)

/-- The file name without its extension. -/
def stem? (p : Path) : Option String := p.fileName?.map fun n => (splitName n).1

/-- The text behind the last point of the file name. -/
def extension? (p : Path) : Option String := p.fileName?.bind fun n => (splitName n).2

/-- The names that a list of components leads to from the root: `..` leaves the last one, and stays
at the root when there is none. -/
def resolveNames : List Component → List String → List String
  | [], names => names
  | .root :: rest, _ => resolveNames rest []
  | .current :: rest, names => resolveNames rest names
  | .parent :: rest, names => resolveNames rest names.dropLast
  | .name s :: rest, names => resolveNames rest (names ++ [s])

/-- The absolute path of names from the root. -/
def ofNames (names : List String) : Path := ⟨"/" ++ "/".intercalate names⟩

/-- An absolute path without `.` and `..`. -/
def normalize (p : Path) : Path := ofNames (resolveNames p.components [])

/-- The path without `.` and `..`. A relative path is seen from the current folder `here`, and stays
relative when that is not known. -/
def resolve (here : Option Path) (p : Path) : Path :=
  match here with
  | some here => (here.join p).normalize
  | none =>
    if p.isAbsolute then p.normalize else ⟨"/".intercalate (resolveNames p.components [])⟩

/-- The path with a text added at its end. -/
def appendText (p : Path) (s : String) : Path := ⟨p.text ++ s⟩

end Path

end CilGraft
