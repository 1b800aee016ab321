import CilGraft.Proofs.BrokenReferences
import CilGraft.Proofs.PathWalks
import Mathlib.Data.List.DropRight

/-!
# The grammar of a header

A header comment is a line that opens it, lines of text that may be decorated with a star, and a line
that closes it. Splitting, trimming, stripping of the decoration and the early stop at a declaration
together leave the trimmed texts of the lines, and nothing of what stands behind the comment.

* `Patch.HeaderLine`, `Patch.headerComment` — a line of such a comment, and a source that begins with one.
* `Patch.headerLines_headerComment` — the header of that source.
* `Patch.Given`, `Patch.Chosen` — the value of a key: what its first line says.
* `Patch.libraryNames_of_ascii` — the libraries of a header that spells them in ASCII.
* `Descriptor.libraryPlace` — the path of a library; `libraryPath_eq`.
* `Descriptor.Describes`, `Descriptor.FirstViolation` — what a header says, and what is wrong with it first.
* `Descriptor.parse_headerComment` — the parser decides between the two.
* `Sample.parse_from_folders` — what relative paths say depends on the current folder.
-/

set_option autoImplicit false

namespace CilGraft

/-! ## Blanks at the ends -/

namespace Text

variable {s t blanks : List Char}

theorem trimStart_append_left (h : ∀ c ∈ blanks, isBlank c = true) (s : List Char) :
    trimStart (blanks ++ s) = trimStart s :=
  List.dropWhile_append_of_pos h

theorem trimEnd_append_right (h : ∀ c ∈ blanks, isBlank c = true) (s : List Char) :
    trimEnd (s ++ blanks) = trimEnd s := by
  rw [trimEnd, List.reverse_append,
    List.dropWhile_append_of_pos fun c hc => h c (List.mem_reverse.1 hc)]
  rfl

theorem trim_append_left (h : ∀ c ∈ blanks, isBlank c = true) (s : List Char) :
    trim (blanks ++ s) = trim s := by
  rw [trim, trimStart_append_left h, trim]

theorem trim_append_right (h : ∀ c ∈ blanks, isBlank c = true) (s : List Char) :
    trim (s ++ blanks) = trim s := by
  rw [trim, trim, trimStart, trimStart, List.dropWhile_append]
  split
  · rename_i hempty
    rw [List.isEmpty_iff.1 hempty, List.dropWhile_eq_nil_iff.2 h]
  · exact trimEnd_append_right h _

/-- What is trimmed off a text is blank. -/
theorem exists_trimEnd (s : List Char) :
    ∃ back, s = trimEnd s ++ back ∧ ∀ c ∈ back, isBlank c = true := by
  refine ⟨(s.reverse.takeWhile isBlank).reverse, ?_, fun c hc => ?_⟩
  · rw [trimEnd, ← List.reverse_append, List.takeWhile_append_dropWhile, List.reverse_reverse]
  · exact List.mem_takeWhile_imp (List.mem_reverse.1 hc)

theorem exists_trim (s : List Char) :
    ∃ front back, s = front ++ trim s ++ back ∧ (∀ c ∈ front, isBlank c = true) ∧
      ∀ c ∈ back, isBlank c = true := by
  obtain ⟨back, hback, hblank⟩ := exists_trimEnd (trimStart s)
  refine ⟨s.takeWhile isBlank, back, ?_, fun c => List.mem_takeWhile_imp, hblank⟩
  rw [trim, List.append_assoc, ← hback, trimStart, List.takeWhile_append_dropWhile]

theorem trim_trim (s : List Char) : trim (trim s) = trim s := by
  obtain ⟨front, back, hs, hfront, hback⟩ := exists_trim s
  conv => rhs; rw [hs, trim_append_right hback, trim_append_left hfront]

theorem trim_trimEnd (s : List Char) : trim (trimEnd s) = trim s := by
  obtain ⟨back, hs, hback⟩ := exists_trimEnd s
  conv => rhs; rw [hs, trim_append_right hback]

theorem mem_of_mem_trim {c : Char} (h : c ∈ trim s) : c ∈ s := by
  obtain ⟨front, back, hs, -⟩ := exists_trim s
  rw [hs]
  exact List.mem_append_left _ (List.mem_append_right _ h)

theorem trimEnd_trimEnd (s : List Char) : trimEnd (trimEnd s) = trimEnd s := by
  rw [trimEnd, trimEnd, List.reverse_reverse, List.dropWhile_idempotent]

theorem trimEnd_of_blank (h : ∀ c ∈ s, isBlank c = true) : trimEnd s = [] := by
  rw [trimEnd, List.dropWhile_eq_nil_iff.2 fun c hc => h c (List.mem_reverse.1 hc),
    List.reverse_nil]

theorem trimStart_of_head (h : ∀ c, s.head? = some c → isBlank c = false) : trimStart s = s := by
  cases s with
  | nil => rfl
  | cons c s => exact List.dropWhile_cons_of_neg (by rw [h c rfl]; decide)

/-- Nothing is trimmed off behind a character that is no blank. -/
theorem trimStart_append_cons {c : Char} (h : isBlank c = false) (s t : List Char) :
    trimStart (s ++ c :: t) = trimStart s ++ c :: t := by
  have hcons : List.dropWhile isBlank (c :: t) = c :: t :=
    List.dropWhile_cons_of_neg (by rw [h]; decide)
  rw [trimStart, trimStart, List.dropWhile_append, hcons]
  split
  · rename_i hempty
    rw [List.isEmpty_iff.1 hempty, List.nil_append]
  · rfl

/-- Nothing is trimmed off in front of a character that is no blank. -/
theorem trimEnd_append_cons {c : Char} (h : isBlank c = false) (s t : List Char) :
    trimEnd (s ++ c :: t) = s ++ c :: trimEnd t := by
  have hcons : ∀ u, List.dropWhile isBlank (c :: u) = c :: u := fun u =>
    List.dropWhile_cons_of_neg (by rw [h]; decide)
  rw [trimEnd, trimEnd, List.reverse_append, List.reverse_cons, List.append_assoc,
    List.singleton_append, List.dropWhile_append, hcons]
  split
  · rename_i hempty
    rw [List.isEmpty_iff.1 hempty, List.reverse_cons, List.reverse_reverse]
    rfl
  · rw [List.reverse_append, List.reverse_cons, List.reverse_reverse, List.append_assoc,
      List.singleton_append]

theorem trimEnd_cons {c : Char} (h : isBlank c = false) (s : List Char) :
    trimEnd (c :: s) = c :: trimEnd s :=
  trimEnd_append_cons h [] s

theorem trim_cons {c : Char} (h : isBlank c = false) (s : List Char) :
    trim (c :: s) = c :: trimEnd s := by
  have hstart : trimStart (c :: s) = c :: s := List.dropWhile_cons_of_neg (by rw [h]; decide)
  rw [trim, hstart, trimEnd_cons h]

/-- A trimmed text begins as the text does behind its blanks. -/
theorem head?_trim {c : Char} (h : (trim s).head? = some c) : (trimStart s).head? = some c := by
  obtain ⟨back, hs, -⟩ := exists_trimEnd (trimStart s)
  rw [hs, List.head?_append, ← trim, h, Option.some_or]

/-! ## Lines -/

theorem cutLines_append_cons (h : '\n' ∉ s) (t : List Char) :
    cutLines (s ++ '\n' :: t) = (s ++ ['\n']) :: cutLines t := by
  induction s with
  | nil => exact if_pos rfl
  | cons c s ih =>
    obtain ⟨hc, hs⟩ := not_or.1 (mt List.mem_cons.2 h)
    rw [List.cons_append, cutLines, if_neg (Ne.symm hc), ih hs, List.cons_append]

/-- The first line of two texts begins with the first text, when no line ends in it. -/
theorem cutLines_append_left (hs : s ≠ []) (h : '\n' ∉ s) (t : List Char) :
    cutLines (s ++ t) = (s ++ (cutLines t).headD []) :: (cutLines t).tail := by
  induction s with
  | nil => exact absurd rfl hs
  | cons c s ih =>
    obtain ⟨hc, hrest⟩ := List.ne_and_not_mem_of_not_mem_cons h
    rw [List.cons_append, cutLines, if_neg (Ne.symm hc)]
    cases s with
    | nil =>
      rw [List.nil_append]
      cases cutLines t <;> rfl
    | cons d s =>
      rw [ih (List.cons_ne_nil d s) hrest]
      rfl

/-- A line has its text, and behind it what ends it. -/
theorem exists_lineText (line : List Char) :
    ∃ ending ∈ [[], ['\n'], ['\r', '\n']], line = lineText line ++ ending := by
  rw [lineText]
  split
  · rename_i front h
    refine ⟨['\r', '\n'], by decide, ?_⟩
    rw [← List.reverse_reverse line, h, List.reverse_cons, List.reverse_cons, List.append_assoc]
    rfl
  · rename_i front _ h
    refine ⟨['\n'], by decide, ?_⟩
    rw [← List.reverse_reverse line, h, List.reverse_cons]
  · exact ⟨[], by decide, (List.append_nil line).symm⟩

theorem isBlank_of_mem_ending {ending : List Char} (h : ending ∈ [[], ['\n'], ['\r', '\n']]) :
    ∀ c ∈ ending, isBlank c = true := by
  have hall : [[], ['\n'], ['\r', '\n']].all (·.all isBlank) = true := by decide
  exact List.all_eq_true.1 (List.all_eq_true.1 hall ending h)

/-- What ends a line is blank. -/
theorem trim_lineText (line : List Char) : trim (lineText line) = trim line := by
  obtain ⟨ending, hending, hline⟩ := exists_lineText line
  conv => rhs; rw [hline, trim_append_right (isBlank_of_mem_ending hending)]

end Text

namespace Patch

open Text

/-! ## Header comments -/

/-- A line as it is written: blanks, maybe a star, blanks, and a text. -/
def writtenLine (indent : List Char) (star : Bool) (gap text : List Char) : List Char :=
  indent ++ (if star then ['*'] else []) ++ gap ++ text

/-- A line of a header comment. Without a star in front of it its text begins with none, and the line
as a whole neither ends early, nor closes the comment, nor declares anything. -/
structure HeaderLine where
  indent : List Char
  star : Bool
  gap : List Char
  text : List Char
  blank_indent : ∀ c ∈ indent, isBlank c = true
  blank_gap : ∀ c ∈ gap, isBlank c = true
  plain : star = false → (trimStart text).head? ≠ some '*'
  unbroken : '\n' ∉ writtenLine indent star gap text
  unclosed : ¬ closeMark <:+: writtenLine indent star gap text
  undeclared : isDeclaration (trim (writtenLine indent star gap text)) = false

/-- What ends the lines of a source. -/
inductive LineEnd where
  | feed
  | returnAndFeed

/-- The characters in front of the line feed. -/
def LineEnd.lead : LineEnd → List Char
  | .feed => []
  | .returnAndFeed => ['\r']

namespace HeaderLine

def written (l : HeaderLine) : List Char := writtenLine l.indent l.star l.gap l.text

/-- The text of a line, as it counts. -/
def shown (l : HeaderLine) : List Char := trim l.text

/-- The texts of the lines that are not blank. -/
def texts (ls : List HeaderLine) : List (List Char) := (ls.map shown).filter (· ≠ [])

end HeaderLine

/-- The lines of a comment with what closes it, and behind it any text. -/
def commentFrom (ending : LineEnd) (ls : List HeaderLine) (behind : List Char) : List Char :=
  match ls with
  | [] => closeMark ++ behind
  | l :: ls => l.written ++ ending.lead ++ '\n' :: commentFrom ending ls behind

/-- A source that begins with a header comment. -/
def headerComment (ending : LineEnd) (ls : List HeaderLine) (behind : List Char) : List Char :=
  openMark ++ ending.lead ++ '\n' :: commentFrom ending ls behind

/-! ## The header of a comment -/

section Lines

variable {ending : LineEnd} {raw s : List Char} {inside : Bool} {more : List (List Char)}

theorem LineEnd.isBlank_of_mem {c : Char} (h : c ∈ ending.lead) : isBlank c = true := by
  cases ending with
  | feed => cases h
  | returnAndFeed => rw [List.mem_singleton.1 h]; rfl

theorem LineEnd.feed_not_mem (ending : LineEnd) : '\n' ∉ ending.lead := by
  cases ending <;> decide

/-- A line of a source, up to the blanks at its ends. -/
theorem exists_lines_line (h : '\n' ∉ raw) (ending : LineEnd) (s : List Char) :
    ∃ line, lines (raw ++ ending.lead ++ '\n' :: s) = line :: lines s ∧ trim line = trim raw := by
  have hline : '\n' ∉ raw ++ ending.lead := by
    rw [List.mem_append, not_or]
    exact ⟨h, ending.feed_not_mem⟩
  refine ⟨lineText (raw ++ ending.lead ++ ['\n']), ?_, ?_⟩
  · rw [lines, cutLines_append_cons hline, List.map_cons, lines]
  · rw [trim_lineText, trim_append_right (List.all_eq_true.1 (by decide)),
      trim_append_right fun c => LineEnd.isBlank_of_mem]

theorem breakOn?_eq_none {mark : List Char} (h : ¬ mark <:+: s) : breakOn? mark s = none := by
  refine Option.eq_none_iff_forall_ne_some.2 fun (front, rest) hbreak => h ⟨front, rest, ?_⟩
  exact (eq_append_of_breakOn? hbreak).symm

/-- No word of a declaration begins with a star, a slash or an at sign. -/
theorem isDeclaration_of_mark {c : Char} (h : c = '*' ∨ c = '/' ∨ c = '@') (s : List Char) :
    isDeclaration (c :: s) = false := by
  have hend : endsWord c = false := by rcases h with rfl | rfl | rfl <;> rfl
  have hblock : c ≠ blockMark := by rcases h with rfl | rfl | rfl <;> decide
  have hnone : ∀ word ∈ modifierWords ++ declarationWords, word.toList.head? ≠ some c := by
    rcases h with rfl | rfl | rfl <;> decide
  obtain ⟨w, ws, hpieces⟩ := exists_pieces_eq_cons endsWord s
  have hother : ∀ word ∈ modifierWords ++ declarationWords, String.ofList (c :: w) ≠ word := by
    rintro word hword rfl
    exact hnone _ hword (by rw [String.toList_ofList]; rfl)
  have hwords : lineWords (c :: s) =
      String.ofList (c :: w) :: (ws.filter (!·.isEmpty)).map String.ofList := by
    rw [lineWords, pieces_cons_of_not hend hpieces]
    rfl
  have hmodifier : modifierWords.contains (String.ofList (c :: w)) = false :=
    Bool.eq_false_iff.2 fun hmem =>
      hother _ (List.mem_append_left _ (List.contains_iff_mem.1 hmem)) rfl
  have hdeclaration : declarationWords.contains (String.ofList (c :: w)) = false :=
    Bool.eq_false_iff.2 fun hmem =>
      hother _ (List.mem_append_right _ (List.contains_iff_mem.1 hmem)) rfl
  rw [isDeclaration, hwords, List.find?_cons_of_pos (by rw [hmodifier]; rfl)]
  simp only [List.head?_cons, hdeclaration, Bool.or_false, beq_eq_false_iff_ne, ne_eq,
    Option.some.injEq]
  exact hblock

/-- The line that opens the comment says nothing. -/
theorem headerFrom_open (h : trim raw = openMark) :
    headerFrom false (raw :: more) = headerFrom true more := by
  rw [headerFrom, h, if_neg (by decide)]
  rfl

/-- What stands behind the end of the comment is not looked at. -/
theorem headerFrom_close (h : trim raw = closeMark ++ s) : headerFrom true (raw :: more) = [] := by
  have hdeclares : isDeclaration (closeMark ++ s) = false := isDeclaration_of_mark (.inl rfl) _
  have hbreak : breakOn? closeMark (closeMark ++ s) = some ([], s) := by
    rw [closeMark, List.cons_append, breakOn?, after?_eq_some_iff.2 (List.cons_append ..)]
  rw [headerFrom, h]
  simp only [hdeclares, if_true, Bool.false_eq_true, if_false, hbreak]
  rfl

/-- The text of a line of the comment is what its star decorates. -/
theorem HeaderLine.plainText_trim (l : HeaderLine) : plainText (trim l.written) = l.shown := by
  have hindent : trim l.written = trim ((if l.star then ['*'] else []) ++ (l.gap ++ l.text)) := by
    rw [written, writtenLine, List.append_assoc, List.append_assoc,
      trim_append_left l.blank_indent]
  rw [hindent]
  cases hstar : l.star with
  | true =>
    rw [if_pos rfl, List.singleton_append, trim_cons (by decide), plainText, trim_trimEnd,
      trim_append_left l.blank_gap, shown]
  | false =>
    rw [if_neg Bool.false_ne_true, List.nil_append, trim_append_left l.blank_gap, ← shown]
    have hhead : ∀ rest, l.shown ≠ '*' :: rest := fun rest hrest =>
      l.plain hstar (head?_trim (by rw [← shown, hrest]; rfl))
    rw [plainText.eq_2 _ hhead, shown, trim_trim]

/-- One line of the comment adds its text, unless it is blank. -/
theorem headerFrom_line (l : HeaderLine) (h : trim raw = trim l.written) :
    headerFrom true (raw :: more) =
      (if l.shown = [] then [] else [l.shown]) ++ headerFrom true more := by
  have hunclosed : breakOn? closeMark (trim l.written) = none := by
    refine breakOn?_eq_none fun hpiece => l.unclosed (List.IsInfix.trans hpiece ?_)
    obtain ⟨front, back, hs, -⟩ := exists_trim l.written
    exact ⟨front, back, hs.symm⟩
  have hundeclared : isDeclaration (trim l.written) = false := l.undeclared
  rw [headerFrom, h]
  simp only [hundeclared, if_true, Bool.false_eq_true, if_false, hunclosed]
  rw [keepText, l.plainText_trim]

theorem headerFrom_commentFrom (ending : LineEnd) (ls : List HeaderLine) (behind : List Char) :
    headerFrom true (lines (commentFrom ending ls behind)) = HeaderLine.texts ls := by
  induction ls with
  | nil =>
    have htrim : ∀ line, trim (lineText (closeMark ++ line)) = closeMark ++ trimEnd line := by
      intro line
      rw [trim_lineText, closeMark, List.cons_append, trim_cons (by decide)]
      exact congrArg ('*' :: ·) (trimEnd_cons (by decide) line)
    rw [commentFrom, lines, cutLines_append_left (by decide) (by decide), List.map_cons,
      headerFrom_close (htrim _)]
    rfl
  | cons l ls ih =>
    obtain ⟨line, hlines, htrim⟩ :=
      exists_lines_line l.unbroken ending (commentFrom ending ls behind)
    rw [commentFrom, HeaderLine.written, hlines, headerFrom_line l htrim, ih]
    by_cases hblank : l.shown = []
    · rw [if_pos hblank, HeaderLine.texts, HeaderLine.texts, List.map_cons,
        List.filter_cons_of_neg (by simpa using hblank), List.nil_append]
    · rw [if_neg hblank, HeaderLine.texts, HeaderLine.texts, List.map_cons,
        List.filter_cons_of_pos (by simpa using hblank), List.singleton_append]

/-- **The header of a source is the texts of its comment**, whatever stands behind the comment. -/
theorem headerLines_headerComment (ending : LineEnd) (ls : List HeaderLine) (behind : List Char) :
    headerLines (headerComment ending ls behind) = HeaderLine.texts ls := by
  obtain ⟨line, hlines, htrim⟩ :=
    exists_lines_line (show '\n' ∉ openMark by decide) ending (commentFrom ending ls behind)
  rw [headerLines, headerComment, hlines, headerFrom_open (htrim.trans (by decide)),
    headerFrom_commentFrom]

end Lines

/-! ## Values -/

/-- The first line that gives the key a value gives it this one, which is not blank. -/
def Given (texts : List (List Char)) (key value : String) : Prop :=
  ∃ before rest after, texts = before ++ ('@' :: key.toList ++ '=' :: rest) :: after ∧
    (∀ other ∈ before, ¬ ('@' :: key.toList ++ ['=']) <+: other) ∧
    trim rest ≠ [] ∧ value = String.ofList (trim rest)

/-- The value of a key that may be left out. -/
def Chosen (texts : List (List Char)) (key otherwise value : String) : Prop :=
  Given texts key value ∨ (∀ given, ¬ Given texts key given) ∧ value = otherwise

section Values

variable {texts : List (List Char)} {key value otherwise : String}

theorem valueIn?_eq_some_iff {line rest : List Char} :
    valueIn? key line = some rest ↔ line = '@' :: key.toList ++ '=' :: rest := by
  rw [valueIn?, after?_eq_some_iff, List.append_assoc, List.singleton_append]

theorem valueIn?_eq_none_iff {line : List Char} :
    valueIn? key line = none ↔ ¬ ('@' :: key.toList ++ ['=']) <+: line := by
  rw [Option.eq_none_iff_forall_ne_some, List.prefix_iff_exists_append_eq, not_exists]
  refine forall_congr' fun rest => not_congr ?_
  rw [valueIn?, after?_eq_some_iff, eq_comm]

/-- **The first line of a key decides its value.** -/
theorem headerValue?_eq_some_iff {found : List Char} :
    headerValue? texts key = some found ↔ Given texts key (String.ofList found) := by
  rw [headerValue?]
  constructor
  · intro h
    split at h
    · cases h
    · rename_i rest hrest
      obtain ⟨before, line, after, htexts, hline, hbefore⟩ := List.findSome?_eq_some_iff.1 hrest
      split at h
      · cases h
      · rename_i hblank
        rw [valueIn?_eq_some_iff.1 hline] at htexts
        exact ⟨before, rest, after, htexts,
          fun other hother => valueIn?_eq_none_iff.1 (hbefore other hother), hblank,
          congrArg String.ofList (Option.some.inj h).symm⟩
  · rintro ⟨before, rest, after, htexts, hbefore, hblank, hvalue⟩
    have hrest : texts.findSome? (valueIn? key) = some rest :=
      List.findSome?_eq_some_iff.2 ⟨before, _, after, htexts, valueIn?_eq_some_iff.2 rfl,
        fun other hother => valueIn?_eq_none_iff.2 (hbefore other hother)⟩
    rw [hrest]
    dsimp only
    rw [if_neg hblank, String.ofList_injective hvalue]

theorem headerValue?_eq_none_iff :
    headerValue? texts key = none ↔ ∀ value, ¬ Given texts key value := by
  rw [Option.eq_none_iff_forall_ne_some]
  constructor
  · intro h value hvalue
    refine h value.toList (headerValue?_eq_some_iff.2 ?_)
    rwa [String.ofList_toList]
  · exact fun h found hfound => h _ (headerValue?_eq_some_iff.1 hfound)

end Values

/-! ## Libraries -/

/-- The name has the ending of a library, in any case, and something in front of it. -/
def isLibrary (name : List Char) : Bool :=
  libraryEnding.length < name.length &&
    sameIgnoringAsciiCase (name.drop (name.length - libraryEnding.length)) libraryEnding

/-- The name in a line that asks for a library, without semicolons at its end and white space around
it. -/
def requestedIn (text : List Char) : Option (List Char) :=
  if "@using ".toList <+: text then
    some (trim ((trim (text.drop 7)).rdropWhile (· == ';')))
  else none

/-- The libraries that a header asks for, in their order. -/
def requested (texts : List (List Char)) : List (List Char) :=
  (texts.filterMap requestedIn).filter isLibrary

section Libraries

variable {name line : List Char} {texts : List (List Char)}

theorem libraryIn?_eq (line : List Char) : libraryIn? line = requestedIn line := by
  rw [libraryIn?, requestedIn]
  by_cases hasks : "@using ".toList <+: line
  · obtain ⟨rest, rfl⟩ := hasks
    have hrest : after? usingMark ("@using ".toList ++ rest) = some rest :=
      after?_eq_some_iff.2 rfl
    rw [if_pos (List.prefix_append _ _), hrest]
    rfl
  · rw [if_neg hasks, Option.map_eq_none_iff, Option.eq_none_iff_forall_ne_some]
    exact fun rest hrest => hasks ⟨rest, (after?_eq_some_iff.1 hrest).symm⟩

theorem mem_of_libraryIn? (h : libraryIn? line = some name) :
    usingMark <+: line ∧ ∀ c ∈ name, c ∈ line := by
  obtain ⟨rest, hrest, rfl⟩ := Option.map_eq_some_iff.1 h
  rw [after?_eq_some_iff.1 hrest]
  refine ⟨List.prefix_append _ _, fun c hc => List.mem_append_right _ ?_⟩
  have hstripped := List.mem_reverse.1 (mem_of_mem_trim hc)
  exact mem_of_mem_trim (List.mem_reverse.1 ((List.dropWhile_sublist _).subset hstripped))

/-- An ending in ASCII is as many bytes as it is characters. -/
theorem endOfSize?_append {ending : List Char} (h : ∀ c ∈ ending, c.toNat < 128)
    (front : List Char) : Utf8.endOfSize? ending.length (front ++ ending) = some ending := by
  have hfront : ∀ s t : List Char, (∀ c ∈ s, c.toNat < 128) →
      Utf8.frontOfSize? s.length (s ++ t) = some s := by
    intro s t
    induction s with
    | nil => exact fun _ => Utf8.frontOfSize?.eq_1 t
    | cons c s ih =>
      intro hs
      obtain ⟨hc, hs⟩ := List.forall_mem_cons.1 hs
      have hsize : c.utf8Size = 1 := Char.utf8Size_eq_one_iff.2 (Nat.le_of_lt_succ hc)
      rw [List.length_cons, List.cons_append, Utf8.frontOfSize?, hsize,
        if_pos (Nat.le_add_left 1 _), Nat.add_sub_cancel, ih hs]
      rfl
  have hending := hfront ending.reverse front.reverse fun c hc => h c (List.mem_reverse.1 hc)
  rw [List.length_reverse] at hending
  rw [Utf8.endOfSize?, List.reverse_append, hending, Option.map_some, List.reverse_reverse]

/-- The ending of a name in ASCII is as many characters as it is bytes. -/
theorem endOfSize?_of_ascii {n : Nat} (hname : ∀ c ∈ name, c.toNat < 128) (hn : n ≤ name.length) :
    Utf8.endOfSize? n name = some (name.drop (name.length - n)) := by
  have hascii : ∀ c ∈ name.drop (name.length - n), c.toNat < 128 := fun c hc =>
    hname c (List.mem_of_mem_drop hc)
  have hending := endOfSize?_append hascii (name.take (name.length - n))
  rwa [List.take_append_drop, List.length_drop, Nat.sub_sub_self hn] at hending

theorem length_encode_of_ascii (hname : ∀ c ∈ name, c.toNat < 128) :
    (Utf8.encode name).length = name.length := by
  induction name with
  | nil => rfl
  | cons c name ih =>
    obtain ⟨hc, hname⟩ := List.forall_mem_cons.1 hname
    have hsize : c.utf8Size = 1 := Char.utf8Size_eq_one_iff.2 (Nat.le_of_lt_succ hc)
    rw [Utf8.length_encode_cons, ih hname, hsize, List.length_cons, Nat.add_comm]

/-- **The libraries of a header are those that it asks for** when it spells them in ASCII. -/
theorem libraryNames_of_ascii
    (h : ∀ text ∈ texts, usingMark <+: text → ∀ c ∈ text, c.toNat < 128) :
    libraryNames texts = .ok (requested texts) := by
  induction texts with
  | nil => rfl
  | cons text texts ih =>
    obtain ⟨htext, htexts⟩ := List.forall_mem_cons.1 h
    rw [libraryNames, requested]
    cases hname : libraryIn? text with
    | none =>
      rw [List.filterMap_cons_none (libraryIn?_eq text ▸ hname)]
      exact ih htexts
    | some name =>
      obtain ⟨hasks, hmem⟩ := mem_of_libraryIn? hname
      have hascii : ∀ c ∈ name, c.toNat < 128 := fun c hc => htext hasks c (hmem c hc)
      rw [List.filterMap_cons_some (libraryIn?_eq text ▸ hname)]
      dsimp only
      rw [isLongerThanEnding, length_encode_of_ascii hascii]
      by_cases hlonger : libraryEnding.length < name.length
      · rw [decide_eq_true hlonger, endOfSize?_of_ascii hascii hlonger.le, ih htexts, requested,
          List.filter_cons, isLibrary, decide_eq_true hlonger, Bool.true_and]
        rfl
      · rw [decide_eq_false hlonger, ih htexts, requested,
          List.filter_cons_of_neg (by rw [isLibrary, decide_eq_false hlonger]; exact Bool.false_ne_true)]
        rfl

end Libraries

end Patch

namespace Descriptor

open Patch

/-! ## What a header says -/

/-- A required key has a value. A location is one of two. -/
def Met (texts : List (List Char)) (key : String) : Prop :=
  ∃ value, Given texts key value ∧
    (key = "TargetLocation" → value = "Prefix" ∨ value = "Postfix")

/-- A required key is missing, or the value of the location is none. -/
def Violated (texts : List (List Char)) (key : String) (e : Error) : Prop :=
  (∀ value, ¬ Given texts key value) ∧ e = .missingField key ∨
    key = "TargetLocation" ∧ ∃ value, Given texts key value ∧
      value ≠ "Prefix" ∧ value ≠ "Postfix" ∧ e = .unknownLocation value

/-- The first of some keys that is violated. -/
def FirstViolation (texts : List (List Char)) (keys : List String) (e : Error) : Prop :=
  ∃ before key after, keys = before ++ key :: after ∧ (∀ other ∈ before, Met texts other) ∧
    Violated texts key e

/-- The text behind the last separator of a path, of either kind. -/
def IsLastName (path name : List Char) : Prop :=
  (∀ c ∈ name, c ≠ '/' ∧ c ≠ '\\') ∧
    ∃ front, path = front ++ name ∧ ∀ c, front.getLast? = some c → c = '/' ∨ c = '\\'

/-- The path of a library that is called `name`. It leads from the root, or from the folder of the
source, which leads from the root or from the current folder. When that is not known, all of the path
is relative. -/
def libraryPlace (here : Option Path) (source : Path) (name : List Char) : Path :=
  let folder := (source.parent?.getD ⟨""⟩).text.toList
  if name.head? = some '/' then Path.ofNames (Path.walk [] name)
  else if folder.head? = some '/' then Path.ofNames (Path.walk (Path.walk [] folder) name)
  else match here with
    | some here => Path.ofNames (Path.walk (Path.walk (Path.walk [] here.text.toList) folder) name)
    | none => ⟨"/".intercalate (Path.walk (Path.walk [] folder) name)⟩

/-- Each field of a descriptor is what the header says about it, or its default. -/
structure Describes (texts : List (List Char)) (source : Path) (checksum : Checksum)
    (defaults : Defaults) (here : Option Path) (p : Descriptor) : Prop where
  class_ : Given texts "TargetClass" p.class_
  method : Given texts "TargetMethod" p.method
  location : Given texts "TargetLocation" p.location.name
  patchClass : Given texts "PatchClass" p.patchClass
  patchMethod : Given texts "PatchMethod" p.patchMethod
  name : Chosen texts "Name" ("UnnamedPatch(" ++ checksum.text ++ ")") p.name
  description : Chosen texts "Description" "" p.description
  framework : Chosen texts "TargetFramework" defaults.framework p.framework
  module : Chosen texts "TargetModule" "MainModule" p.module
  namespace_ : Chosen texts "TargetNamespace" "" p.namespace_
  /-- of a path, its last name -/
  assembly : (∃ path, Given texts "TargetAssembly" path ∧
      IsLastName path.toList p.assembly.toList) ∨
    (∀ path, ¬ Given texts "TargetAssembly" path) ∧ p.assembly = defaults.assembly
  references : p.references = (requested texts).map (libraryPlace here source)
  checksum : p.checksum = checksum
  source : p.source = source
  artifact : p.artifact = none

section Fields

variable {texts : List (List Char)} {key value otherwise : String} {keys : List String} {e : Error}
  {source : Path} {checksum : Checksum} {defaults : Defaults} {here : Option Path} {p : Descriptor}

/-- A key has at most one value. -/
theorem given_unique {value' : String} (h : Given texts key value) (h' : Given texts key value') :
    value = value' := by
  rw [← String.ofList_toList (s := value), ← headerValue?_eq_some_iff] at h
  rw [← String.ofList_toList (s := value'), ← headerValue?_eq_some_iff, h] at h'
  exact String.toList_injective (Option.some.inj h')

theorem required_eq_ok_iff : required texts key = .ok value ↔ Given texts key value := by
  rw [required]
  cases hvalue : headerValue? texts key with
  | none => exact iff_of_false (by simp) (headerValue?_eq_none_iff.1 hvalue value)
  | some found =>
    have hgiven := headerValue?_eq_some_iff.1 hvalue
    rw [Except.ok.injEq]
    exact ⟨fun h => h ▸ hgiven, fun h => given_unique hgiven h⟩

theorem required_eq_error_iff :
    required texts key = .error e ↔ (∀ value, ¬ Given texts key value) ∧ e = .missingField key := by
  rw [required, ← headerValue?_eq_none_iff]
  cases headerValue? texts key with
  | none => rw [Except.error.injEq, eq_comm, and_iff_right rfl]
  | some found => exact iff_of_false (by simp) (by simp)

theorem optional_eq_iff :
    optional texts key otherwise = value ↔ Chosen texts key otherwise value := by
  rw [optional, Chosen, ← headerValue?_eq_none_iff]
  cases hvalue : headerValue? texts key with
  | none =>
    have hnone := headerValue?_eq_none_iff.1 hvalue value
    exact ⟨fun h => .inr ⟨rfl, h.symm⟩, fun h => (h.resolve_left hnone).2.symm⟩
  | some found =>
    have hgiven := headerValue?_eq_some_iff.1 hvalue
    refine ⟨fun h => .inl (h ▸ hgiven), fun h => ?_⟩
    exact given_unique hgiven (h.resolve_right fun hnone => nomatch hnone.1)

/-- The last name of a path: what is behind the last separator. -/
theorem isLastName_iff {path name : List Char} : IsLastName path name ↔ name = lastName path := by
  let isSeparator (c : Char) : Bool := c == '/' || c == '\\'
  have hlast : lastName path = (path.reverse.takeWhile (!isSeparator ·)).reverse := rfl
  have hseparator (c : Char) : isSeparator c = true ↔ c = '/' ∨ c = '\\' := by simp [isSeparator]
  constructor
  · rintro ⟨hname, front, hpath, hfront⟩
    have htaken : ∀ c ∈ name.reverse, (!isSeparator c) = true := fun c hc => by
      simpa [isSeparator] using hname c (List.mem_reverse.1 hc)
    have hrest : front.reverse.takeWhile (!isSeparator ·) = [] := by
      cases hreversed : front.reverse with
      | nil => rfl
      | cons c others =>
        have hc : front.getLast? = some c := by
          rw [← List.head?_reverse, hreversed, List.head?_cons]
        exact List.takeWhile_cons_of_neg (by rw [(hseparator c).2 (hfront c hc)]; decide)
    rw [hlast, hpath, List.reverse_append, List.takeWhile_append_of_pos htaken, hrest,
      List.append_nil, List.reverse_reverse]
  · rintro rfl
    refine ⟨fun c hc => ?_, (path.reverse.dropWhile (!isSeparator ·)).reverse, ?_, fun c hc => ?_⟩
    · rw [hlast, List.mem_reverse] at hc
      simpa [isSeparator] using List.mem_takeWhile_imp hc
    · rw [hlast, ← List.reverse_append, List.takeWhile_append_dropWhile, List.reverse_reverse]
    · rw [List.getLast?_reverse] at hc
      have hhead := List.head?_dropWhile_not (!isSeparator ·) path.reverse
      rw [hc] at hhead
      exact (hseparator c).1 (by simpa using hhead)

theorem assembly_eq_iff : (match headerValue? texts "TargetAssembly" with
      | some path => String.ofList (lastName path)
      | none => otherwise) = value ↔
    (∃ path, Given texts "TargetAssembly" path ∧ IsLastName path.toList value.toList) ∨
    (∀ path, ¬ Given texts "TargetAssembly" path) ∧ value = otherwise := by
  rw [← headerValue?_eq_none_iff]
  cases hpath : headerValue? texts "TargetAssembly" with
  | none =>
    have hnone := headerValue?_eq_none_iff.1 hpath
    exact ⟨fun h => .inr ⟨rfl, h.symm⟩,
      fun h => (h.resolve_left fun ⟨path, hgiven, _⟩ => hnone path hgiven).2.symm⟩
  | some found =>
    have hgiven := headerValue?_eq_some_iff.1 hpath
    refine ⟨fun h => .inl ⟨_, hgiven, ?_⟩, fun h => ?_⟩
    · rw [isLastName_iff, ← h, String.toList_ofList, String.toList_ofList]
    · obtain ⟨path, hgiven', hlast⟩ := h.resolve_right fun hnone => nomatch hnone.1
      rw [isLastName_iff, ← given_unique hgiven hgiven', String.toList_ofList] at hlast
      show String.ofList (lastName found) = value
      rw [← hlast, String.ofList_toList]

theorem ofName?_eq (value : String) : Location.ofName? value =
    if value = "Prefix" then some .entry else if value = "Postfix" then some .exits else none := by
  rw [Location.ofName?, Location.all, List.find?_cons, List.find?_cons, List.find?_nil]
  simp only [Location.name, beq_eq_decide, eq_comm (b := value)]
  by_cases hentry : value = "Prefix" <;> by_cases hexits : value = "Postfix" <;>
    simp [hentry, hexits]

theorem locationOf_eq_ok_iff {location : Location} :
    locationOf value = .ok location ↔ value = location.name := by
  rw [locationOf, ofName?_eq]
  by_cases hentry : value = "Prefix"
  · subst hentry
    cases location <;> decide
  · by_cases hexits : value = "Postfix"
    · subst hexits
      cases location <;> decide
    · rw [if_neg hentry, if_neg hexits]
      cases location
      · exact iff_of_false (by simp) hentry
      · exact iff_of_false (by simp) hexits

theorem locationOf_eq_error_iff : locationOf value = .error e ↔
    value ≠ "Prefix" ∧ value ≠ "Postfix" ∧ e = .unknownLocation value := by
  rw [locationOf, ofName?_eq]
  by_cases hentry : value = "Prefix"
  · rw [if_pos hentry]
    exact iff_of_false (by simp) fun h => h.1 hentry
  · by_cases hexits : value = "Postfix"
    · rw [if_neg hentry, if_pos hexits]
      exact iff_of_false (by simp) fun h => h.2.1 hexits
    · rw [if_neg hentry, if_neg hexits, Except.error.injEq, and_iff_right hentry,
        and_iff_right hexits, eq_comm]

/-! ## What is wrong with a header -/

theorem forall_not_violated_iff : (∀ e, ¬ Violated texts key e) ↔ Met texts key := by
  constructor
  · intro h
    by_cases hgiven : ∃ value, Given texts key value
    · obtain ⟨value, hgiven⟩ := hgiven
      refine ⟨value, hgiven, fun hkey => or_iff_not_imp_left.2 fun hentry => ?_⟩
      by_contra hexits
      exact h _ (.inr ⟨hkey, value, hgiven, hentry, hexits, rfl⟩)
    · exact absurd (.inl ⟨not_exists.1 hgiven, rfl⟩) (h _)
  · rintro ⟨value, hgiven, hlocated⟩ e (hnone | ⟨hkey, value', hgiven', hentry, hexits, -⟩)
    · exact hnone.1 value hgiven
    · rcases hlocated hkey with h | h
      · exact hentry (given_unique hgiven' hgiven ▸ h)
      · exact hexits (given_unique hgiven' hgiven ▸ h)

theorem not_firstViolation_nil : ¬ FirstViolation texts [] e := by
  rintro ⟨before, key, after, hkeys, -⟩
  cases before <;> cases hkeys

theorem firstViolation_cons : FirstViolation texts (key :: keys) e ↔
    Violated texts key e ∨ Met texts key ∧ FirstViolation texts keys e := by
  constructor
  · rintro ⟨before, first, after, hkeys, hmet, hviolated⟩
    cases before with
    | nil =>
      obtain ⟨rfl, -⟩ := List.cons.inj hkeys
      exact .inl hviolated
    | cons other before =>
      obtain ⟨rfl, hrest⟩ := List.cons.inj hkeys
      obtain ⟨hother, hmet⟩ := List.forall_mem_cons.1 hmet
      exact .inr ⟨hother, before, first, after, hrest, hmet, hviolated⟩
  · rintro (hviolated | ⟨hkey, before, first, after, rfl, hmet, hviolated⟩)
    · exact ⟨[], key, keys, rfl, fun _ => nofun, hviolated⟩
    · exact ⟨key :: before, first, after, rfl, List.forall_mem_cons.2 ⟨hkey, hmet⟩, hviolated⟩

/-- Either all keys are met, or there is a first one that is not. -/
theorem forall_met_iff :
    (∀ key ∈ keys, Met texts key) ↔ ∀ e, ¬ FirstViolation texts keys e := by
  induction keys with
  | nil => exact iff_of_true (fun _ => nofun) fun _ => not_firstViolation_nil
  | cons key keys ih =>
    rw [List.forall_mem_cons, ih]
    constructor
    · rintro ⟨hkey, hkeys⟩ e hfirst
      rcases firstViolation_cons.1 hfirst with hviolated | ⟨-, hlater⟩
      · exact forall_not_violated_iff.2 hkey e hviolated
      · exact hkeys e hlater
    · intro h
      have hkey : Met texts key := forall_not_violated_iff.1 fun e hviolated =>
        h e (firstViolation_cons.2 (.inl hviolated))
      exact ⟨hkey, fun e hlater => h e (firstViolation_cons.2 (.inr ⟨hkey, hlater⟩))⟩

/-! ## The paths of libraries -/

/-- **The path of a library** is where its name leads. -/
theorem libraryPath_eq (source : Path) (name : List Char) (here : Option Path) :
    libraryPath source name here = libraryPlace here source name := by
  have htext : (Path.mk (String.ofList name)).text.toList = name := String.toList_ofList
  have habsolute (p : Path) : p.isAbsolute = true ↔ p.text.toList.head? = some '/' := beq_iff_eq
  rw [libraryPath, Path.resolve_eq, Path.isAbsolute_join]
  unfold libraryPlace
  simp only [Path.walk_join, Bool.or_eq_true, habsolute, htext, baseOf]
  by_cases hname : name.head? = some '/'
  · rw [if_pos (.inl hname), if_pos hname, if_pos hname]
  · rw [if_neg hname, if_neg hname]
    by_cases hfolder : (source.parent?.getD ⟨""⟩).text.toList.head? = some '/'
    · rw [if_pos (.inr hfolder), if_pos hfolder]
    · rw [if_neg (not_or_intro hname hfolder), if_neg hfolder]
      cases here with
      | none => rfl
      | some here =>
        dsimp only
        rw [if_neg hname]

/-- From where paths are seen does not matter for a source in a folder with an absolute path. -/
theorem libraryPath_of_isAbsolute (h : (baseOf source).isAbsolute = true) (name : List Char)
    (here here' : Option Path) : libraryPath source name here = libraryPath source name here' :=
  Path.resolve_of_isAbsolute (by rw [Path.isAbsolute_join, h, Bool.or_true]) here here'

/-! ## Parsing -/

/-- A step for a key stops the parser exactly when the key is violated. -/
theorem bind_eq_error_iff_firstViolation {α β : Type} {x : Except Error α}
    {f : α → Except Error β} (hviolated : x = .error e ↔ Violated texts key e)
    (hmet : (∃ a, x = .ok a) ↔ Met texts key)
    (hf : ∀ a, f a = .error e ↔ FirstViolation texts keys e) :
    (x >>= f) = .error e ↔ FirstViolation texts (key :: keys) e := by
  rw [firstViolation_cons, bind_eq_error_iff, hviolated]
  simp only [hf, exists_and_right, hmet]

theorem required_bind_eq_error_iff {α : Type} {f : String → Except Error α}
    (hkey : key ≠ "TargetLocation")
    (hf : ∀ value, f value = .error e ↔ FirstViolation texts keys e) :
    (required texts key >>= f) = .error e ↔ FirstViolation texts (key :: keys) e := by
  refine bind_eq_error_iff_firstViolation ?_ (exists_congr fun value => ?_) hf
  · rw [required_eq_error_iff, Violated]
    exact (or_iff_left fun h => hkey h.1).symm
  · rw [required_eq_ok_iff]
    exact (and_iff_left fun h => absurd h hkey).symm

theorem location_bind_eq_error_iff {α : Type} {f : Location → Except Error α}
    (hf : ∀ location, f location = .error e ↔ FirstViolation texts keys e) :
    (required texts "TargetLocation" >>= fun value => locationOf value >>= f) = .error e ↔
      FirstViolation texts ("TargetLocation" :: keys) e := by
  rw [← bind_assoc]
  refine bind_eq_error_iff_firstViolation ?_ ?_ hf
  · rw [bind_eq_error_iff, required_eq_error_iff, Violated, and_iff_right rfl]
    simp only [required_eq_ok_iff, locationOf_eq_error_iff]
  · simp only [bind_eq_ok_iff, required_eq_ok_iff, locationOf_eq_ok_iff]
    rw [exists_comm, Met]
    refine exists_congr fun value => ?_
    rw [exists_and_left, imp_iff_right rfl]
    refine and_congr_right fun _ => ⟨?_, ?_⟩
    · rintro ⟨location, rfl⟩
      cases location with
      | entry => exact .inl rfl
      | exits => exact .inr rfl
    · rintro (rfl | rfl)
      · exact ⟨.entry, rfl⟩
      · exact ⟨.exits, rfl⟩

/-- **The error of a header is the first key that it violates.** -/
theorem ofLines_eq_error_iff (hlibraries : libraryNames texts = .ok (requested texts)) :
    ofLines texts source checksum defaults here = .error e ↔
      FirstViolation texts requiredKeys e := by
  rw [ofLines, requiredKeys]
  refine required_bind_eq_error_iff (by decide) fun class_ => ?_
  refine required_bind_eq_error_iff (by decide) fun method => ?_
  refine location_bind_eq_error_iff fun location => ?_
  refine required_bind_eq_error_iff (by decide) fun patchClass => ?_
  refine required_bind_eq_error_iff (by decide) fun patchMethod => ?_
  rw [hlibraries]
  exact iff_of_false (fun h => by cases h) not_firstViolation_nil

/-- **The descriptor of a header is what the header says.** -/
theorem ofLines_eq_ok_iff (hlibraries : libraryNames texts = .ok (requested texts)) :
    ofLines texts source checksum defaults here = .ok p ↔
      Describes texts source checksum defaults here p := by
  rw [ofLines, hlibraries]
  simp only [bind_eq_ok_iff, required_eq_ok_iff, locationOf_eq_ok_iff, Except.ok.injEq,
    libraryPath_eq]
  constructor
  · rintro ⟨class_, hclass, method, hmethod, value, hvalue, location, rfl, patchClass, hpatchClass,
      patchMethod, hpatchMethod, libraries, rfl, rfl⟩
    exact {
      class_ := hclass
      method := hmethod
      location := hvalue
      patchClass := hpatchClass
      patchMethod := hpatchMethod
      name := optional_eq_iff.1 rfl
      description := optional_eq_iff.1 rfl
      framework := optional_eq_iff.1 rfl
      module := optional_eq_iff.1 rfl
      namespace_ := optional_eq_iff.1 rfl
      assembly := assembly_eq_iff.1 rfl
      references := rfl
      checksum := rfl
      source := rfl
      artifact := rfl }
  · intro h
    refine ⟨p.class_, h.class_, p.method, h.method, p.location.name, h.location, p.location, rfl,
      p.patchClass, h.patchClass, p.patchMethod, h.patchMethod, requested texts, rfl, ?_⟩
    cases p with
    | mk =>
      rw [Descriptor.mk.injEq]
      exact ⟨optional_eq_iff.2 h.name, optional_eq_iff.2 h.description, h.references.symm,
        h.checksum.symm, h.source.symm, h.artifact.symm, optional_eq_iff.2 h.framework,
        assembly_eq_iff.2 h.assembly, optional_eq_iff.2 h.module, optional_eq_iff.2 h.namespace_,
        rfl, rfl, rfl, rfl, rfl⟩

end Fields

/-- **The parser implements the grammar of a header.** Only the lines of the comment count; nothing
behind it does. A source has a descriptor exactly when its header gives every required key a value and
names a location, and then each field is what the header says. Otherwise the first key that the header
violates is the error. From which folder relative paths are seen does not matter when the folder of the
source has an absolute path. -/
theorem parse_headerComment (ls : List HeaderLine) (source : Path) (checksum : Checksum)
    (defaults : Defaults) (here : Option Path)
    (hascii : ∀ l ∈ ls, usingMark <+: l.shown → ∀ c ∈ l.shown, c.toNat < 128) :
    ∃ result : Except Error Descriptor,
      (∀ ending behind,
        parse (headerComment ending ls behind) source checksum defaults here = result) ∧
      ((baseOf source).isAbsolute = true → ∀ ending behind here',
        parse (headerComment ending ls behind) source checksum defaults here' = result) ∧
      ((∃ p, result = .ok p) ↔ ∀ key ∈ requiredKeys, Met (HeaderLine.texts ls) key) ∧
      (∀ e, result = .error e ↔ FirstViolation (HeaderLine.texts ls) requiredKeys e) ∧
      ∀ p, result = .ok p ↔ Describes (HeaderLine.texts ls) source checksum defaults here p := by
  have hlibraries : libraryNames (HeaderLine.texts ls) = .ok (requested (HeaderLine.texts ls)) := by
    refine libraryNames_of_ascii fun text htext => ?_
    obtain ⟨l, hl, rfl⟩ := List.mem_map.1 (List.mem_filter.1 htext).1
    exact hascii l hl
  refine ⟨ofLines (HeaderLine.texts ls) source checksum defaults here, ?_, ?_, ?_,
    fun e => ofLines_eq_error_iff hlibraries, fun p => ofLines_eq_ok_iff hlibraries⟩
  · intro ending behind
    rw [parse, headerLines_headerComment]
  · intro hbase ending behind here'
    have hpaths (name : List Char) := libraryPath_of_isAbsolute hbase name here' here
    rw [parse, headerLines_headerComment, ofLines, ofLines]
    simp only [hpaths]
  · rw [forall_met_iff]
    have herror : ∀ e, ofLines (HeaderLine.texts ls) source checksum defaults here = .error e ↔
        FirstViolation (HeaderLine.texts ls) requiredKeys e := fun e =>
      ofLines_eq_error_iff hlibraries
    simp only [← herror]
    cases ofLines (HeaderLine.texts ls) source checksum defaults here with
    | error e => exact iff_of_false (by simp) fun h => h e rfl
    | ok p => exact iff_of_true ⟨p, rfl⟩ fun e => by simp

end Descriptor

/-! ## A header -/

namespace Sample

open Patch

/-- A line with a blank and maybe a star in front of its text. -/
def lineOf (star : Bool) (text : List Char)
    (plain : star = false → (Text.trimStart text).head? ≠ some '*')
    (whole : '\n' ∉ writtenLine [' '] star [' '] text ∧
      ¬ closeMark <:+: writtenLine [' '] star [' '] text ∧
      isDeclaration (Text.trim (writtenLine [' '] star [' '] text)) = false) : HeaderLine where
  indent := [' ']
  star
  gap := [' ']
  text
  blank_indent := List.all_eq_true.1 (by decide)
  blank_gap := List.all_eq_true.1 (by decide)
  plain
  unbroken := whole.1
  unclosed := whole.2.1
  undeclared := whole.2.2

/-- The lines of a header, most of them with a star and one of them blank. -/
def runLines : List HeaderLine := [
  lineOf true "@TargetClass=Player".toList nofun (by decide +kernel),
  lineOf false "@TargetMethod= Start ".toList (by decide +kernel) (by decide +kernel),
  lineOf true [] nofun (by decide +kernel),
  lineOf true "@TargetLocation=Prefix".toList nofun (by decide +kernel),
  lineOf true "@PatchClass=Hooks".toList nofun (by decide +kernel),
  lineOf true "@PatchMethod=Run".toList nofun (by decide +kernel),
  lineOf true "@using Lib/Helpers.DLL;".toList nofun (by decide +kernel)]

/-- Whatever stands behind the comment and wherever it is seen from, the source has the one descriptor
that its header describes. -/
theorem parse_runLines :
    (∀ l ∈ runLines, usingMark <+: l.shown → ∀ c ∈ l.shown, c.toNat < 128) ∧
    ∃ p, p.method = "Start" ∧ p.name = "UnnamedPatch(d41d8cd98f00b204e9800998ecf8427e)" ∧
      p.references = [⟨"/g/Lib/Helpers.DLL"⟩] ∧
      Descriptor.Describes (HeaderLine.texts runLines) ⟨"/g/A.cs"⟩ (Checksum.of []) gameDefaults none
        p ∧
      ∀ ending behind here, Descriptor.parse (headerComment ending runLines behind) ⟨"/g/A.cs"⟩
        (Checksum.of []) gameDefaults here = .ok p := by
  have hall : runLines.all (fun l => l.shown.all fun c => c.toNat < 128) = true := by decide +kernel
  have hascii : ∀ l ∈ runLines, usingMark <+: l.shown → ∀ c ∈ l.shown, c.toNat < 128 :=
    fun l hl _ c hc =>
      of_decide_eq_true (List.all_eq_true.1 (List.all_eq_true.1 hall l hl) c hc)
  obtain ⟨result, hresult, hanywhere, -, -, hdescribes⟩ :=
    Descriptor.parse_headerComment runLines ⟨"/g/A.cs"⟩ (Checksum.of []) gameDefaults none hascii
  have hfields : result.toOption.map (fun p => (p.method, p.name, p.references)) =
      some ("Start", "UnnamedPatch(d41d8cd98f00b204e9800998ecf8427e)",
        [⟨"/g/Lib/Helpers.DLL"⟩]) := by
    rw [← hresult .feed []]
    decide +kernel
  cases result with
  | error e => cases hfields
  | ok p =>
    obtain ⟨hmethod, hrest⟩ := Prod.mk.inj (Option.some.inj hfields)
    obtain ⟨hname, hreferences⟩ := Prod.mk.inj hrest
    exact ⟨hascii, p, hmethod, hname, hreferences, (hdescribes p).1 rfl,
      hanywhere (by decide +kernel)⟩

/-- The same lines, path, checksum and defaults, seen from two folders: the libraries are different
ones. -/
theorem parse_from_folders :
    let parseFrom (here : Path) := Descriptor.parse (headerComment .feed runLines []) ⟨"A.cs"⟩
      (Checksum.of []) gameDefaults (some here)
    (∃ p, parseFrom ⟨"/g"⟩ = .ok p ∧ p.references = [⟨"/g/Lib/Helpers.DLL"⟩]) ∧
      (∃ p, parseFrom ⟨"/h"⟩ = .ok p ∧ p.references = [⟨"/h/Lib/Helpers.DLL"⟩]) ∧
      parseFrom ⟨"/g"⟩ ≠ parseFrom ⟨"/h"⟩ := by
  intro parseFrom
  have hreferences : ∀ here : Path, here ∈ [(⟨"/g"⟩ : Path), ⟨"/h"⟩] →
      (parseFrom here).toOption.map (·.references) = some [here.appendText "/Lib/Helpers.DLL"] := by
    decide +kernel
  have hparsed : ∀ here : Path, here ∈ [(⟨"/g"⟩ : Path), ⟨"/h"⟩] →
      ∃ p, parseFrom here = .ok p ∧ p.references = [here.appendText "/Lib/Helpers.DLL"] := by
    intro here hmem
    have h := hreferences here hmem
    cases hp : parseFrom here with
    | error e =>
      rw [hp] at h
      cases h
    | ok p =>
      rw [hp] at h
      exact ⟨p, rfl, Option.some.inj h⟩
  obtain ⟨p, hp, hpaths⟩ := hparsed ⟨"/g"⟩ (by decide)
  obtain ⟨q, hq, hpaths'⟩ := hparsed ⟨"/h"⟩ (by decide)
  refine ⟨⟨p, hp, hpaths⟩, ⟨q, hq, hpaths'⟩, fun hsame => ?_⟩
  have hequal : p = q := Except.ok.inj (hp.symm.trans (hsame.trans hq))
  rw [hequal, hpaths'] at hpaths
  revert hpaths
  decide

end Sample

end CilGraft
