import CilGraft.Patch.Preamble
import CilGraft.Proofs.HeaderGrammar

/-!
# Sources with one line more

The attribute is put between two lines of a source, and nothing else of the source changes. In front
of it stands the longest run of whole lines that belong to the preamble, and the framework is read
back from its literal.

* `Text.WholeLines` — a text in front of another one ends where a line ends.
* `Text.cutLines_append`, `wholeLines_of_cutLines` — lines of two texts.
* `Patch.PreambleLine` — what a line of the preamble looks like; `openAfter?_eq_some_iff`.
* `Patch.preambleOf`, `restOf` — the two parts of a source; `isPreamble_preambleOf`,
  `prefix_preambleOf`.
* `Patch.readLiteral?_literal` — the framework is read back.
* `Patch.prepare_adds_one_line` — the prepared source.
-/

set_option autoImplicit false

namespace CilGraft

namespace Text

/-! ## Whole lines -/

/-- The text in front ends where a line of both texts ends. -/
def WholeLines (front back : List Char) : Prop :=
  front = [] ∨ front.getLast? = some '\n' ∨ back = []

section Lines

variable {s front back line : List Char} {ls more : List (List Char)}

theorem cutLines_eq_nil_iff : cutLines s = [] ↔ s = [] := by
  constructor
  · intro h
    rw [← flatten_cutLines s, h, List.flatten_nil]
  · rintro rfl
    rfl

/-- The first line of a text ends in a line feed, or is all of the text. -/
theorem cutLines_eq_cons (h : cutLines s = line :: more) :
    cutLines more.flatten = more ∧ WholeLines line more.flatten ∧ line ≠ [] := by
  induction s generalizing line more with
  | nil => cases h
  | cons c s ih =>
    rw [cutLines] at h
    split at h
    · rename_i hc
      obtain ⟨rfl, rfl⟩ := List.cons.inj h
      refine ⟨by rw [flatten_cutLines], .inr (.inl ?_), List.cons_ne_nil _ _⟩
      rw [hc]
      rfl
    · split at h
      · obtain ⟨rfl, rfl⟩ := List.cons.inj h
        exact ⟨rfl, .inr (.inr rfl), List.cons_ne_nil _ _⟩
      · rename_i first others hrest
        obtain ⟨rfl, rfl⟩ := List.cons.inj h
        obtain ⟨hmore, hwhole, hne⟩ := ih hrest
        obtain ⟨x, first, rfl⟩ := List.exists_cons_of_ne_nil hne
        refine ⟨hmore, ?_, List.cons_ne_nil _ _⟩
        rcases hwhole with hnil | hlast | hback
        · cases hnil
        · exact .inr (.inl (by rw [List.getLast?_cons_cons, hlast]))
        · exact .inr (.inr hback)

theorem cutLines_append_feed (front back : List Char) :
    cutLines (front ++ '\n' :: back) = cutLines (front ++ ['\n']) ++ cutLines back := by
  induction front with
  | nil => rfl
  | cons c front ih =>
    rw [List.cons_append, List.cons_append, cutLines, cutLines]
    split
    · rw [ih, List.cons_append]
    · obtain ⟨line, more, hlines⟩ :
          ∃ line more, cutLines (front ++ ['\n']) = line :: more :=
        List.exists_cons_of_ne_nil fun hnil => by simp [cutLines_eq_nil_iff] at hnil
      rw [ih, hlines]
      rfl

/-- The lines of two texts, when the first one consists of whole lines. -/
theorem cutLines_append (h : WholeLines front back) :
    cutLines (front ++ back) = cutLines front ++ cutLines back := by
  rcases h with rfl | hlast | rfl
  · rfl
  · obtain ⟨lead, rfl⟩ := List.getLast?_eq_some_iff.1 hlast
    rw [List.append_assoc, List.singleton_append, cutLines_append_feed]
  · simp [cutLines]

theorem cutLines_line (h : cutLines s = line :: more) : cutLines line = [line] := by
  obtain ⟨hmore, hwhole, -⟩ := cutLines_eq_cons h
  have hlines := cutLines_append hwhole
  rw [hmore, ← List.flatten_cons, ← h, flatten_cutLines, h] at hlines
  rw [← List.singleton_append] at hlines
  exact (List.append_cancel_right hlines).symm

theorem WholeLines.append {a b c : List Char} (h : WholeLines a (b ++ c)) (h' : WholeLines b c) :
    WholeLines (a ++ b) c := by
  rcases h' with rfl | hlast | rfl
  · rwa [List.append_nil]
  · exact .inr (.inl (by rw [List.getLast?_append, hlast, Option.some_or]))
  · exact .inr (.inr rfl)

theorem WholeLines.of_append {a b c : List Char} (h : WholeLines a (b ++ c)) : WholeLines a b := by
  rcases h with rfl | hlast | hback
  · exact .inl rfl
  · exact .inr (.inl hlast)
  · exact .inr (.inr (List.append_eq_nil_iff.1 hback).1)

theorem WholeLines.of_append_left {a b c : List Char} (h : WholeLines (a ++ b) c) (hb : b ≠ []) :
    WholeLines b c := by
  rcases h with hnil | hlast | rfl
  · exact absurd (List.append_eq_nil_iff.1 hnil).2 hb
  · rw [List.getLast?_append, List.getLast?_eq_some_getLast hb, Option.some_or] at hlast
    exact .inr (.inl (by rw [List.getLast?_eq_some_getLast hb, hlast]))
  · exact .inr (.inr rfl)

/-- A text that is not empty has a first line. -/
theorem exists_cutLines_of_ne_nil (h : s ≠ []) :
    ∃ line more, cutLines s = line :: more ∧ WholeLines line more.flatten ∧ s = line ++ more.flatten := by
  obtain ⟨line, more, hlines⟩ := List.exists_cons_of_ne_nil (mt cutLines_eq_nil_iff.1 h)
  obtain ⟨-, hwhole, -⟩ := cutLines_eq_cons hlines
  exact ⟨line, more, hlines, hwhole, by rw [← List.flatten_cons, ← hlines, flatten_cutLines]⟩

/-- A run of leading lines is a text of whole lines, and the other lines are those behind it. -/
theorem wholeLines_of_cutLines (h : cutLines s = ls ++ more) :
    WholeLines ls.flatten more.flatten ∧ cutLines ls.flatten = ls ∧ cutLines more.flatten = more := by
  induction ls generalizing s with
  | nil =>
    rw [List.nil_append] at h
    exact ⟨.inl rfl, rfl, by rw [← h, flatten_cutLines]⟩
  | cons line ls ih =>
    rw [List.cons_append] at h
    obtain ⟨hrest, hwhole, -⟩ := cutLines_eq_cons h
    obtain ⟨hwhole', hls, hmore⟩ := ih hrest
    rw [List.flatten_append] at hwhole
    refine ⟨hwhole.append hwhole', ?_, hmore⟩
    rw [List.flatten_cons, cutLines_append hwhole.of_append, cutLines_line h, hls,
      List.singleton_append]

end Lines

end Text

namespace Patch

open Text

/-! ## What belongs to the preamble -/

/-- A line of the preamble. The first flag says whether a comment is open in front of the line, the
second one whether one counts as open behind it. -/
inductive PreambleLine : Bool → List Char → Bool → Prop
  | inside {line : List Char} : ¬ "*/".toList <:+: trim line → PreambleLine true line true
  | closing {line : List Char} : "*/".toList <:+: trim line → PreambleLine true line false
  | opening {line text : List Char} : trim line = "/*".toList ++ text → ¬ "*/".toList <:+: text →
      PreambleLine false line true
  | comment {line text : List Char} : trim line = "/*".toList ++ text → "*/".toList <:+: text →
      PreambleLine false line false
  | blank {line : List Char} : trim line = [] → PreambleLine false line false
  | slashes {line text : List Char} : trim line = "//".toList ++ text → PreambleLine false line false
  | preprocessor {line text : List Char} : trim line = '#' :: text → PreambleLine false line false
  | externAlias {line text : List Char} : trim line = "extern alias ".toList ++ text →
      PreambleLine false line false
  | usingDirective {line lead text : List Char} {c : Char} : lead ∈ [[], "global ".toList] →
      isBlank c = true → trim line = lead ++ "using".toList ++ c :: text ++ [';'] →
      PreambleLine false line false

/-- Lines of the preamble one after the other. -/
inductive PreambleLines : Bool → List (List Char) → Bool → Prop
  | nil {isOpen : Bool} : PreambleLines isOpen [] isOpen
  | cons {isOpen next stillOpen : Bool} {line : List Char} {ls : List (List Char)} :
      PreambleLine isOpen line next → PreambleLines next ls stillOpen →
      PreambleLines isOpen (line :: ls) stillOpen

/-- A text all of whose lines belong to the preamble. -/
def IsPreamble (s : List Char) : Prop := ∃ stillOpen, PreambleLines false (cutLines s) stillOpen

section Lines

variable {s line rest mark : List Char} {isOpen stillOpen : Bool} {ls more : List (List Char)}

theorem not_isInfix_of_breakOn? (h : breakOn? mark s = none) : ¬ mark <:+: s := by
  induction s with
  | nil =>
    intro hmark
    rw [breakOn?, if_pos (List.infix_nil.1 hmark)] at h
    cases h
  | cons c s ih =>
    rw [breakOn?] at h
    split at h
    · cases h
    · rename_i hafter
      rw [List.infix_cons_iff]
      rintro (⟨behind, hfront⟩ | hback)
      · rw [after?_eq_some_iff.2 hfront.symm] at hafter
        cases hafter
      · exact ih (Option.map_eq_none_iff.1 h) hback

theorem hasPiece_iff : hasPiece mark s = true ↔ mark <:+: s := by
  rw [hasPiece, Option.isSome_iff_ne_none]
  constructor
  · intro h
    by_contra hnot
    exact h (breakOn?_eq_none hnot)
  · intro h hnone
    exact not_isInfix_of_breakOn? hnone h

theorem hasPiece_eq_false_iff : hasPiece mark s = false ↔ ¬ mark <:+: s := by
  rw [← hasPiece_iff, Bool.not_eq_true]

theorem startsWith_iff : startsWith mark s = true ↔ ∃ text, s = mark ++ text := by
  rw [startsWith, Option.isSome_iff_exists]
  exact exists_congr fun text => after?_eq_some_iff

theorem isBlank_last_trim {c : Char} (h : (trim s).getLast? = some c) : isBlank c = false := by
  rw [trim, trimEnd, List.getLast?_reverse] at h
  have hnot := List.head?_dropWhile_not isBlank (trimStart s).reverse
  rw [h] at hnot
  exact hnot

/-- Nothing is trimmed off the end of what a trimmed line ends with. -/
theorem trimEnd_of_trim_eq_append {front back : List Char} (h : trim line = front ++ back) :
    trimEnd back = back := by
  obtain ⟨blanks, hback, hblanks⟩ := exists_trimEnd back
  have hnil : blanks = [] := by
    by_contra hne
    have hlast : (trim line).getLast? = some (blanks.getLast hne) := by
      rw [h, hback, ← List.append_assoc, List.getLast?_append, List.getLast?_eq_some_getLast hne,
        Option.some_or]
    have hnotBlank := isBlank_last_trim hlast
    rw [hblanks _ (List.getLast_mem hne)] at hnotBlank
    cases hnotBlank
  rw [hnil, List.append_nil] at hback
  exact hback.symm

theorem eq_append_afterOptional (word : List Char) (s : List Char) :
    ∃ lead ∈ [[], word], s = lead ++ afterOptional word s := by
  rw [afterOptional]
  cases hafter : after? word s with
  | none => exact ⟨[], .head _, rfl⟩
  | some rest => exact ⟨word, .tail _ (.head _), after?_eq_some_iff.1 hafter⟩

/-- A line that uses a namespace says so behind a word that may be missing, and ends with a semicolon. -/
theorem exists_of_isUsing (h : isUsing (trim line) = true) :
    ∃ lead ∈ [[], "global ".toList], ∃ c text, isBlank c = true ∧
      trim line = lead ++ "using".toList ++ c :: text ++ [';'] := by
  obtain ⟨lead, hlead, hline⟩ := eq_append_afterOptional "global ".toList (trim line)
  rw [isUsing] at h
  split at h
  · rename_i c rest hafter
    rw [Bool.and_eq_true, beq_iff_eq] at h
    obtain ⟨hc, hlast⟩ := h
    rw [after?_eq_some_iff.1 hafter, ← List.append_assoc] at hline
    rw [trimEnd_of_trim_eq_append hline] at hlast
    obtain ⟨front, hfront⟩ := List.getLast?_eq_some_iff.1 hlast
    cases front with
    | nil =>
      obtain ⟨rfl, -⟩ := List.cons.inj hfront
      exact absurd hc (by decide)
    | cons x text =>
      obtain ⟨rfl, rfl⟩ := List.cons.inj hfront
      exact ⟨lead, hlead, c, text, hc, by simpa using hline⟩
  · cases h

theorem isUsing_trim_iff : isUsing (trim line) = true ↔
    ∃ lead ∈ [[], "global ".toList], ∃ c text, isBlank c = true ∧
      trim line = lead ++ "using".toList ++ c :: text ++ [';'] := by
  refine ⟨exists_of_isUsing, ?_⟩
  rintro ⟨lead, hlead, c, text, hc, hline⟩
  have hafter : afterOptional "global ".toList (trim line) =
      "using".toList ++ (c :: text ++ [';']) := by
    rw [hline, afterOptional]
    simp only [List.mem_cons, List.not_mem_nil, or_false] at hlead
    rcases hlead with rfl | rfl
    · rfl
    · rw [List.append_assoc, List.append_assoc, after?_eq_some_iff.2 rfl, Option.getD_some]
  rw [isUsing, hafter, after?_eq_some_iff.2 rfl]
  have hlast : trimEnd (c :: text ++ [';']) = c :: text ++ [';'] :=
    trimEnd_append_cons (by decide) (c :: text) []
  simp only [List.cons_append, hc, Bool.true_and, beq_iff_eq] at hlast ⊢
  rw [hlast, ← List.cons_append, List.getLast?_concat]

theorem preambleLine_of_isPlainPreamble (h : isPlainPreamble (trim line) = true) :
    PreambleLine false line false := by
  rw [isPlainPreamble] at h
  simp only [Bool.or_eq_true, List.isEmpty_iff, startsWith_iff, isUsing_trim_iff] at h
  rcases h with (((hblank | ⟨text, hline⟩) | ⟨text, hline⟩) | ⟨text, hline⟩) |
    ⟨lead, hlead, c, text, hc, hline⟩
  · exact .blank hblank
  · exact .slashes hline
  · exact .preprocessor hline
  · exact .externAlias hline
  · exact .usingDirective hlead hc hline

/-- A line that counts as one of the preamble looks like one. -/
theorem preambleLine_of_openAfter? (h : openAfter? isOpen (trim line) = some stillOpen) :
    PreambleLine isOpen line stillOpen := by
  cases isOpen with
  | true =>
    simp only [openAfter?, if_true, Option.some.injEq] at h
    cases hpiece : hasPiece "*/".toList (trim line) with
    | true =>
      rw [hpiece] at h
      exact h ▸ .closing (hasPiece_iff.1 hpiece)
    | false =>
      rw [hpiece] at h
      exact h ▸ .inside (hasPiece_eq_false_iff.1 hpiece)
  | false =>
    simp only [openAfter?, Bool.false_eq_true, if_false] at h
    split at h
    · rename_i text hafter
      have hline := after?_eq_some_iff.1 hafter
      rw [Option.some.injEq] at h
      cases hpiece : hasPiece "*/".toList text with
      | true =>
        rw [hpiece] at h
        exact h ▸ .comment hline (hasPiece_iff.1 hpiece)
      | false =>
        rw [hpiece] at h
        exact h ▸ .opening hline (hasPiece_eq_false_iff.1 hpiece)
    · split at h
      · cases h
        exact preambleLine_of_isPlainPreamble ‹_›
      · cases h

/-- A line that looks like one of the preamble counts as one. -/
theorem openAfter?_of_preambleLine (h : PreambleLine isOpen line stillOpen) :
    openAfter? isOpen (trim line) = some stillOpen := by
  have hplain (hmark : after? "/*".toList (trim line) = none)
      (hplain : isPlainPreamble (trim line) = true) : openAfter? false (trim line) = some false := by
    simp only [openAfter?, hmark, hplain, Bool.false_eq_true, if_false, if_true]
  cases h with
  | inside hmark => simp only [openAfter?, hasPiece_eq_false_iff.2 hmark, if_true, Bool.not_false]
  | closing hmark => simp only [openAfter?, hasPiece_iff.2 hmark, if_true, Bool.not_true]
  | opening hline hmark =>
    simp only [openAfter?, after?_eq_some_iff.2 hline, hasPiece_eq_false_iff.2 hmark,
      Bool.false_eq_true, if_false, Bool.not_false]
  | comment hline hmark =>
    simp only [openAfter?, after?_eq_some_iff.2 hline, hasPiece_iff.2 hmark, Bool.false_eq_true,
      if_false, Bool.not_true]
  | blank hline => exact hplain (by rw [hline]; rfl) (by rw [hline]; rfl)
  | slashes hline => exact hplain (by rw [hline]; rfl) (by rw [hline]; rfl)
  | preprocessor hline => exact hplain (by rw [hline]; rfl) (by rw [hline]; rfl)
  | externAlias hline => exact hplain (by rw [hline]; rfl) (by rw [hline]; rfl)
  | @usingDirective _ lead text c hlead hc hline =>
    have husing := isUsing_trim_iff.2 ⟨lead, hlead, c, text, hc, hline⟩
    refine hplain ?_ (by rw [isPlainPreamble, husing, Bool.or_true])
    rw [hline]
    simp only [List.mem_cons, List.not_mem_nil, or_false] at hlead
    rcases hlead with rfl | rfl
    · rfl
    · rfl

/-- **What a line of the preamble looks like.** -/
theorem openAfter?_eq_some_iff :
    openAfter? isOpen (trim line) = some stillOpen ↔ PreambleLine isOpen line stillOpen :=
  ⟨preambleLine_of_openAfter?, openAfter?_of_preambleLine⟩

/-! ## The two parts of a source -/

theorem splitPreamble_append (h : PreambleLines isOpen ls stillOpen) (more : List (List Char)) :
    splitPreamble isOpen (ls ++ more) =
      (ls ++ (splitPreamble stillOpen more).1, (splitPreamble stillOpen more).2) := by
  induction h with
  | nil => rfl
  | cons hline _ ih =>
    rw [List.cons_append, splitPreamble, openAfter?_eq_some_iff.2 hline]
    dsimp only
    rw [ih]
    rfl

/-- The leading lines belong to the preamble, and the next line does not. -/
theorem exists_preambleLines_splitPreamble (isOpen : Bool) (ls : List (List Char)) :
    ∃ stillOpen, PreambleLines isOpen (splitPreamble isOpen ls).1 stillOpen ∧
      ∀ line more, (splitPreamble isOpen ls).2 = line :: more →
        ∀ next, ¬ PreambleLine stillOpen line next := by
  induction ls generalizing isOpen with
  | nil => exact ⟨isOpen, .nil, fun _ _ h => by cases h⟩
  | cons line ls ih =>
    rw [splitPreamble]
    split
    · rename_i hnone
      refine ⟨isOpen, .nil, fun x more h next hline => ?_⟩
      obtain ⟨rfl, -⟩ := List.cons.inj h
      rw [openAfter?_eq_some_iff.2 hline] at hnone
      cases hnone
    · rename_i next hsome
      obtain ⟨stillOpen, hlines, hstops⟩ := ih next
      exact ⟨stillOpen, .cons (openAfter?_eq_some_iff.1 hsome) hlines, hstops⟩

end Lines

/-- The source in front of the attribute. -/
def preambleOf (content : List Char) : List Char := (splitPreamble false (cutLines content)).1.flatten

/-- The source behind the attribute. -/
def restOf (content : List Char) : List Char := (splitPreamble false (cutLines content)).2.flatten

section Parts

variable {content front back : List Char}

theorem prepare_eq (content framework : List Char) :
    prepare content framework =
      preambleOf content ++ missingEnd (preambleOf content) (restOf content) ++
        attributeLine framework ++ restOf content := rfl

theorem preambleOf_append_restOf (content : List Char) : preambleOf content ++ restOf content = content := by
  rw [preambleOf, restOf, ← List.flatten_append, append_splitPreamble, flatten_cutLines]

theorem wholeLines_parts (content : List Char) :
    WholeLines (preambleOf content) (restOf content) ∧
      cutLines (preambleOf content) = (splitPreamble false (cutLines content)).1 ∧
      cutLines (restOf content) = (splitPreamble false (cutLines content)).2 :=
  wholeLines_of_cutLines (append_splitPreamble false (cutLines content)).symm

/-- The part in front belongs to the preamble, and it ends where a line does not. -/
theorem exists_preambleLines_preambleOf (content : List Char) :
    ∃ stillOpen, PreambleLines false (cutLines (preambleOf content)) stillOpen ∧
      ∀ line more, cutLines (restOf content) = line :: more →
        ∀ next, ¬ PreambleLine stillOpen line next := by
  obtain ⟨-, hfront, hback⟩ := wholeLines_parts content
  rw [hfront, hback]
  exact exists_preambleLines_splitPreamble false (cutLines content)

theorem isPreamble_preambleOf (content : List Char) : IsPreamble (preambleOf content) := by
  obtain ⟨stillOpen, hlines, -⟩ := exists_preambleLines_preambleOf content
  exact ⟨stillOpen, hlines⟩

/-- No longer run of whole lines belongs to the preamble. -/
theorem prefix_preambleOf (hcontent : front ++ back = content) (hwhole : WholeLines front back)
    (h : IsPreamble front) : front <+: preambleOf content := by
  obtain ⟨stillOpen, hlines⟩ := h
  rw [preambleOf, ← hcontent, cutLines_append hwhole, splitPreamble_append hlines,
    List.flatten_append, flatten_cutLines]
  exact List.prefix_append _ _

end Parts

/-! ## The literal of the framework -/

/-- A string literal with the given text. -/
def literal (s : List Char) : List Char := '"' :: escape s ++ ['"']

/-- The text of the string literal behind its first quote, and what follows the literal. A backslash
stands in front of a quote or of a backslash. -/
def readQuoted? : List Char → Option (List Char × List Char)
  | [] => none
  | '"' :: s => some ([], s)
  | '\\' :: '"' :: s => (readQuoted? s).map fun (text, rest) => ('"' :: text, rest)
  | '\\' :: '\\' :: s => (readQuoted? s).map fun (text, rest) => ('\\' :: text, rest)
  | '\\' :: _ => none
  | c :: s => (readQuoted? s).map fun (text, rest) => (c :: text, rest)

/-- The text of a string literal, and what follows it. -/
def readLiteral? : List Char → Option (List Char × List Char)
  | '"' :: s => readQuoted? s
  | _ => none

theorem escape_cons (c : Char) (s : List Char) :
    escape (c :: s) = (if c = '\\' then ['\\', '\\'] else if c = '"' then ['\\', '"'] else [c]) ++
      escape s := by
  by_cases hslash : c = '\\'
  · subst hslash
    rfl
  · by_cases hquote : c = '"'
    · subst hquote
      rfl
    · simp [escape, replaceEach, hslash, hquote]

theorem readQuoted?_escape (s rest : List Char) :
    readQuoted? (escape s ++ '"' :: rest) = some (s, rest) := by
  induction s with
  | nil => rfl
  | cons c s ih =>
    rw [escape_cons]
    by_cases hslash : c = '\\'
    · subst hslash
      simp [readQuoted?, ih]
    · by_cases hquote : c = '"'
      · subst hquote
        simp [readQuoted?, ih]
      · simp [hslash, hquote, readQuoted?, ih]

/-- **The text of a literal is read back**, whatever it is. -/
theorem readLiteral?_literal (s rest : List Char) :
    readLiteral? (literal s ++ rest) = some (s, rest) := by
  rw [literal, List.cons_append, List.cons_append, readLiteral?, List.append_assoc,
    List.singleton_append, readQuoted?_escape]

/-- What stands in front of the framework in the attribute. -/
def attributeStart : List Char := "[assembly: System.Runtime.Versioning.TargetFramework(".toList

/-- What stands behind the framework in the attribute. -/
def attributeEnd : List Char := ")]\n".toList

theorem attributeLine_eq (framework : List Char) :
    attributeLine framework = attributeStart ++ literal framework ++ attributeEnd := by
  have hstart : "[assembly: System.Runtime.Versioning.TargetFramework(\"".toList =
      attributeStart ++ ['"'] := by decide +kernel
  have hend : "\")]\n".toList = '"' :: attributeEnd := by decide +kernel
  unfold attributeLine literal
  rw [hstart, hend]
  simp only [List.append_assoc, List.cons_append, List.nil_append]

/-- **Preparing a source only adds one line.** The source is parted behind the longest run of whole
lines that belong to the preamble, and the attribute stands between the two parts, behind a line feed
where the last line of the preamble lacks it. The framework is read back from the attribute. -/
theorem prepare_adds_one_line (content framework : List Char) :
    ∃ front feed back literalText, front ++ back = content ∧ WholeLines front back ∧
      prepare content framework =
        front ++ feed ++ (attributeStart ++ literalText ++ attributeEnd) ++ back ∧
      feed = (if back = [] ∧ front ≠ [] ∧ front.getLast? ≠ some '\n' then ['\n'] else []) ∧
      IsPreamble front ∧
      (∀ front' back', front' ++ back' = content → WholeLines front' back' → IsPreamble front' →
        front' <+: front) ∧
      ∀ rest, readLiteral? (literalText ++ rest) = some (framework, rest) := by
  refine ⟨preambleOf content, missingEnd (preambleOf content) (restOf content), restOf content,
    literal framework, preambleOf_append_restOf content, (wholeLines_parts content).1, ?_, rfl,
    isPreamble_preambleOf content, ?_, readLiteral?_literal framework⟩
  · rw [← attributeLine_eq, prepare_eq]
  · intro front' back' hcontent hwhole hpreamble
    exact prefix_preambleOf hcontent hwhole hpreamble

end Patch

end CilGraft
