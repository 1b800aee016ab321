import CilGraft.Proofs.LibraryPaths
import CilGraft.Proofs.PreparedSources

/-!
# Lines that ask for a library

A header asks for a library in a line of its own. Blanks, a star and the opening of the comment may
stand in front of it, semicolons and the end of the comment behind it; what counts is the path, and
the header is the same for another path but for this one line.

* `Patch.openBehind?` — where a header goes on; `headerFrom_append`.
* `Patch.LibrarySlot` — a source with a place for the path of a library.
* `Patch.IsAskable` — the paths that can stand there; `IsAskable.of_lengthens`.
* `LibrarySlot.libraryIn?_text`, `headerLines_fill` — the line asks for its path, and is the only one
  that changes with it.
* `Patch.exists_of_mem_headerLines` — where a header line stands in its source.
* `Patch.exists_slot` — **every library of every header stands in such a place.**
-/

set_option autoImplicit false

namespace CilGraft

namespace Patch

open Text

/-! ## Where a header goes on -/

/-- Whether the comment is open behind the lines; none when the header has ended there. -/
def openBehind? (inside : Bool) : List (List Char) → Option Bool
  | [] => some inside
  | raw :: rest =>
    if isDeclaration (trim raw) then none
    else
      match if inside then some (trim raw) else after? openMark (trim raw) with
      | none => openBehind? false rest
      | some text => if (breakOn? closeMark text).isSome then none else openBehind? true rest

/-- The header of lines goes on behind the first ones. -/
theorem headerFrom_append {inside now : Bool} {ls : List (List Char)}
    (h : openBehind? inside ls = some now) (more : List (List Char)) :
    headerFrom inside (ls ++ more) = headerFrom inside ls ++ headerFrom now more := by
  induction ls generalizing inside with
  | nil =>
    cases h
    rfl
  | cons raw ls ih =>
    rw [openBehind?] at h
    rw [List.cons_append, headerFrom, headerFrom]
    split at h
    · cases h
    rename_i hopen
    rw [if_neg hopen, if_neg hopen]
    cases htext : if inside then some (trim raw) else after? openMark (trim raw) with
    | none =>
      rw [htext] at h
      exact ih h
    | some text =>
      rw [htext] at h
      dsimp only at h ⊢
      cases hbreak : breakOn? closeMark text with
      | some parts =>
        rw [hbreak] at h
        cases h
      | none =>
        rw [hbreak] at h
        dsimp only
        rw [ih h, List.append_assoc]

/-! ## The end of a comment -/

section Marks

variable {s t : List Char}

theorem not_closed_of_star (h : '*' ∉ s) : ¬ closeMark <:+: s := fun hpiece =>
  h (hpiece.subset List.mem_cons_self)

/-- No comment ends in two texts that end none, unless it ends on their border. -/
theorem not_closed_append (hs : ¬ closeMark <:+: s) (ht : ¬ closeMark <:+: t)
    (hborder : '*' ∉ s ∨ t.head? ≠ some '/') : ¬ closeMark <:+: s ++ t := by
  induction s with
  | nil => exact ht
  | cons c s ih =>
    rw [List.infix_cons_iff, not_or] at hs
    rw [List.cons_append, List.infix_cons_iff]
    rintro (⟨back, hback⟩ | hpiece)
    · obtain ⟨rfl, hrest⟩ := List.cons.inj hback
      cases s with
      | nil =>
        rcases hborder with hstar | hslash
        · exact hstar List.mem_cons_self
        · exact hslash (by rw [List.nil_append] at hrest; rw [← hrest]; rfl)
      | cons d s =>
        obtain ⟨rfl, -⟩ := List.cons.inj hrest
        exact hs.1 ⟨s, rfl⟩
    · exact ih hs.2 (hborder.imp_left fun hstar hmem => hstar (List.mem_cons_of_mem c hmem)) hpiece

/-- The first end of a comment behind a text that ends none. -/
theorem breakOn?_closeMark (h : ¬ closeMark <:+: s) (t : List Char) :
    breakOn? closeMark (s ++ closeMark ++ t) = some (s, t) := by
  induction s with
  | nil => rfl
  | cons c s ih =>
    rw [List.infix_cons_iff, not_or] at h
    have hhere : after? closeMark (c :: (s ++ closeMark ++ t)) = none := by
      refine Option.eq_none_iff_forall_ne_some.2 fun rest hrest => ?_
      obtain ⟨rfl, hmore⟩ := List.cons.inj (after?_eq_some_iff.1 hrest)
      cases s with
      | nil => exact absurd (List.cons.inj hmore).1 (by decide)
      | cons d s =>
        obtain ⟨rfl, -⟩ := List.cons.inj hmore
        exact h.1 ⟨s, rfl⟩
    rw [List.cons_append, List.cons_append, breakOn?, hhere, ih h.2]
    rfl

end Marks

/-! ## Places for libraries -/

/-- A source with a place for the path of a library: in front of the path stand whole lines, behind
which the header goes on, and in its line the mark, and behind it semicolons. -/
structure LibrarySlot where
  front : List Char
  /-- the comment is open in front of the line; otherwise the line opens it -/
  inside : Bool
  indent : List Char
  star : Bool
  gap : List Char
  spacing : List Char
  pad : List Char
  semicolons : Nat
  tail : List Char
  /-- the end of the comment with any text, or other lines, or nothing -/
  behind : List Char
  whole : front = [] ∨ front.getLast? = some '\n'
  open_front : openBehind? false (lines front) = some inside
  blank : ∀ c ∈ indent ++ gap ++ spacing ++ pad ++ tail, isBlank c = true ∧ c ≠ '\n'
  ends : behind = [] ∨ ['\n'] <+: behind ∨ closeMark <+: behind

/-- A path that a header line can ask for: the path of a library, up to blanks in front of it. -/
structure IsAskable (path : List Char) : Prop where
  library : isLibrary (trimStart path) = true
  unbroken : '\n' ∉ path
  unclosed : ¬ closeMark <:+: path

namespace LibrarySlot

/-- What is behind the path in its line, up to the end of the comment. -/
def ending (s : LibrarySlot) : List Char := s.pad ++ List.replicate s.semicolons ';' ++ s.tail

/-- The text of the line with a path. -/
def text (s : LibrarySlot) (path : List Char) : List Char :=
  usingMark ++ (s.spacing ++ path ++ s.ending)

/-- What is in front of the text of the line, without blanks. -/
def lead (s : LibrarySlot) : List Char :=
  (if s.inside then [] else openMark) ++ if s.star then ['*'] else []

/-- The line with a path. -/
def line (s : LibrarySlot) (path : List Char) : List Char :=
  s.indent ++ (s.lead ++ (s.gap ++ s.text path))

/-- The source with a path. -/
def fill (s : LibrarySlot) (path : List Char) : List Char := s.front ++ (s.line path ++ s.behind)

end LibrarySlot

/-! ## The line of a library -/

section Lines

variable {path : List Char}

theorem exists_of_isLibrary {name : List Char} (h : isLibrary name = true) :
    ∃ front ending, name = front ++ ending ∧ front ≠ [] ∧ ending.length = libraryEnding.length ∧
      sameIgnoringAsciiCase ending libraryEnding = true := by
  rw [isLibrary, Bool.and_eq_true, decide_eq_true_iff] at h
  refine ⟨name.take (name.length - libraryEnding.length),
    name.drop (name.length - libraryEnding.length), (List.take_append_drop _ _).symm, ?_, ?_, h.2⟩
  · intro hnil
    have hlen := congrArg List.length hnil
    rw [List.length_take, List.length_nil] at hlen
    omega
  · rw [List.length_drop]
    omega

/-- The ending of a library is plain text in any case. -/
theorem of_toLower_mem_libraryEnding {c : Char} (h : c.toLower ∈ libraryEnding) :
    c.toNat < 128 ∧ isBlank c = false ∧ c ≠ ';' := by
  have hcases : c.toLower = c ∨ 65 ≤ c.toNat ∧ c.toNat ≤ 90 := by
    unfold Char.toLower
    split
    · rename_i hcapital
      exact .inr hcapital
    · exact .inl rfl
  rcases hcases with hsame | ⟨hlow, hhigh⟩
  · have hall : libraryEnding.all (fun c => c.toNat < 128 ∧ isBlank c = false ∧ c ≠ ';') = true := by
      decide
    exact of_decide_eq_true (List.all_eq_true.1 hall c (hsame ▸ h))
  · refine ⟨by omega, ?_, ?_⟩
    · simp only [isBlank, Bool.or_eq_false_iff, Bool.and_eq_false_iff, decide_eq_false_iff_not,
        beq_eq_false_iff_ne]
      omega
    · rintro rfl
      exact absurd hlow (by decide)

theorem toLower_mem_of_sameIgnoringAsciiCase {ending : List Char}
    (h : sameIgnoringAsciiCase ending libraryEnding = true) :
    ∀ c ∈ ending, c.toLower ∈ libraryEnding := by
  have hmap : ending.map Char.toLower = libraryEnding := beq_iff_eq.1 h
  exact fun c hc => hmap ▸ List.mem_map_of_mem hc

theorem isLibrary_append {front ending : List Char} (hfront : front ≠ [])
    (hlen : ending.length = libraryEnding.length)
    (hsame : sameIgnoringAsciiCase ending libraryEnding = true) :
    isLibrary (front ++ ending) = true := by
  have hpos := List.length_pos_iff.2 hfront
  rw [isLibrary, List.length_append, ← hlen, Nat.add_sub_cancel, List.drop_left, hsame,
    Bool.and_true, decide_eq_true_iff]
  omega

/-- What stands in front of the last separator does not make a path one of a library. -/
theorem isLibrary_of_suffix {front front' rest : List Char}
    (hfront : front = [] ∨ front.getLast? = some Path.separator) (hfront' : front' ≠ [])
    (h : isLibrary (front ++ rest) = true) : isLibrary (front' ++ rest) = true := by
  obtain ⟨before, ending, heq, -, hlen, hsame⟩ := exists_of_isLibrary h
  obtain ⟨back, rfl⟩ : ∃ back, rest = back ++ ending := by
    rcases List.append_eq_append_iff.1 heq with ⟨back, -, hrest⟩ | ⟨back, hback, hending⟩
    · exact ⟨back, hrest⟩
    · -- the ending has no separator, and so it begins behind the last one
      cases back using List.reverseRecOn with
      | nil => exact ⟨[], hending.symm⟩
      | append_singleton back c =>
        rcases hfront with rfl | hlast
        · simp at hback
        · rw [hback, ← List.append_assoc, List.getLast?_concat] at hlast
          have hmem := toLower_mem_of_sameIgnoringAsciiCase hsame c (by rw [hending]; simp)
          rw [Option.some.inj hlast] at hmem
          exact absurd hmem (by decide)
  rw [← List.append_assoc]
  exact isLibrary_append (List.append_ne_nil_of_left_ne_nil hfront' back) hlen hsame

/-- A path with a detour can be asked for as well. -/
theorem IsAskable.of_lengthens {path path' : List Char} (h : IsAskable path)
    (hpath' : Path.Lengthens path path') (hfeed : '\n' ∉ path') (hclosed : ¬ closeMark <:+: path') :
    IsAskable path' := by
  refine ⟨?_, hfeed, hclosed⟩
  have hlibrary := h.library
  obtain ⟨front, detour, rest, -, heq, heq'⟩ | ⟨detour, hdetour, -, -, heq'⟩ :=
    hpath'.trimStart_cases
  · rw [heq, List.append_cons] at hlibrary
    rw [heq', List.append_cons, ← List.append_assoc]
    exact isLibrary_of_suffix (.inr (List.getLast?_concat ..)) (by simp) hlibrary
  · rw [heq']
    exact isLibrary_of_suffix (.inl rfl) hdetour.ne_nil
      (show isLibrary ([] ++ trimStart path) = true from hlibrary)

/-- The path of a library ends in a character that is neither blank nor a semicolon. -/
theorem exists_last_of_isLibrary {name : List Char} (h : isLibrary name = true) :
    ∃ before last, name = before ++ [last] ∧ isBlank last = false ∧ last ≠ ';' := by
  obtain ⟨front, ending, rfl, -, hlen, hsame⟩ := exists_of_isLibrary h
  have hne : ending ≠ [] := List.ne_nil_of_length_pos (by rw [hlen]; decide)
  obtain ⟨-, hblank, hsemicolon⟩ := of_toLower_mem_libraryEnding
    (toLower_mem_of_sameIgnoringAsciiCase hsame _ (List.getLast_mem hne))
  refine ⟨front ++ ending.dropLast, ending.getLast hne, ?_, hblank, hsemicolon⟩
  rw [List.append_assoc, List.dropLast_append_getLast]

/-- A line that asks for the path of a library names it. -/
theorem libraryNames_singleton {line name : List Char} (hname : libraryIn? line = some name)
    (h : isLibrary name = true) : libraryNames [line] = .ok [name] := by
  obtain ⟨front, ending, rfl, hfront, hlen, hsame⟩ := exists_of_isLibrary h
  have hascii : ∀ c ∈ ending, c.toNat < 128 := fun c hc =>
    (of_toLower_mem_libraryEnding (toLower_mem_of_sameIgnoringAsciiCase hsame c hc)).1
  have hlonger : isLongerThanEnding (front ++ ending) = true := by
    obtain ⟨c, front, rfl⟩ := List.exists_cons_of_ne_nil hfront
    have hsize := Char.utf8Size_pos c
    rw [isLongerThanEnding, decide_eq_true_iff, Utf8.length_encode_append,
      length_encode_of_ascii hascii, hlen, Utf8.length_encode_cons]
    omega
  rw [libraryNames, hname]
  dsimp only
  rw [hlonger, ← hlen, endOfSize?_append hascii]
  exact congrArg Except.ok (if_pos hsame)

/-- The libraries of lines are those of the first ones, and then those of the others. -/
theorem libraryNames_append (xs ys : List (List Char)) : libraryNames (xs ++ ys) = (do
      let names ← libraryNames xs
      let others ← libraryNames ys
      .ok (names ++ others)) := by
  induction xs with
  | nil => cases hys : libraryNames ys <;> simp [libraryNames, hys, bind, Except.bind]
  | cons line xs ih =>
    rw [List.cons_append, libraryNames, libraryNames]
    cases libraryIn? line with
    | none => exact ih
    | some name =>
      dsimp only
      split
      · exact ih
      · cases Utf8.endOfSize? libraryEnding.length name with
        | none => rfl
        | some ending =>
          rw [ih]
          cases libraryNames xs with
          | error e => rfl
          | ok names =>
            cases libraryNames ys with
            | error e => rfl
            | ok others =>
              simp only [bind, Except.bind]
              split <;> rfl

/-- Blanks behind a character that is no semicolon do not end in one either. -/
theorem getLast?_ne_semicolon {last : Char} {pad : List Char} (hlast : last ≠ ';')
    (hpad : ∀ c ∈ pad, isBlank c = true) (before : List Char) :
    (before ++ last :: pad).getLast? ≠ some ';' := by
  rw [List.getLast?_append, List.getLast?_eq_some_getLast (List.cons_ne_nil last pad),
    Option.some_or]
  intro heq
  have hmem := List.getLast_mem (List.cons_ne_nil last pad)
  rw [Option.some.inj heq] at hmem
  rcases List.mem_cons.1 hmem with hmem | hmem
  · exact hlast hmem.symm
  · exact absurd (hpad _ hmem) (by decide)

/-- Semicolons behind a text that ends in none are taken off. -/
theorem dropWhile_semicolons {u : List Char} (n : Nat) (h : u.getLast? ≠ some ';') :
    ((u ++ List.replicate n ';').reverse.dropWhile (· == ';')).reverse = u := by
  have hall : ∀ c ∈ (List.replicate n ';').reverse, (c == ';') = true := fun c hc => by
    rw [List.eq_of_mem_replicate (List.mem_reverse.1 hc), beq_self_eq_true]
  rw [List.reverse_append, List.dropWhile_append_of_pos hall]
  cases hu : u.reverse with
  | nil => rw [List.reverse_eq_nil_iff.1 hu]; rfl
  | cons c front =>
    have hlast : u.getLast? = some c := by
      rw [← List.head?_reverse, hu, List.head?_cons]
    have hc : ¬ (c == ';') = true := fun heq => h (by rw [hlast, beq_iff_eq.1 heq])
    rw [List.dropWhile_cons_of_neg (p := (· == ';')) hc, ← hu, List.reverse_reverse]

end Lines

namespace LibrarySlot

variable (s : LibrarySlot) {path : List Char}

theorem isBlank_parts : (∀ c ∈ s.indent, isBlank c = true) ∧ (∀ c ∈ s.gap, isBlank c = true) ∧
    (∀ c ∈ s.spacing, isBlank c = true) ∧ (∀ c ∈ s.pad, isBlank c = true) ∧
    ∀ c ∈ s.tail, isBlank c = true := by
  have hblank : ∀ c ∈ s.indent ++ s.gap ++ s.spacing ++ s.pad ++ s.tail, isBlank c = true :=
    fun c hc => (s.blank c hc).1
  simpa only [List.forall_mem_append, and_assoc] using hblank

theorem exists_trimEnd_ending : ∃ pad n, (∀ c ∈ pad, isBlank c = true) ∧
    trimEnd s.ending = pad ++ List.replicate n ';' := by
  obtain ⟨-, -, -, hpad, htail⟩ := s.isBlank_parts
  cases hn : s.semicolons with
  | zero =>
    refine ⟨[], 0, fun _ h => absurd h List.not_mem_nil, ?_⟩
    rw [ending, hn, trimEnd_append_right htail, List.replicate_zero, List.append_nil,
      trimEnd_of_blank hpad]
    rfl
  | succ n =>
    refine ⟨s.pad, n + 1, hpad, ?_⟩
    rw [ending, hn, trimEnd_append_right htail, List.replicate_succ', ← List.append_assoc,
      trimEnd_append_cons (by decide)]
    rfl

/-- **The line asks for its path**, whatever blanks and semicolons stand around it. -/
theorem libraryIn?_text (h : isLibrary (trimStart path) = true) :
    libraryIn? (trim (s.text path)) = some (trimStart path) := by
  obtain ⟨before, last, hname, hlast, hsemicolon⟩ := exists_last_of_isLibrary h
  obtain ⟨pad, n, hpad, hending⟩ := s.exists_trimEnd_ending
  obtain ⟨-, -, hspacing, -, -⟩ := s.isBlank_parts
  have hblanks : ∀ c ∈ path.takeWhile isBlank, isBlank c = true := fun _ =>
    List.mem_takeWhile_imp
  have hpath : path = path.takeWhile isBlank ++ (before ++ [last]) := by
    rw [← hname, trimStart, List.takeWhile_append_dropWhile]
  have hbefore : trimStart before = before := by
    have htwice : trimStart (before ++ [last]) = before ++ [last] := by
      rw [← hname, trimStart, trimStart, List.dropWhile_idempotent]
    rw [trimStart_append_cons hlast] at htwice
    exact List.append_cancel_right htwice
  -- what stands behind the mark, up to blanks at its ends
  have htext : trim (s.text path) = usingMark ++ (s.spacing ++ path.takeWhile isBlank ++
      (before ++ last :: (pad ++ List.replicate n ';'))) := by
    have hwhole : s.text path =
        (usingMark ++ (s.spacing ++ path.takeWhile isBlank ++ before)) ++ last :: s.ending := by
      rw [text]
      conv => lhs; rw [hpath]
      simp only [List.append_assoc, List.singleton_append]
    rw [trim, trimStart_of_head (by rw [text]; rintro c ⟨⟩; decide), hwhole,
      trimEnd_append_cons hlast, hending]
    simp only [List.append_assoc]
  have hrest : trim (s.spacing ++ path.takeWhile isBlank ++
      (before ++ last :: (pad ++ List.replicate n ';'))) =
        (before ++ last :: pad) ++ List.replicate n ';' := by
    rw [List.append_assoc, trim_append_left hspacing, trim_append_left hblanks, trim,
      trimStart_append_cons hlast, hbefore, trimEnd_append_cons hlast, ← hending,
      trimEnd_trimEnd, hending, List.append_assoc, List.cons_append]
  rw [libraryIn?, htext, after?_eq_some_iff.2 rfl, Option.map_some, hrest,
    dropWhile_semicolons n (getLast?_ne_semicolon hsemicolon hpad before), trim, trimStart_append_cons hlast, hbefore,
    trimEnd_append_cons hlast, trimEnd_of_blank hpad, hname]

theorem lead_subset : s.lead ⊆ openMark ++ ['*'] := by
  unfold lead
  cases s.inside <;> cases s.star <;> decide

/-- The line without the blanks at its ends. -/
theorem exists_trim_line : ∃ gap, (∀ c ∈ gap, isBlank c = true) ∧ (s.lead = [] → gap = []) ∧
    ∀ u, trim (s.indent ++ (s.lead ++ (s.gap ++ '@' :: u))) =
      s.lead ++ (gap ++ '@' :: trimEnd u) := by
  obtain ⟨hindent, hgap, -, -, -⟩ := s.isBlank_parts
  have hlead : ∀ c ∈ s.lead, isBlank c = false := by
    intro c hc
    have hall : (openMark ++ ['*']).all (!isBlank ·) = true := by decide
    exact Bool.not_inj (List.all_eq_true.1 hall c (s.lead_subset hc))
  cases h : s.lead with
  | nil =>
    -- the gap is at the front
    refine ⟨[], fun _ hc => absurd hc List.not_mem_nil, fun _ => rfl, fun u => ?_⟩
    rw [List.nil_append, trim_append_left hindent, trim_append_left hgap, trim_cons (by decide)]
    rfl
  | cons c lead =>
    refine ⟨s.gap, hgap, fun hnil => absurd hnil (List.cons_ne_nil c lead), fun u => ?_⟩
    rw [trim_append_left hindent, List.cons_append, trim_cons (hlead c (by simp [h])),
      ← List.append_assoc, trimEnd_append_cons (by decide), List.append_assoc, List.cons_append]

/-- A line that is not in the comment yet opens it. -/
theorem after_lead (u : List Char) :
    (if s.inside then some (s.lead ++ u) else after? openMark (s.lead ++ u)) =
      some ((if s.star then ['*'] else []) ++ u) := by
  rw [lead]
  cases s.inside with
  | true => rfl
  | false => exact after?_eq_some_iff.2 (List.append_assoc ..)

theorem isDeclaration_lead {gap : List Char} (hgap : s.lead = [] → gap = []) (u : List Char) :
    isDeclaration (s.lead ++ (gap ++ '@' :: u)) = false := by
  cases hlead : s.lead with
  | nil =>
    rw [hgap hlead]
    exact isDeclaration_of_mark (.inr (.inr rfl)) _
  | cons c lead' =>
    have hall : (openMark ++ ['*']).all (fun c => c = '*' ∨ c = '/' ∨ c = '@') = true := by decide
    have hmem : c ∈ s.lead := by rw [hlead]; exact List.mem_cons_self
    exact isDeclaration_of_mark
      (of_decide_eq_true (List.all_eq_true.1 hall c (s.lead_subset hmem))) _

/-- The star and the blanks in front of the text do not count. -/
theorem plainText_text {gap : List Char} (hgap : ∀ c ∈ gap, isBlank c = true) (star : Bool)
    (u : List Char) :
    plainText ((if star then ['*'] else []) ++ (gap ++ '@' :: u)) = '@' :: trimEnd u := by
  have htrim : trim (gap ++ '@' :: u) = '@' :: trimEnd u := by
    rw [trim_append_left hgap, trim_cons (by decide)]
  cases star with
  | true => exact htrim
  | false =>
    have hhead : ∀ rest, gap ++ '@' :: u ≠ '*' :: rest := by
      intro rest heq
      cases gap with
      | nil => exact absurd (List.cons.inj heq).1 (by decide)
      | cons c gap =>
        have hc := hgap c List.mem_cons_self
        rw [(List.cons.inj heq).1] at hc
        exact absurd hc (by decide)
    rw [if_neg Bool.false_ne_true, List.nil_append, plainText.eq_2 _ hhead, htrim]

/-- No comment ends in front of what is behind the path. -/
theorem unclosed {gap : List Char} (hgap : ∀ c ∈ gap, isBlank c = true)
    (h : ¬ closeMark <:+: path) :
    ¬ closeMark <:+: (if s.star then ['*'] else []) ++ (gap ++ s.text path) := by
  obtain ⟨-, -, hspacing, hpad, htail⟩ := s.isBlank_parts
  have hplain : ∀ c, isBlank c = true → c ≠ '*' ∧ c ≠ '/' := by
    rintro c hc
    constructor <;> rintro rfl <;> exact absurd hc (by decide)
  have hmark : usingMark.all (fun c => c ≠ '*' ∧ c ≠ '/') = true := by decide
  have hfront : ∀ c ∈ gap ++ usingMark ++ s.spacing, c ≠ '*' ∧ c ≠ '/' := by
    intro c hc
    rw [List.mem_append, List.mem_append] at hc
    rcases hc with (hc | hc) | hc
    · exact hplain c (hgap c hc)
    · exact of_decide_eq_true (List.all_eq_true.1 hmark c hc)
    · exact hplain c (hspacing c hc)
  have hback : ∀ c ∈ s.ending, c ≠ '*' ∧ c ≠ '/' := by
    intro c hc
    rw [ending, List.mem_append, List.mem_append] at hc
    rcases hc with (hc | hc) | hc
    · exact hplain c (hpad c hc)
    · rw [List.eq_of_mem_replicate hc]
      decide
    · exact hplain c (htail c hc)
  have hstar : '*' ∉ gap ++ usingMark ++ s.spacing := fun hmem => (hfront _ hmem).1 rfl
  have hrest : ¬ closeMark <:+: path ++ s.ending :=
    not_closed_append h (not_closed_of_star fun hmem => (hback _ hmem).1 rfl)
      (.inr fun hhead => (hback _ (List.mem_of_mem_head? hhead)).2 rfl)
  have hwhole : gap ++ s.text path = (gap ++ usingMark ++ s.spacing) ++ (path ++ s.ending) := by
    rw [text]
    simp only [List.append_assoc]
  rw [hwhole]
  refine not_closed_append (by split <;> decide)
    (not_closed_append (not_closed_of_star hstar) hrest (.inl hstar)) (.inr fun hhead => ?_)
  have hne : gap ++ usingMark ++ s.spacing ≠ [] :=
    List.append_ne_nil_of_left_ne_nil (List.append_ne_nil_of_right_ne_nil gap (by decide)) _
  rw [List.head?_append_of_ne_nil _ hne] at hhead
  exact (hfront _ (List.mem_of_mem_head? hhead)).2 rfl

theorem text_eq (path : List Char) :
    s.text path = '@' :: ("using ".toList ++ (s.spacing ++ path ++ s.ending)) := rfl

theorem trim_text (path : List Char) :
    trim (s.text path) = '@' :: trimEnd ("using ".toList ++ (s.spacing ++ path ++ s.ending)) :=
  trim_cons (by decide) _

section Header

variable {raw : List Char} {more : List (List Char)}

/-- The line adds its text to the header, which goes on behind it. -/
theorem headerFrom_line (hraw : trim raw = trim (s.line path)) (h : ¬ closeMark <:+: path) :
    headerFrom s.inside (raw :: more) = trim (s.text path) :: headerFrom true more := by
  obtain ⟨gap, hgap, hnil, htrim⟩ := s.exists_trim_line
  have hline : trim raw = s.lead ++ (gap ++ trim (s.text path)) := by
    rw [hraw, line, trim_text, text_eq, htrim]
  have hunclosed : breakOn? closeMark
      ((if s.star then ['*'] else []) ++ (gap ++ trim (s.text path))) = none := by
    refine breakOn?_eq_none fun hpiece => s.unclosed hgap h (hpiece.trans ?_)
    obtain ⟨back, hback, -⟩ := exists_trimEnd (s.text path)
    have hsame : trim (s.text path) = trimEnd (s.text path) := by
      rw [trim_text, text_eq, trimEnd_cons (by decide)]
    refine ⟨[], back, ?_⟩
    conv => rhs; rw [hback, ← hsame]
    simp only [List.nil_append, List.append_assoc]
  rw [headerFrom, hline]
  rw [trim_text] at hunclosed ⊢
  simp only [s.isDeclaration_lead hnil, Bool.false_eq_true, if_false, s.after_lead, hunclosed]
  rw [keepText, plainText_text hgap, trimEnd_trimEnd, if_neg (List.cons_ne_nil _ _)]
  rfl

/-- The line adds its text to the header, which ends in it. -/
theorem headerFrom_line_closed (rest : List Char)
    (hraw : trim raw = trim (s.line path ++ (closeMark ++ rest))) (h : ¬ closeMark <:+: path) :
    headerFrom s.inside (raw :: more) = [trim (s.text path)] := by
  obtain ⟨gap, hgap, hnil, htrim⟩ := s.exists_trim_line
  have hmark : trimEnd ("using ".toList ++ (s.spacing ++ path ++ s.ending) ++ (closeMark ++ rest)) =
      "using ".toList ++ (s.spacing ++ path ++ s.ending) ++ (closeMark ++ trimEnd rest) := by
    rw [closeMark, List.cons_append, trimEnd_append_cons (by decide), List.singleton_append,
      trimEnd_cons (by decide)]
    rfl
  have hline : trim raw = s.lead ++ (gap ++ '@' ::
      ("using ".toList ++ (s.spacing ++ path ++ s.ending) ++ (closeMark ++ trimEnd rest))) := by
    rw [hraw, line, text_eq, ← hmark, ← htrim]
    simp only [List.append_assoc, List.cons_append]
  have hclosed : breakOn? closeMark ((if s.star then ['*'] else []) ++ (gap ++ '@' ::
      ("using ".toList ++ (s.spacing ++ path ++ s.ending) ++ (closeMark ++ trimEnd rest)))) =
        some ((if s.star then ['*'] else []) ++ (gap ++ s.text path), trimEnd rest) := by
    rw [← breakOn?_closeMark (s.unclosed hgap h), text_eq]
    simp only [List.append_assoc, List.cons_append]
  rw [headerFrom, hline]
  simp only [s.isDeclaration_lead hnil, Bool.false_eq_true, if_false, s.after_lead, hclosed]
  rw [keepText, text_eq, plainText_text hgap, if_neg (List.cons_ne_nil _ _),
    trim_cons (by decide)]

end Header

theorem feed_not_mem_line (h : '\n' ∉ path) : '\n' ∉ s.line path := by
  have hblank : ∀ c ∈ s.indent ++ s.gap ++ s.spacing ++ s.pad ++ s.tail, c ≠ '\n' := fun c hc =>
    (s.blank c hc).2
  have hlead : '\n' ∉ s.lead := fun hmem => absurd (s.lead_subset hmem) (by decide)
  have hmark : '\n' ∉ usingMark := by decide
  have hsemicolons : '\n' ∉ List.replicate s.semicolons ';' := fun hmem =>
    absurd (List.eq_of_mem_replicate hmem) (by decide)
  simp only [List.forall_mem_append] at hblank
  obtain ⟨⟨⟨⟨hindent, hgap⟩, hspacing⟩, hpad⟩, htail⟩ := hblank
  simp only [line, text, ending, List.mem_append, not_or]
  exact ⟨fun hmem => hindent _ hmem rfl, hlead, fun hmem => hgap _ hmem rfl, hmark,
    ⟨fun hmem => hspacing _ hmem rfl, h⟩, ⟨fun hmem => hpad _ hmem rfl, hsemicolons⟩,
    fun hmem => htail _ hmem rfl⟩

/-- **Another path changes one line of the header.** -/
theorem headerLines_fill : ∃ before after, ∀ path, '\n' ∉ path → ¬ closeMark <:+: path →
    headerLines (s.fill path) = before ++ trim (s.text path) :: after := by
  have hlines : ∀ path, '\n' ∉ path → lines (s.fill path) =
      lines s.front ++ lineText (s.line path ++ (cutLines s.behind).headD []) ::
        (cutLines s.behind).tail.map lineText := by
    intro path hpath
    have hne : s.line path ≠ [] := by simp [line, text_eq]
    rw [lines, fill, cutLines_append (s.whole.imp_right .inl),
      cutLines_append_left hne (s.feed_not_mem_line hpath), List.map_append, List.map_cons]
    rfl
  suffices h : ∃ after, ∀ path, '\n' ∉ path → ¬ closeMark <:+: path →
      headerFrom s.inside (lineText (s.line path ++ (cutLines s.behind).headD []) ::
        (cutLines s.behind).tail.map lineText) = trim (s.text path) :: after by
    obtain ⟨after, hafter⟩ := h
    refine ⟨headerFrom false (lines s.front), after, fun path hfeed hclosed => ?_⟩
    rw [headerLines, hlines path hfeed, headerFrom_append s.open_front, hafter path hfeed hclosed]
  rcases s.ends with hnone | ⟨rest, hfeed⟩ | ⟨rest, hclose⟩
  · refine ⟨_, fun path _ hpath => s.headerFrom_line ?_ hpath⟩
    rw [trim_lineText, hnone]
    exact congrArg trim (List.append_nil _)
  · refine ⟨_, fun path _ hpath => s.headerFrom_line ?_ hpath⟩
    rw [trim_lineText, ← hfeed]
    exact trim_append_right (List.all_eq_true.1 (show ['\n'].all isBlank = true by decide)) _
  · have hfirst : (cutLines s.behind).headD [] = closeMark ++ (cutLines rest).headD [] := by
      rw [← hclose, cutLines_append_left (by decide) (by decide)]
      rfl
    refine ⟨[], fun path _ hpath => s.headerFrom_line_closed ((cutLines rest).headD []) ?_ hpath⟩
    rw [trim_lineText, hfirst]

end LibrarySlot

/-! ## Every library stands in such a place -/

section Slots

theorem not_closed_of_breakOn? {mark s front rest : List Char} (hmark : mark ≠ [])
    (h : breakOn? mark s = some (front, rest)) : ¬ mark <:+: front := by
  induction s generalizing front with
  | nil =>
    rw [breakOn?, if_neg hmark] at h
    cases h
  | cons c s ih =>
    rw [breakOn?] at h
    split at h
    · cases h
      exact fun hpiece => hmark (List.infix_nil.1 hpiece)
    · rename_i hnone
      obtain ⟨⟨f, r⟩, hbreak, heq⟩ := Option.map_eq_some_iff.1 h
      cases heq
      rw [List.infix_cons_iff, not_or]
      refine ⟨?_, ih hbreak⟩
      rintro ⟨back, hback⟩
      have hhere : c :: s = mark ++ (back ++ (mark ++ rest)) := by
        rw [eq_append_of_breakOn? hbreak, ← List.append_assoc mark, hback]
        simp only [List.cons_append, List.append_assoc]
      rw [after?_eq_some_iff.2 hhere] at hnone
      cases hnone

/-- A line has one line feed at most, which is its last character. -/
theorem exists_of_mem_cutLines {s line : List Char} (h : line ∈ cutLines s) :
    ∃ raw, '\n' ∉ raw ∧ (line = raw ++ ['\n'] ∨ line = raw) := by
  induction s generalizing line with
  | nil => cases h
  | cons c s ih =>
    rw [cutLines] at h
    split at h
    · rename_i hc
      rcases List.mem_cons.1 h with rfl | hrest
      · exact ⟨[], List.not_mem_nil, .inl (by rw [hc]; rfl)⟩
      · exact ih hrest
    · rename_i hc
      have hne : '\n' ≠ c := Ne.symm hc
      split at h
      · rw [List.mem_singleton.1 h]
        exact ⟨[c], by simpa using hne, .inr rfl⟩
      · rename_i first others hlines
        rcases List.mem_cons.1 h with rfl | hrest
        · obtain ⟨raw, hraw, hfirst⟩ := ih (hlines ▸ List.mem_cons_self)
          exact ⟨c :: raw, List.not_mem_cons_of_ne_of_not_mem hne hraw,
            hfirst.imp (congrArg (c :: ·)) (congrArg (c :: ·))⟩
        · exact ih (hlines ▸ List.mem_cons_of_mem first hrest)

theorem plainText_of_mem_keepText {text shown : List Char} (h : text ∈ keepText shown) :
    plainText shown = text := by
  rw [keepText] at h
  split at h
  · cases h
  · exact (List.mem_singleton.1 h).symm

/-- A line of a source stands behind whole lines, and a line feed or nothing ends it. -/
theorem exists_of_cutLines_eq {content line : List Char} {front more : List (List Char)}
    (h : cutLines content = front ++ line :: more) : ∃ raw feed, '\n' ∉ raw ∧ line = raw ++ feed ∧
      content = front.flatten ++ (raw ++ (feed ++ more.flatten)) ∧
      (feed = ['\n'] ∨ feed = [] ∧ more.flatten = []) ∧
      (front.flatten = [] ∨ front.flatten.getLast? = some '\n') ∧
      cutLines front.flatten = front := by
  obtain ⟨hwhole, hfront, hmore⟩ := wholeLines_of_cutLines h
  obtain ⟨-, hlast, hne⟩ := cutLines_eq_cons hmore
  have hcontent : content = front.flatten ++ (line ++ more.flatten) := by
    rw [← flatten_cutLines content, h, List.flatten_append, List.flatten_cons]
  have hstart : front.flatten = [] ∨ front.flatten.getLast? = some '\n' :=
    hwhole.imp_right fun hends => hends.resolve_right fun hnone =>
      hne (List.append_eq_nil_iff.1 hnone).1
  obtain ⟨raw, hfeed, rfl | rfl⟩ :=
    exists_of_mem_cutLines (h ▸ List.mem_append_right front List.mem_cons_self)
  · exact ⟨raw, ['\n'], hfeed, rfl, by rw [hcontent, List.append_assoc], .inl rfl, hstart, hfront⟩
  · have hnone : more.flatten = [] :=
      (hlast.resolve_left hne).resolve_left fun hends => hfeed (List.mem_of_getLast? hends)
    exact ⟨line, [], hfeed, (List.append_nil _).symm, hcontent, .inr ⟨rfl, hnone⟩, hstart, hfront⟩

/-- A header line comes from a line behind which the header may go on, and is what the comment shows
there. -/
theorem exists_raw_of_mem_headerFrom {inside : Bool} {ls : List (List Char)} {text : List Char}
    (h : text ∈ headerFrom inside ls) : ∃ before raw after now shown behind,
      ls = before ++ raw :: after ∧ openBehind? inside before = some now ∧
      trim raw = (if now then [] else openMark) ++ (shown ++ behind) ∧ ¬ closeMark <:+: shown ∧
      (behind = [] ∨ closeMark <+: behind) ∧ plainText shown = text := by
  induction ls generalizing inside with
  | nil => cases h
  | cons raw ls ih =>
    rw [headerFrom] at h
    split at h
    · cases h
    rename_i hopen
    cases htext : if inside then some (trim raw) else after? openMark (trim raw) with
    | none =>
      rw [htext] at h
      obtain ⟨before, raw', after, now, shown, behind, rfl, hbefore, hshown⟩ := ih h
      refine ⟨raw :: before, raw', after, now, shown, behind, rfl, ?_, hshown⟩
      rw [openBehind?, if_neg hopen, htext]
      exact hbefore
    | some t =>
      have hraw : trim raw = (if inside then [] else openMark) ++ t := by
        cases inside with
        | true => exact Option.some.inj htext
        | false => exact after?_eq_some_iff.1 htext
      rw [htext] at h
      dsimp only at h
      cases hbreak : breakOn? closeMark t with
      | some parts =>
        rw [hbreak] at h
        refine ⟨[], raw, ls, inside, parts.1, closeMark ++ parts.2, rfl, rfl, ?_,
          not_closed_of_breakOn? (by decide) hbreak, .inr (List.prefix_append _ _),
          plainText_of_mem_keepText h⟩
        rw [hraw, eq_append_of_breakOn? hbreak, List.append_assoc parts.1]
      | none =>
        rw [hbreak] at h
        rcases List.mem_append.1 h with h | h
        · refine ⟨[], raw, ls, inside, t, [], rfl, rfl, ?_, not_isInfix_of_breakOn? hbreak,
            .inl rfl, plainText_of_mem_keepText h⟩
          rw [hraw, List.append_nil]
        · obtain ⟨before, raw', after, now, shown, behind, rfl, hbefore, hshown⟩ := ih h
          refine ⟨raw :: before, raw', after, now, shown, behind, rfl, ?_, hshown⟩
          rw [openBehind?, if_neg hopen, htext]
          dsimp only
          rw [hbreak]
          exact hbefore

/-- A text has its plain text behind a star, or behind none, and blanks. -/
theorem exists_of_plainText (shown : List Char) : ∃ (star : Bool) (gap back : List Char),
    shown = (if star then ['*'] else []) ++ (gap ++ (plainText shown ++ back)) ∧
      (∀ c ∈ gap, isBlank c = true) ∧ ∀ c ∈ back, isBlank c = true := by
  unfold plainText
  split
  · rename_i rest
    obtain ⟨gap, back, hrest, hgap, hback⟩ := exists_trim rest
    refine ⟨true, gap, back, ?_, hgap, hback⟩
    conv => lhs; rw [hrest]
    rw [if_pos rfl, List.append_assoc, List.singleton_append]
  · obtain ⟨gap, back, hshown, hgap, hback⟩ := exists_trim shown
    refine ⟨false, gap, back, ?_, hgap, hback⟩
    conv => lhs; rw [hshown]
    rw [if_neg Bool.false_ne_true, List.nil_append, List.append_assoc]

/-- What a line that asks for a path is made of. -/
theorem exists_of_libraryIn? {line name : List Char} (h : libraryIn? line = some name) :
    ∃ spacing pad n back, line = usingMark ++ (spacing ++ name ++
        (pad ++ List.replicate n ';' ++ back)) ∧
      (∀ c ∈ spacing ++ pad ++ back, isBlank c = true) ∧ trimStart name = name := by
  obtain ⟨rest, hrest, rfl⟩ := Option.map_eq_some_iff.1 h
  obtain ⟨front, back, hparts, hfront, hback⟩ := exists_trim rest
  obtain ⟨front', pad, hparts', hfront', hpad⟩ :=
    exists_trim ((trim rest).reverse.dropWhile (· == ';')).reverse
  obtain ⟨n, hsemicolons⟩ : ∃ n, ((trim rest).reverse.takeWhile (· == ';')).reverse =
      List.replicate n ';' := by
    refine ⟨_, List.eq_replicate_of_mem fun c hc => ?_⟩
    exact beq_iff_eq.1 (List.mem_takeWhile_imp (p := (· == ';')) (List.mem_reverse.1 hc))
  have hwhole : trim rest = ((trim rest).reverse.dropWhile (· == ';')).reverse ++
      ((trim rest).reverse.takeWhile (· == ';')).reverse := by
    rw [← List.reverse_append, List.takeWhile_append_dropWhile, List.reverse_reverse]
  refine ⟨front ++ front', pad, n, back, ?_, ?_, trimStart_of_head fun c hc => ?_⟩
  · rw [after?_eq_some_iff.1 hrest]
    conv => lhs; rw [hparts, hwhole, hparts', hsemicolons]
    simp only [List.append_assoc]
  · simp only [List.mem_append]
    rintro c ((( hc | hc) | hc) | hc)
    · exact hfront c hc
    · exact hfront' c hc
    · exact hpad c hc
    · exact hback c hc
  · have hnot := List.head?_dropWhile_not isBlank
      ((trim rest).reverse.dropWhile (· == ';')).reverse
    rw [← trimStart, head?_trim hc] at hnot
    exact hnot

theorem eq_append_of_frontOfSize? {n : Nat} {s front : List Char}
    (h : Utf8.frontOfSize? n s = some front) :
    ∃ back, s = front ++ back ∧ (Utf8.encode front).length = n := by
  fun_induction Utf8.frontOfSize? n s generalizing front with
  | case1 s =>
    cases h
    exact ⟨s, rfl, rfl⟩
  | case2 n => cases h
  | case3 n c s hle ih =>
    obtain ⟨others, hothers, rfl⟩ := Option.map_eq_some_iff.1 h
    obtain ⟨back, rfl, hlen⟩ := ih hothers
    refine ⟨back, rfl, ?_⟩
    rw [Utf8.length_encode_cons, hlen]
    omega
  | case4 n c s hle => cases h

theorem eq_append_of_endOfSize? {n : Nat} {s ending : List Char}
    (h : Utf8.endOfSize? n s = some ending) :
    ∃ front, s = front ++ ending ∧ (Utf8.encode ending).length = n := by
  obtain ⟨front, hsize, rfl⟩ := Option.map_eq_some_iff.1 h
  obtain ⟨back, hs, hlen⟩ := eq_append_of_frontOfSize? hsize
  refine ⟨back.reverse, ?_, by rw [Utf8.length_encode_reverse, hlen]⟩
  rw [← List.reverse_append, ← hs, List.reverse_reverse]

/-- The names of the libraries stand in lines that ask for them. -/
theorem mem_of_libraryNames {ls names : List (List Char)} {name : List Char}
    (h : libraryNames ls = .ok names) (hmem : name ∈ names) :
    ∃ line ∈ ls, libraryIn? line = some name ∧ isLibrary name = true := by
  induction ls generalizing names with
  | nil =>
    cases h
    cases hmem
  | cons line ls ih =>
    have hlater : ∀ {others}, libraryNames ls = .ok others → name ∈ others →
        ∃ line' ∈ line :: ls, libraryIn? line' = some name ∧ isLibrary name = true := by
      intro others hothers hmem
      obtain ⟨line', hline', hname⟩ := ih hothers hmem
      exact ⟨line', List.mem_cons_of_mem line hline', hname⟩
    rw [libraryNames] at h
    split at h
    · exact hlater h hmem
    rename_i other hother
    split at h
    · exact hlater h hmem
    rename_i hlonger
    split at h
    · cases h
    rename_i ending hending
    split at h
    · cases h
    rename_i others hothers
    cases h
    split at hmem
    case isFalse => exact hlater hothers hmem
    case isTrue hsame =>
    rcases List.mem_cons.1 hmem with rfl | hmem
    · obtain ⟨front, rfl, hsize⟩ := eq_append_of_endOfSize? hending
      have hlen : ending.length = libraryEnding.length := by
        have hmap : ending.map Char.toLower = libraryEnding := beq_iff_eq.1 hsame
        rw [← hmap, List.length_map]
      refine ⟨line, List.mem_cons_self, hother, isLibrary_append ?_ hlen hsame⟩
      rintro rfl
      rw [List.nil_append, isLongerThanEnding, hsize, decide_eq_false (Nat.lt_irrefl _)] at hlonger
      exact hlonger rfl
    · exact hlater hothers hmem

/-- **Where a header line stands in its source**: behind whole lines, in a line in which only blanks
and a star are in front of it, and only blanks up to the end of the line or of the comment behind
it. -/
theorem exists_of_mem_headerLines {content text : List Char} (h : text ∈ headerLines content) :
    ∃ (front indent : List Char) (inside star : Bool) (gap extra behind : List Char),
      content = front ++ (indent ++ (((if inside then [] else openMark) ++
        if star then ['*'] else []) ++ (gap ++ (text ++ extra))) ++ behind) ∧
      (front = [] ∨ front.getLast? = some '\n') ∧ openBehind? false (lines front) = some inside ∧
      (∀ c ∈ indent ++ gap ++ extra, isBlank c = true) ∧
      '\n' ∉ indent ++ gap ++ text ++ extra ∧ ¬ closeMark <:+: text ∧
      (behind = [] ∨ ['\n'] <+: behind ∨ closeMark <+: behind) := by
  obtain ⟨before, raw, after, inside, shown, rest, hlines, hopen, htrim, hunclosed, hrest, rfl⟩ :=
    exists_raw_of_mem_headerFrom h
  obtain ⟨star, gap, back, hshown, hgap, hback⟩ := exists_of_plainText shown
  -- the line in the source, and the line feed that ends it
  obtain ⟨front, others, hcut, rfl, hothers⟩ := List.map_eq_append_iff.1 hlines
  obtain ⟨line, more, rfl, rfl, -⟩ := List.map_eq_cons_iff.1 hothers
  obtain ⟨w, feed, hfeed, hline, hcontent, hends, hstart, hfront⟩ := exists_of_cutLines_eq hcut
  have htrimw : trim w = (if inside then [] else openMark) ++ (shown ++ rest) := by
    rw [← htrim, trim_lineText, hline, trim_append_right]
    rcases hends with rfl | ⟨rfl, -⟩ <;> exact List.all_eq_true.1 (by decide)
  obtain ⟨indent, pad, hw, hindent, hpad⟩ := exists_trim w
  rw [htrimw, hshown] at hw
  replace hcontent : content = front.flatten ++ (indent ++ (((if inside then [] else openMark) ++
      if star then ['*'] else []) ++ (gap ++ (plainText shown ++ back))) ++
        (rest ++ (pad ++ (feed ++ more.flatten)))) := by
    rw [hcontent, hw]
    simp only [List.append_assoc]
  have hclosed : ¬ closeMark <:+: plainText shown := fun hpiece => hunclosed <| hpiece.trans
    ⟨(if star then ['*'] else []) ++ gap, back, by
      conv => rhs; rw [hshown]
      simp only [List.append_assoc]⟩
  rw [hw] at hfeed
  simp only [List.mem_append, not_or] at hfeed
  obtain ⟨⟨hindent', -, ⟨-, hgap', htext', hback'⟩, -⟩, hpad'⟩ := hfeed
  rcases hrest with rfl | hclose
  · refine ⟨front.flatten, indent, inside, star, gap, back ++ pad, feed ++ more.flatten, ?_, hstart,
      by rw [lines, hfront, hopen], ?_, ?_, hclosed, ?_⟩
    · rw [hcontent]
      simp only [List.append_assoc, List.nil_append]
    · simp only [List.forall_mem_append]
      exact ⟨⟨hindent, hgap⟩, hback, hpad⟩
    · simp only [List.mem_append, not_or]
      exact ⟨⟨⟨hindent', hgap'⟩, htext'⟩, hback', hpad'⟩
    · rcases hends with rfl | ⟨rfl, hnone⟩
      · exact .inr (.inl (List.prefix_append _ _))
      · exact .inl (by rw [hnone, List.nil_append])
  · refine ⟨front.flatten, indent, inside, star, gap, back,
      rest ++ (pad ++ (feed ++ more.flatten)), hcontent, hstart,
      by rw [lines, hfront, hopen], ?_, ?_, hclosed, .inr (.inr (hclose.trans (List.prefix_append ..)))⟩
    · simp only [List.forall_mem_append]
      exact ⟨⟨hindent, hgap⟩, hback⟩
    · simp only [List.mem_append, not_or]
      exact ⟨⟨⟨hindent', hgap'⟩, htext'⟩, hback'⟩

/-- **Every library of every header stands in a place for it.** -/
theorem exists_slot {content : List Char} {names : List (List Char)} {name : List Char}
    (h : libraryNames (headerLines content) = .ok names) (hmem : name ∈ names) :
    ∃ s : LibrarySlot, s.fill name = content ∧ IsAskable name := by
  obtain ⟨text, htext, hname, hlibrary⟩ := mem_of_libraryNames h hmem
  obtain ⟨front, indent, inside, star, gap, extra, behind, hcontent, hwhole, hopen, hblank, hfeed,
    hclosed, hends⟩ := exists_of_mem_headerLines htext
  obtain ⟨spacing, pad, n, tail, hplain, hblank', hstart⟩ := exists_of_libraryIn? hname
  simp only [List.forall_mem_append] at hblank hblank'
  obtain ⟨⟨hindent, hgap⟩, hextra⟩ := hblank
  obtain ⟨⟨hspacing, hpad⟩, htail⟩ := hblank'
  rw [hplain] at hfeed hclosed
  simp only [List.mem_append, not_or] at hfeed
  obtain ⟨⟨⟨hindent', hgap'⟩, -, ⟨hspacing', hname'⟩, ⟨hpad', -⟩, htail'⟩, hextra'⟩ := hfeed
  have hno : ∀ {t : List Char}, '\n' ∉ t → ∀ c ∈ t, c ≠ '\n' := fun ht c hc heq => ht (heq ▸ hc)
  refine ⟨{
    front, inside, indent, star, gap, spacing, pad, semicolons := n, tail := tail ++ extra, behind
    whole := hwhole
    open_front := hopen
    blank := ?_
    ends := hends }, ?_, ?_⟩
  · simp only [List.forall_mem_append]
    refine ⟨⟨⟨⟨?_, ?_⟩, ?_⟩, ?_⟩, ?_, ?_⟩
    · exact fun c hc => ⟨hindent c hc, hno hindent' c hc⟩
    · exact fun c hc => ⟨hgap c hc, hno hgap' c hc⟩
    · exact fun c hc => ⟨hspacing c hc, hno hspacing' c hc⟩
    · exact fun c hc => ⟨hpad c hc, hno hpad' c hc⟩
    · exact fun c hc => ⟨htail c hc, hno htail' c hc⟩
    · exact fun c hc => ⟨hextra c hc, hno hextra' c hc⟩
  · rw [hcontent, hplain]
    simp only [LibrarySlot.fill, LibrarySlot.line, LibrarySlot.lead, LibrarySlot.text,
      LibrarySlot.ending, List.append_assoc]
  · refine ⟨by rw [hstart, hlibrary], hname', fun hpiece => hclosed (hpiece.trans ?_)⟩
    refine ⟨usingMark ++ spacing, pad ++ List.replicate n ';' ++ tail, ?_⟩
    simp only [List.append_assoc]

end Slots

end Patch

end CilGraft
