import CilGraft.Proofs.PreparedSources

/-!
# Where the attribute stands

An attribute of the assembly belongs behind the directives that a source begins with and in front of
its first other code, and it may not stand inside of a comment. The preamble is told from its lines
one by one, each from its ends only, so the attribute is in its place exactly when the lines in front
of the first other code are what the scanner takes for the preamble.

* `Zone`, `codeFrom` — the comments of a source, and its code with blanks for them.
* `behindDirective?`, `behindDirectives` — the directives that a code begins with.
* `IsPlaced` — the attribute is in its place.
* `CodeStarts` — the line with the first other code; `exists_codeStarts`.
* `placed_iff` — when the attribute is in its place, for every source.
* `misplaced` — three sources with the attribute in a wrong place.
-/

set_option autoImplicit false

namespace CilGraft.Patch

open Text

/-! ## Comments -/

/-- Where a character of a source stands. The marks of a block comment have two characters; `opening`
and `closing` are in front of the second one. -/
inductive Zone where
  | code
  | line
  | opening
  | block
  | closing
  deriving DecidableEq, Repr

namespace Zone

/-- The zone behind a character, with the next character of the source at hand. -/
def next (z : Zone) (c : Char) (ahead : Option Char) : Zone :=
  match z with
  | .code =>
    if c = '/' ∧ ahead = some '/' then .line
    else if c = '/' ∧ ahead = some '*' then .opening
    else .code
  | .line => if c = '\n' then .code else .line
  | .opening => .block
  | .block => if c = '*' ∧ ahead = some '/' then .closing else .block
  | .closing => .code

/-- The zone behind a text. -/
def after : Zone → List Char → Zone
  | z, [] => z
  | z, c :: s => after (z.next c s.head?) s

/-- The zone is inside of a block comment. -/
def isBlock : Zone → Bool
  | .code | .line => false
  | .opening | .block | .closing => true

/-- A character of the code, or a blank in its place when it belongs to a comment. The ends of lines
are kept. -/
def shown (z : Zone) (c : Char) (ahead : Option Char) : Char :=
  if c = '\n' ∨ (z = .code ∧ z.next c ahead = .code) then c else ' '

end Zone

/-- The code of a text that begins in a zone, with blanks for its comments. -/
def codeFrom : Zone → List Char → List Char
  | _, [] => []
  | z, c :: s => z.shown c s.head? :: codeFrom (z.next c s.head?) s

/-- The code of a source. It is as long as the source. -/
def codeOf (content : List Char) : List Char := codeFrom .code content

/-! ## Directives -/

/-- What follows a word and the blanks behind it. -/
def afterWord? (word s : List Char) : Option (List Char) :=
  match after? word s with
  | some (c :: rest) => if isBlank c then some (trimStart rest) else none
  | _ => none

/-- A character of a name. -/
def isNameCharacter (c : Char) : Bool :=
  c.isAlphanum || c == '_' || c == '@' || (128 ≤ c.toNat && !isBlank c)

/-- A name, whose parts are joined by points or colons. -/
def isName (s : List Char) : Bool :=
  trim s != [] && (pieces (fun c => c == '.' || c == ':') s).all fun w => (trim w).all isNameCharacter

/-- What a directive imports: a namespace, the members of a type, or a name with what it stands for.
A statement declares a variable instead. -/
def isImport (body : List Char) : Bool :=
  let target := body.takeWhile (· != '=')
  let unmodified := (afterWord? "static".toList target).or (afterWord? "unsafe".toList target)
  isName (unmodified.getD target)

/-- The code behind a directive that ends in a semicolon, when its body satisfies a test. -/
def behindBody? (test : List Char → Bool) (s : List Char) : Option (List Char) :=
  match breakOn? [';'] s with
  | some (body, behind) => if test body then some behind else none
  | none => none

/-- The code behind a directive that imports names. -/
def behindUsing? (s : List Char) : Option (List Char) :=
  (afterWord? "using".toList ((afterWord? "global".toList s).getD s)).bind (behindBody? isImport)

/-- The code behind a directive that names another assembly. -/
def behindAlias? (s : List Char) : Option (List Char) :=
  ((afterWord? "extern".toList s).bind (afterWord? "alias".toList)).bind (behindBody? isName)

/-- The code behind the directive that a code begins with. A directive for the preprocessor takes its
whole line. -/
def behindDirective? : List Char → Option (List Char)
  | '#' :: s => some (s.dropWhile (· != '\n')).tail
  | s => (behindUsing? s).or (behindAlias? s)

section Suffixes

variable {s rest word : List Char} {test : List Char → Bool}

theorem trimStart_suffix (s : List Char) : trimStart s <:+ s := List.dropWhile_suffix _

theorem suffix_of_afterWord? (h : afterWord? word s = some rest) :
    rest <:+ s ∧ rest.length < s.length := by
  rw [afterWord?] at h
  split at h
  · rename_i c more hafter
    split at h
    · cases h
      have hs := after?_eq_some_iff.1 hafter
      have hmore : trimStart more <:+ more := trimStart_suffix more
      subst hs
      refine ⟨hmore.trans ⟨word ++ [c], by simp⟩, ?_⟩
      have hle := hmore.length_le
      simp only [List.length_append, List.length_cons]
      omega
    · cases h
  · cases h

theorem suffix_of_behindBody? (h : behindBody? test s = some rest) : rest <:+ s := by
  rw [behindBody?] at h
  split at h
  · rename_i body behind hbreak
    split at h
    · cases h
      exact ⟨_, (eq_append_of_breakOn? hbreak).symm⟩
    · cases h
  · cases h

theorem suffix_of_behindUsing? (h : behindUsing? s = some rest) :
    rest <:+ s ∧ rest.length < s.length := by
  obtain ⟨more, hword, hbody⟩ := Option.bind_eq_some_iff.1 h
  have hrest := suffix_of_behindBody? hbody
  obtain ⟨hmore, hlt⟩ := suffix_of_afterWord? hword
  have hglobal : (afterWord? "global".toList s).getD s <:+ s := by
    cases hafter : afterWord? "global".toList s with
    | none => exact List.suffix_refl s
    | some back => exact (suffix_of_afterWord? hafter).1
  have hle := hrest.length_le
  have hle' := hglobal.length_le
  exact ⟨hrest.trans (hmore.trans hglobal), by omega⟩

theorem suffix_of_behindAlias? (h : behindAlias? s = some rest) :
    rest <:+ s ∧ rest.length < s.length := by
  obtain ⟨more, hwords, hbody⟩ := Option.bind_eq_some_iff.1 h
  obtain ⟨back, hextern, halias⟩ := Option.bind_eq_some_iff.1 hwords
  have hrest := suffix_of_behindBody? hbody
  obtain ⟨hback, hlt⟩ := suffix_of_afterWord? hextern
  obtain ⟨hmore, hlt'⟩ := suffix_of_afterWord? halias
  have hle := hrest.length_le
  exact ⟨hrest.trans (hmore.trans hback), by omega⟩

/-- The code behind a directive is shorter. -/
theorem suffix_of_behindDirective? (h : behindDirective? s = some rest) :
    rest <:+ s ∧ rest.length < s.length := by
  unfold behindDirective? at h
  split at h
  · rename_i s
    cases h
    have htail : (s.dropWhile (· != '\n')).tail <:+ s :=
      (List.tail_suffix _).trans (List.dropWhile_suffix _)
    have hle := htail.length_le
    refine ⟨htail.trans (List.suffix_cons _ _), ?_⟩
    rw [List.length_cons]
    omega
  · rcases Option.or_eq_some_iff.1 h with husing | ⟨-, halias⟩
    · exact suffix_of_behindUsing? husing
    · exact suffix_of_behindAlias? halias

end Suffixes

/-- The code behind all the directives that it begins with. -/
def behindDirectives (s : List Char) : List Char :=
  match _hrest : behindDirective? (trimStart s) with
  | some rest => behindDirectives rest
  | none => s
termination_by s.length
decreasing_by
  have hlt := (suffix_of_behindDirective? _hrest).2
  have hle := (trimStart_suffix s).length_le
  omega

theorem behindDirectives_of_none {s : List Char} (h : behindDirective? (trimStart s) = none) :
    behindDirectives s = s := by
  rw [behindDirectives]
  split
  · rename_i rest hrest
    rw [hrest] at h
    cases h
  · rfl

theorem behindDirectives_of_some {s rest : List Char}
    (h : behindDirective? (trimStart s) = some rest) : behindDirectives s = behindDirectives rest := by
  rw [behindDirectives]
  split
  · rename_i rest' hrest
    rw [h, Option.some.injEq] at hrest
    rw [hrest]
  · rename_i hnone
    rw [hnone] at h
    cases h

theorem behindDirectives_suffix (s : List Char) : behindDirectives s <:+ s := by
  fun_induction behindDirectives s with
  | case1 s rest hrest ih =>
    exact ih.trans ((suffix_of_behindDirective? hrest).1.trans (trimStart_suffix s))
  | case2 s hnone => exact List.suffix_refl s

/-- The code from the first character on that belongs to no leading directive. -/
def otherCode (s : List Char) : List Char := trimStart (behindDirectives s)

/-- What stands between the directives and the other code is blank. -/
theorem exists_blanks_otherCode (s : List Char) :
    ∃ blanks, behindDirectives s = blanks ++ otherCode s ∧ ∀ c ∈ blanks, isBlank c = true :=
  ⟨(behindDirectives s).takeWhile isBlank, List.takeWhile_append_dropWhile.symm,
    fun _ => List.mem_takeWhile_imp⟩

/-! ## The code of lines -/

section Codes

variable {z : Zone} {s front back line blanks : List Char}

@[simp] theorem length_codeFrom (z : Zone) (s : List Char) : (codeFrom z s).length = s.length := by
  induction s generalizing z with
  | nil => rfl
  | cons c s ih => simp [codeFrom, ih]

theorem codeFrom_append_feed (z : Zone) (front back : List Char) :
    codeFrom z (front ++ '\n' :: back) =
      codeFrom z (front ++ ['\n']) ++ codeFrom (z.after (front ++ ['\n'])) back := by
  induction front generalizing z with
  | nil =>
    -- a line feed belongs to no mark of a comment, so nothing is looked up behind it
    have hnext : z.next '\n' back.head? = z.next '\n' none := by cases z <;> simp [Zone.next]
    simp [codeFrom, Zone.after, Zone.shown, hnext]
  | cons c front ih =>
    have hahead : (front ++ '\n' :: back).head? = (front ++ ['\n']).head? := by
      cases front <;> rfl
    simp [codeFrom, Zone.after, hahead, ih]

/-- The code of two texts, when the first one consists of whole lines. -/
theorem codeFrom_append (h : WholeLines front back) :
    codeFrom z (front ++ back) = codeFrom z front ++ codeFrom (z.after front) back := by
  rcases h with rfl | hlast | rfl
  · rfl
  · obtain ⟨lead, rfl⟩ := List.getLast?_eq_some_iff.1 hlast
    rw [List.append_assoc, List.singleton_append, codeFrom_append_feed]
  · simp [codeFrom]

/-- Behind a line there is code, unless a block comment is open. -/
theorem after_feed (h : (z.after (front ++ ['\n'])).isBlock = false) :
    z.after (front ++ ['\n']) = .code := by
  induction front generalizing z with
  | nil => cases z <;> simp_all [Zone.after, Zone.next, Zone.isBlock]
  | cons c front ih => exact ih h

theorem after_of_wholeLines (hwhole : WholeLines front back) (hback : back ≠ [])
    (h : (Zone.code.after front).isBlock = false) : Zone.code.after front = .code := by
  rcases hwhole with rfl | hlast | hnil
  · rfl
  · obtain ⟨lead, rfl⟩ := List.getLast?_eq_some_iff.1 hlast
    exact after_feed h
  · exact absurd hnil hback

theorem codeFrom_blanks (h : ∀ c ∈ blanks, isBlank c = true) (s : List Char) :
    codeFrom .code (blanks ++ s) = blanks ++ codeFrom .code s := by
  induction blanks with
  | nil => rfl
  | cons c blanks ih =>
    obtain ⟨hc, hblanks⟩ := List.forall_mem_cons.1 h
    have hslash : c ≠ '/' := by
      rintro rfl
      exact absurd hc (by decide)
    have hnext : ∀ ahead, Zone.code.next c ahead = .code := fun ahead => by
      simp [Zone.next, hslash]
    simp [codeFrom, Zone.shown, hnext, ih hblanks]

/-- The first character of a line that is no blank is shown, unless it begins a comment. -/
theorem exists_mark_of_blank {c : Char} (hc : isBlank c = false)
    (h : isBlank (Zone.code.shown c s.head?) = true) :
    c = '/' ∧ ∃ mark rest, s = mark :: rest ∧ (mark = '/' ∨ mark = '*') := by
  have hnext : Zone.code.next c s.head? ≠ .code := by
    intro hcode
    rw [Zone.shown, if_pos (.inr ⟨rfl, hcode⟩), hc] at h
    cases h
  cases s with
  | nil => simp [Zone.next] at hnext
  | cons mark rest =>
    simp only [Zone.next, List.head?_cons, Option.some.injEq] at hnext
    by_cases hslash : c = '/' ∧ mark = '/'
    · exact ⟨hslash.1, mark, rest, rfl, .inl hslash.2⟩
    · by_cases hstar : c = '/' ∧ mark = '*'
      · exact ⟨hstar.1, mark, rest, rfl, .inr hstar.2⟩
      · rw [if_neg hslash, if_neg hstar] at hnext
        exact absurd rfl hnext

/-- **A line without code belongs to the preamble.** -/
theorem exists_preambleLine_of_blank (h : ∀ c ∈ codeFrom .code line, isBlank c = true)
    (isOpen : Bool) : ∃ next, PreambleLine isOpen line next := by
  cases isOpen with
  | true =>
    by_cases hmark : "*/".toList <:+: trim line
    · exact ⟨false, .closing hmark⟩
    · exact ⟨true, .inside hmark⟩
  | false =>
    have hline : line = line.takeWhile isBlank ++ trimStart line :=
      List.takeWhile_append_dropWhile.symm
    have hblanks : ∀ c ∈ line.takeWhile isBlank, isBlank c = true := fun _ => List.mem_takeWhile_imp
    cases hstart : trimStart line with
    | nil => exact ⟨false, .blank (by rw [trim, hstart]; rfl)⟩
    | cons c s =>
      have hc : isBlank c = false := by
        have hnot := List.head?_dropWhile_not isBlank line
        rw [← trimStart, hstart] at hnot
        exact hnot
      rw [hline, hstart, codeFrom_blanks hblanks] at h
      have hshown := h _ (List.mem_append_right _ List.mem_cons_self)
      obtain ⟨rfl, mark, rest, rfl, hmark⟩ := exists_mark_of_blank hc hshown
      rcases hmark with rfl | rfl
      · have htrim : trim line = "//".toList ++ trimEnd rest := by
          rw [trim, hstart, trimEnd_cons (by decide), trimEnd_cons (by decide)]
          rfl
        exact ⟨false, .slashes htrim⟩
      · have htrim : trim line = "/*".toList ++ trimEnd rest := by
          rw [trim, hstart, trimEnd_cons (by decide), trimEnd_cons (by decide)]
          rfl
        by_cases hclosed : "*/".toList <:+: trimEnd rest
        · exact ⟨false, .comment htrim hclosed⟩
        · exact ⟨true, .opening htrim hclosed⟩

end Codes

/-! ## The place of the attribute -/

/-- The attribute between two parts of a source is in its place: outside of block comments, behind the
leading directives, and in front of the other code. -/
structure IsPlaced (front back : List Char) : Prop where
  outside : (Zone.code.after front).isBlock = false
  behind : back.length ≤ (behindDirectives (codeOf (front ++ back))).length
  before : (otherCode (codeOf (front ++ back))).length ≤ back.length

/-- The first other code of a source is in the line that the second part begins with; without other code
there is no such line. -/
structure CodeStarts (front back : List Char) : Prop where
  whole : WholeLines front back
  before : (otherCode (codeOf (front ++ back))).length ≤ back.length
  inLine : back = [] ∨ ∃ line more, cutLines back = line :: more ∧
    more.flatten.length < (otherCode (codeOf (front ++ back))).length

/-- The lines in front are those that count as the preamble. -/
def IsScanned (front back : List Char) : Prop :=
  ∃ stillOpen, PreambleLines false (cutLines front) stillOpen ∧
    ∀ line more, cutLines back = line :: more → ∀ next, ¬ PreambleLine stillOpen line next

section Places

variable {content front back lead tail : List Char}

/-- The line at which the last `n` characters of lines begin. -/
theorem exists_line_of_length (ls : List (List Char)) {n : Nat} (h : n ≤ ls.flatten.length) :
    ∃ front back, ls = front ++ back ∧ n ≤ back.flatten.length ∧
      (back = [] ∨ ∃ line more, back = line :: more ∧ more.flatten.length < n) := by
  induction ls with
  | nil => exact ⟨[], [], rfl, h, .inl rfl⟩
  | cons line ls ih =>
    by_cases hn : n ≤ ls.flatten.length
    · obtain ⟨front, back, rfl, hback, hline⟩ := ih hn
      exact ⟨line :: front, back, rfl, hback, hline⟩
    · exact ⟨[], line :: ls, rfl, h, .inr ⟨line, ls, rfl, by omega⟩⟩

theorem length_otherCode_le (s : List Char) : (otherCode s).length ≤ s.length :=
  ((trimStart_suffix _).trans (behindDirectives_suffix s)).length_le

/-- Every source is parted in front of the line with its first other code. -/
theorem exists_codeStarts (content : List Char) :
    ∃ front back, front ++ back = content ∧ CodeStarts front back := by
  have hle : (otherCode (codeOf content)).length ≤ (cutLines content).flatten.length := by
    rw [flatten_cutLines]
    exact (length_otherCode_le _).trans_eq (length_codeFrom _ _)
  obtain ⟨front, back, hlines, hback, hline⟩ := exists_line_of_length (cutLines content) hle
  obtain ⟨hwhole, -, hcut⟩ := wholeLines_of_cutLines hlines
  have hcontent : front.flatten ++ back.flatten = content := by
    rw [← List.flatten_append, ← hlines, flatten_cutLines]
  refine ⟨front.flatten, back.flatten, hcontent, hwhole, by rwa [hcontent], ?_⟩
  rcases hline with rfl | ⟨line, more, rfl, hmore⟩
  · exact .inl rfl
  · exact .inr ⟨line, more, hcut, by rwa [hcontent]⟩

/-- The parts of a source are known from the lines that count as its preamble. -/
theorem parts_of_isScanned (hcontent : front ++ back = content) (hwhole : WholeLines front back)
    (h : IsScanned front back) : preambleOf content = front ∧ restOf content = back := by
  obtain ⟨stillOpen, hlines, hstops⟩ := h
  have hback : splitPreamble stillOpen (cutLines back) = ([], cutLines back) := by
    cases hcut : cutLines back with
    | nil => rfl
    | cons line more =>
      have hnone : openAfter? stillOpen (trim line) = none :=
        Option.eq_none_iff_forall_ne_some.2 fun next hnext =>
          hstops line more hcut next (openAfter?_eq_some_iff.1 hnext)
      rw [splitPreamble, hnone]
  have hsplit : splitPreamble false (cutLines content) = (cutLines front, cutLines back) := by
    rw [← hcontent, cutLines_append hwhole, splitPreamble_append hlines, hback, List.append_nil]
  rw [preambleOf, restOf, hsplit, flatten_cutLines, flatten_cutLines]
  exact ⟨rfl, rfl⟩

theorem isScanned_parts (content : List Char) : IsScanned (preambleOf content) (restOf content) :=
  exists_preambleLines_preambleOf content

/-- Behind an attribute in its place there is no code but the other code. -/
theorem isBlank_of_isPlaced {between : List Char} (hplaced : IsPlaced front (between ++ tail))
    (hwhole : WholeLines front (between ++ tail)) (hbetween : WholeLines between tail)
    (hne : between ++ tail ≠ [])
    (hbefore : (otherCode (codeOf (front ++ (between ++ tail)))).length ≤ tail.length) :
    ∀ c ∈ codeFrom .code between, isBlank c = true := by
  have hzone := after_of_wholeLines hwhole hne hplaced.outside
  have hcode : codeOf (front ++ (between ++ tail)) = codeFrom .code front ++
      (codeFrom .code between ++ codeFrom (Zone.code.after between) tail) := by
    rw [codeOf, codeFrom_append hwhole, hzone, codeFrom_append hbetween]
  have hbehind := hplaced.behind
  rw [hcode] at hbehind hbefore
  generalize hm : codeFrom .code front ++
    (codeFrom .code between ++ codeFrom (Zone.code.after between) tail) = m at hbehind hbefore
  obtain ⟨blanks, hblanks, hall⟩ := exists_blanks_otherCode m
  -- what stands behind the attribute ends the code behind the directives, and begins with blanks
  have hrest : codeFrom .code between ++ codeFrom (Zone.code.after between) tail <:+
      behindDirectives m := by
    refine List.suffix_of_suffix_length_le (?_ : _ <:+ m) ?_ ?_
    · exact ⟨_, hm⟩
    · exact behindDirectives_suffix m
    · simpa using hbehind
  have hother : otherCode m <:+ codeFrom (Zone.code.after between) tail := by
    refine List.suffix_of_suffix_length_le (?_ : _ <:+ behindDirectives m) ?_ ?_
    · exact ⟨blanks, hblanks.symm⟩
    · exact (List.suffix_append _ _).trans hrest
    · simpa using hbefore
  obtain ⟨lead, hlead⟩ := hrest
  obtain ⟨gap, hgap⟩ := hother
  have hparts : blanks = lead ++ (codeFrom .code between ++ gap) := by
    rw [← hgap, hblanks] at hlead
    have hwhole : blanks ++ otherCode m = lead ++ (codeFrom .code between ++ gap) ++ otherCode m := by
      rw [← hlead]
      simp only [List.append_assoc]
    exact List.append_cancel_right hwhole
  intro c hc
  apply hall
  rw [hparts]
  exact List.mem_append_right _ (List.mem_append_left _ hc)

/-- With the attribute in its place, the preamble ends in front of the line with the first other code. -/
theorem preambleOf_of_isPlaced (hcontent : lead ++ tail = content) (hstarts : CodeStarts lead tail)
    (h : IsPlaced (preambleOf content) (restOf content)) : preambleOf content = lead := by
  have hparts := preambleOf_append_restOf content
  obtain ⟨hwhole, -, -⟩ := wholeLines_parts content
  obtain ⟨stillOpen, -, hstops⟩ := isScanned_parts content
  generalize preambleOf content = front, restOf content = back at *
  rcases List.append_eq_append_iff.1 (hparts.trans hcontent.symm) with
    ⟨between, hlead, hback⟩ | ⟨between, hfront, htail⟩
  · -- the lines between have no code, and the first of them would have been passed
    by_contra hne
    have hbetween : between ≠ [] := by
      rintro rfl
      exact hne (by rw [hlead, List.append_nil])
    subst hlead hback
    have hlines := hstarts.whole.of_append_left hbetween
    have hbefore := hstarts.before
    rw [List.append_assoc] at hbefore
    have hblank := isBlank_of_isPlaced h hwhole hlines (by simp [hbetween]) hbefore
    obtain ⟨line, more, hcut, hline, hparts⟩ := exists_cutLines_of_ne_nil hbetween
    rw [hparts, codeFrom_append hline] at hblank
    obtain ⟨next, hpassed⟩ := exists_preambleLine_of_blank
      (fun c hc => hblank c (List.mem_append_left _ hc)) stillOpen
    apply hstops line (more ++ cutLines tail) _ next hpassed
    rw [cutLines_append hlines, hcut, List.cons_append]
  · -- a line in front of the attribute would hold the first other code
    by_contra hne
    have hbetween : between ≠ [] := by
      rintro rfl
      exact hne (by rw [hfront, List.append_nil])
    subst hfront htail
    have hlines := hwhole.of_append_left hbetween
    obtain ⟨line, more, hcut, -⟩ := exists_cutLines_of_ne_nil hbetween
    have hbefore := h.before
    rw [List.append_assoc] at hbefore
    rcases hstarts.inLine with hnil | ⟨first, others, hfirst, hlt⟩
    · simp [hbetween] at hnil
    · rw [cutLines_append hlines, hcut, List.cons_append, List.cons.injEq] at hfirst
      rw [← hfirst.2, List.flatten_append, flatten_cutLines, List.length_append] at hlt
      omega

end Places

/-- **Where the attribute stands.** Every source is parted in front of the line with its first other
code. The attribute is in its place exactly when no block comment is open there, no directive ends in
that line, and the lines that count as the preamble are those in front of that line. -/
theorem placed_iff (content framework : List Char) :
    prepare content framework =
        preambleOf content ++ missingEnd (preambleOf content) (restOf content) ++
          attributeLine framework ++ restOf content ∧
      preambleOf content ++ restOf content = content ∧
      ∃ front back, front ++ back = content ∧ CodeStarts front back ∧
        (IsPlaced (preambleOf content) (restOf content) ↔
          (Zone.code.after front).isBlock = false ∧
            back.length ≤ (behindDirectives (codeOf content)).length ∧ IsScanned front back) := by
  have hparts := preambleOf_append_restOf content
  refine ⟨prepare_eq content framework, hparts, ?_⟩
  obtain ⟨front, back, hcontent, hstarts⟩ := exists_codeStarts content
  refine ⟨front, back, hcontent, hstarts, ?_, ?_⟩
  · intro h
    have hfront := preambleOf_of_isPlaced hcontent hstarts h
    have hback : restOf content = back := by
      rw [hfront] at hparts
      exact List.append_cancel_left (hparts.trans hcontent.symm)
    have hscanned := isScanned_parts content
    have hbehind := h.behind
    rw [hparts, hback] at hbehind
    rw [hfront, hback] at hscanned
    exact ⟨hfront ▸ h.outside, hbehind, hscanned⟩
  · rintro ⟨houtside, hbehind, hscanned⟩
    obtain ⟨hfront, hback⟩ := parts_of_isScanned hcontent hstarts.whole hscanned
    rw [hfront, hback]
    have hbefore := hstarts.before
    refine ⟨houtside, ?_, hbefore⟩
    rwa [hcontent]

/-! ## Three sources -/

/-- A source as it usually is. -/
def usualSource : List Char := "/*\n @Name=Fix\n*/\nusing System;\n\nclass P { }\n".toList

example : IsPlaced (preambleOf usualSource) (restOf usualSource) := by
  have hdirective : behindDirective? (trimStart (codeOf usualSource)) =
      some "\n\nclass P { }\n".toList := by decide +kernel
  have hcode : behindDirectives (codeOf usualSource) = "\n\nclass P { }\n".toList := by
    rw [behindDirectives_of_some hdirective, behindDirectives_of_none (by decide +kernel)]
  constructor
  · decide +kernel
  · rw [preambleOf_append_restOf, hcode]
    decide +kernel
  · rw [preambleOf_append_restOf, otherCode, hcode]
    decide +kernel

/-- A comment and a declaration in one line. -/
def commentedClass : List Char := "/* a */ class P { }\n".toList

/-- A directive and a comment in one line. -/
def commentedUsing : List Char := "using System; // c\nclass P { }\n".toList

/-- Two comments in one line, the second of which goes on. -/
def twoComments : List Char := "/* a */ /* b\n c */ class P { }\n".toList

/-- **Comments that share a line with code or with another comment** put the attribute behind the first
declaration, in front of a directive, or inside of a comment. -/
theorem misplaced :
    ¬ IsPlaced (preambleOf commentedClass) (restOf commentedClass) ∧
      ¬ IsPlaced (preambleOf commentedUsing) (restOf commentedUsing) ∧
        ¬ IsPlaced (preambleOf twoComments) (restOf twoComments) := by
  refine ⟨fun h => ?_, fun h => ?_, fun h => ?_⟩
  · have hbefore := h.before
    rw [preambleOf_append_restOf, otherCode, behindDirectives_of_none (by decide +kernel)] at hbefore
    exact absurd hbefore (by decide +kernel)
  · have hdirective : behindDirective? (trimStart (codeOf commentedUsing)) =
        some "     \nclass P { }\n".toList := by decide +kernel
    have hbehind := h.behind
    rw [preambleOf_append_restOf, behindDirectives_of_some hdirective,
      behindDirectives_of_none (by decide +kernel)] at hbehind
    exact absurd hbehind (by decide +kernel)
  · exact absurd h.outside (by decide +kernel)

end CilGraft.Patch
