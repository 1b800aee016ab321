import CilGraft.Proofs.Turns

/-!
# References that break off inside of a character

The parser cuts texts at two places: a header line in front of the mark that closes the comment, and a
library reference in front of its ending. The first one is always between two characters; the second one
is found by counting bytes, and can be inside of a character. Nothing else keeps a source from having a
descriptor or an error of its own, which costs a run no more than that source.

* `Utf8.IsBorder` — a number of bytes behind which a character begins or the text ends.
* `Patch.IsCut`, `Patch.FirstCut` — the references that break off; `libraryNames_eq_error_iff`.
* `Descriptor.parse_eq_broken_iff` — the texts that have neither a descriptor nor an error of their own.
* `Sources.prepare_insert` — what a malformed source costs.
* `Session.malformed_costs_itself` — both, for a whole run.
* `Sample.broken_reference` — a source that costs the run.
-/

set_option autoImplicit false

namespace CilGraft

/-! ## Borders of characters -/

namespace Text.Utf8

/-- A character begins behind this number of bytes, or the text ends there. -/
def IsBorder (n : Nat) (s : List Char) : Prop :=
  ∃ front back, s = front ++ back ∧ (encode front).length = n

theorem length_encode_append (s t : List Char) :
    (encode (s ++ t)).length = (encode s).length + (encode t).length := by
  rw [encode, List.flatMap_append, List.length_append]
  rfl

theorem length_encode_cons (c : Char) (s : List Char) :
    (encode (c :: s)).length = c.utf8Size + (encode s).length := by
  rw [encode, List.flatMap_cons, List.length_append, String.length_utf8EncodeChar]
  rfl

theorem length_encode_reverse (s : List Char) : (encode s.reverse).length = (encode s).length := by
  induction s with
  | nil => rfl
  | cons c s ih =>
    rw [List.reverse_cons, length_encode_append, ih, length_encode_cons, length_encode_cons,
      Nat.add_comm]
    rfl

theorem isBorder_cons {n : Nat} {c : Char} {s : List Char} (hn : 0 < n) :
    IsBorder n (c :: s) ↔ c.utf8Size ≤ n ∧ IsBorder (n - c.utf8Size) s := by
  constructor
  · rintro ⟨front, back, hs, rfl⟩
    cases front with
    | nil => exact absurd hn (Nat.lt_irrefl 0)
    | cons c' front =>
      obtain ⟨rfl, rfl⟩ := List.cons.inj hs
      rw [length_encode_cons]
      exact ⟨Nat.le_add_right _ _, front, back, rfl, (Nat.add_sub_cancel_left _ _).symm⟩
  · rintro ⟨hle, front, back, rfl, hlength⟩
    refine ⟨c :: front, back, rfl, ?_⟩
    rw [length_encode_cons, hlength]
    omega

theorem frontOfSize?_eq_none_iff {n : Nat} {s : List Char} :
    frontOfSize? n s = none ↔ ¬ IsBorder n s := by
  fun_induction frontOfSize? n s with
  | case1 s => exact iff_of_false (Option.some_ne_none _) (not_not_intro ⟨[], s, rfl, rfl⟩)
  | case2 n =>
    refine iff_of_true rfl ?_
    rintro ⟨front, back, hs, hlength⟩
    rw [(List.append_eq_nil_iff.1 hs.symm).1] at hlength
    cases hlength
  | case3 n c s hle ih =>
    rw [Option.map_eq_none_iff, ih, isBorder_cons n.succ_pos, and_iff_right hle]
  | case4 n c s hle =>
    refine iff_of_true rfl fun hborder => hle ((isBorder_cons n.succ_pos).1 hborder).1

/-- The last bytes of a text are those in front of which there is a border. -/
theorem endOfSize?_eq_none_iff {n : Nat} {s : List Char} (hn : n ≤ (encode s).length) :
    endOfSize? n s = none ↔ ¬ IsBorder ((encode s).length - n) s := by
  rw [endOfSize?, Option.map_eq_none_iff, frontOfSize?_eq_none_iff]
  refine not_congr ⟨?_, ?_⟩
  · rintro ⟨front, back, hs, hlength⟩
    have hs' : s = back.reverse ++ front.reverse := by
      rw [← List.reverse_append, ← hs, List.reverse_reverse]
    refine ⟨back.reverse, front.reverse, hs', ?_⟩
    rw [congrArg (fun t => (encode t).length) hs', length_encode_append,
      length_encode_reverse front, hlength, Nat.add_sub_cancel]
  · rintro ⟨front, back, rfl, hlength⟩
    refine ⟨back.reverse, front.reverse, List.reverse_append, ?_⟩
    rw [length_encode_append] at hn hlength
    rw [length_encode_reverse]
    omega

end Text.Utf8

namespace Patch

open Text

/-! ## References that break off -/

/-- The ending of the reference, which is cut off by its number of bytes, begins inside of a
character. -/
def IsCut (name : List Char) : Prop :=
  libraryEnding.length < (Utf8.encode name).length ∧
    ¬ Utf8.IsBorder ((Utf8.encode name).length - libraryEnding.length) name

/-- The first reference of a header that breaks off. -/
def FirstCut (lines : List (List Char)) (name : List Char) : Prop :=
  ∃ before after, lines.filterMap libraryIn? = before ++ name :: after ∧ IsCut name ∧
    ∀ other ∈ before, ¬ IsCut other

section Libraries

variable {line name other : List Char} {lines : List (List Char)}

theorem isCut_iff : IsCut name ↔ isLongerThanEnding name = true ∧
    Utf8.endOfSize? libraryEnding.length name = none := by
  rw [IsCut, isLongerThanEnding, decide_eq_true_iff]
  refine and_congr_right fun hlonger => ?_
  rw [Utf8.endOfSize?_eq_none_iff (Nat.le_of_lt hlonger)]

theorem not_firstCut_nil : ¬ FirstCut [] name := by
  rintro ⟨before, after, hnil, -⟩
  cases before <;> cases hnil

theorem firstCut_cons_none (h : libraryIn? line = none) :
    FirstCut (line :: lines) name ↔ FirstCut lines name := by
  rw [FirstCut, FirstCut, List.filterMap_cons_none h]

theorem firstCut_cons_some (h : libraryIn? line = some other) :
    FirstCut (line :: lines) name ↔
      IsCut other ∧ name = other ∨ ¬ IsCut other ∧ FirstCut lines name := by
  rw [FirstCut, FirstCut, List.filterMap_cons_some h]
  constructor
  · rintro ⟨before, after, heq, hcut, hbefore⟩
    cases before with
    | nil =>
      obtain ⟨rfl, -⟩ := List.cons.inj heq
      exact .inl ⟨hcut, rfl⟩
    | cons first before =>
      obtain ⟨rfl, hrest⟩ := List.cons.inj heq
      obtain ⟨hfirst, hbefore⟩ := List.forall_mem_cons.1 hbefore
      exact .inr ⟨hfirst, before, after, hrest, hcut, hbefore⟩
  · rintro (⟨hcut, rfl⟩ | ⟨hother, before, after, heq, hcut, hbefore⟩)
    · exact ⟨[], _, rfl, hcut, fun _ => nofun⟩
    · exact ⟨other :: before, after, congrArg _ heq, hcut,
        List.forall_mem_cons.2 ⟨hother, hbefore⟩⟩

/-- **The libraries of a header are named** unless a reference breaks off. -/
theorem libraryNames_eq_error_iff {e : Error} : libraryNames lines = .error e ↔
    ∃ name, FirstCut lines name ∧ e = .brokenReference (String.ofList name) := by
  induction lines with
  | nil => exact iff_of_false nofun fun ⟨_, hcut, _⟩ => not_firstCut_nil hcut
  | cons line lines ih =>
    cases hline : libraryIn? line with
    | none =>
      simp only [firstCut_cons_none hline]
      rw [libraryNames, hline]
      exact ih
    | some other =>
      simp only [firstCut_cons_some hline]
      rw [libraryNames, hline]
      dsimp only
      by_cases hcut : IsCut other
      · obtain ⟨hlonger, hend⟩ := isCut_iff.1 hcut
        simp only [hlonger, hend, Bool.not_true, Bool.false_eq_true, if_false, hcut, true_and,
          not_true, false_and, or_false, exists_eq_left, Except.error.injEq]
        exact eq_comm
      · simp only [hcut, false_and, not_false_eq_true, true_and, false_or]
        rw [← ih]
        split
        · rfl
        · rename_i hlonger
          split
          · rename_i hend
            exact absurd (isCut_iff.2 ⟨by simpa using hlonger, hend⟩) hcut
          · split <;> rename_i hrest <;> rw [hrest]
            exact iff_of_false nofun nofun

end Libraries

/-- A header line ends between two characters when the comment is closed in it. -/
theorem isBorder_of_closed {text front rest : List Char}
    (h : breakOn? closeMark text = some (front, rest)) :
    Utf8.IsBorder (Utf8.encode front).length text :=
  ⟨front, closeMark ++ rest, by rw [eq_append_of_breakOn? h, List.append_assoc], rfl⟩

end Patch

namespace Descriptor

open Patch

/-! ## Descriptors -/

/-- The keys that a header must give a value. -/
def requiredKeys : List String :=
  ["TargetClass", "TargetMethod", "TargetLocation", "PatchClass", "PatchMethod"]

/-- A header gives all required keys a value, and the value of the location is one. -/
structure Complete (lines : List (List Char)) : Prop where
  given : ∀ key ∈ requiredKeys, (headerValue? lines key).isSome
  located : ∀ value, headerValue? lines "TargetLocation" = some value →
    (Location.ofName? (String.ofList value)).isSome

section Parsing

variable {lines : List (List Char)} {source : Path} {checksum : Checksum} {defaults : Defaults}
  {reference : String}

theorem required_bind_eq_broken {α : Type} {key : String} {f : String → Except Error α} :
    (required lines key >>= f) = .error (.brokenReference reference) ↔
      ∃ value, headerValue? lines key = some value ∧
        f (String.ofList value) = .error (.brokenReference reference) := by
  rw [required]
  cases headerValue? lines key with
  | none => exact iff_of_false nofun nofun
  | some value => simp only [Option.some.injEq, exists_eq_left']; rfl

theorem locationOf_bind_eq_broken {α : Type} {value : String} {f : Location → Except Error α} :
    (locationOf value >>= f) = .error (.brokenReference reference) ↔
      ∃ location, Location.ofName? value = some location ∧
        f location = .error (.brokenReference reference) := by
  rw [locationOf]
  cases Location.ofName? value with
  | none => exact iff_of_false nofun nofun
  | some location => simp only [Option.some.injEq, exists_eq_left']; rfl

theorem libraryNames_bind_eq_broken {α : Type} {f : List (List Char) → α} :
    (libraryNames lines >>= fun names => Except.ok (f names)) =
        .error (.brokenReference reference) ↔
      ∃ name, FirstCut lines name ∧ reference = String.ofList name := by
  have hnames : libraryNames lines = .error (.brokenReference reference) ↔ _ :=
    libraryNames_eq_error_iff
  simp only [Error.brokenReference.injEq] at hnames
  rw [← hnames]
  cases libraryNames lines with
  | error e =>
    show Except.error e = Except.error _ ↔ _
    rw [Except.error.injEq, Except.error.injEq]
  | ok names => exact iff_of_false nofun nofun

/-- **A text has neither a descriptor nor an error of its own** exactly when its header is complete and
asks for a library whose reference breaks off. -/
theorem parse_eq_broken_iff {content : List Char} :
    parse content source checksum defaults = .error (.brokenReference reference) ↔
      Complete (headerLines content) ∧
        ∃ name, FirstCut (headerLines content) name ∧ reference = String.ofList name := by
  rw [parse, ofLines]
  simp only [required_bind_eq_broken, locationOf_bind_eq_broken, libraryNames_bind_eq_broken]
  constructor
  · rintro ⟨class_, hclass, method, hmethod, value, hvalue, location, hlocation, patchClass,
      hpatchClass, patchMethod, hpatchMethod, hcut⟩
    refine ⟨⟨?_, ?_⟩, hcut⟩
    · simp only [requiredKeys, List.forall_mem_cons, hclass, hmethod, hvalue, hpatchClass,
        hpatchMethod, Option.isSome_some, true_and]
      exact fun _ => nofun
    · intro value' hvalue'
      rw [hvalue, Option.some.injEq] at hvalue'
      rw [← hvalue', hlocation, Option.isSome_some]
  · rintro ⟨⟨hgiven, hlocated⟩, hcut⟩
    have hkey := fun key hmem => Option.isSome_iff_exists.1 (hgiven key hmem)
    obtain ⟨class_, hclass⟩ := hkey "TargetClass" (by decide)
    obtain ⟨method, hmethod⟩ := hkey "TargetMethod" (by decide)
    obtain ⟨value, hvalue⟩ := hkey "TargetLocation" (by decide)
    obtain ⟨location, hlocation⟩ := Option.isSome_iff_exists.1 (hlocated value hvalue)
    obtain ⟨patchClass, hpatchClass⟩ := hkey "PatchClass" (by decide)
    obtain ⟨patchMethod, hpatchMethod⟩ := hkey "PatchMethod" (by decide)
    exact ⟨class_, hclass, method, hmethod, value, hvalue, location, hlocation, patchClass,
      hpatchClass, patchMethod, hpatchMethod, hcut⟩

end Parsing

end Descriptor

namespace Sources

/-! ## The sources of a run -/

section Runs

variable {σ : Type} {d : Disk} {defaults : Defaults} {sources before after : List Path}
  {bad : Path} {e : Error}

/-- A source that has neither a descriptor nor an error of its own. -/
def Breaks (d : Disk) (defaults : Defaults) (source : Path) : Prop :=
  ∃ reference, Descriptor.ofFile d source defaults = .error (.brokenReference reference)

/-- **All sources are parsed**, each with its own result, unless one of them breaks off. -/
theorem parseEach_eq_ok_iff {parsed : List Parsed} : parseEach d defaults sources = .ok parsed ↔
    (∀ source ∈ sources, ¬ Breaks d defaults source) ∧
      parsed = sources.map fun source => (source, Descriptor.ofFile d source defaults) := by
  induction sources generalizing parsed with
  | nil =>
    rw [parseEach, Except.ok.injEq, List.map_nil]
    exact ⟨fun h => ⟨fun _ => nofun, h.symm⟩, fun h => h.2.symm⟩
  | cons source sources ih =>
    rw [parseEach, List.forall_mem_cons, List.map_cons]
    split
    · rename_i reference hbroken
      exact iff_of_false nofun fun h => h.1.1 ⟨reference, hbroken⟩
    · rename_i hwhole
      have hsource : ¬ Breaks d defaults source := fun ⟨reference, hbroken⟩ =>
        hwhole reference hbroken
      split
      · rename_i hrest
        refine iff_of_false nofun fun h => ?_
        rw [ih.2 ⟨h.1.2, rfl⟩] at hrest
        cases hrest
      · rename_i others hrest
        obtain ⟨hothers, rfl⟩ := ih.1 hrest
        rw [Except.ok.injEq]
        exact ⟨fun h => ⟨⟨hsource, hothers⟩, h.symm⟩, fun h => h.2.symm⟩

/-- A source that failed takes no name, and so the others are admitted as without it. -/
theorem admitEach_insert (claimed : List (List Char × Path)) (xs ys : List Parsed) (bad : Path)
    (e : Error) :
    ∃ front back, admitEach claimed (xs ++ ys) = front ++ back ∧
      admitEach claimed (xs ++ (bad, .error e) :: ys) = front ++ (bad, .error e) :: back := by
  induction xs generalizing claimed with
  | nil => exact ⟨[], admitEach claimed ys, rfl, rfl⟩
  | cons first xs ih =>
    obtain ⟨source, result⟩ := first
    simp only [List.cons_append]
    cases result with
    | error e' =>
      obtain ⟨front, back, hwithout, hwith⟩ := ih claimed
      refine ⟨(source, .error e') :: front, back, ?_, ?_⟩
      · rw [admitEach, hwithout, List.cons_append]
      · rw [admitEach, hwith, List.cons_append]
    | ok p =>
      cases hfind : claimed.find? (·.1 == claimOf p.name) with
      | some taken =>
        obtain ⟨front, back, hwithout, hwith⟩ := ih claimed
        refine ⟨(source, .error (.duplicateName (Cache.assemblyName p.name) taken.2)) :: front, back,
          ?_, ?_⟩
        · simp only [admitEach, hfind, hwithout, List.cons_append]
        · simp only [admitEach, hfind, hwith, List.cons_append]
      | none =>
        obtain ⟨front, back, hwithout, hwith⟩ := ih ((claimOf p.name, source) :: claimed)
        refine ⟨(source, .ok p) :: front, back, ?_, ?_⟩
        · simp only [admitEach, hfind, hwithout, List.cons_append]
        · simp only [admitEach, hfind, hwith, List.cons_append]

variable [Device] {c : Cache} {compiler : Compiler} {w w' : World σ} {prepared : Prepared}

/-- The sources are made ready unless one of them breaks off. -/
theorem exists_prepare_iff : (∃ prepared, (prepare c compiler defaults w sources).1 = .ok prepared) ↔
    ∀ source ∈ sources, ¬ Breaks w.disk defaults source := by
  rcases prepare_cases c compiler w defaults sources with
    ⟨e, hparsed, hprepare⟩ | ⟨parsed, hparsed, hprepare⟩ <;> rw [hprepare]
  · refine ⟨nofun, fun hwhole => ?_⟩
    rw [parseEach_eq_ok_iff.2 ⟨hwhole, rfl⟩] at hparsed
    cases hparsed
  · exact ⟨fun _ => (parseEach_eq_ok_iff.1 hparsed).1, fun _ => ⟨_, rfl⟩⟩

/-- **A malformed source costs itself**: one entry more among the failures, and everything else as it is
without the source. -/
theorem prepare_insert (hbad : Descriptor.ofFile w.disk bad defaults = .error e)
    (hwhole : ¬ Breaks w.disk defaults bad)
    (h : prepare c compiler defaults w (before ++ after) = (.ok prepared, w')) :
    ∃ front back, prepared.failures = front ++ back ∧
      prepare c compiler defaults w (before ++ bad :: after) =
        (.ok ⟨front ++ ⟨bad, e⟩ :: back, prepared.ready⟩, w') := by
  have hothers := exists_prepare_iff.1 ⟨prepared, congrArg Prod.fst h⟩
  have hall : ∀ source ∈ before ++ bad :: after, ¬ Breaks w.disk defaults source := by
    intro source hsource
    rcases List.mem_append.1 hsource with hbefore | hafter
    · exact hothers _ (List.mem_append_left _ hbefore)
    · rcases List.mem_cons.1 hafter with rfl | hafter
      · exact hwhole
      · exact hothers _ (List.mem_append_right _ hafter)
  unfold prepare at h ⊢
  rw [parseEach_eq_ok_iff.2 ⟨hothers, rfl⟩] at h
  rw [parseEach_eq_ok_iff.2 ⟨hall, rfl⟩]
  dsimp only at h ⊢
  rw [List.map_append] at h
  rw [List.map_append, List.map_cons, hbad]
  obtain ⟨front, back, hwithout, hwith⟩ := admitEach_insert []
    (before.map fun source => (source, Descriptor.ofFile w.disk source defaults))
    (after.map fun source => (source, Descriptor.ofFile w.disk source defaults)) bad e
  rw [hwithout] at h
  have hadmitted : admitted (front ++ (bad, .error e) :: back) = admitted (front ++ back) := by
    rw [admitted, admitted, List.filterMap_append, List.filterMap_append,
      List.filterMap_cons_none rfl]
  rw [hwith, hadmitted]
  obtain ⟨hprepared, hw⟩ := Prod.mk.inj h
  cases hprepared
  refine ⟨failures front, failures back ++
    failures (compileEach c compiler w (admitted (front ++ back))).1, ?_, ?_⟩
  · simp only [failures, List.filterMap_append, List.append_assoc]
  · rw [hw]
    simp only [failures, List.filterMap_append, List.filterMap_cons, failure?, List.append_assoc,
      List.cons_append]

end Runs

end Sources

namespace Session

section Runs

variable {σ : Type} [Device] {s : Session σ} {l : Layout} {w w₀ : World σ} {game : Path}
  {primary : Assembly} {sources : List Path}

/-- A run with the given sources on a game whose primary binary is open. -/
def patchSources (s : Session σ) (l : Layout) (w : World σ) (primary : Assembly)
    (sources : List Path) : Except Error Report × World σ :=
  match Sources.prepare (s.cacheOf l) s.compiler (s.settings.defaults primary.framework) w
      sources with
  | (.error e, w) => (.error e, w)
  | (.ok prepared, w) =>
    let (report, w) := s.patchAll l (s.backupOf l) w primary prepared.ready
    (.ok { report with sourceFailures := prepared.failures }, w)

/-- A run on a game gets as far as its sources. -/
structure Opens (s : Session σ) (w : World σ) (game : Path) (l : Layout) (primary : Assembly)
    (w₀ : World σ) (sources : List Path) : Prop where
  layout : Layout.discover w.disk game s.settings = .ok l
  opened : ∃ disk, s.setUp l w.disk = (.ok (), disk) ∧
    { w with disk }.load s.store l.primary (.writableIn l.managed) = (.ok primary, w₀)
  found : l.sources w₀.disk = .ok sources

theorem patch_of_opens (h : s.Opens w game l primary w₀ sources) :
    s.patch w game = s.patchSources l w₀ primary sources := by
  obtain ⟨hlayout, ⟨disk, hsetUp, hload⟩, hsources⟩ := h
  unfold patch
  simp only [hlayout, hsetUp, hload, patchOpened, prepare, hsources]
  rfl

theorem patchSources_of_prepare {prepared : Sources.Prepared} {w₁ : World σ}
    (h : Sources.prepare (s.cacheOf l) s.compiler (s.settings.defaults primary.framework) w sources =
      (.ok prepared, w₁)) :
    s.patchSources l w primary sources =
      (.ok { (s.patchAll l (s.backupOf l) w₁ primary prepared.ready).1 with
          sourceFailures := prepared.failures },
        (s.patchAll l (s.backupOf l) w₁ primary prepared.ready).2) := by
  unfold patchSources
  simp only [h]

/-- A run ends with a report when its sources are made ready. -/
theorem exists_report_iff : (∃ report, (s.patchSources l w primary sources).1 = .ok report) ↔
    ∃ prepared, (Sources.prepare (s.cacheOf l) s.compiler
      (s.settings.defaults primary.framework) w sources).1 = .ok prepared := by
  unfold patchSources
  split <;> rename_i hprepare <;> rw [hprepare]
  · exact iff_of_false nofun nofun
  · exact iff_of_true ⟨_, rfl⟩ ⟨_, rfl⟩

end Runs

/-- **A malformed source costs itself, unless a reference in it breaks off.**  A text has a descriptor or
an error of its own, unless its header is complete and the ending of a reference begins inside of a
character; the other cut of the parser is between two characters. A run ends with a report unless a
source breaks off like this. A source with an error of its own adds one entry to the report of the run
with the other sources, and nothing else is different. -/
theorem malformed_costs_itself {σ : Type} [Device] (s : Session σ) (w : World σ) (game source : Path)
    (content : List Char) (checksum : Checksum) (defaults : Defaults) :
    (∀ reference,
      Descriptor.parse content source checksum defaults = .error (.brokenReference reference) ↔
        Descriptor.Complete (Patch.headerLines content) ∧
          ∃ name, Patch.FirstCut (Patch.headerLines content) name ∧
            reference = String.ofList name) ∧
    (∀ text front rest, Text.breakOn? Patch.closeMark text = some (front, rest) →
      Text.Utf8.IsBorder (Text.Utf8.encode front).length text) ∧
    ∀ (l : Layout) (primary : Assembly) (w₀ : World σ) (sources : List Path),
      s.Opens w game l primary w₀ sources →
      ((∃ report, (s.patch w game).1 = .ok report) ↔
        ∀ source ∈ sources,
          ¬ Sources.Breaks w₀.disk (s.settings.defaults primary.framework) source) ∧
      ∀ before bad after e report w', sources = before ++ bad :: after →
        Descriptor.ofFile w₀.disk bad (s.settings.defaults primary.framework) = .error e →
        ¬ Sources.Breaks w₀.disk (s.settings.defaults primary.framework) bad →
        s.patchSources l w₀ primary (before ++ after) = (.ok report, w') →
        ∃ front back, report.sourceFailures = front ++ back ∧
          s.patch w game =
            (.ok { report with sourceFailures := front ++ ⟨bad, e⟩ :: back }, w') := by
  refine ⟨fun reference => Descriptor.parse_eq_broken_iff,
    fun text front rest => Patch.isBorder_of_closed, ?_⟩
  intro l primary w₀ sources hopens
  rw [patch_of_opens hopens, exists_report_iff, Sources.exists_prepare_iff]
  refine ⟨Iff.rfl, ?_⟩
  rintro before bad after e report w' rfl hbad hwhole hrun
  obtain ⟨prepared, hresult⟩ := exists_report_iff.1 ⟨report, congrArg Prod.fst hrun⟩
  have hprepare := eq_mk_of_fst hresult
  obtain ⟨front, back, hfailures, hmore⟩ := Sources.prepare_insert hbad hwhole hprepare
  rw [patchSources_of_prepare hprepare] at hrun
  obtain ⟨hreport, rfl⟩ := Prod.mk.inj hrun
  obtain rfl := Except.ok.inj hreport
  exact ⟨front, back, hfailures, patchSources_of_prepare hmore⟩

end Session

/-! ## A source that breaks off -/

namespace Sample

/-- What a header may leave out in the game. -/
def gameDefaults : Defaults := session.settings.defaults original.framework

/-- The game with a third source, which has no header. -/
def withMalformed : Disk := ⟨disk.entries ++ [(["g", "Patches", "C.cs"], .file [])]⟩

def startMalformed : World Unit := ⟨withMalformed, (), []⟩

/-- The disk of that game with the folders and the backup in place. -/
def placedMalformed : Disk := (session.setUp layout withMalformed).2

/-- The world in which the primary binary of that game is open. -/
def openedMalformed : World Unit :=
  World.note { startMalformed with disk := placedMalformed }
    (.loaded layout.primary (.writableIn layout.managed))

theorem discover_withMalformed :
    Layout.discover withMalformed ⟨"/g"⟩ session.settings = .ok layout := by
  have hroot : withMalformed.list ⟨"/g"⟩ = .ok ["D.exe", "D_Data", "Patches"] :=
    Disk.list_of_pairwise ["g"] (by decide +kernel) (by decide +kernel) (by decide +kernel)
      (by decide +kernel)
  have hinside : withMalformed.list ⟨"/g/D_Data"⟩ = .ok ["Managed"] :=
    Disk.list_of_pairwise ["g", "D_Data"] (by decide +kernel) (by decide +kernel)
      (by decide +kernel) (by decide +kernel)
  have hdiscover := Layout.discover_of_find? (s := session.settings) ⟨"/g/D.exe"⟩
    ⟨"/g/D_Data/Managed"⟩ hroot (by decide +kernel) (by decide +kernel) hinside (by decide +kernel)
    (by decide +kernel)
  refine hdiscover.trans (congrArg Except.ok ?_)
  decide +kernel

theorem sources_placedMalformed : layout.sources placedMalformed =
    .ok ([⟨"/g/Patches/A.cs"⟩, ⟨"/g/Patches/B.cs"⟩] ++ ⟨"/g/Patches/C.cs"⟩ :: []) := by
  have hlist : placedMalformed.list layout.patches = .ok ["A.cs", "B.cs", "C.cs", "Lib"] :=
    Disk.list_of_pairwise ["g", "Patches"] (by decide +kernel) (by decide +kernel)
      (by decide +kernel) (by decide +kernel)
  refine (Layout.sources_of_list (by decide +kernel) hlist).trans (congrArg Except.ok ?_)
  decide +kernel

theorem load_placedMalformed : World.load store { startMalformed with disk := placedMalformed }
    layout.primary (.writableIn layout.managed) = (.ok original, openedMalformed) :=
  congrArg (fun a => (Except.ok a, openedMalformed)) (if_pos rfl)

/-- The run with the third source gets as far as its sources. -/
theorem opens_startMalformed : session.Opens startMalformed ⟨"/g"⟩ layout original openedMalformed
    ([⟨"/g/Patches/A.cs"⟩, ⟨"/g/Patches/B.cs"⟩] ++ ⟨"/g/Patches/C.cs"⟩ :: []) where
  layout := discover_withMalformed
  opened := ⟨placedMalformed, eq_mk_of_fst (eq_ok_of_toOption (by decide +kernel)),
    load_placedMalformed⟩
  found := sources_placedMalformed

/-- A source without a header adds one entry to the report. -/
theorem malformed_costs_one_entry :
    ∃ report w' front back,
      session.patchSources layout openedMalformed original
        ([⟨"/g/Patches/A.cs"⟩, ⟨"/g/Patches/B.cs"⟩] ++ []) = (.ok report, w') ∧
      Descriptor.ofFile openedMalformed.disk ⟨"/g/Patches/C.cs"⟩ gameDefaults =
        .error (.missingField "TargetClass") ∧
      report.sourceFailures = front ++ back ∧
      session.patch startMalformed ⟨"/g"⟩ =
        (.ok { report with sourceFailures :=
          front ++ ⟨⟨"/g/Patches/C.cs"⟩, .missingField "TargetClass"⟩ :: back }, w') := by
  have hothers : ∀ source ∈ [⟨"/g/Patches/A.cs"⟩, ⟨"/g/Patches/B.cs"⟩] ++ [],
      ¬ Sources.Breaks openedMalformed.disk gameDefaults source := by
    have hparsed : ∀ source ∈ [⟨"/g/Patches/A.cs"⟩, ⟨"/g/Patches/B.cs"⟩] ++ [],
        (Descriptor.ofFile openedMalformed.disk source gameDefaults).toOption.isSome = true := by
      decide +kernel
    rintro source hsource ⟨reference, hbroken⟩
    have hsome := hparsed source hsource
    rw [hbroken] at hsome
    cases hsome
  have hbad : Descriptor.ofFile openedMalformed.disk ⟨"/g/Patches/C.cs"⟩ gameDefaults =
      .error (.missingField "TargetClass") :=
    eq_error_of_match (by decide +kernel)
  obtain ⟨report, hreport⟩ :=
    Session.exists_report_iff.2 (Sources.exists_prepare_iff.2 hothers)
  obtain ⟨-, -, hruns⟩ := Session.malformed_costs_itself session startMalformed ⟨"/g"⟩
    ⟨"/g/Patches/C.cs"⟩ [] (Checksum.of []) gameDefaults
  obtain ⟨front, back, hfailures, hrun⟩ := (hruns layout original openedMalformed _
    opens_startMalformed).2 _ _ _ _ report _ rfl hbad
      (fun ⟨reference, hbroken⟩ => nomatch hbad.symm.trans hbroken) (eq_mk_of_fst hreport)
  exact ⟨report, _, front, back, eq_mk_of_fst hreport, hbad, hfailures, hrun⟩

/-- A text whose reference ends with a character of three bytes. -/
def brokenText : List Char :=
  ("/*\n@Name=C\n@TargetClass=Player\n@TargetMethod=Start\n@TargetLocation=Prefix\n" ++
    "@PatchClass=Hooks\n@PatchMethod=Run\n@using ééé€\n*/").toList

/-- The text has neither a descriptor nor an error of its own. -/
theorem broken_reference :
    Descriptor.parse brokenText ⟨"/g/Patches/C.cs"⟩ (Checksum.of []) gameDefaults =
      .error (.brokenReference "ééé€") :=
  eq_error_of_match (by decide +kernel)

end Sample

end CilGraft
