import CilGraft.Proofs.CompileOrder

/-!
# Who takes an artifact

The first source of a run whose patch has an artifact takes it, and each later one is refused. What
is compared are the file names in lower case.

* `Text.lower_eq_of_foldCase_eq` — lower case is that of each character, but for a capital sigma at
  the end of a word.
* `Sources.FirstClaims` — the first source in front of another one that takes an artifact;
  `Records.step`, `Records.getElem?_admitEach` — what is recorded decides what becomes of a source.
* `Cache.paths` — the files of patches; `nodup_paths_iff` — they are known from the names of the
  patches, as long as no artifact has the name of a sidecar.
* `Sources.artifacts_claimed_once` — the outcome of each source, and the files of those that are
  accepted.
* `Sample.sigmas_collide` — two names that are the same when the case is ignored, and are both
  accepted.
-/

set_option autoImplicit false

namespace CilGraft

/-! ## Lower case, each character by itself -/

namespace Text

/-- The text with each character in lower case, wherever it stands. -/
def foldCase (s : List Char) : List Char := s.map lowerChar

/-- A capital sigma ends a word of the text. -/
def HasFinalSigma (s : List Char) : Prop :=
  ∃ front back, s = front ++ 'Σ' :: back ∧ meetsCased front.reverse = true ∧ meetsCased back = false

theorem HasFinalSigma.mem {s : List Char} (h : HasFinalSigma s) : 'Σ' ∈ s := by
  obtain ⟨front, back, rfl, -, -⟩ := h
  exact List.mem_append_right _ List.mem_cons_self

/-- The characters of a text in lower case that stand for one that is in lower case by itself. -/
def spread (c : Char) : List Char := if c = 'İ' then ['i', '\u0307'] else [c]

/-- No other character has `İ` for its lower case. -/
theorem eq_of_lowerChar_eq {c : Char} (h : lowerChar c = 'İ') : c = 'İ' := by
  have hruns : ∀ run ∈ lowerRuns, run.covers ((0x130 : Int) - run.shift).toNat = false := by
    decide +kernel
  unfold lowerChar at h
  split at h
  · rename_i run hfind
    have hcovers : run.covers c.toNat = true := by simpa using List.find?_some hfind
    have hvalue : ((c.toNat : Int) + run.shift).toNat = 0x130 := by
      have htoNat := congrArg Char.toNat h
      by_cases hvalid : ((c.toNat : Int) + run.shift).toNat.isValidChar
      · rw [Char.ofNat, dif_pos hvalid] at htoNat
        exact htoNat
      · rw [Char.ofNat, dif_neg hvalid] at htoNat
        cases htoNat
    have hshift : c.toNat = ((0x130 : Int) - run.shift).toNat := by omega
    rw [hshift, hruns run (List.mem_of_find?_eq_some hfind)] at hcovers
    cases hcovers
  · exact h

/-- Where no capital sigma ends a word, lower case does not depend on the places of the characters. -/
theorem lowerAfter_eq_flatMap {passed s : List Char}
    (h : ∀ front back, s = front ++ 'Σ' :: back → meetsCased (front.reverse ++ passed) = true →
      meetsCased back = true) :
    lowerAfter passed s = (foldCase s).flatMap spread := by
  induction s generalizing passed with
  | nil => rfl
  | cons c s ih =>
    have hrest : lowerAfter (c :: passed) s = (foldCase s).flatMap spread := by
      apply ih
      intro front back hs hpassed
      refine h (c :: front) back (by rw [hs, List.cons_append]) ?_
      rwa [List.reverse_cons, List.append_assoc, List.singleton_append]
    have hfold : (foldCase (c :: s)).flatMap spread =
        spread (lowerChar c) ++ (foldCase s).flatMap spread := rfl
    rw [lowerAfter, hrest, hfold]
    congr 1
    by_cases hsigma : c = 'Σ'
    · have hword : (meetsCased passed && !meetsCased s) = false := by
        cases hpassed : meetsCased passed with
        | false => rfl
        | true =>
          rw [h [] s (by rw [hsigma, List.nil_append]) hpassed]
          rfl
      rw [if_pos hsigma, hword, hsigma]
      decide
    · rw [if_neg hsigma]
      by_cases hdotted : c = 'İ'
      · rw [if_pos hdotted, hdotted]
        decide
      · rw [if_neg hdotted, spread, if_neg (mt eq_of_lowerChar_eq hdotted)]

theorem lower_eq_flatMap {s : List Char} (h : ¬ HasFinalSigma s) :
    lower s = (foldCase s).flatMap spread := by
  apply lowerAfter_eq_flatMap
  intro front back hs hfront
  rw [List.append_nil] at hfront
  rw [← Bool.not_eq_false]
  exact fun hback => h ⟨front, back, hs, hfront, hback⟩

/-- **Texts that differ in case only have one lower case**, where no capital sigma ends a word. -/
theorem lower_eq_of_foldCase_eq {s t : List Char} (hs : ¬ HasFinalSigma s) (ht : ¬ HasFinalSigma t)
    (h : foldCase s = foldCase t) : lower s = lower t := by
  rw [lower_eq_flatMap hs, lower_eq_flatMap ht, h]

end Text

/-! ## The first source that takes an artifact -/

namespace Sources

/-- The source with the number `i` has a patch, which takes its artifact under the given name. -/
def Claims (xs : List Parsed) (i : Nat) (name : List Char) (source : Path) : Prop :=
  ∃ p, xs[i]? = some (source, .ok p) ∧ claimOf p.name = name

/-- `source` is the first one in front of the source with the number `i` that takes its artifact under
the given name. -/
def FirstClaims (xs : List Parsed) (i : Nat) (name : List Char) (source : Path) : Prop :=
  ∃ j < i, Claims xs j name source ∧ ∀ k < j, ∀ other, ¬ Claims xs k name other

/-- The source, if its patch takes its artifact under the given name. -/
def claimant? (name : List Char) : Parsed → Option Path
  | (_, .error _) => none
  | (source, .ok p) => if claimOf p.name = name then some source else none

/-- What becomes of a source behind other ones. -/
def judged (earlier : List Parsed) : Parsed → Parsed
  | (source, .error e) => (source, .error e)
  | (source, .ok p) =>
    match earlier.findSome? (claimant? (claimOf p.name)) with
    | some first => (source, .error (.duplicateName (Cache.assemblyName p.name) first))
    | none => (source, .ok p)

/-- What is recorded as taken are the artifacts of the earlier sources, with the first of these. -/
def Records (claimed : List (List Char × Path)) (earlier : List Parsed) : Prop :=
  ∀ name, (claimed.find? (·.1 == name)).map (·.2) = earlier.findSome? (claimant? name)

variable {claimed : List (List Char × Path)} {earlier xs : List Parsed} {name : List Char}

theorem claimant?_eq_some_iff {x : Parsed} {source : Path} :
    claimant? name x = some source ↔ ∃ p, x = (source, .ok p) ∧ claimOf p.name = name := by
  constructor
  · intro h
    rcases x with ⟨first, e | p⟩
    · cases h
    · rw [claimant?] at h
      split at h
      · rename_i hname
        cases h
        exact ⟨p, rfl, hname⟩
      · cases h
  · rintro ⟨p, rfl, hname⟩
    exact if_pos hname

theorem claims_iff {i : Nat} {source : Path} :
    Claims xs i name source ↔ ∃ x, xs[i]? = some x ∧ claimant? name x = some source := by
  constructor
  · rintro ⟨p, hx, hname⟩
    exact ⟨_, hx, claimant?_eq_some_iff.2 ⟨p, rfl, hname⟩⟩
  · rintro ⟨x, hx, hclaims⟩
    obtain ⟨p, rfl, hname⟩ := claimant?_eq_some_iff.1 hclaims
    exact ⟨p, hx, hname⟩

/-- **A source is judged by what is recorded**, and the record is kept for the sources behind it. -/
theorem Records.step (h : Records claimed earlier) (x : Parsed) :
    ∃ claimed', Records claimed' (earlier ++ [x]) ∧
      ∀ rest, admitEach claimed (x :: rest) = judged earlier x :: admitEach claimed' rest := by
  -- a source that takes nothing, or what is taken already, changes no first claim
  have hkept (hx : ∀ name, earlier.findSome? (claimant? name) = none → claimant? name x = none) :
      Records claimed (earlier ++ [x]) := by
    intro name
    rw [h name, List.findSome?_append, List.findSome?_singleton]
    cases hfound : earlier.findSome? (claimant? name) with
    | some first => rfl
    | none => rw [hx name hfound, Option.none_or]
  rcases x with ⟨source, e | p⟩
  · exact ⟨claimed, hkept fun _ _ => rfl, fun _ => rfl⟩
  · have hrecorded := h (claimOf p.name)
    cases hfind : claimed.find? (·.1 == claimOf p.name) with
    | some taken =>
      rw [hfind, Option.map_some] at hrecorded
      refine ⟨claimed, hkept fun name hnone => ?_, fun rest => ?_⟩
      · refine if_neg ?_
        rintro rfl
        rw [hnone] at hrecorded
        cases hrecorded
      · rw [judged, admitEach, hfind, ← hrecorded]
    | none =>
      rw [hfind, Option.map_none] at hrecorded
      refine ⟨(claimOf p.name, source) :: claimed, fun name => ?_, fun rest => ?_⟩
      · rw [List.findSome?_append, List.findSome?_singleton, List.find?_cons, claimant?]
        by_cases hname : claimOf p.name = name
        · subst hname
          rw [← hrecorded, if_pos rfl, beq_self_eq_true]
          rfl
        · rw [beq_eq_false_iff_ne.2 hname, if_neg hname, Option.or_none]
          exact h name
      · rw [judged, admitEach, hfind, ← hrecorded]

/-- Each source is judged by the ones in front of it. -/
theorem Records.getElem?_admitEach (h : Records claimed earlier) (xs : List Parsed) (i : Nat) :
    (admitEach claimed xs)[i]? = xs[i]?.map (judged (earlier ++ xs.take i)) := by
  induction xs generalizing claimed earlier i with
  | nil => rfl
  | cons x xs ih =>
    obtain ⟨claimed', hrecords, hstep⟩ := h.step x
    rw [hstep]
    cases i with
    | zero => rw [List.take_zero, List.append_nil]; rfl
    | succ i =>
      rw [List.getElem?_cons_succ, List.getElem?_cons_succ, ih hrecords, List.append_assoc,
        List.singleton_append, List.take_succ_cons]

theorem getElem?_admitEach (xs : List Parsed) (i : Nat) :
    (admitEach [] xs)[i]? = xs[i]?.map (judged (xs.take i)) := by
  have hnone : Records [] [] := fun _ => rfl
  exact hnone.getElem?_admitEach xs i

/-- The sources in front of one take a name or leave it. -/
theorem forall_take_iff {i : Nat} :
    (∀ x ∈ xs.take i, claimant? name x = none) ↔ ∀ j < i, ∀ other, ¬ Claims xs j name other := by
  constructor
  · intro h j hj other hclaims
    obtain ⟨x, hx, hclaimant⟩ := claims_iff.1 hclaims
    have hmem : x ∈ xs.take i := by
      apply List.mem_of_getElem?
      rw [List.getElem?_take_of_lt hj, hx]
    rw [h x hmem] at hclaimant
    cases hclaimant
  · intro h x hx
    obtain ⟨j, hj⟩ := List.getElem?_of_mem hx
    have hji : j < i := by
      have hlength := (List.getElem?_eq_some_iff.1 hj).1
      rw [List.length_take] at hlength
      omega
    rw [List.getElem?_take_of_lt hji] at hj
    rw [Option.eq_none_iff_forall_ne_some]
    exact fun other hother => h j hji other (claims_iff.2 ⟨x, hj, hother⟩)

theorem findSome?_take_eq_none_iff {i : Nat} :
    (xs.take i).findSome? (claimant? name) = none ↔ ∀ j < i, ∀ other, ¬ Claims xs j name other := by
  rw [List.findSome?_eq_none_iff, forall_take_iff]

theorem findSome?_take_eq_some_iff {i : Nat} {first : Path} :
    (xs.take i).findSome? (claimant? name) = some first ↔ FirstClaims xs i name first := by
  rw [List.findSome?_eq_some_iff]
  constructor
  · rintro ⟨front, x, back, htake, hx, hfront⟩
    have hj : front.length < i := by
      have hlength := congrArg List.length htake
      rw [List.length_take, List.length_append, List.length_cons] at hlength
      omega
    have hfrontTake : xs.take front.length = front := by
      have h := congrArg (List.take front.length) htake
      rwa [List.take_take, Nat.min_eq_left (Nat.le_of_lt hj), List.take_left] at h
    have hget : xs[front.length]? = some x := by
      rw [← List.getElem?_take_of_lt hj, htake, List.getElem?_append_right (Nat.le_refl _),
        Nat.sub_self, List.getElem?_cons_zero]
    refine ⟨front.length, hj, claims_iff.2 ⟨x, hget, hx⟩, forall_take_iff.1 ?_⟩
    rw [hfrontTake]
    exact hfront
  · rintro ⟨j, hj, hclaims, hfirst⟩
    obtain ⟨x, hx, hclaimant⟩ := claims_iff.1 hclaims
    obtain ⟨hlt, hget⟩ := List.getElem?_eq_some_iff.1 hx
    refine ⟨xs.take j, x, (xs.take i).drop (j + 1), ?_, hclaimant, forall_take_iff.2 hfirst⟩
    have hlt' : j < (xs.take i).length := by
      rw [List.length_take]
      omega
    have hsplit := List.take_append_drop j (xs.take i)
    rw [List.drop_eq_getElem_cons hlt', List.getElem_take, hget, List.take_take,
      Nat.min_eq_left (Nat.le_of_lt hj)] at hsplit
    exact hsplit.symm

end Sources

/-! ## The files of patches -/

/-- The text of a path is kept in front of the names behind it. -/
theorem Path.exists_text_child (p : Path) :
    ∃ front, ∀ s : String, s.toList.head? ≠ some separator →
      (p.child s).text.toList = front ++ s.toList := by
  refine ⟨(p.text ++
    if p.text == "" || p.text.toList.getLast? == some separator then "" else "/").toList, ?_⟩
  intro s hs
  have hrelative : ¬ (Path.mk s).isAbsolute = true := mt beq_iff_eq.1 hs
  rw [child, join, if_neg hrelative, ← String.toList_append]

namespace Cache

/-- The files of patches: the artifacts, each with its sidecar. -/
def paths (c : Cache) (ps : List Descriptor) : List Path :=
  ps.flatMap fun p => [c.artifactPath p.name, sidecarPath (c.artifactPath p.name)]

/-- What follows the name of a patch in the name of its artifact. -/
def ending (c : Cache) : List Char := '.' :: c.extension.toList

/-- An artifact may have the name of a sidecar, when the case is ignored. -/
def MixesSidecars (c : Cache) : Prop :=
  Text.foldCase c.ending <:+ Text.foldCase (c.ending ++ ".md5".toList)

instance (c : Cache) : Decidable c.MixesSidecars := inferInstanceAs (Decidable (_ <:+ _))

theorem toList_fileName (c : Cache) (patch : String) :
    (c.fileName patch).toList = fileNameOf patch.toList ++ c.ending := by
  have hpoint : ".".toList = ['.'] := by decide
  rw [fileName, assemblyName, String.toList_append, String.toList_append, String.toList_ofList,
    List.append_assoc, hpoint]
  rfl

/-- The texts of the files of all patches begin with the same, and end in one of two ways. -/
theorem exists_text_files (c : Cache) :
    ∃ front, ∀ patch : String,
      (c.artifactPath patch).text.toList = front ++ (fileNameOf patch.toList ++ c.ending) ∧
        (sidecarPath (c.artifactPath patch)).text.toList =
          front ++ (fileNameOf patch.toList ++ (c.ending ++ ".md5".toList)) := by
  obtain ⟨front, htext⟩ := c.folder.exists_text_child
  refine ⟨front, fun patch => ?_⟩
  have hname : Path.separator ∉ fileNameOf patch.toList := by
    have h := separator_not_mem_assemblyName patch
    rwa [assemblyName, String.toList_ofList] at h
  have hartifact : (c.artifactPath patch).text.toList =
      front ++ (fileNameOf patch.toList ++ c.ending) := by
    rw [← toList_fileName]
    refine htext (c.fileName patch) ?_
    rw [toList_fileName]
    intro hhead
    cases hfile : fileNameOf patch.toList with
    | nil =>
      rw [hfile] at hhead
      exact absurd (Option.some.inj hhead) (by decide)
    | cons x rest =>
      rw [hfile] at hhead hname
      exact hname (List.mem_of_mem_head? hhead)
  refine ⟨hartifact, ?_⟩
  rw [sidecarPath, Path.appendText, String.toList_append, hartifact, List.append_assoc,
    List.append_assoc]

/-- An artifact has no name of a sidecar when the ending of a sidecar is no ending of an artifact. -/
theorem artifactText_ne_sidecarText {c : Cache} {g : Char → Char}
    (h : ¬ c.ending.map g <:+ (c.ending ++ ".md5".toList).map g) (patch other : String) :
    (c.artifactPath patch).text.toList.map g ≠
      (sidecarPath (c.artifactPath other)).text.toList.map g := by
  obtain ⟨front, hfiles⟩ := c.exists_text_files
  rw [(hfiles patch).1, (hfiles other).2, List.map_append, List.map_append, List.map_append,
    List.map_append]
  intro heq
  have hnames := List.append_cancel_left heq
  have hlong : (c.ending ++ ".md5".toList).map g <:+
      (fileNameOf patch.toList).map g ++ c.ending.map g := ⟨_, hnames.symm⟩
  refine h (List.suffix_of_suffix_length_le (List.suffix_append _ _) hlong ?_)
  rw [List.length_map, List.length_map, List.length_append]
  omega

/-- Two patches have no file in common exactly when their artifacts are different. -/
theorem disjoint_files_iff {c : Cache} {g : Char → Char}
    (h : ¬ c.ending.map g <:+ (c.ending ++ ".md5".toList).map g) (p q : Descriptor) :
    List.Disjoint
        ([c.artifactPath p.name, sidecarPath (c.artifactPath p.name)].map
          fun path => path.text.toList.map g)
        ([c.artifactPath q.name, sidecarPath (c.artifactPath q.name)].map
          fun path => path.text.toList.map g) ↔
      (fileNameOf p.name.toList).map g ≠ (fileNameOf q.name.toList).map g := by
  obtain ⟨front, hfiles⟩ := c.exists_text_files
  have hmixed := artifactText_ne_sidecarText h
  have hsame (ends : List Char) :
      (front ++ (fileNameOf p.name.toList ++ ends)).map g =
          (front ++ (fileNameOf q.name.toList ++ ends)).map g ↔
        (fileNameOf p.name.toList).map g = (fileNameOf q.name.toList).map g := by
    rw [List.map_append, List.map_append, List.map_append, List.map_append, List.append_right_inj,
      List.append_left_inj]
  simp only [List.map_cons, List.map_nil, List.disjoint_cons_left, List.disjoint_nil_left,
    List.mem_cons, List.not_mem_nil, or_false, and_true, not_or]
  constructor
  · rintro ⟨⟨hartifacts, -⟩, -⟩ hname
    rw [(hfiles p.name).1, (hfiles q.name).1, hsame] at hartifacts
    exact hartifacts hname
  · intro hname
    refine ⟨⟨?_, hmixed p.name q.name⟩, (hmixed q.name p.name).symm, ?_⟩
    · rwa [(hfiles p.name).1, (hfiles q.name).1, hsame]
    · rwa [(hfiles p.name).2, (hfiles q.name).2, hsame]

/-- **The files of patches are known from the names of the patches**, also when characters are taken
for the same, as long as no artifact has the name of a sidecar. -/
theorem nodup_paths_iff {c : Cache} (g : Char → Char)
    (h : ¬ c.ending.map g <:+ (c.ending ++ ".md5".toList).map g) (ps : List Descriptor) :
    ((c.paths ps).map fun path => path.text.toList.map g).Nodup ↔
      ps.Pairwise fun p q =>
        (fileNameOf p.name.toList).map g ≠ (fileNameOf q.name.toList).map g := by
  rw [paths, List.map_flatMap, List.nodup_flatMap]
  constructor
  · rintro ⟨-, hpairwise⟩
    exact hpairwise.imp fun {p q} hpq => (disjoint_files_iff h p q).1 hpq
  · intro hpairwise
    refine ⟨fun p _ => ?_, hpairwise.imp fun {p q} hname => (disjoint_files_iff h p q).2 hname⟩
    rw [List.map_cons, List.map_singleton, List.nodup_cons, List.mem_singleton]
    exact ⟨artifactText_ne_sidecarText h p.name p.name, List.nodup_singleton _⟩

/-- An artifact has a name of its own: no patch is called as the folder or the one above it. -/
theorem fileName_cases {c : Cache} (hempty : c.extension ≠ "") (hpoint : c.extension ≠ ".")
    (patch : String) : Path.isIdle (c.fileName patch) = false ∧ c.fileName patch ≠ ".." := by
  have hname := c.toList_fileName patch
  have hsome : c.extension.toList ≠ [] := fun hnil => hempty (String.toList_injective hnil)
  obtain ⟨e, es, hextension⟩ := List.exists_cons_of_ne_nil hsome
  rw [ending, hextension] at hname
  have hlong (u : String) (hu : u.toList.length ≤ 1) : c.fileName patch ≠ u := by
    rintro rfl
    rw [hname, List.length_append, List.length_cons, List.length_cons] at hu
    omega
  constructor
  · rw [Path.isIdle, Bool.or_eq_false_iff]
    exact ⟨beq_eq_false_iff_ne.2 (hlong "" (by decide)), beq_eq_false_iff_ne.2 (hlong "." (by decide))⟩
  · intro hparent
    rw [hparent] at hname
    have htwo : "..".toList = ['.', '.'] := by decide
    rw [htwo] at hname
    cases hfile : fileNameOf patch.toList with
    | nil =>
      rw [hfile] at hname
      cases hname
      exact hpoint (String.toList_injective hextension)
    | cons x rest =>
      have hlength := congrArg List.length hname
      rw [hfile, List.length_append, List.length_cons, List.length_cons, List.length_cons,
        List.length_cons, List.length_cons, List.length_nil] at hlength
      omega

/-- **The files of a patch are in the folder of the cache**, whatever the patch is called. -/
theorem components_paths {c : Cache} (hseparator : Path.separator ∉ c.extension.toList)
    (hempty : c.extension ≠ "") (hpoint : c.extension ≠ ".") (patch : String) :
    (c.artifactPath patch).components = c.folder.components ++ [.name (c.fileName patch)] ∧
      (sidecarPath (c.artifactPath patch)).components =
        c.folder.components ++ [.name (c.fileName patch ++ ".md5")] := by
  have hfile : Path.separator ∉ (c.fileName patch).toList := by
    rw [fileName, String.toList_append, String.toList_append, List.mem_append, List.mem_append,
      not_or, not_or]
    exact ⟨⟨separator_not_mem_assemblyName patch, by decide⟩, hseparator⟩
  have hsidecar : Path.separator ∉ (c.fileName patch ++ ".md5").toList := by
    rw [String.toList_append, List.mem_append, not_or]
    exact ⟨hfile, by decide⟩
  obtain ⟨hidle, hparent⟩ := fileName_cases hempty hpoint patch
  have hartifact : c.artifactPath patch = c.folder.child (c.fileName patch) := rfl
  constructor
  · rw [hartifact, Path.components_child hfile hidle, Path.componentOf, if_neg (mt beq_iff_eq.1 hparent)]
  · rw [sidecarPath_artifactPath, Path.components_child hsidecar (isIdle_sidecar _), Path.componentOf,
      if_neg (mt beq_iff_eq.1 (sidecar_ne_of_length_le _ (by decide)))]

end Cache

namespace Sources

/-- The artifacts of two patches have different names, also when the case is ignored. -/
def DifferIgnoringCase (p q : Descriptor) : Prop :=
  Text.foldCase (fileNameOf p.name.toList) ≠ Text.foldCase (fileNameOf q.name.toList)

instance : Std.Symm DifferIgnoringCase := ⟨fun _ _ h => h.symm⟩

/-- Only a capital sigma at the end of a word can keep apart what is the same when the case is
ignored. -/
theorem pairwise_differ_iff (xs : List Parsed) :
    (admitted (admitEach [] xs)).Pairwise DifferIgnoringCase ↔
      ∀ p ∈ admitted (admitEach [] xs), ∀ q ∈ admitted (admitEach [] xs), p ≠ q →
        Text.HasFinalSigma (fileNameOf p.name.toList) → DifferIgnoringCase p q := by
  constructor
  · intro h p hp q hq hne _
    exact h.forall hp hq hne
  · intro h
    refine (pairwise_claimOf [] xs).2.imp_of_mem fun {p q} hp hq hclaims => ?_
    have hne : p ≠ q := by
      rintro rfl
      exact hclaims rfl
    by_cases hpsigma : Text.HasFinalSigma (fileNameOf p.name.toList)
    · exact h p hp q hq hne hpsigma
    · by_cases hqsigma : Text.HasFinalSigma (fileNameOf q.name.toList)
      · exact (h q hq p hp hne.symm hqsigma).symm
      · exact mt (Text.lower_eq_of_foldCase_eq hpsigma hqsigma) hclaims

theorem nodup_paths_admitEach {c : Cache} (h : ¬ c.MixesSidecars) (xs : List Parsed) :
    (c.paths (admitted (admitEach [] xs))).Nodup := by
  have hapart : ¬ c.ending.map id <:+ (c.ending ++ ".md5".toList).map id := by
    intro hsuffix
    rw [List.map_id, List.map_id] at hsuffix
    exact h (hsuffix.map Text.lowerChar)
  refine List.Nodup.of_map _ ((Cache.nodup_paths_iff id hapart _).2 ?_)
  refine (pairwise_claimOf [] xs).2.imp fun {p q} hclaims hname => hclaims ?_
  rw [List.map_id, List.map_id] at hname
  exact congrArg Text.lower hname

/-- **Each artifact is taken by the first source of a run that has it.**  A source without a patch stays
what it is and takes nothing. A source with a patch is refused exactly when one in front of it takes the
same file name in lower case, with the first of these for the reason, and is accepted otherwise. The
files of the patches that are accepted are then different ones, unless the extension of the artifacts
is that of the sidecars. They are different when the case is ignored, too, exactly when a name in which
a capital sigma ends a word is that of no other patch that is accepted, when the case is ignored: lower
case makes `ς` of that sigma and `σ` of any other. With a usual extension each file stands in the folder
of the cache itself, whatever the patch is called. -/
theorem artifacts_claimed_once (c : Cache) (xs : List Parsed) :
    (∀ (i : Nat) (source : Path) (e : Error), xs[i]? = some (source, .error e) →
      (admitEach [] xs)[i]? = some (source, .error e)) ∧
    (∀ (i : Nat) (source : Path) (p : Descriptor), xs[i]? = some (source, .ok p) →
      (∀ first, (admitEach [] xs)[i]? =
          some (source, .error (.duplicateName (Cache.assemblyName p.name) first)) ↔
        FirstClaims xs i (claimOf p.name) first) ∧
      ((admitEach [] xs)[i]? = some (source, .ok p) ↔
        ∀ j < i, ∀ other, ¬ Claims xs j (claimOf p.name) other)) ∧
    (¬ c.MixesSidecars →
      (c.paths (admitted (admitEach [] xs))).Nodup ∧
      (((c.paths (admitted (admitEach [] xs))).map fun path =>
          Text.foldCase path.text.toList).Nodup ↔
        ∀ p ∈ admitted (admitEach [] xs), ∀ q ∈ admitted (admitEach [] xs), p ≠ q →
          Text.HasFinalSigma (fileNameOf p.name.toList) → DifferIgnoringCase p q)) ∧
    (Path.separator ∉ c.extension.toList → c.extension ≠ "" → c.extension ≠ "." →
      ∀ patch : String,
        (c.artifactPath patch).components = c.folder.components ++ [.name (c.fileName patch)] ∧
        (sidecarPath (c.artifactPath patch)).components =
          c.folder.components ++ [.name (c.fileName patch ++ ".md5")]) := by
  refine ⟨fun i source e hx => ?_, fun i source p hx => ?_, fun hapart => ?_,
    fun hseparator hempty hpoint patch => Cache.components_paths hseparator hempty hpoint patch⟩
  · rw [getElem?_admitEach, hx]
    rfl
  · rw [getElem?_admitEach, hx, Option.map_some, judged]
    cases hfound : (xs.take i).findSome? (claimant? (claimOf p.name)) with
    | none =>
      have hfree := findSome?_take_eq_none_iff.1 hfound
      refine ⟨fun first => ⟨fun h => ?_, ?_⟩, fun _ => hfree, fun _ => rfl⟩
      · cases h
      · rintro ⟨j, hj, hclaims, -⟩
        exact absurd hclaims (hfree j hj first)
    | some other =>
      refine ⟨fun first => ?_, fun h => ?_, fun hfree => ?_⟩
      · rw [← findSome?_take_eq_some_iff, hfound]
        constructor
        · intro h
          cases h
          rfl
        · intro h
          cases h
          rfl
      · cases h
      · rw [findSome?_take_eq_none_iff.2 hfree] at hfound
        cases hfound
  · refine ⟨nodup_paths_admitEach hapart xs, ?_⟩
    rw [← pairwise_differ_iff]
    exact Cache.nodup_paths_iff Text.lowerChar hapart _

end Sources

namespace Sample

/-- A source whose header says how the patch is called. -/
def named (file name : String) : Sources.Parsed :=
  (⟨file⟩, .ok { first with name, source := ⟨file⟩ })

/-- Sources with names that are the same in lower case or as file names, and one without a header. -/
def rivals : List Sources.Parsed :=
  [named "/p/A.cs" "Fix", (⟨"/p/B.cs"⟩, .error (.emptySource ⟨"/p/B.cs"⟩)), named "/p/C.cs" "FIX",
    named "/p/D.cs" "a:b", named "/p/E.cs" "a/b", named "/p/F.cs" ".."]

/-- The third source and the fifth one are refused because of the first and the fourth, and the others
have files of their own in the folder of the cache. -/
theorem rivals_claimed_once :
    rivals[2]? = some (named "/p/C.cs" "FIX") ∧
    (Sources.admitEach [] rivals)[2]? =
      some (⟨"/p/C.cs"⟩, .error (.duplicateName "FIX" ⟨"/p/A.cs"⟩)) ∧
    (Sources.admitEach [] rivals)[4]? =
      some (⟨"/p/E.cs"⟩, .error (.duplicateName "a_b" ⟨"/p/D.cs"⟩)) ∧
    ¬ artifacts.MixesSidecars ∧
    ((artifacts.paths (Sources.admitted (Sources.admitEach [] rivals))).map fun path =>
      Text.foldCase path.text.toList).Nodup ∧
    (artifacts.artifactPath "..").components = [.root, .name "c", .name "...dll"] := by
  obtain ⟨-, hjudged, hpaths, hfolder⟩ := Sources.artifacts_claimed_once artifacts rivals
  have happart : ¬ artifacts.MixesSidecars := by decide +kernel
  have hplain : ∀ p ∈ Sources.admitted (Sources.admitEach [] rivals),
      'Σ' ∉ fileNameOf p.name.toList := by decide +kernel
  refine ⟨rfl, ?_, ?_, happart, ?_, ?_⟩
  · apply ((hjudged 2 _ _ rfl).1 ⟨"/p/A.cs"⟩).2
    exact Sources.findSome?_take_eq_some_iff.1 (by decide +kernel)
  · apply ((hjudged 4 _ _ rfl).1 ⟨"/p/D.cs"⟩).2
    exact Sources.findSome?_take_eq_some_iff.1 (by decide +kernel)
  · exact (hpaths happart).2.2 fun p hp q _ _ hsigma => absurd hsigma.mem (hplain p hp)
  · exact (hfolder (by decide) (by decide) (by decide) "..").1

/-- Two sources with names that are the same when the case is ignored. -/
def sigmas : List Sources.Parsed := [named "/p/A.cs" "ΑΣ", named "/p/B.cs" "ασ"]

/-- **Lower case is not enough to tell names apart that are the same when the case is ignored.**  Both
sources are accepted, as the lower case of `ΑΣ` is `ας`, and their artifacts are one file where the
case of names does not count. -/
theorem sigmas_collide :
    Sources.admitEach [] sigmas = sigmas ∧
    Text.foldCase (artifacts.artifactPath "ΑΣ").text.toList =
      Text.foldCase (artifacts.artifactPath "ασ").text.toList ∧
    Text.lower (artifacts.artifactPath "ΑΣ").text.toList =
      Text.lower (artifacts.artifactPath "ασ").text.toList ∧
    ¬ ((artifacts.paths (Sources.admitted (Sources.admitEach [] sigmas))).map fun path =>
      Text.foldCase path.text.toList).Nodup := by
  have hne : (Sources.claimOf "ΑΣ" == Sources.claimOf "ασ") = false := by decide +kernel
  refine ⟨?_, by decide +kernel, by decide +kernel, by decide +kernel⟩
  simp [sigmas, named, Sources.admitEach, hne]

end Sample

end CilGraft
