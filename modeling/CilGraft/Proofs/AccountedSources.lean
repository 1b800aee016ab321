import CilGraft.Proofs.Accesses
import CilGraft.Proofs.BrokenReferences
import CilGraft.Proofs.ReusedArtifacts
import Mathlib.Data.List.Nodup

/-!
# What becomes of each source

A source is parsed, admitted and compiled, or fails at one of these steps. A patch that is ready belongs
to the group of one binary, and is applied in the turn of this binary. So the report has one entry for
each source, and its order is that of the turns.

* `Disk.IsNamed` — entries with names of their own; `isNamed_kept`.
* `Layout.mem_sources_iff`, `Layout.nodup_sources` — the sources of a game.
* `Sources.accounted_prepare` — each source is ready or has failed.
* `Session.groups_perm` — each patch is in the group of one binary.
* `Session.entries_patchAll` — the records of a run, one for each patch.
* `Session.sources_accounted` — all of this for a whole run.
-/

set_option autoImplicit false

namespace CilGraft

open Disk

variable {σ : Type}

/-! ## The sources of a game -/

namespace Disk

variable {d : Disk} {p : Path}

/-- Each entry has names of its own, without separators. The entries of a disk are a list, which could
have names twice. -/
structure IsNamed (d : Disk) : Prop where
  distinct : (d.entries.map (·.1)).Nodup
  plain : ∀ x ∈ d.entries, ∀ name ∈ x.1, Path.separator ∉ name.toList

theorem mem_pieces_of_mem_place {name : String} (h : name ∈ p.place) : name ∈ p.pieces := by
  have hfold : ∀ (ps : List String) (at_ : Names), name ∈ ps.foldl Path.descend at_ →
      name ∈ at_ ∨ name ∈ ps := by
    intro ps
    induction ps with
    | nil => exact fun at_ h => .inl h
    | cons piece ps ih =>
      intro at_ h
      rcases ih _ h with hat | hps
      · rcases Path.descend_cases at_ piece with heq | heq | heq <;> rw [heq] at hat
        · exact .inl hat
        · exact .inl (List.dropLast_subset at_ hat)
        · rcases List.mem_append.1 hat with hold | hnew
          · exact .inl hold
          · exact .inr (List.mem_singleton.1 hnew ▸ List.mem_cons_self)
      · exact .inr (List.mem_cons_of_mem _ hps)
  exact (hfold p.pieces [] h).resolve_left List.not_mem_nil

/-- What is put at the place of a path has names of its own. -/
theorem IsNamed.put (h : d.IsNamed) (p : Path) (e : Entry) : (d.put p.place e).IsNamed := by
  have hplain : ∀ name ∈ p.place, Path.separator ∉ name.toList := fun name hname =>
    Path.separator_not_mem_piece (mem_pieces_of_mem_place hname)
  unfold Disk.put
  split
  · rename_i hfound
    have hsame : (d.entries.map fun x => if x.1 == p.place then (p.place, e) else x).map (·.1) =
        d.entries.map (·.1) := by
      rw [List.map_map]
      exact List.map_congr_left fun x _ => fst_replaced p.place e x
    refine ⟨hsame ▸ h.distinct, fun x hx => ?_⟩
    obtain ⟨y, hy, rfl⟩ := List.mem_map.1 hx
    rw [fst_replaced]
    exact h.plain y hy
  · rename_i hfree
    refine ⟨?_, fun x hx => ?_⟩
    · rw [List.map_append, List.map_singleton, (List.perm_append_singleton _ _).nodup_iff,
        List.nodup_cons]
      refine ⟨fun hmem => hfree ?_, h.distinct⟩
      obtain ⟨x, hx, heq⟩ := List.mem_map.1 hmem
      exact List.any_eq_true.2 ⟨x, hx, beq_iff_eq.2 heq⟩
    · rcases List.mem_append.1 hx with hold | hnew
      · exact h.plain x hold
      · rw [List.mem_singleton.1 hnew]
        exact hplain

/-- **Entries keep names of their own** whatever is put on a disk. -/
theorem isNamed_kept : Kept fun d d' => d.IsNamed → d'.IsNamed where
  refl _ h := h
  trans h h' hd := h' (h hd)
  file _ _ hd := hd.put _ _
  folder _ _ hd := hd.put _ _

/-- The name of an entry that stands in a folder. -/
def nameIn? (folder n : Names) : Option String :=
  match n.getLast? with
  | some name => if n.dropLast = folder then some name else none
  | none => none

theorem nameIn?_eq_some_iff {folder n : Names} {name : String} :
    nameIn? folder n = some name ↔ n = folder ++ [name] := by
  rcases List.eq_nil_or_concat n with rfl | ⟨front, last, rfl⟩
  · exact iff_of_false nofun fun h => absurd h.symm (List.append_ne_nil_of_right_ne_nil _ nofun)
  · rw [List.concat_eq_append, nameIn?, List.getLast?_concat, List.dropLast_concat]
    dsimp only
    split
    · rename_i hfolder
      rw [hfolder, List.append_cancel_left_eq, List.singleton_inj, Option.some.injEq]
    · rename_i hfolder
      exact iff_of_false nofun fun h => hfolder (List.append_inj' h rfl).1

theorem childrenOf_eq (d : Disk) (folder : Names) :
    d.childrenOf folder = (d.entries.map (·.1)).filterMap (nameIn? folder) := by
  rw [childrenOf, List.filterMap_map]
  rfl

/-- The names in a folder are those behind which an entry stands. -/
theorem mem_childrenOf_iff {folder : Names} {name : String} :
    name ∈ d.childrenOf folder ↔ folder ++ [name] ∈ d.entries.map (·.1) := by
  rw [childrenOf_eq, List.mem_filterMap]
  simp only [nameIn?_eq_some_iff, exists_eq_right]

/-- A folder has each name once. -/
theorem IsNamed.nodup_childrenOf (h : d.IsNamed) (folder : Names) : (d.childrenOf folder).Nodup := by
  rw [childrenOf_eq]
  refine List.Nodup.filterMap (fun m n name hm hn => ?_) h.distinct
  rw [Option.mem_def, nameIn?_eq_some_iff] at hm hn
  rw [hm, hn]

theorem IsNamed.separator_not_mem (h : d.IsNamed) {folder : Names} {name : String}
    (hname : name ∈ d.childrenOf folder) : Path.separator ∉ name.toList := by
  obtain ⟨x, hx, heq⟩ := List.mem_map.1 (mem_childrenOf_iff.1 hname)
  exact h.plain x hx name (heq ▸ List.mem_append_right _ (List.mem_singleton_self name))

end Disk

namespace Layout

variable {l : Layout} {d : Disk} {sources : List Path}

/-- The sources that are found are children of the folder of the patches, in the order of their
names. -/
theorem exists_names_of_sources (h : l.sources d = .ok sources) :
    ∃ names : List String, names.Perm (d.childrenOf l.patches.place) ∧
      sources = (names.map l.patches.child).filter fun p =>
        d.isFile p && References.hasExtension p l.sourceExtension := by
  unfold Layout.sources at h
  split at h
  · unfold entries at h
    split at h
    · cases h
    · rename_i found hfound
      split at hfound
      · cases hfound
      · rename_i names hlist
        cases hfound
        cases h
        obtain ⟨folder, hwalk, hlist⟩ := bind_eq_ok_iff.1 hlist
        split at hlist
        · cases hlist
          rw [walk_eq_place hwalk]
          exact ⟨_, List.mergeSort_perm _ _, rfl⟩
        · cases hlist
  · cases h

/-- **The sources of a game** are the files in the folder of the patches that have the extension. -/
theorem mem_sources_iff (h : l.sources d = .ok sources) {p : Path} : p ∈ sources ↔
    (∃ name, l.patches.place ++ [name] ∈ d.entries.map (·.1) ∧ l.patches.child name = p) ∧
      d.isFile p = true ∧ References.hasExtension p l.sourceExtension = true := by
  obtain ⟨names, hperm, rfl⟩ := exists_names_of_sources h
  rw [List.mem_filter, List.mem_map, Bool.and_eq_true]
  simp only [hperm.mem_iff, mem_childrenOf_iff]

/-- No source of a game is found twice. -/
theorem nodup_sources (h : l.sources d = .ok sources) (hnamed : d.IsNamed) : sources.Nodup := by
  obtain ⟨names, hperm, rfl⟩ := exists_names_of_sources h
  refine List.Nodup.filter _ (List.Nodup.map_on (fun m hm n hn heq => ?_) ?_)
  · exact Path.eq_of_child_eq (hnamed.separator_not_mem (hperm.mem_iff.1 hm))
      (hnamed.separator_not_mem (hperm.mem_iff.1 hn)) heq
  · exact hperm.nodup_iff.2 (hnamed.nodup_childrenOf _)

end Layout

/-! ## Sources that are made ready -/

namespace Sources

variable {xs : List Parsed} {sources : List Path} {d : Disk} {defaults : Defaults} {c : Cache}
  {compiler : Compiler}

/-- Each descriptor is that of its source. -/
def Own (xs : List Parsed) : Prop := ∀ source p, (source, .ok p) ∈ xs → p.source = source

/-- A list of sources is divided into those that go on and those that failed. -/
theorem accounted (h : Own xs) :
    ((admitted xs).map (·.source) ++ (failures xs).map (·.path)).Perm (xs.map (·.1)) ∧
      ((admitted xs).map (·.source)).Sublist (xs.map (·.1)) := by
  induction xs with
  | nil => exact ⟨.refl _, .refl _⟩
  | cons x xs ih =>
    obtain ⟨hperm, hsub⟩ := ih fun source p hp => h source p (List.mem_cons_of_mem _ hp)
    obtain ⟨source, result⟩ := x
    cases result with
    | error e => exact ⟨List.perm_middle.trans (hperm.cons source), hsub.cons source⟩
    | ok p =>
      have hsource : p.source = source := h source p List.mem_cons_self
      have hfirst : (admitted ((source, .ok p) :: xs)).map (·.source) =
          source :: (admitted xs).map (·.source) := congrArg (· :: _) hsource
      rw [hfirst]
      exact ⟨hperm.cons source, hsub.cons_cons source⟩

theorem own_parseEach {parsed : List Parsed} (h : parseEach d defaults sources = .ok parsed) :
    Own parsed ∧ parsed.map (·.1) = sources := by
  refine ⟨fun source p hp => ?_, ?_⟩
  · exact (Descriptor.source_of_ofFile (ofFile_of_mem_parseEach h hp)).1
  · rw [(parseEach_eq_ok_iff.1 h).2, List.map_map]
    exact List.map_id sources

theorem map_fst_admitEach (claimed : List (List Char × Path)) (xs : List Parsed) :
    (admitEach claimed xs).map (·.1) = xs.map (·.1) := by
  fun_induction admitEach claimed xs with
  | case1 => rfl
  | case2 claimed source e rest ih => exact congrArg (source :: ·) ih
  | case3 claimed source p rest _ _ _ ih => exact congrArg (source :: ·) ih
  | case4 claimed source p rest _ ih => exact congrArg (source :: ·) ih

theorem own_compileEach [Device] (w : World σ) (ps : List Descriptor) :
    Own (compileEach c compiler w ps).1 ∧
      (compileEach c compiler w ps).1.map (·.1) = ps.map (·.source) := by
  refine ⟨fun source p hp => ?_, ?_⟩
  · obtain ⟨q, -, rfl, rfl⟩ := mem_of_mem_compileEach hp
    rfl
  · induction ps generalizing w with
    | nil => rfl
    | cons p ps ih => exact congrArg (p.source :: ·) (ih _)

/-- **Each source is ready or has failed**, and those that are ready keep their order. -/
theorem accounted_prepare [Device] {w w' : World σ} {prepared : Prepared}
    (h : prepare c compiler defaults w sources = (.ok prepared, w')) :
    (prepared.ready.map (·.source) ++ prepared.failures.map (·.path)).Perm sources ∧
      (prepared.ready.map (·.source)).Sublist sources := by
  rcases prepare_cases c compiler w defaults sources with
    ⟨e, -, hprepare⟩ | ⟨parsed, hparsed, hprepare⟩ <;> rw [hprepare] at h <;> cases h
  obtain ⟨hown, hparsedPaths⟩ := own_parseEach hparsed
  have hchecked : Own (admitEach [] parsed) := fun source p hp =>
    hown source p (mem_of_mem_admitEach hp)
  obtain ⟨hcompiled, hcompiledPaths⟩ : Own (compileEach c compiler w _).1 ∧ _ :=
    own_compileEach w (admitted (admitEach [] parsed))
  obtain ⟨hperm, hsub⟩ := accounted hchecked
  obtain ⟨hperm', hsub'⟩ := accounted hcompiled
  rw [map_fst_admitEach, hparsedPaths] at hperm hsub
  rw [hcompiledPaths] at hperm' hsub'
  refine ⟨?_, hsub'.trans hsub⟩
  -- the patches that were compiled, with those that were not, are those that were admitted
  rw [List.map_append]
  refine (List.perm_append_comm.append_left _).trans ?_
  rw [← List.append_assoc]
  exact (hperm'.append_right _).trans hperm

end Sources

/-! ## The groups of the patches -/

/-- Names that were sorted are in ascending order. -/
theorem pairwise_le_mergeSort (names : List String) :
    (names.mergeSort fun s t => !(t < s)).Pairwise (· ≤ ·) := by
  refine (List.pairwise_mergeSort ?_ ?_ _).imp fun {s t} h => ?_
  · intro a b c hab hbc
    simp only [Bool.not_eq_true', decide_eq_false_iff_not, String.not_lt] at hab hbc ⊢
    exact String.le_trans hab hbc
  · intro a b
    simp only [Bool.or_eq_true, Bool.not_eq_true', decide_eq_false_iff_not, String.not_lt]
    exact String.le_total a b
  · simpa only [Bool.not_eq_true', decide_eq_false_iff_not, String.not_lt] using h

/-- The source of a patch and the binary that it is for. -/
def Descriptor.entry (p : Descriptor) : Path × String := (p.source, p.assembly)

/-- The source of a patch that was applied and the binary that it is for. -/
def PatchRecord.entry (r : PatchRecord) : Path × String := (r.source, r.assembly)

namespace Session

section Groups

variable {ps qs : List Descriptor} {primary : String} {names : List String}

/-- Groups with different names have all patches between them that have one of the names. -/
theorem flatMap_groupOf_perm (hnames : names.Nodup) (hqs : ∀ p ∈ qs, p.assembly ∈ names) :
    (names.flatMap (groupOf · qs)).Perm qs := by
  induction names generalizing qs with
  | nil =>
    obtain rfl : qs = [] := List.eq_nil_iff_forall_not_mem.2 fun p hp => nomatch hqs p hp
    exact .refl _
  | cons name names ih =>
    obtain ⟨hname, hnames⟩ := List.nodup_cons.1 hnames
    have hothers : ∀ other ∈ names, groupOf other qs =
        groupOf other (qs.filter fun p => !(p.assembly == name)) := by
      intro other hother
      rw [groupOf, groupOf, List.filter_filter]
      refine List.filter_congr fun p _ => ?_
      by_cases heq : p.assembly = other
      · have hne : p.assembly ≠ name := fun h => hname (h ▸ heq ▸ hother)
        simp [heq, heq ▸ hne]
      · simp [heq]
    rw [List.flatMap_cons, List.flatMap_congr hothers]
    have hrest : ∀ p ∈ qs.filter fun p => !(p.assembly == name), p.assembly ∈ names := by
      intro p hp
      obtain ⟨hp, hne⟩ := List.mem_filter.1 hp
      refine (List.mem_cons.1 (hqs p hp)).resolve_left fun h => ?_
      simp [h] at hne
    exact ((ih hnames hrest).append_left _).trans (List.filter_append_perm _ qs)

/-- **Each patch is in the group of one binary.** -/
theorem groups_perm (primary : String) (ps : List Descriptor) :
    (groupOf primary ps ++ (otherNames primary ps).flatMap (groupOf · ps)).Perm ps := by
  have hall : ∀ p ∈ ps, p.assembly ∈ primary :: otherNames primary ps := by
    intro p hp
    by_cases heq : p.assembly = primary
    · exact heq ▸ List.mem_cons_self
    · exact List.mem_cons_of_mem _ (mem_otherNames.2 ⟨heq, p, hp, rfl⟩)
  have hnodup : (primary :: otherNames primary ps).Nodup :=
    List.nodup_cons.2 ⟨not_mem_otherNames _ _, nodup_otherNames _ _⟩
  exact flatMap_groupOf_perm hnodup hall

/-- The other binaries have their turns in ascending order. -/
theorem pairwise_otherNames (primary : String) (ps : List Descriptor) :
    (otherNames primary ps).Pairwise (· < ·) := by
  have hsorted : (otherNames primary ps).Pairwise (· ≤ ·) := pairwise_le_mergeSort _
  exact hsorted.imp₂ (fun _ _ hle hne => Std.lt_of_le_of_ne hle hne) (nodup_otherNames primary ps)

/-- The patches in the order of the turns: those of one binary in the order of their sources, the
primary binary first and the others in the order of their names. -/
theorem pairwise_groups (primary : String) (ps : List Descriptor) :
    (groupOf primary ps ++ (otherNames primary ps).flatMap (groupOf · ps)).Pairwise fun p q =>
      (p.assembly = q.assembly → [p.source, q.source].Sublist (ps.map (·.source))) ∧
      (p.assembly ≠ q.assembly →
        p.assembly = primary ∨ q.assembly ≠ primary ∧ p.assembly < q.assembly) := by
  have hgroup : ∀ name, (groupOf name ps).Pairwise fun p q =>
      (p.assembly = q.assembly → [p.source, q.source].Sublist (ps.map (·.source))) ∧
      (p.assembly ≠ q.assembly →
        p.assembly = primary ∨ q.assembly ≠ primary ∧ p.assembly < q.assembly) := by
    intro name
    refine List.pairwise_iff_forall_sublist.2 fun {p q} hsub => ⟨fun _ => ?_, fun hne => ?_⟩
    · exact (hsub.trans List.filter_sublist).map (·.source)
    · have hp := assembly_of_mem_groupOf ps (hsub.subset List.mem_cons_self)
      have hq := assembly_of_mem_groupOf ps (hsub.subset (List.mem_cons_of_mem _ List.mem_cons_self))
      exact absurd (hp.trans hq.symm) hne
  refine List.pairwise_append.2 ⟨hgroup primary, List.pairwise_flatMap.2
    ⟨fun name _ => hgroup name, ?_⟩, fun p hp q hq => ?_⟩
  · refine (pairwise_otherNames primary ps).imp_of_mem fun {m n} _ hn hlt p hp q hq => ?_
    rw [assembly_of_mem_groupOf ps hp, assembly_of_mem_groupOf ps hq]
    exact ⟨fun heq => absurd (heq ▸ hlt) (String.lt_irrefl n),
      fun _ => .inr ⟨fun heq => not_mem_otherNames primary ps (heq ▸ hn), hlt⟩⟩
  · obtain ⟨name, hname, hq⟩ := List.mem_flatMap.1 hq
    rw [assembly_of_mem_groupOf ps hp, assembly_of_mem_groupOf ps hq]
    exact ⟨fun heq => absurd (heq ▸ hname) (not_mem_otherNames primary ps), fun _ => .inl rfl⟩

end Groups

/-! ## The records of a run -/

section Records

variable {s : Session σ}

theorem map_entry_zipWith {group : List Descriptor} {outcomes : List Outcome}
    (h : outcomes.length = group.length) :
    (group.zipWith Descriptor.record outcomes).map PatchRecord.entry =
      group.map Descriptor.entry := by
  induction group generalizing outcomes with
  | nil => rfl
  | cons p group ih =>
    cases outcomes with
    | nil => cases h
    | cons o outcomes =>
      rw [List.zipWith_cons_cons, List.map_cons, ih (Nat.succ.inj h)]
      rfl

variable [Device] (l : Layout) (b : Backup) (ps : List Descriptor) (w : World σ)

/-- The patches of a binary have one record each, also when it cannot be opened. -/
theorem entries_patchOther (name : String) (group : List Descriptor) :
    (s.patchOther l b w name group).1.patches.map PatchRecord.entry =
      group.map Descriptor.entry := by
  obtain ⟨outcomes, hlength, hpatches⟩ := s.exists_outcomes l b w name group
  rw [hpatches, map_entry_zipWith hlength]

theorem entries_patchOthers (names : List String) :
    (s.patchOthers l b ps w names).1.patches.map PatchRecord.entry =
      (names.flatMap (groupOf · ps)).map Descriptor.entry := by
  induction names generalizing w with
  | nil => rfl
  | cons name names ih =>
    rw [patchOthers_cons, Report.patches_append, List.map_append, entries_patchOther, ih,
      List.flatMap_cons, List.map_append]

theorem entries_patchPrimary (primary : Assembly) :
    (s.patchPrimary l w primary ps).1.patches.map PatchRecord.entry =
      (groupOf l.primaryName ps).map Descriptor.entry := by
  obtain ⟨outcomes, hlength, hrecords⟩ :=
    s.exists_outcomes_foldl l.primary (groupOf l.primaryName ps) ⟨primary, false, [], w⟩
  rw [patches_patchPrimary, applyAll, hrecords, List.nil_append, map_entry_zipWith hlength]

/-- **Each patch that is ready has one record**, in the order of the turns. -/
theorem entries_patchAll (primary : Assembly) :
    (s.patchAll l b w primary ps).1.patches.map PatchRecord.entry =
      (groupOf l.primaryName ps ++
        (otherNames l.primaryName ps).flatMap (groupOf · ps)).map Descriptor.entry := by
  rw [patchAll_eq, Report.patches_append, List.map_append, entries_patchPrimary,
    entries_patchOthers, List.map_append]

end Records

/-! ## A whole run -/

/-- **Every source is accounted for once.** The patches of a report and its failed sources are the files
in the folder of the patches that have the extension of a source, each of them once. The patches of the
primary binary come first, then those of the others in the order of their names, and those of one
binary in the order of their sources. -/
theorem sources_accounted [Device] (s : Session σ) (w : World σ) (game : Path) (report : Report)
    (hreport : (s.patch w game).1 = .ok report) :
    ∃ l primary w₀ sources, s.Opens w game l primary w₀ sources ∧
      (∀ p, p ∈ sources ↔
        (∃ name, l.patches.place ++ [name] ∈ w₀.disk.entries.map (·.1) ∧
          l.patches.child name = p) ∧
        w₀.disk.isFile p = true ∧ References.hasExtension p l.sourceExtension = true) ∧
      (w.disk.IsNamed → sources.Nodup) ∧
      (report.patches.map (·.source) ++ report.sourceFailures.map (·.path)).Perm sources ∧
      report.patches.Pairwise fun r r' =>
        (r.assembly = r'.assembly → [r.source, r'.source].Sublist sources) ∧
        (r.assembly ≠ r'.assembly →
          r.assembly = l.primaryName ∨ r'.assembly ≠ l.primaryName ∧ r.assembly < r'.assembly) := by
  obtain ⟨e, herror, -⟩ | ⟨l, primary, prepared, w₁, hbegins, -, hpatch⟩ := s.patch_cases w game
  · rw [hreport] at herror
    cases herror
  rw [hpatch] at hreport
  obtain rfl := Except.ok.inj hreport
  obtain ⟨hlayout, disk, w₀, hsetUp, hload, hprepare⟩ := hbegins
  obtain ⟨sources, hfound, hready⟩ := s.prepare_eq_ok l w₀ hprepare
  obtain ⟨hperm, hsub⟩ := Sources.accounted_prepare hready
  have hentries := entries_patchAll (s := s) l (s.backupOf l) prepared.ready w₁ primary
  refine ⟨l, primary, w₀, sources, ⟨hlayout, ⟨disk, hsetUp, hload⟩, hfound⟩,
    fun p => Layout.mem_sources_iff hfound, fun hnamed => ?_, ?_, ?_⟩
  · have hdisk : disk.IsNamed := by
      have hkept := isNamed_kept.setUp s l w.disk hnamed
      rwa [hsetUp] at hkept
    have hsame : w₀.disk = disk := by
      rw [← (fst_snd_of_eq_mk hload).2]
      rfl
    exact Layout.nodup_sources hfound (hsame ▸ hdisk)
  · have hpatches := congrArg (List.map Prod.fst) hentries
    rw [List.map_map, List.map_map] at hpatches
    refine List.Perm.trans (List.Perm.append_right _ ?_) hperm
    exact (List.Perm.of_eq hpatches).trans
      ((groups_perm l.primaryName prepared.ready).map (·.source))
  · have hpairwise : (List.map PatchRecord.entry
        (s.patchAll l (s.backupOf l) w₁ primary prepared.ready).1.patches).Pairwise fun x y =>
          (x.2 = y.2 → [x.1, y.1].Sublist sources) ∧
          (x.2 ≠ y.2 → x.2 = l.primaryName ∨ y.2 ≠ l.primaryName ∧ x.2 < y.2) := by
      rw [hentries, List.pairwise_map]
      refine (pairwise_groups l.primaryName prepared.ready).imp fun {p q} h => ?_
      exact ⟨fun heq => (h.1 heq).trans hsub, h.2⟩
    exact List.pairwise_map.1 hpairwise

end Session

/-! ## A run with two sources -/

namespace Sample

theorem isNamed_disk : disk.IsNamed where
  distinct := by decide +kernel
  plain := by decide +kernel

/-- Both sources of the game have a record, and no other source has one. -/
theorem accounted_start : disk.IsNamed ∧ ∃ report, (session.patch start ⟨"/g"⟩).1 = .ok report ∧
    ∃ sources, sources.Nodup ∧
      (report.patches.map (·.source) ++ report.sourceFailures.map (·.path)).Perm sources ∧
      report.patches.map (·.source) = [⟨"/g/Patches/A.cs"⟩, ⟨"/g/Patches/B.cs"⟩] := by
  obtain ⟨report, hreport, -, hpatches, -⟩ := patch_start
  obtain ⟨l, primary, w₀, sources, -, -, hnodup, hperm, -⟩ :=
    session.sources_accounted start ⟨"/g"⟩ report hreport
  refine ⟨isNamed_disk, report, hreport, sources, hnodup isNamed_disk, hperm, ?_⟩
  rw [hpatches]
  decide +kernel

end Sample

end CilGraft
