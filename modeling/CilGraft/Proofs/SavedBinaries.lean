import CilGraft.Proofs.FileFrames
import CilGraft.Proofs.TargetNames

/-!
# Binaries that are saved before they change

A run writes a binary only after a copy of it was taken, and lists it as written. What can go wrong is
that something else of the run takes the place of the binary, or of its copy.

* `Backup.save_cases` — how a backup is taken.
* `Backup.save_held` — a backup that is taken in a free place has the content of the binary.
* `Session.Occupies` — what else a run may put where a backup is; `Session.Spares`, what happens on
  the way from one disk to another leaves a backup alone otherwise.
* `Session.StandsApart` — no binary is where a backup is; `standsApart_of_begins`.
* `saves_of_changed_by_others` — the turn that changes a file first has saved it.
* `saved_of_changed` — a whole run saves and lists what it changes, but for files that artifacts
  replace.
* `Sample.replaced_by_artifact` — such a file is lost.
-/

set_option autoImplicit false

namespace CilGraft

open Disk

variable {σ : Type}

/-! ## The places of a backup -/

namespace Path

theorem descend_append {at_ : Names} {s t : String} (ht : 2 < t.toList.length) :
    descend at_ (s ++ t) = at_ ++ [s ++ t] := by
  have hlong : ∀ u : String, u.toList.length ≤ 2 → s ++ t ≠ u := by
    rintro u hu rfl
    rw [String.toList_append, List.length_append] at hu
    omega
  refine descend_of_name ?_ (hlong ".." (by decide))
  rw [isIdle, Bool.or_eq_false_iff]
  exact ⟨beq_eq_false_iff_ne.2 (hlong "" (by decide)), beq_eq_false_iff_ne.2 (hlong "." (by decide))⟩

/-- A text behind a path leads elsewhere. -/
theorem place_appendText_ne (p : Path) {t : String} (ht : 2 < t.toList.length)
    (hsep : separator ∉ t.toList) : p.place ≠ (p.appendText t).place := by
  obtain ⟨u⟩ := p
  obtain ⟨front, last, hplace⟩ := exists_place_append u
  have hself := hplace "" (by decide)
  rw [String.append_empty, String.append_empty] at hself
  rw [appendText, hself, hplace t hsep, descend_append ht]
  have hlonger : last ≠ last ++ t := by
    intro heq
    have hlength := congrArg (List.length ∘ String.toList) heq
    simp only [Function.comp_apply, String.toList_append, List.length_append] at hlength
    omega
  unfold descend
  split
  · intro heq
    have hlength := congrArg List.length heq
    simp at hlength
  · split
    · intro heq
      have hlength := congrArg List.length heq
      simp only [List.length_dropLast, List.length_append, List.length_singleton] at hlength
      omega
    · intro heq
      exact hlonger (List.singleton_inj.1 (List.append_cancel_left heq))

/-- Different texts behind a path lead to different places. -/
theorem place_appendText_ne_of_ne (p : Path) {s t : String} (hs : 2 < s.toList.length)
    (ht : 2 < t.toList.length) (hsep : separator ∉ s.toList) (hsep' : separator ∉ t.toList)
    (hne : s.toList ≠ t.toList) : (p.appendText s).place ≠ (p.appendText t).place := by
  obtain ⟨u⟩ := p
  obtain ⟨front, last, hplace⟩ := exists_place_append u
  rw [appendText, appendText, hplace s hsep, hplace t hsep', descend_append hs, descend_append ht]
  intro heq
  have hlists := congrArg String.toList (List.singleton_inj.1 (List.append_cancel_left heq))
  rw [String.toList_append, String.toList_append] at hlists
  exact hne (List.append_cancel_left hlists)

/-- A text behind a name seen from a path stands behind the whole path. -/
theorem child_append (p : Path) (s : String) {t : String} (ht : separator ∉ t.toList) :
    p.child (s ++ t) = (p.child s).appendText t := by
  have hhead : (Path.mk (s ++ t)).isAbsolute = (Path.mk s).isAbsolute := by
    rw [isAbsolute, isAbsolute, String.toList_append]
    cases s.toList with
    | nil =>
      have hfirst : t.toList.head? ≠ some separator := fun hfirst =>
        ht (List.mem_of_mem_head? hfirst)
      rw [List.nil_append, beq_eq_false_iff_ne.2 hfirst]
      rfl
    | cons c rest => rfl
  rw [child, child, join, join, hhead]
  split
  · rfl
  · rw [appendText, String.append_assoc]

end Path

namespace Backup

theorem primaryCopy_ne_primaryMarker (b : Backup) :
    b.primaryCopy.place ≠ b.primaryMarker.place := by
  rw [primaryCopy, primaryMarker, Path.child_append _ _ (by decide),
    Path.child_append _ _ (by decide)]
  exact Path.place_appendText_ne_of_ne _ (by decide) (by decide) (by decide) (by decide) (by decide)

/-- The copy and the marker of a binary have different places. -/
theorem Covers.place_ne {b : Backup} {l : Layout} {name : String} {copy marker : Path}
    (h : b.Covers l name copy marker) : copy.place ≠ marker.place := by
  cases h with
  | primary => exact b.primaryCopy_ne_primaryMarker
  | other other file_eq => exact Path.place_appendText_ne _ (by decide) (by decide)

/-! ## Taking a backup -/

theorem readFile_of_ofFile {d : Disk} {p : Path} {c : Checksum} (h : Checksum.ofFile d p = .ok c) :
    ∃ content, d.readFile p = .ok content ∧ c = Checksum.of content := by
  unfold Checksum.ofFile at h
  split at h
  · cases h
  · rename_i content hread
    cases h
    exact ⟨content, hread, rfl⟩

section Taking

variable [Device] {d d' : Disk} {binary copy marker : Path} {taken : Bool}

/-- A copy that is made only once: it is kept, or it is made. -/
theorem copyOnce_eq_ok (h : copyOnce d binary copy = (.ok (), d')) :
    ∃ room, makeRoom d copy = (.ok (), room) ∧
      (room.exists_ copy = true ∧ d' = room ∨
        room.exists_ copy = false ∧ room.copyFile binary copy = .ok d') := by
  unfold copyOnce at h
  split at h
  · cases h
  · rename_i room hroom
    refine ⟨room, hroom, ?_⟩
    split at h
    · cases h
      exact .inl ⟨‹_›, rfl⟩
    · rename_i hexists
      split at h
      · cases h
      · cases h
        exact .inr ⟨Bool.eq_false_iff.2 hexists, Device.copyFile_eq_ok ‹_›⟩

/-- A marker has the checksum that the binary has when it is written. -/
theorem writeMarker_eq_ok (h : writeMarker d binary marker = (.ok (), d')) :
    ∃ live, d.readFile binary = .ok live ∧
      d.writeFile marker (Text.Utf8.encode (Checksum.of live).hex) = .ok d' := by
  unfold writeMarker at h
  split at h
  · cases h
  · rename_i checksum hchecksum
    obtain ⟨live, hlive, rfl⟩ := readFile_of_ofFile hchecksum
    split at h
    · cases h
    · cases h
      exact ⟨live, hlive, Device.writeFile_eq_ok ‹_›⟩

/-- **A backup is taken** unless there is a marker: a copy that is made only once, then a marker. -/
theorem save_cases (h : save d binary copy marker = (.ok taken, d')) :
    d.isFile marker = true ∧ taken = false ∧ d' = d ∨
      d.isFile marker = false ∧ taken = true ∧ ∃ room placed live,
        makeRoom d copy = (.ok (), room) ∧
        (room.exists_ copy = true ∧ placed = room ∨
          room.exists_ copy = false ∧ room.copyFile binary copy = .ok placed) ∧
        placed.readFile binary = .ok live ∧
        placed.writeFile marker (Text.Utf8.encode (Checksum.of live).hex) = .ok d' := by
  unfold save at h
  split at h
  · cases h
    exact .inl ⟨‹_›, rfl, rfl⟩
  · rename_i hmarker
    split at h
    · cases h
    · rename_i placed hplaced
      obtain ⟨room, hroom, hkept⟩ := copyOnce_eq_ok hplaced
      split at h
      · cases h
      · rename_i hmarked
        cases h
        obtain ⟨live, hlive, hwrite⟩ := writeMarker_eq_ok hmarked
        exact .inr ⟨Bool.eq_false_iff.2 hmarker, rfl, room, placed, live, hroom, hkept, hlive,
          hwrite⟩

/-- What is made in a free place is a copy of the binary, unless a folder is in the way. -/
theorem copy_held {room placed : Disk} {content : Bytes} (hroom : makeRoom d copy = (.ok (), room))
    (hkept : room.exists_ copy = true ∧ placed = room ∨
      room.exists_ copy = false ∧ room.copyFile binary copy = .ok placed)
    (hcontent : d.entry? binary.place = some (.file content)) (hcopy : d.Vacant copy.place) :
    placed.entry? copy.place = some (.file content) ∨ placed.entry? copy.place = some .folder := by
  have hbinary : binary.place ≠ copy.place := by
    intro heq
    rw [heq] at hcontent
    rcases hcopy with hnone | hfolder
    · rw [hnone] at hcontent
      cases hcontent
    · rw [hfolder] at hcontent
      cases hcontent
  have hfolders := changesOnly_makeRoom d copy
  rw [hroom] at hfolders
  rcases hkept with ⟨hexists, rfl⟩ | ⟨-, hcopied⟩
  · obtain ⟨e, he⟩ := exists_of_exists_ hexists
    rcases hfolders.vacant id hcopy with hnone | hfolder
    · rw [hnone] at he
      cases he
    · exact Or.inr hfolder
  · obtain ⟨c, c', hc, hsame, hroot, -, rfl⟩ := copyFile_eq_ok hcopied
    rw [hfolders.kept _ _ id hcontent] at hc
    cases hc
    rw [hsame hbinary]
    exact Or.inl (entry?_put _ hroot)

/-- **A backup in a free place has the content of the binary.**  Only a folder can be in its way. -/
theorem save_held {content : Bytes} (h : save d binary copy marker = (.ok taken, d'))
    (hcontent : d.entry? binary.place = some (.file content)) (hcopy : d.Vacant copy.place)
    (hmarker : d.Vacant marker.place) (hne : copy.place ≠ marker.place) :
    d'.entry? copy.place = some (.file content) ∨ d'.entry? copy.place = some .folder := by
  rcases save_cases h with ⟨htaken, -⟩ | ⟨-, -, room, placed, live, hroom, hkept, -, hwrite⟩
  · rw [hmarker.isFile_eq_false] at htaken
    cases htaken
  · have hmarked := changesOnly_writeFile hwrite
    exact (copy_held hroom hkept hcontent hcopy).imp (hmarked.kept _ _ hne) (hmarked.kept _ _ hne)

end Taking

/-- No backup has been taken yet, and none will be taken inside of the folder of the binaries. -/
structure Unused (b : Backup) (l : Layout) (d : Disk) : Prop where
  absent : ∀ name n, b.Uses l name n → d.entry? n = none
  outside : ∀ name n, b.Uses l name n → ¬ l.managed.place <+: n

/-- A file that is there before the first run is in no backup. -/
theorem Unused.not_uses {b : Backup} {l : Layout} {d : Disk} {n : Names} {content : Bytes}
    (h : b.Unused l d) (hbefore : d.entry? n = some (.file content)) (name : String) :
    ¬ b.Uses l name n := by
  intro huses
  rw [h.absent name n huses] at hbefore
  cases hbefore

/-- The backup of the named binary has a content. -/
def Holds (b : Backup) (l : Layout) (d : Disk) (name : String) (content : Bytes) : Prop :=
  ∃ copy marker, b.Covers l name copy marker ∧ d.entry? copy.place = some (.file content)

end Backup

namespace Session

/-! ## What may be in the way -/

section Ways

variable (s : Session σ) (l : Layout) (ps : List Descriptor)

/-- An artifact is put at the place: into the cache, or beside the binary of its patch. -/
def PutsArtifact (n : Names) : Prop :=
  (s.cacheOf l).IsPlace n ∨ ∃ p ∈ ps, PutsBeside p (l.binaryOf p.assembly) n

/-- Something other than the backup of the named binary is put at the place. -/
def Occupies (name : String) (n : Names) : Prop :=
  s.PutsArtifact l ps n ∨
    ∃ other ∈ l.primaryName :: otherNames l.primaryName ps,
      other ≠ name ∧ (s.backupOf l).Uses l other n

/-- Nothing else is put where the backup of the named binary is. -/
def KeepsFree (name : String) : Prop :=
  ∀ n, (s.backupOf l).Uses l name n → ¬ s.Occupies l ps name n

/-- The backup of the named binary has the content, unless something else is put in its place or a
folder stands there. -/
def Saves (d : Disk) (name : String) (content : Bytes) : Prop :=
  s.KeepsFree l ps name →
    (s.backupOf l).Holds l d name content ∨
      ∃ n, (s.backupOf l).Uses l name n ∧ d.entry? n = some .folder

/-- No binary that can be opened stands where a backup is. -/
def StandsApart : Prop :=
  ∀ name ∈ otherNames l.primaryName ps, ∀ file, Backup.nameOf (l.assemblyPath name) = .ok file →
    ∀ other, ¬ (s.backupOf l).Uses l other (l.assemblyPath name).place

/-- What changes on the way to the second disk has nothing to do with the backup of the named binary,
or is something else that is put there. -/
abbrev Spares (name : String) (d d' : Disk) : Prop :=
  ChangesOnly (fun n => (s.backupOf l).Uses l name n → s.Occupies l ps name n) d d'

variable {s l ps} {d d' : Disk} {name : String} {n : Names}

theorem KeepsFree.kept {e : Entry} (hfree : s.KeepsFree l ps name) (h : s.Spares l ps name d d')
    (huses : (s.backupOf l).Uses l name n) (he : d.entry? n = some e) : d'.entry? n = some e :=
  h.kept n e (fun hoccupies => hfree n huses (hoccupies huses)) he

theorem KeepsFree.vacant (hfree : s.KeepsFree l ps name) (h : s.Spares l ps name d d')
    (huses : (s.backupOf l).Uses l name n) (hvacant : d.Vacant n) : d'.Vacant n :=
  ChangesOnly.vacant h (fun hoccupies => hfree n huses (hoccupies huses)) hvacant

/-- A copy that stays until the end is a backup. -/
theorem saves_of_entry {copy marker : Path} {content : Bytes}
    (hcovers : (s.backupOf l).Covers l name copy marker)
    (h : s.KeepsFree l ps name → d.entry? copy.place = some (.file content) ∨
      d.entry? copy.place = some .folder) : s.Saves l ps d name content := by
  intro hfree
  rcases h hfree with hfile | hfolder
  · exact Or.inl ⟨copy, marker, hcovers, hfile⟩
  · exact Or.inr ⟨copy.place, ⟨copy, marker, hcovers, Or.inl rfl⟩, hfolder⟩

end Ways

/-! ## Written binaries -/

section Written

variable [Device] (s : Session σ) (l : Layout) (b : Backup) (ps : List Descriptor) (w : World σ)

theorem eq_of_mem_written_patchBinary {binary q : Path} {a : Assembly} {group : List Descriptor}
    (h : q ∈ (s.patchBinary w binary a group).1.written) : q = binary := by
  rcases s.patchBinary_cases w a binary group with
    ⟨-, hturn⟩ | ⟨-, ⟨w', -, hturn⟩ | ⟨e, w', -, hturn⟩⟩ <;> rw [hturn] at h
  · cases h
  · exact List.mem_singleton.1 h
  · cases h

theorem eq_of_mem_written_patchPrimary {q : Path} {a : Assembly}
    (h : q ∈ (s.patchPrimary l w a ps).1.written) : q = l.primary := by
  rcases s.patchPrimary_cases w a l ps with ⟨-, hturn⟩ | ⟨-, hturn⟩ <;> rw [hturn] at h
  · cases h
  · exact s.eq_of_mem_written_patchBinary w h

/-- Another binary that is written was opened. -/
theorem opened_of_mem_written {name : String} {q : Path} {group : List Descriptor}
    (h : q ∈ (s.patchOther l b w name group).1.written) :
    q = l.assemblyPath name ∧ ∃ a w₁, s.openOther l b w (l.assemblyPath name) = (.ok a, w₁) ∧
      s.patchOther l b w name group = s.patchBinary w₁ (l.assemblyPath name) a group := by
  rcases s.patchOther_cases w l b name group with
    ⟨e, w₁, -, hturn⟩ | ⟨a, w₁, hopen, hturn⟩ <;> rw [hturn] at h
  · cases h
  · exact ⟨s.eq_of_mem_written_patchBinary w₁ h, a, w₁, hopen, hturn⟩

/-- A binary that is opened has a file name, and a backup has been taken. -/
theorem save_of_openOther {binary : Path} {a : Assembly} {w₁ : World σ}
    (h : s.openOther l b w binary = (.ok a, w₁)) :
    ∃ file taken, Backup.nameOf binary = .ok file ∧
      Backup.save w.disk binary (b.otherCopy file) (Backup.markerOf (b.otherCopy file)) =
        (.ok taken, w₁.disk) := by
  rcases s.openOther_cases w l b binary with ⟨e, disk, -, hopen⟩ | ⟨taken, disk, hsave, hopen⟩ <;>
    rw [hopen] at h
  · cases h
  · obtain rfl : disk = w₁.disk := congrArg (fun r => World.disk r.2) h
    unfold Backup.saveOther at hsave
    split at hsave
    · cases hsave
    · rename_i file hfile
      exact ⟨file, taken, hfile, hsave⟩

end Written

/-! ## The turns -/

section Turns

variable [Device] {s : Session σ} {l : Layout} {ps : List Descriptor}
  (hapart : s.StandsApart l ps)
variable {name other : String} {w : World σ}

include hapart

/-- No binary that is opened stands where a backup is. -/
theorem not_uses_of_opened {binary : Assembly} {w₁ : World σ}
    (hname : name ∈ otherNames l.primaryName ps)
    (hopen : s.openOther l (s.backupOf l) w (l.assemblyPath name) = (.ok binary, w₁)) :
    ¬ (s.backupOf l).Uses l other (l.assemblyPath name).place := by
  obtain ⟨file, taken, hfile, -⟩ := s.save_of_openOther l (s.backupOf l) w hopen
  exact hapart name hname file hfile other

variable (hstore : s.store.WritesOneFile)
include hstore

omit hapart in
/-- The turn of an open binary touches no backup, but where it puts artifacts. -/
theorem spares_turn (hbinary : ¬ (s.backupOf l).Uses l name (l.binaryOf other).place) (w : World σ)
    (a : Assembly) : s.Spares l ps name w.disk
      (s.patchBinary w (l.binaryOf other) a (groupOf other ps)).2.disk := by
  have hturn := s.changesOnly_turn (l.binaryOf other) hstore w a (groupOf other ps)
  refine hturn.mono fun n hn huses => ?_
  rcases hn with ⟨p, hp, hputs⟩ | rfl
  · rw [← assembly_of_mem_groupOf ps hp] at hputs
    exact Or.inl (Or.inr ⟨p, mem_of_mem_groupOf ps hp, hputs⟩)
  · exact absurd huses hbinary

/-- From when it is open the turn of another binary touches no backup, but where it puts artifacts. -/
theorem spares_of_opened {a : Assembly} {w₁ : World σ} (hname : name ∈ otherNames l.primaryName ps)
    (hopen : s.openOther l (s.backupOf l) w (l.assemblyPath name) = (.ok a, w₁)) :
    s.Spares l ps other w₁.disk
      (s.patchBinary w₁ (l.assemblyPath name) a (groupOf name ps)).2.disk := by
  have hbinary : l.binaryOf name = l.assemblyPath name := if_neg (mem_otherNames.1 hname).1
  rw [← hbinary]
  exact spares_turn hstore (hbinary ▸ not_uses_of_opened hapart hname hopen) w₁ a

theorem spares_patchOther (hother : other ∈ otherNames l.primaryName ps) (hne : name ≠ other) :
    s.Spares l ps name w.disk
      (s.patchOther l (s.backupOf l) w other (groupOf other ps)).2.disk := by
  have hopening := changesOnly_openOther (s := s) l (s.backupOf l) w (mem_otherNames.1 hother).1
  have hopened : s.Spares l ps name w.disk
      (s.openOther l (s.backupOf l) w (l.assemblyPath other)).2.disk :=
    hopening.mono fun n hn _ => Or.inr ⟨other, List.mem_cons_of_mem _ hother, Ne.symm hne, hn⟩
  rcases s.patchOther_cases w l (s.backupOf l) other (groupOf other ps) with
    ⟨e, w₁, hresult, hturn⟩ | ⟨a, w₁, hresult, hturn⟩ <;> rw [hturn] <;> rw [hresult] at hopened
  · exact hopened
  · exact hopened.trans (spares_of_opened hapart hstore hother hresult)

theorem spares_patchOthers {names : List String} (hname : name ∉ names)
    (hnames : ∀ name ∈ names, name ∈ otherNames l.primaryName ps) :
    s.Spares l ps name w.disk (s.patchOthers l (s.backupOf l) ps w names).2.disk := by
  induction names generalizing w with
  | nil => exact ChangesOnly.refl _ _
  | cons other names ih =>
    obtain ⟨hne, hname⟩ := List.ne_and_not_mem_of_not_mem_cons hname
    obtain ⟨hother, hnames⟩ := List.forall_mem_cons.1 hnames
    rw [patchOthers_cons]
    exact (spares_patchOther hapart hstore hother hne).trans (ih hname hnames)

omit hstore
variable (hwrites : s.store.WritesInPlace)
include hwrites

variable {n : Names} {content : Bytes}

/-- A binary that is written in its turn is saved before, if there is room for its backup. -/
theorem saves_of_mem_written {names : List String} {q : Path}
    (hname : name ∈ otherNames l.primaryName ps) (hnew : name ∉ names)
    (hnames : ∀ name ∈ names, name ∈ otherNames l.primaryName ps)
    (hvacant : s.KeepsFree l ps name → ∀ m, (s.backupOf l).Uses l name m → w.disk.Vacant m)
    (hbefore : w.disk.entry? q.place = some (.file content))
    (hwritten : q ∈ (s.patchOther l (s.backupOf l) w name (groupOf name ps)).1.written) :
    s.Saves l ps (s.patchOthers l (s.backupOf l) ps
      (s.patchOther l (s.backupOf l) w name (groupOf name ps)).2 names).2.disk name content := by
  obtain ⟨rfl, a, w₁, hopen, hturn⟩ := s.opened_of_mem_written l (s.backupOf l) w hwritten
  obtain ⟨file, taken, hfile, hsave⟩ := s.save_of_openOther l (s.backupOf l) w hopen
  have hcovers := Backup.Covers.other (b := s.backupOf l) (mem_otherNames.1 hname).1 hfile
  refine saves_of_entry hcovers fun hfree => ?_
  have hcopy : (s.backupOf l).Uses l name ((s.backupOf l).otherCopy file).place :=
    ⟨_, _, hcovers, Or.inl rfl⟩
  have hmarker := hvacant hfree _ ⟨_, _, hcovers, Or.inr rfl⟩
  have hheld := Backup.save_held hsave hbefore (hvacant hfree _ hcopy) hmarker hcovers.place_ne
  have hlater : s.Spares l ps name w₁.disk (s.patchOthers l (s.backupOf l) ps
      (s.patchOther l (s.backupOf l) w name (groupOf name ps)).2 names).2.disk := by
    rw [hturn]
    exact (spares_of_opened hapart hwrites.others hname hopen).trans
      (spares_patchOthers hapart hwrites.others hnew hnames)
  exact hheld.imp (hfree.kept hlater hcopy) (hfree.kept hlater hcopy)

/-- **The first turn that changes a file has saved it.**  The file is neither in a backup nor replaced
by an artifact, and there is room for the backups that are still to be taken. -/
theorem saves_of_changed_by_others {names : List String} (hnodup : names.Nodup)
    (hnames : ∀ name ∈ names, name ∈ otherNames l.primaryName ps)
    (hfile : ∀ name, ¬ (s.backupOf l).Uses l name n) (hartifact : ¬ s.PutsArtifact l ps n)
    (hvacant : ∀ name ∈ names, s.KeepsFree l ps name →
      ∀ m, (s.backupOf l).Uses l name m → w.disk.Vacant m)
    (hbefore : w.disk.entry? n = some (.file content))
    (hafter : Disk.entry? (s.patchOthers l (s.backupOf l) ps w names).2.disk n ≠
      some (.file content)) :
    ∃ name ∈ names, (l.assemblyPath name).place = n ∧
      s.Saves l ps (s.patchOthers l (s.backupOf l) ps w names).2.disk name content := by
  induction names generalizing w with
  | nil => exact absurd hbefore hafter
  | cons name names ih =>
    obtain ⟨hname, hnames⟩ := List.forall_mem_cons.1 hnames
    obtain ⟨hnew, hnodup⟩ := List.nodup_cons.1 hnodup
    have hturn := changesOnly_patchOther hwrites l (s.backupOf l) ps w (mem_otherNames.1 hname).1
    rw [patchOthers_cons] at hafter ⊢
    by_cases hsame : Disk.entry? (s.patchOther l (s.backupOf l) w name (groupOf name ps)).2.disk n =
        some (.file content)
    · have hvacant' : ∀ name' ∈ names, s.KeepsFree l ps name' → ∀ m,
          (s.backupOf l).Uses l name' m → Disk.Vacant
            (s.patchOther l (s.backupOf l) w name (groupOf name ps)).2.disk m := by
        intro name' hname' hfree m huses
        have hne : name' ≠ name := fun heq => hnew (heq ▸ hname')
        exact hfree.vacant (spares_patchOther hapart hwrites.others hname hne) huses
          (hvacant name' (List.mem_cons_of_mem _ hname') hfree m huses)
      obtain ⟨name', hname', hplace, hsaves⟩ :=
        ih hnodup hnames hvacant' hsame hafter
      exact ⟨name', List.mem_cons_of_mem _ hname', hplace, hsaves⟩
    · have htouches := Classical.byContradiction fun hnot => hsame (hturn.kept n _ hnot hbefore)
      cases htouches with
      | backup mem uses => exact absurd uses (hfile _)
      | artifact mem puts => exact absurd (Or.inr ⟨_, mem, puts⟩) hartifact
      | binary mem place =>
        subst place
        have hbinary := (s.opened_of_mem_written l (s.backupOf l) w mem).1
        exact ⟨name, List.mem_cons_self, congrArg Path.place hbinary.symm,
          saves_of_mem_written hapart hwrites hname hnew hnames (hvacant name List.mem_cons_self)
            hbefore mem⟩

end Turns

/-! ## A whole run -/

theorem spares_of_cache {s : Session σ} {l : Layout} {ps : List Descriptor} {name : String}
    {d d' : Disk} (h : ChangesOnly (s.cacheOf l).IsPlace d d') :
    s.Spares l ps name d d' := h.mono fun _ hn _ => Or.inl (Or.inl hn)

section Runs

variable [Device] {s : Session σ} {l : Layout} {ps : List Descriptor} {name : String}

/-- Setting up a game takes no place that the backup of another binary needs. -/
theorem spares_setUp (hne : name ≠ l.primaryName) (d : Disk) :
    s.Spares l ps name d (s.setUp l d).2 :=
  (s.changesOnly_setUp l d).mono fun _ hn _ =>
    Or.inr ⟨l.primaryName, List.mem_cons_self, Ne.symm hne, hn⟩

variable {w w₁ : World σ} {game : Path} {primary : Assembly} {prepared : Sources.Prepared}

/-- Binaries are in the folder of the binaries, and backups are not. -/
theorem standsApart_of_outside (hbegins : s.Begins w game l primary prepared w₁)
    (houtside : ∀ name n, (s.backupOf l).Uses l name n → ¬ l.managed.place <+: n)
    (hprimary : ∀ name, ¬ (s.backupOf l).Uses l name l.primary.place) :
    s.StandsApart l prepared.ready := by
  intro name hname file hfile other huses
  obtain ⟨-, p, hp, rfl⟩ := mem_otherNames.1 hname
  rcases hbegins.assembly_cases p hp with hset | hseparator
  · have hplace : l.assemblyPath p.assembly = l.primary := by
      rw [hset, (Layout.primary_of_discover hbegins.layout).1]
    rw [hplace] at huses
    exact hprimary other huses
  · exact houtside other _ huses (Layout.managed_isPrefix_place hseparator hfile)

section Apart

variable (hbegins : s.Begins w game l primary prepared w₁) (hunused : (s.backupOf l).Unused l w.disk)
include hbegins hunused

/-- The primary binary is there when there is no backup yet, so it is in none. -/
theorem not_uses_primary (other : String) : ¬ (s.backupOf l).Uses l other l.primary.place := by
  obtain ⟨-, hfile⟩ := Layout.primary_of_discover hbegins.layout
  obtain ⟨content, hcontent⟩ := exists_of_isFile hfile
  exact hunused.not_uses hcontent other

theorem standsApart_of_begins : s.StandsApart l prepared.ready :=
  standsApart_of_outside hbegins hunused.outside (not_uses_primary hbegins hunused)

end Apart

theorem spares_patchPrimary (hstore : s.store.WritesOneFile)
    (hprimary : ¬ (s.backupOf l).Uses l name l.primary.place) (w : World σ) (a : Assembly) :
    s.Spares l ps name w.disk (s.patchPrimary l w a ps).2.disk := by
  have hbinary : l.binaryOf l.primaryName = l.primary := if_pos rfl
  have hturn : s.Spares l ps name w.disk
      (s.patchBinary w l.primary a (groupOf l.primaryName ps)).2.disk := by
    rw [← hbinary] at hprimary ⊢
    exact spares_turn hstore hprimary w a
  rcases s.patchPrimary_cases w a l ps with ⟨-, hends⟩ | ⟨-, hends⟩ <;> rw [hends]
  · exact ChangesOnly.refl _ _
  · exact hturn

/-- All turns together do not touch the backup of the primary binary. -/
theorem spares_patchAll (hstore : s.store.WritesOneFile) (hapart : s.StandsApart l ps)
    (hprimary : ¬ (s.backupOf l).Uses l l.primaryName l.primary.place) (w : World σ) (a : Assembly) :
    s.Spares l ps l.primaryName w.disk (s.patchAll l (s.backupOf l) w a ps).2.disk := by
  have hothers := spares_patchOthers hapart hstore (w := (s.patchPrimary l w a ps).2)
    (not_mem_otherNames l.primaryName ps) fun _ hname => hname
  rw [patchAll_eq]
  exact (spares_patchPrimary hstore hprimary w a).trans hothers

variable (hstore : s.store.WritesInPlace)
include hstore
variable {n : Names} {content : Bytes}
variable (hbegins : s.Begins w game l primary prepared w₁) (hunused : (s.backupOf l).Unused l w.disk)
include hbegins hunused

/-- The primary binary is saved in every run, if there is room for its backup. -/
theorem saves_primary (hbefore : w.disk.entry? l.primary.place = some (.file content)) :
    s.Saves l prepared.ready
      (s.patchAll l (s.backupOf l) w₁ primary prepared.ready).2.disk l.primaryName content := by
  obtain ⟨placed, hsetUp, hready⟩ := s.changesOnly_of_begins l w hbegins
  obtain ⟨d₁, taken, hfolders, hsave⟩ := s.save_of_setUp l hsetUp
  have hcovers := Backup.Covers.primary (b := s.backupOf l) (l := l)
  have hcopy : (s.backupOf l).Uses l l.primaryName (s.backupOf l).primaryCopy.place :=
    ⟨_, _, hcovers, Or.inl rfl⟩
  have hvacant : ∀ m, (s.backupOf l).Uses l l.primaryName m → d₁.Vacant m := fun m huses =>
    hfolders.vacant id (Or.inl (hunused.absent _ m huses))
  have hheld := Backup.save_held hsave (hfolders.kept _ _ id hbefore) (hvacant _ hcopy)
    (hvacant _ ⟨_, _, hcovers, Or.inr rfl⟩) hcovers.place_ne
  have hlater := (spares_of_cache hready).trans
    (spares_patchAll hstore.others (standsApart_of_begins hbegins hunused)
      (not_uses_primary hbegins hunused _) w₁ primary)
  exact saves_of_entry hcovers fun hfree =>
    hheld.imp (hfree.kept hlater hcopy) (hfree.kept hlater hcopy)

omit hstore in
/-- What is no artifact is as it was when the sources are ready. -/
theorem kept_of_begins (hartifact : ¬ s.PutsArtifact l prepared.ready n)
    (hbefore : w.disk.entry? n = some (.file content)) :
    w₁.disk.entry? n = some (.file content) := by
  obtain ⟨placed, hsetUp, hready⟩ := s.changesOnly_of_begins l w hbegins
  have hplaced := s.changesOnly_setUp l w.disk
  rw [hsetUp] at hplaced
  exact hready.kept _ _ (fun hplace => hartifact (Or.inl hplace))
    (hplaced.kept _ _ (hunused.not_uses hbefore _) hbefore)

/-- A file that is changed is replaced by an artifact, or a binary that is listed as written. -/
theorem mem_written_of_changed (hartifact : ¬ s.PutsArtifact l prepared.ready n)
    (hbefore : w.disk.entry? n = some (.file content))
    (hafter : Disk.entry? (s.patchAll l (s.backupOf l) w₁ primary prepared.ready).2.disk n ≠
      some (.file content)) :
    ∃ q ∈ (s.patchAll l (s.backupOf l) w₁ primary prepared.ready).1.written, q.place = n := by
  have hturns := changesOnly_patchAll hstore l (s.backupOf l) prepared.ready w₁ primary
  have hopened := kept_of_begins hbegins hunused hartifact hbefore
  have htouches := Classical.byContradiction fun hnot => hafter (hturns.kept n _ hnot hopened)
  cases htouches with
  | backup mem uses => exact absurd uses (hunused.not_uses hbefore _)
  | artifact mem puts => exact absurd (Or.inr ⟨_, mem, puts⟩) hartifact
  | binary mem place => exact ⟨_, mem, place.symm⟩

/-- A file that is changed, but for the primary binary and for artifacts, is another binary that was
saved. -/
theorem saves_of_changed (hprimary : n ≠ l.primary.place)
    (hartifact : ¬ s.PutsArtifact l prepared.ready n)
    (hbefore : w.disk.entry? n = some (.file content))
    (hafter : Disk.entry? (s.patchAll l (s.backupOf l) w₁ primary prepared.ready).2.disk n ≠
      some (.file content)) :
    ∃ name ∈ otherNames l.primaryName prepared.ready, (l.assemblyPath name).place = n ∧
      s.Saves l prepared.ready
        (s.patchAll l (s.backupOf l) w₁ primary prepared.ready).2.disk name content := by
  have hfile := hunused.not_uses hbefore
  have hturn := changesOnly_patchPrimary hstore l (s.backupOf l) prepared.ready w₁ primary
  have hopened := kept_of_begins hbegins hunused hartifact hbefore
  have hturned : Disk.entry? (s.patchPrimary l w₁ primary prepared.ready).2.disk n =
      some (.file content) := by
    refine hturn.kept _ _ (fun htouches => ?_) hopened
    cases htouches with
    | backup mem uses => exact hfile _ uses
    | artifact mem puts => exact hartifact (Or.inr ⟨_, mem, puts⟩)
    | binary mem place =>
      rw [s.eq_of_mem_written_patchPrimary l prepared.ready w₁ mem] at place
      exact hprimary place
  -- up to here nothing has taken the places of the other backups
  have hvacant : ∀ name ∈ otherNames l.primaryName prepared.ready,
      s.KeepsFree l prepared.ready name → ∀ m, (s.backupOf l).Uses l name m →
        Disk.Vacant (s.patchPrimary l w₁ primary prepared.ready).2.disk m := by
    intro name hname hfree m huses
    obtain ⟨placed, hsetUp, hready⟩ := s.changesOnly_of_begins l w hbegins
    have hplaced : s.Spares l prepared.ready name w.disk (s.setUp l w.disk).2 :=
      spares_setUp (mem_otherNames.1 hname).1 w.disk
    rw [hsetUp] at hplaced
    have hspares := (hplaced.trans (spares_of_cache hready)).trans
      (spares_patchPrimary hstore.others (not_uses_primary hbegins hunused name) w₁ primary)
    exact hfree.vacant hspares huses (Or.inl (hunused.absent name m huses))
  rw [patchAll_eq] at hafter ⊢
  exact saves_of_changed_by_others (standsApart_of_begins hbegins hunused) hstore
    (nodup_otherNames _ _) (fun _ hname => hname) hfile hartifact hvacant hturned hafter

end Runs

/-- **What a run changes is listed as written, and saved**, but for files that are replaced by
artifacts.  Before the run there is no backup of the game. A backup fails to have the content that the
binary had before only when something else is put in its place or a folder stands there. A run that
ends early changes no file. -/
theorem saved_of_changed [Device] {s : Session σ} {l : Layout} {w : World σ} {game : Path} {n : Names}
    {content : Bytes} (hlayout : Layout.discover w.disk game s.settings = .ok l)
    (hstore : s.store.WritesInPlace) (hunused : (s.backupOf l).Unused l w.disk)
    (hbefore : w.disk.entry? n = some (.file content))
    (hafter : Disk.entry? (s.patch w game).2.disk n ≠ some (.file content)) :
    ∃ report primary prepared w₁, (s.patch w game).1 = .ok report ∧
      s.Begins w game l primary prepared w₁ ∧
      (s.PutsArtifact l prepared.ready n ∨
        (∃ q ∈ report.written, q.place = n) ∧
          ∃ name ∈ l.primaryName :: otherNames l.primaryName prepared.ready,
            (l.binaryOf name).place = n ∧
              s.Saves l prepared.ready (s.patch w game).2.disk name content) := by
  rcases s.patch_cases w game with ⟨e, herror, -⟩ | ⟨l', primary, prepared, w₁, hbegins, -, hpatch⟩
  · have hframe := s.changesOnly_patch_of_error l w hlayout herror
    exact absurd (hframe.kept n _ (hunused.not_uses hbefore _) hbefore) hafter
  · obtain rfl : l' = l := Except.ok.inj (hbegins.layout.symm.trans hlayout)
    refine ⟨_, primary, prepared, w₁, congrArg Prod.fst hpatch, hbegins, ?_⟩
    rw [hpatch] at hafter ⊢
    by_cases hartifact : s.PutsArtifact l' prepared.ready n
    · exact Or.inl hartifact
    · refine Or.inr ⟨mem_written_of_changed hstore hbegins hunused hartifact hbefore hafter, ?_⟩
      by_cases hprimary : n = l'.primary.place
      · subst hprimary
        exact ⟨l'.primaryName, List.mem_cons_self, congrArg Path.place (if_pos rfl),
          saves_primary hstore hbegins hunused hbefore⟩
      · obtain ⟨name, hname, hplace, hsaves⟩ :=
          saves_of_changed hstore hbegins hunused hprimary hartifact hbefore hafter
        refine ⟨name, List.mem_cons_of_mem _ hname, ?_, hsaves⟩
        rw [Layout.binaryOf, if_neg (mem_otherNames.1 hname).1, hplace]

end Session

/-! ## A binary that is replaced by an artifact -/

namespace Sample

theorem writesInPlace_store : store.WritesInPlace where
  others state d a p n hn := by
    dsimp only [store]
    split
    · rename_i d' hwrite
      rw [(writeFile_eq_ok hwrite).1]
      exact entry?_put_of_ne _ hn
    · rfl
  failed state d a p e h n := by
    dsimp only [store] at h ⊢
    split
    · rename_i d' hwrite
      rw [hwrite] at h
      cases h
    · rfl

/-- All backups of the game are in one folder of the root. -/
theorem exists_of_uses {name : String} {n : Names}
    (h : (session.backupOf layout).Uses layout name n) : ∃ rest, n = "Games" :: rest := by
  have hinside : ∀ file : String, Path.separator ∉ file.toList →
      ∃ rest, ((session.backupOf layout).otherCopy file).place = "Games" :: rest := by
    intro file hfile
    have hfolder : ((session.backupOf layout).folder.child (session.backupOf layout).game).place =
        ["Games", "D"] := by
      decide +kernel
    rw [Backup.otherCopy, Path.place_child _ hfile, hfolder]
    unfold Path.descend
    split
    · exact ⟨["D"], rfl⟩
    · split
      · exact ⟨[], rfl⟩
      · exact ⟨["D", file], rfl⟩
  obtain ⟨copy, marker, hcovers, hplace⟩ := h
  cases hcovers with
  | primary =>
    rcases hplace with rfl | rfl
    · exact ⟨["D.dll"], by decide +kernel⟩
    · exact ⟨["D.md5"], by decide +kernel⟩
  | @other _ file other file_eq =>
    have hfile : Path.separator ∉ file.toList := by
      unfold Backup.nameOf at file_eq
      split at file_eq
      · rename_i hfound
        cases file_eq
        exact Path.separator_not_mem_fileName hfound
      · cases file_eq
    rcases hplace with rfl | rfl
    · exact hinside file hfile
    · rw [Backup.markerOf, Backup.otherCopy, ← Path.child_append _ _ (by decide)]
      refine hinside (file ++ ".md5") ?_
      rw [String.toList_append, List.mem_append, not_or]
      exact ⟨hfile, by decide⟩

theorem unused_disk : (session.backupOf layout).Unused layout disk where
  absent name n h := by
    obtain ⟨rest, rfl⟩ := exists_of_uses h
    have hnone : ∀ x ∈ disk.entries, ¬ (x.1 == "Games" :: rest) = true := by
      intro x hx hkey
      have hhead : ∀ x ∈ disk.entries, x.1.head? ≠ some "Games" := by
        decide +kernel
      exact hhead x hx (by rw [beq_iff_eq.1 hkey, List.head?_cons])
    rw [ entry?, if_neg (List.cons_ne_nil _ _), List.find?_eq_none.2 hnone, Option.map_none]
  outside name n h := by
    obtain ⟨rest, rfl⟩ := exists_of_uses h
    have hmanaged : layout.managed.place = ["g", "D_Data", "Managed"] := by
      decide +kernel
    rw [hmanaged]
    intro hbelow
    exact absurd (List.cons_prefix_cons.1 hbelow).1 (by decide)

/-- The names of a binary of the game. -/
def binary (file : String) : Names := ["g", "D_Data", "Managed", file]

/-- The primary binary is changed, and so it is listed and saved. -/
theorem saved_primary :
    Layout.discover start.disk ⟨"/g"⟩ session.settings = .ok layout ∧
      session.store.WritesInPlace ∧ (session.backupOf layout).Unused layout start.disk ∧
      start.disk.entry? (binary "Assembly-CSharp.dll") = some (.file [1]) ∧
      Disk.entry? (session.patch start ⟨"/g"⟩).2.disk (binary "Assembly-CSharp.dll") ≠
        some (.file [1]) ∧
      (session.backupOf layout).Holds layout (session.patch start ⟨"/g"⟩).2.disk
        layout.primaryName [1] ∧
      ∃ report primary prepared w₁, (session.patch start ⟨"/g"⟩).1 = .ok report ∧
        session.Begins start ⟨"/g"⟩ layout primary prepared w₁ ∧
        (session.PutsArtifact layout prepared.ready (binary "Assembly-CSharp.dll") ∨
          (∃ q ∈ report.written, q.place = binary "Assembly-CSharp.dll") ∧
            ∃ name ∈ layout.primaryName :: Session.otherNames layout.primaryName prepared.ready,
              (layout.binaryOf name).place = binary "Assembly-CSharp.dll" ∧
                session.Saves layout prepared.ready (session.patch start ⟨"/g"⟩).2.disk name
                  [1]) := by
  obtain ⟨report, -, hworld, -, -⟩ := patch_start
  obtain ⟨-, -, -, -, hchanged, -, hcopy⟩ := finished_eq
  have hbefore : start.disk.entry? (binary "Assembly-CSharp.dll") = some (.file [1]) := by
    decide +kernel
  have hafter : Disk.entry? (session.patch start ⟨"/g"⟩).2.disk (binary "Assembly-CSharp.dll") ≠
      some (.file [1]) := by
    rw [hworld, binary, hchanged]
    decide
  have hholds : (session.backupOf layout).Holds layout (session.patch start ⟨"/g"⟩).2.disk
      layout.primaryName [1] := by
    have hplace : (session.backupOf layout).primaryCopy.place = ["Games", "D.dll"] := by
      decide +kernel
    exact ⟨_, _, .primary, by rw [hworld, hplace, hcopy]⟩
  exact ⟨discover_disk, writesInPlace_store, unused_disk, hbefore, hafter, hholds,
    Session.saved_of_changed discover_disk writesInPlace_store unused_disk hbefore hafter⟩

/-- A binary of the game is replaced by the artifact that has its name. It is not listed as written, and
what it was is nowhere any more. -/
theorem replaced_by_artifact :
    session.store.WritesInPlace ∧ (session.backupOf layout).Unused layout start.disk ∧
      start.disk.entry? (binary "B.dll") = some (.file [2]) ∧
      ∃ report, (session.patch start ⟨"/g"⟩).1 = .ok report ∧
        Disk.entry? (session.patch start ⟨"/g"⟩).2.disk (binary "B.dll") = some (.file [3]) ∧
        (∀ q ∈ report.written, q.place ≠ binary "B.dll") ∧
        ∀ n, Disk.entry? (session.patch start ⟨"/g"⟩).2.disk n ≠ some (.file [2]) := by
  obtain ⟨report, hreport, hworld, -, hwritten⟩ := patch_start
  obtain ⟨-, hlisted, -, hreplaced, -, hgone, -⟩ := finished_eq
  refine ⟨writesInPlace_store, unused_disk, by decide +kernel, report, hreport, ?_, ?_, ?_⟩
  · rw [hworld, binary, hreplaced]
  · rw [hwritten, hlisted]
    decide +kernel
  · intro n hn
    rw [hworld] at hn
    unfold Disk.entry? at hn
    split at hn
    · cases hn
    · obtain ⟨x, hx, hcontent⟩ := Option.map_eq_some_iff.1 hn
      exact hgone x (List.mem_of_find?_eq_some hx) hcontent

end Sample

end CilGraft
