import CilGraft.Proofs.Accesses
import CilGraft.Proofs.FilledPlaces

/-!
# Files that are kept

A file is kept when it can be read as before. An access keeps every file but the one in its own place, and
a backup keeps those in its places, too: a copy is made only where nothing is, and a marker is written
only where no file was found. The one way around this is a marker behind a `..`, which is found only
after the folders on its way have been created.

* `Disk.KeepsFile` — what was read is still read; `KeepsFile.of_changesOnly`.
* `Reaches.of_direct` — a path without `..` leads to every place whose folders exist.
* `Backup.keepsFile_save` — a backup keeps a file, wherever it is.
* `Session.SparesFile` — no turn puts something in the place of a file; `keepsFile_patchAll`.
* `World.AsksNothing` — the compiler is not asked; `asksNothing_patchAll`, not in any turn.
-/

set_option autoImplicit false

namespace CilGraft

open Disk

variable {σ : Type}

namespace Disk

variable {d d' d'' : Disk} {p q : Path} {at_ folder n : Names} {name : String}

/-! ## Keeping a file -/

/-- A file that can be read is still read as it was. -/
def KeepsFile (q : Path) (d d' : Disk) : Prop :=
  ∀ content, d.readFile q = .ok content → d'.readFile q = .ok content

theorem KeepsFile.refl (q : Path) (d : Disk) : KeepsFile q d d := fun _ h => h

theorem KeepsFile.trans (h : KeepsFile q d d') (h' : KeepsFile q d' d'') : KeepsFile q d d'' :=
  fun content hread => h' content (h content hread)

theorem KeepsFile.isFile (h : KeepsFile q d d') (hfile : d.isFile q = true) : d'.isFile q = true := by
  obtain ⟨content, hread⟩ := isFile_eq_true_iff.1 hfile
  exact isFile_eq_true_iff.2 ⟨content, h content hread⟩

/-- What changes other places and loses no folder keeps the file. -/
theorem KeepsFile.of_changesOnly {touched : Names → Prop} (h : ChangesOnly touched d d')
    (hfolders : KeepsFolders d d') (hq : ¬ touched q.place) : KeepsFile q d d' :=
  fun _ hread => readFile_mono hread hfolders (h.kept _ _ hq)

/-- A folder stays where it is when no folder is lost. -/
theorem KeepsFolders.isFolder (h : KeepsFolders d d') (hp : d.isFolder p = true) :
    d'.isFolder p = true := by
  obtain ⟨hwalk, hfolder⟩ := isFolder_eq_true_iff.1 hp
  obtain ⟨⟨⟩, hpath, hwalk⟩ := bind_eq_ok_iff.1 hwalk
  exact isFolder_eq_true_iff.2
    ⟨bind_eq_ok_iff.2 ⟨(), hpath, walkFrom_mono h hwalk hfolder⟩, h _ hfolder⟩

/-! ## Paths without `..` -/

/-- A walk without `..` only goes down. -/
theorem prefix_of_walkFrom {ps : List String} (hdirect : ".." ∉ ps)
    (h : d.walkFrom at_ ps = .ok n) : at_ <+: n := by
  induction ps generalizing at_ with
  | nil =>
    cases h
    exact List.prefix_rfl
  | cons piece ps ih =>
    obtain ⟨hpiece, hdirect⟩ := List.ne_and_not_mem_of_not_mem_cons hdirect
    obtain ⟨-, next, hpasses, h⟩ := walkFrom_cons_eq_ok_iff.1 h
    refine List.IsPrefix.trans ?_ (ih hdirect h)
    cases hpasses with
    | stays => exact List.prefix_rfl
    | up _ parent => exact absurd parent.symm hpiece
    | down => exact List.prefix_append at_ [piece]

/-- A walk without `..` needs the folders above its end, and nothing else. -/
theorem walkFrom_of_folders {ps : List String} (hdirect : ".." ∉ ps) (h : d.walkFrom at_ ps = .ok n)
    (hfolders : ∀ m, m <+: n → d'.isFolderAt m = true) : d'.walkFrom at_ ps = .ok n := by
  induction ps generalizing at_ with
  | nil => exact h
  | cons piece ps ih =>
    have hstart := hfolders _ (prefix_of_walkFrom hdirect h)
    obtain ⟨-, hdirect⟩ := List.ne_and_not_mem_of_not_mem_cons hdirect
    obtain ⟨-, next, hpasses, h⟩ := walkFrom_cons_eq_ok_iff.1 h
    have hnext := hfolders _ (prefix_of_walkFrom hdirect h)
    exact walkFrom_cons_eq_ok_iff.2 ⟨hstart, next, hpasses.of_isFolderAt hnext, ih hdirect h⟩

/-- A path without `..` that leads to a place on one disk leads there on every disk that has the folders
on the way. -/
theorem Reaches.of_direct (h : d.Reaches p folder name) (hdirect : ".." ∉ p.pieces)
    (habove : d'.FoldersAbove p.place) : d'.Reaches p folder name := by
  obtain ⟨front, hpieces, hwalk⟩ := h.pieces
  have hfolders : ∀ m, m <+: folder → d'.isFolderAt m = true := by
    intro m hm
    refine habove m (h.place_eq ▸ hm.trans (List.prefix_append folder [name])) ?_
    rintro rfl
    have hlength := hm.length_le
    rw [h.place_eq, List.length_append, List.length_singleton] at hlength
    omega
  have hfront : ".." ∉ front := by
    rw [hpieces] at hdirect
    exact fun hmem => hdirect (List.mem_append_left _ hmem)
  exact ⟨h.path, ⟨front, hpieces, walkFrom_of_folders hfront hwalk hfolders⟩,
    hfolders folder List.prefix_rfl, h.isIdle, h.ne_parent, h.size_le⟩

/-- All folders above a file that can be read exist. -/
theorem foldersAbove_of_readFile {content : Bytes} (h : d.readFile q = .ok content) :
    d.FoldersAbove q.place := by
  obtain ⟨folder, name, hreaches, -⟩ := readFile_eq_ok_iff.1 h
  obtain ⟨front, -, hwalk⟩ := hreaches.pieces
  have habove : d.FoldersAbove [] := fun m hm hne => absurd (List.prefix_nil.1 hm) hne
  rw [hreaches.place_eq]
  exact (foldersAbove_of_walkFrom hwalk habove).concat hreaches.isFolder

end Disk

/-! ## Backups -/

namespace Backup

variable [Device] {q : Path} (d : Disk) (binary copy marker : Path)

/-- A copy takes the place of nothing. -/
theorem keepsFile_copyOnce : KeepsFile q d (copyOnce d binary copy).2 := by
  have hroom : KeepsFile q d (makeRoom d copy).2 :=
    .of_changesOnly (changesOnly_makeRoom d copy) (keepsFolders.makeRoom d copy) id
  rcases disk_copyOnce d binary copy with hsame | ⟨hnone, hcopy⟩
  · rwa [hsame]
  · obtain ⟨part, hwrite⟩ := hcopy
    refine hroom.trans fun content hread => ?_
    obtain ⟨folder, name, hreaches, -, -⟩ := writeFile_eq_ok_iff.1 hwrite
    have hempty := hreaches.entry?_of_not_exists hnone
    refine (readFile_of_writeFile_of_ne hwrite fun hplace => ?_).2 hread
    obtain ⟨-, -, -, hfile⟩ := readFile_eq_ok_iff.1 hread
    rw [hplace, hempty] at hfile
    cases hfile

/-- A marker without `..` that was not found is not in the place of a file. -/
theorem keepsFile_writeMarker {before : Disk} (hnone : before.isFile marker = false)
    (hbefore : KeepsFile q before d) (hmarker : marker.place = q.place → ".." ∉ marker.pieces) :
    KeepsFile q before (writeMarker d binary marker).2 := by
  rcases disk_writeMarker d binary marker with hsame | ⟨stored, hwrite⟩
  · rwa [hsame]
  · intro content hread
    have hne : q.place ≠ marker.place := by
      intro hplace
      obtain ⟨folder, name, hreaches, -, -⟩ := writeFile_eq_ok_iff.1 hwrite
      have habove := foldersAbove_of_readFile hread
      obtain ⟨-, -, -, hfile⟩ := readFile_eq_ok_iff.1 hread
      rw [hplace] at habove hfile
      have hfound := isFile_eq_true_iff.2 ⟨content, readFile_eq_ok_iff.2
        ⟨folder, name, hreaches.of_direct (hmarker hplace.symm) habove, hfile⟩⟩
      rw [hnone] at hfound
      cases hfound
    exact (readFile_of_writeFile_of_ne hwrite hne).2 (hbefore content hread)

/-- **A backup keeps a file**, unless its marker is in the place of the file behind a `..`. -/
theorem keepsFile_save (hmarker : marker.place = q.place → ".." ∉ marker.pieces) :
    KeepsFile q d (save d binary copy marker).2 := by
  have hcopy := keepsFile_copyOnce d binary copy (q := q)
  rcases disk_save d binary copy marker with hsame | ⟨hnone, hsame | hsame⟩ <;> rw [hsame]
  · exact .refl q d
  · exact hcopy
  · exact keepsFile_writeMarker _ binary marker hnone hcopy hmarker

/-- No marker of the backups is in the place of the file behind a `..`. -/
def HasDirectMarkers (b : Backup) (l : Layout) (q : Path) : Prop :=
  ∀ name copy marker, b.Covers l name copy marker → marker.place = q.place → ".." ∉ marker.pieces

theorem keepsFile_saveOther {b : Backup} {l : Layout} (h : b.HasDirectMarkers l q) {name : String}
    (hother : name ≠ l.primaryName) : KeepsFile q d (b.saveOther d (l.assemblyPath name)).2 := by
  unfold saveOther
  split
  · exact .refl q d
  · rename_i hfile
    exact keepsFile_save d _ _ _ (h _ _ _ (.other hother hfile))

end Backup

namespace Session

/-- Setting up a game keeps a file. -/
theorem keepsFile_setUp [Device] {s : Session σ} {l : Layout} {q : Path}
    (h : (s.backupOf l).HasDirectMarkers l q) (d : Disk) : KeepsFile q d (s.setUp l d).2 := by
  have hfolders : KeepsFile q d (l.ensureFolders d).2 :=
    .of_changesOnly (Layout.changesOnly_ensureEach d l.workFolders)
      (keepsFolders.ensureEach d l.workFolders) id
  exact s.disk_setUp l KeepsFile.trans hfolders fun placed =>
    Backup.keepsFile_save placed _ _ _ (h _ _ _ .primary)

/-! ## Turns that keep a file -/

/-- The turns of a run put nothing in the place of the file: no artifact beside a binary, no binary, and no
marker behind a `..`. -/
structure SparesFile (s : Session σ) (l : Layout) (ps : List Descriptor) (q : Path) : Prop where
  beside : ∀ p ∈ ps, ¬ PutsBeside p (l.binaryOf p.assembly) q.place
  binary : ∀ p ∈ ps, (l.binaryOf p.assembly).place ≠ q.place
  markers : (s.backupOf l).HasDirectMarkers l q

section Files

variable {s : Session σ} {l : Layout} {ps : List Descriptor} {q : Path}

theorem carries_keepsFile (hstore : s.store.WritesOneFile) (hfolders : s.store.Keeps KeepsFolders)
    (h : s.SparesFile l ps q) :
    s.Carries l (s.backupOf l) ps fun w w' => KeepsFile q w.disk w'.disk where
  refl w := .refl q w.disk
  trans := KeepsFile.trans
  load w _ _ := .refl q w.disk
  deploy w p hp :=
    .of_changesOnly (changesOnly_deploy _ w.disk p) (keepsFolders.deploy w.disk p _) (h.beside p hp)
  write w a p hp :=
    .of_changesOnly (.of_entries (hstore w.store w.disk a (l.binaryOf p.assembly)))
      (hfolders w.store w.disk a _) (h.binary p hp).symm
  save w _ _ hother := Backup.keepsFile_saveOther w.disk h.markers hother

/-- **The turns of a run keep a file** in whose place they put nothing. -/
theorem keepsFile_patchAll [Device] (hstore : s.store.WritesOneFile) (hfolders : s.store.Keeps KeepsFolders)
    (h : s.SparesFile l ps q) (w : World σ) (a : Assembly) :
    KeepsFile q w.disk (s.patchAll l (s.backupOf l) w a ps).2.disk :=
  (carries_keepsFile hstore hfolders h).patchAll w a

end Files

end Session

/-! ## Turns and the compiler -/

/-- The second world has the journal of the first, followed by events that do not ask the compiler. -/
def World.AsksNothing (w w' : World σ) : Prop :=
  ∃ events, w'.journal = w.journal ++ events ∧ ∀ source r, Event.compiled source r ∉ events

namespace World

variable {w w' w'' : World σ}

theorem AsksNothing.of_eq (h : w'.journal = w.journal) : w.AsksNothing w' :=
  ⟨[], by rw [h, List.append_nil], fun _ _ => List.not_mem_nil⟩

theorem AsksNothing.trans (h : w.AsksNothing w') (h' : w'.AsksNothing w'') : w.AsksNothing w'' := by
  obtain ⟨events, hjournal, hnone⟩ := h
  obtain ⟨events', hjournal', hnone'⟩ := h'
  refine ⟨events ++ events', by rw [hjournal', hjournal, List.append_assoc], fun source r hmem => ?_⟩
  exact (List.mem_append.1 hmem).elim (hnone source r) (hnone' source r)

end World

namespace Session

theorem carries_asksNothing (s : Session σ) (l : Layout) (b : Backup) (ps : List Descriptor) :
    s.Carries l b ps World.AsksNothing where
  refl _ := .of_eq rfl
  trans := World.AsksNothing.trans
  load _ p o := ⟨[.loaded p o], rfl, fun _ _ hmem => nomatch List.mem_singleton.1 hmem⟩
  deploy _ _ _ := .of_eq rfl
  write _ _ _ _ := ⟨[_], rfl, fun _ _ hmem => nomatch List.mem_singleton.1 hmem⟩
  save _ _ _ _ := .of_eq rfl

/-- **The compiler is not asked in the turns of a run.** -/
theorem asksNothing_patchAll [Device] (s : Session σ) (l : Layout) (b : Backup) (ps : List Descriptor)
    (w : World σ) (a : Assembly) : w.AsksNothing (s.patchAll l b w a ps).2 :=
  (s.carries_asksNothing l b ps).patchAll w a

end Session

end CilGraft
