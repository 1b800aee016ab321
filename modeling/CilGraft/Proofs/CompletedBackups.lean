import CilGraft.Proofs.ReachedFiles
import CilGraft.Proofs.SavedBinaries
import CilGraft.Proofs.StoredChecksums

/-!
# Backups that are complete

A backup is complete when its copy is there and its marker has the checksum of the copy. Before a
backup is taken only the marker is looked for; a copy without a marker is kept; and the marker gets the
checksum of the binary, not of the copy. So it depends on what an earlier backup has left whether a
backup that was taken is complete.

* `Backup.IsComplete` — the copy is there and matches its marker.
* `Backup.LeftSound` — what is left of an earlier backup does no harm.
* `Backup.isComplete_iff_of_save` — when a backup that was taken is complete.
* `isComplete_iff_restore` — a complete backup is one that the binary can be restored from.
* `complete_iff_leftSound` — both, for the primary binary and the other ones.
* `Sample.saved_complete`, `Sample.saved_not_complete` — backups that are complete, and ones that are not.
-/

set_option autoImplicit false

namespace CilGraft

open Disk

namespace Backup

variable {d d' : Disk} {binary copy marker : Path} {taken : Bool}

/-- The copy is there, and the marker has its checksum. -/
def IsComplete (d : Disk) (copy marker : Path) : Prop :=
  ∃ content stored, d.readFile copy = .ok content ∧ d.readText marker = .ok stored ∧
    (Checksum.of content).agreesWith stored = true

/-- What is left of an earlier backup is complete, or there is no marker and nothing in the place of the
copy but a file with the checksum of the binary. -/
def LeftSound [Device] (d : Disk) (binary copy marker : Path) : Prop :=
  if d.isFile marker then IsComplete d copy marker
  else
    ∀ room, makeRoom d copy = (.ok (), room) → room.exists_ copy = true →
      ∃ kept live, room.readFile copy = .ok kept ∧ room.readFile binary = .ok live ∧
        Checksum.of kept = Checksum.of live

/-! ## Taking a backup -/

theorem ofFile_of_readFile {p : Path} {content : Bytes} (h : d.readFile p = .ok content) :
    Checksum.ofFile d p = .ok (Checksum.of content) := by
  rw [Checksum.ofFile, h]

/-- A copy that is made takes no place of the binary. -/
theorem place_ne_of_copyFile (h : d.copyFile binary copy = .ok d')
    (hexists : d.exists_ copy = false) : binary.place ≠ copy.place := by
  intro heq
  obtain ⟨folder, name, hreaches⟩ := exists_reaches_of_copyFile h
  obtain ⟨content, _, hentry, -⟩ := copyFile_eq_ok h
  rw [heq, hreaches.entry?_of_not_exists hexists] at hentry
  cases hentry

/-- **A backup that was taken is complete** exactly when what was left of an earlier one was sound. -/
theorem isComplete_iff_of_save [Device] (h : save d binary copy marker = (.ok taken, d'))
    (hne : copy.place ≠ marker.place) :
    IsComplete d' copy marker ↔ LeftSound d binary copy marker := by
  rcases save_cases h with ⟨hmarker, -, rfl⟩ |
    ⟨hmarker, -, room, placed, live, hroom, hkept, hlive, hwrite⟩
  · rw [LeftSound, if_pos hmarker]
  · rw [LeftSound, if_neg (Bool.eq_false_iff.1 hmarker), hroom]
    simp only [Prod.mk.injEq, true_and, forall_eq']
    have hmarked : d'.readText marker = .ok (Checksum.of live).hex :=
      Checksum.readText_hex (readFile_of_writeFile hwrite)
    have hcomplete : IsComplete d' copy marker ↔
        ∃ kept, placed.readFile copy = .ok kept ∧ Checksum.of kept = Checksum.of live := by
      simp only [IsComplete, hmarked, readFile_of_writeFile_of_ne hwrite hne, Except.ok.injEq,
        exists_eq_left', exists_and_left, Checksum.agreesWith_hex]
    rw [hcomplete]
    rcases hkept with ⟨hexists, rfl⟩ | ⟨hexists, hcopy⟩
    · constructor
      · rintro ⟨kept, hread, hsame⟩ -
        exact ⟨kept, live, hread, hlive, hsame⟩
      · intro hsound
        obtain ⟨kept, live', hread, hlive', hsame⟩ := hsound hexists
        rw [hlive, Except.ok.injEq] at hlive'
        exact ⟨kept, hread, hlive' ▸ hsame⟩
    · have hplace := place_ne_of_copyFile hcopy hexists
      obtain ⟨content, hcontent, hcopied⟩ := (copyFile_eq_ok_iff hplace).1 hcopy
      have hsame : content = live := by
        rw [readFile_of_writeFile_of_ne hcopied hplace, hcontent, Except.ok.injEq] at hlive
        exact hlive
      constructor
      · rintro - hexists'
        rw [hexists] at hexists'
        cases hexists'
      · exact fun _ => ⟨content, readFile_of_writeFile hcopied, congrArg _ hsame⟩

/-- The binary is there as before when a backup of it was taken. -/
theorem isFile_of_save [Device] (h : save d binary copy marker = (.ok taken, d'))
    (hbinary : d.isFile binary = true) (hmarker : binary.place ≠ marker.place) :
    d'.isFile binary = true := by
  rcases save_cases h with ⟨-, -, rfl⟩ | ⟨-, -, room, placed, live, -, -, hlive, hwrite⟩
  · exact hbinary
  · exact isFile_eq_true_iff.2 ⟨live, (readFile_of_writeFile_of_ne hwrite hmarker).2 hlive⟩

/-! ## Using a backup -/

theorem finished_eq_ok_iff {r : Except Error Unit × Disk} : finished r = .ok d ↔ r = (.ok (), d) := by
  unfold finished
  split
  · rw [Except.ok.injEq, Prod.mk.injEq, and_iff_right rfl]
  · exact iff_of_false nofun nofun

theorem disk_putBack [Device] : (putBack d copy binary).2 =
    if d.isFile copy then (Device.copyFile d copy binary).2 else d := by
  unfold putBack
  split
  · split <;> rename_i hcopied <;> rw [hcopied]
  · rfl

/-- A binary is put back as its copy is. -/
theorem putBack_eq_ok [Device] (hne : copy.place ≠ binary.place)
    (h : putBack d copy binary = (.ok (), d')) :
    ∃ content, d.readFile copy = .ok content ∧ d.writeFile binary content = .ok d' := by
  rw [← copyFile_eq_ok_iff hne]
  unfold putBack at h
  split at h
  · split at h
    · cases h
    · rename_i hcopied
      cases h
      exact Device.copyFile_eq_ok hcopied
  · cases h

/-- A binary is restored when there is a copy, and the binary can be written. -/
theorem restore_eq_ok_iff (hne : copy.place ≠ binary.place) : restore d copy binary = .ok d' ↔
    ∃ content, d.readFile copy = .ok content ∧ d.writeFile binary content = .ok d' := by
  rw [restore, finished_eq_ok_iff]
  refine ⟨putBack_eq_ok hne, fun ⟨content, hread, hwrite⟩ => ?_⟩
  rw [putBack, if_pos (isFile_eq_true_iff.2 ⟨content, hread⟩),
    Device.copyFile_of_ok ((copyFile_eq_ok_iff hne).2 ⟨content, hread, hwrite⟩)]

/-- **A backup is complete** exactly when the binary can be restored from it, and has the checksum of
the marker then. -/
theorem isComplete_iff_restore (hbinary : d.isFile binary = true)
    (hcopy : binary.place ≠ copy.place) (hmarker : binary.place ≠ marker.place) :
    IsComplete d copy marker ↔
      ∃ restored content stored, restore d copy binary = .ok restored ∧
        restored.readFile binary = .ok content ∧ restored.readText marker = .ok stored ∧
        (Checksum.of content).agreesWith stored = true := by
  have hstored : ∀ restored content, d.writeFile binary content = .ok restored →
      ∀ stored, restored.readText marker = .ok stored ↔ d.readText marker = .ok stored := by
    intro restored content hwrite stored
    simp only [readText_eq_ok_iff, readFile_of_writeFile_of_ne hwrite hmarker.symm]
  constructor
  · rintro ⟨content, stored, hread, htext, hagrees⟩
    obtain ⟨live, hlive⟩ := isFile_eq_true_iff.1 hbinary
    obtain ⟨folder, name, hreaches, hentry⟩ := readFile_eq_ok_iff.1 hlive
    have hwrite : d.writeFile binary content = .ok (d.put binary.place (.file content)) :=
      writeFile_eq_ok_iff.2 ⟨folder, name, hreaches, isFolderAt_of_entry? hentry, rfl⟩
    exact ⟨_, content, stored, (restore_eq_ok_iff hcopy.symm).2 ⟨content, hread, hwrite⟩,
      readFile_of_writeFile hwrite, (hstored _ _ hwrite stored).2 htext, hagrees⟩
  · rintro ⟨restored, content, stored, hrestore, hread, htext, hagrees⟩
    obtain ⟨content', hcontent, hwrite⟩ := (restore_eq_ok_iff hcopy.symm).1 hrestore
    rw [readFile_of_writeFile hwrite, Except.ok.injEq] at hread
    exact ⟨content, stored, hread ▸ hcontent, (hstored _ _ hwrite stored).1 htext, hagrees⟩

/-- The primary binary is not modified when it has the checksum of its marker. -/
theorem isModified_eq_false_iff {b : Backup} (hmarker : d.isFile b.primaryMarker = true) :
    b.isModified d binary = .ok false ↔
      ∃ content stored, d.readFile binary = .ok content ∧ d.readText b.primaryMarker = .ok stored ∧
        (Checksum.of content).agreesWith stored = true := by
  obtain ⟨bytes, hbytes⟩ := isFile_eq_true_iff.1 hmarker
  have hfound : d.readText b.primaryMarker ≠ .error .notFound := by
    intro hmissing
    rw [readText, hbytes] at hmissing
    dsimp only [bind, Except.bind] at hmissing
    split at hmissing <;> cases hmissing
  constructor
  · intro h
    unfold isModified at h
    split at h
    · exact absurd ‹_› hfound
    · cases h
    · rename_i stored hstored
      split at h
      · cases h
      · rename_i checksum hchecksum
        obtain ⟨content, hcontent, rfl⟩ := readFile_of_ofFile hchecksum
        exact ⟨content, stored, hcontent, hstored, by simpa using h⟩
  · rintro ⟨content, stored, hcontent, hstored, hagrees⟩
    unfold isModified
    rw [hstored, ofFile_of_readFile hcontent]
    dsimp only
    rw [hagrees, Bool.not_true]

/-- There is a marker when a backup was taken. -/
theorem isFile_marker_of_save [Device] (h : save d binary copy marker = (.ok taken, d')) :
    d'.isFile marker = true := by
  rcases save_cases h with ⟨hmarker, -, rfl⟩ | ⟨-, -, room, placed, live, -, -, -, hwrite⟩
  · exact hmarker
  · exact isFile_eq_true_iff.2 ⟨_, readFile_of_writeFile hwrite⟩

/-- A complete backup of the primary binary is one that it can be restored from, and that it does not
differ from then. -/
theorem isComplete_iff_restorePrimary [Device] {b : Backup}
    (h : b.savePrimary d binary = (.ok taken, d')) (hbinary : d.isFile binary = true)
    (hcopy : binary.place ≠ b.primaryCopy.place) (hmarker : binary.place ≠ b.primaryMarker.place) :
    IsComplete d' b.primaryCopy b.primaryMarker ↔
      ∃ restored, @restorePrimary .sound b d' binary = .ok restored ∧
        b.isModified restored binary = .ok false := by
  rw [isComplete_iff_restore (isFile_of_save h hbinary hmarker) hcopy hmarker]
  refine exists_congr fun restored => ?_
  constructor
  · rintro ⟨content, stored, hrestore, hread, htext, hagrees⟩
    obtain ⟨bytes, hbytes, -⟩ := readText_eq_ok_iff.1 htext
    exact ⟨hrestore, (isModified_eq_false_iff (isFile_eq_true_iff.2 ⟨bytes, hbytes⟩)).2
      ⟨content, stored, hread, htext, hagrees⟩⟩
  · rintro ⟨hrestore, hunmodified⟩
    obtain ⟨content, -, hwrite⟩ := (restore_eq_ok_iff hcopy.symm).1 hrestore
    obtain ⟨bytes, hbytes⟩ := isFile_eq_true_iff.1 (isFile_marker_of_save h)
    have hstays := (readFile_of_writeFile_of_ne hwrite hmarker.symm).2 hbytes
    obtain ⟨content', stored, hread, htext, hagrees⟩ :=
      (isModified_eq_false_iff (isFile_eq_true_iff.2 ⟨bytes, hstays⟩)).1 hunmodified
    exact ⟨content', stored, hrestore, hread, htext, hagrees⟩

theorem save_of_saveOther [Device] {b : Backup} {name : String} (hname : nameOf binary = .ok name) :
    b.saveOther d binary = save d binary (b.otherCopy name) (markerOf (b.otherCopy name)) := by
  rw [saveOther, hname]

theorem restore_of_restoreOther {b : Backup} {name : String} (hname : nameOf binary = .ok name) :
    b.restoreOther d binary = restore d (b.otherCopy name) binary := by
  rw [restoreOther, hname]

/-- **A backup that was taken is complete exactly when what was left of an earlier one was sound**, and
it is complete exactly when the binary can be restored from it, on a device that does not fail, and has the
checksum of the marker then. -/
theorem complete_iff_leftSound [Device] (b : Backup) (d : Disk) (binary : Path) :
    (∀ taken d', b.savePrimary d binary = (.ok taken, d') →
      (IsComplete d' b.primaryCopy b.primaryMarker ↔
        LeftSound d binary b.primaryCopy b.primaryMarker) ∧
      (d.isFile binary = true → binary.place ≠ b.primaryCopy.place →
        binary.place ≠ b.primaryMarker.place →
        (IsComplete d' b.primaryCopy b.primaryMarker ↔
          ∃ restored, @restorePrimary .sound b d' binary = .ok restored ∧
            b.isModified restored binary = .ok false))) ∧
    ∀ name taken d', nameOf binary = .ok name → b.saveOther d binary = (.ok taken, d') →
      (IsComplete d' (b.otherCopy name) (markerOf (b.otherCopy name)) ↔
        LeftSound d binary (b.otherCopy name) (markerOf (b.otherCopy name))) ∧
      (d.isFile binary = true → binary.place ≠ (b.otherCopy name).place →
        binary.place ≠ (markerOf (b.otherCopy name)).place →
        (IsComplete d' (b.otherCopy name) (markerOf (b.otherCopy name)) ↔
          ∃ restored content stored, @restoreOther .sound b d' binary = .ok restored ∧
            restored.readFile binary = .ok content ∧
            restored.readText (markerOf (b.otherCopy name)) = .ok stored ∧
            (Checksum.of content).agreesWith stored = true)) := by
  constructor
  · intro taken d' h
    exact ⟨isComplete_iff_of_save h b.primaryCopy_ne_primaryMarker,
      isComplete_iff_restorePrimary h⟩
  · intro name taken d' hname h
    rw [save_of_saveOther hname] at h
    refine ⟨isComplete_iff_of_save h (Path.place_appendText_ne _ (by decide) (by decide)), ?_⟩
    intro hbinary hcopy hmarker
    rw [restore_of_restoreOther hname]
    exact isComplete_iff_restore (isFile_of_save h hbinary hmarker) hcopy hmarker

end Backup

/-! ## Backups that are left -/

namespace Sample

open Backup

/-- The backups of the game. -/
def games : Backup := session.backupOf layout

/-- Another binary of the game. -/
def second : Path := ⟨"/g/D_Data/Managed/B.dll"⟩

/-- Nothing is left of an earlier backup, and so the two binaries are backed up completely. -/
theorem saved_complete :
    (∃ d', games.savePrimary disk layout.primary = (.ok true, d') ∧
      LeftSound disk layout.primary games.primaryCopy games.primaryMarker ∧
      IsComplete d' games.primaryCopy games.primaryMarker ∧
      ∃ restored, games.restorePrimary d' layout.primary = .ok restored ∧
        games.isModified restored layout.primary = .ok false) ∧
    ∃ d', games.saveOther disk second = (.ok true, d') ∧
      LeftSound disk second (games.otherCopy "B.dll") (markerOf (games.otherCopy "B.dll")) ∧
      IsComplete d' (games.otherCopy "B.dll") (markerOf (games.otherCopy "B.dll")) ∧
      ∃ restored content stored, games.restoreOther d' second = .ok restored ∧
        restored.readFile second = .ok content ∧
        restored.readText (markerOf (games.otherCopy "B.dll")) = .ok stored ∧
        (Checksum.of content).agreesWith stored = true := by
  -- with nothing in the place of the copy there is nothing to be sound
  have hsound : ∀ binary copy marker, disk.isFile marker = false →
      (makeRoom disk copy).2.exists_ copy = false → LeftSound disk binary copy marker := by
    intro binary copy marker hmarker hnone
    rw [LeftSound, if_neg (Bool.eq_false_iff.1 hmarker)]
    intro room hroom hexists
    rw [hroom, hexists] at hnone
    cases hnone
  have hprimary : games.savePrimary disk layout.primary =
      (.ok true, (games.savePrimary disk layout.primary).2) :=
    eq_mk_of_fst (eq_ok_of_toOption (by decide +kernel))
  have hother : games.saveOther disk second = (.ok true, (games.saveOther disk second).2) :=
    eq_mk_of_fst (eq_ok_of_toOption (by decide +kernel))
  obtain ⟨hcomplete, hrestored⟩ :=
    (complete_iff_leftSound games disk layout.primary).1 true _ hprimary
  obtain ⟨hcomplete', hrestored'⟩ :=
    (complete_iff_leftSound games disk second).2 "B.dll" true _ (eq_ok_of_toOption (by decide +kernel))
      hother
  have hleft := hsound layout.primary games.primaryCopy games.primaryMarker (by decide +kernel)
    (by decide +kernel)
  have hleft' := hsound second (games.otherCopy "B.dll") (markerOf (games.otherCopy "B.dll"))
    (by decide +kernel) (by decide +kernel)
  have hdone := hcomplete.2 hleft
  have hdone' := hcomplete'.2 hleft'
  exact ⟨⟨_, hprimary, hleft, hdone,
      (hrestored (by decide +kernel) (by decide +kernel) (by decide +kernel)).1 hdone⟩,
    ⟨_, hother, hleft', hdone',
      (hrestored' (by decide +kernel) (by decide +kernel) (by decide +kernel)).1 hdone'⟩⟩

/-- The game with a file of an earlier backup. -/
def withLeft (name : String) (content : Bytes) : Disk :=
  ⟨disk.entries ++ [(["Games"], .folder), (["Games", name], .file content)]⟩

/-- Two backups that are not complete after they were taken: a copy without a marker is kept, and gets
the marker of the binary, which counts as modified when it is restored; and a marker without a copy is
enough, so that there is nothing to restore. -/
theorem saved_not_complete :
    (∃ d', games.savePrimary (withLeft "D.dll" [9]) layout.primary = (.ok true, d') ∧
      ¬ IsComplete d' games.primaryCopy games.primaryMarker ∧
      ∃ restored, games.restorePrimary d' layout.primary = .ok restored ∧
        games.isModified restored layout.primary = .ok true) ∧
    ∃ d', games.savePrimary (withLeft "D.md5" []) layout.primary = (.ok false, d') ∧
      ¬ IsComplete d' games.primaryCopy games.primaryMarker ∧
      games.restorePrimary d' layout.primary = .error (.file games.primaryCopy .noBackup) := by
  constructor
  · have hsaved : games.savePrimary (withLeft "D.dll" [9]) layout.primary =
        (.ok true, (games.savePrimary (withLeft "D.dll" [9]) layout.primary).2) :=
      eq_mk_of_fst (eq_ok_of_toOption (by decide +kernel))
    have hmodified : ((games.restorePrimary
        (games.savePrimary (withLeft "D.dll" [9]) layout.primary).2 layout.primary).toOption.map
          fun restored => (games.isModified restored layout.primary).toOption) =
        some (some true) := by
      decide +kernel
    obtain ⟨restored, hrestored, hmodified⟩ := Option.map_eq_some_iff.1 hmodified
    refine ⟨_, hsaved, ?_, restored, eq_ok_of_toOption hrestored, eq_ok_of_toOption hmodified⟩
    intro hcomplete
    obtain ⟨restored', hrestored', hunmodified⟩ := (isComplete_iff_restorePrimary hsaved
      (by decide +kernel) (by decide +kernel) (by decide +kernel)).1 hcomplete
    rw [eq_ok_of_toOption hrestored, Except.ok.injEq] at hrestored'
    rw [← hrestored', eq_ok_of_toOption hmodified, Except.ok.injEq] at hunmodified
    cases hunmodified
  · have hnone : (withLeft "D.md5" []).isFile games.primaryCopy = false := by decide +kernel
    have hmarker : (withLeft "D.md5" []).isFile games.primaryMarker = true := by decide +kernel
    refine ⟨withLeft "D.md5" [], ?_, ?_, ?_⟩
    · rw [savePrimary, save, hmarker, if_pos rfl]
    · rintro ⟨content, -, hread, -⟩
      rw [isFile_eq_true_iff.2 ⟨content, hread⟩] at hnone
      cases hnone
    · rw [restorePrimary, putBackPrimary, putBack, hnone, if_neg Bool.false_ne_true]
      rfl

end Sample

end CilGraft
