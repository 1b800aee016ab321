import CilGraft.Proofs.Interleavings
import CilGraft.Proofs.KeptFiles

/-!
# Artifacts that are current

An artifact is current when it is there with a sidecar that has the checksum of the patch. What a patch
has got by some of its accesses is on the disk, so that its artifact is current when it is done; and when it
is current in the beginning the patch does nothing but look at it. Both is so whatever other patches do in
between, as long as they have their files elsewhere.

* `Cache.files` — the artifact and its sidecar; `Cache.Keeps`, they stay.
* `Cache.Backs` — what the disk has at a stage; `Backs.access`, an access keeps up with it.
* `Cache.Reuses` — the stages of a patch that is reused; `Reuses.advance`, it only looks.
* `Cache.StandsAlone` — the other patches have their files elsewhere; `HasPlainNames.standsAlone`, patches
  that pass the check of their names do.
* `StandsAlone.backs_run`, `StandsAlone.reuses_run` — what becomes of a patch after any turns.
-/

set_option autoImplicit false

namespace CilGraft

open Disk

namespace Cache

/-! ## Artifacts that are current -/

/-- The artifact of a patch and its sidecar. -/
def files (c : Cache) (patch : String) : List Path :=
  [c.artifactPath patch, sidecarPath (c.artifactPath patch)]

/-- How far a patch has come is backed by the disk: the folder is there from the beginning on, the artifact
from when it is found or stored, and the artifact is current in the end, unless the patch has failed. -/
inductive Backs (c : Cache) (p : Descriptor) (d : Disk) : Stage → Prop
  | waiting : Backs c p d .waiting
  | begun (folder : d.isFolder c.folder = true) : Backs c p d .begun
  | found (folder : d.isFolder c.folder = true)
      (artifact : d.isFile (c.artifactPath p.name) = true) : Backs c p d .found
  | outdated (folder : d.isFolder c.folder = true) : Backs c p d .outdated
  | read (content : List Char) (folder : d.isFolder c.folder = true) : Backs c p d (.read content)
  | choosing (content : List Char) (chosen rest : List Path) (folder : d.isFolder c.folder = true) :
      Backs c p d (.choosing content chosen rest)
  | built (r : Request) (binary : Bytes) (folder : d.isFolder c.folder = true) :
      Backs c p d (.built r binary)
  | stored (r : Request) (folder : d.isFolder c.folder = true)
      (artifact : d.isFile (c.artifactPath p.name) = true) : Backs c p d (.stored r)
  | done (freshness : Freshness) (request : Option Request) (folder : d.isFolder c.folder = true)
      (current : isCurrent d p (c.artifactPath p.name) = true) :
      Backs c p d (.done ⟨.ok ⟨p.withArtifact (c.artifactPath p.name), freshness⟩, request⟩)
  | failed (e : Error) (request : Option Request) : Backs c p d (.done ⟨.error e, request⟩)

/-- How far a patch comes whose artifact is current: it is reused. -/
inductive Reuses (c : Cache) (p : Descriptor) : Stage → Prop
  | waiting : Reuses c p .waiting
  | begun : Reuses c p .begun
  | found : Reuses c p .found
  | done : Reuses c p (.done ⟨.ok ⟨p.withArtifact (c.artifactPath p.name), .reused⟩, none⟩)

/-- The folder and the files of a patch stay. -/
structure Keeps (c : Cache) (patch : String) (d d' : Disk) : Prop where
  folder : d.isFolder c.folder = true → d'.isFolder c.folder = true
  files : ∀ file ∈ c.files patch, KeepsFile file d d'

variable {c : Cache} {compiler : Compiler} {d d' : Disk} {p q : Descriptor} {s s' : Stage}

theorem writes_iff {n : Names} : c.Writes p n ↔ ∃ file ∈ c.files p.name, n = file.place := by
  rw [files, List.exists_mem_cons_iff, List.exists_mem_cons_iff]
  simp only [List.not_mem_nil, false_and, exists_false, or_false]
  rfl

theorem hasChecksum_of_keeps {artifact : Path} (h : KeepsFile (sidecarPath artifact) d d')
    (hchecksum : hasChecksum d p artifact = true) : hasChecksum d' p artifact = true := by
  unfold hasChecksum at hchecksum ⊢
  split at hchecksum
  · rename_i stored hstored
    obtain ⟨bytes, hbytes, hdecoded⟩ := readText_eq_ok_iff.1 hstored
    rw [readText_eq_ok_iff.2 ⟨bytes, h bytes hbytes, hdecoded⟩]
    exact hchecksum
  · cases hchecksum

section Kept

variable (hfiles : ∀ file ∈ c.files p.name, KeepsFile file d d')
include hfiles

theorem isCurrent_of_keeps (h : isCurrent d p (c.artifactPath p.name) = true) :
    isCurrent d' p (c.artifactPath p.name) = true := by
  obtain ⟨hartifact, hsidecar, -⟩ := by simpa only [files, List.forall_mem_cons] using hfiles
  rw [isCurrent_eq, Bool.and_eq_true] at h ⊢
  exact ⟨hartifact.isFile h.1, hasChecksum_of_keeps hsidecar h.2⟩

theorem Backs.of_keeps (h : c.Backs p d s) (hfolders : KeepsFolders d d') : c.Backs p d' s := by
  have hartifact := hfiles _ List.mem_cons_self
  cases h with
  | waiting => exact .waiting
  | begun hfolder => exact .begun (hfolders.isFolder hfolder)
  | found hfolder hfile => exact .found (hfolders.isFolder hfolder) (hartifact.isFile hfile)
  | outdated hfolder => exact .outdated (hfolders.isFolder hfolder)
  | read content hfolder => exact .read content (hfolders.isFolder hfolder)
  | choosing content chosen rest hfolder =>
    exact .choosing content chosen rest (hfolders.isFolder hfolder)
  | built r binary hfolder => exact .built r binary (hfolders.isFolder hfolder)
  | stored r hfolder hfile => exact .stored r (hfolders.isFolder hfolder) (hartifact.isFile hfile)
  | done freshness request hfolder hcurrent =>
    exact .done freshness request (hfolders.isFolder hfolder) (isCurrent_of_keeps hfiles hcurrent)
  | failed e request => exact .failed e request

end Kept

theorem writeFile_of_store [Device] {path : Path} {content : Bytes} (h : c.store d path content = .ok d') :
    d.writeFile path content = .ok d' :=
  writeFile_eq_ok_iff.2 (replaceFile_eq_ok_iff.1 (replaceFile_of_store h))

/-- A sidecar that is stored makes an artifact current that is there. -/
theorem isCurrent_of_store [Device] {artifact : Path} (hfile : d.isFile artifact = true)
    (h : c.store d (sidecarPath artifact) (Text.Utf8.encode p.checksum.hex) = .ok d') :
    isCurrent d' p artifact = true := by
  have hwrite := writeFile_of_store h
  have hne : artifact.place ≠ (sidecarPath artifact).place :=
    Path.place_appendText_ne artifact (by decide) (by decide)
  obtain ⟨content, hread⟩ := isFile_eq_true_iff.1 hfile
  have hfile' : d'.isFile artifact = true :=
    isFile_eq_true_iff.2 ⟨content, (readFile_of_writeFile_of_ne hwrite hne).2 hread⟩
  rw [isCurrent_eq, hfile', Bool.true_and, hasChecksum,
    Checksum.readText_hex (readFile_of_writeFile hwrite)]
  exact Checksum.agreesWith_hex.2 rfl

/-- A patch with the same checksum has the same artifact current. -/
theorem isCurrent_congr (h : q.checksum = p.checksum) (d : Disk) (artifact : Path) :
    isCurrent d q artifact = isCurrent d p artifact := by
  unfold isCurrent
  rw [h]

theorem exists_readFile_of_isCurrent {artifact : Path} (h : isCurrent d p artifact = true) :
    ∃ binary stored, d.readFile artifact = .ok binary ∧
      d.readFile (sidecarPath artifact) = .ok stored := by
  rw [isCurrent_eq, Bool.and_eq_true, hasChecksum] at h
  obtain ⟨binary, hbinary⟩ := isFile_eq_true_iff.1 h.1
  have htext := h.2
  split at htext
  · rename_i hread
    obtain ⟨stored, hstored, -⟩ := readText_eq_ok_iff.1 hread
    exact ⟨binary, stored, hbinary, hstored⟩
  · cases htext

/-! ## Accesses to a current artifact -/

/-- An access stores one of the files of the patch, or leaves the disk as it is. -/
theorem Access.disk [Device] (h : c.Access compiler q d s s' d') :
    d' = d ∨ ∃ file ∈ c.files q.name, ∃ content, c.store d file content = .ok d' := by
  cases h with
  | stored r binary hstore => exact .inr ⟨_, List.mem_cons_self, _, hstore⟩
  | compiled r hstore => exact .inr ⟨_, List.mem_cons_of_mem _ List.mem_cons_self, _, hstore⟩
  | _ => exact .inl rfl

theorem keepsFolders_advance [Device] (c : Cache) (compiler : Compiler) (q : Descriptor) (d : Disk)
    (s : Stage) :
    KeepsFolders d (c.advance compiler q d s).2 := by
  obtain hsame | ⟨file, -, content, hstore⟩ := (c.access_advance compiler q d s).disk
  · rw [hsame]
    exact keepsFolders.refl d
  · exact keepsFolders.store c hstore

/-- **What a patch has got so far is on the disk** after its next access, too. -/
theorem Backs.access [Device] (h : c.Backs p d s) (haccess : c.Access compiler p d s s' d') :
    c.Backs p d' s' := by
  cases haccess with
  | failed => exact .failed _ _
  | begun hfolder => exact .begun hfolder
  | found hfile => cases h with | begun hfolder => exact .found hfolder hfile
  | missing => cases h with | begun hfolder => exact .outdated hfolder
  | reused hchecksum =>
    cases h with
    | found hfolder hfile =>
      exact .done _ _ hfolder (by rw [isCurrent_eq, hfile, hchecksum, Bool.and_self])
  | stale => cases h with | found hfolder => exact .outdated hfolder
  | read => cases h with | outdated hfolder => exact .read _ hfolder
  | listed => cases h with | read _ hfolder => exact .choosing _ _ _ hfolder
  | chosen => cases h with | choosing _ _ _ hfolder => exact .choosing _ _ _ hfolder
  | built => cases h with | choosing _ _ _ hfolder => exact .built _ _ hfolder
  | stored r binary hstore =>
    cases h with
    | built _ _ hfolder =>
      have hread := readFile_of_writeFile (writeFile_of_store hstore)
      exact .stored r ((keepsFolders.store c hstore).isFolder hfolder)
        (isFile_eq_true_iff.2 ⟨binary, hread⟩)
  | compiled r hstore =>
    cases h with
    | stored _ hfolder hfile =>
      exact .done _ _ ((keepsFolders.store c hstore).isFolder hfolder)
        (isCurrent_of_store hfile hstore)
  | rests => exact h

/-- **A patch whose artifact is current only looks**, and reuses the artifact. -/
theorem Reuses.advance [Device] (compiler : Compiler) (h : c.Reuses p s)
    (hfolder : d.isFolder c.folder = true)
    (hcurrent : isCurrent d p (c.artifactPath p.name) = true) :
    c.Reuses p (c.advance compiler p d s).1 ∧ (c.advance compiler p d s).2 = d := by
  rw [isCurrent_eq, Bool.and_eq_true] at hcurrent
  unfold Cache.advance look
  cases h with
  | waiting =>
    dsimp only
    rw [if_pos hfolder]
    exact ⟨.begun, rfl⟩
  | begun =>
    dsimp only
    rw [if_pos hcurrent.1]
    exact ⟨.found, rfl⟩
  | found =>
    dsimp only
    rw [if_pos hcurrent.2]
    exact ⟨.done, rfl⟩
  | done => exact ⟨.done, rfl⟩

/-! ## Turns -/

/-- The other patches of the turns have their files elsewhere. -/
def StandsAlone (c : Cache) (p : Descriptor) (ps : List Descriptor) : Prop :=
  ∀ q ∈ ps, q ≠ p → ∀ n, c.Writes q n → ¬ c.Writes p n

/-- Patches that pass the check of their names stand alone, in a cache whose artifacts are files of the folder
and no sidecars. -/
theorem HasPlainNames.standsAlone (h : c.HasPlainNames) (hextension : 2 ≤ c.extension.toList.length)
    {ps : List Descriptor} (hadmitted : c.Admitted d ps) (hp : p ∈ ps) : c.StandsAlone p ps := by
  intro q hq hne n hwrites hwrites'
  have hnames := hadmitted.fileName_ne hq hp hne
  have hlong : 2 < ("." ++ c.extension).toList.length := by
    have hdot : ".".toList.length = 1 := rfl
    rw [String.toList_append, List.length_append, hdot]
    omega
  have hplace : ∀ patch, (c.artifactPath patch).place = c.folder.place ++ [c.fileName patch] := by
    intro patch
    show (c.folder.child (c.fileName patch)).place = _
    rw [Path.place_child _ (h.separator_not_mem patch), fileName, String.append_assoc,
      Path.descend_append hlong]
  -- Two artifacts, and two sidecars, differ in their names; the ending tells one kind from the other.
  unfold Writes at hwrites hwrites'
  rcases hwrites with hartifact | hsidecar <;> rcases hwrites' with hartifact' | hsidecar'
  · rw [hartifact, hplace, hplace] at hartifact'
    exact hnames (List.singleton_inj.1 (List.append_cancel_left hartifact'))
  · exact h.artifact_ne_sidecar _ _ (hartifact.symm.trans hsidecar')
  · exact h.artifact_ne_sidecar _ _ (hartifact'.symm.trans hsidecar)
  · exact h.sidecar_ne hnames (hsidecar.symm.trans hsidecar')

section Turns

variable [Device] {ps turns : List Descriptor} (halone : c.StandsAlone p ps)
include halone

/-- The accesses of the other patches keep the files of the patch. -/
theorem StandsAlone.keepsFile (hq : q ∈ ps) (hne : q ≠ p) (d : Disk) (s : Stage) :
    ∀ file ∈ c.files p.name, KeepsFile file d (c.advance compiler q d s).2 := by
  intro file hfile
  obtain hsame | ⟨other, hother, content, hstore⟩ := (c.access_advance compiler q d s).disk
  · rw [hsame]
    exact .refl file d
  · refine .of_changesOnly (c.changesOnly_store d hstore) (keepsFolders.store c hstore) fun hplace => ?_
    exact halone q hq hne _ (writes_iff.2 ⟨other, hother, rfl⟩)
      (writes_iff.2 ⟨file, hfile, hplace.symm⟩)

/-- **What a patch has got is on the disk**, whatever the turns are. -/
theorem StandsAlone.backs_run (hturns : ∀ q ∈ turns, q ∈ ps) :
    c.Backs p (c.run compiler d turns).disk ((c.run compiler d turns).stage p) := by
  induction turns using List.reverseRecOn with
  | nil => exact .waiting
  | append_singleton turns q ih =>
    have hbacks := ih fun q hq => hturns q (List.mem_append_left _ hq)
    -- The last turn is an access of the patch itself, or one that keeps its files.
    have hq : q ∈ ps := hturns q (List.mem_append_right _ (List.mem_singleton_self q))
    rw [run_concat, State.turn]
    dsimp only
    by_cases hne : q = p
    · subst hne
      rw [Function.update_self]
      exact hbacks.access (access_advance ..)
    · rw [Function.update_of_ne (Ne.symm hne)]
      exact hbacks.of_keeps (halone.keepsFile hq hne _ _) (keepsFolders_advance c compiler q _ _)

/-- **A patch whose artifact is current in the beginning reuses it**, whatever the turns are, and keeps
its files. -/
theorem StandsAlone.reuses_run (compiler : Compiler) (hturns : ∀ q ∈ turns, q ∈ ps)
    (hfolder : d.isFolder c.folder = true)
    (hcurrent : isCurrent d p (c.artifactPath p.name) = true) :
    c.Reuses p ((c.run compiler d turns).stage p) ∧
      (∀ file ∈ c.files p.name, KeepsFile file d (c.run compiler d turns).disk) ∧
      KeepsFolders d (c.run compiler d turns).disk := by
  induction turns using List.reverseRecOn with
  | nil => exact ⟨.waiting, fun file _ => .refl file d, keepsFolders.refl d⟩
  | append_singleton turns q ih =>
    obtain ⟨hreuses, hfiles, hfolders⟩ := ih fun q hq => hturns q (List.mem_append_left _ hq)
    have hq : q ∈ ps := hturns q (List.mem_append_right _ (List.mem_singleton_self q))
    rw [run_concat, State.turn]
    dsimp only
    by_cases hne : q = p
    · subst hne
      obtain ⟨hnext, hdisk⟩ := hreuses.advance compiler (hfolders.isFolder hfolder)
        (isCurrent_of_keeps hfiles hcurrent)
      rw [Function.update_self, hdisk]
      exact ⟨hnext, hfiles, hfolders⟩
    · rw [Function.update_of_ne (Ne.symm hne)]
      exact ⟨hreuses,
        fun file hfile => (hfiles file hfile).trans (halone.keepsFile hq hne _ _ file hfile),
        keepsFolders.trans hfolders (keepsFolders_advance c compiler q _ _)⟩

end Turns

end Cache

end CilGraft
