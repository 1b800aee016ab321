import CilGraft.Proofs.ReachedFiles
import CilGraft.Proofs.Turns

/-!
# The files that a run touches

A run changes a disk in four ways: it takes backups, keeps its cache, puts artifacts beside binaries,
and has binaries written by the store. Everything else on the disk stays.

* `ModuleStore.WritesInPlace` — the store writes nothing but the file that it is given.
* `Backup.Covers` — the copy and the marker of a binary.
* `Cache.IsPlace`, `Session.PutsBeside` — where artifacts are kept, and where they are put.
* `Cache.Spared` — the device does not fail a file that is stored; `store_eq_ok_iff_spared`.
* `Cache.Compiles` — what compiling a patch comes to; `compiles_compile`.
* `changesOnly_save`, `changesOnly_compile`, … — what a step of a run leaves alone.
* `Session.Touches` — what turns may touch; `changesOnly_patchAll`, and nothing else.
* `changesOnly_of_begins`, `changesOnly_patch_of_error` — what happens before the turns, and in a run
  that ends early.
-/

set_option autoImplicit false

namespace CilGraft

open Disk

variable {σ : Type}

/-! ## Backups -/

namespace Backup

/-- The copy and the marker of the binary with a name. -/
inductive Covers (b : Backup) (l : Layout) : String → Path → Path → Prop
  | primary : Covers b l l.primaryName b.primaryCopy b.primaryMarker
  | other {name file : String} (other : name ≠ l.primaryName)
      (file_eq : nameOf (l.assemblyPath name) = .ok file) :
      Covers b l name (b.otherCopy file) (markerOf (b.otherCopy file))

/-- The backup of a binary keeps a file at the place. -/
def Uses (b : Backup) (l : Layout) (name : String) (n : Names) : Prop :=
  ∃ copy marker, b.Covers l name copy marker ∧ (n = copy.place ∨ n = marker.place)

section Frames

variable [Device] (d : Disk) (binary copy marker : Path)

theorem changesOnly_makeRoom : ChangesOnly (fun _ => False) d (makeRoom d copy).2 := by
  unfold makeRoom
  split
  · exact ChangesOnly.refl _ d
  · rename_i folder _
    have hfolder := changesOnly_createFolders d folder copy
    split <;> rename_i hresult <;> rwa [hresult] at hfolder

/-- A copy is made once there is room for it, where nothing is yet. -/
theorem disk_copyOnce :
    (copyOnce d binary copy).2 = (makeRoom d copy).2 ∨
      (makeRoom d copy).2.exists_ copy = false ∧
        ∃ content, (makeRoom d copy).2.writeFile copy content = .ok (copyOnce d binary copy).2 := by
  unfold copyOnce
  split
  · rename_i hroom
    exact .inl (congrArg Prod.snd hroom).symm
  · rename_i hroom
    rw [hroom]
    split
    · exact .inl rfl
    · rename_i room hnone
      have hcopy := Device.disk_copyFile room binary copy
      split <;> rename_i hresult <;> rw [hresult] at hcopy <;>
        exact hcopy.imp_right fun hwrite => ⟨Bool.eq_false_iff.2 hnone, hwrite⟩

theorem disk_writeMarker :
    (writeMarker d binary marker).2 = d ∨
      ∃ content, d.writeFile marker content = .ok (writeMarker d binary marker).2 := by
  unfold writeMarker
  split
  · exact .inl rfl
  · rename_i checksum _
    have hwrite := Device.disk_writeFile d marker (Text.Utf8.encode checksum.hex)
    split <;> rename_i hresult <;> rwa [hresult] at hwrite

/-- A backup is taken when there is no marker: the copy first, and the marker when it is there. -/
theorem disk_save :
    (save d binary copy marker).2 = d ∨
      d.isFile marker = false ∧
        ((save d binary copy marker).2 = (copyOnce d binary copy).2 ∨
          (save d binary copy marker).2 =
            (writeMarker (copyOnce d binary copy).2 binary marker).2) := by
  unfold save
  split
  · exact .inl rfl
  · rename_i hnone
    refine .inr ⟨Bool.eq_false_iff.2 hnone, ?_⟩
    split
    · rename_i hcopy
      exact .inl (congrArg Prod.snd hcopy).symm
    · rename_i hcopy
      rw [hcopy]
      refine .inr ?_
      split
      all_goals
        rename_i hmarked
        exact (congrArg Prod.snd hmarked).symm

theorem changesOnly_copyOnce : ChangesOnly (· = copy.place) d (copyOnce d binary copy).2 := by
  have hroom := changesOnly_makeRoom d copy
  rcases disk_copyOnce d binary copy with hsame | ⟨-, content, hwrite⟩
  · rw [hsame]
    exact hroom.of_none
  · exact hroom.of_none.trans (changesOnly_writeFile hwrite)

theorem changesOnly_writeMarker :
    ChangesOnly (· = marker.place) d (writeMarker d binary marker).2 := by
  rcases disk_writeMarker d binary marker with hsame | ⟨content, hwrite⟩
  · rw [hsame]
    exact ChangesOnly.refl _ d
  · exact changesOnly_writeFile hwrite

/-- Taking a backup touches the places of the copy and the marker only. -/
theorem changesOnly_save :
    ChangesOnly (fun n => n = copy.place ∨ n = marker.place) d (save d binary copy marker).2 := by
  have hcopy := (changesOnly_copyOnce d binary copy).mono
    fun n hn => (Or.inl hn : n = copy.place ∨ n = marker.place)
  rcases disk_save d binary copy marker with hsame | ⟨-, hsame | hsame⟩ <;> rw [hsame]
  · exact ChangesOnly.refl _ d
  · exact hcopy
  · exact hcopy.trans ((changesOnly_writeMarker _ binary marker).mono fun _ => Or.inr)

end Frames

section Covered

variable [Device] (b : Backup) (l : Layout) (d : Disk)

theorem changesOnly_savePrimary (primary : Path) :
    ChangesOnly (b.Uses l l.primaryName) d (b.savePrimary d primary).2 :=
  (changesOnly_save d primary _ _).mono fun _ hn => ⟨_, _, .primary, hn⟩

theorem changesOnly_saveOther {name : String} (hother : name ≠ l.primaryName) :
    ChangesOnly (b.Uses l name) d (b.saveOther d (l.assemblyPath name)).2 := by
  unfold saveOther
  split
  · exact ChangesOnly.refl _ d
  · rename_i file hfile
    exact (changesOnly_save d _ _ _).mono fun _ hn => ⟨_, _, .other hother hfile, hn⟩

end Covered

end Backup

/-! ## Folders -/

namespace Layout

theorem changesOnly_ensureFolder [Device] (d : Disk) (p : Path) :
    ChangesOnly (fun _ => False) d (ensureFolder d p).2 := by
  have hfolders := changesOnly_createFolders d p p
  unfold ensureFolder
  split
  · exact ChangesOnly.refl _ d
  · split <;> rename_i hresult <;> rwa [hresult] at hfolders

theorem changesOnly_ensureEach [Device] (d : Disk) (ps : List Path) :
    ChangesOnly (fun _ => False) d (ensureEach d ps).2 := by
  induction ps generalizing d with
  | nil => exact ChangesOnly.refl _ d
  | cons p ps ih =>
    have hfirst := changesOnly_ensureFolder d p
    unfold ensureEach
    split
    · rename_i hresult
      rwa [hresult] at hfirst
    · rename_i d₁ hresult
      rw [hresult] at hfirst
      exact hfirst.trans (ih d₁)

/-- The path of the binary with a name. -/
def binaryOf (l : Layout) (name : String) : Path :=
  if name = l.primaryName then l.primary else l.assemblyPath name

end Layout

/-! ## The cache -/

namespace Cache

/-- The cache keeps a file at the place, the artifact of some patch or its sidecar. -/
def IsPlace (c : Cache) (n : Names) : Prop :=
  ∃ patch, n = (c.artifactPath patch).place ∨ n = (sidecarPath (c.artifactPath patch)).place

section Stores

variable {c : Cache} {d d' : Disk} {q : Path} {content : Bytes}

/-- A file is stored in a cache whose folder is there when the path of the temporary file is not too long
and the file can be put in its place. -/
theorem store_eq (h : d.isFolder c.folder = true) :
    c.store d q content =
      match checkPath (Device.temporaryIn c.folder) with
      | .error e => .error (.onDisk c.folder (Device.aboutTemporary c.folder e))
      | .ok () => (d.replaceFile q content).mapError (.onDisk q) := by
  unfold store
  rw [Device.createTemporary_eq h]
  cases checkPath (Device.temporaryIn c.folder) with
  | error e => rfl
  | ok _ =>
    have hmoved : Device.replaceFile d q content = d.replaceFile q content := rfl
    have hfilled : Device.fillTemporary d c.folder q content = .ok () := rfl
    dsimp only
    rw [hfilled, hmoved]
    cases d.replaceFile q content <;> rfl

/-- The device makes each of the changes by which a file is stored. -/
structure Spared [Device] (c : Cache) (d : Disk) (q : Path) (content : Bytes) : Prop where
  created : Device.fault? d (.createTemporary c.folder q) = none
  filled : Device.fault? d (.fillTemporary c.folder q content) = none
  moved : Device.fault? d (.replaceFile q content) = none

theorem spared_sound : c.Spared d q content := ⟨rfl, rfl, rfl⟩

/-- **A file is stored** in a cache whose folder is there when the device makes the changes, the path of the
temporary file is not too long and the file can be put in its place. -/
theorem store_eq_ok_iff_spared [Device] (hfolder : d.isFolder c.folder = true) :
    c.store d q content = .ok d' ↔ c.Spared d q content ∧
      checkPath (Device.temporaryIn c.folder) = .ok () ∧ d.replaceFile q content = .ok d' := by
  constructor
  · intro h
    unfold store at h
    split at h
    · cases h
    · rename_i hcreated
      split at h
      · cases h
      · rename_i hfilled
        split at h
        · cases h
        · rename_i hmoved
          cases h
          obtain ⟨hspared, hpath⟩ := (Device.createTemporary_eq_ok_iff hfolder).1 hcreated
          obtain ⟨hspared', hreplaced⟩ := Device.asWhole_eq_ok_iff.1 hmoved
          exact ⟨⟨hspared, Device.fillTemporary_eq_ok_iff.1 hfilled, hspared'⟩, hpath, hreplaced⟩
  · rintro ⟨⟨hcreated, hfilled, hmoved⟩, hpath, hreplaced⟩
    have hmoved' : Device.replaceFile d q content = .ok d' :=
      Device.asWhole_eq_ok_iff.2 ⟨hmoved, hreplaced⟩
    unfold store
    rw [(Device.createTemporary_eq_ok_iff hfolder).2 ⟨hcreated, hpath⟩,
      Device.fillTemporary_eq_ok_iff.2 hfilled, hmoved']

end Stores

variable [Device] (c : Cache) (compiler : Compiler) (d : Disk) (p : Descriptor)

variable {c d} in
theorem replaceFile_of_store {d' : Disk} {q : Path} {content : Bytes}
    (h : c.store d q content = .ok d') : d.replaceFile q content = .ok d' := by
  unfold store at h
  split at h
  · cases h
  · split at h
    · cases h
    · split at h
      · cases h
      · rename_i hreplaced
        cases h
        exact Device.replaceFile_eq_ok hreplaced

variable {c d} in
theorem isFolder_store {d' : Disk} {q : Path} {content : Bytes}
    (h : c.store d q content = .ok d') (folder : Path) : d'.isFolder folder = d.isFolder folder := by
  obtain ⟨rfl, hroot, hfree⟩ := replaceFile_eq_ok (replaceFile_of_store h)
  exact isFolder_eq (fun _ => isFolderAt_put hroot (beq_eq_false_iff_ne.2 hfree)) folder

theorem changesOnly_store {d' : Disk} {q : Path} {content : Bytes}
    (h : c.store d q content = .ok d') : ChangesOnly (· = q.place) d d' :=
  changesOnly_replaceFile (replaceFile_of_store h)

/-- The artifact is stored, then its sidecar. -/
theorem storeBoth_cases (artifact : Path) (binary : Bytes) :
    (∃ e, c.store d artifact binary = .error e ∧ c.storeBoth d p artifact binary = (.error e, d)) ∨
      ∃ d₁, c.store d artifact binary = .ok d₁ ∧
        ((∃ e, c.store d₁ (sidecarPath artifact) (Text.Utf8.encode p.checksum.hex) = .error e ∧
            c.storeBoth d p artifact binary = (.error e, d₁)) ∨
          ∃ d₂, c.store d₁ (sidecarPath artifact) (Text.Utf8.encode p.checksum.hex) = .ok d₂ ∧
            c.storeBoth d p artifact binary = (.ok (), d₂)) := by
  unfold storeBoth
  split
  · exact .inl ⟨_, ‹_›, rfl⟩
  · refine .inr ⟨_, ‹_›, ?_⟩
    split
    · exact .inl ⟨_, ‹_›, rfl⟩
    · exact .inr ⟨_, ‹_›, rfl⟩

/-- What compiling a patch comes to: only what is built is stored. -/
inductive Compiles : Job → Prop
  | absent (folder : d.isFolder c.folder = false) :
      Compiles ⟨.error (.missingFolder c.folder), none, d⟩
  | reused (current : isCurrent d p (c.artifactPath p.name) = true) :
      Compiles ⟨.ok ⟨p.withArtifact (c.artifactPath p.name), .reused⟩, none, d⟩
  | unread {e : Error} (request : c.requestFor d p = .error e) : Compiles ⟨.error e, none, d⟩
  | refused {r : Request} {e : Error} (request : c.requestFor d p = .ok r)
      (binary : binaryOf compiler p r = .error e) : Compiles ⟨.error e, some r, d⟩
  | unstored {r : Request} {content : Bytes} {e : Error} {d' : Disk}
      (folder : d.isFolder c.folder = true) (request : c.requestFor d p = .ok r)
      (binary : binaryOf compiler p r = .ok content)
      (stored : c.storeBoth d p (c.artifactPath p.name) content = (.error e, d')) :
      Compiles ⟨.error e, some r, d'⟩
  | compiled {r : Request} {content : Bytes} {d' : Disk}
      (folder : d.isFolder c.folder = true) (request : c.requestFor d p = .ok r)
      (binary : binaryOf compiler p r = .ok content)
      (stored : c.storeBoth d p (c.artifactPath p.name) content = (.ok (), d')) :
      Compiles ⟨.ok ⟨p.withArtifact (c.artifactPath p.name), .compiled⟩, some r, d'⟩

/-- **What `compile` does**, case by case. -/
theorem compiles_compile : c.Compiles compiler d p (c.compile compiler d p) := by
  unfold compile
  split
  · rename_i hfolder
    exact .absent (by simpa using hfolder)
  · rename_i hfolder
    rw [Bool.not_eq_true, Bool.not_eq_false'] at hfolder
    dsimp only
    split
    · rename_i hcurrent
      exact .reused hcurrent
    · unfold build
      split
      · rename_i hrequest
        exact .unread hrequest
      · rename_i hrequest
        split
        · rename_i hbinary
          exact .refused hrequest hbinary
        · rename_i hbinary
          split
          · rename_i hstored
            exact .unstored hfolder hrequest hbinary hstored
          · rename_i hstored
            exact .compiled hfolder hrequest hbinary hstored

theorem changesOnly_storeBoth (binary : Bytes) :
    ChangesOnly c.IsPlace d (c.storeBoth d p (c.artifactPath p.name) binary).2 := by
  rcases c.storeBoth_cases d p (c.artifactPath p.name) binary with ⟨e, -, hboth⟩ |
    ⟨d₁, hartifact, ⟨e, -, hboth⟩ | ⟨d₂, hsidecar, hboth⟩⟩ <;> rw [hboth]
  · exact ChangesOnly.refl _ d
  all_goals
    have hfirst : ChangesOnly c.IsPlace d d₁ :=
      (c.changesOnly_store d hartifact).mono fun _ hn => ⟨p.name, Or.inl hn⟩
  · exact hfirst
  · exact hfirst.trans ((c.changesOnly_store d₁ hsidecar).mono fun _ hn => ⟨p.name, Or.inr hn⟩)

/-- Compiling a patch touches its artifact and its sidecar only. -/
theorem changesOnly_compile : ChangesOnly c.IsPlace d (c.compile compiler d p).disk := by
  have hcompiles := c.compiles_compile compiler d p
  generalize c.compile compiler d p = job at hcompiles
  cases hcompiles with
  | @unstored r content e d' _ _ _ stored | @compiled r content d' _ _ _ stored =>
    have hboth := changesOnly_storeBoth c d p content
    rwa [stored] at hboth
  | _ => exact ChangesOnly.refl _ d

end Cache

namespace Sources

variable [Device] (c : Cache) (compiler : Compiler)

theorem changesOnly_compileOne (w : World σ) (p : Descriptor) :
    ChangesOnly c.IsPlace w.disk (compileOne c compiler w p).2.disk := by
  rw [compileOne_eq]
  exact c.changesOnly_compile compiler w.disk p

theorem changesOnly_compileEach (w : World σ) (ps : List Descriptor) :
    ChangesOnly c.IsPlace w.disk (compileEach c compiler w ps).2.disk := by
  induction ps generalizing w with
  | nil => exact ChangesOnly.refl _ _
  | cons p ps ih => exact (changesOnly_compileOne c compiler w p).trans (ih _)

/-- Sources that cannot be made ready leave the disk as it is. -/
theorem changesOnly_prepare (defaults : Defaults) (w : World σ) (sources : List Path) :
    ChangesOnly (fun n => (∃ prepared, (prepare c compiler defaults w sources).1 = .ok prepared) ∧
      c.IsPlace n) w.disk (prepare c compiler defaults w sources).2.disk := by
  rcases prepare_cases c compiler w defaults sources with
    ⟨e, -, hprepare⟩ | ⟨parsed, -, hprepare⟩ <;> rw [hprepare]
  · exact ChangesOnly.refl _ _
  · exact (changesOnly_compileEach c compiler w _).mono fun n hn => ⟨⟨_, rfl⟩, hn⟩

end Sources

/-! ## The store -/

/-- Writing an assembly touches the file it is written to only, whether it fails or not. -/
def ModuleStore.WritesOneFile (store : ModuleStore σ) : Prop :=
  ∀ (state : σ) (d : Disk) (a : Assembly) (p : Path) (n : Names), n ≠ p.place →
    Disk.entry? (store.write state d a p).2.2 n = d.entry? n

/-- Writing an assembly touches the file it is written to only, and nothing when it fails. -/
structure ModuleStore.WritesInPlace (store : ModuleStore σ) : Prop where
  others : ∀ (state : σ) (d : Disk) (a : Assembly) (p : Path) (n : Names), n ≠ p.place →
    Disk.entry? (store.write state d a p).2.2 n = d.entry? n
  failed : ∀ (state : σ) (d : Disk) (a : Assembly) (p : Path) (e : Error),
    (store.write state d a p).1 = .error e →
      ∀ n, Disk.entry? (store.write state d a p).2.2 n = d.entry? n

theorem World.changesOnly_write {store : ModuleStore σ} (hstore : store.WritesInPlace) (w : World σ)
    (a : Assembly) (p : Path) :
    ChangesOnly (fun n => (w.write store a p).1 = .ok () ∧ n = p.place) w.disk
      (w.write store a p).2.disk := by
  refine ChangesOnly.of_entries fun n hn => ?_
  cases hresult : (w.write store a p).1 with
  | error e => exact hstore.failed w.store w.disk a p e hresult n
  | ok u =>
    refine hstore.others w.store w.disk a p n fun hplace => hn ⟨hresult, hplace⟩

/-! ## The turns of a run -/

namespace Session

/-- The artifact of a patch is put at the place when it is put beside a binary. -/
def PutsBeside (p : Descriptor) (binary : Path) (n : Names) : Prop :=
  ∃ artifact place, artifactOf p = .ok artifact ∧ placeBeside artifact binary = .ok place ∧
    n = place.place

/-- What the turns of the named binaries may touch: backups, artifacts that are put beside their
binaries, and the binaries that are written. -/
inductive Touches (b : Backup) (l : Layout) (ps : List Descriptor) (names : List String)
    (written : List Path) (n : Names) : Prop
  | backup {name : String} (mem : name ∈ names) (uses : b.Uses l name n)
  | artifact {p : Descriptor} (mem : p ∈ ps) (puts : PutsBeside p (l.binaryOf p.assembly) n)
  | binary {q : Path} (mem : q ∈ written) (place : n = q.place)

theorem Touches.mono {b : Backup} {l : Layout} {ps : List Descriptor} {names names' : List String}
    {written written' : List Path} {n : Names} (h : Touches b l ps names written n)
    (hnames : ∀ name ∈ names, name ∈ names') (hwritten : ∀ q ∈ written, q ∈ written') :
    Touches b l ps names' written' n := by
  cases h with
  | backup mem uses => exact .backup (hnames _ mem) uses
  | artifact mem puts => exact .artifact mem puts
  | binary mem place => exact .binary (hwritten _ mem) place

theorem disk_applyPatch (s : Session σ) (w : World σ) (a : Assembly) (p : Descriptor) :
    (s.applyPatch w a p).2.disk = w.disk := by
  rcases s.world_applyPatch w a p with hworld | ⟨artifact, hworld⟩ <;> rw [hworld]
  rfl

theorem changesOnly_writeGuarded {s : Session σ} (binary : Path) (hstore : s.store.WritesInPlace)
    (w : World σ) (a : Assembly) :
    ChangesOnly (fun n => (s.writeGuarded w a binary).1 = .ok () ∧ n = binary.place) w.disk
      (s.writeGuarded w a binary).2.disk := by
  rcases s.writeGuarded_cases w a binary with ⟨e, -, hwrite⟩ | ⟨-, hwrite⟩ <;> rw [hwrite]
  · exact ChangesOnly.refl _ _
  · exact World.changesOnly_write hstore w a binary

/-- The artifacts of a group are put beside its binary. -/
theorem Touches.of_group (l : Layout) (b : Backup) (ps : List Descriptor) {names : List String}
    {name : String} {written : List Path} {n : Names}
    (h : ∃ p ∈ groupOf name ps, PutsBeside p (l.binaryOf name) n) :
    Touches b l ps names written n := by
  obtain ⟨p, hp, hputs⟩ := h
  rw [← assembly_of_mem_groupOf ps hp] at hputs
  exact .artifact (mem_of_mem_groupOf ps hp) hputs

section Groups

variable [Device] (s : Session σ) (binary : Path)

/-- An artifact that is put beside a binary leaves some content in its place, or the disk as it is. -/
theorem disk_deploy (d : Disk) (p : Descriptor) : (deploy d p binary).2 = d ∨
    ∃ artifact place content, artifactOf p = .ok artifact ∧
      placeBeside artifact binary = .ok place ∧
        d.writeFile place content = .ok (deploy d p binary).2 := by
  unfold deploy
  split
  · exact .inl rfl
  · rename_i artifact hartifact
    split
    · exact .inl rfl
    · rename_i place hplace
      have hcopy := Device.disk_copyFile d artifact place
      split <;> rename_i hresult <;> rw [hresult] at hcopy <;>
        exact hcopy.imp_right fun ⟨content, hwrite⟩ =>
          ⟨artifact, place, content, hartifact, hplace, hwrite⟩

theorem changesOnly_deploy (d : Disk) (p : Descriptor) :
    ChangesOnly (PutsBeside p binary) d (deploy d p binary).2 := by
  rcases disk_deploy binary d p with hsame | ⟨artifact, place, content, hartifact, hplace, hwrite⟩
  · rw [hsame]
    exact ChangesOnly.refl _ d
  · exact (changesOnly_writeFile hwrite).mono fun n hn => ⟨artifact, place, hartifact, hplace, hn⟩

theorem changesOnly_applyNext (now : Patching σ) (p : Descriptor) :
    ChangesOnly (PutsBeside p binary) now.world.disk (s.applyNext binary now p).world.disk := by
  have hpatch := s.disk_applyPatch now.world now.assembly p
  rcases s.world_applyNext binary now p with hworld | hworld <;> rw [hworld]
  · rw [hpatch]
    exact ChangesOnly.refl _ _
  · rw [← hpatch]
    exact changesOnly_deploy binary _ p

/-- Applying patches touches the places of their artifacts beside the binary only. -/
theorem changesOnly_foldl_applyNext (group : List Descriptor) (now : Patching σ) :
    ChangesOnly (fun n => ∃ p ∈ group, PutsBeside p binary n) now.world.disk
      (group.foldl (s.applyNext binary) now).world.disk := by
  induction group generalizing now with
  | nil => exact ChangesOnly.refl _ _
  | cons p group ih =>
    have hfirst := s.changesOnly_applyNext binary now p
    exact (hfirst.mono fun n hn => ⟨p, List.mem_cons_self, hn⟩).trans
      ((ih _).mono fun n ⟨q, hq, hn⟩ => ⟨q, List.mem_cons_of_mem _ hq, hn⟩)

/-- The turn of an open binary touches artifacts beside it and the binary, even when the store fails. -/
theorem changesOnly_turn (hstore : s.store.WritesOneFile) (w : World σ) (a : Assembly)
    (group : List Descriptor) :
    ChangesOnly (fun n => (∃ p ∈ group, PutsBeside p binary n) ∨ n = binary.place) w.disk
      (s.patchBinary w binary a group).2.disk := by
  have happly := s.changesOnly_foldl_applyNext binary group ⟨a, false, [], w⟩
  have hwrite : ChangesOnly (· = binary.place) (s.applyAll w binary a group).world.disk
      (s.writeGuarded (s.applyAll w binary a group).world (s.applyAll w binary a group).assembly
        binary).2.disk := by
    rcases s.writeGuarded_cases (s.applyAll w binary a group).world
      (s.applyAll w binary a group).assembly binary with ⟨e, -, hwrite⟩ | ⟨-, hwrite⟩ <;> rw [hwrite]
    · exact ChangesOnly.refl _ _
    · exact ChangesOnly.of_entries fun n hn => hstore _ _ _ binary n hn
  have hboth := (happly.mono fun n hn => Or.inl hn).trans (hwrite.mono fun n hn => Or.inr hn)
  rcases s.patchBinary_cases w a binary group with
    ⟨-, hturn⟩ | ⟨-, ⟨w', hresult, hturn⟩ | ⟨e, w', hresult, hturn⟩⟩ <;> rw [hturn]
  · exact happly.mono fun n hn => Or.inl hn
  all_goals rwa [hresult] at hboth

variable {s} (hstore : s.store.WritesInPlace) (w : World σ) (a : Assembly)
  (group : List Descriptor)
include hstore

/-- The turn of an open binary touches artifacts beside it, and the binary only if it is written. -/
theorem changesOnly_patchBinary :
    ChangesOnly (fun n => (∃ p ∈ group, PutsBeside p binary n) ∨
        ∃ q ∈ (s.patchBinary w binary a group).1.written, n = q.place)
      w.disk (s.patchBinary w binary a group).2.disk := by
  have happly := s.changesOnly_foldl_applyNext binary group ⟨a, false, [], w⟩
  have hwrite := changesOnly_writeGuarded binary hstore (s.applyAll w binary a group).world
    (s.applyAll w binary a group).assembly
  rcases s.patchBinary_cases w a binary group with
    ⟨-, hturn⟩ | ⟨-, ⟨w', hresult, hturn⟩ | ⟨e, w', hresult, hturn⟩⟩ <;> rw [hturn]
  · exact happly.mono fun n hn => Or.inl hn
  · rw [hresult] at hwrite
    exact (happly.mono fun n hn => Or.inl hn).trans
      (hwrite.mono fun n hn => Or.inr ⟨binary, List.mem_singleton_self _, hn.2⟩)
  · rw [hresult] at hwrite
    exact (happly.mono fun n hn => Or.inl hn).trans
      (hwrite.mono fun n hn => nomatch hn.1)

end Groups

section Turns

variable [Device] {s : Session σ} (hstore : s.store.WritesInPlace) (l : Layout) (b : Backup)
  (ps : List Descriptor) (w : World σ)

theorem changesOnly_openOther {name : String} (hother : name ≠ l.primaryName) :
    ChangesOnly (b.Uses l name) w.disk (s.openOther l b w (l.assemblyPath name)).2.disk := by
  have hsave := b.changesOnly_saveOther l w.disk hother
  rcases s.openOther_cases w l b (l.assemblyPath name) with
    ⟨e, disk, hresult, hopen⟩ | ⟨taken, disk, hresult, hopen⟩ <;> rw [hopen] <;>
    rw [hresult] at hsave <;> exact hsave

include hstore

/-- The turn of the named binary touches artifacts beside it, and the binary only if it is written. -/
theorem changesOnly_patchGroup (name : String) (a : Assembly) :
    ChangesOnly
      (Touches b l ps [] (s.patchBinary w (l.binaryOf name) a (groupOf name ps)).1.written) w.disk
      (s.patchBinary w (l.binaryOf name) a (groupOf name ps)).2.disk := by
  have hpatch := changesOnly_patchBinary (l.binaryOf name) hstore w a (groupOf name ps)
  refine hpatch.mono fun n hn => ?_
  rcases hn with hputs | ⟨q, hq, hplace⟩
  · exact .of_group l b ps hputs
  · exact .binary hq hplace

/-- The turn of another binary touches its backup, artifacts beside it, and the binary only if it is
written. -/
theorem changesOnly_patchOther {name : String} (hother : name ≠ l.primaryName) :
    ChangesOnly (Touches b l ps [name] (s.patchOther l b w name (groupOf name ps)).1.written) w.disk
      (s.patchOther l b w name (groupOf name ps)).2.disk := by
  have hopen := changesOnly_openOther (s := s) l b w hother
  have hbinary : l.binaryOf name = l.assemblyPath name := if_neg hother
  rcases s.patchOther_cases w l b name (groupOf name ps) with
    ⟨e, w₁, hresult, hturn⟩ | ⟨a, w₁, hresult, hturn⟩ <;> rw [hturn] <;> rw [hresult] at hopen
  · exact hopen.mono fun n hn => .backup (List.mem_singleton_self name) hn
  · have hpatch := changesOnly_patchGroup hstore l b ps w₁ name a
    rw [hbinary] at hpatch
    refine (hopen.mono fun n hn => ?_).trans (hpatch.mono fun n hn => ?_)
    · exact .backup (List.mem_singleton_self name) hn
    · exact hn.mono (fun _ hmem => absurd hmem List.not_mem_nil) fun _ hq => hq

theorem changesOnly_patchOthers {names : List String} (hothers : l.primaryName ∉ names) :
    ChangesOnly (Touches b l ps names (s.patchOthers l b ps w names).1.written) w.disk
      (s.patchOthers l b ps w names).2.disk := by
  induction names generalizing w with
  | nil => exact ChangesOnly.refl _ _
  | cons name names ih =>
    obtain ⟨hname, hothers⟩ := List.ne_and_not_mem_of_not_mem_cons hothers
    rw [patchOthers_cons, Report.written_append]
    have hfirst := changesOnly_patchOther hstore l b ps w (Ne.symm hname)
    refine (hfirst.mono fun n hn => ?_).trans ((ih _ hothers).mono fun n hn => ?_)
    · refine hn.mono (fun name' hname' => ?_) fun q hq => List.mem_append_left _ hq
      rw [List.mem_singleton.1 hname']
      exact List.mem_cons_self
    · exact hn.mono (fun name' hname' => List.mem_cons_of_mem _ hname') fun q hq =>
        List.mem_append_right _ hq

/-- The turn of the primary binary touches artifacts beside it, and the binary only if it is
written. -/
theorem changesOnly_patchPrimary (a : Assembly) :
    ChangesOnly (Touches b l ps [] (s.patchPrimary l w a ps).1.written) w.disk
      (s.patchPrimary l w a ps).2.disk := by
  have hpatch := changesOnly_patchGroup hstore l b ps w l.primaryName a
  have hbinary : l.binaryOf l.primaryName = l.primary := if_pos rfl
  rw [hbinary] at hpatch
  rcases s.patchPrimary_cases w a l ps with ⟨-, hturn⟩ | ⟨-, hturn⟩ <;> rw [hturn]
  · exact ChangesOnly.refl _ _
  · exact hpatch

/-- **What all turns together touch**: the backups of the other binaries, artifacts beside the
binaries, and the binaries that the report lists as written. -/
theorem changesOnly_patchAll (a : Assembly) :
    ChangesOnly (Touches b l ps (otherNames l.primaryName ps) (s.patchAll l b w a ps).1.written)
      w.disk (s.patchAll l b w a ps).2.disk := by
  have hprimary := changesOnly_patchPrimary hstore l b ps w a
  have hothers := changesOnly_patchOthers hstore l b ps (s.patchPrimary l w a ps).2
    (not_mem_otherNames _ ps)
  rw [patchAll_eq, Report.written_append]
  refine (hprimary.mono fun n hn => ?_).trans (hothers.mono fun n hn => ?_)
  · exact hn.mono (fun _ hmem => absurd hmem List.not_mem_nil) fun q hq =>
      List.mem_append_left _ hq
  · exact hn.mono (fun _ hmem => hmem) fun q hq => List.mem_append_right _ hq

end Turns

/-! ## Setting up -/

section Runs

variable [Device] (s : Session σ) (l : Layout) (w : World σ)

/-- A game is set up when its folders are there and its primary binary is backed up. -/
theorem setUp_cases (d : Disk) :
    (∃ e d₁, l.ensureFolders d = (.error e, d₁) ∧ s.setUp l d = (.error e, d₁)) ∨
      ∃ d₁, l.ensureFolders d = (.ok (), d₁) ∧
        ((∃ e d₂, (s.backupOf l).savePrimary d₁ l.primary = (.error e, d₂) ∧
            s.setUp l d = (.error e, d₂)) ∨
          ∃ taken d₂, (s.backupOf l).savePrimary d₁ l.primary = (.ok taken, d₂) ∧
            s.setUp l d = (.ok (), d₂)) := by
  unfold setUp
  split
  · exact .inl ⟨_, _, ‹_›, rfl⟩
  · refine .inr ⟨_, ‹_›, ?_⟩
    split
    · exact .inl ⟨_, _, ‹_›, rfl⟩
    · exact .inr ⟨_, _, ‹_›, rfl⟩

/-- What making the folders keeps, and then taking the backup, is kept when a game is set up. -/
theorem disk_setUp {R : Disk → Disk → Prop} {d : Disk}
    (trans : ∀ {d d' d''}, R d d' → R d' d'' → R d d'')
    (folders : R d (l.ensureFolders d).2)
    (save : ∀ d₁, R d₁ ((s.backupOf l).savePrimary d₁ l.primary).2) : R d (s.setUp l d).2 := by
  rcases s.setUp_cases l d with ⟨e, d₁, hfolders, hsetUp⟩ |
    ⟨d₁, hfolders, ⟨e, d₂, hsave, hsetUp⟩ | ⟨taken, d₂, hsave, hsetUp⟩⟩ <;>
    rw [hsetUp] <;> rw [hfolders] at folders
  · exact folders
  all_goals
    have hlast := save d₁
    rw [hsave] at hlast
    exact trans folders hlast

/-- Setting up a game touches the backup of its primary binary only. -/
theorem changesOnly_setUp (d : Disk) :
    ChangesOnly ((s.backupOf l).Uses l l.primaryName) d (s.setUp l d).2 := by
  refine s.disk_setUp l ChangesOnly.trans ?_ fun d₁ =>
    (s.backupOf l).changesOnly_savePrimary l d₁ l.primary
  exact (Layout.changesOnly_ensureEach d l.workFolders).of_none

/-- A game that is set up has a backup of its primary binary, taken when the folders were there. -/
theorem save_of_setUp {d placed : Disk} (h : s.setUp l d = (.ok (), placed)) :
    ∃ d₁ taken, ChangesOnly (fun _ => False) d d₁ ∧
      (s.backupOf l).savePrimary d₁ l.primary = (.ok taken, placed) := by
  have hnone : ChangesOnly (fun _ => False) d (l.ensureFolders d).2 :=
    Layout.changesOnly_ensureEach d l.workFolders
  rcases s.setUp_cases l d with ⟨e, d₁, -, hsetUp⟩ |
    ⟨d₁, hfolders, ⟨e, d₂, -, hsetUp⟩ | ⟨taken, d₂, hsave, hsetUp⟩⟩ <;> rw [hsetUp] at h <;> cases h
  rw [hfolders] at hnone
  exact ⟨d₁, taken, hnone, hsave⟩

/-- Sources that cannot be made ready leave the disk as it is. -/
theorem changesOnly_prepare (defaults : Defaults) :
    ChangesOnly (fun n => (∃ prepared, (s.prepare l w defaults).1 = .ok prepared) ∧
      (s.cacheOf l).IsPlace n) w.disk (s.prepare l w defaults).2.disk := by
  rcases s.prepare_cases l w defaults with ⟨e, -, hprepare⟩ | ⟨sources, -, hprepare⟩ <;>
    rw [hprepare]
  · exact ChangesOnly.refl _ _
  · exact Sources.changesOnly_prepare _ _ _ w _

/-- Making the sources ready touches the cache only. -/
theorem changesOnly_of_begins {game : Path} {primary : Assembly} {prepared : Sources.Prepared}
    {w₁ : World σ} (h : s.Begins w game l primary prepared w₁) :
    ∃ placed, s.setUp l w.disk = (.ok (), placed) ∧
      ChangesOnly (s.cacheOf l).IsPlace placed w₁.disk := by
  obtain ⟨-, placed, w₀, hsetUp, hload, hprepare⟩ := h
  obtain rfl : placed = w₀.disk := congrArg (fun r => World.disk r.2) hload
  have hready := s.changesOnly_prepare l w₀ (s.settings.defaults primary.framework)
  rw [hprepare] at hready
  exact ⟨_, hsetUp, hready.mono fun n hn => hn.2⟩

/-- Sources that cannot be made ready leave the world as it is. -/
theorem prepare_of_error {defaults : Defaults} {e : Error}
    (h : (s.prepare l w defaults).1 = .error e) : (s.prepare l w defaults).2 = w := by
  rcases s.prepare_cases l w defaults with ⟨e', -, hprepare⟩ | ⟨sources, -, hprepare⟩ <;>
    rw [hprepare] at h ⊢
  rcases Sources.prepare_cases (s.cacheOf l) s.compiler w defaults sources with
    ⟨e', -, hsources⟩ | ⟨parsed, -, hsources⟩ <;> rw [hsources] at h ⊢
  cases h

/-- A run that ends early has set up the game, and nothing else. -/
theorem disk_patch_of_error {game : Path} {e : Error}
    (hlayout : Layout.discover w.disk game s.settings = .ok l)
    (h : (s.patch w game).1 = .error e) : (s.patch w game).2.disk = (s.setUp l w.disk).2 := by
  unfold patch at h ⊢
  simp only [hlayout] at h ⊢
  split
  · rename_i hresult
    rw [hresult]
  · rename_i placed hresult
    simp only [hresult] at h
    have hload : (World.load s.store { w with disk := placed } l.primary
        (.writableIn l.managed)).2.disk = placed := rfl
    split
    · rename_i hloaded
      rw [hloaded] at hload
      rw [hresult, hload]
    · rename_i primary w₀ hloaded
      rw [hloaded] at hload
      simp only [hloaded, patchOpened] at h ⊢
      split
      · rename_i hresult'
        have hworld := s.prepare_of_error l w₀ (congrArg Prod.fst hresult')
        rw [hresult'] at hworld
        rw [hresult, hworld, hload]
      · rename_i hresult'
        simp only [hresult'] at h
        cases h

/-- A run that ends early touches the backup of the primary binary only. -/
theorem changesOnly_patch_of_error {game : Path} {e : Error}
    (hlayout : Layout.discover w.disk game s.settings = .ok l)
    (h : (s.patch w game).1 = .error e) :
    ChangesOnly ((s.backupOf l).Uses l l.primaryName) w.disk (s.patch w game).2.disk := by
  rw [s.disk_patch_of_error l w hlayout h]
  exact s.changesOnly_setUp l w.disk

end Runs

end Session

end CilGraft
