import CilGraft.Proofs.FileFrames
import CilGraft.Proofs.ReachedFiles

/-!
# What every access keeps

A run changes a disk by putting files and folders on it, where no folder stands and where nothing stands.
So a relation between disks that each of these two keeps is kept by whole runs.

* `Disk.Kept` — a relation between two disks that putting files and folders keeps.
* `Session.Carries` — a relation between worlds that every step of the turns keeps;
  `Carries.patchAll`, and so do all turns.
* `Kept.save`, `Kept.compile`, `Kept.patchAll`, … — the steps of a run keep what every access keeps.
* `Disk.keepsFolders` — no folder is lost.
* `Backup.entry?_makeRoom`, `Layout.entry?_ensureEach` — which folders are created.
-/

set_option autoImplicit false

namespace CilGraft

open Disk

variable {σ : Type}

/-- A relation between a disk and a later one that putting a file and a new folder on it keeps. -/
structure Disk.Kept (R : Disk → Disk → Prop) : Prop where
  refl : ∀ d, R d d
  trans : ∀ {d d' d''}, R d d' → R d' d'' → R d d''
  file : ∀ {d : Disk} {p : Path} {content}, p.place ≠ [] → d.isFolderAt p.place = false →
    R d (d.put p.place (.file content))
  folder : ∀ {d : Disk} {p : Path}, p.place ≠ [] → d.entry? p.place = none →
    R d (d.put p.place .folder)

/-- The store keeps the relation when it writes an assembly. -/
def ModuleStore.Keeps (store : ModuleStore σ) (R : Disk → Disk → Prop) : Prop :=
  ∀ (state : σ) (d : Disk) (a : Assembly) (p : Path), R d (store.write state d a p).2.2

namespace Disk.Kept

variable {R : Disk → Disk → Prop} (hR : Kept R)
include hR

/-! ## Accesses -/

section Accesses

variable {d d' : Disk} {p q : Path} {content : Bytes}

theorem writeFile (h : d.writeFile p content = .ok d') : R d d' := by
  obtain ⟨rfl, hroot, hfolder⟩ := writeFile_eq_ok h
  exact hR.file hroot (beq_eq_false_iff_ne.2 hfolder)

theorem replaceFile (h : d.replaceFile p content = .ok d') : R d d' := by
  obtain ⟨rfl, hroot, hfolder⟩ := replaceFile_eq_ok h
  exact hR.file hroot (beq_eq_false_iff_ne.2 hfolder)

theorem createFolder (h : d.createFolder p = .ok d') : R d d' := by
  obtain ⟨rfl, hroot, hnone⟩ := createFolder_eq_ok h
  exact hR.folder hroot hnone

variable [Device]

theorem createFolders (d : Disk) (p place : Path) : R d (d.createFolders p place).2 :=
  disk_createFolders hR.refl hR.trans d p place fun _ _ => hR.createFolder

end Accesses

/-! ## Backups -/

section Backups

variable [Device] (d : Disk) (binary copy marker : Path)

theorem makeRoom : R d (Backup.makeRoom d copy).2 := by
  unfold Backup.makeRoom
  split
  · exact hR.refl d
  · rename_i folder _
    have hfolder := hR.createFolders d folder copy
    split <;> rename_i hresult <;> rwa [hresult] at hfolder

theorem copyOnce : R d (Backup.copyOnce d binary copy).2 := by
  have hroom := hR.makeRoom d copy
  rcases Backup.disk_copyOnce d binary copy with hsame | ⟨-, content, hwrite⟩
  · rwa [hsame]
  · exact hR.trans hroom (hR.writeFile hwrite)

theorem writeMarker : R d (Backup.writeMarker d binary marker).2 := by
  rcases Backup.disk_writeMarker d binary marker with hsame | ⟨content, hwrite⟩
  · rw [hsame]
    exact hR.refl d
  · exact hR.writeFile hwrite

theorem save : R d (Backup.save d binary copy marker).2 := by
  have hcopy := hR.copyOnce d binary copy
  rcases Backup.disk_save d binary copy marker with hsame | ⟨-, hsame | hsame⟩ <;> rw [hsame]
  · exact hR.refl d
  · exact hcopy
  · exact hR.trans hcopy (hR.writeMarker _ binary marker)

theorem saveOther (b : Backup) : R d (b.saveOther d binary).2 := by
  unfold Backup.saveOther
  split
  · exact hR.refl d
  · exact hR.save d binary _ _

end Backups

/-! ## Setting up -/

section Folders

variable [Device]

theorem ensureFolder (d : Disk) (p : Path) : R d (Layout.ensureFolder d p).2 := by
  have hfolders := hR.createFolders d p p
  unfold Layout.ensureFolder
  split
  · exact hR.refl d
  · split <;> rename_i hresult <;> rwa [hresult] at hfolders

theorem ensureEach (d : Disk) (ps : List Path) : R d (Layout.ensureEach d ps).2 := by
  induction ps generalizing d with
  | nil => exact hR.refl d
  | cons p ps ih =>
    have hfirst := hR.ensureFolder d p
    unfold Layout.ensureEach
    split <;> rename_i hresult <;> rw [hresult] at hfirst
    · exact hfirst
    · exact hR.trans hfirst (ih _)

theorem setUp (s : Session σ) (l : Layout) (d : Disk) : R d (s.setUp l d).2 := by
  exact s.disk_setUp l hR.trans (hR.ensureEach d l.workFolders) fun d₁ => hR.save d₁ l.primary _ _

end Folders

/-! ## The cache -/

section Caches

variable [Device] (c : Cache) (compiler : Compiler)

theorem store {d d' : Disk} {p : Path} {content : Bytes} (h : c.store d p content = .ok d') :
    R d d' := hR.replaceFile (Cache.replaceFile_of_store h)

theorem storeBoth (d : Disk) (p : Descriptor) (artifact : Path) (binary : Bytes) :
    R d (c.storeBoth d p artifact binary).2 := by
  rcases c.storeBoth_cases d p artifact binary with ⟨e, -, hboth⟩ |
    ⟨d₁, hartifact, ⟨e, -, hboth⟩ | ⟨d₂, hsidecar, hboth⟩⟩ <;> rw [hboth]
  · exact hR.refl d
  · exact hR.store c hartifact
  · exact hR.trans (hR.store c hartifact) (hR.store c hsidecar)

theorem compile (d : Disk) (p : Descriptor) : R d (c.compile compiler d p).disk := by
  have hcompiles := c.compiles_compile compiler d p
  generalize c.compile compiler d p = job at hcompiles
  cases hcompiles with
  | @unstored r content e d' _ _ _ stored | @compiled r content d' _ _ _ stored =>
    have hboth := hR.storeBoth c d p (c.artifactPath p.name) content
    rwa [stored] at hboth
  | _ => exact hR.refl d

theorem compileEach (w : World σ) (ps : List Descriptor) :
    R w.disk (Sources.compileEach c compiler w ps).2.disk := by
  induction ps generalizing w with
  | nil => exact hR.refl _
  | cons p ps ih =>
    have hone : R w.disk (Sources.compileOne c compiler w p).2.disk := by
      rw [Sources.compileOne_eq]
      exact hR.compile c compiler w.disk p
    exact hR.trans hone (ih _)

theorem prepare (s : Session σ) (l : Layout) (w : World σ) (defaults : Defaults) :
    R w.disk (s.prepare l w defaults).2.disk := by
  rcases s.prepare_cases l w defaults with ⟨e, -, hprepare⟩ | ⟨sources, -, hprepare⟩ <;>
    rw [hprepare]
  · exact hR.refl _
  · rcases Sources.prepare_cases (s.cacheOf l) s.compiler w defaults sources with
      ⟨e, -, hsources⟩ | ⟨parsed, -, hsources⟩ <;> rw [hsources]
    · exact hR.refl _
    · exact hR.compileEach _ _ w _

end Caches

end Disk.Kept

namespace Session

/-! ## What the steps of the turns carry on -/

/-- A relation between a world and a later one that holds for each step of the turns, whatever the device
is: an assembly is loaded, the artifact of a patch is put beside its binary, the binary of a patch is
written or backed up. -/
structure Carries (s : Session σ) (l : Layout) (b : Backup) (ps : List Descriptor)
    (R : World σ → World σ → Prop) : Prop where
  refl : ∀ w, R w w
  trans : ∀ {w w' w''}, R w w' → R w' w'' → R w w''
  load : ∀ w p o, R w (w.load s.store p o).2
  deploy : ∀ [Device] w, ∀ p ∈ ps, R w { w with disk := (deploy w.disk p (l.binaryOf p.assembly)).2 }
  write : ∀ w a, ∀ p ∈ ps, R w (w.write s.store a (l.binaryOf p.assembly)).2
  save : ∀ [Device] w, ∀ p ∈ ps, p.assembly ≠ l.primaryName →
    R w { w with disk := (b.saveOther w.disk (l.assemblyPath p.assembly)).2 }

namespace Carries

variable {s : Session σ} {l : Layout} {b : Backup} {ps : List Descriptor}
  {R : World σ → World σ → Prop} (h : s.Carries l b ps R)
include h

theorem applyPatch (w : World σ) (a : Assembly) (p : Descriptor) : R w (s.applyPatch w a p).2 := by
  rcases s.world_applyPatch w a p with hworld | ⟨artifact, hworld⟩ <;> rw [hworld]
  · exact h.refl w
  · exact h.load w artifact .readOnly

theorem writeGuarded {p : Descriptor} (hp : p ∈ ps) (w : World σ) (a : Assembly) :
    R w (s.writeGuarded w a (l.binaryOf p.assembly)).2 := by
  rcases s.writeGuarded_cases w a (l.binaryOf p.assembly) with
    ⟨e, -, hwrite⟩ | ⟨-, hwrite⟩ <;> rw [hwrite]
  · exact h.refl w
  · exact h.write w a p hp

variable [Device]

theorem applyNext {p : Descriptor} (hp : p ∈ ps) (now : Patching σ) :
    R now.world (s.applyNext (l.binaryOf p.assembly) now p).world := by
  have hpatch := h.applyPatch now.world now.assembly p
  rcases s.world_applyNext (l.binaryOf p.assembly) now p with hworld | hworld <;> rw [hworld]
  · exact hpatch
  · exact h.trans hpatch (h.deploy _ p hp)

theorem foldl_applyNext {name : String} {group : List Descriptor}
    (hgroup : ∀ p ∈ group, p ∈ ps ∧ p.assembly = name) (now : Patching σ) :
    R now.world (group.foldl (s.applyNext (l.binaryOf name)) now).world := by
  induction group generalizing now with
  | nil => exact h.refl _
  | cons p group ih =>
    obtain ⟨⟨hp, rfl⟩, hgroup⟩ := List.forall_mem_cons.1 hgroup
    exact h.trans (h.applyNext hp now) (ih hgroup _)

/-- The turn of a binary. One without patches ends as it begins. -/
theorem patchBinary (name : String) (w : World σ) (a : Assembly) :
    R w (s.patchBinary w (l.binaryOf name) a (groupOf name ps)).2 := by
  have hgroup : ∀ p ∈ groupOf name ps, p ∈ ps ∧ p.assembly = name := fun p hp =>
    ⟨mem_of_mem_groupOf ps hp, assembly_of_mem_groupOf ps hp⟩
  have happly : R w (s.applyAll w (l.binaryOf name) a (groupOf name ps)).world :=
    h.foldl_applyNext hgroup ⟨a, false, [], w⟩
  rcases s.patchBinary_cases w a (l.binaryOf name) (groupOf name ps) with
    ⟨-, hturn⟩ | ⟨hchanged, hturn⟩
  · rw [hturn]
    exact happly
  · cases hps : groupOf name ps with
    | nil =>
      rw [hps] at hchanged
      cases hchanged
    | cons p group =>
      obtain ⟨hp, rfl⟩ := hgroup p (hps ▸ List.mem_cons_self)
      rw [← hps]
      have hwrite := h.writeGuarded hp
        (s.applyAll w (l.binaryOf p.assembly) a (groupOf p.assembly ps)).world
        (s.applyAll w (l.binaryOf p.assembly) a (groupOf p.assembly ps)).assembly
      rcases hturn with ⟨w', hresult, hturn⟩ | ⟨e, w', hresult, hturn⟩ <;> rw [hturn] <;>
        rw [hresult] at hwrite <;> exact h.trans happly hwrite

theorem patchOther {name : String} (hname : name ∈ otherNames l.primaryName ps) (w : World σ) :
    R w (s.patchOther l b w name (groupOf name ps)).2 := by
  obtain ⟨hother, p, hp, rfl⟩ := mem_otherNames.1 hname
  have hsave := h.save w p hp hother
  have hopen : R w (s.openOther l b w (l.assemblyPath p.assembly)).2 := by
    rcases s.openOther_cases w l b (l.assemblyPath p.assembly) with
      ⟨e, disk, hresult, hopen⟩ | ⟨taken, disk, hresult, hopen⟩ <;> rw [hopen] <;>
      rw [hresult] at hsave
    · exact hsave
    · exact h.trans hsave (h.load _ _ _)
  have hbinary : l.binaryOf p.assembly = l.assemblyPath p.assembly := if_neg hother
  rcases s.patchOther_cases w l b p.assembly (groupOf p.assembly ps) with
    ⟨e, w₁, hresult, hends⟩ | ⟨a, w₁, hresult, hends⟩ <;> rw [hends] <;> rw [hresult] at hopen
  · exact hopen
  · have hturn := h.patchBinary p.assembly w₁ a
    rw [hbinary] at hturn
    exact h.trans hopen hturn

theorem patchOthers {names : List String}
    (hnames : ∀ name ∈ names, name ∈ otherNames l.primaryName ps)
    (w : World σ) : R w (s.patchOthers l b ps w names).2 := by
  induction names generalizing w with
  | nil => exact h.refl w
  | cons name names ih =>
    obtain ⟨hname, hnames⟩ := List.forall_mem_cons.1 hnames
    exact h.trans (h.patchOther hname w) (ih hnames _)

/-- **All turns of a run carry on what each of their steps does.** -/
theorem patchAll (w : World σ) (a : Assembly) : R w (s.patchAll l b w a ps).2 := by
  have hprimary : R w (s.patchPrimary l w a ps).2 := by
    have hturn := h.patchBinary l.primaryName w a
    rw [Layout.binaryOf, if_pos rfl] at hturn
    rcases s.patchPrimary_cases w a l ps with ⟨-, hends⟩ | ⟨-, hends⟩ <;> rw [hends]
    · exact h.refl w
    · exact hturn
  rw [patchAll_eq]
  exact h.trans hprimary (h.patchOthers (fun _ hname => hname) _)

end Carries

end Session

/-! ## The turns of a run -/

namespace Disk.Kept

variable {R : Disk → Disk → Prop} (hR : Kept R)
include hR

theorem deploy [Device] (d : Disk) (p : Descriptor) (binary : Path) :
    R d (Session.deploy d p binary).2 := by
  rcases Session.disk_deploy binary d p with hsame | ⟨_, _, _, -, -, hwrite⟩
  · rw [hsame]
    exact hR.refl d
  · exact hR.writeFile hwrite

theorem carries {s : Session σ} (hstore : s.store.Keeps R) (l : Layout) (b : Backup)
    (ps : List Descriptor) : s.Carries l b ps fun w w' => R w.disk w'.disk where
  refl w := hR.refl w.disk
  trans := hR.trans
  load w _ _ := hR.refl w.disk
  deploy w p _ := hR.deploy w.disk p _
  write w a p _ := hstore w.store w.disk a (l.binaryOf p.assembly)
  save w _ _ _ := hR.saveOther w.disk _ b

/-- **All turns of a run keep what every access keeps.** -/
theorem patchAll [Device] {s : Session σ} (hstore : s.store.Keeps R) (l : Layout) (b : Backup)
    (ps : List Descriptor) (w : World σ) (a : Assembly) :
    R w.disk (s.patchAll l b w a ps).2.disk :=
  (hR.carries hstore l b ps).patchAll w a

end Disk.Kept

/-! ## Folders stay -/

namespace Disk

variable {d d' : Disk} {p : Path} {n : Names}

/-- No folder is lost. -/
def KeepsFolders (d d' : Disk) : Prop := ∀ m, d.isFolderAt m = true → d'.isFolderAt m = true

theorem keepsFolders : Kept KeepsFolders where
  refl _ _ h := h
  trans h h' m hm := h' m (h m hm)
  file hroot hfree m hm := by rwa [isFolderAt_put hroot hfree]
  folder {d p} hroot hnone m hm := by
    by_cases heq : m = p.place
    · rw [heq, isFolderAt, entry?_put _ hroot]
      rfl
    · rwa [isFolderAt, entry?_put_of_ne _ heq]

theorem ChangesOnly.keepsFolders (h : ChangesOnly (fun _ => False) d d') : KeepsFolders d d' := by
  intro m hm
  exact beq_iff_eq.2 (h.kept m _ id (beq_iff_eq.1 hm))

end Disk

/-! ## New folders -/

section Rooms

variable [Device] {n : Names} (d : Disk)

theorem Backup.entry?_makeRoom (copy : Path)
    (hn : ∀ folder, copy.parent? = some folder → ∀ q ∈ folder.folders, q.place ≠ n) :
    Disk.entry? (Backup.makeRoom d copy).2 n = d.entry? n := by
  unfold Backup.makeRoom
  split
  · rfl
  · rename_i folder hfolder
    have hfolders := entry?_createFolders d folder copy (hn folder hfolder)
    split <;> rename_i hresult <;> rwa [hresult] at hfolders

end Rooms

end CilGraft
