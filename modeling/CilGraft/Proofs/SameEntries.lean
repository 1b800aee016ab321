import CilGraft.Proofs.Turns

/-!
# Disks with the same entries

A disk is kept as the list of its entries, and the order of the list tells in which order they were
made. Hardly anything looks at this order: two disks with the same entry at each place give the same
results, and disks with the same entries again.

* `Disk.SameEntries` — the same files and folders at the same places.
* `Disk.SameResult` — accesses that fail for the same reason or lead to the same entries.
* `SameEntries.copyFile`, `SameEntries.createFoldersUpTo`, … — each access on two such disks, with a device
  that never fails.
* `ModuleStore.IsExtensional` — a store that does not look at the order either.
* `Session.patchAll_same` — the turns of all patches on two such disks.
-/

set_option autoImplicit false

namespace CilGraft

open Disk

variable {σ : Type}

/-- Two steps give the same value, and what they lead to is related. -/
inductive Agree {α β : Type} (R : β → β → Prop) : α × β → α × β → Prop
  | mk (a : α) {b b' : β} (rest : R b b') : Agree R (a, b) (a, b')

theorem Agree.value {α β : Type} {R : β → β → Prop} {x y : α × β} (h : Agree R x y) :
    y.1 = x.1 := by
  cases h
  rfl

theorem Agree.rest {α β : Type} {R : β → β → Prop} {x y : α × β} (h : Agree R x y) :
    R x.2 y.2 := by
  cases h
  assumption

namespace Disk

/-- The disks have the same files and folders at the same places. -/
def SameEntries (d d' : Disk) : Prop := ∀ n, d'.entry? n = d.entry? n

/-- Both accesses fail, and for the same reason, or both lead to disks with the same entries. -/
inductive SameResult {ε : Type} : Except ε Disk → Except ε Disk → Prop
  | error (e : ε) : SameResult (.error e) (.error e)
  | ok {d d' : Disk} (same : SameEntries d d') : SameResult (.ok d) (.ok d')

namespace SameEntries

variable {d d' : Disk}

variable (h : SameEntries d d')
include h

theorem put (n : Names) (e : Entry) : SameEntries (d.put n e) (d'.put n e) := by
  intro m
  by_cases hm : m = n
  · subst hm
    by_cases hroot : m = []
    · rw [ entry?, entry?, if_pos hroot, if_pos hroot]
    · rw [entry?_put _ hroot, entry?_put _ hroot]
  · rw [entry?_put_of_ne _ hm, entry?_put_of_ne _ hm, h]

/-! ## Looking -/

theorem isFolderAt_eq (n : Names) : d'.isFolderAt n = d.isFolderAt n := by
  rw [isFolderAt, isFolderAt, h]

theorem walkFrom_eq (at_ : Names) (ps : List String) : d'.walkFrom at_ ps = d.walkFrom at_ ps := by
  induction ps generalizing at_ with
  | nil => rfl
  | cons piece ps ih => simp only [walkFrom, h.isFolderAt_eq, h _, ih]

theorem walk_eq (p : Path) : d'.walk p = d.walk p := by
  simp only [walk, h.walkFrom_eq]

theorem walkToLast_eq (p : Path) : d'.walkToLast p = d.walkToLast p := by
  simp only [walkToLast, h.walkFrom_eq, h.isFolderAt_eq]

theorem at?_eq (p : Path) : d'.at? p = d.at? p := by
  simp only [at?, h.walk_eq, h _]

theorem isFile_eq (p : Path) : d'.isFile p = d.isFile p := by
  rw [isFile, isFile, h.at?_eq]

theorem isFolder_eq (p : Path) : d'.isFolder p = d.isFolder p := by
  rw [isFolder, isFolder, h.at?_eq]

theorem exists_eq (p : Path) : d'.exists_ p = d.exists_ p := by
  rw [exists_, exists_, h.at?_eq]

theorem readFile_eq (p : Path) : d'.readFile p = d.readFile p := by
  rw [readFile, readFile, h.at?_eq]

/-! ## Changing -/

theorem writeFile (p : Path) (content : Bytes) :
    SameResult (d.writeFile p content) (d'.writeFile p content) := by
  unfold Disk.writeFile
  rw [h.walkToLast_eq]
  cases d.walkToLast p with
  | error e => exact .error e
  | ok last =>
    rcases last with ⟨folder, name, _ | _⟩ | _
    · show SameResult (checkName name >>= _) (checkName name >>= _)
      cases checkName name with
      | error e => exact .error e
      | ok _ =>
        show SameResult (if _ then _ else _) (if _ then _ else _)
        rw [h.isFolderAt_eq]
        split
        · exact .error _
        · exact .ok (h.put _ _)
    · exact .error _
    · exact .error _

theorem copyFile (p q : Path) : SameResult (d.copyFile p q) (d'.copyFile p q) := by
  unfold Disk.copyFile
  rw [h.at?_eq, h.walk_eq]
  cases d.at? p with
  | error e => exact .error e
  | ok entry =>
    cases entry with
    | folder => exact .error _
    | file content =>
      have hempty := h.writeFile q []
      show SameResult (d.writeFile q [] >>= _) (d'.writeFile q [] >>= _)
      generalize d.writeFile q [] = emptied, d'.writeFile q [] = emptied' at hempty
      cases hempty with
      | error e => exact .error e
      | ok same =>
        dsimp only [bind, Except.bind]
        rw [same.walk_eq]
        exact h.writeFile q _

theorem createFolder (p : Path) : SameResult (d.createFolder p) (d'.createFolder p) := by
  unfold Disk.createFolder
  rw [h.walkToLast_eq]
  cases d.walkToLast p with
  | error e => exact .error e
  | ok last =>
    rcases last with ⟨folder, name, _⟩ | _
    · show SameResult (checkName name >>= _) (checkName name >>= _)
      cases checkName name with
      | error e => exact .error e
      | ok _ =>
        show SameResult (if _ then _ else _) (if _ then _ else _)
        rw [h _]
        split
        · exact .error _
        · exact .ok (h.put _ _)
    · exact .error _

theorem inPlace (c : Change) (target : Path) {x y : Except DiskError Disk} (hresult : SameResult x y) :
    Agree SameEntries (Device.inPlace d c target x) (Device.inPlace d' c target y) := by
  cases hresult with
  | error e => exact .mk _ h
  | ok same => exact .mk _ same

omit h in
theorem createFoldersUpTo (place : Path) (depth : Nat) {d d' : Disk} (h : SameEntries d d') (p : Path) :
    Agree SameEntries (Disk.createFoldersUpTo place depth d p)
      (Disk.createFoldersUpTo place depth d' p) := by
  induction depth generalizing d d' p with
  | zero => exact .mk _ h
  | succ depth ih =>
    have hcreate : SameResult (Device.createFolder d p place) (Device.createFolder d' p place) :=
      h.createFolder p
    unfold Disk.createFoldersUpTo
    split
    · exact .mk _ h
    · generalize Device.createFolder d p place = x, Device.createFolder d' p place = y at hcreate
      cases hcreate with
      | ok same => exact .mk _ same
      | error e =>
        have hfallback : ∀ e : DiskError,
            Agree SameEntries (if d.isFolder p then Except.ok () else .error e, d)
              (if d'.isFolder p then Except.ok () else .error e, d') :=
          fun e => h.isFolder_eq p ▸ .mk _ h
        cases e with
        | notFound =>
          dsimp only
          split
          · exact .mk _ h
          · rename_i parent _
            have hparent := ih h parent
            generalize Disk.createFoldersUpTo place depth d parent = x,
              Disk.createFoldersUpTo place depth d' parent = y at hparent
            obtain @⟨result, d₁, d₁', same⟩ := hparent
            cases result with
            | error e => exact .mk _ same
            | ok _ =>
              have hagain : SameResult (Device.createFolder d₁ p place)
                  (Device.createFolder d₁' p place) :=
                same.createFolder p
              dsimp only
              generalize Device.createFolder d₁ p place = x, Device.createFolder d₁' p place = y at hagain
              cases hagain with
              | ok same' => exact .mk _ same'
              | error e =>
                dsimp only
                rw [same.isFolder_eq]
                exact .mk _ same
        | _ => exact hfallback _

end SameEntries

end Disk

/-! ## Backups -/

section Backups

variable {d d' : Disk} (h : SameEntries d d') (binary copy marker : Path)
include h

theorem Backup.makeRoom_same : Agree SameEntries (makeRoom d copy) (makeRoom d' copy) := by
  unfold makeRoom
  split
  · exact .mk _ h
  · rename_i folder _
    have hfolders := h.createFoldersUpTo copy (folder.pieces.length + 2) folder
    unfold createFolders
    generalize createFoldersUpTo copy _ d folder = x, createFoldersUpTo copy _ d' folder = y at hfolders
    obtain ⟨result, same⟩ := hfolders
    cases result <;> exact .mk _ same

theorem Backup.copyOnce_same :
    Agree SameEntries (copyOnce d binary copy) (copyOnce d' binary copy) := by
  have hroom := makeRoom_same h copy
  unfold copyOnce
  generalize makeRoom d copy = x, makeRoom d' copy = y at hroom
  obtain @⟨result, d₁, d₁', same⟩ := hroom
  cases result with
  | error e => exact .mk _ same
  | ok _ =>
    dsimp only
    rw [same.exists_eq]
    split
    · exact .mk _ same
    · have hcopy : Agree SameEntries (Device.copyFile d₁ binary copy)
          (Device.copyFile d₁' binary copy) := same.inPlace _ _ (same.copyFile binary copy)
      generalize Device.copyFile d₁ binary copy = x, Device.copyFile d₁' binary copy = y at hcopy
      obtain ⟨result, same'⟩ := hcopy
      cases result <;> exact .mk _ same'

theorem Backup.writeMarker_same :
    Agree SameEntries (writeMarker d binary marker) (writeMarker d' binary marker) := by
  have hchecksum : Checksum.ofFile d' binary = Checksum.ofFile d binary := by
    rw [Checksum.ofFile, Checksum.ofFile, h.readFile_eq]
  unfold writeMarker
  rw [hchecksum]
  split
  · exact .mk _ h
  · rename_i checksum _
    have hwrite : Agree SameEntries (Device.writeFile d marker (Text.Utf8.encode checksum.hex))
        (Device.writeFile d' marker (Text.Utf8.encode checksum.hex)) :=
      h.inPlace _ _ (h.writeFile marker _)
    generalize Device.writeFile d marker _ = x, Device.writeFile d' marker _ = y at hwrite
    obtain ⟨result, same⟩ := hwrite
    cases result <;> exact .mk _ same

theorem Backup.save_same :
    Agree SameEntries (save d binary copy marker) (save d' binary copy marker) := by
  have hcopy := copyOnce_same h binary copy
  unfold save
  rw [h.isFile_eq]
  split
  · exact .mk _ h
  · generalize copyOnce d binary copy = x, copyOnce d' binary copy = y at hcopy
    obtain @⟨result, d₁, d₁', same⟩ := hcopy
    cases result with
    | error e => exact .mk _ same
    | ok _ =>
      have hmarker := writeMarker_same same binary marker
      dsimp only
      generalize writeMarker d₁ binary marker = x, writeMarker d₁' binary marker = y at hmarker
      obtain ⟨result, same'⟩ := hmarker
      cases result <;> exact .mk _ same'

theorem Backup.saveOther_same (b : Backup) :
    Agree SameEntries (b.saveOther d binary) (b.saveOther d' binary) := by
  unfold saveOther
  split
  · exact .mk _ h
  · exact save_same h binary _ _

end Backups

/-! ## Turns -/

/-- The store does the same on disks with the same entries. -/
structure ModuleStore.IsExtensional (store : ModuleStore σ) : Prop where
  load : ∀ state {d d' : Disk} p o, SameEntries d d' → store.load state d' p o = store.load state d p o
  write : ∀ state {d d' : Disk} a p, SameEntries d d' →
    Agree (Agree SameEntries) (store.write state d a p) (store.write state d' a p)

/-- The worlds differ in the order of the entries of their disks and in their journals at most. -/
structure World.Same (w w' : World σ) : Prop where
  disk : SameEntries w.disk w'.disk
  store : w'.store = w.store

namespace Session

theorem deploy_same {d d' : Disk} (h : SameEntries d d') (p : Descriptor) (binary : Path) :
    Agree SameEntries (deploy d p binary) (deploy d' p binary) := by
  unfold deploy
  split
  · exact .mk _ h
  · rename_i artifact _
    split
    · exact .mk _ h
    · rename_i place _
      have hcopy : Agree SameEntries (Device.copyFile d artifact place)
          (Device.copyFile d' artifact place) := h.inPlace _ _ (h.copyFile artifact place)
      generalize Device.copyFile d artifact place = x, Device.copyFile d' artifact place = y at hcopy
      obtain ⟨result, same⟩ := hcopy
      cases result <;> exact .mk _ same

variable {s : Session σ} (hstore : s.store.IsExtensional) {w w' : World σ} (h : w.Same w')
include h

theorem deployed_same (p : Descriptor) (binary : Path) (done : Injected) :
    Agree World.Same (deployed w p binary done) (deployed w' p binary done) := by
  have hdeploy := deploy_same h.disk p binary
  unfold deployed
  generalize deploy w.disk p binary = x, deploy w'.disk p binary = y at hdeploy
  obtain ⟨result, same⟩ := hdeploy
  cases result <;> exact .mk _ ⟨same, h.store⟩

include hstore

theorem load_same (p : Path) (o : LoadOptions) :
    Agree World.Same (w.load s.store p o) (w'.load s.store p o) := by
  have hload := hstore.load w.store p o h.disk
  unfold World.load
  rw [h.store, hload]
  exact .mk _ ⟨h.disk, rfl⟩

theorem write_same (a : Assembly) (p : Path) :
    Agree World.Same (w.write s.store a p) (w'.write s.store a p) := by
  have hwrite := hstore.write w.store a p h.disk
  unfold World.write
  rw [h.store]
  generalize s.store.write w.store w.disk a p = x, s.store.write w.store w'.disk a p = y at hwrite
  obtain ⟨result, state, same⟩ := hwrite
  exact .mk _ ⟨same, rfl⟩

theorem applyPatch_same (a : Assembly) (p : Descriptor) :
    Agree World.Same (s.applyPatch w a p) (s.applyPatch w' a p) := by
  unfold applyPatch
  split
  · exact .mk _ h
  · rename_i artifact _
    have hload := load_same hstore h artifact .readOnly
    generalize w.load s.store artifact .readOnly = x, w'.load s.store artifact .readOnly = y at hload
    obtain @⟨result, w₁, w₁', same⟩ := hload
    cases result with
    | error e => exact .mk _ same
    | ok patch =>
      dsimp only
      split
      · exact .mk _ same
      · exact .mk _ same

/-- What has been done to an assembly is the same, and the worlds are. -/
inductive Patching.Same : Patching σ → Patching σ → Prop
  | mk (assembly : Assembly) (changed : Bool) (records : List PatchRecord) {w w' : World σ}
      (world : w.Same w') :
      Same ⟨assembly, changed, records, w⟩ ⟨assembly, changed, records, w'⟩

omit h in
theorem applyNext_same (binary : Path) {now now' : Patching σ} (h : now.Same now')
    (p : Descriptor) : (s.applyNext binary now p).Same (s.applyNext binary now' p) := by
  obtain @⟨assembly, changed, records, world, world', hworld⟩ := h
  have happly := applyPatch_same hstore hworld assembly p
  unfold applyNext
  dsimp only
  generalize s.applyPatch world assembly p = x, s.applyPatch world' assembly p = y at happly
  obtain @⟨⟨result, a⟩, w₁, w₁', same⟩ := happly
  cases result with
  | error e => exact .mk _ _ _ same
  | ok done =>
    have hdeployed := deployed_same same p binary done
    dsimp only
    generalize deployed w₁ p binary done = x, deployed w₁' p binary done = y at hdeployed
    obtain ⟨outcome, same'⟩ := hdeployed
    exact .mk _ _ _ same'

omit h in
theorem foldl_applyNext_same (binary : Path) (group : List Descriptor) {now now' : Patching σ}
    (h : now.Same now') :
    (group.foldl (s.applyNext binary) now).Same (group.foldl (s.applyNext binary) now') := by
  induction group generalizing now now' with
  | nil => exact h
  | cons p group ih => exact ih (applyNext_same hstore binary h p)

theorem writeGuarded_same (a : Assembly) (binary : Path) :
    Agree World.Same (s.writeGuarded w a binary) (s.writeGuarded w' a binary) := by
  unfold writeGuarded
  split
  · exact .mk _ h
  · exact write_same hstore h a binary

theorem patchBinary_same (binary : Path) (a : Assembly) (group : List Descriptor) :
    Agree World.Same (s.patchBinary w binary a group) (s.patchBinary w' binary a group) := by
  have happly : (s.applyAll w binary a group).Same (s.applyAll w' binary a group) :=
    foldl_applyNext_same hstore binary group (.mk a false [] h)
  unfold patchBinary
  generalize s.applyAll w binary a group = now, s.applyAll w' binary a group = now' at happly
  obtain @⟨assembly, changed, records, world, world', hworld⟩ := happly
  dsimp only
  split
  · have hwrite := writeGuarded_same hstore hworld assembly binary
    generalize s.writeGuarded world assembly binary = x,
      s.writeGuarded world' assembly binary = y at hwrite
    obtain ⟨result, same⟩ := hwrite
    cases result <;> exact .mk _ same
  · exact .mk _ hworld

variable (l : Layout) (b : Backup) (ps : List Descriptor)

theorem openOther_same (binary : Path) :
    Agree World.Same (s.openOther l b w binary) (s.openOther l b w' binary) := by
  have hsave := Backup.saveOther_same h.disk binary b
  unfold openOther
  generalize b.saveOther w.disk binary = x, b.saveOther w'.disk binary = y at hsave
  obtain @⟨result, d₁, d₁', same⟩ := hsave
  cases result with
  | error e => exact .mk _ ⟨same, h.store⟩
  | ok _ =>
    have hworld : World.Same { w with disk := d₁ } { w' with disk := d₁' } := ⟨same, h.store⟩
    exact load_same hstore hworld binary _

theorem patchOther_same (name : String) (group : List Descriptor) :
    Agree World.Same (s.patchOther l b w name group) (s.patchOther l b w' name group) := by
  have hopen := openOther_same hstore h l b (l.assemblyPath name)
  unfold patchOther
  dsimp only
  generalize s.openOther l b w _ = x, s.openOther l b w' _ = y at hopen
  obtain @⟨result, w₁, w₁', same⟩ := hopen
  cases result with
  | error e => exact .mk _ same
  | ok a => exact patchBinary_same hstore same _ a group

theorem patchOthers_same (names : List String) :
    Agree World.Same (s.patchOthers l b ps w names) (s.patchOthers l b ps w' names) := by
  induction names generalizing w w' with
  | nil => exact .mk _ h
  | cons name names ih =>
    have hother := patchOther_same hstore h l b name (groupOf name ps)
    have hothers := ih hother.rest
    rw [patchOthers_cons, patchOthers_cons, hother.value, hothers.value]
    exact .mk _ hothers.rest

/-- **All patches are applied alike** on disks with the same entries. -/
theorem patchAll_same (primary : Assembly) :
    Agree World.Same (s.patchAll l b w primary ps) (s.patchAll l b w' primary ps) := by
  have hprimary : Agree World.Same (s.patchPrimary l w primary ps)
      (s.patchPrimary l w' primary ps) := by
    unfold patchPrimary
    dsimp only
    split
    · exact .mk _ h
    · exact patchBinary_same hstore h l.primary primary _
  have hothers := patchOthers_same hstore hprimary.rest l b ps (otherNames l.primaryName ps)
  rw [patchAll_eq, patchAll_eq, hprimary.value, hothers.value]
  exact .mk _ hothers.rest

end Session

end CilGraft
