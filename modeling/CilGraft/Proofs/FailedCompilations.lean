import CilGraft.Proofs.ReusedArtifacts

/-!
# Compilations that fail

A patch that is not compiled leaves the cache as it was, with one exception. The artifact is stored in front
of its sidecar and stays when the sidecar is not stored: the name of the sidecar is longer, it may be that of
a folder, and the device may fail.

* `Cache.SidecarRefused` — an artifact can be stored, but not its sidecar; `replaceFile_sidecar_iff`.
* `isCurrent_of_refused` — no patch takes such an artifact as its own.
* `Cache.Strands` — the compiler gives a binary for a patch whose sidecar is not stored;
  `compile_of_strands`, `disk_of_error` — what is left behind then, and that nothing is otherwise.
* `Cache.failed_compile_keeps_iff` — **when a failed compile keeps the cache**, whatever fails.
* `Sample.stranded_artifact` — an artifact that a failed compile has left behind.
-/

set_option autoImplicit false

namespace CilGraft

open Disk

/-- A file cannot stand at the root. -/
theorem Disk.Reaches.place_ne_nil {d : Disk} {p : Path} {folder : Names} {name : String}
    (h : d.Reaches p folder name) : p.place ≠ [] := by
  rw [h.place_eq]
  exact List.append_ne_nil_of_right_ne_nil _ (List.cons_ne_nil _ _)

namespace Cache

/-! ## Sidecars that are refused -/

/-- The artifact has the name in its folder, and its sidecar cannot be put beside it: the path or the
name is too long, or there is a folder. -/
inductive SidecarRefused (d : Disk) (artifact : Path) (name : String) : Prop
  | path (h : checkPath (sidecarPath artifact) ≠ .ok ())
  | name (h : maxName < (name ++ ".md5").utf8ByteSize)
  | folder (h : d.isFolderAt (sidecarPath artifact).place = true)

section Refused

variable {d : Disk} {artifact : Path} {folder folder' : Names} {name name' : String}
  {content : Bytes}

/-- The name of a sidecar is that of its artifact with the ending. -/
theorem name_of_sidecar (h : d.Reaches artifact folder name)
    (hsidecar : d.Reaches (sidecarPath artifact) folder' name') : name' = name ++ ".md5" := by
  obtain ⟨front, last, hmore⟩ := Path.exists_pieces_append artifact.text
  obtain ⟨before, hpieces, -⟩ := h.pieces
  obtain ⟨before', hpieces', -⟩ := hsidecar.pieces
  have hself : artifact.pieces = front ++ [last ++ ""] := by
    rw [← hmore "" (by decide), String.append_empty]
  have hname := (List.append_inj' (hpieces.symm.trans hself) rfl).2
  have hname' := (List.append_inj' (hpieces'.symm.trans (hmore ".md5" (by decide))) rfl).2
  rw [List.singleton_inj.1 hname', List.singleton_inj.1 hname, String.append_empty]

theorem place_sidecar_ne (h : d.Reaches artifact folder name)
    (hsidecar : d.Reaches (sidecarPath artifact) folder' name') :
    (sidecarPath artifact).place ≠ artifact.place := by
  obtain rfl := name_of_sidecar h hsidecar
  rw [hsidecar.place_eq, h.place_eq]
  intro hsame
  have hname := List.singleton_inj.1 (List.append_inj' hsame rfl).2
  have hlength := congrArg String.length hname
  rw [String.length_append] at hlength
  exact absurd hlength (Nat.ne_of_gt (Nat.lt_add_of_pos_right (by decide)))

/-- Where a file can stand at all, a sidecar is refused for a folder only. -/
theorem SidecarRefused.isFolderAt (hrefused : SidecarRefused d artifact name)
    (h : d.Reaches artifact folder name)
    (hsidecar : d.Reaches (sidecarPath artifact) folder' name') :
    d.isFolderAt (sidecarPath artifact).place = true := by
  cases hrefused with
  | path hpath => exact absurd hsidecar.path hpath
  | name hname =>
    obtain rfl := name_of_sidecar h hsidecar
    exact absurd hsidecar.size_le (Nat.not_le.2 hname)
  | folder hfolder => exact hfolder

/-- A sidecar is stored beside an artifact unless it is refused. -/
theorem replaceFile_sidecar_iff (h : d.Reaches artifact folder name) :
    (∃ d', d.replaceFile (sidecarPath artifact) content = .ok d') ↔
      ¬ SidecarRefused d artifact name := by
  constructor
  · rintro ⟨d', hstored⟩ hrefused
    obtain ⟨folder', name', hsidecar, hfree, -⟩ := replaceFile_eq_ok_iff.1 hstored
    rw [hrefused.isFolderAt h hsidecar] at hfree
    cases hfree
  · intro hnot
    have hpath : checkPath (sidecarPath artifact) = .ok () :=
      Classical.not_not.1 fun hpath => hnot (.path hpath)
    have hname := Nat.not_lt.1 fun hname => hnot (.name hname)
    have hfree := Bool.eq_false_iff.2 fun hfolder => hnot (.folder hfolder)
    exact ⟨_, replaceFile_eq_ok_iff.2 ⟨folder, _, reaches_sidecar h hpath hname, hfree, rfl⟩⟩

/-- No patch takes an artifact as its own whose sidecar is refused. -/
theorem isCurrent_of_refused (h : d.Reaches artifact folder name)
    (hrefused : SidecarRefused d artifact name) (p : Descriptor) :
    isCurrent d p artifact = false := by
  have hunread (stored : List Char) : d.readText (sidecarPath artifact) ≠ .ok stored := by
    intro htext
    obtain ⟨bytes, hread, -⟩ := readText_eq_ok_iff.1 htext
    obtain ⟨folder', name', hsidecar, hentry⟩ := readFile_eq_ok_iff.1 hread
    have hfolder := hrefused.isFolderAt h hsidecar
    rw [Disk.isFolderAt, hentry] at hfolder
    cases hfolder
  unfold isCurrent
  cases hread : d.readText (sidecarPath artifact) with
  | ok stored => exact absurd hread (hunread stored)
  | error e => exact Bool.and_false _

theorem SidecarRefused.of_isFolderAt {d' : Disk}
    (hsame : d'.isFolderAt (sidecarPath artifact).place = d.isFolderAt (sidecarPath artifact).place)
    (h : SidecarRefused d artifact name) : SidecarRefused d' artifact name := by
  cases h with
  | path hpath => exact .path hpath
  | name hname => exact .name hname
  | folder hfolder => exact .folder (hsame.trans hfolder)

/-- Storing the artifact makes no difference to its sidecar. -/
theorem sidecarRefused_put_iff (h : d.Reaches artifact folder name)
    (hfree : d.isFolderAt artifact.place = false) :
    SidecarRefused (d.put artifact.place (.file content)) artifact name ↔
      SidecarRefused d artifact name := by
  have hsame : Disk.isFolderAt (d.put artifact.place (.file content)) (sidecarPath artifact).place =
      d.isFolderAt (sidecarPath artifact).place := isFolderAt_put h.place_ne_nil hfree
  exact ⟨.of_isFolderAt hsame.symm, .of_isFolderAt hsame⟩

/-- Once an artifact is stored, its sidecar is stored unless it is refused. -/
theorem replaceFile_sidecar_put_iff (h : d.Reaches artifact folder name)
    (hfree : d.isFolderAt artifact.place = false) (binary content : Bytes) :
    (∃ d', Disk.replaceFile (d.put artifact.place (.file binary)) (sidecarPath artifact) content =
      .ok d') ↔ ¬ SidecarRefused d artifact name := by
  rw [replaceFile_sidecar_iff ((reaches_put_iff h.place_ne_nil hfree).2 h),
    sidecarRefused_put_iff h hfree]

/-- Whose an artifact is tells the sidecar that was there before the artifact was stored. -/
theorem isCurrent_put_iff (h : d.Reaches artifact folder name)
    (hfree : d.isFolderAt artifact.place = false) (p : Descriptor) :
    isCurrent (d.put artifact.place (.file content)) p artifact = true ↔
      ∃ stored, d.readText (sidecarPath artifact) = .ok stored ∧
        p.checksum.agreesWith stored = true := by
  have hroot := h.place_ne_nil
  have hbytes {bytes : Bytes} :
      Disk.readFile (d.put artifact.place (.file content)) (sidecarPath artifact) = .ok bytes ↔
        d.readFile (sidecarPath artifact) = .ok bytes := by
    by_cases hreaches : ∃ folder' name', d.Reaches (sidecarPath artifact) folder' name'
    · obtain ⟨folder', name', hsidecar⟩ := hreaches
      rw [readFile_put hfree hroot, if_neg (place_sidecar_ne h hsidecar)]
    · have hnone (d : Disk) (hd : ¬ ∃ folder' name', d.Reaches (sidecarPath artifact) folder' name') :
          ¬ d.readFile (sidecarPath artifact) = .ok bytes :=
        fun hread => hd (by
          obtain ⟨folder', name', hsidecar, -⟩ := readFile_eq_ok_iff.1 hread
          exact ⟨folder', name', hsidecar⟩)
      refine iff_of_false (hnone _ ?_) (hnone _ hreaches)
      rintro ⟨folder', name', hsidecar⟩
      exact hreaches ⟨folder', name', (reaches_put_iff hroot hfree).1 hsidecar⟩
  have htext {stored : List Char} :
      Disk.readText (d.put artifact.place (.file content)) (sidecarPath artifact) = .ok stored ↔
        d.readText (sidecarPath artifact) = .ok stored := by
    simp only [readText_eq_ok_iff, hbytes]
  have hfile : Disk.isFile (d.put artifact.place (.file content)) artifact = true :=
    isFile_eq_true_iff.2 ⟨content, (readFile_put hfree hroot).2
      (by rw [if_pos rfl]; exact ⟨rfl, folder, name, h⟩)⟩
  rw [isCurrent, hfile, Bool.true_and]
  simp only [← htext]
  cases Disk.readText (d.put artifact.place (.file content)) (sidecarPath artifact) with
  | error e => simp
  | ok stored => simp

end Refused

/-! ## What a failure leaves behind -/

/-- A job without a result has an error. -/
theorem exists_error_of_fails {job : Job} (h : job.result.toOption = none) :
    ∃ e, job = ⟨.error e, job.request, job.disk⟩ := by
  obtain ⟨result, asked, after⟩ := job
  cases result with
  | ok done => cases h
  | error e => exact ⟨e, rfl⟩

section Failing

variable [Device] {c : Cache} {compiler : Compiler} {d d' : Disk} {p : Descriptor} {q : Path}
  {folder : Names} {name : String} {binary content : Bytes} {e : Error}

/-- The errors of a file that is not stored: they are about the folder, the temporary file or the file. -/
inductive StoreError (c : Cache) (q : Path) : Error → Prop
  | created (reason : DiskError) : StoreError c q (.onDisk c.folder reason)
  | filled (reason : DiskError) : StoreError c q (.onDisk (Device.temporaryIn c.folder) reason)
  | moved (reason : DiskError) : StoreError c q (.onDisk q reason)

theorem storeError_of_store (h : c.store d q content = .error e) : c.StoreError q e := by
  unfold store at h
  split at h
  · cases h
    exact .created _
  · split at h
    · cases h
      exact .filled _
    · split at h <;> cases h
      exact .moved _

/-- The compiler gives the binary for the patch, whose artifact is not current. The artifact is stored; its
sidecar is not, since it is refused or the device fails. -/
structure Strands (c : Cache) (compiler : Compiler) (d : Disk) (p : Descriptor) (binary : Bytes) :
    Prop where
  isFolder : d.isFolder c.folder = true
  stale : isCurrent d p (c.artifactPath p.name) = false
  built : ∃ r, c.requestFor d p = .ok r ∧ binaryOf compiler p r = .ok binary
  temporary : checkPath (Device.temporaryIn c.folder) = .ok ()
  spared : c.Spared d (c.artifactPath p.name) binary
  refused : ∃ folder name, d.Reaches (c.artifactPath p.name) folder name ∧
    d.isFolderAt (c.artifactPath p.name).place = false ∧
    (SidecarRefused d (c.artifactPath p.name) name ∨
      ¬ c.Spared (d.put (c.artifactPath p.name).place (.file binary))
        (sidecarPath (c.artifactPath p.name)) (Text.Utf8.encode p.checksum.hex))

/-- The artifact of a patch that is stranded is stored. -/
theorem Strands.store_artifact (h : c.Strands compiler d p binary) :
    c.store d (c.artifactPath p.name) binary =
      .ok (d.put (c.artifactPath p.name).place (.file binary)) := by
  obtain ⟨folder, name, hreaches, hfree, -⟩ := h.refused
  exact (store_eq_ok_iff_spared h.isFolder).2
    ⟨h.spared, h.temporary, replaceFile_eq_ok_iff.2 ⟨folder, name, hreaches, hfree, rfl⟩⟩

/-- Behind the artifact of a patch, its sidecar is stored unless it is refused or the device fails. -/
theorem store_sidecar_iff (hfolder : d.isFolder c.folder = true) (h : d.Reaches q folder name)
    (hartifact : c.store d q binary = .ok d') :
    (∃ d₂, c.store d' (sidecarPath q) content = .ok d₂) ↔
      ¬ (SidecarRefused d q name ∨ ¬ c.Spared d' (sidecarPath q) content) := by
  obtain ⟨-, hpath, hreplaced⟩ := (store_eq_ok_iff_spared hfolder).1 hartifact
  obtain ⟨-, -, -, hfree, rfl⟩ := replaceFile_eq_ok_iff.1 hreplaced
  have hfolder' := (isFolder_store hartifact c.folder).trans hfolder
  simp only [store_eq_ok_iff_spared hfolder', hpath, true_and, exists_and_left, not_or,
    replaceFile_sidecar_put_iff h hfree, Classical.not_not, and_comm]

/-- When the sidecar is not stored, the artifact stays. -/
theorem compile_of_strands (h : c.Strands compiler d p binary) : ∃ r e,
    c.StoreError (sidecarPath (c.artifactPath p.name)) e ∧
      c.compile compiler d p = ⟨.error e, some r, d.put (c.artifactPath p.name).place (.file binary)⟩ := by
  obtain ⟨r, hrequest, hbinary⟩ := h.built
  obtain ⟨folder, name, hreaches, -, hrefused⟩ := h.refused
  have hartifact := h.store_artifact
  cases hsidecar : c.store (d.put (c.artifactPath p.name).place (.file binary))
      (sidecarPath (c.artifactPath p.name)) (Text.Utf8.encode p.checksum.hex) with
  | ok d₂ =>
    exact absurd hrefused ((store_sidecar_iff h.isFolder hreaches hartifact).1 ⟨d₂, hsidecar⟩)
  | error e =>
    refine ⟨r, e, storeError_of_store hsidecar, ?_⟩
    simp only [compile, h.isFolder, h.stale, build, hrequest, hbinary, storeBoth, hartifact,
      hsidecar, Bool.not_true, Bool.false_eq_true, if_false]

/-- A patch whose artifact is current does not fail. -/
theorem stale_of_error {asked : Option Request} {after : Disk} (hfolder : d.isFolder c.folder = true)
    (h : c.compile compiler d p = ⟨.error e, asked, after⟩) :
    isCurrent d p (c.artifactPath p.name) = false := by
  rw [Bool.eq_false_iff]
  intro hcurrent
  simp only [compile, hfolder, hcurrent, Bool.not_true, Bool.false_eq_true, if_false, if_true] at h
  cases h

/-- A compile that fails in any other way leaves the disk as it was. -/
theorem disk_of_error {asked : Option Request} {after : Disk}
    (h : c.compile compiler d p = ⟨.error e, asked, after⟩) :
    (∃ binary, c.Strands compiler d p binary) ∨ after = d := by
  have hcompiles := c.compiles_compile compiler d p
  rw [h] at hcompiles
  cases hcompiles with
  | @unstored r binary _ _ hfolder request given stored =>
    rcases c.storeBoth_cases d p (c.artifactPath p.name) binary with ⟨e', -, hboth⟩ |
      ⟨d₁, hartifact, ⟨e', hsidecar, hboth⟩ | ⟨d₂, -, hboth⟩⟩ <;> rw [hboth] at stored <;> cases stored
    · exact .inr rfl
    · obtain ⟨hspared, hpath, hreplaced⟩ := (store_eq_ok_iff_spared hfolder).1 hartifact
      obtain ⟨folder, name, hreaches, hfree, rfl⟩ := replaceFile_eq_ok_iff.1 hreplaced
      refine .inl ⟨binary, hfolder, stale_of_error hfolder h, ⟨r, request, given⟩, hpath, hspared, folder,
        name, hreaches, hfree, Classical.not_not.1 fun hnot => ?_⟩
      obtain ⟨d₂, hstored⟩ := (store_sidecar_iff hfolder hreaches hartifact).2 hnot
      rw [hstored] at hsidecar
      cases hsidecar
  | _ => exact .inr rfl

/-- **When a failed compile keeps the cache.** The folder of the cache holds what it held before exactly
when no artifact has been stored there whose sidecar is refused or is failed by the device, but for one that
was there already. Nothing else has changed on the disk in any case. What is left behind is the binary of
the compiler, and the error is that of the sidecar. The artifact belongs to the patches that the earlier
sidecar tells, if there is one; to none of them when the sidecar is refused. -/
theorem failed_compile_keeps_iff {asked : Option Request} {after : Disk}
    (h : c.compile compiler d p = ⟨.error e, asked, after⟩) :
    ((∀ n, c.folder.place <+: n → after.entry? n = d.entry? n) ↔
        ∀ binary, c.Strands compiler d p binary →
          c.folder.place <+: (c.artifactPath p.name).place →
            d.entry? (c.artifactPath p.name).place = some (.file binary)) ∧
      (∀ n, n ≠ (c.artifactPath p.name).place → after.entry? n = d.entry? n) ∧
      (∀ binary, c.Strands compiler d p binary →
        after.entry? (c.artifactPath p.name).place = some (.file binary) ∧
          c.StoreError (sidecarPath (c.artifactPath p.name)) e ∧
          ∀ q, isCurrent after q (c.artifactPath p.name) = true ↔
            ∃ stored, d.readText (sidecarPath (c.artifactPath p.name)) = .ok stored ∧
              q.checksum.agreesWith stored = true) ∧
      ∀ folder name, d.Reaches (c.artifactPath p.name) folder name →
        SidecarRefused d (c.artifactPath p.name) name →
          ∀ q, isCurrent after q (c.artifactPath p.name) = false := by
  have hafter {binary : Bytes} (hs : c.Strands compiler d p binary) :
      after = d.put (c.artifactPath p.name).place (.file binary) ∧
        c.StoreError (sidecarPath (c.artifactPath p.name)) e := by
    obtain ⟨r, e', herror, hcompile⟩ := compile_of_strands hs
    rw [h] at hcompile
    cases hcompile
    exact ⟨rfl, herror⟩
  have hothers : ∀ n, n ≠ (c.artifactPath p.name).place → after.entry? n = d.entry? n := by
    intro n hn
    obtain ⟨binary, hs⟩ | rfl := disk_of_error h
    · rw [(hafter hs).1, entry?_put_of_ne _ hn]
    · rfl
  have hstored {binary : Bytes} (hs : c.Strands compiler d p binary) :
      after.entry? (c.artifactPath p.name).place = some (.file binary) := by
    obtain ⟨folder, name, hreaches, -, -⟩ := hs.refused
    rw [(hafter hs).1, entry?_put _ hreaches.place_ne_nil]
  refine ⟨⟨fun hsame binary hs hinside => ?_, fun hsame n hn => ?_⟩, hothers, fun binary hs => ?_,
    fun folder name hreaches hrefused q => ?_⟩
  · rw [← hsame _ hinside, hstored hs]
  · obtain ⟨binary, hs⟩ | rfl := disk_of_error h
    · by_cases hplace : n = (c.artifactPath p.name).place
      · rw [hplace] at hn ⊢
        rw [hstored hs, hsame binary hs hn]
      · exact hothers n hplace
    · rfl
  · obtain ⟨folder, name, hreaches, hfree, -⟩ := hs.refused
    refine ⟨hstored hs, (hafter hs).2, fun q => ?_⟩
    rw [(hafter hs).1]
    exact isCurrent_put_iff hreaches hfree q
  · obtain ⟨binary, hs⟩ | rfl := disk_of_error h
    · obtain ⟨_, _, -, hfree, -⟩ := hs.refused
      rw [(hafter hs).1]
      exact isCurrent_of_refused ((reaches_put_iff hreaches.place_ne_nil hfree).2 hreaches)
        ((sidecarRefused_put_iff hreaches hfree).2 hrefused) q
    · exact isCurrent_of_refused hreaches hrefused q

end Failing

end Cache

namespace Sample

/-- A folder stands where the sidecar of the patch belongs. -/
def blocked : Disk := (workshop "").put ["c", "A.dll.md5"] .folder

/-- A compiler that takes no source. -/
def rejecting : Compiler := fun _ => .ok (.diagnostics ["error CS1002: ; expected"])

/-- A source that the compiler rejects leaves the folder of the cache as it was, although the sidecar
would be refused. -/
theorem rejected_keeps_cache :
    ∃ e asked after, artifacts.compile rejecting blocked first = ⟨.error e, asked, after⟩ ∧
      ∀ n, artifacts.folder.place <+: n → after.entry? n = blocked.entry? n := by
  have hfails : (artifacts.compile rejecting blocked first).result.toOption = none := by
    decide +kernel
  obtain ⟨e, h⟩ := Cache.exists_error_of_fails hfails
  refine ⟨e, _, _, h, (Cache.failed_compile_keeps_iff h).1.2 fun binary hs => ?_⟩
  obtain ⟨r, -, hbinary⟩ := hs.built
  cases Cache.binaryOf_eq_ok hbinary

/-- An artifact that is left behind without its sidecar: there was none before. -/
theorem stranded_artifact :
    ∃ e asked after, artifacts.compile sizing blocked first = ⟨.error e, asked, after⟩ ∧
      artifacts.folder.place <+: ["c", "A.dll"] ∧ blocked.entry? ["c", "A.dll"] = none ∧
      after.entry? ["c", "A.dll"] ≠ none := by
  have hfails : (artifacts.compile sizing blocked first).result.toOption = none := by
    decide +kernel
  have hleft : (artifacts.compile sizing blocked first).disk.entry? ["c", "A.dll"] ≠ none := by
    decide +kernel
  obtain ⟨e, h⟩ := Cache.exists_error_of_fails hfails
  exact ⟨e, _, _, h, by decide, by decide +kernel, hleft⟩

end Sample

end CilGraft
