import CilGraft.Proofs.ReachedFiles
import CilGraft.Proofs.SavedBinaries
import CilGraft.Proofs.StoredChecksums

/-!
# Artifacts that are used again

An artifact is used again when its sidecar has the checksum of the patch. The checksum is that of the
source when it was parsed, but the artifact is built from the source as it is when it is compiled; so the
sidecar tells of the call that has built the artifact, and of its source only when that was not edited in
between.

* `Cache.History` — sources that are edited, parsed and compiled in any order.
* `Cache.HasPlainNames` — the artifacts are files of one folder, and none of them is a sidecar.
* `Cache.Sound` — what a sidecar says; `Sound.compile`, `sound_of_history`.
* `built_of_reused` — where an artifact comes from that is used again.
* `Sample.reused_after_edit`, `Sample.reused_after_failure` — artifacts of other sources: an edit, and a
  sidecar that was failed.
-/

set_option autoImplicit false

namespace CilGraft

open Disk

/-! ## The names of a cache -/

namespace Cache

/-- The name of the artifact of a patch. -/
def fileName (c : Cache) (patch : String) : String := assemblyName patch ++ "." ++ c.extension

/-- The artifacts are files of the folder, and none of them is a sidecar. -/
structure HasPlainNames (c : Cache) : Prop where
  separator : Path.separator ∉ c.extension.toList
  sidecar : ¬ ".md5".toList <:+ '.' :: c.extension.toList

section Names

variable {c : Cache} {d : Disk} {folder : Names} {name : String} {patch other : String}

theorem separator_not_mem_assemblyName (patch : String) :
    Path.separator ∉ (assemblyName patch).toList := by
  rw [assemblyName, String.toList_ofList, fileNameOf]
  intro hmem
  obtain ⟨x, -, hx⟩ := List.mem_map.1 hmem
  unfold fileCharacter at hx
  split at hx
  · cases hx
  · rename_i hplain
    rw [hx] at hplain
    exact hplain (by decide)

theorem HasPlainNames.separator_not_mem (h : c.HasPlainNames) (patch : String) :
    Path.separator ∉ (c.fileName patch).toList := by
  simp only [fileName, String.toList_append, List.mem_append, not_or]
  exact ⟨⟨separator_not_mem_assemblyName patch, by decide⟩, h.separator⟩

theorem sidecarPath_artifactPath (c : Cache) (patch : String) :
    sidecarPath (c.artifactPath patch) = c.folder.child (c.fileName patch ++ ".md5") :=
  (Path.child_append _ _ (by decide)).symm

theorem HasPlainNames.separator_not_mem_sidecar (h : c.HasPlainNames) (patch : String) :
    Path.separator ∉ (c.fileName patch ++ ".md5").toList := by
  rw [String.toList_append, List.mem_append, not_or]
  exact ⟨h.separator_not_mem patch, by decide⟩

theorem HasPlainNames.place_sidecar (h : c.HasPlainNames) (patch : String) :
    (sidecarPath (c.artifactPath patch)).place = c.folder.place ++ [c.fileName patch ++ ".md5"] := by
  rw [sidecarPath_artifactPath, Path.place_child _ (h.separator_not_mem_sidecar patch),
    Path.descend_append (by decide)]

theorem HasPlainNames.name_eq (h : c.HasPlainNames)
    (hreaches : d.Reaches (c.artifactPath patch) folder name) : name = c.fileName patch := by
  obtain ⟨front, -, hpieces⟩ := c.folder.exists_pieces_child (h.separator_not_mem patch)
  obtain ⟨front', hpieces', -⟩ := hreaches.pieces
  exact (List.append_inj' (hpieces'.symm.trans hpieces) rfl).2 |> List.singleton_inj.1

/-- An artifact that can be written stands in the folder of the cache. -/
theorem HasPlainNames.place_artifact (h : c.HasPlainNames)
    (hreaches : d.Reaches (c.artifactPath patch) folder name) :
    (c.artifactPath patch).place = c.folder.place ++ [c.fileName patch] := by
  obtain rfl := h.name_eq hreaches
  exact (Path.place_child _ (h.separator_not_mem patch)).trans
    (Path.descend_of_name hreaches.isIdle hreaches.ne_parent)

/-- An artifact is known from its place. -/
theorem HasPlainNames.fileName_eq (h : c.HasPlainNames)
    (heq : (c.artifactPath patch).place = c.folder.place ++ [name]) : c.fileName patch = name :=
  Path.eq_of_descend_eq ((Path.place_child _ (h.separator_not_mem patch)).symm.trans heq)

/-- No artifact is where a sidecar is. -/
theorem HasPlainNames.artifact_ne_sidecar (h : c.HasPlainNames) (patch other : String) :
    (c.artifactPath patch).place ≠ (sidecarPath (c.artifactPath other)).place := by
  rw [h.place_sidecar]
  intro heq
  have hname := congrArg String.toList (h.fileName_eq heq)
  simp only [fileName, String.toList_append] at hname
  -- both endings end the same name, so one of them ends the other
  have hsidecar : ".md5".toList <:+ (assemblyName patch).toList ++ ('.' :: c.extension.toList) :=
    ⟨_, hname.symm.trans (List.append_assoc ..)⟩
  have hartifact : '.' :: c.extension.toList <:+
      (assemblyName patch).toList ++ ('.' :: c.extension.toList) := List.suffix_append _ _
  rcases List.suffix_or_suffix_of_suffix hsidecar hartifact with hends | hends
  · exact h.sidecar hends
  · have hshort : ∀ e : List Char, '.' :: e <:+ ".md5".toList → '.' :: e = ".md5".toList := by
      rintro e ⟨front, hfront⟩
      cases front with
      | nil => exact hfront
      | cons x front =>
        have hmark : ".md5".toList = ['.', 'm', 'd', '5'] := by decide
        rw [hmark, List.cons_append] at hfront
        have hmem : '.' ∈ ['m', 'd', '5'] := by
          rw [← (List.cons.inj hfront).2]
          exact List.mem_append_right _ List.mem_cons_self
        exact absurd hmem (by decide)
    exact h.sidecar (hshort _ hends ▸ List.suffix_refl _)

theorem HasPlainNames.artifact_ne (h : c.HasPlainNames)
    (hreaches : d.Reaches (c.artifactPath other) folder name)
    (hne : c.fileName patch ≠ c.fileName other) :
    (c.artifactPath patch).place ≠ (c.artifactPath other).place := by
  rw [h.place_artifact hreaches]
  exact fun heq => hne (h.fileName_eq heq)

theorem HasPlainNames.sidecar_ne (h : c.HasPlainNames)
    (hne : c.fileName patch ≠ c.fileName other) :
    (sidecarPath (c.artifactPath patch)).place ≠ (sidecarPath (c.artifactPath other)).place := by
  rw [h.place_sidecar, h.place_sidecar]
  intro heq
  have hlists := congrArg String.toList (List.singleton_inj.1 (List.append_cancel_left heq))
  rw [String.toList_append, String.toList_append] at hlists
  exact hne (String.toList_injective (List.append_cancel_right hlists))

/-- All files of the cache are in its folder. -/
theorem HasPlainNames.place_cases (h : c.HasPlainNames) {n : Names} (hn : c.IsPlace n) :
    n = c.folder.place ∨ n = c.folder.place.dropLast ∨ ∃ file, n = c.folder.place ++ [file] := by
  obtain ⟨patch, hn | hn⟩ := hn
  · have hplace : (c.artifactPath patch).place = Path.descend c.folder.place (c.fileName patch) :=
      Path.place_child _ (h.separator_not_mem patch)
    rw [hn, hplace]
    rcases Path.descend_cases c.folder.place (c.fileName patch) with heq | heq | heq
    · exact .inl heq
    · exact .inr (.inl heq)
    · exact .inr (.inr ⟨_, heq⟩)
  · exact .inr (.inr ⟨_, hn.trans (h.place_sidecar patch)⟩)

/-- The name of a sidecar is longer than the names that have a meaning of their own. -/
theorem sidecar_ne_of_length_le (name : String) {u : String} (hu : u.toList.length ≤ 2) :
    name ++ ".md5" ≠ u := by
  rintro rfl
  have hmark : ".md5".toList.length = 4 := by decide
  rw [String.toList_append, List.length_append, hmark] at hu
  omega

theorem isIdle_sidecar (name : String) : Path.isIdle (name ++ ".md5") = false := by
  rw [Path.isIdle, Bool.or_eq_false_iff]
  exact ⟨beq_eq_false_iff_ne.2 (sidecar_ne_of_length_le name (by decide)),
    beq_eq_false_iff_ne.2 (sidecar_ne_of_length_le name (by decide))⟩

/-- The sidecar of an artifact can be written where the artifact can, when its name and its path are not
too long. -/
theorem reaches_sidecar {p : Path} (h : d.Reaches p folder name)
    (hpath : checkPath (sidecarPath p) = .ok ())
    (hsize : (name ++ ".md5").utf8ByteSize ≤ maxName) :
    d.Reaches (sidecarPath p) folder (name ++ ".md5") := by
  obtain ⟨front, last, hmore⟩ := Path.exists_pieces_append p.text
  obtain ⟨front', hpieces, hwalk⟩ := h.pieces
  have hself : p.pieces = front ++ [last ++ ""] := by
    rw [← hmore "" (by decide), String.append_empty]
  obtain ⟨rfl, hlast⟩ := List.append_inj' (hpieces.symm.trans hself) rfl
  obtain rfl : name = last := by
    rw [List.singleton_inj.1 hlast, String.append_empty]
  exact ⟨hpath, ⟨front', hmore ".md5" (by decide), hwalk⟩, h.isFolder, isIdle_sidecar name,
    sidecar_ne_of_length_le name (by decide), hsize⟩

end Names

end Cache

namespace Descriptor

/-- A descriptor has the source that it was parsed from, and the checksum of its content. -/
theorem source_of_ofFile {d : Disk} {source : Path} {defaults : Defaults} {p : Descriptor}
    (h : ofFile d source defaults = .ok p) :
    p.source = source ∧ ∃ data, d.readFile source = .ok data ∧ p.checksum = Checksum.of data := by
  unfold ofFile at h
  split at h
  · cases h
  · rename_i data hread
    obtain ⟨hsource, hchecksum, -⟩ := fields_of_ofLines h
    exact ⟨hsource, data, hread, hchecksum⟩

end Descriptor

/-! ## Histories -/

/-- A source that was parsed, on the disk of that time. -/
structure Parse where
  disk : Disk
  defaults : Defaults
  descriptor : Descriptor
  parsed : Descriptor.ofFile disk descriptor.source defaults = .ok descriptor

/-- A patch that was compiled, on the disk of that time and through a device. -/
structure Call where
  parse : Parse
  disk : Disk
  device : Device

namespace Call

/-- The source is as it was when it was parsed. -/
def IsFresh (call : Call) : Prop :=
  call.disk.readFile call.parse.descriptor.source =
    call.parse.disk.readFile call.parse.descriptor.source

/-- The compiler gives the artifact for the source as it is at the call. -/
def Builds (c : Cache) (compiler : Compiler) (call : Call) (data artifact : Bytes) : Prop :=
  call.disk.readFile call.parse.descriptor.source = .ok data ∧
    compiler (c.request call.disk call.parse.descriptor (Text.Utf8.decodeLossy data)) =
      .ok (.binary artifact)

/-- The device does not fail the sidecar that is stored behind the artifact. -/
def SparesSidecar (c : Cache) (call : Call) (artifact : Bytes) : Prop :=
  ∀ d, call.disk.replaceFile (c.artifactPath call.parse.descriptor.name) artifact = .ok d →
    @Cache.Spared call.device c d (sidecarPath (c.artifactPath call.parse.descriptor.name))
      (Text.Utf8.encode call.parse.descriptor.checksum.hex)

/-- The source when it was parsed and the source that is built have one checksum only if they are the
same. -/
def DoesNotCollide (call : Call) (data : Bytes) : Prop :=
  ∀ data₀, call.parse.disk.readFile call.parse.descriptor.source = .ok data₀ →
    Checksum.of data₀ = Checksum.of data → data₀ = data

/-- What is built from a source that was not edited has the checksum of the patch. -/
theorem IsFresh.checksum_eq {c : Cache} {compiler : Compiler} {call : Call} {data artifact : Bytes}
    (h : call.IsFresh) (hbuilds : call.Builds c compiler data artifact) :
    Checksum.of data = call.parse.descriptor.checksum := by
  obtain ⟨-, data', hread, hchecksum⟩ := Descriptor.source_of_ofFile call.parse.parsed
  have hdata : data' = data := by
    rw [← h, hbuilds.1, Except.ok.injEq] at hread
    exact hread.symm
  rw [hchecksum, hdata]

/-- What is built from a source that was edited has another checksum. -/
theorem isFresh_of_checksum_eq {c : Cache} {compiler : Compiler} {call : Call} {data artifact : Bytes}
    (hbuilds : call.Builds c compiler data artifact) (hapart : call.DoesNotCollide data)
    (h : Checksum.of data = call.parse.descriptor.checksum) : call.IsFresh := by
  obtain ⟨-, data', hread, hchecksum⟩ := Descriptor.source_of_ofFile call.parse.parsed
  rw [IsFresh, hbuilds.1, hread, hapart data' hread (hchecksum.symm.trans h.symm)]

end Call

namespace Cache

/-- Sources are edited, parsed and compiled in any order. In the beginning the cache is empty, and nothing
but compiling changes it; a patch may be compiled long after it was parsed, and as often as one likes, each
time through a device of its own. -/
inductive History (c : Cache) (compiler : Compiler) : List Parse → List Call → Disk → Prop
  | start {d : Disk} (vacant : ∀ n, c.IsPlace n → d.Vacant n) : History c compiler [] [] d
  | edit {parses : List Parse} {calls : List Call} {d d' : Disk}
      (before : History c compiler parses calls d)
      (kept : ∀ n, c.IsPlace n → d'.entry? n = d.entry? n) : History c compiler parses calls d'
  | parse {parses : List Parse} {calls : List Call} {d : Disk}
      (before : History c compiler parses calls d) (x : Parse) (now : x.disk = d) :
      History c compiler (x :: parses) calls d
  | compile [v : Device] {parses : List Parse} {calls : List Call} {d : Disk} {x : Parse}
      (before : History c compiler parses calls d) (mem : x ∈ parses) :
      History c compiler parses (⟨x, d, v⟩ :: calls) (c.compile compiler d x.descriptor).disk

section Compiling

variable {c : Cache} {compiler : Compiler} {d d' : Disk} {p : Descriptor} {content : Bytes}

/-- What is asked of the compiler is the source as it is now. -/
theorem requestFor_eq_ok {r : Request} (h : c.requestFor d p = .ok r) :
    ∃ data, d.readFile p.source = .ok data ∧ r = c.request d p (Text.Utf8.decodeLossy data) := by
  unfold requestFor at h
  split at h
  · cases h
  · rename_i data hread
    dsimp only at h
    split at h
    · cases h
    · cases h
      exact ⟨data, hread, rfl⟩

theorem binaryOf_eq_ok {r : Request} (h : binaryOf compiler p r = .ok content) :
    compiler r = .ok (.binary content) := by
  unfold binaryOf at h
  split at h
  · cases h
  · cases h
  · cases h
    assumption

/-- **Compiling a patch** leaves the disk as it is, or stores what the compiler gives for the source as it
is now, and then the checksum of the patch, unless that fails. -/
theorem compile_cases [v : Device] (c : Cache) (compiler : Compiler) (x : Parse) (d : Disk) :
    (c.compile compiler d x.descriptor).disk = d ∨
      ∃ data artifact d₁, (Call.mk x d v).Builds c compiler data artifact ∧
        d.replaceFile (c.artifactPath x.descriptor.name) artifact = .ok d₁ ∧
        (((Call.mk x d v).SparesSidecar c artifact → ∀ d₂,
            d₁.replaceFile (sidecarPath (c.artifactPath x.descriptor.name))
              (Text.Utf8.encode x.descriptor.checksum.hex) ≠ .ok d₂) ∧
            (c.compile compiler d x.descriptor).disk = d₁ ∨
          d₁.replaceFile (sidecarPath (c.artifactPath x.descriptor.name))
              (Text.Utf8.encode x.descriptor.checksum.hex) =
            .ok (c.compile compiler d x.descriptor).disk) := by
  have hcompiles := c.compiles_compile compiler d x.descriptor
  generalize c.compile compiler d x.descriptor = job at hcompiles
  cases hcompiles with
  | @unstored r artifact e d' folder request binary stored =>
    obtain ⟨data, hread, rfl⟩ := requestFor_eq_ok request
    rcases c.storeBoth_cases d x.descriptor (c.artifactPath x.descriptor.name) artifact with
      ⟨e', -, hboth⟩ | ⟨d₁, hartifact, ⟨e', hsidecar, hboth⟩ | ⟨d₂, -, hboth⟩⟩ <;>
      rw [hboth] at stored <;> cases stored
    · exact .inl rfl
    · refine .inr ⟨data, artifact, _, ⟨hread, binaryOf_eq_ok binary⟩, replaceFile_of_store hartifact,
        .inl ⟨fun hspares d₂ hstored => ?_, rfl⟩⟩
      -- the temporary file of the sidecar fits where that of the artifact has fitted
      obtain ⟨-, hpath, hreplaced⟩ := (store_eq_ok_iff_spared folder).1 hartifact
      rw [(store_eq_ok_iff_spared ((isFolder_store hartifact _).trans folder)).2
        ⟨hspares _ hreplaced, hpath, hstored⟩] at hsidecar
      cases hsidecar
  | @compiled r artifact d' _ request binary stored =>
    obtain ⟨data, hread, rfl⟩ := requestFor_eq_ok request
    rcases c.storeBoth_cases d x.descriptor (c.artifactPath x.descriptor.name) artifact with
      ⟨e', -, hboth⟩ | ⟨d₁, hartifact, ⟨e', -, hboth⟩ | ⟨d₂, hsidecar, hboth⟩⟩ <;>
      rw [hboth] at stored <;> cases stored
    exact .inr ⟨data, artifact, d₁, ⟨hread, binaryOf_eq_ok binary⟩, replaceFile_of_store hartifact,
      .inr (replaceFile_of_store hsidecar)⟩
  | _ => exact .inl rfl

/-- An artifact is used again when it is there with a sidecar that names the checksum of the patch. -/
theorem current_of_reused [Device] {done : Descriptor}
    (h : (c.compile compiler d p).result = .ok ⟨done, .reused⟩) :
    ∃ artifact bytes stored, d.readFile (c.artifactPath p.name) = .ok artifact ∧
      d.readFile (sidecarPath (c.artifactPath p.name)) = .ok bytes ∧
      Text.Utf8.decode? bytes = some stored ∧ p.checksum.agreesWith stored = true := by
  have hcompiles := c.compiles_compile compiler d p
  generalize c.compile compiler d p = job at h hcompiles
  cases hcompiles <;> cases h
  rename_i hcurrent
  rw [isCurrent, Bool.and_eq_true] at hcurrent
  obtain ⟨hfile, htext⟩ := hcurrent
  obtain ⟨artifact, hartifact⟩ := isFile_eq_true_iff.1 hfile
  split at htext
  · rename_i stored hstored
    obtain ⟨bytes, hbytes, hdecoded⟩ := readText_eq_ok_iff.1 hstored
    exact ⟨artifact, bytes, stored, hartifact, hbytes, hdecoded, htext⟩
  · cases htext

end Compiling

/-! ## What a sidecar says -/

/-- An artifact with a sidecar was built by a call with the checksum that the sidecar names, unless the
sidecar of that call was failed by the device; and a sidecar that is there can be written. -/
structure Sound (c : Cache) (compiler : Compiler) (calls : List Call) (d : Disk) : Prop where
  built : ∀ patch artifact bytes stored checksum,
    d.entry? (c.artifactPath patch).place = some (.file artifact) →
    d.entry? (sidecarPath (c.artifactPath patch)).place = some (.file bytes) →
    Text.Utf8.decode? bytes = some stored → checksum.agreesWith stored = true →
    ∃ call ∈ calls, ∃ data, call.Builds c compiler data artifact ∧
      c.fileName call.parse.descriptor.name = c.fileName patch ∧
      (call.SparesSidecar c artifact → call.parse.descriptor.checksum = checksum)
  writable : ∀ patch bytes,
    d.entry? (sidecarPath (c.artifactPath patch)).place = some (.file bytes) →
    checkPath (sidecarPath (c.artifactPath patch)) = .ok () ∧
      (c.fileName patch ++ ".md5").utf8ByteSize ≤ maxName

section Invariant

variable {c : Cache} {compiler : Compiler} {calls : List Call} {d d' : Disk} {x : Parse}
  {artifact : Bytes}

/-- Nothing but the files of the cache decides what a sidecar says. -/
theorem Sound.of_entries (h : c.Sound compiler calls d)
    (kept : ∀ n, c.IsPlace n → d'.entry? n = d.entry? n) : c.Sound compiler calls d' where
  built patch artifact bytes stored checksum hartifact hsidecar := by
    rw [kept _ ⟨patch, .inl rfl⟩] at hartifact
    rw [kept _ ⟨patch, .inr rfl⟩] at hsidecar
    exact h.built patch artifact bytes stored checksum hartifact hsidecar
  writable patch bytes hsidecar := by
    rw [kept _ ⟨patch, .inr rfl⟩] at hsidecar
    exact h.writable patch bytes hsidecar

theorem Sound.more_calls (h : c.Sound compiler calls d) (call : Call) :
    c.Sound compiler (call :: calls) d where
  built patch artifact bytes stored checksum hartifact hsidecar hdecoded hagrees := by
    obtain ⟨earlier, hmem, hbuilt⟩ :=
      h.built patch artifact bytes stored checksum hartifact hsidecar hdecoded hagrees
    exact ⟨earlier, List.mem_cons_of_mem _ hmem, hbuilt⟩
  writable := h.writable

/-- An artifact that is stored alone has no sidecar yet, unless the sidecar was failed by the device: one
that is there could be written. -/
theorem Sound.store_artifact (hplain : c.HasPlainNames) (h : c.Sound compiler calls d) {call : Call}
    {data sidecar : Bytes} (hbuilds : call.Builds c compiler data artifact)
    (hartifact : d.replaceFile (c.artifactPath call.parse.descriptor.name) artifact = .ok d')
    (hfails : call.SparesSidecar c artifact → ∀ d₂,
      d'.replaceFile (sidecarPath (c.artifactPath call.parse.descriptor.name)) sidecar ≠ .ok d₂) :
    c.Sound compiler (call :: calls) d' := by
  obtain ⟨folder, name, hreaches, hfree, rfl⟩ := replaceFile_eq_ok_iff.1 hartifact
  have hroot := (replaceFile_eq_ok hartifact).2.1
  have hsidecars : ∀ other,
      Disk.entry? (d.put (c.artifactPath call.parse.descriptor.name).place (.file artifact))
          (sidecarPath (c.artifactPath other)).place =
        d.entry? (sidecarPath (c.artifactPath other)).place :=
    fun other => entry?_put_of_ne _ (hplain.artifact_ne_sidecar _ other).symm
  constructor
  · intro other artifact' bytes stored checksum hfile hsidecar hdecoded hagrees
    rw [hsidecars] at hsidecar
    by_cases heq : c.fileName other = c.fileName call.parse.descriptor.name
    · have hpath : c.artifactPath other = c.artifactPath call.parse.descriptor.name :=
        congrArg c.folder.child heq
      rw [hpath, entry?_put _ hroot, Option.some.injEq, Entry.file.injEq] at hfile
      subst hfile
      refine ⟨call, .head _, data, hbuilds, heq.symm, fun hspares => ?_⟩
      obtain ⟨hchecked, hsize⟩ := h.writable other bytes hsidecar
      rw [hpath] at hchecked hsidecar
      rw [heq, ← hplain.name_eq hreaches] at hsize
      have hfree' := isFolderAt_of_entry? hsidecar
      exact absurd (replaceFile_eq_ok_iff.2 ⟨folder, _,
        (reaches_put_iff hroot hfree).2 (reaches_sidecar hreaches hchecked hsize),
        (isFolderAt_put hroot hfree).trans hfree', rfl⟩) (hfails hspares _)
    · rw [entry?_put_of_ne _ (hplain.artifact_ne hreaches heq)] at hfile
      exact (h.more_calls call).built other artifact' bytes stored checksum hfile hsidecar hdecoded
        hagrees
  · intro other bytes hsidecar
    rw [hsidecars] at hsidecar
    exact h.writable other bytes hsidecar

/-- An artifact that is stored with its sidecar tells of the call. -/
theorem Sound.store_both (hplain : c.HasPlainNames) (h : c.Sound compiler calls d) {d₁ : Disk}
    {call : Call} {data : Bytes} (hbuilds : call.Builds c compiler data artifact)
    (hartifact : d.replaceFile (c.artifactPath call.parse.descriptor.name) artifact = .ok d₁)
    (hsidecar : d₁.replaceFile (sidecarPath (c.artifactPath call.parse.descriptor.name))
      (Text.Utf8.encode call.parse.descriptor.checksum.hex) = .ok d') :
    c.Sound compiler (call :: calls) d' := by
  obtain ⟨folder, name, hreaches, hfree, rfl⟩ := replaceFile_eq_ok_iff.1 hartifact
  obtain ⟨folder', name', hreaches', hfree', rfl⟩ := replaceFile_eq_ok_iff.1 hsidecar
  have hroot := (replaceFile_eq_ok hartifact).2.1
  have hroot' := (replaceFile_eq_ok hsidecar).2.1
  have hne := hplain.artifact_ne_sidecar call.parse.descriptor.name call.parse.descriptor.name
  constructor
  · intro other artifact' bytes stored checksum hfile hstored hdecoded hagrees
    by_cases heq : c.fileName other = c.fileName call.parse.descriptor.name
    · have hpath : c.artifactPath other = c.artifactPath call.parse.descriptor.name :=
        congrArg c.folder.child heq
      rw [hpath, entry?_put_of_ne _ hne, entry?_put _ hroot, Option.some.injEq,
        Entry.file.injEq] at hfile
      rw [hpath, entry?_put _ hroot', Option.some.injEq, Entry.file.injEq] at hstored
      rw [← hstored, Text.Utf8.decode?_encode
        (Checksum.forall_mem_hex Text.toNat_hexDigit_lt _), Option.some.injEq] at hdecoded
      rw [← hdecoded, Checksum.agreesWith_hex] at hagrees
      exact ⟨call, .head _, data, hfile ▸ hbuilds, heq.symm, fun _ => hagrees.symm⟩
    · rw [entry?_put_of_ne _ (hplain.artifact_ne_sidecar _ _),
        entry?_put_of_ne _ (hplain.artifact_ne hreaches heq)] at hfile
      rw [entry?_put_of_ne _ (hplain.sidecar_ne heq),
        entry?_put_of_ne _ (hplain.artifact_ne_sidecar _ _).symm] at hstored
      exact (h.more_calls call).built other artifact' bytes stored checksum hfile hstored hdecoded
        hagrees
  · intro other bytes hstored
    by_cases heq : c.fileName other = c.fileName call.parse.descriptor.name
    · have hpath : c.artifactPath other = c.artifactPath call.parse.descriptor.name :=
        congrArg c.folder.child heq
      have hname : c.fileName call.parse.descriptor.name ++ ".md5" = name' := by
        have hplace := hreaches'.place_eq
        rw [hplain.place_sidecar] at hplace
        exact List.singleton_inj.1 (List.append_inj' hplace rfl).2
      rw [hpath, heq, hname]
      exact ⟨hreaches'.path, hreaches'.size_le⟩
    · rw [entry?_put_of_ne _ (hplain.sidecar_ne heq),
        entry?_put_of_ne _ (hplain.artifact_ne_sidecar _ _).symm] at hstored
      exact h.writable other bytes hstored

/-- **Compiling keeps what the sidecars say.** -/
theorem Sound.compile [v : Device] (hplain : c.HasPlainNames) (h : c.Sound compiler calls d) :
    c.Sound compiler (⟨x, d, v⟩ :: calls) (c.compile compiler d x.descriptor).disk := by
  rcases c.compile_cases compiler x d with hsame | ⟨data, artifact, d₁, hbuilds, hartifact, hstored⟩
  · rw [hsame]
    exact h.more_calls _
  · rcases hstored with ⟨hfails, hdisk⟩ | hsidecar
    · rw [hdisk]
      exact h.store_artifact hplain hbuilds hartifact hfails
    · exact h.store_both hplain hbuilds hartifact hsidecar

/-- The sidecars say so after every history. -/
theorem sound_of_history (hplain : c.HasPlainNames) {parses : List Parse}
    (h : c.History compiler parses calls d) : c.Sound compiler calls d := by
  induction h with
  | @start d₀ vacant =>
    have hnone : ∀ n content, c.IsPlace n → d₀.entry? n ≠ some (.file content) := by
      intro n content hn hfile
      rcases vacant n hn with hvacant | hvacant <;> rw [hvacant] at hfile <;> cases hfile
    exact ⟨fun patch artifact _ _ _ hfile => absurd hfile (hnone _ _ ⟨patch, .inl rfl⟩),
      fun patch bytes hfile => absurd hfile (hnone _ _ ⟨patch, .inr rfl⟩)⟩
  | edit _ kept ih => exact ih.of_entries kept
  | parse _ _ _ ih => exact ih
  | compile _ _ ih => exact ih.compile hplain

end Invariant

/-- **Where an artifact comes from that is used again.**  After every history of edits, parses and calls,
an artifact that is used again is what the compiler gives for the source of an earlier call, as it was at
that call. The patch of that call has the same artifact and, unless its sidecar was failed by the device,
the same checksum; the source has this checksum too exactly when it was not edited between its parse and the
call. -/
theorem built_of_reused [Device] {c : Cache} {compiler : Compiler} {parses : List Parse} {calls : List Call}
    {d : Disk} {p done : Descriptor} (hplain : c.HasPlainNames)
    (h : c.History compiler parses calls d)
    (hreused : (c.compile compiler d p).result = .ok ⟨done, .reused⟩) :
    ∃ call ∈ calls, ∃ data artifact, call.Builds c compiler data artifact ∧
      d.readFile (c.artifactPath p.name) = .ok artifact ∧
      c.artifactPath call.parse.descriptor.name = c.artifactPath p.name ∧
      (call.SparesSidecar c artifact →
        call.parse.descriptor.checksum = p.checksum ∧
        (call.IsFresh → Checksum.of data = p.checksum) ∧
        (call.DoesNotCollide data → Checksum.of data = p.checksum → call.IsFresh)) ∧
      (call.parse.descriptor.framework = p.framework →
        call.parse.descriptor.references = p.references →
        c.request call.disk call.parse.descriptor = c.request call.disk p) := by
  obtain ⟨artifact, bytes, stored, hartifact, hsidecar, hdecoded, hagrees⟩ :=
    current_of_reused hreused
  obtain ⟨_, _, -, hfile⟩ := readFile_eq_ok_iff.1 hartifact
  obtain ⟨_, _, -, hfile'⟩ := readFile_eq_ok_iff.1 hsidecar
  obtain ⟨call, hcall, data, hbuilds, hname, hchecksum⟩ := (sound_of_history hplain h).built p.name
    artifact bytes stored p.checksum hfile hfile' hdecoded hagrees
  refine ⟨call, hcall, data, artifact, hbuilds, hartifact, congrArg c.folder.child hname,
    fun hspares => ⟨hchecksum hspares, fun hfresh => ?_, fun hapart hsame => ?_⟩,
    fun hframework hreferences => ?_⟩
  · exact (hfresh.checksum_eq hbuilds).trans (hchecksum hspares)
  · exact Call.isFresh_of_checksum_eq hbuilds hapart (hsame.trans (hchecksum hspares).symm)
  · have hassembly : assemblyName call.parse.descriptor.name = assemblyName p.name := by
      have hlists := congrArg String.toList hname
      simp only [fileName, String.toList_append] at hlists
      exact String.toList_injective (List.append_cancel_right (List.append_cancel_right hlists))
    funext content
    simp only [request, candidates, hassembly, hframework, hreferences]

end Cache

/-! ## A source that is edited after it was parsed -/

namespace Sample

/-- A source, and the same source after an edit. -/
def sourceText (rest : String) : List Char :=
  ("/*\n@Name=A\n@TargetClass=P\n@TargetMethod=M\n@TargetLocation=Prefix\n@PatchClass=P\n" ++
    "@PatchMethod=M\n*/" ++ rest).toList

/-- A folder of artifacts and one source. -/
def workshop (rest : String) : Disk :=
  ⟨[(["c"], .folder), (["p"], .folder), (["p", "A.cs"], .file (Text.Utf8.encode (sourceText rest)))]⟩

def artifacts : Cache := ⟨⟨"/c"⟩, "dll", none, none⟩

/-- An artifact tells the size of its source. -/
def sizing : Compiler := fun r => .ok (.binary [UInt8.ofNat r.source.utf8ByteSize])

/-- The descriptor of the source before the edit. -/
def first : Descriptor where
  name := "A"
  description := ""
  references := []
  checksum := Checksum.of (Text.Utf8.encode (sourceText ""))
  source := ⟨"/p/A.cs"⟩
  artifact := none
  framework := Defaults.framework {}
  assembly := Defaults.assembly {}
  module := mainModule
  namespace_ := ""
  class_ := "P"
  method := "M"
  location := .entry
  patchClass := "P"
  patchMethod := "M"

/-- The source parsed before the edit. -/
def firstParse : Parse where
  disk := workshop ""
  defaults := {}
  descriptor := first
  parsed := eq_ok_of_toOption (by decide +kernel)

theorem hasPlainNames_artifacts : artifacts.HasPlainNames := ⟨by decide, by decide⟩

theorem entry?_workshop (rest : String) {n : Names} (h : artifacts.IsPlace n) :
    Disk.entry? (workshop rest) n = some .folder ∧ n.length < 2 ∨
      Disk.entry? (workshop rest) n = none ∧ 2 ≤ n.length := by
  have hfolder : artifacts.folder.place = ["c"] := by decide
  rcases hasPlainNames_artifacts.place_cases h with rfl | rfl | ⟨file, rfl⟩ <;> rw [hfolder]
  · exact .inl ⟨rfl, by decide⟩
  · exact .inl ⟨rfl, by decide⟩
  · refine .inr ⟨?_, by simp⟩
    simp [Disk.entry?, workshop]

/-- The disk when the patch was compiled with a source. -/
def compiledOnce (rest : String) : Disk :=
  (artifacts.compile sizing (workshop rest) first).disk

/-- The source is parsed, edited and compiled. -/
theorem history_compiledOnce (rest : String) :
    artifacts.History sizing [firstParse] [⟨firstParse, workshop rest, .sound⟩]
      (compiledOnce rest) := by
  have hstart : artifacts.History sizing [] [] (workshop "") := by
    refine .start fun n hn => ?_
    rcases entry?_workshop "" hn with ⟨hfolder, -⟩ | ⟨hnone, -⟩
    · exact .inr hfolder
    · exact .inl hnone
  have hedited : artifacts.History sizing [firstParse] [] (workshop rest) := by
    refine .edit (.parse hstart firstParse rfl) fun n hn => ?_
    rcases entry?_workshop "" hn with ⟨hbefore, hlength⟩ | ⟨hbefore, hlength⟩ <;>
      rcases entry?_workshop rest hn with ⟨hafter, hlength'⟩ | ⟨hafter, hlength'⟩
    · rw [hbefore, hafter]
    · omega
    · omega
    · rw [hbefore, hafter]
  exact .compile hedited (.head _)

/-- The source is the same at the call, and so the artifact is that of a source with the checksum of the
patch. -/
theorem reused_without_edit :
    artifacts.HasPlainNames ∧
      artifacts.History sizing [firstParse] [⟨firstParse, workshop "", .sound⟩] (compiledOnce "") ∧
      ∃ done data artifact,
        (artifacts.compile sizing (compiledOnce "") first).result = .ok ⟨done, .reused⟩ ∧
        (compiledOnce "").readFile (artifacts.artifactPath first.name) = .ok artifact ∧
        (Call.mk firstParse (workshop "") .sound).Builds artifacts sizing data artifact ∧
        Checksum.of data = first.checksum := by
  have hreused : ((artifacts.compile sizing (compiledOnce "") first).result.toOption.map
      (·.freshness)) = some .reused := by
    decide +kernel
  obtain ⟨⟨done, freshness⟩, hresult, rfl⟩ := Option.map_eq_some_iff.1 hreused
  obtain ⟨call, hcall, data, artifact, hbuilds, hread, -, hspared, -⟩ :=
    Cache.built_of_reused hasPlainNames_artifacts (history_compiledOnce "")
      (eq_ok_of_toOption hresult)
  obtain rfl := List.mem_singleton.1 hcall
  obtain ⟨-, hfresh, -⟩ := hspared fun _ _ => Cache.spared_sound
  exact ⟨hasPlainNames_artifacts, history_compiledOnce "", done, data, artifact,
    eq_ok_of_toOption hresult, hread, hbuilds, hfresh rfl⟩

/-- The source was edited before the call. The artifact is used again for the patch, but it is not what
the compiler gives for the source that the patch was parsed from; and the source that it was built from
has another checksum. -/
theorem reused_after_edit :
    artifacts.HasPlainNames ∧
      artifacts.History sizing [firstParse] [⟨firstParse, workshop "x", .sound⟩]
        (compiledOnce "x") ∧
      ∃ done artifact,
        (artifacts.compile sizing (compiledOnce "x") first).result = .ok ⟨done, .reused⟩ ∧
        (compiledOnce "x").readFile (artifacts.artifactPath first.name) = .ok artifact ∧
        ∀ rest ∈ ["", "x"],
          Checksum.of (Text.Utf8.encode (sourceText rest)) = first.checksum →
            sizing (artifacts.request (workshop rest) first (sourceText rest)) ≠
              .ok (.binary artifact) := by
  obtain ⟨hreused, hread⟩ :
      ((artifacts.compile sizing (compiledOnce "x") first).result.toOption.map (·.freshness)) =
        some .reused ∧
      ((compiledOnce "x").readFile (artifacts.artifactPath first.name)).toOption = some [181] := by
    decide +kernel
  have hother : ∀ rest ∈ ["", "x"],
      Checksum.of (Text.Utf8.encode (sourceText rest)) = first.checksum →
        UInt8.ofNat (artifacts.request (workshop rest) first (sourceText rest)).source.utf8ByteSize ≠
          181 := by
    decide +kernel
  obtain ⟨⟨done, freshness⟩, hresult, rfl⟩ := Option.map_eq_some_iff.1 hreused
  refine ⟨hasPlainNames_artifacts, history_compiledOnce "x", done, _, eq_ok_of_toOption hresult,
    eq_ok_of_toOption hread, fun rest hrest hchecksum hsame => hother rest hrest hchecksum ?_⟩
  exact List.singleton_inj.1 (Output.binary.inj (Except.ok.inj hsame))

/-- A device that fails to put sidecars in their places. -/
@[reducible]
def failingSidecars : Device where
  fault?
    | _, .replaceFile q _ =>
      if q = sidecarPath (artifacts.artifactPath first.name) then
        some { reason := .other "Input/output error (os error 5)" }
      else none
    | _, _ => none

/-- The source is edited after it was compiled. -/
def editedLater : Disk :=
  (compiledOnce "").put ["p", "A.cs"] (.file (Text.Utf8.encode (sourceText "x")))

/-- The source parsed after the edit. -/
def secondParse : Parse where
  disk := editedLater
  defaults := {}
  descriptor := { first with checksum := Checksum.of (Text.Utf8.encode (sourceText "x")) }
  parsed := eq_ok_of_toOption (by decide +kernel)

/-- The edited source is compiled, and its sidecar fails. -/
def compiledAgain : Disk :=
  (@Cache.compile failingSidecars artifacts sizing editedLater secondParse.descriptor).disk

/-- The sidecar of the edited source was failed by the device. The artifact that is built from this source is
used again for the patch that was parsed before the edit. -/
theorem reused_after_failure :
    artifacts.History sizing [secondParse, firstParse]
        [⟨secondParse, editedLater, failingSidecars⟩, ⟨firstParse, workshop "", .sound⟩]
        compiledAgain ∧
      (∃ done, (artifacts.compile sizing compiledAgain first).result = .ok ⟨done, .reused⟩) ∧
      compiledAgain.readFile (artifacts.artifactPath first.name) = .ok [181] ∧
      (Call.mk secondParse editedLater failingSidecars).Builds artifacts sizing
        (Text.Utf8.encode (sourceText "x")) [181] ∧
      secondParse.descriptor.checksum ≠ first.checksum := by
  have hedited : artifacts.History sizing [firstParse] [⟨firstParse, workshop "", .sound⟩]
      editedLater := by
    refine .edit (history_compiledOnce "") fun n hn => entry?_put_of_ne _ ?_
    rintro rfl
    have hfolder : artifacts.folder.place = ["c"] := by decide
    rcases hasPlainNames_artifacts.place_cases hn with heq | heq | ⟨file, heq⟩ <;> rw [hfolder] at heq
    · exact absurd heq (by decide)
    · exact absurd heq (by decide)
    · exact absurd (List.cons.inj heq).1 (by decide)
  have hhistory := hedited.parse secondParse rfl
  obtain ⟨hreused, hread⟩ :
      ((artifacts.compile sizing compiledAgain first).result.toOption.map (·.freshness)) =
        some .reused ∧
      (compiledAgain.readFile (artifacts.artifactPath first.name)).toOption = some [181] := by
    decide +kernel
  have hsource : (editedLater.readFile secondParse.descriptor.source).toOption =
      some (Text.Utf8.encode (sourceText "x")) := by
    decide +kernel
  have hsize : UInt8.ofNat (artifacts.request editedLater secondParse.descriptor
      (Text.Utf8.decodeLossy (Text.Utf8.encode (sourceText "x")))).source.utf8ByteSize = 181 := by
    decide +kernel
  obtain ⟨⟨done, freshness⟩, hresult, rfl⟩ := Option.map_eq_some_iff.1 hreused
  exact ⟨.compile (v := failingSidecars) hhistory (.head _), ⟨done, eq_ok_of_toOption hresult⟩,
    eq_ok_of_toOption hread, ⟨eq_ok_of_toOption hsource,
      congrArg (fun n : UInt8 => Except.ok (Output.binary [n])) hsize⟩, by decide +kernel⟩

end Sample

end CilGraft
