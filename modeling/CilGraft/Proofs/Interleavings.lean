import CilGraft.Proofs.FilledPlaces
import CilGraft.Proofs.SameEntries
import Mathlib.Data.List.Induction
import Mathlib.Data.List.Pairwise
import Mathlib.Logic.Function.Basic

/-!
# Patches that are compiled at the same time

Compiling a patch takes many accesses to the disk. When other patches are compiled at the same time their
accesses come in between, in any order, and an artifact that one of them stores may be a library that
another one looks for. As long as this does not happen every patch gets what it gets alone.

* `Cache.Stage`, `Cache.advance` — how far compiling a patch has come, and its next access to the disk;
  `Cache.Access`, what that access does.
* `Cache.alone`, `exists_alone_eq_compile` — all accesses of one patch are what `compile` does.
* `Cache.run` — patches that have their accesses by turns.
* `Cache.Independent` — no patch looks for a file that another one makes.
* `Independent.together` — what each patch has got, and the disk, after any turns.
* `Finishes.answers_eq`, `Finishes.sameEntries` — the results do not depend on the turns.
* `Cache.compileAll_of_perm` — nor on the order, when patches are compiled one after the other.
-/

set_option autoImplicit false

namespace CilGraft

open Disk

namespace Cache

/-! ## One access after the other -/

/-- What compiling a patch leads to, apart from the disk. -/
structure Answer where
  result : Except Error Compiled
  /-- what the compiler was asked, if it was -/
  request : Option Request

def Job.answer (job : Job) : Answer := ⟨job.result, job.request⟩

/-- How far compiling a patch has come. -/
inductive Stage where
  | waiting
  /-- the folder of the artifacts is there -/
  | begun
  /-- the artifact is there -/
  | found
  /-- the artifact is not current -/
  | outdated
  /-- the text of the source is known -/
  | read (content : List Char)
  /-- the libraries that are used so far, and the candidates that are left -/
  | choosing (content : List Char) (chosen rest : List Path)
  /-- the compiler has given a binary -/
  | built (r : Request) (binary : Bytes)
  /-- the artifact is stored -/
  | stored (r : Request)
  | done (a : Answer)

/-- The sidecar of an artifact has the checksum of the patch. -/
def hasChecksum (d : Disk) (p : Descriptor) (artifact : Path) : Bool :=
  match d.readText (sidecarPath artifact) with
  | .ok stored => p.checksum.agreesWith stored
  | .error _ => false

theorem isCurrent_eq (d : Disk) (p : Descriptor) (artifact : Path) :
    isCurrent d p artifact = (d.isFile artifact && hasChecksum d p artifact) := by
  unfold isCurrent hasChecksum
  cases d.readText (sidecarPath artifact) with
  | error e => rfl
  | ok stored => rfl

/-- The compiler is asked for a binary. -/
def ask (compiler : Compiler) (p : Descriptor) (r : Request) : Stage :=
  match binaryOf compiler p r with
  | .error e => .done ⟨.error e, some r⟩
  | .ok binary => .built r binary

/-- The stage after a look at the disk. -/
def look (c : Cache) (compiler : Compiler) (p : Descriptor) (d : Disk) : Stage → Stage
  | .waiting =>
    if d.isFolder c.folder then .begun else .done ⟨.error (.missingFolder c.folder), none⟩
  | .begun => if d.isFile (c.artifactPath p.name) then .found else .outdated
  | .found =>
    if hasChecksum d p (c.artifactPath p.name) then
      .done ⟨.ok ⟨p.withArtifact (c.artifactPath p.name), .reused⟩, none⟩
    else .outdated
  | .outdated =>
    match d.readFile p.source with
    | .error e => .done ⟨.error (.onDisk p.source e), none⟩
    | .ok data =>
      let content := Text.Utf8.decodeLossy data
      if Text.trim content = [] then .done ⟨.error (.emptySource p.source), none⟩
      else .read content
  | .read content => .choosing content [] (References.firstOccurrences [] (c.candidates d p))
  | .choosing content chosen (x :: rest) =>
    .choosing content (if d.isFile x then chosen ++ [x] else chosen) rest
  | .choosing content chosen [] =>
    ask compiler p
      { assemblyName := assemblyName p.name
        source := String.ofList (Patch.prepare content p.framework.toList)
        references := chosen }
  | s => s

/-- The next access to the disk. -/
def advance [Device] (c : Cache) (compiler : Compiler) (p : Descriptor) (d : Disk) : Stage → Stage × Disk
  | .built r binary =>
    match c.store d (c.artifactPath p.name) binary with
    | .error e => (.done ⟨.error e, some r⟩, d)
    | .ok d => (.stored r, d)
  | .stored r =>
    match c.store d (sidecarPath (c.artifactPath p.name)) (Text.Utf8.encode p.checksum.hex) with
    | .error e => (.done ⟨.error e, some r⟩, d)
    | .ok d => (.done ⟨.ok ⟨p.withArtifact (c.artifactPath p.name), .compiled⟩, some r⟩, d)
  | s => (c.look compiler p d s, d)

/-- What an access does: it fails, or the patch comes to its next stage. Only what is stored changes the disk. -/
inductive Access [Device] (c : Cache) (compiler : Compiler) (p : Descriptor) (d : Disk) :
    Stage → Stage → Disk → Prop
  | failed (s : Stage) (e : Error) (request : Option Request) :
      Access c compiler p d s (.done ⟨.error e, request⟩) d
  | begun (folder : d.isFolder c.folder = true) : Access c compiler p d .waiting .begun d
  | found (artifact : d.isFile (c.artifactPath p.name) = true) :
      Access c compiler p d .begun .found d
  | missing (artifact : d.isFile (c.artifactPath p.name) = false) :
      Access c compiler p d .begun .outdated d
  | reused (sidecar : hasChecksum d p (c.artifactPath p.name) = true) :
      Access c compiler p d .found
        (.done ⟨.ok ⟨p.withArtifact (c.artifactPath p.name), .reused⟩, none⟩) d
  | stale (sidecar : hasChecksum d p (c.artifactPath p.name) = false) :
      Access c compiler p d .found .outdated d
  | read (data : Bytes) (source : d.readFile p.source = .ok data) :
      Access c compiler p d .outdated (.read (Text.Utf8.decodeLossy data)) d
  | listed (content : List Char) :
      Access c compiler p d (.read content)
        (.choosing content [] (References.firstOccurrences [] (c.candidates d p))) d
  | chosen (content : List Char) (chosen : List Path) (x : Path) (rest : List Path) :
      Access c compiler p d (.choosing content chosen (x :: rest))
        (.choosing content (if d.isFile x then chosen ++ [x] else chosen) rest) d
  | built (content : List Char) (chosen : List Path) (r : Request) (binary : Bytes)
      (given : binaryOf compiler p r = .ok binary) :
      Access c compiler p d (.choosing content chosen []) (.built r binary) d
  | stored (r : Request) (binary : Bytes) {d' : Disk}
      (artifact : c.store d (c.artifactPath p.name) binary = .ok d') :
      Access c compiler p d (.built r binary) (.stored r) d'
  | compiled (r : Request) {d' : Disk}
      (sidecar : c.store d (sidecarPath (c.artifactPath p.name))
        (Text.Utf8.encode p.checksum.hex) = .ok d') :
      Access c compiler p d (.stored r)
        (.done ⟨.ok ⟨p.withArtifact (c.artifactPath p.name), .compiled⟩, some r⟩) d'
  | rests (a : Answer) : Access c compiler p d (.done a) (.done a) d

/-- **What the next access does**, stage by stage. -/
theorem access_advance [Device] (c : Cache) (compiler : Compiler) (p : Descriptor) (d : Disk) (s : Stage) :
    c.Access compiler p d s (c.advance compiler p d s).1 (c.advance compiler p d s).2 := by
  unfold advance look
  cases s with
  | waiting =>
    dsimp only
    split
    · exact .begun ‹_›
    · exact .failed _ _ _
  | begun =>
    dsimp only
    split
    · exact .found ‹_›
    · exact .missing (Bool.eq_false_iff.2 ‹_›)
  | found =>
    dsimp only
    split
    · exact .reused ‹_›
    · exact .stale (Bool.eq_false_iff.2 ‹_›)
  | outdated =>
    dsimp only
    split
    · exact .failed _ _ _
    · split
      · exact .failed _ _ _
      · exact .read _ ‹_›
  | read content => exact .listed content
  | choosing content chosen rest =>
    cases rest with
    | nil =>
      dsimp only [ask]
      split
      · exact .failed _ _ _
      · exact .built _ _ _ _ ‹_›
    | cons x rest => exact .chosen content chosen x rest
  | built r binary =>
    dsimp only
    split
    · exact .failed _ _ _
    · exact .stored _ _ ‹_›
  | stored r =>
    dsimp only
    split
    · exact .failed _ _ _
    · exact .compiled _ ‹_›
  | done a => exact .rests a

/-- A patch after some accesses, with nobody else at the disk. -/
def alone [Device] (c : Cache) (compiler : Compiler) (d : Disk) (p : Descriptor) : Nat → Stage × Disk
  | 0 => (.waiting, d)
  | k + 1 =>
    let before := alone c compiler d p k
    c.advance compiler p before.2 before.1

section Alone

variable [Device] {c : Cache} {compiler : Compiler} {d d' : Disk} {p : Descriptor} {k : Nat} {s : Stage}

theorem alone_succ (h : c.alone compiler d p k = (s, d')) :
    c.alone compiler d p (k + 1) = c.advance compiler p d' s := by
  rw [alone, h]

/-- A patch that is done has no accesses any more. -/
theorem alone_of_done {a : Answer} (h : c.alone compiler d p k = (.done a, d')) {m : Nat}
    (hm : k ≤ m) : c.alone compiler d p m = (.done a, d') := by
  induction hm with
  | refl => exact h
  | step _ ih => exact alone_succ ih

/-- The candidates are looked at one by one. -/
theorem alone_choosing {content : List Char} {chosen rest : List Path}
    (h : c.alone compiler d p k = (.choosing content chosen rest, d')) :
    c.alone compiler d p (k + rest.length) =
      (.choosing content (chosen ++ rest.filter d'.isFile) [], d') := by
  induction rest generalizing k chosen with
  | nil => rwa [List.filter_nil, List.append_nil]
  | cons x rest ih =>
    have hnext := alone_succ h
    rw [List.length_cons, ← Nat.add_assoc, Nat.add_right_comm, ih hnext, List.filter_cons]
    split
    · rw [List.append_assoc, List.singleton_append]
    · rfl

/-- Once the request is known, the accesses are those that store what the compiler gives for it. -/
theorem exists_alone_of_request {r : Request} (hr : c.requestFor d p = .ok r)
    (h : c.alone compiler d p k = (ask compiler p r, d)) :
    ∃ m, c.alone compiler d p m =
      (.done (c.build compiler d p (c.artifactPath p.name)).answer,
        (c.build compiler d p (c.artifactPath p.name)).disk) := by
  unfold build storeBoth
  unfold ask at h
  rw [hr]
  dsimp only
  cases hbinary : binaryOf compiler p r with
  | error e =>
    rw [hbinary] at h
    exact ⟨k, h⟩
  | ok binary =>
    rw [hbinary] at h
    have hartifact := alone_succ h
    unfold advance at hartifact
    dsimp only at hartifact ⊢
    cases hstore : c.store d (c.artifactPath p.name) binary with
    | error e =>
      rw [hstore] at hartifact
      exact ⟨k + 1, hartifact⟩
    | ok d₁ =>
      rw [hstore] at hartifact
      have hsidecar := alone_succ hartifact
      unfold advance at hsidecar
      dsimp only at hsidecar ⊢
      cases hstore' : c.store d₁ (sidecarPath (c.artifactPath p.name))
          (Text.Utf8.encode p.checksum.hex) with
      | error e =>
        rw [hstore'] at hsidecar
        exact ⟨k + 2, hsidecar⟩
      | ok d₂ =>
        rw [hstore'] at hsidecar
        exact ⟨k + 2, hsidecar⟩

omit [Device] in
/-- Reading a source fails where its request does, and gives the text for the request otherwise. -/
theorem look_outdated (c : Cache) (compiler : Compiler) (d : Disk) (p : Descriptor) :
    (∃ e, c.requestFor d p = .error e ∧ c.look compiler p d .outdated = .done ⟨.error e, none⟩) ∨
      ∃ content, c.requestFor d p = .ok (c.request d p content) ∧
        c.look compiler p d .outdated = .read content := by
  unfold requestFor look
  cases d.readFile p.source with
  | error e => exact .inl ⟨_, rfl, rfl⟩
  | ok data =>
    dsimp only
    split
    · exact .inl ⟨_, rfl, rfl⟩
    · exact .inr ⟨_, rfl, rfl⟩

/-- From an artifact that is not current on, the accesses are those that build it. -/
theorem exists_alone_eq_build (h : c.alone compiler d p k = (.outdated, d)) :
    ∃ m, c.alone compiler d p m =
      (.done (c.build compiler d p (c.artifactPath p.name)).answer,
        (c.build compiler d p (c.artifactPath p.name)).disk) := by
  have hread : c.alone compiler d p (k + 1) = (c.look compiler p d .outdated, d) := alone_succ h
  obtain ⟨e, hr, hlook⟩ | ⟨content, hr, hlook⟩ := look_outdated c compiler d p
  · rw [hlook] at hread
    refine ⟨k + 1, ?_⟩
    unfold build
    rw [hr]
    exact hread
  · rw [hlook] at hread
    have hasked := alone_succ (alone_choosing (alone_succ hread))
    exact exists_alone_of_request hr hasked

/-- **All accesses of a patch are what `compile` does**, when nobody else is at the disk. -/
theorem exists_alone_eq_compile (c : Cache) (compiler : Compiler) (d : Disk) (p : Descriptor) :
    ∃ m, c.alone compiler d p m =
      (.done (c.compile compiler d p).answer, (c.compile compiler d p).disk) := by
  have hstart : c.alone compiler d p 0 = (.waiting, d) := rfl
  have hfolder := alone_succ hstart
  unfold compile
  unfold advance look at hfolder
  cases hthere : d.isFolder c.folder with
  | false =>
    rw [hthere] at hfolder
    exact ⟨1, hfolder⟩
  | true =>
    rw [hthere] at hfolder
    have hartifact := alone_succ hfolder
    unfold advance look at hartifact
    dsimp only at hartifact ⊢
    rw [Bool.not_true, if_neg Bool.false_ne_true]
    cases hfile : d.isFile (c.artifactPath p.name) with
    | false =>
      have hcurrent : ¬ isCurrent d p (c.artifactPath p.name) = true := by
        rw [isCurrent_eq, hfile, Bool.false_and]
        exact Bool.false_ne_true
      rw [hfile] at hartifact
      rw [if_neg hcurrent]
      exact exists_alone_eq_build hartifact
    | true =>
      have hcurrent : isCurrent d p (c.artifactPath p.name) =
          hasChecksum d p (c.artifactPath p.name) := by
        rw [isCurrent_eq, hfile, Bool.true_and]
      rw [hfile] at hartifact
      have hsidecar := alone_succ hartifact
      unfold advance look at hsidecar
      rw [hcurrent]
      cases hchecksum : hasChecksum d p (c.artifactPath p.name) with
      | true =>
        rw [hchecksum] at hsidecar
        exact ⟨0 + 1 + 1 + 1, hsidecar⟩
      | false =>
        rw [hchecksum] at hsidecar
        exact exists_alone_eq_build hsidecar

/-- A patch that is done alone has got what `compile` gives. -/
theorem eq_compile_of_done {a : Answer} (h : c.alone compiler d p k = (.done a, d')) :
    a = (c.compile compiler d p).answer ∧ d' = (c.compile compiler d p).disk := by
  obtain ⟨m, hm⟩ := exists_alone_eq_compile c compiler d p
  have hsame := (alone_of_done h (Nat.le_max_left k m)).symm.trans
    (alone_of_done hm (Nat.le_max_right k m))
  rw [Prod.mk.injEq, Stage.done.injEq] at hsame
  exact hsame

end Alone

/-! ## What a patch looks at -/

/-- The places where the artifact of a patch and its sidecar go. -/
def Writes (c : Cache) (p : Descriptor) (n : Names) : Prop :=
  n = (c.artifactPath p.name).place ∨ n = (sidecarPath (c.artifactPath p.name)).place

/-- The places where a library would be used for a patch: those of its candidates, and the others in the
folder of libraries with the name of a library. -/
def LooksFor (c : Cache) (d : Disk) (p : Descriptor) (n : Names) : Prop :=
  (∃ x ∈ c.candidates d p, x.place = n) ∨
    ∃ folder name, c.libraries = some folder ∧ n = folder.place ++ [name] ∧
      References.hasExtension (folder.child name) "dll" = true

/-- Patches with artifacts of their own, whose sources can be read. -/
structure Admitted (c : Cache) (d : Disk) (ps : List Descriptor) : Prop where
  distinct : ps.Pairwise fun p q => c.fileName p.name ≠ c.fileName q.name
  readable : ∀ p ∈ ps, ∃ data, d.readFile p.source = .ok data

/-- No patch depends on what another one stores: the files of one patch do not take the place of the
source of another one, and they are no libraries for it, unless there were files in their places in the
beginning. -/
structure Independent (c : Cache) (d : Disk) (ps : List Descriptor) : Prop where
  plain : c.HasPlainNames
  source : ∀ p ∈ ps, ∀ q ∈ ps, p ≠ q → ¬ c.Writes q p.source.place
  libraries : ∀ p ∈ ps, ∀ q ∈ ps, p ≠ q → ∀ n, c.Writes q n → c.LooksFor d p n →
    ∃ content, d.entry? n = some (.file content)

/-- A place where one of the patches stores something. -/
def Stored (c : Cache) (ps : List Descriptor) (n : Names) : Prop := ∃ p ∈ ps, c.Writes p n

/-- All looks of a patch have the same answers on two disks. -/
structure Alike (c : Cache) (p : Descriptor) (d d' : Disk) : Prop where
  folder : d'.isFolder c.folder = d.isFolder c.folder
  artifact : d'.isFile (c.artifactPath p.name) = d.isFile (c.artifactPath p.name)
  sidecar : hasChecksum d' p (c.artifactPath p.name) = hasChecksum d p (c.artifactPath p.name)
  source : d'.readFile p.source = d.readFile p.source
  candidates : c.candidates d' p = c.candidates d p
  libraries : ∀ x ∈ c.candidates d p, d'.isFile x = d.isFile x

section Looks

variable {c : Cache} {compiler : Compiler} {d d' d'' : Disk} {p q : Descriptor} {ps : List Descriptor}
  {s s' : Stage}

theorem Admitted.fileName_ne (h : c.Admitted d ps) (hp : p ∈ ps) (hq : q ∈ ps) (hne : p ≠ q) :
    c.fileName p.name ≠ c.fileName q.name := by
  have : Std.Symm fun p q : Descriptor => c.fileName p.name ≠ c.fileName q.name :=
    ⟨fun _ _ h => h.symm⟩
  exact h.distinct.forall hp hq hne

theorem hasChecksum_congr (hfolders : ∀ m, d'.isFolderAt m = d.isFolderAt m) {artifact : Path}
    (hentry : d'.entry? (sidecarPath artifact).place = d.entry? (sidecarPath artifact).place) :
    hasChecksum d' p artifact = hasChecksum d p artifact := by
  have hiff : ∀ d : Disk, hasChecksum d p artifact = true ↔
      ∃ stored, (∃ bytes, d.readFile (sidecarPath artifact) = .ok bytes ∧
        Text.Utf8.decode? bytes = some stored) ∧ p.checksum.agreesWith stored = true := by
    intro d
    simp only [← readText_eq_ok_iff]
    unfold hasChecksum
    cases d.readText (sidecarPath artifact) with
    | error e => simp
    | ok stored => simp
  rw [Bool.eq_iff_iff, hiff, hiff]
  simp only [readFile_eq_ok_congr hfolders hentry]

section Stored

variable (h : c.Independent d ps) (hadmitted : c.Admitted d ps) (hp : p ∈ ps)
  (hfills : Fills (c.Stored ps) d d') (hown : ∀ n, c.Writes p n → d'.entry? n = d.entry? n)
include h hp hfills hown

/-- No library comes or goes for a patch. -/
theorem Independent.library_iff {n : Names} (hn : c.LooksFor d p n) :
    (∃ content, d'.entry? n = some (.file content)) ↔ ∃ content, d.entry? n = some (.file content) := by
  by_cases hwrites : c.Writes p n
  · rw [hown n hwrites]
  by_cases hstored : c.Stored ps n
  · obtain ⟨q, hq, hwrites'⟩ := hstored
    have hne : p ≠ q := fun heq => hwrites (heq ▸ hwrites')
    obtain ⟨content, hfile⟩ := h.libraries p hp q hq hne n hwrites' hn
    exact iff_of_true (hfills.files n content hfile) ⟨content, hfile⟩
  · rw [hfills.kept n hstored]

theorem Independent.candidates_eq : c.candidates d' p = c.candidates d p := by
  unfold candidates
  cases hfolder : c.libraries with
  | none => rfl
  | some folder =>
    have hcandidates : References.folderCandidates d' folder = References.folderCandidates d folder := by
      refine References.folderCandidates_of_fills hfills fun name hnone hthere => ?_
      rw [← Bool.not_eq_true]
      intro hextension
      have hlooks : c.LooksFor d p (folder.place ++ [name]) :=
        .inr ⟨folder, name, hfolder, rfl, hextension⟩
      obtain ⟨entry, hentry⟩ := Option.ne_none_iff_exists'.1 hthere
      cases entry with
      | file content =>
        obtain ⟨content, hfile⟩ := (h.library_iff hp hfills hown hlooks).1 ⟨content, hentry⟩
        rw [hnone] at hfile
        cases hfile
      | folder =>
        have hsame := hfills.folders (folder.place ++ [name])
        rw [isFolderAt, isFolderAt, hentry, hnone] at hsame
        cases hsame
    rw [Option.map_some, Option.map_some, hcandidates]

include hadmitted

theorem Independent.readFile_source : d'.readFile p.source = d.readFile p.source := by
  obtain ⟨data, hread⟩ := hadmitted.readable p hp
  have hentry : d'.entry? p.source.place = d.entry? p.source.place := by
    by_cases hwrites : c.Writes p p.source.place
    · exact hown _ hwrites
    · refine hfills.kept _ ?_
      rintro ⟨q, hq, hwrites'⟩
      exact h.source p hp q hq (fun heq => hwrites (heq ▸ hwrites')) hwrites'
  rw [hread]
  exact (readFile_eq_ok_congr hfills.folders hentry).2 hread

/-- **What other patches store makes no difference to a patch**, as long as its own files stay. -/
theorem Independent.alike : c.Alike p d d' where
  folder := isFolder_eq hfills.folders c.folder
  artifact := isFile_congr hfills.folders (by rw [hown _ (.inl rfl)])
  sidecar := hasChecksum_congr hfills.folders (hown _ (.inr rfl))
  source := h.readFile_source hadmitted hp hfills hown
  candidates := h.candidates_eq hp hfills hown
  libraries := fun x hx =>
    isFile_congr hfills.folders (h.library_iff hp hfills hown (.inl ⟨x, hx, rfl⟩))

end Stored

/-- What is known at a stage: nothing has been stored before the artifact, the folder is there, and the
candidates that are left are candidates. -/
inductive Fits (c : Cache) (d : Disk) (p : Descriptor) : Stage → Disk → Prop
  | waiting : Fits c d p .waiting d
  | begun (folder : d.isFolder c.folder = true) : Fits c d p .begun d
  | found (folder : d.isFolder c.folder = true) : Fits c d p .found d
  | outdated (folder : d.isFolder c.folder = true) : Fits c d p .outdated d
  | read (content : List Char) (folder : d.isFolder c.folder = true) : Fits c d p (.read content) d
  | choosing (content : List Char) (chosen rest : List Path) (folder : d.isFolder c.folder = true)
      (left : ∀ x ∈ rest, x ∈ c.candidates d p) : Fits c d p (.choosing content chosen rest) d
  | built (r : Request) (binary : Bytes) (folder : d.isFolder c.folder = true) :
      Fits c d p (.built r binary) d
  | stored (r : Request) {d' : Disk} (fills : Fills (c.Writes p) d d')
      (folder : d.isFolder c.folder = true) : Fits c d p (.stored r) d'
  | done (a : Answer) (d' : Disk) : Fits c d p (.done a) d'

theorem mem_of_mem_firstOccurrences {seen xs : List Path} {x : Path}
    (h : x ∈ References.firstOccurrences seen xs) : x ∈ xs := by
  induction xs generalizing seen with
  | nil => cases h
  | cons y xs ih =>
    unfold References.firstOccurrences at h
    split at h
    · exact List.mem_cons_of_mem _ (ih h)
    · rcases List.mem_cons.1 h with rfl | h
      · exact List.mem_cons_self
      · exact List.mem_cons_of_mem _ (ih h)

/-- An access keeps what is known at a stage. -/
theorem Fits.access [Device] (h : c.Fits d p s d') (haccess : c.Access compiler p d' s s' d'') :
    c.Fits d p s' d'' := by
  cases haccess with
  | failed => exact .done _ _
  | begun hfolder => cases h; exact .begun hfolder
  | found => cases h with | begun hfolder => exact .found hfolder
  | missing => cases h with | begun hfolder => exact .outdated hfolder
  | reused => exact .done _ _
  | stale => cases h with | found hfolder => exact .outdated hfolder
  | read => cases h with | outdated hfolder => exact .read _ hfolder
  | listed content =>
    cases h with
    | read _ hfolder => exact .choosing _ _ _ hfolder fun x hx => mem_of_mem_firstOccurrences hx
  | chosen =>
    cases h with
    | choosing _ _ _ hfolder hleft =>
      exact .choosing _ _ _ hfolder fun y hy => hleft y (List.mem_cons_of_mem _ hy)
  | built => cases h with | choosing _ _ _ hfolder => exact .built _ _ hfolder
  | stored r binary hstore =>
    cases h with
    | built _ _ hfolder =>
      obtain ⟨rfl, hroot, hfree⟩ := replaceFile_eq_ok (replaceFile_of_store hstore)
      exact .stored _ ((Fills.refl _ _).put (.inl rfl) hroot (beq_eq_false_iff_ne.2 hfree)) hfolder
  | compiled => exact .done _ _
  | rests => exact .done _ _

theorem fits_alone [Device] (c : Cache) (compiler : Compiler) (d : Disk) (p : Descriptor) (k : Nat) :
    c.Fits d p (c.alone compiler d p k).1 (c.alone compiler d p k).2 := by
  induction k with
  | zero => exact .waiting
  | succ k ih => exact ih.access (access_advance ..)

/-- A stage after the same look at two disks that are alike. -/
theorem Alike.look_eq (h : c.Alike p d d')
    (hrest : ∀ content chosen rest, s = .choosing content chosen rest →
      ∀ x ∈ rest, x ∈ c.candidates d p) :
    c.look compiler p d' s = c.look compiler p d s := by
  unfold look
  cases s with
  | waiting => simp only [h.folder]
  | begun => simp only [h.artifact]
  | found => simp only [h.sidecar]
  | outdated => simp only [h.source]
  | read content => simp only [h.candidates]
  | choosing content chosen rest =>
    cases rest with
    | nil => rfl
    | cons x rest => simp only [h.libraries x (hrest _ _ _ rfl x List.mem_cons_self)]
  | _ => rfl

end Looks

/-! ## Accesses by turns -/

/-- How far all patches have come, and the disk that they share. -/
structure State where
  stage : Descriptor → Stage
  disk : Disk

/-- A patch has its next access. -/
def State.turn [Device] (c : Cache) (compiler : Compiler) (x : State) (p : Descriptor) : State :=
  let after := c.advance compiler p x.disk (x.stage p)
  ⟨Function.update x.stage p after.1, after.2⟩

/-- The patches have their accesses by turns, each turn one access. -/
def run [Device] (c : Cache) (compiler : Compiler) (d : Disk) (turns : List Descriptor) : State :=
  turns.foldl (State.turn c compiler) ⟨fun _ => .waiting, d⟩

/-- An access of a patch, made on the disk that all patches share and on that of the patch alone. Nothing
is changed, or a file is put in one place on both disks, which is no place of another patch. -/
inductive Moves (c : Cache) (p : Descriptor) (shared own : Disk) : Disk → Disk → Prop
  | looks : Moves c p shared own shared own
  | puts {n : Names} {content : Bytes} (writes : c.Writes p n) (root : n ≠ [])
      (free : shared.isFolderAt n = false)
      (apart : ∀ q, c.fileName q.name ≠ c.fileName p.name → ∀ m, c.Writes q m → m ≠ n) :
      Moves c p shared own (shared.put n (.file content)) (own.put n (.file content))

section Turns

variable {c : Cache} {compiler : Compiler} {d shared own : Disk} {p : Descriptor}
  {ps : List Descriptor} {s : Stage}

theorem fileName_ne_empty (c : Cache) (patch : String) : c.fileName patch ≠ "" := by
  intro hempty
  have hlist := congrArg String.toList hempty
  simp [fileName] at hlist

/-- The files of other patches are not in the place of an artifact. -/
theorem HasPlainNames.artifact_apart (h : c.HasPlainNames) {folder : Names} {last : String}
    (hreaches : shared.Reaches (c.artifactPath p.name) folder last) {q : Descriptor}
    (hne : c.fileName q.name ≠ c.fileName p.name) {m : Names} (hm : c.Writes q m) :
    m ≠ (c.artifactPath p.name).place := by
  rcases hm with hm | hm
  · rw [hm]
    exact h.artifact_ne hreaches hne
  · rw [hm]
    exact (h.artifact_ne_sidecar p.name q.name).symm

theorem HasPlainNames.sidecar_apart (h : c.HasPlainNames) {q : Descriptor}
    (hne : c.fileName q.name ≠ c.fileName p.name) {m : Names} (hm : c.Writes q m) :
    m ≠ (sidecarPath (c.artifactPath p.name)).place := by
  rcases hm with hm | hm
  · rw [hm]
    exact h.artifact_ne_sidecar q.name p.name
  · rw [hm]
    exact h.sidecar_ne hne

/-- A file of a patch is stored in the folder of the cache on both disks, or on neither and for the same
reason. -/
theorem store_cases {name : String} (content : Bytes) (hfolder : shared.isFolder c.folder = true)
    (hfolders : ∀ m, own.isFolderAt m = shared.isFolderAt m) (hname : Path.separator ∉ name.toList)
    (hne : name ≠ "") (hwrites : c.Writes p (c.folder.child name).place)
    (hapart : ∀ folder last, shared.Reaches (c.folder.child name) folder last →
      ∀ q, c.fileName q.name ≠ c.fileName p.name → ∀ m, c.Writes q m →
        m ≠ (c.folder.child name).place) :
    (∃ e, c.store shared (c.folder.child name) content = .error e ∧
        c.store own (c.folder.child name) content = .error e) ∨
      ∃ shared' own', c.store shared (c.folder.child name) content = .ok shared' ∧
        c.store own (c.folder.child name) content = .ok own' ∧ c.Moves p shared own shared' own' := by
  have hfolder' : own.isFolder c.folder = true := (isFolder_eq hfolders c.folder).trans hfolder
  have hmap : own.replaceFile (c.folder.child name) content =
      (shared.replaceFile (c.folder.child name) content).map fun _ =>
        own.put (c.folder.child name).place (.file content) :=
    replaceFile_eq_map (walkToLast_child hfolder hfolder' hname hne) hfolders
  rw [store_eq hfolder, store_eq hfolder', hmap]
  cases checkPath (Device.temporaryIn c.folder) with
  | error e => exact .inl ⟨_, rfl, rfl⟩
  | ok _ =>
    cases hput : shared.replaceFile (c.folder.child name) content with
    | error e => exact .inl ⟨_, rfl, rfl⟩
    | ok after =>
      obtain ⟨folder, last, hreaches, hfree, rfl⟩ := replaceFile_eq_ok_iff.1 hput
      exact .inr ⟨_, _, rfl, rfl,
        .puts hwrites (replaceFile_eq_ok hput).2.1 hfree (hapart folder last hreaches)⟩

/-- **The next access of a patch is the same with others at the disk as it is alone.** -/
theorem Independent.advance (compiler : Compiler) (h : c.Independent d ps) (hadmitted : c.Admitted d ps)
    (hp : p ∈ ps) (hfills : Fills (c.Stored ps) d shared)
    (hown : ∀ n, c.Writes p n → shared.entry? n = own.entry? n) (hfits : c.Fits d p s own) :
    (c.advance compiler p shared s).1 = (c.advance compiler p own s).1 ∧
      c.Moves p shared own (c.advance compiler p shared s).2 (c.advance compiler p own s).2 := by
  have hfolder : shared.isFolder c.folder = d.isFolder c.folder := isFolder_eq hfills.folders _
  -- a look has the same answer as in the beginning, when nothing had been stored
  have hlooks : own = d → (∀ content chosen rest, s = .choosing content chosen rest →
      ∀ x ∈ rest, x ∈ c.candidates d p) →
      (c.look compiler p shared s, shared).1 = (c.look compiler p own s, own).1 ∧
        c.Moves p shared own (c.look compiler p shared s, shared).2
          (c.look compiler p own s, own).2 := by
    rintro rfl hrest
    exact ⟨(h.alike hadmitted hp hfills hown).look_eq hrest, .looks⟩
  cases hfits with
  | waiting => exact hlooks rfl nofun
  | begun _ => exact hlooks rfl nofun
  | found _ => exact hlooks rfl nofun
  | outdated _ => exact hlooks rfl nofun
  | read content _ => exact hlooks rfl nofun
  | choosing content chosen rest _ hleft =>
    refine hlooks rfl ?_
    rintro _ _ _ ⟨⟩
    exact hleft
  | built r binary hthere =>
    have hpath : c.folder.child (c.fileName p.name) = c.artifactPath p.name := rfl
    have hstore := store_cases binary (hfolder.trans hthere) (fun m => (hfills.folders m).symm)
      (h.plain.separator_not_mem p.name) (fileName_ne_empty c p.name) (.inl rfl)
      fun folder last hreaches q hne m => h.plain.artifact_apart hreaches hne
    rw [hpath] at hstore
    unfold Cache.advance
    dsimp only
    obtain ⟨e, hfails, hfails'⟩ | ⟨shared', own', hstores, hstores', hmoves⟩ := hstore
    · rw [hfails, hfails']
      exact ⟨rfl, .looks⟩
    · rw [hstores, hstores']
      exact ⟨rfl, hmoves⟩
  | stored r hfills' hthere =>
    have hstore := store_cases (Text.Utf8.encode p.checksum.hex) (hfolder.trans hthere)
      (fun m => (hfills'.folders m).trans (hfills.folders m).symm)
      (h.plain.separator_not_mem_sidecar p.name) (by simp)
      (.inr (congrArg Path.place (sidecarPath_artifactPath c p.name)).symm)
      fun folder last _ q hne m => sidecarPath_artifactPath c p.name ▸ h.plain.sidecar_apart hne
    rw [← sidecarPath_artifactPath] at hstore
    unfold Cache.advance
    dsimp only
    obtain ⟨e, hfails, hfails'⟩ | ⟨shared', own', hstores, hstores', hmoves⟩ := hstore
    · rw [hfails, hfails']
      exact ⟨rfl, .looks⟩
    · rw [hstores, hstores']
      exact ⟨rfl, hmoves⟩
  | done a d' => exact ⟨rfl, .looks⟩

namespace Moves

variable {shared' own' : Disk} (h : c.Moves p shared own shared' own')
include h

theorem fills (hp : p ∈ ps) (hfills : Fills (c.Stored ps) d shared) :
    Fills (c.Stored ps) d shared' := by
  cases h with
  | looks => exact hfills
  | puts hwrites hroot hfree _ => exact hfills.put ⟨p, hp, hwrites⟩ hroot hfree

/-- The own files of the patch are the same afterwards, when they were before. -/
theorem own_eq (hown : ∀ n, c.Writes p n → shared.entry? n = own.entry? n) {m : Names}
    (hm : c.Writes p m) : shared'.entry? m = own'.entry? m := by
  cases h with
  | looks => exact hown m hm
  | @puts n content _ hroot _ _ =>
    by_cases heq : m = n
    · rw [heq, entry?_put _ hroot, entry?_put _ hroot]
    · rw [entry?_put_of_ne _ heq, entry?_put_of_ne _ heq, hown m hm]

/-- The files of the other patches stay. -/
theorem other_eq {q : Descriptor} (hne : c.fileName q.name ≠ c.fileName p.name) {m : Names}
    (hm : c.Writes q m) : shared'.entry? m = shared.entry? m := by
  cases h with
  | looks => rfl
  | puts _ _ _ hapart => exact entry?_put_of_ne _ (hapart q hne m hm)

end Moves

/-- What the patches have got after some turns: each of them is where it would be alone after as many
accesses, with the same files of its own, and everything else is as it was in the beginning. -/
structure Together (c : Cache) (compiler : Compiler) (d : Disk) (ps turns : List Descriptor) : Prop where
  fills : Fills (c.Stored ps) d (c.run compiler d turns).disk
  stage : ∀ p ∈ ps,
    (c.run compiler d turns).stage p = (c.alone compiler d p (turns.count p)).1
  own : ∀ p ∈ ps, ∀ n, c.Writes p n →
    Disk.entry? (c.run compiler d turns).disk n =
      Disk.entry? (c.alone compiler d p (turns.count p)).2 n

theorem run_concat [Device] (c : Cache) (compiler : Compiler) (d : Disk) (turns : List Descriptor)
    (p : Descriptor) : c.run compiler d (turns ++ [p]) = (c.run compiler d turns).turn c compiler p :=
  List.foldl_concat ..

/-- **Patches that are compiled by turns get what they get alone**, whatever the turns are. -/
theorem Independent.together (h : c.Independent d ps) (hadmitted : c.Admitted d ps)
    {turns : List Descriptor} (hturns : ∀ p ∈ turns, p ∈ ps) : c.Together compiler d ps turns := by
  induction turns using List.reverseRecOn with
  | nil => exact ⟨Fills.refl _ d, fun _ _ => rfl, fun _ _ _ _ => rfl⟩
  | append_singleton turns p ih =>
    obtain ⟨hfills, hstage, hown⟩ := ih fun q hq => hturns q (List.mem_append_left _ hq)
    have hp : p ∈ ps := hturns p (List.mem_append_right _ (List.mem_singleton_self p))
    have hself : (turns ++ [p]).count p = turns.count p + 1 := by
      rw [List.count_append, List.count_singleton_self]
    have hothers : ∀ q, q ≠ p → (turns ++ [p]).count q = turns.count q := by
      intro q hne
      rw [List.count_append, List.count_singleton, if_neg (by simpa using hne.symm), Nat.add_zero]
    have hturn := run_concat c compiler d turns p
    unfold State.turn at hturn
    rw [hstage p hp] at hturn
    obtain ⟨hsame, hmoves⟩ := h.advance compiler hadmitted hp hfills (hown p hp)
      (fits_alone c compiler d p (turns.count p))
    refine ⟨?_, fun q hq => ?_, fun q hq n hn => ?_⟩
    · rw [hturn]
      exact hmoves.fills hp hfills
    · rw [hturn]
      by_cases heq : q = p
      · subst heq
        rw [hself]
        exact (Function.update_self ..).trans hsame
      · rw [hothers q heq]
        exact (Function.update_of_ne heq ..).trans (hstage q hq)
    · rw [hturn]
      by_cases heq : q = p
      · subst heq
        rw [hself]
        exact hmoves.own_eq (hown q hq) hn
      · rw [hothers q heq]
        exact (hmoves.other_eq (hadmitted.fileName_ne hq hp heq) hn).trans (hown q hq n hn)

/-! ## Results -/

section Results

variable (h : c.Independent d ps) (hadmitted : c.Admitted d ps) {turns turns' : List Descriptor}
  (hturns : ∀ p ∈ turns, p ∈ ps) (hp : p ∈ ps)
include h hadmitted hturns

/-- **A patch that is done has got what `compile` gives on the disk of the beginning**, and so have its
files. -/
theorem answer_of_done {a : Answer} (hp : p ∈ ps)
    (hdone : (c.run compiler d turns).stage p = .done a) :
    a = (c.compile compiler d p).answer ∧ ∀ n, c.Writes p n →
      Disk.entry? (c.run compiler d turns).disk n = Disk.entry? (c.compile compiler d p).disk n := by
  obtain ⟨-, hstage, hown⟩ : c.Together compiler d ps turns := h.together hadmitted hturns
  have halone : c.alone compiler d p (turns.count p) =
      (.done a, (c.alone compiler d p (turns.count p)).2) :=
    eq_mk_of_fst ((hstage p hp).symm.trans hdone)
  obtain ⟨hanswer, hdisk⟩ := eq_compile_of_done halone
  exact ⟨hanswer, fun n hn => hdisk ▸ hown p hp n hn⟩

/-- **The files do not depend on the turns**, when all patches are done. -/
theorem sameEntries_of_done (hturns' : ∀ p ∈ turns', p ∈ ps)
    (hdone : ∀ p ∈ ps, ∃ a, (c.run compiler d turns).stage p = .done a)
    (hdone' : ∀ p ∈ ps, ∃ a, (c.run compiler d turns').stage p = .done a) :
    SameEntries (c.run compiler d turns).disk (c.run compiler d turns').disk := by
  intro n
  by_cases hstored : c.Stored ps n
  · obtain ⟨p, hp, hn⟩ := hstored
    obtain ⟨a, ha⟩ := hdone p hp
    obtain ⟨a', ha'⟩ := hdone' p hp
    rw [(answer_of_done h hadmitted hturns hp ha).2 n hn,
      (answer_of_done h hadmitted hturns' hp ha').2 n hn]
  · rw [(h.together hadmitted hturns).fills.kept n hstored,
      (h.together hadmitted hturns').fills.kept n hstored]

end Results

end Turns

/-! ## One patch after the other -/

/-- Patches compiled one after the other, with what became of them. -/
def compileAll [Device] (c : Cache) (compiler : Compiler) :
    Disk → List Descriptor → List (Descriptor × Answer) × Disk
  | d, [] => ([], d)
  | d, p :: ps =>
    let job := c.compile compiler d p
    let others := compileAll c compiler job.disk ps
    ((p, job.answer) :: others.1, others.2)

section Sequences

variable {c : Cache} {compiler : Compiler} {d : Disk} {p : Descriptor} {ps qs : List Descriptor}

/-- The turns of one patch in a row are its accesses alone. -/
theorem foldl_replicate [Device] (c : Cache) (compiler : Compiler) {x : State}
    (hwaiting : x.stage p = .waiting) (k : Nat) :
    (List.replicate k p).foldl (State.turn c compiler) x =
      ⟨Function.update x.stage p (c.alone compiler x.disk p k).1, (c.alone compiler x.disk p k).2⟩ := by
  induction k with
  | zero =>
    have hsame : Function.update x.stage p .waiting = x.stage := by
      rw [← hwaiting, Function.update_eq_self]
    show x = ⟨Function.update x.stage p .waiting, x.disk⟩
    rw [hsame]
  | succ k ih =>
    rw [List.replicate_succ', List.foldl_concat, ih, State.turn]
    dsimp only
    rw [Function.update_self, Function.update_idem]
    rfl

/-- **Patches that are compiled one after the other have their accesses by turns**, too. -/
theorem exists_turns [Device] (c : Cache) (compiler : Compiler) (x : State) (hnodup : ps.Nodup)
    (hwaiting : ∀ p ∈ ps, x.stage p = .waiting) :
    ∃ turns : List Descriptor, (∀ p ∈ turns, p ∈ ps) ∧
      (turns.foldl (State.turn c compiler) x).disk = (c.compileAll compiler x.disk ps).2 ∧
      (∀ q, q ∉ ps → (turns.foldl (State.turn c compiler) x).stage q = x.stage q) ∧
      (c.compileAll compiler x.disk ps).1.map (·.1) = ps ∧
      ∀ done ∈ (c.compileAll compiler x.disk ps).1,
        (turns.foldl (State.turn c compiler) x).stage done.1 = .done done.2 := by
  induction ps generalizing x with
  | nil => exact ⟨[], nofun, rfl, fun _ _ => rfl, rfl, fun _ hd => absurd hd List.not_mem_nil⟩
  | cons p ps ih =>
    obtain ⟨hp, hps⟩ := List.nodup_cons.1 hnodup
    obtain ⟨hwait, hwaits⟩ := List.forall_mem_cons.1 hwaiting
    obtain ⟨k, hk⟩ := exists_alone_eq_compile c compiler x.disk p
    have hfirst := foldl_replicate c compiler hwait k
    rw [hk] at hfirst
    have hwaits' : ∀ q ∈ ps, Function.update x.stage p (.done (c.compile compiler x.disk p).answer) q =
        .waiting := by
      intro q hq
      have hne : q ≠ p := fun heq => hp (heq ▸ hq)
      rw [Function.update_of_ne hne, hwaits q hq]
    obtain ⟨turns, hturns, hdisk, hkept, hpatches, hdone⟩ :=
      ih ⟨Function.update x.stage p (.done (c.compile compiler x.disk p).answer),
        (c.compile compiler x.disk p).disk⟩ hps hwaits'
    refine ⟨List.replicate k p ++ turns, fun q hq => ?_, ?_, fun q hq => ?_, ?_, ?_⟩
    · rcases List.mem_append.1 hq with hq | hq
      · exact List.eq_of_mem_replicate hq ▸ List.mem_cons_self
      · exact List.mem_cons_of_mem _ (hturns q hq)
    · rw [List.foldl_append, hfirst]
      exact hdisk
    · obtain ⟨hne, hq⟩ := List.ne_and_not_mem_of_not_mem_cons hq
      rw [List.foldl_append, hfirst, hkept q hq]
      exact Function.update_of_ne hne ..
    · exact congrArg (p :: ·) hpatches
    · rw [List.foldl_append, hfirst]
      refine List.forall_mem_cons.2 ⟨?_, hdone⟩
      rw [hkept p hp]
      exact Function.update_self ..

theorem Admitted.nodup (h : c.Admitted d ps) : ps.Nodup :=
  h.distinct.imp fun {p q} hne heq => hne (by rw [heq])

/-- All patches are done after the turns, with the given answers. -/
structure Finishes [Device] (c : Cache) (compiler : Compiler) (d : Disk) (ps turns : List Descriptor)
    (answers : List (Descriptor × Answer)) : Prop where
  own : ∀ p ∈ turns, p ∈ ps
  patches : answers.map (·.1) = ps
  done : ∀ x ∈ answers, (c.run compiler d turns).stage x.1 = .done x.2

/-- Patches that are compiled one after the other are done after some turns. -/
theorem exists_finishes_compileAll [Device] (c : Cache) (compiler : Compiler) (d : Disk) (hnodup : ps.Nodup) :
    ∃ turns, c.Finishes compiler d ps turns (c.compileAll compiler d ps).1 ∧
      (c.run compiler d turns).disk = (c.compileAll compiler d ps).2 := by
  obtain ⟨turns, hturns, hdisk, -, hpatches, hdone⟩ :=
    exists_turns c compiler ⟨fun _ => .waiting, d⟩ hnodup fun _ _ => rfl
  exact ⟨turns, ⟨hturns, hpatches, hdone⟩, hdisk⟩

theorem Finishes.mem [Device] {turns : List Descriptor} {answers : List (Descriptor × Answer)}
    (h : c.Finishes compiler d qs turns answers) (hperm : qs.Perm ps) : ∀ p ∈ turns, p ∈ ps :=
  fun p hp => hperm.mem_iff.1 (h.own p hp)

section Finished

variable (h : c.Independent d ps) (hadmitted : c.Admitted d ps) (hperm : qs.Perm ps)
  {turns turns' : List Descriptor} {answers answers' : List (Descriptor × Answer)}
include h hadmitted hperm

/-- **The answers do not depend on the turns**, nor on the order of the patches. -/
theorem Finishes.answers_eq (hfinishes : c.Finishes compiler d qs turns answers) :
    answers = qs.map fun p => (p, (c.compile compiler d p).answer) := by
  have hanswers : ∀ x ∈ answers, x = (x.1, (c.compile compiler d x.1).answer) := by
    intro x hx
    have hp : x.1 ∈ ps := by
      rw [← hperm.mem_iff, ← hfinishes.patches]
      exact List.mem_map_of_mem hx
    rw [← (answer_of_done h hadmitted (hfinishes.mem hperm) hp (hfinishes.done x hx)).1]
  calc answers
      = answers.map fun x => (x.1, (c.compile compiler d x.1).answer) :=
        (List.map_id _).symm.trans (List.map_congr_left hanswers)
    _ = (answers.map (·.1)).map fun p => (p, (c.compile compiler d p).answer) := by
        rw [List.map_map]
        rfl
    _ = qs.map fun p => (p, (c.compile compiler d p).answer) := by rw [hfinishes.patches]

/-- **The files do not depend on the turns**, nor on the order of the patches. -/
theorem Finishes.sameEntries (hfinishes : c.Finishes compiler d ps turns answers)
    (hfinishes' : c.Finishes compiler d qs turns' answers') :
    SameEntries (c.run compiler d turns).disk (c.run compiler d turns').disk := by
  have hdone : ∀ {rs turns : List Descriptor} {answers : List (Descriptor × Answer)},
      c.Finishes compiler d rs turns answers → rs.Perm ps →
        ∀ p ∈ ps, ∃ a, (c.run compiler d turns).stage p = .done a := by
    intro rs turns answers hfinishes hperm p hp
    rw [← hperm.mem_iff, ← hfinishes.patches] at hp
    obtain ⟨x, hx, rfl⟩ := List.mem_map.1 hp
    exact ⟨x.2, hfinishes.done x hx⟩
  exact sameEntries_of_done h hadmitted hfinishes.own (hfinishes'.mem hperm)
    (hdone hfinishes (.refl ps)) (hdone hfinishes' hperm)

/-- **The order of the patches makes no difference** when they are compiled one after the other: each of
them gets what it gets on the disk of the beginning, and the files are the same. -/
theorem compileAll_of_perm :
    (c.compileAll compiler d qs).1 = qs.map (fun p => (p, (c.compile compiler d p).answer)) ∧
      SameEntries (c.compileAll compiler d ps).2 (c.compileAll compiler d qs).2 := by
  obtain ⟨turns, hfinishes, hdisk⟩ :=
    exists_finishes_compileAll c compiler d hadmitted.nodup
  obtain ⟨turns', hfinishes', hdisk'⟩ :=
    exists_finishes_compileAll c compiler d (hperm.nodup_iff.2 hadmitted.nodup)
  rw [← hdisk, ← hdisk']
  exact ⟨hfinishes'.answers_eq h hadmitted hperm, hfinishes.sameEntries h hadmitted hperm hfinishes'⟩

end Finished

end Sequences

end Cache

end CilGraft
