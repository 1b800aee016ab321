import CilGraft.Proofs.CompileOrder
import CilGraft.Proofs.CurrentArtifacts
import CilGraft.Proofs.PristinePrimary

/-!
# Runs that follow each other

A run leaves a current artifact for every patch that it has compiled or reused, and the next run reuses it,
unless one of the two puts something else in the places of the patch. No run looks after that: the artifact
of one patch is the sidecar of another one when artifacts have the extension of sidecars.

* `Cache.asked` — what compiling enters in the journal; `Sources.journal_compileEach`.
* `Session.Run` — a run that compiles its patches by turns, on a device of its own; `exists_run_of_patch`,
  every run that returns is one. `Run.journal_last`, the compiler is asked what the answers say.
* `Run.SparesPatch` — nothing else is put in the places of a patch.
* `SparesPatch.current_last` — the artifact is current at the end of a run.
* `SparesPatch.reused_of_current` — it is reused when it is current at the start.
* `Session.unchanged_reused` — **a source that did not change is not compiled again**.
* `Sample.recompiled_twins` — but it is when the artifact of another patch is its sidecar.
-/

set_option autoImplicit false

namespace CilGraft

open Disk

variable {σ : Type}

namespace Cache

/-! ## What the compiler is asked -/

/-- What is entered in the journal for answers. -/
def asked (answers : List (Descriptor × Answer)) : List Event :=
  answers.filterMap fun x => x.2.request.map (.compiled x.1.source)

theorem mem_asked {answers : List (Descriptor × Answer)} {source : Path} {r : Request} :
    Event.compiled source r ∈ asked answers ↔
      ∃ x ∈ answers, x.1.source = source ∧ x.2.request = some r := by
  rw [asked, List.mem_filterMap]
  refine exists_congr fun x => and_congr_right fun _ => ?_
  rw [Option.map_eq_some_iff]
  constructor
  · rintro ⟨r', hrequest, heq⟩
    obtain ⟨hsource, rfl⟩ := Event.compiled.inj heq
    exact ⟨hsource, hrequest⟩
  · rintro ⟨hsource, hrequest⟩
    exact ⟨r, hrequest, hsource ▸ rfl⟩

end Cache

/-- Patches that are compiled one after the other have their requests in the journal. -/
theorem Sources.journal_compileEach [Device] (c : Cache) (compiler : Compiler) (w : World σ)
    (ps : List Descriptor) : (compileEach c compiler w ps).2.journal =
      w.journal ++ Cache.asked (c.compileAll compiler w.disk ps).1 := by
  induction ps generalizing w with
  | nil => exact (List.append_nil _).symm
  | cons p ps ih =>
    have hone : (compileOne c compiler w p).2.disk = (c.compile compiler w.disk p).disk ∧
        (compileOne c compiler w p).2.journal =
          w.journal ++ Cache.asked [(p, (c.compile compiler w.disk p).answer)] := by
      unfold compileOne Cache.asked Cache.Job.answer
      dsimp only
      cases (c.compile compiler w.disk p).request with
      | none => exact ⟨rfl, (List.append_nil _).symm⟩
      | some r => exact ⟨rfl, rfl⟩
    obtain ⟨hdisk, hjournal⟩ := hone
    calc (compileEach c compiler w (p :: ps)).2.journal
        = (compileEach c compiler (compileOne c compiler w p).2 ps).2.journal := rfl
      _ = w.journal ++ (Cache.asked [(p, (c.compile compiler w.disk p).answer)] ++
            Cache.asked (c.compileAll compiler (c.compile compiler w.disk p).disk ps).1) := by
          rw [ih, hjournal, hdisk, List.append_assoc]
      _ = w.journal ++ Cache.asked (c.compileAll compiler w.disk (p :: ps)).1 := by
          rw [Cache.asked, Cache.asked, ← List.filterMap_append]
          rfl

namespace Session

/-! ## Runs -/

theorem snd_finish [Device] {s : Session σ} (l : Layout) (primary : Assembly) (checked : List Sources.Parsed)
    (done : List Sources.Parsed × World σ) : (s.finish l primary checked done).2 =
      (s.patchAll l (s.backupOf l) done.2 primary (Sources.admitted done.1)).2 := by
  unfold finish
  dsimp only

/-- A run on a device that gets as far as its patches and compiles them by turns, until all of them are
done. -/
structure Run (s : Session σ) (device : Device) (start : World σ) (game : Path) where
  layout : Layout
  primary : Assembly
  /-- the world in which the sources are parsed -/
  opened : World σ
  checked : List Sources.Parsed
  turns : List Descriptor
  answers : List (Descriptor × Cache.Answer)
  /-- the world in which all patches are done -/
  compiled : World σ
  checks : s.Checks start game layout primary opened checked
  finishes : (s.cacheOf layout).Finishes s.compiler opened.disk (Sources.admitted checked) turns
    answers
  disk_eq : compiled.disk = ((s.cacheOf layout).run s.compiler opened.disk turns).disk
  store_eq : compiled.store = opened.store
  /-- the requests are entered in any order -/
  journal_eq : ∃ events : List Event, events.Perm (Cache.asked answers) ∧
    compiled.journal = opened.journal ++ events

namespace Run

variable {s : Session σ} {device : Device} {start : World σ} {game : Path}
  (r : s.Run device start game)

/-- The cache of the run. -/
def cache : Cache := s.cacheOf r.layout

/-- The patches that pass the check of their names. -/
def patches : List Descriptor := Sources.admitted r.checked

/-- The patches that are compiled or reused. -/
def ready : List Descriptor := Sources.admitted (r.answers.map Sources.outcomeOf)

/-- What the run returns, and the world at its end. -/
def result : Except Error Report × World σ :=
  s.finish r.layout r.primary r.checked (r.answers.map Sources.outcomeOf, r.compiled)

/-- The world at the end of the run. -/
def last : World σ := r.result.2

theorem result_eq : ∃ report, r.result = (.ok report, r.last) := by
  unfold last result finish
  exact ⟨_, rfl⟩

theorem last_eq :
    r.last = (s.patchAll r.layout (s.backupOf r.layout) r.compiled r.primary r.ready).2 :=
  snd_finish r.layout r.primary r.checked _

end Run

section Returns

variable [device : Device] {s : Session σ} {w w' : World σ} {game : Path}

variable {l : Layout} {primary : Assembly} {w₀ : World σ} {checked : List Sources.Parsed}

/-- A run compiles the patches that it accepts one after the other. -/
theorem Checks.patch_eq (h : s.Checks w game l primary w₀ checked) :
    s.patch w game = s.finish l primary checked
      (Sources.compileEach (s.cacheOf l) s.compiler w₀ (Sources.admitted checked)) := by
  obtain ⟨sources, parsed, ⟨hlayout, ⟨disk, hsetUp, hload⟩, hfound⟩, hparsed, rfl⟩ := h.accepts
  rw [← patchBy_compileEach, patchBy]
  simp only [hlayout, hsetUp, hload, hfound, hparsed]

/-- Patches that are compiled one after the other are compiled by turns. -/
theorem Checks.exists_run (h : s.Checks w game l primary w₀ checked) :
    ∃ r : s.Run device w game, r.layout = l ∧ r.opened = w₀ ∧ r.checked = checked ∧
      r.answers = ((s.cacheOf l).compileAll s.compiler w₀.disk (Sources.admitted checked)).1 ∧
      r.result = s.patch w game := by
  have haccepts : Sources.Accepts w₀.disk (Sources.admitted checked) := by
    obtain ⟨sources, parsed, -, hparsed, rfl⟩ := h.accepts
    exact ⟨_, sources, parsed, hparsed, rfl⟩
  obtain ⟨turns, hfinishes, hrun⟩ := Cache.exists_finishes_compileAll (s.cacheOf l) s.compiler
    w₀.disk (haccepts.admitted (s.cacheOf l)).nodup
  obtain ⟨hresults, hdisk, hstore⟩ :=
    Sources.compileEach_eq (s.cacheOf l) s.compiler w₀ (Sources.admitted checked)
  let done := Sources.compileEach (s.cacheOf l) s.compiler w₀ (Sources.admitted checked)
  let r : s.Run device w game :=
    { layout := l
      primary
      opened := w₀
      checked
      turns
      answers := ((s.cacheOf l).compileAll s.compiler w₀.disk (Sources.admitted checked)).1
      compiled := done.2
      checks := h
      finishes := hfinishes
      disk_eq := hdisk.trans hrun.symm
      store_eq := hstore
      journal_eq := ⟨_, .refl _, Sources.journal_compileEach (s.cacheOf l) s.compiler w₀ _⟩ }
  have hresult : r.result = s.finish l primary checked done :=
    congrArg (fun results => s.finish l primary checked (results, done.2)) hresults.symm
  exact ⟨r, rfl, rfl, rfl, rfl, hresult.trans h.patch_eq.symm⟩

/-- **A run that returns is one whose patches are compiled by turns**, each of them in one go. -/
theorem exists_run_of_patch {report : Report} (h : s.patch w game = (.ok report, w')) :
    ∃ r : s.Run device w game, r.result = (.ok report, w') := by
  obtain ⟨e, w₁, hends⟩ | ⟨l, primary, w₀, checked, hchecks, -⟩ := s.patchBy_cases w game
  · rw [← patchBy_compileEach, hends] at h
    cases h
  · obtain ⟨r, -, -, -, -, hresult⟩ := hchecks.exists_run
    exact ⟨r, hresult.trans h⟩

end Returns

namespace Run

section Worlds

variable {s : Session σ} {device : Device} {start : World σ} {game : Path}
  (r : s.Run device start game) {q : Path}

theorem folder_eq : r.cache.folder = game.join s.settings.compiledFolder := by
  obtain ⟨_, _, hopens, -⟩ := r.checks.accepts
  exact (Layout.parts_of_discover hopens.layout).2.2

/-- The sources are parsed in the world in which the game has been set up and its primary binary is
open. -/
theorem opened_eq : r.opened.disk = (s.setUp r.layout start.disk).2 ∧
    r.opened.journal = start.journal ++ [.loaded r.layout.primary (.writableIn r.layout.managed)] := by
  obtain ⟨sources, parsed, ⟨-, ⟨disk, hsetUp, hload⟩, -⟩, -⟩ := r.checks.accepts
  have hopened : r.opened = _ := (congrArg Prod.snd hload).symm
  rw [hopened, hsetUp]
  exact ⟨rfl, rfl⟩

theorem keepsFile_opened (h : (s.backupOf r.layout).HasDirectMarkers r.layout q) :
    KeepsFile q start.disk r.opened.disk := by
  rw [r.opened_eq.1]
  exact keepsFile_setUp h start.disk

theorem keepsFolders_opened : KeepsFolders start.disk r.opened.disk := by
  rw [r.opened_eq.1]
  exact keepsFolders.setUp s r.layout start.disk

/-- **The compiler is asked in a run what the answers say.** -/
theorem journal_last : ∃ events, r.last.journal = start.journal ++ events ∧
    ∀ source request, Event.compiled source request ∈ events ↔
      ∃ x ∈ r.answers, x.1.source = source ∧ x.2.request = some request := by
  obtain ⟨events, hevents, hjournal⟩ := r.journal_eq
  obtain ⟨later, hlater, hnone⟩ := s.asksNothing_patchAll r.layout (s.backupOf r.layout) r.ready
    r.compiled r.primary
  refine ⟨[.loaded r.layout.primary (.writableIn r.layout.managed)] ++ (events ++ later), ?_,
    fun source request => ?_⟩
  · rw [last_eq, hlater, hjournal, r.opened_eq.2, List.append_assoc, List.append_assoc]
  · have hload : Event.compiled source request ∉
        [Event.loaded r.layout.primary (.writableIn r.layout.managed)] :=
      fun hmem => nomatch List.mem_singleton.1 hmem
    rw [List.mem_append, or_iff_right hload, List.mem_append, or_iff_left (hnone source request),
      hevents.mem_iff, Cache.mem_asked]

end Worlds

section Patches

variable {s : Session σ} {device : Device} {start : World σ} {game : Path}
  (r : s.Run device start game) {p q : Descriptor} {a : Cache.Answer} {done : Compiled}
  {request : Option Request}

theorem ofFile_of_mem (hp : p ∈ r.patches) :
    Descriptor.ofFile r.opened.disk p.source (s.settings.defaults r.primary.framework) = .ok p := by
  obtain ⟨sources, parsed, -, hparsed, hchecked⟩ := r.checks.accepts
  rw [patches, ← hchecked] at hp
  obtain ⟨source, hadmitted⟩ := Sources.mem_admitted.1 hp
  have hfile := Sources.ofFile_of_mem_parseEach hparsed (Sources.mem_of_mem_admitEach hadmitted)
  rwa [(Descriptor.source_of_ofFile hfile).1]

/-- A source has one patch at most. -/
theorem eq_of_source_eq (hp : p ∈ r.patches) (hq : q ∈ r.patches) (h : p.source = q.source) :
    p = q := by
  have hfile := r.ofFile_of_mem hp
  rw [h, r.ofFile_of_mem hq] at hfile
  exact (Except.ok.inj hfile).symm

theorem exists_checksum (hp : p ∈ r.patches) :
    ∃ data, r.opened.disk.readFile p.source = .ok data ∧ p.checksum = Checksum.of data :=
  (Descriptor.source_of_ofFile (r.ofFile_of_mem hp)).2

theorem mem_patches (h : (p, a) ∈ r.answers) : p ∈ r.patches := by
  rw [patches, ← r.finishes.patches]
  exact List.mem_map_of_mem h

theorem exists_answer (hp : p ∈ r.patches) : ∃ a, (p, a) ∈ r.answers := by
  rw [patches, ← r.finishes.patches] at hp
  obtain ⟨x, hx, rfl⟩ := List.mem_map.1 hp
  exact ⟨x.2, hx⟩

theorem stage_of_mem (h : (p, a) ∈ r.answers) :
    (r.cache.run s.compiler r.opened.disk r.turns).stage p = .done a :=
  r.finishes.done _ h

/-- A patch has one answer. -/
theorem answer_unique {b : Cache.Answer} (h : (p, a) ∈ r.answers) (h' : (p, b) ∈ r.answers) :
    a = b :=
  Cache.Stage.done.inj ((r.stage_of_mem h).symm.trans (r.stage_of_mem h'))

theorem mem_ready (h : (p, ⟨.ok done, request⟩) ∈ r.answers) : done.descriptor ∈ r.ready :=
  Sources.mem_admitted.2 ⟨p.source, List.mem_map_of_mem h⟩

end Patches

/-! ## Runs that leave the files of a patch alone -/

/-- Nothing but compiling the patch puts something in the places of its artifact and its sidecar: no other
patch has files there, and nothing else that the run makes is put there. The store writes no file but the
one it is given, and removes no folder. -/
structure SparesPatch {s : Session σ} {device : Device} {start : World σ} {game : Path}
    (r : s.Run device start game) (p : Descriptor) : Prop where
  writes : s.store.WritesOneFile
  folders : s.store.Keeps KeepsFolders
  alone : r.cache.StandsAlone p r.patches
  files : ∀ file ∈ r.cache.files p.name, s.SparesFile r.layout r.ready file

section Spared

variable {s : Session σ} {device : Device} {start : World σ} {game : Path}
  {r : s.Run device start game} {p : Descriptor} {done : Compiled} {request : Option Request}
  (hspares : r.SparesPatch p)
include hspares

theorem SparesPatch.keepsFile_last :
    ∀ file ∈ r.cache.files p.name, KeepsFile file r.compiled.disk r.last.disk := by
  intro file hfile
  rw [last_eq]
  exact keepsFile_patchAll hspares.writes hspares.folders (hspares.files file hfile) r.compiled
    r.primary

/-- **A patch that was compiled or reused has a current artifact at the end of the run.** -/
theorem SparesPatch.current_last (h : (p, ⟨.ok done, request⟩) ∈ r.answers) :
    done.descriptor = p.withArtifact (r.cache.artifactPath p.name) ∧
      r.last.disk.isFolder r.cache.folder = true ∧
      Cache.isCurrent r.last.disk p (r.cache.artifactPath p.name) = true := by
  have hbacks : r.cache.Backs p (r.cache.run s.compiler r.opened.disk r.turns).disk
      ((r.cache.run s.compiler r.opened.disk r.turns).stage p) :=
    hspares.alone.backs_run r.finishes.own
  have hdisk : (r.cache.run s.compiler r.opened.disk r.turns).disk = r.compiled.disk :=
    r.disk_eq.symm
  have hfolders : KeepsFolders r.compiled.disk r.last.disk := by
    rw [last_eq]
    exact keepsFolders.patchAll hspares.folders _ _ _ _ _
  rw [r.stage_of_mem h, hdisk] at hbacks
  cases hbacks with
  | done freshness request hfolder hcurrent =>
    exact ⟨rfl, hfolders.isFolder hfolder,
      Cache.isCurrent_of_keeps hspares.keepsFile_last hcurrent⟩

/-- **A patch whose artifact is current when the run starts is reused**, and its files stay. -/
theorem SparesPatch.reused_of_current (hp : p ∈ r.patches)
    (hfolder : start.disk.isFolder r.cache.folder = true)
    (hcurrent : Cache.isCurrent start.disk p (r.cache.artifactPath p.name) = true) :
    (p, ⟨.ok ⟨p.withArtifact (r.cache.artifactPath p.name), .reused⟩, none⟩) ∈ r.answers ∧
      ∀ file ∈ r.cache.files p.name, KeepsFile file start.disk r.last.disk := by
  have hopened : ∀ file ∈ r.cache.files p.name, KeepsFile file start.disk r.opened.disk :=
    fun file hfile => r.keepsFile_opened (hspares.files file hfile).markers
  obtain ⟨hreuses, hfiles, -⟩ := hspares.alone.reuses_run s.compiler r.finishes.own
    (r.keepsFolders_opened.isFolder hfolder) (Cache.isCurrent_of_keeps hopened hcurrent)
  have hdisk : (r.cache.run s.compiler r.opened.disk r.turns).disk = r.compiled.disk :=
    r.disk_eq.symm
  rw [hdisk] at hfiles
  obtain ⟨a, ha⟩ := r.exists_answer hp
  rw [r.stage_of_mem ha] at hreuses
  cases hreuses with
  | done =>
    exact ⟨ha, fun file hfile => (hopened file hfile).trans
      ((hfiles file hfile).trans (hspares.keepsFile_last file hfile))⟩

end Spared

end Run

/-! ## Two runs -/

section Repeated

variable {s s' : Session σ} {start start' : World σ} {game : Path}

/-- Runs with the same settings have the same files for a patch. -/
theorem Run.cache_eq {device device' : Device} (hsettings : s'.settings = s.settings)
    (r : s.Run device start game) (r' : s'.Run device' start' game) :
    r'.cache.folder = r.cache.folder ∧
      ∀ patch, r'.cache.artifactPath patch = r.cache.artifactPath patch := by
  have hfolder : r'.cache.folder = r.cache.folder := by
    rw [r.folder_eq, r'.folder_eq, hsettings]
  have hextension : r'.cache.extension = r.cache.extension := by
    rw [cache, cache, cacheOf, cacheOf, hsettings]
  refine ⟨hfolder, fun patch => ?_⟩
  rw [Cache.artifactPath, Cache.artifactPath, hfolder, hextension]

/-- **A source that did not change is not compiled again.**  A run that returns has compiled its patches, one
after the other or by turns. When a patch was compiled or reused in a run, nothing has changed its files
since, and the source has the same bytes and the same name in the next run, then that reuses the same
artifact, does not ask the compiler for the source, and leaves the artifact and its sidecar as they were. -/
theorem unchanged_reused :
    (∀ [device : Device] (s : Session σ) (w w' : World σ) (game : Path) (report : Report),
      s.patch w game = (.ok report, w') →
        ∃ r : s.Run device w game, r.result = (.ok report, w')) ∧
    ∀ (s s' : Session σ) (device device' : Device) (start start' : World σ) (game : Path)
      (r : s.Run device start game) (r' : s'.Run device' start' game) (p p' : Descriptor)
      (done : Compiled) (request : Option Request),
      s'.settings = s.settings → (p, ⟨.ok done, request⟩) ∈ r.answers →
      r.cache.Keeps p.name r.last.disk start'.disk →
      p' ∈ r'.patches → p'.source = p.source → p'.name = p.name →
      r'.opened.disk.readFile p.source = r.opened.disk.readFile p.source →
      r.SparesPatch p → r'.SparesPatch p' →
        ∃ artifact binary stored, done.descriptor = p.withArtifact artifact ∧
          (p', ⟨.ok ⟨p'.withArtifact artifact, .reused⟩, none⟩) ∈ r'.answers ∧
          p'.withArtifact artifact ∈ r'.ready ∧
          (∃ events, r'.last.journal = start'.journal ++ events ∧
            ∀ r, Event.compiled p.source r ∉ events) ∧
          ∀ d ∈ [r.last.disk, start'.disk, r'.last.disk],
            d.readFile artifact = .ok binary ∧ d.readFile (sidecarPath artifact) = .ok stored := by
  refine ⟨fun s w w' game report h => exists_run_of_patch h, ?_⟩
  intro s s' device device' start start' game r r' p p' done request hsettings hdone hbetween hp' hsource hname
    hunchanged hspares hspares'
  obtain ⟨hfolder, hpaths⟩ := Run.cache_eq hsettings r r'
  obtain ⟨hartifact, hthere, hcurrent⟩ := hspares.current_last hdone
  -- The sidecar has the checksum of the first descriptor: the same bytes have the same one.
  have hchecksum : p'.checksum = p.checksum := by
    obtain ⟨data, hdata, hsum⟩ := r.exists_checksum (r.mem_patches hdone)
    obtain ⟨data', hdata', hsum'⟩ := r'.exists_checksum hp'
    rw [hsource, hunchanged, hdata] at hdata'
    rw [hsum, hsum', Except.ok.inj hdata']
  have hpath : r'.cache.artifactPath p'.name = r.cache.artifactPath p.name := by
    rw [hpaths, hname]
  have hcurrent' : Cache.isCurrent start'.disk p' (r'.cache.artifactPath p'.name) = true := by
    rw [hpath, Cache.isCurrent_congr hchecksum]
    exact Cache.isCurrent_of_keeps hbetween.files hcurrent
  obtain ⟨hreused, hkept⟩ := hspares'.reused_of_current hp'
    (by rw [hfolder]; exact hbetween.folder hthere) hcurrent'
  obtain ⟨binary, stored, hbinary, hstored⟩ := Cache.exists_readFile_of_isCurrent hcurrent
  rw [Cache.files, hpath] at hkept
  rw [hpath] at hreused
  have hfiles := hbetween.files
  rw [Cache.files] at hfiles
  simp only [List.forall_mem_cons, List.not_mem_nil, false_implies, implies_true, and_true]
    at hfiles hkept ⊢
  refine ⟨_, binary, stored, hartifact, hreused, r'.mem_ready hreused, ?_, ⟨hbinary, hstored⟩,
    ⟨hfiles.1 _ hbinary, hfiles.2 _ hstored⟩,
    ⟨hkept.1 _ (hfiles.1 _ hbinary), hkept.2 _ (hfiles.2 _ hstored)⟩⟩
  obtain ⟨events, hjournal, hasked⟩ := r'.journal_last
  refine ⟨events, hjournal, fun q hmem => ?_⟩
  obtain ⟨⟨p₂, a⟩, hx, hsource₂, hrequest⟩ := (hasked _ _).1 hmem
  obtain rfl : p₂ = p' := r'.eq_of_source_eq (r'.mem_patches hx) hp' (hsource₂.trans hsource.symm)
  rw [r'.answer_unique hx hreused] at hrequest
  cases hrequest

end Repeated

end Session

/-! ## A source that is reused, and one that is compiled again -/

namespace Sample

/-- A session whose artifacts have the given extension. -/
def storing (extension : String) : Session Unit :=
  { session with settings := { artifactExtension := extension } }

def twinNames : List String := ["A", "A.md5"]

def twinSource (name : String) : Path := ⟨"/g/Patches/" ++ name ++ ".cs"⟩

/-- The game with two sources, whose names differ in the ending of sidecars. -/
def twins : Disk :=
  ⟨[(["g"], .folder), (["g", "CompiledPatches"], .folder), (["g", "D.exe"], .file []),
    (["g", "D_Data"], .folder), (["g", "D_Data", "Managed"], .folder),
    (["g", "D_Data", "Managed", "Assembly-CSharp.dll"], .file [1]), (["g", "Patches"], .folder),
    (["g", "Patches", "A.cs"], .file (source "A" "Update")),
    (["g", "Patches", "A.md5.cs"], .file (source "A.md5" "Update")),
    (["g", "Patches", "Lib"], .folder)]⟩

def before : World Unit := ⟨twins, (), []⟩

/-- The descriptor of a source with the given name. -/
def twin (name : String) : Descriptor :=
  { first with
    name
    checksum := Checksum.of (source name "Update")
    source := twinSource name
    class_ := "Player"
    method := "Update"
    patchClass := "Hooks"
    patchMethod := "Run" }

def twinParsed : List Sources.Parsed := twinNames.map fun name => (twinSource name, .ok (twin name))

theorem parse_twin : ∀ name ∈ twinNames,
    (Descriptor.parse (Text.Utf8.decodeLossy (source name "Update")) (twinSource name)
      (Checksum.of (source name "Update")) (session.settings.defaults none)).toOption =
        some (twin name) := by decide +kernel

/-- The world in which the game has been set up and its primary binary is open. -/
def openedIn (w : World Unit) : World Unit :=
  World.note { w with disk := (session.setUp layout w.disk).2 }
    (.loaded layout.primary (.writableIn layout.managed))

/-- What it takes for the two sources to be found. -/
def findsTwins (d : Disk) : Bool :=
  let placed := (session.setUp layout d).2
  isFound d && (session.setUp layout d).1.toOption == some () &&
    placed.isFolder layout.patches &&
    (placed.walk layout.patches).toOption == some ["g", "Patches"] &&
    placed.isFolderAt ["g", "Patches"] &&
    placed.childrenOf ["g", "Patches"] == ["A.cs", "A.md5.cs", "Lib"] &&
    ((["A.cs", "A.md5.cs", "Lib"].map layout.patches.child).filter fun p =>
      placed.isFile p && References.hasExtension p "cs") == twinNames.map twinSource &&
    twinNames.all fun name =>
      (placed.readFile (twinSource name)).toOption == some (source name "Update")

/-- The two patches compiled one after the other. -/
def compiledIn (extension : String) (w : World Unit) : List Sources.Parsed × World Unit :=
  Sources.compileEach ((storing extension).cacheOf layout) session.compiler (openedIn w)
    (twinNames.map twin)

/-- The answers that they get. -/
def answersIn (extension : String) (w : World Unit) : List (Descriptor × Cache.Answer) :=
  (((storing extension).cacheOf layout).compileAll session.compiler (openedIn w).disk
    (twinNames.map twin)).1

/-- The world after they have been applied. -/
def patchedIn (extension : String) (w : World Unit) : World Unit :=
  ((storing extension).patchPrimary layout (compiledIn extension w).2 original
    (Sources.admitted (compiledIn extension w).1)).2

theorem readFile_twins {w : World Unit} (h : findsTwins w.disk = true) :
    ∀ name ∈ twinNames,
      Disk.readFile (openedIn w).disk (twinSource name) = .ok (source name "Update") := by
  simp only [findsTwins, Bool.and_eq_true] at h
  exact fun name hname => eq_ok_of_toOption (beq_iff_eq.1 (List.all_eq_true.1 h.2 name hname))

theorem checks_twins (extension : String) {w : World Unit} (h : findsTwins w.disk = true) :
    (storing extension).Checks w ⟨"/g"⟩ layout original (openedIn w) twinParsed := by
  have hread := readFile_twins h
  simp only [findsTwins, Bool.and_eq_true, beq_iff_eq] at h
  obtain ⟨⟨⟨⟨⟨⟨⟨hfound, hsetUp⟩, hpatches⟩, hwalk⟩, hfolder⟩, hnames⟩, hsources⟩, -⟩ := h
  have hdiscover := discover_of_isFound ⟨"CompiledPatches"⟩ ⟨"Games"⟩ hfound
  rw [found_usual] at hdiscover
  have hlist := Disk.list_of_pairwise ["g", "Patches"] hwalk hfolder hnames (by decide)
  have hfiles : ∀ name ∈ twinNames, Descriptor.ofFile (openedIn w).disk (twinSource name)
      (session.settings.defaults none) = .ok (twin name) := by
    intro name hname
    unfold Descriptor.ofFile
    rw [hread name hname]
    exact eq_ok_of_toOption (parse_twin name hname)
  have hparsed : Sources.parseEach (openedIn w).disk (session.settings.defaults none)
      (twinNames.map twinSource) = .ok twinParsed := by
    simp only [twinNames, List.forall_mem_cons] at hfiles
    simp only [twinNames, twinParsed, List.map_cons, List.map_nil, Sources.parseEach, hfiles.1,
      hfiles.2.1]
  have hadmitted : Sources.admitEach [] twinParsed = twinParsed := by
    have hne : (Sources.claimOf "A" == Sources.claimOf "A.md5") = false := by decide
    simp [twinParsed, twinNames, Sources.admitEach, twin, hne]
  refine ⟨twinNames.map twinSource, twinParsed, ⟨hdiscover, ?_, ?_⟩, hparsed, hadmitted⟩
  · exact ⟨_, eq_mk_of_fst (eq_ok_of_toOption hsetUp),
      congrArg (fun a => (Except.ok a, openedIn w)) (if_pos rfl)⟩
  · exact (Layout.sources_of_list (l := layout) hpatches hlist).trans (congrArg Except.ok hsources)

theorem assembly_of_mem_compiledIn (extension : String) (w : World Unit) :
    ∀ p ∈ Sources.admitted (compiledIn extension w).1, p.assembly = layout.primaryName := by
  intro p hp
  obtain ⟨source, hp⟩ := Sources.mem_admitted.1 hp
  obtain ⟨q, hq, -, rfl⟩ := Sources.mem_of_mem_compileEach hp
  obtain ⟨name, -, rfl⟩ := List.mem_map.1 hq
  show ({} : Defaults).assembly = _
  decide

/-- A run on the game with the two sources. -/
theorem exists_run_twins (extension : String) {w : World Unit} (h : findsTwins w.disk = true) :
    ∃ r : (storing extension).Run .sound w ⟨"/g"⟩, r.layout = layout ∧
      r.opened.disk.readFile (twinSource "A") = .ok (source "A" "Update") ∧
      r.patches = twinNames.map twin ∧ r.answers = answersIn extension w ∧
      (∀ p ∈ r.ready, p.assembly = layout.primaryName) ∧
      (∃ report, (storing extension).patch w ⟨"/g"⟩ = (.ok report, r.last)) ∧
      r.last = patchedIn extension w := by
  have hchecks := checks_twins extension h
  obtain ⟨r, hlayout, hopened, hchecked, hanswers, hresult⟩ := hchecks.exists_run
  have hadmitted : Sources.admitted twinParsed = twinNames.map twin := rfl
  have hcompiled : r.answers.map Sources.outcomeOf = (compiledIn extension w).1 := by
    rw [hanswers, hadmitted]
    exact (Sources.compileEach_eq ((storing extension).cacheOf layout) session.compiler (openedIn w)
      (twinNames.map twin)).1.symm
  have hready : ∀ p ∈ Sources.admitted (compiledIn extension w).1,
      p.assembly = layout.primaryName := assembly_of_mem_compiledIn extension w
  refine ⟨r, hlayout, hopened ▸ readFile_twins h "A" List.mem_cons_self, ?_, hanswers, ?_,
    hresult ▸ r.result_eq, ?_⟩
  · rw [Session.Run.patches, hchecked, hadmitted]
  · rwa [Session.Run.ready, hcompiled]
  · rw [Session.Run.last, hresult, hchecks.patch_eq, Session.snd_finish, hadmitted]
    exact congrArg Prod.snd (Session.patchAll_of_primary _ _ _ hready)

/-- Nothing is put in the place of an artifact in the usual folder, when all patches are for the primary
binary. -/
theorem sparesFile_twins {ps : List Descriptor} (h : ∀ p ∈ ps, p.assembly = layout.primaryName) :
    ∀ file ∈ ((storing "dll").cacheOf layout).files "A",
      (storing "dll").SparesFile layout ps file := by
  have hplaces : ∀ file ∈ ((storing "dll").cacheOf layout).files "A",
      file.place.take 2 = ["g", "CompiledPatches"] := by decide
  intro file hfile
  have hplace := hplaces file hfile
  constructor
  · intro p hp hputs
    rw [h p hp] at hputs
    obtain ⟨rest, heq⟩ := exists_of_putsBeside hputs
    rw [heq] at hplace
    exact absurd (List.cons.inj (List.cons.inj hplace).2).1 (by decide)
  · intro p hp heq
    rw [h p hp] at heq
    rw [← heq] at hplace
    exact absurd hplace (by decide)
  · intro name copy marker hcovers heq
    have huses : (session.backupOf layout).Uses layout name marker.place :=
      ⟨copy, marker, hcovers, .inr rfl⟩
    obtain ⟨rest, hmarker⟩ := exists_of_uses huses
    rw [← heq, hmarker] at hplace
    exact absurd (List.cons.inj hplace).1 (by decide)

theorem sparesPatch_twins {w : World Unit} {r : (storing "dll").Run .sound w ⟨"/g"⟩}
    (hlayout : r.layout = layout) (hpatches : r.patches = twinNames.map twin)
    (hready : ∀ p ∈ r.ready, p.assembly = layout.primaryName) : r.SparesPatch (twin "A") where
  writes := writesInPlace_store.others
  folders := keepsFolders_store
  alone := by
    have hextension : r.cache.extension = "dll" := rfl
    have hplain : r.cache.HasPlainNames :=
      ⟨by rw [hextension]; decide, by rw [hextension]; decide⟩
    have haccepts : Sources.Accepts r.opened.disk r.patches := by
      obtain ⟨sources, parsed, -, hparsed, hchecked⟩ := r.checks.accepts
      exact ⟨_, sources, parsed, hparsed, congrArg Sources.admitted hchecked⟩
    refine hplain.standsAlone (by rw [hextension]; decide) (haccepts.admitted r.cache) ?_
    rw [hpatches]
    exact List.mem_cons_self
  files := by
    rw [Session.Run.cache, hlayout]
    exact sparesFile_twins hready

/-- The name of a patch, whether it was reused or compiled, and whether the compiler was asked. -/
def glance (x : Descriptor × Cache.Answer) : String × Option Freshness × Bool :=
  (x.1.name, x.2.result.toOption.map (·.freshness), x.2.request.isSome)

/-- The first source is compiled when that is seen of the first answer. -/
theorem exists_compiled_of_glance {extension : String} {w : World Unit}
    {r : (storing extension).Run .sound w ⟨"/g"⟩} {rest : List (String × Option Freshness × Bool)}
    (hpatches : r.patches = twinNames.map twin)
    (h : r.answers.map glance = ("A", some .compiled, true) :: rest) :
    ∃ done request, (twin "A", ⟨.ok done, some request⟩) ∈ r.answers ∧
      done.freshness = .compiled := by
  obtain ⟨⟨patch, result, request⟩, others, hanswers, hglance, -⟩ := List.map_eq_cons_iff.1 h
  have hfirst : r.answers.map (·.1) = twinNames.map twin := r.finishes.patches.trans hpatches
  rw [hanswers] at hfirst ⊢
  obtain ⟨rfl, -⟩ := List.cons.inj hfirst
  obtain ⟨hfreshness, hasked⟩ := Prod.mk.inj (Prod.mk.inj hglance).2
  obtain ⟨done, hdone, hcompiled⟩ := Option.map_eq_some_iff.1 hfreshness
  obtain ⟨r, rfl⟩ := Option.isSome_iff_exists.1 hasked
  obtain rfl := eq_ok_of_toOption hdone
  exact ⟨done, r, List.mem_cons_self, hcompiled⟩

theorem twins_stored : findsTwins before.disk = true ∧
    (answersIn "dll" before).map glance =
      [("A", some .compiled, true), ("A.md5", some .compiled, true)] ∧
    findsTwins (patchedIn "dll" before).disk = true := by decide +kernel

/-- A source is compiled in the first run, and reused in the second one. -/
theorem reused_twins : ∃ (r : (storing "dll").Run .sound before ⟨"/g"⟩)
    (r' : (storing "dll").Run .sound r.last ⟨"/g"⟩) (done : Compiled) (request : Request) (artifact : Path),
    (∃ report, (storing "dll").patch before ⟨"/g"⟩ = (.ok report, r.last)) ∧
      (∃ report, (storing "dll").patch r.last ⟨"/g"⟩ = (.ok report, r'.last)) ∧
      (twin "A", ⟨.ok done, some request⟩) ∈ r.answers ∧ done.freshness = .compiled ∧
      r.cache.Keeps "A" r.last.disk r.last.disk ∧ twin "A" ∈ r'.patches ∧
      r'.opened.disk.readFile (twinSource "A") = r.opened.disk.readFile (twinSource "A") ∧
      r.SparesPatch (twin "A") ∧ r'.SparesPatch (twin "A") ∧
      (twin "A", ⟨.ok ⟨(twin "A").withArtifact artifact, .reused⟩, none⟩) ∈ r'.answers ∧
      ∃ events, r'.last.journal = r.last.journal ++ events ∧
        ∀ request, Event.compiled (twinSource "A") request ∉ events := by
  obtain ⟨hfinds, hglance, hfinds'⟩ := twins_stored
  obtain ⟨r, hlayout, hread, hpatches, hanswers, hready, hresult, hlast⟩ :=
    exists_run_twins "dll" hfinds
  rw [← hlast] at hfinds'
  obtain ⟨r', hlayout', hread', hpatches', -, hready', hresult', -⟩ := exists_run_twins "dll" hfinds'
  obtain ⟨done, request, hdone, hfreshness⟩ := exists_compiled_of_glance hpatches (hanswers ▸ hglance)
  have hspares := sparesPatch_twins hlayout hpatches hready
  have hspares' := sparesPatch_twins hlayout' hpatches' hready'
  have hkeeps : r.cache.Keeps "A" r.last.disk r.last.disk := ⟨id, fun file _ => .refl file _⟩
  have hpatch : twin "A" ∈ r'.patches := hpatches' ▸ List.mem_cons_self
  have hsame := hread'.trans hread.symm
  obtain ⟨artifact, -, -, -, hreused, -, hjournal, -⟩ := Session.unchanged_reused.2 _ _ _ _ _ _ _ r r'
    (twin "A") (twin "A") done (some request) rfl hdone hkeeps hpatch rfl rfl hsame hspares hspares'
  exact ⟨r, r', done, request, artifact, hresult, hresult', hdone, hfreshness, hkeeps, hpatch, hsame,
    hspares, hspares', hreused, hjournal⟩

theorem twins_clash : (answersIn "md5" before).map glance =
      [("A", some .compiled, true), ("A.md5", some .compiled, true)] ∧
    findsTwins (patchedIn "md5" before).disk = true ∧
    (answersIn "md5" (patchedIn "md5" before)).map glance =
      [("A", some .compiled, true), ("A.md5", some .reused, false)] := by decide +kernel

/-- **With the extension of sidecars the source is compiled again**: the artifact of the other source takes the
place of its sidecar. Nothing changes between the runs, and the source is as it was. -/
theorem recompiled_twins : ∃ (r : (storing "md5").Run .sound before ⟨"/g"⟩)
    (r' : (storing "md5").Run .sound r.last ⟨"/g"⟩) (done : Compiled) (request request' : Request),
    (∃ report, (storing "md5").patch before ⟨"/g"⟩ = (.ok report, r.last)) ∧
      (∃ report, (storing "md5").patch r.last ⟨"/g"⟩ = (.ok report, r'.last)) ∧
      (twin "A", ⟨.ok done, some request⟩) ∈ r.answers ∧ done.freshness = .compiled ∧
      twin "A" ∈ r'.patches ∧
      r'.opened.disk.readFile (twinSource "A") = r.opened.disk.readFile (twinSource "A") ∧
      ∃ events, r'.last.journal = r.last.journal ++ events ∧
        Event.compiled (twinSource "A") request' ∈ events := by
  obtain ⟨hglance, hfinds', hglance'⟩ := twins_clash
  obtain ⟨r, -, hread, hpatches, hanswers, -, hresult, hlast⟩ :=
    exists_run_twins "md5" twins_stored.1
  rw [← hlast] at hfinds' hglance'
  obtain ⟨r', -, hread', hpatches', hanswers', -, hresult', -⟩ := exists_run_twins "md5" hfinds'
  obtain ⟨done, request, hdone, hfreshness⟩ := exists_compiled_of_glance hpatches (hanswers ▸ hglance)
  obtain ⟨done', request', hdone', -⟩ := exists_compiled_of_glance hpatches' (hanswers' ▸ hglance')
  obtain ⟨events, hjournal, hasked⟩ := r'.journal_last
  exact ⟨r, r', done, request, request', hresult, hresult', hdone, hfreshness,
    hpatches' ▸ List.mem_cons_self, hread'.trans hread.symm, events, hjournal,
    (hasked _ _).2 ⟨_, hdone', rfl, rfl⟩⟩

end Sample

end CilGraft
