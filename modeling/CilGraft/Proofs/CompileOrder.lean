import CilGraft.Proofs.Interleavings

/-!
# The order in which patches are compiled

A run compiles the patches that it accepted. It may do so one after the other, or at the same time, with
the results in the order of the patches.

* `Sources.Accepts` — the patches accepted from sources; they have artifacts of their own.
* `Sources.Interleaves` — patches are compiled by turns; `interleaves_compileEach`.
* `Session.patchBy` — a run that compiles its patches in a given way; `patchBy_compileEach`.
* `Session.compiled_in_any_order` — the order makes no difference to patches that do not depend on what
  other ones store.
* `Sample.library_compiled_later` — it does to a patch that has another one for a library.
-/

set_option autoImplicit false

namespace CilGraft

open Disk

variable {σ : Type}

/-- Patches that ask for no libraries are independent, in a cache that has none for them and with their
sources elsewhere. -/
theorem Cache.independent_of_references {c : Cache} {d : Disk} {ps : List Descriptor} (hplain : c.HasPlainNames)
    (hruntime : c.runtime = none) (hlibraries : c.libraries = none)
    (hreferences : ∀ p ∈ ps, p.references = [])
    (hsources : ∀ p ∈ ps, ∀ q ∈ ps, ¬ c.Writes q p.source.place) : c.Independent d ps where
  plain := hplain
  source := fun p hp q hq _ => hsources p hp q hq
  libraries := by
    rintro p hp q - - n - (⟨x, hx, -⟩ | ⟨folder, -, hfolder, -⟩)
    · unfold candidates at hx
      rw [hruntime, hlibraries, hreferences p hp] at hx
      cases hx
    · rw [hlibraries] at hfolder
      cases hfolder

namespace Sources

/-! ## Patches that are accepted -/

/-- The patches are those that are accepted from sources on a disk. -/
def Accepts (d : Disk) (ps : List Descriptor) : Prop :=
  ∃ defaults sources parsed, parseEach d defaults sources = .ok parsed ∧
    admitted (admitEach [] parsed) = ps

/-- No two patches that are admitted claim the same artifact, and none claims one that is taken. -/
theorem pairwise_claimOf (claimed : List (List Char × Path)) (xs : List Parsed) :
    (∀ p ∈ admitted (admitEach claimed xs), ∀ taken ∈ claimed, taken.1 ≠ claimOf p.name) ∧
      (admitted (admitEach claimed xs)).Pairwise fun p q => claimOf p.name ≠ claimOf q.name := by
  fun_induction admitEach claimed xs with
  | case1 => exact ⟨fun _ h => absurd h List.not_mem_nil, .nil⟩
  | case2 claimed source e rest ih => exact ih
  | case3 claimed source p rest _ _ _ ih => exact ih
  | case4 claimed source p rest hfree ih =>
    obtain ⟨htaken, hpairwise⟩ := ih
    have hadmitted : admitted ((source, .ok p) :: admitEach ((claimOf p.name, source) :: claimed) rest) =
        p :: admitted (admitEach ((claimOf p.name, source) :: claimed) rest) := rfl
    rw [hadmitted]
    constructor
    · refine List.forall_mem_cons.2 ⟨fun taken hmem => ?_, fun q hq taken hmem => ?_⟩
      · simpa using List.find?_eq_none.1 hfree taken hmem
      · exact htaken q hq taken (List.mem_cons_of_mem _ hmem)
    · exact List.pairwise_cons.2 ⟨fun q hq => htaken q hq _ List.mem_cons_self, hpairwise⟩

theorem claimOf_congr {c : Cache} {a b : String} (h : c.fileName a = c.fileName b) :
    claimOf a = claimOf b := by
  have hlists := congrArg String.toList h
  simp only [Cache.fileName, Cache.assemblyName, String.toList_append, String.toList_ofList] at hlists
  rw [claimOf, claimOf, List.append_cancel_right (List.append_cancel_right hlists)]

theorem Accepts.admitted {d : Disk} {ps : List Descriptor} (h : Accepts d ps) (c : Cache) :
    c.Admitted d ps := by
  obtain ⟨defaults, sources, parsed, hparsed, rfl⟩ := h
  refine ⟨(pairwise_claimOf [] parsed).2.imp fun hne heq => hne (claimOf_congr heq), fun p hp => ?_⟩
  obtain ⟨source, hadmitted⟩ := mem_admitted.1 hp
  obtain ⟨hsource, data, hread, -⟩ :=
    Descriptor.source_of_ofFile (ofFile_of_mem_parseEach hparsed (mem_of_mem_admitEach hadmitted))
  exact ⟨data, hsource ▸ hread⟩

/-! ## Ways to compile them -/

/-- A way to compile the patches of a run. -/
abbrev Phase (σ : Type) := World σ → List Descriptor → List Parsed × World σ

/-- What a patch that was compiled comes to. -/
def outcomeOf (x : Descriptor × Cache.Answer) : Parsed := (x.1.source, x.2.result.map (·.descriptor))

/-- The patches are compiled by turns until all of them are done. The results are in the order of the
patches. -/
def Interleaves [Device] (c : Cache) (compiler : Compiler) (phase : Phase σ) : Prop :=
  ∀ (w : World σ) (ps : List Descriptor), ps.Nodup → ∃ turns answers,
    c.Finishes compiler w.disk ps turns answers ∧
      (phase w ps).1 = answers.map outcomeOf ∧
      (phase w ps).2.disk = (c.run compiler w.disk turns).disk ∧
      (phase w ps).2.store = w.store

variable {c : Cache} {compiler : Compiler}

theorem compileEach_eq [Device] (c : Cache) (compiler : Compiler) (w : World σ) (ps : List Descriptor) :
    (compileEach c compiler w ps).1 = (c.compileAll compiler w.disk ps).1.map outcomeOf ∧
      (compileEach c compiler w ps).2.disk = (c.compileAll compiler w.disk ps).2 ∧
      (compileEach c compiler w ps).2.store = w.store := by
  induction ps generalizing w with
  | nil => exact ⟨rfl, rfl, rfl⟩
  | cons p ps ih =>
    have hresult : (compileOne c compiler w p).1 = (c.compile compiler w.disk p).result :=
      result_compileOne w p
    have hone : (compileOne c compiler w p).2.disk = (c.compile compiler w.disk p).disk ∧
        (compileOne c compiler w p).2.store = w.store := by
      rw [compileOne_eq]
      exact ⟨rfl, rfl⟩
    obtain ⟨hothers, hdisk, hstore⟩ := ih (compileOne c compiler w p).2
    rw [hone.1] at hothers hdisk
    rw [hone.2] at hstore
    refine ⟨?_, hdisk, hstore⟩
    calc (compileEach c compiler w (p :: ps)).1
        = (p.source, (compileOne c compiler w p).1.map (·.descriptor)) ::
            (compileEach c compiler (compileOne c compiler w p).2 ps).1 := rfl
      _ = (c.compileAll compiler w.disk (p :: ps)).1.map outcomeOf := by
          rw [hresult, hothers]
          rfl

/-- Patches compiled one after the other are compiled by turns, too. -/
theorem interleaves_compileEach [Device] (c : Cache) (compiler : Compiler) :
    Interleaves c compiler (compileEach c compiler : Phase σ) := by
  intro w ps hnodup
  obtain ⟨hresults, hdisk, hstore⟩ := compileEach_eq c compiler w ps
  obtain ⟨turns, hfinishes, hrun⟩ := Cache.exists_finishes_compileAll c compiler w.disk hnodup
  exact ⟨turns, _, hfinishes, hresults, hdisk.trans hrun.symm, hstore⟩

/-- Two ways to compile the same patches by turns have the same results. -/
theorem Interleaves.agree {phase phase' : Phase σ} (h : Interleaves c compiler phase)
    (h' : Interleaves c compiler phase') {w : World σ} {ps : List Descriptor}
    (haccepts : Accepts w.disk ps) (hindependent : c.Independent w.disk ps) :
    Agree World.Same (phase w ps) (phase' w ps) := by
  have hadmitted := haccepts.admitted c
  obtain ⟨turns, answers, hfinishes, hresults, hdisk, hstore⟩ := h w ps hadmitted.nodup
  obtain ⟨turns', answers', hfinishes', hresults', hdisk', hstore'⟩ := h' w ps hadmitted.nodup
  have hanswers : answers' = answers :=
    (hfinishes'.answers_eq hindependent hadmitted (.refl ps)).trans
      (hfinishes.answers_eq hindependent hadmitted (.refl ps)).symm
  have hsame := hfinishes.sameEntries hindependent hadmitted (.refl ps) hfinishes'
  rw [← hdisk, ← hdisk'] at hsame
  have hworlds : World.Same (phase w ps).2 (phase' w ps).2 := ⟨hsame, hstore'.trans hstore.symm⟩
  rw [hanswers, ← hresults] at hresults'
  rw [eq_mk_of_fst hresults']
  exact .mk _ hworlds

end Sources

namespace Session

/-! ## Runs -/

/-- A run gets as far as compiling the patches that it accepted. -/
structure Checks [Device] (s : Session σ) (w : World σ) (game : Path) (l : Layout) (primary : Assembly)
    (w₀ : World σ) (checked : List Sources.Parsed) : Prop where
  accepts : ∃ sources parsed, s.Opens w game l primary w₀ sources ∧
    Sources.parseEach w₀.disk (s.settings.defaults primary.framework) sources = .ok parsed ∧
    Sources.admitEach [] parsed = checked

/-- The rest of a run, from the results of compiling on. -/
def finish [Device] (s : Session σ) (l : Layout) (primary : Assembly) (checked : List Sources.Parsed)
    (done : List Sources.Parsed × World σ) : Except Error Report × World σ :=
  let (report, w) := s.patchAll l (s.backupOf l) done.2 primary (Sources.admitted done.1)
  (.ok { report with sourceFailures := Sources.failures checked ++ Sources.failures done.1 }, w)

/-- A run that compiles its patches in the given way. -/
def patchBy [Device] (s : Session σ) (phase : Cache → Sources.Phase σ) (w : World σ) (game : Path) :
    Except Error Report × World σ :=
  match Layout.discover w.disk game s.settings with
  | .error e => (.error e, w)
  | .ok l =>
    match s.setUp l w.disk with
    | (.error e, disk) => (.error e, { w with disk })
    | (.ok (), disk) =>
      match { w with disk }.load s.store l.primary (.writableIn l.managed) with
      | (.error e, w) => (.error e, w)
      | (.ok primary, w) =>
        match l.sources w.disk with
        | .error e => (.error e, w)
        | .ok sources =>
          match Sources.parseEach w.disk (s.settings.defaults primary.framework) sources with
          | .error e => (.error e, w)
          | .ok parsed =>
            let checked := Sources.admitEach [] parsed
            s.finish l primary checked (phase (s.cacheOf l) w (Sources.admitted checked))

variable {s : Session σ}

/-- A run that compiles one patch after the other is a run. -/
theorem patchBy_compileEach [Device] (s : Session σ) (w : World σ) (game : Path) :
    s.patchBy (fun c => Sources.compileEach c s.compiler) w game = s.patch w game := by
  unfold patchBy patch
  cases Layout.discover w.disk game s.settings with
  | error e => rfl
  | ok l =>
    dsimp only
    rcases s.setUp l w.disk with ⟨_ | _, disk⟩
    · rfl
    · dsimp only
      rcases World.load s.store { w with disk } l.primary (.writableIn l.managed) with ⟨_ | primary, w₀⟩
      · rfl
      · dsimp only [patchOpened, prepare]
        cases l.sources w₀.disk with
        | error e => rfl
        | ok sources =>
          dsimp only [Sources.prepare]
          cases Sources.parseEach w₀.disk (s.settings.defaults primary.framework) sources with
          | error e => rfl
          | ok parsed => rfl

/-- A run ends before it compiles anything, or it compiles the patches that it accepted. -/
theorem patchBy_cases [Device] (s : Session σ) (w : World σ) (game : Path) :
    (∃ e w', ∀ phase, s.patchBy phase w game = (.error e, w')) ∨
      ∃ l primary w₀ checked, s.Checks w game l primary w₀ checked ∧
        ∀ phase, s.patchBy phase w game =
          s.finish l primary checked (phase (s.cacheOf l) w₀ (Sources.admitted checked)) := by
  unfold patchBy
  split
  · exact .inl ⟨_, _, fun _ => rfl⟩
  · rename_i l hlayout
    split
    · exact .inl ⟨_, _, fun _ => rfl⟩
    · rename_i disk hsetUp
      split
      · exact .inl ⟨_, _, fun _ => rfl⟩
      · rename_i primary w₀ hload
        split
        · exact .inl ⟨_, _, fun _ => rfl⟩
        · rename_i sources hfound
          split
          · exact .inl ⟨_, _, fun _ => rfl⟩
          · rename_i parsed hparsed
            refine .inr ⟨l, primary, w₀, Sources.admitEach [] parsed, ?_, fun _ => rfl⟩
            exact ⟨sources, parsed, ⟨hlayout, ⟨disk, hsetUp, hload⟩, hfound⟩, hparsed, rfl⟩

theorem finish_same (hstore : s.store.IsExtensional) (l : Layout) (primary : Assembly)
    (checked : List Sources.Parsed) {done done' : List Sources.Parsed × World σ}
    (h : Agree World.Same done done') :
    Agree World.Same (s.finish l primary checked done) (s.finish l primary checked done') := by
  obtain @⟨compiled, w, w', hsame⟩ := h
  have hall := patchAll_same hstore hsame l (s.backupOf l) (Sources.admitted compiled) primary
  unfold finish
  dsimp only
  generalize s.patchAll l (s.backupOf l) w primary (Sources.admitted compiled) = x,
    s.patchAll l (s.backupOf l) w' primary (Sources.admitted compiled) = y at hall
  obtain @⟨report, w₁, w₁', hsame'⟩ := hall
  exact .mk _ hsame'

/-- **The order in which patches are compiled makes no difference**, when no patch depends on what another
one stores. Compiled one after the other in any order, each patch has the request and the result that it
has on the disk of the beginning, and the files are the same. A run that compiles its patches at the same
time, with accesses to the disk in any order, has the same report and the same files. -/
theorem compiled_in_any_order (s : Session σ) (hstore : s.store.IsExtensional) :
    (∀ (c : Cache) (compiler : Compiler) (d : Disk) (ps qs : List Descriptor),
      Sources.Accepts d ps → c.Independent d ps → qs.Perm ps →
        (c.compileAll compiler d qs).1 = qs.map (fun p => (p, (c.compile compiler d p).answer)) ∧
          SameEntries (c.compileAll compiler d ps).2 (c.compileAll compiler d qs).2) ∧
    ∀ (w : World σ) (game : Path),
      (∀ l primary w₀ checked, s.Checks w game l primary w₀ checked →
        (s.cacheOf l).Independent w₀.disk (Sources.admitted checked)) →
      ∀ phase : Cache → Sources.Phase σ, (∀ c, Sources.Interleaves c s.compiler (phase c)) →
        (s.patchBy phase w game).1 = (s.patch w game).1 ∧
          SameEntries (s.patch w game).2.disk (s.patchBy phase w game).2.disk := by
  refine ⟨fun c compiler d ps qs haccepts hindependent hperm =>
    Cache.compileAll_of_perm hindependent (haccepts.admitted c) hperm, ?_⟩
  intro w game hindependent phase hphase
  have hagree : Agree World.Same (s.patch w game) (s.patchBy phase w game) := by
    rw [← patchBy_compileEach]
    obtain ⟨e, w', hends⟩ | ⟨l, primary, w₀, checked, hchecks, hfinish⟩ := s.patchBy_cases w game
    · rw [hends, hends]
      exact .mk _ ⟨fun _ => rfl, rfl⟩
    · rw [hfinish, hfinish]
      have haccepts : Sources.Accepts w₀.disk (Sources.admitted checked) := by
        obtain ⟨sources, parsed, -, hparsed, rfl⟩ := hchecks.accepts
        exact ⟨_, sources, parsed, hparsed, rfl⟩
      exact finish_same hstore l primary checked
        ((Sources.interleaves_compileEach _ _).agree (hphase _) haccepts
          (hindependent l primary w₀ checked hchecks))
  exact ⟨hagree.value, hagree.rest.disk⟩

end Session

/-! ## Two patches, apart and one for the other -/

namespace Sample

/-- The descriptors that are accepted from sources. -/
def acceptedFrom (d : Disk) (defaults : Defaults) (sources : List Path) : List Descriptor :=
  Sources.admitted (Sources.admitEach [] ((Sources.parseEach d defaults sources).toOption.getD []))

theorem accepts_of_ne_nil {d : Disk} {defaults : Defaults} {sources : List Path}
    (h : acceptedFrom d defaults sources ≠ []) :
    Sources.Accepts d (acceptedFrom d defaults sources) := by
  unfold acceptedFrom at h ⊢
  cases hparsed : Sources.parseEach d defaults sources with
  | error e =>
    rw [hparsed] at h
    exact absurd rfl h
  | ok parsed => exact ⟨defaults, sources, parsed, hparsed, rfl⟩

theorem isExtensional_store : store.IsExtensional where
  load _ _ _ _ _ _ := rfl
  write := by
    intro state d d' a p h
    have hwrite := h.writeFile p [4]
    unfold store
    dsimp only
    generalize d.writeFile p [4] = x, d'.writeFile p [4] = y at hwrite
    cases hwrite with
    | error e => exact .mk _ (.mk _ h)
    | ok same => exact .mk _ (.mk _ same)

/-- The patches of the game with two sources. -/
def apart : List Descriptor :=
  acceptedFrom placed (session.settings.defaults none) [⟨"/g/Patches/A.cs"⟩, ⟨"/g/Patches/B.cs"⟩]

/-- The name, the source and the libraries of a patch. -/
def fieldsOf (p : Descriptor) : String × Path × List Path := (p.name, p.source, p.references)

def apartFields : List (String × Path × List Path) :=
  [("A", ⟨"/g/Patches/A.cs"⟩, []), ("B", ⟨"/g/Patches/B.cs"⟩, [])]

theorem map_apart : apart.map fieldsOf = apartFields := by decide +kernel

theorem apart_ne_nil : apart ≠ [] := by
  intro hnil
  have hmap := map_apart
  rw [hnil] at hmap
  simp [apartFields] at hmap

theorem independent_of_fields {ps : List Descriptor} (h : ps.map fieldsOf = apartFields) :
    (session.cacheOf layout).Independent placed ps := by
  have hfields : ∀ p ∈ ps, fieldsOf p ∈ apartFields := fun p hp => h ▸ List.mem_map_of_mem hp
  have hreferences : ∀ x ∈ apartFields, x.2.2 = [] := by decide
  have hplaces : ∀ x ∈ apartFields, ∀ y ∈ apartFields,
      ¬ (x.2.1.place = ((session.cacheOf layout).artifactPath y.1).place ∨
        x.2.1.place = (sidecarPath ((session.cacheOf layout).artifactPath y.1)).place) := by
    decide +kernel
  exact Cache.independent_of_references ⟨by decide, by decide⟩ rfl rfl
    (fun p hp => hreferences (fieldsOf p) (hfields p hp))
    fun p hp q hq => hplaces (fieldsOf p) (hfields p hp) (fieldsOf q) (hfields q hq)

theorem eq_apart_of_checks {l : Layout} {primary : Assembly} {w₀ : World Unit}
    {checked : List Sources.Parsed} (h : session.Checks start ⟨"/g"⟩ l primary w₀ checked) :
    l = layout ∧ w₀.disk = placed ∧ Sources.admitted checked = apart := by
  obtain ⟨sources, parsed, ⟨hlayout, ⟨disk, hsetUp, hload⟩, hfound⟩, hparsed, rfl⟩ := h.accepts
  obtain rfl := Except.ok.inj (discover_disk.symm.trans hlayout)
  obtain ⟨-, rfl⟩ := Prod.mk.inj (setUp_disk.symm.trans hsetUp)
  obtain ⟨hprimary, rfl⟩ := Prod.mk.inj (load_placed.symm.trans hload)
  obtain rfl := Except.ok.inj hprimary
  obtain rfl := Except.ok.inj (sources_placed.symm.trans hfound)
  refine ⟨rfl, rfl, ?_⟩
  have happart : Sources.parseEach placed (session.settings.defaults none)
      [⟨"/g/Patches/A.cs"⟩, ⟨"/g/Patches/B.cs"⟩] = .ok parsed := hparsed
  rw [apart, acceptedFrom, happart]
  rfl

/-- The two patches of a game may be compiled in any order, and at the same time. -/
theorem any_order_start :
    session.store.IsExtensional ∧ Sources.Accepts placed apart ∧
      (session.cacheOf layout).Independent placed apart ∧ apart.reverse.Perm apart ∧
      apart.map fieldsOf = apartFields ∧
      ((session.cacheOf layout).compileAll session.compiler placed apart.reverse).1 =
        apart.reverse.map (fun p => (p,
          ((session.cacheOf layout).compile session.compiler placed p).answer)) ∧
      (∃ report, (session.patch start ⟨"/g"⟩).1 = .ok report) ∧
      ∀ phase, (∀ c, Sources.Interleaves c session.compiler (phase c)) →
        (session.patchBy phase start ⟨"/g"⟩).1 = (session.patch start ⟨"/g"⟩).1 := by
  have haccepts : Sources.Accepts placed apart := accepts_of_ne_nil apart_ne_nil
  have hindependent := independent_of_fields map_apart
  obtain ⟨hany, hruns⟩ := session.compiled_in_any_order isExtensional_store
  obtain ⟨report, hreport, -⟩ := patch_start
  refine ⟨isExtensional_store, haccepts, hindependent, apart.reverse_perm, map_apart,
    (hany _ _ _ _ _ haccepts hindependent apart.reverse_perm).1, ⟨report, hreport⟩,
    fun phase hphase => (hruns start ⟨"/g"⟩ ?_ phase hphase).1⟩
  intro l primary w₀ checked hchecks
  obtain ⟨rfl, hdisk, hadmitted⟩ := eq_apart_of_checks hchecks
  rw [hdisk, hadmitted]
  exact hindependent

/-- A source whose patch has the artifact of another one for a library. -/
def usingSource : Bytes :=
  Text.Utf8.encode ("/*\n@Name=A\n@TargetClass=P\n@TargetMethod=M\n@TargetLocation=Prefix\n" ++
    "@PatchClass=P\n@PatchMethod=M\n@using ../c/B.dll;\n*/").toList

def linked : Disk :=
  ⟨[(["c"], .folder), (["p"], .folder), (["p", "A.cs"], .file usingSource),
    (["p", "B.cs"], .file (source "B" "M"))]⟩

/-- The patch that uses the other one. -/
def user : Descriptor :=
  { first with references := [⟨"/c/B.dll"⟩], checksum := Checksum.of usingSource }

def used : Descriptor :=
  { first with
    name := "B"
    checksum := Checksum.of (source "B" "M")
    source := ⟨"/p/B.cs"⟩
    class_ := "Player"
    patchClass := "Hooks"
    patchMethod := "Run" }

theorem accepts_linked : Sources.Accepts linked [user, used] := by
  have hlinked : acceptedFrom linked {} [⟨"/p/A.cs"⟩, ⟨"/p/B.cs"⟩] = [user, used] := by decide +kernel
  rw [← hlinked]
  refine accepts_of_ne_nil ?_
  rw [hlinked]
  exact List.cons_ne_nil _ _

/-- The patch that uses the other one is refused without it. -/
def linking : Compiler := fun r =>
  if r.assemblyName = "A" ∧ r.references = [] then .ok (.diagnostics ["B is missing"])
  else .ok (.binary [1])

/-- What the compiler was asked for a patch, and whether it has an artifact. -/
def asked (x : Descriptor × Cache.Answer) : String × Option (List Path) × Bool :=
  (x.1.name, x.2.request.map (·.references), x.2.result.toOption.isSome)

/-- **A patch that has another one for a library depends on the order**: it is compiled without the library
and refused when its turn is first, and it is compiled with the library when its turn is last. -/
theorem library_compiled_later :
    Sources.Accepts linked [user, used] ∧ [used, user].Perm [user, used] ∧
      (artifacts.compileAll linking linked [user, used]).1.map asked =
        [("A", some [], false), ("B", some [], true)] ∧
      (artifacts.compileAll linking linked [used, user]).1.map asked =
        [("B", some [], true), ("A", some [⟨"/c/B.dll"⟩], true)] :=
  ⟨accepts_linked, .swap user used [], by decide +kernel, by decide +kernel⟩

end Sample

end CilGraft
