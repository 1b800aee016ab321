import CilGraft.Proofs.Discovery

/-!
# The turns of a run

A run takes its binaries one after the other. When a binary has its turn it is opened, the patches of
its group are applied in order, and the assembly is handed over for writing at the end.

* `World.HandsOver` — the assemblies that a step hands over for writing.
* `Session.Begins` — a run gets as far as its patches; `patch_cases`.
* `world_applyNext`, `openOther_cases`, `writeGuarded_cases` — what the steps of a turn do.
* `patchBinary_cases`, `patchOther_cases`, `patchPrimary_cases` — how a turn ends.
* `Session.Turn` — a binary has its turn, with the assembly that was opened for it.
* `exists_outcomes` — each patch of a group has one record, in order.
* `patches_of_turn` — the report has these records for the binary, and no others.
* `turn_of_handedOver` — an assembly is handed over at the end of a turn only.
-/

set_option autoImplicit false

namespace CilGraft

variable {σ : Type}

/-! ## What is handed over -/

namespace World

variable {P Q : Assembly → Path → Prop} {w w' w'' : World σ}

/-- The second world has the journal of the first, followed by events that hand over only assemblies
for which the condition holds. -/
def HandsOver (P : Assembly → Path → Prop) (w w' : World σ) : Prop :=
  ∃ events, w'.journal = w.journal ++ events ∧ ∀ a p f, Event.written a p f ∈ events → P a p

/-- The world has the same journal. -/
theorem HandsOver.of_eq (h : w'.journal = w.journal) : w.HandsOver P w' :=
  ⟨[], by rw [h, List.append_nil], fun _ _ _ hmem => absurd hmem List.not_mem_nil⟩

theorem HandsOver.refl (w : World σ) : w.HandsOver P w := HandsOver.of_eq rfl

theorem HandsOver.trans (h : w.HandsOver P w') (h' : w'.HandsOver P w'') : w.HandsOver P w'' := by
  obtain ⟨events, hjournal, hevents⟩ := h
  obtain ⟨events', hjournal', hevents'⟩ := h'
  refine ⟨events ++ events', by rw [hjournal', hjournal, List.append_assoc], fun a p f hmem => ?_⟩
  exact (List.mem_append.1 hmem).elim (hevents a p f) (hevents' a p f)

theorem HandsOver.mono (h : w.HandsOver P w') (hle : ∀ a p, P a p → Q a p) :
    w.HandsOver Q w' := by
  obtain ⟨events, hjournal, hevents⟩ := h
  exact ⟨events, hjournal, fun a p f hmem => hle a p (hevents a p f hmem)⟩

/-- The step hands nothing over. -/
abbrev Reads (w w' : World σ) : Prop := w.HandsOver (fun _ _ => False) w'

theorem Reads.handsOver (h : w.Reads w') : w.HandsOver P w' := h.mono fun _ _ => False.elim

theorem reads_load (store : ModuleStore σ) (w : World σ) (p : Path) (o : LoadOptions) :
    w.Reads (w.load store p o).2 :=
  ⟨[.loaded p o], rfl, fun _ _ _ hmem => nomatch List.mem_singleton.1 hmem⟩

theorem handsOver_write (store : ModuleStore σ) (w : World σ) (a : Assembly) (p : Path) :
    w.HandsOver (fun a' p' => a' = a ∧ p' = p) (w.write store a p).2 := by
  refine ⟨[_], rfl, fun a' p' f hmem => ?_⟩
  cases List.mem_singleton.1 hmem
  exact ⟨rfl, rfl⟩

end World

namespace Sources

open World

variable [Device] (c : Cache) (compiler : Compiler) (w : World σ)

/-- A patch is compiled on the disk of the world, and the compiler is asked at most once. -/
theorem compileOne_eq (p : Descriptor) :
    compileOne c compiler w p =
      ((c.compile compiler w.disk p).result,
        { w with
          disk := (c.compile compiler w.disk p).disk
          journal := w.journal ++
            ((c.compile compiler w.disk p).request.map (Event.compiled p.source)).toList }) := by
  unfold compileOne
  dsimp only
  split
  · rename_i hnone
    rw [hnone, Option.map_none, Option.toList_none, List.append_nil]
  · rename_i hsome
    rw [hsome]
    rfl

/-- Sources are made ready unless one of them breaks off: then nothing has been compiled. -/
theorem prepare_cases (defaults : Defaults) (sources : List Path) :
    (∃ e, parseEach w.disk defaults sources = .error e ∧
        prepare c compiler defaults w sources = (.error e, w)) ∨
      ∃ parsed, parseEach w.disk defaults sources = .ok parsed ∧
        prepare c compiler defaults w sources =
          (.ok ⟨failures (admitEach [] parsed) ++
              failures (compileEach c compiler w (admitted (admitEach [] parsed))).1,
            admitted (compileEach c compiler w (admitted (admitEach [] parsed))).1⟩,
          (compileEach c compiler w (admitted (admitEach [] parsed))).2) := by
  unfold prepare
  split
  · exact .inl ⟨_, ‹_›, rfl⟩
  · exact .inr ⟨_, ‹_›, rfl⟩

theorem reads_compileOne (p : Descriptor) : w.Reads (compileOne c compiler w p).2 := by
  rw [compileOne_eq]
  refine ⟨_, rfl, fun a q f hmem => ?_⟩
  obtain ⟨r, -, hevent⟩ := Option.map_eq_some_iff.1 (Option.mem_toList.1 hmem)
  cases hevent

theorem reads_compileEach (ps : List Descriptor) : w.Reads (compileEach c compiler w ps).2 := by
  induction ps generalizing w with
  | nil => exact HandsOver.refl w
  | cons p ps ih => exact (reads_compileOne c compiler w p).trans (ih _)

theorem reads_prepare (defaults : Defaults) (sources : List Path) :
    w.Reads (prepare c compiler defaults w sources).2 := by
  rcases prepare_cases c compiler w defaults sources with
    ⟨e, -, hprepare⟩ | ⟨parsed, -, hprepare⟩ <;> rw [hprepare]
  · exact HandsOver.refl w
  · exact reads_compileEach c compiler w _

end Sources

theorem Report.patches_append (r r' : Report) : (r ++ r').patches = r.patches ++ r'.patches := rfl

theorem Report.written_append (r r' : Report) : (r ++ r').written = r.written ++ r'.written := rfl

theorem Report.empty_append (r : Report) : {} ++ r = r := rfl

theorem Report.append_empty (r : Report) : r ++ {} = r := by
  show Report.mk (_ ++ []) (_ ++ []) (_ ++ []) (_ ++ []) = r
  simp only [List.append_nil]

theorem Report.append_assoc (r r' r'' : Report) : r ++ r' ++ r'' = r ++ (r' ++ r'') := by
  show Report.mk (_ ++ _ ++ _) (_ ++ _ ++ _) (_ ++ _ ++ _) (_ ++ _ ++ _) = _
  simp only [List.append_assoc]
  rfl

namespace Session

open World

variable {s : Session σ}

/-! ## The names of the binaries -/

theorem nodup_eraseDups (names : List String) : names.eraseDups.Nodup := by
  induction hlength : names.length using Nat.strongRecOn generalizing names with
  | ind n ih =>
    cases names with
    | nil => exact List.nodup_nil
    | cons name names =>
      rw [List.eraseDups_cons, List.nodup_cons, List.mem_eraseDups]
      constructor
      · simp
      · have hshorter := List.length_filter_le (fun s => !s == name) names
        rw [List.length_cons] at hlength
        exact ih _ (by omega) _ rfl

theorem nodup_otherNames (primary : String) (ps : List Descriptor) :
    (otherNames primary ps).Nodup :=
  ((List.mergeSort_perm _ _).nodup_iff).2 (nodup_eraseDups _)

theorem mem_otherNames {primary name : String} {ps : List Descriptor} :
    name ∈ otherNames primary ps ↔ name ≠ primary ∧ ∃ p ∈ ps, p.assembly = name := by
  rw [otherNames, (List.mergeSort_perm _ _).mem_iff, List.mem_eraseDups, List.mem_filter,
    List.mem_map, bne_iff_ne, and_comm]

theorem not_mem_otherNames (primary : String) (ps : List Descriptor) :
    primary ∉ otherNames primary ps := fun hmem => (mem_otherNames.1 hmem).1 rfl

theorem mem_of_mem_groupOf (ps : List Descriptor) {name : String} {p : Descriptor}
    (h : p ∈ groupOf name ps) : p ∈ ps :=
  (List.mem_filter.1 h).1

theorem assembly_of_mem_groupOf (ps : List Descriptor) {name : String} {p : Descriptor} (h : p ∈ groupOf name ps) :
    p.assembly = name := beq_iff_eq.1 (List.mem_filter.1 h).2

section Steps

variable (s) (w : World σ) (a : Assembly)

/-- A patch that is applied has its artifact loaded at most. -/
theorem world_applyPatch (p : Descriptor) :
    (s.applyPatch w a p).2 = w ∨
      ∃ artifact, (s.applyPatch w a p).2 = (w.load s.store artifact .readOnly).2 := by
  unfold applyPatch
  split
  · exact .inl rfl
  · rename_i artifact _
    refine .inr ⟨artifact, ?_⟩
    split
    · exact (congrArg Prod.snd ‹_›).symm
    · split <;> exact (congrArg Prod.snd ‹_›).symm

theorem writeGuarded_cases (binary : Path) :
    (∃ e, s.gate.verify a = .error e ∧ s.writeGuarded w a binary = (.error e, w)) ∨
      s.gate.verify a = .ok () ∧ s.writeGuarded w a binary = w.write s.store a binary := by
  unfold writeGuarded
  split
  · exact .inl ⟨_, ‹_›, rfl⟩
  · exact .inr ⟨‹_›, rfl⟩

theorem reads_applyPatch (p : Descriptor) :
    w.Reads (s.applyPatch w a p).2 := by
  rcases s.world_applyPatch w a p with hworld | ⟨artifact, hworld⟩ <;> rw [hworld]
  · exact HandsOver.refl w
  · exact reads_load s.store w artifact .readOnly

theorem handsOver_writeGuarded (binary : Path) :
    w.HandsOver (fun a' p => a' = a ∧ p = binary ∧ s.gate.verify a = .ok ())
      (s.writeGuarded w a binary).2 := by
  rcases s.writeGuarded_cases w a binary with ⟨e, -, hwrite⟩ | ⟨hpassed, hwrite⟩ <;> rw [hwrite]
  · exact HandsOver.refl w
  · exact (handsOver_write s.store w a binary).mono fun a' p h => ⟨h.1, h.2, hpassed⟩

end Steps

section Devices

variable [Device]

section Steps

variable (s) (w : World σ) (a : Assembly)

theorem deployed_cases (p : Descriptor) (binary : Path) (done : Injected) :
    (∃ e disk, deploy w.disk p binary = (.error e, disk) ∧
        deployed w p binary done = (.failed e, { w with disk })) ∨
      ∃ disk, deploy w.disk p binary = (.ok (), disk) ∧
        deployed w p binary done = (done.outcome, { w with disk }) := by
  unfold deployed
  split
  · exact .inl ⟨_, _, ‹_›, rfl⟩
  · exact .inr ⟨_, ‹_›, rfl⟩

/-- The artifact of a patch is put beside the binary when the patch has been applied. -/
theorem world_applyNext (binary : Path) (now : Patching σ) (p : Descriptor) :
    (s.applyNext binary now p).world = (s.applyPatch now.world now.assembly p).2 ∨
      (s.applyNext binary now p).world =
        { (s.applyPatch now.world now.assembly p).2 with
          disk := (deploy (s.applyPatch now.world now.assembly p).2.disk p binary).2 } := by
  unfold applyNext
  split
  · rename_i hresult
    rw [hresult]
    exact .inl rfl
  · rename_i done a₁ w₁ hresult
    rw [hresult]
    dsimp only
    rcases deployed_cases w₁ p binary done with ⟨e, disk, hdeploy, hdeployed⟩ |
      ⟨disk, hdeploy, hdeployed⟩ <;> rw [hdeployed, hdeploy] <;> exact .inr rfl

/-- Another binary is backed up, then it is loaded. -/
theorem openOther_cases (l : Layout) (b : Backup) (binary : Path) :
    (∃ e disk, b.saveOther w.disk binary = (.error e, disk) ∧
        s.openOther l b w binary = (.error e, { w with disk })) ∨
      ∃ taken disk, b.saveOther w.disk binary = (.ok taken, disk) ∧
        s.openOther l b w binary =
          { w with disk }.load s.store binary (.writableIn l.managed) := by
  unfold openOther
  split
  · exact .inl ⟨_, _, ‹_›, rfl⟩
  · exact .inr ⟨_, _, ‹_›, rfl⟩

end Steps

/-! ## How a turn ends -/

section Ends

variable (s) (w : World σ) (a : Assembly)

/-- **The turn of an open binary** ends with the patches, or the binary is written or refused. -/
theorem patchBinary_cases (binary : Path) (group : List Descriptor) :
    (s.applyAll w binary a group).changed = false ∧
        s.patchBinary w binary a group =
          ({ patches := (s.applyAll w binary a group).records },
            (s.applyAll w binary a group).world) ∨
      (s.applyAll w binary a group).changed = true ∧
        ((∃ w', s.writeGuarded (s.applyAll w binary a group).world
              (s.applyAll w binary a group).assembly binary = (.ok (), w') ∧
            s.patchBinary w binary a group =
              ({ patches := (s.applyAll w binary a group).records
                 written := [binary] }, w')) ∨
          ∃ e w', s.writeGuarded (s.applyAll w binary a group).world
              (s.applyAll w binary a group).assembly binary = (.error e, w') ∧
            s.patchBinary w binary a group =
              ({ patches := (s.applyAll w binary a group).records
                 rejected := [⟨binary, e⟩] }, w')) := by
  unfold patchBinary
  dsimp only
  split
  · rename_i hchanged
    refine .inr ⟨hchanged, ?_⟩
    split
    · exact .inl ⟨_, ‹_›, rfl⟩
    · exact .inr ⟨_, _, ‹_›, rfl⟩
  · rename_i hchanged
    exact .inl ⟨Bool.eq_false_iff.2 hchanged, rfl⟩

/-- The turn of another binary ends when the binary cannot be opened. -/
theorem patchOther_cases (l : Layout) (b : Backup) (name : String) (group : List Descriptor) :
    (∃ e w', s.openOther l b w (l.assemblyPath name) = (.error e, w') ∧
        s.patchOther l b w name group =
          ({ patches := group.map (·.record (.failed e))
             rejected := [⟨l.assemblyPath name, e⟩] }, w')) ∨
      ∃ a w', s.openOther l b w (l.assemblyPath name) = (.ok a, w') ∧
        s.patchOther l b w name group = s.patchBinary w' (l.assemblyPath name) a group := by
  unfold patchOther
  dsimp only
  split
  · exact .inl ⟨_, _, ‹_›, rfl⟩
  · exact .inr ⟨_, _, ‹_›, rfl⟩

theorem patchOther_of_opened {l : Layout} {b : Backup} {name : String} {group : List Descriptor}
    {w' : World σ} (h : s.openOther l b w (l.assemblyPath name) = (.ok a, w')) :
    s.patchOther l b w name group = s.patchBinary w' (l.assemblyPath name) a group := by
  rcases s.patchOther_cases w l b name group with ⟨e, w₁, hopen, -⟩ | ⟨a₁, w₁, hopen, hturn⟩ <;>
    rw [h] at hopen <;> cases hopen
  exact hturn

/-- The primary binary has no turn without a patch. -/
theorem patchPrimary_cases (l : Layout) (ps : List Descriptor) :
    groupOf l.primaryName ps = [] ∧ s.patchPrimary l w a ps = ({}, w) ∨
      groupOf l.primaryName ps ≠ [] ∧
        s.patchPrimary l w a ps = s.patchBinary w l.primary a (groupOf l.primaryName ps) := by
  unfold patchPrimary
  dsimp only
  split
  · exact .inl ⟨List.isEmpty_iff.1 ‹_›, rfl⟩
  · exact .inr ⟨mt List.isEmpty_iff.2 ‹_›, rfl⟩

end Ends

/-! ## The patches of a group -/

/-- The assembly has all patches applied, they changed it, and the gate lets it pass. -/
structure Patching.Passes (done : Patching σ) (gate : Gate) (a : Assembly) : Prop where
  assembly : a = done.assembly
  changed : done.changed = true
  passed : gate.verify a = .ok ()

section Groups

variable (s) (binary : Path)

theorem reads_applyNext (now : Patching σ) (p : Descriptor) :
    now.world.Reads (s.applyNext binary now p).world := by
  have hpatch := s.reads_applyPatch now.world now.assembly p
  rcases s.world_applyNext binary now p with hworld | hworld <;> rw [hworld]
  · exact hpatch
  · exact hpatch.trans (HandsOver.of_eq rfl)

/-- Applying patches hands nothing over. -/
theorem reads_foldl_applyNext (group : List Descriptor) (now : Patching σ) :
    now.world.Reads (group.foldl (s.applyNext binary) now).world := by
  induction group generalizing now with
  | nil => exact HandsOver.refl _
  | cons p group ih => exact (s.reads_applyNext binary now p).trans (ih _)

theorem exists_outcome_applyNext (now : Patching σ) (p : Descriptor) :
    ∃ o, (s.applyNext binary now p).records = now.records ++ [p.record o] := by
  unfold applyNext
  split
  · exact ⟨_, rfl⟩
  · exact ⟨_, rfl⟩

/-- Each patch has one record, in order. -/
theorem exists_outcomes_foldl (group : List Descriptor) (now : Patching σ) :
    ∃ outcomes, outcomes.length = group.length ∧
      (group.foldl (s.applyNext binary) now).records =
        now.records ++ group.zipWith Descriptor.record outcomes := by
  induction group generalizing now with
  | nil => exact ⟨[], rfl, (List.append_nil _).symm⟩
  | cons p group ih =>
    obtain ⟨o, ho⟩ := s.exists_outcome_applyNext binary now p
    obtain ⟨outcomes, hlength, hrecords⟩ := ih (s.applyNext binary now p)
    refine ⟨o :: outcomes, by rw [List.length_cons, List.length_cons, hlength], ?_⟩
    rw [List.foldl_cons, hrecords, ho, List.append_assoc]
    rfl

variable (w : World σ) (a : Assembly) (group : List Descriptor)

theorem patches_patchBinary :
    (s.patchBinary w binary a group).1.patches = (s.applyAll w binary a group).records := by
  rcases s.patchBinary_cases w a binary group with
    ⟨-, hturn⟩ | ⟨-, ⟨w', -, hturn⟩ | ⟨e, w', -, hturn⟩⟩ <;> rw [hturn]

/-- What is handed over for a binary is the assembly with all patches of its group applied, when they
changed it and the gate lets it pass. -/
theorem handsOver_patchBinary :
    w.HandsOver (fun a' p => (s.applyAll w binary a group).Passes s.gate a' ∧ p = binary)
      (s.patchBinary w binary a group).2 := by
  have happly : w.Reads (s.applyAll w binary a group).world :=
    s.reads_foldl_applyNext binary group ⟨a, false, [], w⟩
  have hguarded := s.handsOver_writeGuarded (s.applyAll w binary a group).world
    (s.applyAll w binary a group).assembly binary
  rcases s.patchBinary_cases w a binary group with
    ⟨-, hturn⟩ | ⟨hchanged, ⟨w', hwrite, hturn⟩ | ⟨e, w', hwrite, hturn⟩⟩ <;> rw [hturn]
  · exact happly.handsOver
  all_goals
    rw [hwrite] at hguarded
    exact happly.handsOver.trans (hguarded.mono fun a' p h =>
      ⟨⟨h.1, hchanged, h.1 ▸ h.2.2⟩, h.2.1⟩)

end Groups

/-! ## The turn of another binary -/

section Others

variable (s) (l : Layout) (b : Backup) (w : World σ) (name : String)

theorem reads_openOther (binary : Path) : w.Reads (s.openOther l b w binary).2 := by
  rcases s.openOther_cases w l b binary with ⟨e, disk, -, hopen⟩ | ⟨taken, disk, -, hopen⟩ <;>
    rw [hopen]
  · exact HandsOver.of_eq rfl
  · have hsaved : w.Reads { w with disk } := HandsOver.of_eq rfl
    exact hsaved.trans (reads_load s.store _ _ _)

/-- What is handed over in the turn of another binary is what was opened, with the patches applied. -/
theorem handsOver_patchOther (group : List Descriptor) :
    w.HandsOver (fun a' p => ∃ a w₁, s.openOther l b w (l.assemblyPath name) = (.ok a, w₁) ∧
        (s.applyAll w₁ p a group).Passes s.gate a' ∧ p = l.assemblyPath name)
      (s.patchOther l b w name group).2 := by
  have hreads := s.reads_openOther l b w (l.assemblyPath name)
  rcases s.patchOther_cases w l b name group with ⟨e, w₁, hopen, hturn⟩ | ⟨a, w₁, hopen, hturn⟩ <;>
    rw [hturn] <;> rw [hopen] at hreads
  · exact hreads.handsOver
  · have hpatch := s.handsOver_patchBinary (l.assemblyPath name) w₁ a group
    exact hreads.handsOver.trans
      (hpatch.mono fun a' p h => ⟨a, w₁, hopen, h.2.symm ▸ h.1, h.2⟩)

/-- The patches of a binary that cannot be opened have records as well. -/
theorem exists_outcomes (group : List Descriptor) :
    ∃ outcomes, outcomes.length = group.length ∧
      (s.patchOther l b w name group).1.patches = group.zipWith Descriptor.record outcomes := by
  rcases s.patchOther_cases w l b name group with ⟨e, w₁, -, hturn⟩ | ⟨a, w₁, -, hturn⟩ <;>
    rw [hturn]
  · refine ⟨group.map fun _ => .failed e, List.length_map _, ?_⟩
    rw [List.zipWith_map_right, List.zipWith_self]
  · rw [patches_patchBinary]
    exact s.exists_outcomes_foldl _ group ⟨a, false, [], w₁⟩

end Others

/-! ## The records of the turns -/

section Records

variable (s) (l : Layout) (b : Backup) (ps : List Descriptor) (w : World σ)

theorem patchOthers_cons (name : String) (names : List String) :
    s.patchOthers l b ps w (name :: names) =
      ((s.patchOther l b w name (groupOf name ps)).1 ++
          (s.patchOthers l b ps (s.patchOther l b w name (groupOf name ps)).2 names).1,
        (s.patchOthers l b ps
          (s.patchOther l b w name (groupOf name ps)).2 names).2) := by
  simp only [patchOthers]

end Records

/-! ## A whole run -/

/-- A run on a game gets as far as its patches. -/
structure Begins (s : Session σ) (w : World σ) (game : Path) (l : Layout) (primary : Assembly)
    (prepared : Sources.Prepared) (w₁ : World σ) : Prop where
  layout : Layout.discover w.disk game s.settings = .ok l
  /-- the folders are set up, the primary binary is opened, and the sources are made ready -/
  opened : ∃ disk w₀, s.setUp l w.disk = (.ok (), disk) ∧
    { w with disk }.load s.store l.primary (.writableIn l.managed) = (.ok primary, w₀) ∧
    s.prepare l w₀ (s.settings.defaults primary.framework) = (.ok prepared, w₁)

section Runs

variable (s) (l : Layout) (w : World σ)

theorem prepare_cases (defaults : Defaults) :
    (∃ e, l.sources w.disk = .error e ∧ s.prepare l w defaults = (.error e, w)) ∨
      ∃ sources, l.sources w.disk = .ok sources ∧
        s.prepare l w defaults =
          Sources.prepare (s.cacheOf l) s.compiler defaults w sources := by
  unfold prepare
  split
  · exact .inl ⟨_, ‹_›, rfl⟩
  · exact .inr ⟨_, ‹_›, rfl⟩

theorem reads_prepare (defaults : Defaults) : w.Reads (s.prepare l w defaults).2 := by
  rcases s.prepare_cases l w defaults with ⟨e, -, hprepare⟩ | ⟨sources, -, hprepare⟩ <;>
    rw [hprepare]
  · exact HandsOver.refl w
  · exact Sources.reads_prepare _ _ w defaults _

/-- Patches are made ready from the sources that are found. -/
theorem prepare_eq_ok {defaults : Defaults} {prepared : Sources.Prepared} {w' : World σ}
    (h : s.prepare l w defaults = (.ok prepared, w')) : ∃ sources, l.sources w.disk = .ok sources ∧
      Sources.prepare (s.cacheOf l) s.compiler defaults w sources = (.ok prepared, w') := by
  rcases s.prepare_cases l w defaults with ⟨e, -, hprepare⟩ | ⟨sources, hfound, hprepare⟩ <;>
    rw [hprepare] at h
  · cases h
  · exact ⟨sources, hfound, h⟩

/-- A run that gets as far as its patches applies them all. -/
theorem patch_of_begins {game : Path} {primary : Assembly} {prepared : Sources.Prepared}
    {w₁ : World σ} (h : s.Begins w game l primary prepared w₁) :
    s.patch w game =
      (.ok { (s.patchAll l (s.backupOf l) w₁ primary prepared.ready).1 with
          sourceFailures := prepared.failures },
        (s.patchAll l (s.backupOf l) w₁ primary prepared.ready).2) := by
  obtain ⟨hlayout, disk, w₀, hsetUp, hload, hprepare⟩ := h
  unfold patch
  simp only [hlayout, hsetUp, hload, patchOpened, hprepare]

/-- A run ends early, with nothing handed over, or all patches are applied. -/
theorem patch_cases (game : Path) :
    (∃ e, (s.patch w game).1 = .error e ∧ w.Reads (s.patch w game).2) ∨
      ∃ l primary prepared w₁, s.Begins w game l primary prepared w₁ ∧ w.Reads w₁ ∧
        s.patch w game =
          (.ok { (s.patchAll l (s.backupOf l) w₁ primary prepared.ready).1 with
              sourceFailures := prepared.failures },
            (s.patchAll l (s.backupOf l) w₁ primary prepared.ready).2) := by
  unfold patch
  split
  · exact Or.inl ⟨_, rfl, HandsOver.refl w⟩
  · rename_i l hlayout
    split
    · exact Or.inl ⟨_, rfl, HandsOver.of_eq rfl⟩
    · rename_i disk hsetUp
      have hstart : w.Reads { w with disk } := HandsOver.of_eq rfl
      have hload := hstart.trans (reads_load s.store { w with disk } l.primary
        (.writableIn l.managed))
      split
      · rename_i hresult
        rw [hresult] at hload
        exact Or.inl ⟨_, rfl, hload⟩
      · rename_i primary w₀ hresult
        rw [hresult] at hload
        have hprepare :=
          hload.trans (s.reads_prepare l w₀ (s.settings.defaults primary.framework))
        unfold patchOpened
        split
        · rename_i hresult'
          rw [hresult'] at hprepare
          exact Or.inl ⟨_, rfl, hprepare⟩
        · rename_i prepared w₁ hresult'
          rw [hresult'] at hprepare
          exact Or.inr ⟨l, primary, prepared, w₁,
            ⟨hlayout, disk, w₀, hsetUp, hresult, hresult'⟩, hprepare, rfl⟩

theorem patchAll_eq (b : Backup) (primary : Assembly) (ps : List Descriptor) :
    s.patchAll l b w primary ps =
      ((s.patchPrimary l w primary ps).1 ++ (s.patchOthers l b ps (s.patchPrimary l w primary ps).2
          (otherNames l.primaryName ps)).1,
        (s.patchOthers l b ps (s.patchPrimary l w primary ps).2
          (otherNames l.primaryName ps)).2) := rfl

/-- When all patches are for the primary binary, no other has a turn. -/
theorem patchAll_of_primary {b : Backup} {primary : Assembly} {ps : List Descriptor}
    (h : ∀ p ∈ ps, p.assembly = l.primaryName) :
    s.patchAll l b w primary ps = s.patchPrimary l w primary ps := by
  have hnone : otherNames l.primaryName ps = [] := by
    rw [List.eq_nil_iff_forall_not_mem]
    intro name hname
    obtain ⟨hne, p, hp, rfl⟩ := mem_otherNames.1 hname
    exact hne (h p hp)
  rw [patchAll_eq, hnone]
  generalize s.patchPrimary l w primary ps = done
  exact Prod.ext (Report.append_empty done.1) rfl

end Runs

/-! ## The turns -/

/-- A binary has its turn in a run whose patches are ready, with an assembly that was opened for it and
in the world of this time. -/
inductive Turn (s : Session σ) (l : Layout) (primary : Assembly) (ps : List Descriptor)
    (w : World σ) : String → Path → Assembly → World σ → Prop
  | primary : Turn s l primary ps w l.primaryName l.primary primary w
  | other {name : String} {a : Assembly} {w₁ : World σ} {before after : List String}
      (names : otherNames l.primaryName ps = before ++ name :: after)
      (opened : s.openOther l (s.backupOf l)
        (s.patchOthers l (s.backupOf l) ps (s.patchPrimary l w primary ps).2 before).2
        (l.assemblyPath name) = (.ok a, w₁)) :
      Turn s l primary ps w name (l.assemblyPath name) a w₁

section Turns

variable {s : Session σ} {l : Layout} {w : World σ} {primary : Assembly} {ps : List Descriptor}
  {name : String} {binary : Path} {a₀ : Assembly} {w₀ : World σ}

/-- The first of the names have their turns as if there were no others. -/
theorem patchOthers_append (s : Session σ) (l : Layout) (b : Backup) (ps : List Descriptor)
    (w : World σ) (before after : List String) :
    s.patchOthers l b ps w (before ++ after) =
      ((s.patchOthers l b ps w before).1 ++
          (s.patchOthers l b ps (s.patchOthers l b ps w before).2 after).1,
        (s.patchOthers l b ps (s.patchOthers l b ps w before).2 after).2) := by
  induction before generalizing w with
  | nil =>
    rw [patchOthers, Report.empty_append]
    rfl
  | cons name before ih =>
    rw [List.cons_append, patchOthers_cons, ih, patchOthers_cons, Report.append_assoc]


/-- The records of a turn are those of the applied patches, also when there are none. -/
theorem patches_patchPrimary :
    (s.patchPrimary l w primary ps).1.patches =
      (s.applyAll w l.primary primary (groupOf l.primaryName ps)).records := by
  rcases s.patchPrimary_cases w primary l ps with ⟨hnone, hturn⟩ | ⟨-, hturn⟩ <;> rw [hturn]
  · rw [hnone]
    rfl
  · exact s.patches_patchBinary _ _ _ _

theorem handsOver_patchOthers (s : Session σ) (l : Layout) (b : Backup) (ps : List Descriptor)
    (names : List String) (w : World σ) :
    w.HandsOver (fun a p => ∃ before name after a₀ w₀, names = before ++ name :: after ∧
        s.openOther l b (s.patchOthers l b ps w before).2 (l.assemblyPath name) = (.ok a₀, w₀) ∧
        (s.applyAll w₀ p a₀ (groupOf name ps)).Passes s.gate a ∧ p = l.assemblyPath name)
      (s.patchOthers l b ps w names).2 := by
  induction names generalizing w with
  | nil => exact HandsOver.refl w
  | cons name names ih =>
    have hfirst := s.handsOver_patchOther l b w name (groupOf name ps)
    refine (hfirst.mono ?_).trans ((ih _).mono ?_)
    · rintro a p ⟨a₀, w₀, hopen, hpasses, rfl⟩
      exact ⟨[], name, names, a₀, w₀, rfl, hopen, hpasses, rfl⟩
    · rintro a p ⟨before, name', after, a₀, w₀, rfl, hopen, hpasses, rfl⟩
      exact ⟨name :: before, name', after, a₀, w₀, rfl, hopen, hpasses, rfl⟩

/-- What is handed over passes at the end of a turn. -/
theorem turn_of_passes (s : Session σ) (l : Layout) (w : World σ) (primary : Assembly)
    (ps : List Descriptor) :
    w.HandsOver (fun a p => ∃ name a₀ w₀, s.Turn l primary ps w name p a₀ w₀ ∧
        (s.applyAll w₀ p a₀ (groupOf name ps)).Passes s.gate a)
      (s.patchAll l (s.backupOf l) w primary ps).2 := by
  have hothers := s.handsOver_patchOthers l (s.backupOf l) ps (otherNames l.primaryName ps)
    (s.patchPrimary l w primary ps).2
  have hprimary : w.HandsOver (fun a p => (s.applyAll w l.primary primary
      (groupOf l.primaryName ps)).Passes s.gate a ∧ p = l.primary)
      (s.patchPrimary l w primary ps).2 := by
    rcases s.patchPrimary_cases w primary l ps with ⟨-, hturn⟩ | ⟨-, hturn⟩ <;> rw [hturn]
    · exact HandsOver.refl w
    · exact s.handsOver_patchBinary l.primary w primary _
  refine (hprimary.mono ?_).trans (hothers.mono ?_)
  · rintro a p ⟨hpasses, rfl⟩
    exact ⟨l.primaryName, primary, w, .primary, hpasses⟩
  · rintro a p ⟨before, name, after, a₀, w₀, hnames, hopen, hpasses, rfl⟩
    exact ⟨name, a₀, w₀, .other hnames hopen, hpasses⟩

end Turns

end Devices

end Session

/-! ## A run with two patches -/

namespace Sample

/-- A source that puts a call at the entry of a method. -/
def source (name method : String) : Bytes :=
  Text.Utf8.encode ("/*\n@Name=" ++ name ++ "\n@TargetClass=Player\n@TargetMethod=" ++ method ++
    "\n@TargetLocation=Prefix\n@PatchClass=Hooks\n@PatchMethod=Run\n*/").toList

/-- A binary with two methods, the first of which has no layout. -/
def game (update : List Instruction) (typeRefs : List TypeRef) (memberRefs : List MemberRef) :
    Assembly :=
  ⟨"Game", none, [⟨"Game.dll", [⟨⟨0x02000001⟩, "", "Player", 1,
    [⟨⟨0x06000001⟩, "Start", 6, [0x20, 0, 1], some ⟨8, ⟨0⟩, false, [⟨.br, .target 9⟩], []⟩⟩,
      ⟨⟨0x06000002⟩, "Update", 6, [0x20, 0, 1], some ⟨8, ⟨0⟩, false, update, []⟩⟩]⟩],
    typeRefs, memberRefs⟩]⟩

/-- The binary as it is opened. -/
def original : Assembly := game [⟨.ret, .none⟩] [] []

/-- The method of an artifact. -/
def hook : Method := ⟨⟨0x06000001⟩, "Run", 0x16, [0, 0, 1], none⟩

def hooks : TypeDef := ⟨⟨0x02000001⟩, "", "Hooks", 1, [hook]⟩

def layout : Layout where
  root := ⟨"/g"⟩
  name := "D"
  managed := ⟨"/g/D_Data/Managed"⟩
  primary := ⟨"/g/D_Data/Managed/Assembly-CSharp.dll"⟩
  patches := ⟨"/g/Patches"⟩
  library := ⟨"/g/Patches/Lib"⟩
  compiled := ⟨"/g/CompiledPatches"⟩
  sourceExtension := "cs"

/-- Every file but the primary binary is an artifact. -/
def store : ModuleStore Unit where
  load _ _ p _ :=
    let name := p.stem?.getD ""
    (.ok (if p = layout.primary then original else ⟨name, none, [⟨name, [hooks], [], []⟩]⟩), ())
  write _ d _ p :=
    match d.writeFile p [4] with
    | .ok d => (.ok (), (), d)
    | .error e => (.error (.onDisk p e), (), d)

/-- A game with a binary that has the name of the second artifact. -/
def disk : Disk :=
  ⟨[(["g"], .folder), (["g", "D.exe"], .file []), (["g", "D_Data"], .folder),
    (["g", "D_Data", "Managed"], .folder),
    (["g", "D_Data", "Managed", "Assembly-CSharp.dll"], .file [1]),
    (["g", "D_Data", "Managed", "B.dll"], .file [2]), (["g", "Patches"], .folder),
    (["g", "Patches", "A.cs"], .file (source "A" "Start")),
    (["g", "Patches", "B.cs"], .file (source "B" "Update"))]⟩

def session : Session Unit :=
  { settings := {}, store, compiler := fun _ => .ok (.binary [3]), gate := ⟨[hasTypes]⟩ }

def start : World Unit := ⟨disk, (), []⟩

/-- The disk with the folders and the backup in place. -/
def placed : Disk := (session.setUp layout disk).2

/-- The world in which the primary binary is open. -/
def opened : World Unit :=
  World.note { start with disk := placed } (.loaded layout.primary (.writableIn layout.managed))

/-- The two sources made ready. -/
def made : Except Error Sources.Prepared × World Unit :=
  Sources.prepare (session.cacheOf layout) session.compiler (session.settings.defaults none) opened
    [⟨"/g/Patches/A.cs"⟩, ⟨"/g/Patches/B.cs"⟩]

def ready : List Descriptor := (made.1.toOption.map (·.ready)).getD []

/-- The patches of the primary binary applied. -/
def finished : Report × World Unit := session.patchPrimary layout made.2 original ready

theorem discover_disk : Layout.discover disk ⟨"/g"⟩ session.settings = .ok layout := by
  have hroot : disk.list ⟨"/g"⟩ = .ok ["D.exe", "D_Data", "Patches"] :=
    Disk.list_of_pairwise ["g"] (by decide +kernel) (by decide +kernel) (by decide +kernel)
      (by decide +kernel)
  have hinside : disk.list ⟨"/g/D_Data"⟩ = .ok ["Managed"] :=
    Disk.list_of_pairwise ["g", "D_Data"] (by decide +kernel) (by decide +kernel)
      (by decide +kernel) (by decide +kernel)
  have hdiscover := Layout.discover_of_find? (s := session.settings) ⟨"/g/D.exe"⟩
    ⟨"/g/D_Data/Managed"⟩ hroot (by decide +kernel) (by decide +kernel) hinside (by decide +kernel)
    (by decide +kernel)
  refine hdiscover.trans (congrArg Except.ok ?_)
  decide +kernel

theorem setUp_disk : session.setUp layout disk = (.ok (), placed) :=
  eq_mk_of_fst (eq_ok_of_toOption (by decide +kernel))

theorem sources_placed :
    layout.sources placed = .ok [⟨"/g/Patches/A.cs"⟩, ⟨"/g/Patches/B.cs"⟩] := by
  have hlist : placed.list layout.patches = .ok ["A.cs", "B.cs", "Lib"] :=
    Disk.list_of_pairwise ["g", "Patches"] (by decide +kernel) (by decide +kernel)
      (by decide +kernel) (by decide +kernel)
  refine (Layout.sources_of_list (by decide +kernel) hlist).trans (congrArg Except.ok ?_)
  decide +kernel

theorem load_placed : World.load store { start with disk := placed } layout.primary
    (.writableIn layout.managed) = (.ok original, opened) :=
  congrArg (fun a => (Except.ok a, opened)) (if_pos rfl)

theorem begins_start {prepared : Sources.Prepared} (h : made.1 = .ok prepared) :
    session.Begins start ⟨"/g"⟩ layout original prepared made.2 where
  layout := discover_disk
  opened := ⟨placed, opened, setUp_disk, load_placed,
    (Session.prepare_of_sources sources_placed).trans (eq_mk_of_fst h)⟩

/-- Both patches are for the primary binary. -/
theorem made_eq_ok : ∃ prepared, made.1 = .ok prepared ∧
    ∀ p ∈ prepared.ready, p.assembly = layout.primaryName := by
  have hmade : (made.1.toOption.map fun r =>
      r.ready.all (·.assembly == layout.primaryName)) = some true := by
    decide +kernel
  obtain ⟨prepared, hprepared, hall⟩ := Option.map_eq_some_iff.1 hmade
  exact ⟨prepared, eq_ok_of_toOption hprepared, fun p hp =>
    beq_iff_eq.1 (List.all_eq_true.1 hall p hp)⟩

/-- The failures of sources do not matter for the rest of a report. -/
theorem exists_report (r : Report) (failures : List Failure) :
    ∃ report : Report, { r with sourceFailures := failures } = report ∧
      report.patches = r.patches ∧ report.written = r.written := ⟨_, rfl, rfl, rfl⟩

theorem patch_start :
    ∃ report, (session.patch start ⟨"/g"⟩).1 = .ok report ∧
      (session.patch start ⟨"/g"⟩).2 = finished.2 ∧ report.patches = finished.1.patches ∧
      report.written = finished.1.written := by
  obtain ⟨prepared, hprepared, hprimary⟩ := made_eq_ok
  have hready : prepared.ready = ready := by
    rw [ready, hprepared, Except.toOption, Option.map_some, Option.getD_some]
  have hfinished : session.patchPrimary layout made.2 original ready = finished := rfl
  have hpatch := session.patch_of_begins layout start (begins_start hprepared)
  rw [session.patchAll_of_primary layout _ hprimary, hready, hfinished] at hpatch
  obtain ⟨report, hreport, hpatches, hwritten⟩ := exists_report finished.1 prepared.failures
  rw [hreport] at hpatch
  obtain ⟨hresult, hworld⟩ := fst_snd_of_eq_mk hpatch
  exact ⟨report, hresult, hworld, hpatches, hwritten⟩

/-- The assembly that is written. -/
def written : Assembly :=
  game [Instruction.call ⟨0x0A000002⟩, ⟨.ret, .none⟩]
    [⟨⟨0x01000001⟩, "A", "", "Hooks"⟩, ⟨⟨0x01000002⟩, "B", "", "Hooks"⟩]
    [⟨⟨0x0A000001⟩, ⟨0x01000001⟩, "Run", [0, 0, 1]⟩, ⟨⟨0x0A000002⟩, ⟨0x01000002⟩, "Run", [0, 0, 1]⟩]

/-- The first patch fails on the layout, the second one is applied. The artifact of the second one
replaces a binary, whose content is nowhere any more; that of the primary binary is in its backup. -/
theorem finished_eq :
    (finished.1.patches.map fun r => (r.name, r.outcome)) =
        [("A", .failed (.code (.malformed (.targetOutside 1 10 2)))), ("B", .injected 1)] ∧
      finished.1.written = [layout.primary] ∧
      Event.written written layout.primary none ∈ finished.2.journal ∧
      Disk.entry? finished.2.disk ["g", "D_Data", "Managed", "B.dll"] = some (.file [3]) ∧
      Disk.entry? finished.2.disk ["g", "D_Data", "Managed", "Assembly-CSharp.dll"] =
        some (.file [4]) ∧
      (∀ x ∈ finished.2.disk.entries, x.2 ≠ .file [2]) ∧
      Disk.entry? finished.2.disk ["Games", "D.dll"] = some (.file [1]) := by
  decide +kernel

end Sample

end CilGraft
