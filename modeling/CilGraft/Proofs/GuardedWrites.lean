import CilGraft.Proofs.InjectedBodies
import CilGraft.Proofs.KeptPatches
import CilGraft.Proofs.ReachedFiles
import CilGraft.Proofs.TargetNames

/-!
# Writes behind the gate

An assembly is handed over for writing at the end of a turn. It has passed the gate then, and a patch of
its group has put calls in. Each turn is for a binary of its own, so no binary is written twice, and the
report tells of each of them.

* `Session.Inserts`, `changed_applyAll_iff` — a patch of a group inserts calls; only this changes an
  assembly.
* `World.Accounts` — a step that writes some binaries at most, and reports those that were written.
* `rejected_of_turn` — a binary that must not be written, or cannot be, is reported.
* `Session.Begins.pairwise_binaries` — the binaries of a run are apart.
* `Session.writes_guarded` — all of this for a whole run.
-/

set_option autoImplicit false

namespace CilGraft

variable {σ : Type}

/-! ## What the gate lets pass -/

theorem Gate.verify_eq_ok_iff {g : Gate} {a : Assembly} :
    g.verify a = .ok () ↔ ∀ check ∈ g.checks, check a = .ok () := by
  obtain ⟨checks⟩ := g
  rw [verify]
  induction checks with
  | nil => exact iff_of_true rfl fun _ => nofun
  | cons check checks ih =>
    rw [runChecks, List.forall_mem_cons, ← ih]
    cases check a with
    | error e => exact iff_of_false nofun fun h => nomatch h.1
    | ok done => exact (and_iff_right rfl).symm

/-- The usual gate lets an assembly pass that defines a type in its first module, and all bodies of
which have a stored form. -/
theorem Gate.verify_usual_iff {a : Assembly} : Gate.usual.verify a = .ok () ↔
    (∃ m rest, a.modules = m :: rest ∧ m.types ≠ []) ∧
      ∀ m ∈ a.modules, ∀ t ∈ m.types, ∀ f ∈ t.methods, ∀ b, f.body = some b →
        ∃ data, b.encode = .ok data := by
  have htypes : hasTypes a = .ok () ↔ ∃ m rest, a.modules = m :: rest ∧ m.types ≠ [] := by
    rw [hasTypes, Assembly.hasAnyType]
    cases a.modules with
    | nil => exact iff_of_false nofun fun ⟨m, rest, h, _⟩ => nomatch h
    | cons m rest =>
      have hfirst : m.hasAnyType = true ↔ m.types ≠ [] := by simp [Module.hasAnyType]
      constructor
      · intro h
        refine ⟨m, rest, rfl, hfirst.1 ?_⟩
        by_contra hnone
        exact absurd (if_neg hnone ▸ h) nofun
      · rintro ⟨m', rest', h, hne⟩
        obtain ⟨rfl, -⟩ := List.cons.inj h
        exact if_pos (hfirst.2 hne)
  have hbodies : bodiesEncode a = .ok () ↔ ∀ m ∈ a.modules, ∀ t ∈ m.types, ∀ f ∈ t.methods,
      ∀ b, f.body = some b → ∃ data, b.encode = .ok data := by
    rw [bodiesEncode]
    simp only [← Method.encodes_iff, ← List.all_eq_true]
    split
    · exact iff_of_true rfl ‹_›
    · exact iff_of_false nofun ‹_›
  rw [Gate.verify_eq_ok_iff, Gate.usual, List.forall_mem_cons, List.forall_mem_singleton, htypes,
    hbodies]

theorem Report.rejected_append (r r' : Report) : (r ++ r').rejected = r.rejected ++ r'.rejected := rfl

namespace Session

/-! ## Calls that are inserted -/

/-- The calls of a patch are inserted when it has its turn. -/
def InsertsNext (s : Session σ) (now : Patching σ) (p : Descriptor) : Prop :=
  ∃ method index m place count m', s.Resolves now.world p method ∧
    now.assembly.moduleIndex? p.module = some index ∧ now.assembly.module? p.module = some m ∧
    m.resolve p.namespace_ p.class_ p.method = .ok place ∧
    inject m place method p.location = (.ok (.inserted count), m')

/-- A patch of a group inserts its calls when it has its turn. -/
def Inserts [Device] (s : Session σ) (binary : Path) (now : Patching σ) (group : List Descriptor) : Prop :=
  ∃ before p after, group = before ++ p :: after ∧
    s.InsertsNext (before.foldl (s.applyNext binary) now) p

section Groups

variable {s : Session σ} {binary : Path} {now : Patching σ} {p : Descriptor}
  {group : List Descriptor}

/-- A patch inserts calls when its injection says so. -/
theorem insertsNext_iff : s.InsertsNext now p ↔
    (s.applyPatch now.world now.assembly p).1.1.toOption.any inserts = true := by
  constructor
  · rintro ⟨method, index, m, place, count, m', ⟨artifact, patch, hartifact, hload, hmethod⟩, hindex,
      hm, hplace, hinject⟩
    have hinjectInto : injectInto now.assembly p method =
        (.ok (.inserted count), now.assembly.setModule index m') := by
      simp only [injectInto, hindex, hm, hplace, hinject]
    simp only [applyPatch, hartifact]
    rw [eq_mk_of_fst hload]
    simp only [hmethod, hinjectInto]
    rfl
  · intro h
    rcases s.applyPatch_cases now.world now.assembly p with ⟨e, he⟩ | ⟨method, hresolves, heq⟩
    · rw [he] at h
      cases h
    · rw [heq] at h
      unfold injectInto at h
      split at h
      · rename_i index m hindex hm
        split at h
        · cases h
        · rename_i place hplace
          dsimp only at h
          cases hinject : inject m place method p.location with
          | mk result m' =>
            rw [hinject] at h
            rcases result with e | (count | _)
            · cases h
            · exact ⟨method, index, m, place, count, m', hresolves, hindex, hm, hplace, hinject⟩
            · cases h
      · cases h

variable [Device]

theorem changed_applyNext : (s.applyNext binary now p).changed =
    (now.changed || (s.applyPatch now.world now.assembly p).1.1.toOption.any inserts) := by
  unfold applyNext
  split
  · rename_i hresult
    rw [hresult]
    exact (Bool.or_false _).symm
  · rename_i hresult
    rw [hresult]
    rfl

/-- **An assembly changes when a patch inserts calls**, and by nothing else. -/
theorem changed_foldl_iff : (group.foldl (s.applyNext binary) now).changed = true ↔
    now.changed = true ∨ s.Inserts binary now group := by
  induction group generalizing now with
  | nil =>
    refine (or_iff_left ?_).symm
    rintro ⟨before, p, after, hgroup, -⟩
    cases before <;> cases hgroup
  | cons first group ih =>
    rw [List.foldl_cons, ih, changed_applyNext, Bool.or_eq_true, ← insertsNext_iff, or_assoc]
    refine or_congr_right ?_
    constructor
    · rintro (hfirst | ⟨before, p, after, rfl, hlater⟩)
      · exact ⟨[], first, group, rfl, hfirst⟩
      · exact ⟨first :: before, p, after, rfl, hlater⟩
    · rintro ⟨before, p, after, hgroup, hinserts⟩
      cases before with
      | nil =>
        obtain ⟨rfl, rfl⟩ := List.cons.inj hgroup
        exact .inl hinserts
      | cons q before =>
        obtain ⟨rfl, rfl⟩ := List.cons.inj hgroup
        exact .inr ⟨before, p, after, rfl, hinserts⟩

theorem changed_applyAll_iff {w : World σ} {a : Assembly} :
    (s.applyAll w binary a group).changed = true ↔
      s.Inserts binary ⟨a, false, [], w⟩ group := by
  rw [applyAll, changed_foldl_iff]
  exact or_iff_right Bool.false_ne_true

end Groups

end Session

/-! ## What a step writes -/

/-- The binary that is handed over. -/
def Event.binary? : Event → Option Path
  | .written _ p _ => some p
  | _ => none

/-- The binary that is written. -/
def Event.done? : Event → Option Path
  | .written _ p none => some p
  | _ => none

/-- The step hands over some of the binaries, each of them once at most, and writes the listed ones. -/
def World.Accounts (w w' : World σ) (binaries written : List Path) : Prop :=
  ∃ events, w'.journal = w.journal ++ events ∧
    (events.filterMap Event.binary?).Sublist binaries ∧ written = events.filterMap Event.done?

section Accounts

open World

variable {w w' w'' : World σ} {binaries written : List Path}

/-- A step that hands over nothing. -/
theorem accounts_of_reads (h : w.Reads w') : w.Accounts w' [] [] := by
  obtain ⟨events, hjournal, hnone⟩ := h
  have hskips : ∀ e ∈ events, e.binary? = none ∧ e.done? = none := by
    intro e he
    cases e with
    | loaded p o => exact ⟨rfl, rfl⟩
    | compiled p r => exact ⟨rfl, rfl⟩
    | written a p f => exact (hnone a p f he).elim
  refine ⟨events, hjournal, ?_, ?_⟩
  · rw [List.filterMap_eq_nil_iff.2 fun e he => (hskips e he).1]
  · rw [List.filterMap_eq_nil_iff.2 fun e he => (hskips e he).2]

theorem World.Accounts.trans {binaries' written' : List Path} (h : w.Accounts w' binaries written)
    (h' : w'.Accounts w'' binaries' written') :
    w.Accounts w'' (binaries ++ binaries') (written ++ written') := by
  obtain ⟨events, hjournal, hbinaries, rfl⟩ := h
  obtain ⟨events', hjournal', hbinaries', rfl⟩ := h'
  refine ⟨events ++ events', ?_, ?_, List.filterMap_append.symm⟩
  · rw [hjournal', hjournal, List.append_assoc]
  · rw [List.filterMap_append]
    exact hbinaries.append hbinaries'

theorem World.Accounts.mono {more : List Path} (h : w.Accounts w' binaries written)
    (hsub : binaries.Sublist more) : w.Accounts w' more written := by
  obtain ⟨events, hjournal, hbinaries, hwritten⟩ := h
  exact ⟨events, hjournal, hbinaries.trans hsub, hwritten⟩

/-- What is written is handed over. -/
theorem World.Accounts.mem_of_mem {q : Path} (h : w.Accounts w' binaries written)
    (hq : q ∈ written) : q ∈ binaries := by
  obtain ⟨events, -, hbinaries, rfl⟩ := h
  obtain ⟨e, he, hdone⟩ := List.mem_filterMap.1 hq
  refine hbinaries.subset (List.mem_filterMap.2 ⟨e, he, ?_⟩)
  unfold Event.done? at hdone
  split at hdone
  · exact hdone
  · cases hdone

end Accounts

namespace Session

open World

variable {s : Session σ}

section Turns

variable (l : Layout) (b : Backup) (ps : List Descriptor) (w : World σ)

/-- The binary, when it was written. -/
def writtenOf (binary : Path) : Except Error Unit → List Path
  | .ok () => [binary]
  | .error _ => []

theorem accounts_writeGuarded {w' : World σ} {a : Assembly} {binary : Path} {result : Except Error Unit}
    (h : s.writeGuarded w a binary = (result, w')) :
    w.Accounts w' [binary] (writtenOf binary result) := by
  rcases s.writeGuarded_cases w a binary with ⟨e, -, hwrite⟩ | ⟨-, hwrite⟩ <;> rw [hwrite] at h
  · cases h
    exact (accounts_of_reads (HandsOver.refl w)).mono (List.nil_sublist _)
  · obtain ⟨rfl, rfl⟩ := fst_snd_of_eq_mk h
    refine ⟨[_], rfl, List.Sublist.refl _, ?_⟩
    unfold World.write
    dsimp only
    cases (s.store.write w.store w.disk a binary).1 <;> rfl

variable [Device]

theorem accounts_patchBinary (binary : Path) (a : Assembly) (group : List Descriptor) :
    w.Accounts (s.patchBinary w binary a group).2 [binary]
      (s.patchBinary w binary a group).1.written := by
  have happly : w.Reads (s.applyAll w binary a group).world :=
    s.reads_foldl_applyNext binary group ⟨a, false, [], w⟩
  rcases s.patchBinary_cases w a binary group with
    ⟨-, hturn⟩ | ⟨-, ⟨w', hresult, hturn⟩ | ⟨e, w', hresult, hturn⟩⟩ <;> rw [hturn]
  · exact (accounts_of_reads happly).mono (List.nil_sublist _)
  all_goals exact (accounts_of_reads happly).trans (accounts_writeGuarded _ hresult)

theorem accounts_patchOther (name : String) (group : List Descriptor) :
    w.Accounts (s.patchOther l b w name group).2 [l.assemblyPath name]
      (s.patchOther l b w name group).1.written := by
  have hopen := s.reads_openOther l b w (l.assemblyPath name)
  rcases s.patchOther_cases w l b name group with
    ⟨e, w₁, hresult, hturn⟩ | ⟨a, w₁, hresult, hturn⟩ <;> rw [hturn] <;> rw [hresult] at hopen
  · exact (accounts_of_reads hopen).mono (List.nil_sublist _)
  · exact (accounts_of_reads hopen).trans (accounts_patchBinary w₁ _ a group)

theorem accounts_patchOthers (names : List String) :
    w.Accounts (s.patchOthers l b ps w names).2 (names.map l.assemblyPath)
      (s.patchOthers l b ps w names).1.written := by
  induction names generalizing w with
  | nil => exact accounts_of_reads (HandsOver.refl w)
  | cons name names ih =>
    rw [patchOthers_cons, List.map_cons]
    exact (accounts_patchOther l b w name (groupOf name ps)).trans (ih _)

theorem accounts_patchPrimary (primary : Assembly) :
    w.Accounts (s.patchPrimary l w primary ps).2 [l.primary]
      (s.patchPrimary l w primary ps).1.written := by
  rcases s.patchPrimary_cases w primary l ps with ⟨-, hturn⟩ | ⟨-, hturn⟩ <;> rw [hturn]
  · exact (accounts_of_reads (HandsOver.refl w)).mono (List.nil_sublist _)
  · exact accounts_patchBinary w l.primary primary _

/-- The binaries of a run, in the order of their turns. -/
def binaries (l : Layout) (ps : List Descriptor) : List Path :=
  l.primary :: (otherNames l.primaryName ps).map l.assemblyPath

/-- **A run hands each of its binaries over once at most**, and reports those that were written. -/
theorem accounts_patchAll (primary : Assembly) :
    w.Accounts (s.patchAll l b w primary ps).2 (binaries l ps)
      (s.patchAll l b w primary ps).1.written := by
  rw [patchAll_eq, Report.written_append]
  exact (accounts_patchPrimary l ps w primary).trans (accounts_patchOthers l b ps _ _)

end Turns

/-! ## Binaries that are refused -/

section Refused

variable {l : Layout} {ps : List Descriptor} {w w₀ : World σ} {primary a₀ : Assembly} {name : String}
  {binary : Path} {e : Error}

/-- The patches of a group inserted calls, and still the binary was not written: the gate or the store
refused the assembly. -/
structure Refused [Device] (s : Session σ) (binary : Path) (now : Patching σ) (group : List Descriptor)
    (e : Error) : Prop where
  inserts : s.Inserts binary now group
  refused : (s.writeGuarded (group.foldl (s.applyNext binary) now).world
    (group.foldl (s.applyNext binary) now).assembly binary).1 = .error e

variable [Device]

theorem Refused.patchBinary_eq {group : List Descriptor}
    (h : s.Refused binary ⟨a₀, false, [], w₀⟩ group e) :
    (s.patchBinary w₀ binary a₀ group).1.rejected = [⟨binary, e⟩] ∧
      (s.patchBinary w₀ binary a₀ group).1.written = [] := by
  have hchanged := changed_applyAll_iff.2 h.inserts
  have hrefused : (s.writeGuarded (s.applyAll w₀ binary a₀ group).world
    (s.applyAll w₀ binary a₀ group).assembly binary).1 = .error e := h.refused
  rcases s.patchBinary_cases w₀ a₀ binary group with
    ⟨hnone, -⟩ | ⟨-, ⟨w', hresult, -⟩ | ⟨e', w', hresult, hturn⟩⟩
  · rw [hchanged] at hnone
    cases hnone
  · rw [hresult] at hrefused
    cases hrefused
  · rw [hresult] at hrefused
    cases hrefused
    rw [hturn]
    exact ⟨rfl, rfl⟩

/-- **A binary that is refused is reported**, and not among those that were written. -/
theorem rejected_of_turn (hnodup : (binaries l ps).Nodup)
    (hturn : s.Turn l primary ps w name binary a₀ w₀)
    (hrefused : s.Refused binary ⟨a₀, false, [], w₀⟩ (groupOf name ps) e) :
    ⟨binary, e⟩ ∈ (s.patchAll l (s.backupOf l) w primary ps).1.rejected ∧
      binary ∉ (s.patchAll l (s.backupOf l) w primary ps).1.written := by
  obtain ⟨hrejected, hwritten⟩ := hrefused.patchBinary_eq
  obtain ⟨hprimary, hothers⟩ := List.nodup_cons.1 hnodup
  rw [patchAll_eq]
  cases hturn with
  | primary =>
    have hgroup : groupOf l.primaryName ps ≠ [] := by
      obtain ⟨before, p, after, hgroup, -⟩ := hrefused.inserts
      rw [hgroup]
      simp
    rw [((s.patchPrimary_cases w primary l ps).resolve_left fun hnone => hgroup hnone.1).2]
    rw [Report.rejected_append, hrejected, Report.written_append, hwritten, List.nil_append]
    refine ⟨List.mem_append_left _ (List.mem_singleton_self _), ?_⟩
    exact fun hmem => hprimary ((accounts_patchOthers l _ ps _ _).mem_of_mem hmem)
  | @other _ _ _ before after names opened =>
    have hsplit : (otherNames l.primaryName ps).map l.assemblyPath =
        before.map l.assemblyPath ++ l.assemblyPath name :: after.map l.assemblyPath := by
      rw [names, List.map_append, List.map_cons]
    rw [hsplit] at hprimary hothers
    rw [List.perm_middle.nodup_iff, List.nodup_cons, List.mem_append, not_or] at hothers
    obtain ⟨⟨hbefore, hafter⟩, -⟩ := hothers
    have hne : l.assemblyPath name ≠ l.primary := fun heq =>
      hprimary (heq ▸ List.mem_append_right _ List.mem_cons_self)
    rw [names, patchOthers_append, patchOthers_cons, s.patchOther_of_opened _ _ opened]
    refine ⟨?_, ?_⟩
    · simp only [Report.rejected_append, hrejected, List.mem_append, List.mem_singleton, true_or,
        or_true]
    · simp only [Report.written_append, hwritten, List.nil_append, List.mem_append, not_or]
      refine ⟨fun hmem => hne ?_, fun hmem => hbefore ?_, fun hmem => hafter ?_⟩
      · exact List.mem_singleton.1 ((accounts_patchPrimary l ps w primary).mem_of_mem hmem)
      · exact (accounts_patchOthers l _ ps _ before).mem_of_mem hmem
      · exact (accounts_patchOthers l _ ps _ after).mem_of_mem hmem

end Refused

/-! ## The binaries of a run -/

/-- The primary binary has the name that is set for it. -/
theorem primaryName_of_discover {d : Disk} {root : Path} {settings : Settings} {l : Layout}
    (h : Layout.discover d root settings = .ok l)
    (hplain : Path.separator ∉ settings.primaryAssembly.toList) :
    l.primaryName = settings.primaryAssembly := by
  obtain ⟨hprimary, hfile⟩ := Layout.primary_of_discover h
  obtain ⟨content, hat⟩ : ∃ content, d.at? l.primary = .ok (.file content) := by
    unfold Disk.isFile at hfile
    split at hfile
    · rename_i content hat
      exact ⟨content, hat⟩
    · cases hfile
  obtain ⟨folder, last, hreaches⟩ := Disk.exists_reaches_of_at? hat
  obtain ⟨front, hpieces, -⟩ := hreaches.pieces
  obtain ⟨front', -, hpieces'⟩ := l.managed.exists_pieces_child hplain
  obtain rfl : last = settings.primaryAssembly := by
    rw [hprimary, Layout.assemblyPath, hpieces'] at hpieces
    exact (List.singleton_inj.1 (List.append_inj' hpieces rfl).2).symm
  rw [Layout.primaryName, hprimary, Layout.assemblyPath,
    Path.fileName?_child _ hplain hreaches.isIdle hreaches.ne_parent, Option.getD_some]

/-- **The binaries of a run are apart.** They have different paths, and the paths lead to different
places, except for those that lead to the folder of the binaries itself. -/
theorem Begins.pairwise_binaries [Device] {w w₁ : World σ} {game : Path} {l : Layout} {primary : Assembly}
    {prepared : Sources.Prepared} (h : s.Begins w game l primary prepared w₁)
    (hplain : Path.separator ∉ s.settings.primaryAssembly.toList) :
    (binaries l prepared.ready).Pairwise fun p q =>
      p ≠ q ∧ (p.place = q.place → p.place = l.managed.place) := by
  have hname := primaryName_of_discover h.layout hplain
  have hbinaries : binaries l prepared.ready =
      (l.primaryName :: otherNames l.primaryName prepared.ready).map l.assemblyPath := by
    rw [binaries, List.map_cons, hname, (Layout.primary_of_discover h.layout).1]
  have hplainNames : ∀ name ∈ l.primaryName :: otherNames l.primaryName prepared.ready,
      Path.separator ∉ name.toList := by
    rw [List.forall_mem_cons, hname]
    refine ⟨hplain, fun name hmem => ?_⟩
    obtain ⟨-, p, hp, rfl⟩ := mem_otherNames.1 hmem
    rcases h.assembly_cases p hp with hset | hseparator
    · rwa [hset]
    · exact hseparator
  have hnodup : (l.primaryName :: otherNames l.primaryName prepared.ready).Nodup :=
    List.nodup_cons.2 ⟨not_mem_otherNames _ _, nodup_otherNames _ _⟩
  rw [hbinaries, List.pairwise_map]
  refine hnodup.imp_of_mem fun {m n} hm hn hne => ⟨fun heq => ?_, fun heq => ?_⟩
  · exact hne (Path.eq_of_child_eq (hplainNames m hm) (hplainNames n hn) heq)
  · exact Path.place_child_eq_of_ne (hplainNames m hm) (hplainNames n hn) hne heq

/-! ## A whole run -/

/-- **The gate guards every write, and no binary is written twice.** What a run hands over for writing has
passed every check of the gate, and a patch has inserted calls into it; each path is handed over once at
most. The report lists exactly the binaries that were written, and a binary into which calls were
inserted without it being written is listed as rejected. -/
theorem writes_guarded [Device] (s : Session σ) (w : World σ) (game : Path)
    (hplain : Path.separator ∉ s.settings.primaryAssembly.toList) :
    ∃ events, (s.patch w game).2.journal = w.journal ++ events ∧
      ((∃ e, (s.patch w game).1 = .error e ∧ events.filterMap Event.binary? = []) ∨
        ∃ report l primary prepared w₁, (s.patch w game).1 = .ok report ∧
          s.Begins w game l primary prepared w₁ ∧
          (∀ a binary failure, Event.written a binary failure ∈ events →
            (∀ check ∈ s.gate.checks, check a = .ok ()) ∧
            ∃ name a₀ w₀, s.Turn l primary prepared.ready w₁ name binary a₀ w₀ ∧
              s.Inserts binary ⟨a₀, false, [], w₀⟩ (groupOf name prepared.ready) ∧
              a = (s.applyAll w₀ binary a₀ (groupOf name prepared.ready)).assembly) ∧
          (events.filterMap Event.binary?).Pairwise (fun p q =>
            p ≠ q ∧ (p.place = q.place → p.place = l.managed.place)) ∧
          report.written = events.filterMap Event.done? ∧
          ∀ name binary a₀ w₀ e, s.Turn l primary prepared.ready w₁ name binary a₀ w₀ →
            s.Refused binary ⟨a₀, false, [], w₀⟩ (groupOf name prepared.ready) e →
            ⟨binary, e⟩ ∈ report.rejected ∧ binary ∉ report.written) ∧
      (s.gate = Gate.usual → ∀ a binary failure, Event.written a binary failure ∈ events →
        (∃ m rest, a.modules = m :: rest ∧ m.types ≠ []) ∧
          ∀ m ∈ a.modules, ∀ t ∈ m.types, ∀ f ∈ t.methods, ∀ b, f.body = some b →
            ∃ data, b.encode = .ok data) := by
  obtain ⟨e, herror, hreads⟩ | ⟨l, primary, prepared, w₁, hbegins, hreads, hpatch⟩ :=
    s.patch_cases w game
  · obtain ⟨events, hjournal, hbinaries, -⟩ := accounts_of_reads hreads
    have hnone : events.filterMap Event.binary? = [] := List.sublist_nil.1 hbinaries
    refine ⟨events, hjournal, .inl ⟨e, herror, hnone⟩, fun _ a binary f hmem => ?_⟩
    exact absurd (List.filterMap_eq_nil_iff.1 hnone _ hmem) nofun
  · obtain ⟨events, hjournal, hbinaries, hwritten⟩ := (accounts_of_reads hreads).trans
      (accounts_patchAll l (s.backupOf l) prepared.ready w₁ primary)
    obtain ⟨events', hjournal', hturns⟩ :=
      hreads.handsOver.trans (s.turn_of_passes l w₁ primary prepared.ready)
    obtain rfl : events = events' := List.append_cancel_left (hjournal.symm.trans hjournal')
    have hpairwise := hbegins.pairwise_binaries hplain
    have hnodup : (binaries l prepared.ready).Nodup := hpairwise.imp And.left
    rw [hpatch]
    refine ⟨events, hjournal, .inr ⟨_, l, primary, prepared, w₁, rfl, hbegins, ?_, ?_, ?_, ?_⟩, ?_⟩
    · intro a binary f hmem
      obtain ⟨name, a₀, w₀, hturn, hpasses⟩ := hturns a binary f hmem
      exact ⟨Gate.verify_eq_ok_iff.1 hpasses.passed, name, a₀, w₀, hturn,
        changed_applyAll_iff.1 hpasses.changed, hpasses.assembly⟩
    · exact hpairwise.sublist hbinaries
    · exact hwritten
    · intro name binary a₀ w₀ e hturn hrefused
      exact rejected_of_turn hnodup hturn hrefused
    · intro husual a binary f hmem
      obtain ⟨name, a₀, w₀, -, hpasses⟩ := hturns a binary f hmem
      exact Gate.verify_usual_iff.1 (husual ▸ hpasses.passed)

end Session

/-! ## A run with one write -/

namespace Sample

/-- The primary binary is handed over, has passed the gate, and is the one that the report lists. -/
theorem guarded_start : Path.separator ∉ session.settings.primaryAssembly.toList ∧
    ∃ report events, (session.patch start ⟨"/g"⟩).1 = .ok report ∧
      (session.patch start ⟨"/g"⟩).2.journal = start.journal ++ events ∧
      report.written = [layout.primary] ∧ events.filterMap Event.done? = [layout.primary] ∧
      ∀ a binary failure, Event.written a binary failure ∈ events → hasTypes a = .ok () := by
  have hplain : Path.separator ∉ session.settings.primaryAssembly.toList := by decide
  obtain ⟨report, hreport, -, -, hwritten⟩ := patch_start
  obtain ⟨events, hjournal, hcases, -⟩ := Session.writes_guarded session start ⟨"/g"⟩ hplain
  rcases hcases with ⟨e, herror, -⟩ |
    ⟨report', l, primary, prepared, w₁, hreport', -, hpassed, -, hdone, -⟩
  · rw [hreport] at herror
    cases herror
  · obtain rfl : report = report' := Except.ok.inj (hreport.symm.trans hreport')
    rw [finished_eq.2.1] at hwritten
    refine ⟨hplain, report, events, hreport, hjournal, hwritten, hdone ▸ hwritten, ?_⟩
    intro a binary failure hmem
    exact (hpassed a binary failure hmem).1 hasTypes (List.mem_singleton_self _)

end Sample

end CilGraft
