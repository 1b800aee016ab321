import CilGraft.Proofs.AccountedSources

/-!
# Disks with more files

What a file contains, and whether a file is there at all, makes a difference only to those who look at its
place. Two disks with the same folders are alike for everybody else.

* `walkToLast_child`, `replaceFile_eq_map` — a file put in a folder that exists.
* `Disk.Fills` — files are put at some places; `Fills.put`.
* `folderCandidates_eq` — the libraries in a folder, when no file that was put is one of them.
-/

set_option autoImplicit false

namespace CilGraft

namespace Disk

variable {d d' : Disk} {p q : Path} {n : Names} {content : Bytes}

/-! ## Files put in a folder -/

/-- Where a name in a folder goes depends on the folder alone. -/
theorem walkToLast_child {s : String} (h : d.isFolder p = true) (h' : d'.isFolder p = true)
    (hs : Path.separator ∉ s.toList) (hne : s ≠ "") :
    d'.walkToLast (p.child s) = d.walkToLast (p.child s) := by
  obtain ⟨front, -, hfront, hpieces⟩ := p.exists_front
  have hwalk := walkFrom_front hfront h
  have hwalk' := walkFrom_front hfront h'
  have hempty : (s == "") = false := beq_eq_false_iff_ne.2 hne
  have hfolder := (isFolder_eq_true_iff.1 h).2
  have hfolder' := (isFolder_eq_true_iff.1 h').2
  unfold walkToLast
  simp only [hpieces s hs, List.reverse_append, List.reverse_singleton, List.singleton_append,
    List.dropWhile_cons, hempty, Bool.false_eq_true, if_false, List.reverse_reverse, hwalk, hwalk',
    bind, Except.bind, hfolder, hfolder']

/-- A file is put in its place on both disks, or on neither and for the same reason. -/
theorem replaceFile_eq_map (hwalk : d'.walkToLast p = d.walkToLast p)
    (hfolders : ∀ m, d'.isFolderAt m = d.isFolderAt m) :
    d'.replaceFile p content =
      (d.replaceFile p content).map fun _ => d'.put p.place (.file content) := by
  unfold replaceFile
  rw [hwalk]
  cases hlast : d.walkToLast p with
  | error e => rfl
  | ok last =>
    cases last with
    | folder at_ => rfl
    | named folder name asFolder =>
      rw [(endsIn_of_walkToLast hlast).place_eq]
      show (checkName name >>= _) = Except.map _ (checkName name >>= _)
      cases checkName name with
      | error e => rfl
      | ok _ =>
        show (if _ then _ else _) = Except.map _ (if _ then _ else _)
        rw [hfolders]
        cases asFolder with
        | true => rfl
        | false =>
          cases d.isFolderAt (folder ++ [name]) with
          | true => rfl
          | false => rfl

/-! ## Files put at some places -/

theorem map_fst_put (d : Disk) (n : Names) (e : Entry) :
    (d.put n e).entries.map (·.1) =
      if n ∈ d.entries.map (·.1) then d.entries.map (·.1) else d.entries.map (·.1) ++ [n] := by
  have hmem : n ∈ d.entries.map (·.1) ↔ d.entries.any (·.1 == n) = true := by
    simp [List.any_eq_true, List.mem_map]
  unfold put
  split
  · rename_i hany
    rw [if_pos (hmem.2 hany), List.map_map]
    exact List.map_congr_left fun x _ => fst_replaced n e x
  · rename_i hnone
    rw [if_neg (mt hmem.1 hnone), List.map_append, List.map_singleton]

theorem isSome_entry?_of_mem (h : n ∈ d.entries.map (·.1)) : (d.entry? n).isSome = true := by
  obtain ⟨x, hx, rfl⟩ := List.mem_map.1 h
  unfold entry?
  split
  · rfl
  · rw [Option.isSome_map, List.find?_isSome]
    exact ⟨x, hx, beq_self_eq_true _⟩

theorem entry?_of_not_mem (hroot : n ≠ []) (h : n ∉ d.entries.map (·.1)) : d.entry? n = none := by
  rw [ entry?, if_neg hroot, Option.map_eq_none_iff, List.find?_eq_none]
  exact fun x hx hkey => h (List.mem_map.2 ⟨x, hx, beq_iff_eq.1 hkey⟩)

/-- Files are put at some of the places. Everything else stays as it is, and a file stays a file. -/
structure Fills (at_ : Names → Prop) (d d' : Disk) : Prop where
  names : ∃ new, d'.entries.map (·.1) = d.entries.map (·.1) ++ new ∧
    ∀ n ∈ new, at_ n ∧ d.entry? n = none
  kept : ∀ n, ¬ at_ n → d'.entry? n = d.entry? n
  files : ∀ n c, d.entry? n = some (.file c) → ∃ c', d'.entry? n = some (.file c')
  folders : ∀ n, d'.isFolderAt n = d.isFolderAt n

namespace Fills

variable {at_ : Names → Prop}

theorem refl (at_ : Names → Prop) (d : Disk) : Fills at_ d d where
  names := ⟨[], (List.append_nil _).symm, nofun⟩
  kept _ _ := rfl
  files _ c h := ⟨c, h⟩
  folders _ := rfl

theorem put (h : Fills at_ d d') (hn : at_ n) (hroot : n ≠ []) (hfree : d'.isFolderAt n = false) :
    Fills at_ d (d'.put n (.file content)) where
  names := by
    obtain ⟨new, hnames, hnew⟩ := h.names
    rw [map_fst_put]
    split
    · exact ⟨new, hnames, hnew⟩
    · rename_i hmissing
      refine ⟨new ++ [n], by rw [hnames, List.append_assoc], fun m hm => ?_⟩
      rcases List.mem_append.1 hm with hm | hm
      · exact hnew m hm
      · obtain rfl := List.mem_singleton.1 hm
        rw [hnames, List.mem_append, not_or] at hmissing
        exact ⟨hn, entry?_of_not_mem hroot hmissing.1⟩
  kept m hm := by
    have hne : m ≠ n := fun heq => hm (heq ▸ hn)
    rw [entry?_put_of_ne _ hne, h.kept m hm]
  files m c hm := by
    by_cases heq : m = n
    · subst heq
      exact ⟨content, entry?_put _ hroot⟩
    · obtain ⟨c', hc'⟩ := h.files m c hm
      exact ⟨c', (entry?_put_of_ne _ heq).trans hc'⟩
  folders m := by rw [isFolderAt_put hroot hfree, h.folders]

end Fills

end Disk

/-! ## Libraries in a folder -/

namespace References

open Disk

/-- Sorting goes on in the same way whatever is left out afterwards. -/
theorem filter_mergeSort_eq {xs ys : List String} {keep : String → Bool}
    (h : xs.filter keep = ys.filter keep) :
    (xs.mergeSort fun s t => !(t < s)).filter keep =
      (ys.mergeSort fun s t => !(t < s)).filter keep := by
  have hsorted : ∀ zs : List String,
      ((zs.mergeSort fun s t => !(t < s)).filter keep).Pairwise (· ≤ ·) :=
    fun zs => (pairwise_le_mergeSort zs).sublist List.filter_sublist
  have hperm : ∀ zs : List String,
      ((zs.mergeSort fun s t => !(t < s)).filter keep).Perm (zs.filter keep) :=
    fun zs => (List.mergeSort_perm zs _).filter keep
  refine List.Perm.eq_of_pairwise (fun s t _ _ hst hts => String.le_antisymm hst hts) (hsorted xs)
    (hsorted ys) ((hperm xs).trans ?_)
  rw [h]
  exact (hperm ys).symm

/-- The libraries in a folder, by the names in it. -/
theorem folderCandidates_eq (d : Disk) (folder : Path) :
    folderCandidates d folder =
      if d.isFolder folder then
        (((d.childrenOf folder.place).mergeSort fun s t => !(t < s)).filter fun name =>
          hasExtension (folder.child name) "dll").map folder.child
      else [] := by
  split
  · rename_i h
    obtain ⟨hwalk, hfolder⟩ := isFolder_eq_true_iff.1 h
    rw [folderCandidates, list, hwalk]
    simp only [bind, Except.bind, hfolder, if_true, List.filter_map, Function.comp_def]
  · rename_i h
    have hnot : ∀ names, d.list folder ≠ .ok names := by
      intro names hlist
      obtain ⟨n, hwalk, hlist⟩ := bind_eq_ok_iff.1 hlist
      split at hlist
      · rename_i hfolder
        obtain rfl := walk_eq_place hwalk
        exact h (isFolder_eq_true_iff.2 ⟨hwalk, hfolder⟩)
      · cases hlist
    rw [folderCandidates]
    split
    · rfl
    · rename_i names hlist
      exact absurd hlist (hnot names)

/-- The libraries in a folder stay the same when no file that was put is one of them. -/
theorem folderCandidates_of_fills {at_ : Names → Prop} {d d' : Disk} {folder : Path}
    (h : Fills at_ d d')
    (hnone : ∀ name, d.entry? (folder.place ++ [name]) = none →
      d'.entry? (folder.place ++ [name]) ≠ none →
        hasExtension (folder.child name) "dll" = false) :
    folderCandidates d' folder = folderCandidates d folder := by
  obtain ⟨new, hnames, hnew⟩ := h.names
  have hchildren : (d'.childrenOf folder.place).filter
      (fun name => hasExtension (folder.child name) "dll") =
        (d.childrenOf folder.place).filter fun name =>
          hasExtension (folder.child name) "dll" := by
    rw [childrenOf_eq, childrenOf_eq, hnames, List.filterMap_append, List.filter_append,
      List.append_right_eq_self, List.filter_eq_nil_iff]
    intro name hname
    obtain ⟨n, hn, hin⟩ := List.mem_filterMap.1 hname
    obtain rfl := nameIn?_eq_some_iff.1 hin
    obtain ⟨-, hmissing⟩ := hnew _ hn
    have hthere := isSome_entry?_of_mem (hnames ▸ List.mem_append_right _ hn)
    rw [hnone name hmissing (Option.isSome_iff_ne_none.1 hthere)]
    exact Bool.false_ne_true
  rw [folderCandidates_eq, folderCandidates_eq, isFolder_eq h.folders,
    filter_mergeSort_eq hchildren]

end References

end CilGraft
