import CilGraft.Proofs.Places

/-!
# Files that a path reaches

A path that leads to a place need not reach it: the folders on the way must exist, and no name may be
too long. Only the folders of a disk decide this, so it makes no difference which files there are.

* `Disk.Reaches` — a file can stand where the path ends; `Reaches.mono`.
* `readFile_eq_ok_iff`, `writeFile_eq_ok_iff`, `replaceFile_eq_ok_iff` — a file at a path that reaches
  it is read and written.
* `readFile_put` — what is read after a file has been written.
* `copyFile_eq_ok_iff` — a file is copied to another place.
* `isFolder_eq`, `readFile_eq_ok_congr`, `isFile_congr` — what disks with the same folders have in common.
* `Device.createTemporary_eq` — when a temporary file can be created in a folder.
* `Device.Whole` — a change that is not left half-done; `disk_writeFile_of_whole`, `disk_copyFile_of_whole`.
-/

set_option autoImplicit false

namespace CilGraft

namespace Disk

variable {d d' : Disk} {p q : Path} {at_ folder n : Names} {name : String} {content : Bytes}

/-! ## Walks -/

theorem walkFrom_append (xs ys : List String) :
    d.walkFrom at_ (xs ++ ys) = (d.walkFrom at_ xs >>= fun n => d.walkFrom n ys) := by
  induction xs generalizing at_ with
  | nil => rfl
  | cons piece xs ih =>
    rw [List.cons_append, walkFrom, walkFrom]
    split
    · rfl
    · split
      · exact ih
      · split
        · exact ih
        · split
          · rfl
          · split
            · exact ih
            · rfl

/-- All folders on the way to the names exist. -/
def FoldersAbove (d : Disk) (n : Names) : Prop := ∀ m, m <+: n → m ≠ n → d.isFolderAt m = true

theorem FoldersAbove.dropLast (h : d.FoldersAbove n) : d.FoldersAbove n.dropLast := by
  intro m hm hne
  refine h m (hm.trans (List.dropLast_prefix n)) ?_
  rintro rfl
  exact hne (hm.eq_of_length_le (List.length_dropLast ▸ Nat.sub_le _ 1))

theorem FoldersAbove.concat (h : d.FoldersAbove n) (hn : d.isFolderAt n = true) :
    d.FoldersAbove (n ++ [name]) := by
  intro m hm hne
  rcases List.prefix_concat_iff.1 hm with heq | hm
  · exact absurd heq hne
  · by_cases heq : m = n
    · rwa [heq]
    · exact h m hm heq

/-- A walk passes through folders only. -/
theorem foldersAbove_of_walkFrom {ps : List String} (h : d.walkFrom at_ ps = .ok n)
    (habove : d.FoldersAbove at_) : d.FoldersAbove n := by
  induction ps generalizing at_ with
  | nil =>
    cases h
    exact habove
  | cons piece ps ih =>
    obtain ⟨hfolder, next, hpasses, h⟩ := walkFrom_cons_eq_ok_iff.1 h
    refine ih h ?_
    cases hpasses with
    | stays => exact habove
    | up => exact habove.dropLast
    | down => exact habove.concat hfolder

/-- What a walk starts from is a folder, when it ends at one. -/
theorem isFolderAt_of_walkFrom {ps : List String} (h : d.walkFrom at_ ps = .ok n)
    (hn : d.isFolderAt n = true) : d.isFolderAt at_ = true := by
  cases ps with
  | nil =>
    cases h
    exact hn
  | cons piece ps => exact (walkFrom_cons_eq_ok_iff.1 h).1

/-- A piece that leads to a folder of another disk is passed on that disk too. -/
theorem Passes.of_isFolderAt {piece : String} (h : d.Passes at_ piece n)
    (hn : d'.isFolderAt n = true) : d'.Passes at_ piece n := by
  cases h with
  | stays idle => exact .stays idle
  | up named parent => exact .up named parent
  | down named ne_parent size_le _ =>
    refine .down named ne_parent size_le ?_
    rw [isFolderAt, beq_iff_eq] at hn
    rw [hn, Option.isSome_some]

/-- A walk to a folder needs the folders on its way, and nothing else. -/
theorem walkFrom_mono (hle : ∀ m, d.isFolderAt m = true → d'.isFolderAt m = true) {ps : List String}
    (h : d.walkFrom at_ ps = .ok n) (hn : d.isFolderAt n = true) : d'.walkFrom at_ ps = .ok n := by
  induction ps generalizing at_ with
  | nil => exact h
  | cons piece ps ih =>
    obtain ⟨hfolder, next, hpasses, h⟩ := walkFrom_cons_eq_ok_iff.1 h
    have hnext := hle _ (isFolderAt_of_walkFrom h hn)
    exact walkFrom_cons_eq_ok_iff.2 ⟨hle _ hfolder, next, hpasses.of_isFolderAt hnext, ih h⟩

/-! ## Reaching a place -/

/-- A file can stand where the path ends: its last piece is a name in a folder that exists. -/
structure Reaches (d : Disk) (p : Path) (folder : Names) (name : String) : Prop where
  path : checkPath p = .ok ()
  pieces : ∃ front, p.pieces = front ++ [name] ∧ d.walkFrom [] front = .ok folder
  isFolder : d.isFolderAt folder = true
  isIdle : Path.isIdle name = false
  ne_parent : name ≠ ".."
  size_le : name.utf8ByteSize ≤ maxName

namespace Reaches

theorem place_eq (h : d.Reaches p folder name) : p.place = folder ++ [name] := by
  obtain ⟨front, hpieces, hwalk⟩ := h.pieces
  rw [Path.place, hpieces, List.foldl_append, ← walkFrom_eq_place hwalk, List.foldl_cons,
    List.foldl_nil, Path.descend_of_name h.isIdle h.ne_parent]

theorem mono (h : d.Reaches p folder name)
    (hle : ∀ m, d.isFolderAt m = true → d'.isFolderAt m = true) : d'.Reaches p folder name where
  path := h.path
  pieces := by
    obtain ⟨front, hpieces, hwalk⟩ := h.pieces
    exact ⟨front, hpieces, walkFrom_mono hle hwalk h.isFolder⟩
  isFolder := hle _ h.isFolder
  isIdle := h.isIdle
  ne_parent := h.ne_parent
  size_le := h.size_le

theorem walkToLast_eq (h : d.Reaches p folder name) :
    d.walkToLast p = .ok (.named folder name false) := by
  obtain ⟨front, hpieces, hwalk⟩ := h.pieces
  have hidle := h.isIdle
  rw [Path.isIdle, Bool.or_eq_false_iff] at hidle
  have hparent : (name == "..") = false := beq_eq_false_iff_ne.2 h.ne_parent
  have hempty : (some name == some "") = false := by
    rw [beq_eq_false_iff_ne, Ne, Option.some.injEq]
    exact beq_eq_false_iff_ne.1 hidle.1
  unfold walkToLast
  rw [h.path]
  simp only [bind, Except.bind, hpieces, List.reverse_append, List.reverse_singleton,
    List.singleton_append, List.dropWhile_cons, hidle.1, Bool.false_eq_true, if_false,
    List.reverse_reverse, hwalk, h.isFolder, Bool.not_true, hidle.2, hparent, List.head?_cons,
    hempty]

/-- There is nothing where the path ends, or it is found. -/
theorem at?_eq (h : d.Reaches p folder name) :
    d.at? p = match d.entry? p.place with
      | some e => .ok e
      | none => .error .notFound := by
  obtain ⟨front, hpieces, hwalk⟩ := h.pieces
  have hparent : ¬ (name == "..") = true := mt beq_iff_eq.1 h.ne_parent
  have hsize : ¬ maxName < name.utf8ByteSize := Nat.not_lt.2 h.size_le
  have hlast : d.walkFrom folder [name] =
      if (d.entry? (folder ++ [name])).isSome then .ok (folder ++ [name]) else .error .notFound := by
    rw [walkFrom, h.isFolder, Bool.not_true, if_neg Bool.false_ne_true, h.isIdle,
      if_neg Bool.false_ne_true, if_neg hparent, if_neg hsize, walkFrom]
  have hwalk' : d.walk p = d.walkFrom folder [name] := by
    unfold walk
    rw [h.path, hpieces]
    show d.walkFrom [] (front ++ [name]) = _
    rw [walkFrom_append, hwalk]
    rfl
  rw [at?, hwalk', hlast, h.place_eq]
  cases he : d.entry? (folder ++ [name]) with
  | none => rfl
  | some e =>
    rw [Option.isSome_some, if_pos rfl]
    show (match d.entry? (folder ++ [name]) with
      | some e => Except.ok e
      | none => Except.error DiskError.notFound) = _
    rw [he]

end Reaches

/-! ## Files that are put in place -/

theorem isFolderAt_put (hn : n ≠ []) {m : Names} (hfree : d.isFolderAt n = false) :
    Disk.isFolderAt (d.put n (.file content)) m = d.isFolderAt m := by
  by_cases hm : m = n
  · subst hm
    rw [hfree, isFolderAt, entry?_put _ hn]
    rfl
  · rw [isFolderAt, isFolderAt, entry?_put_of_ne _ hm]

theorem reaches_put_iff (hn : n ≠ []) (hfree : d.isFolderAt n = false) :
    Disk.Reaches (d.put n (.file content)) p folder name ↔ d.Reaches p folder name := by
  constructor
  · intro h
    refine h.mono fun m hm => ?_
    rwa [isFolderAt_put hn hfree] at hm
  · intro h
    refine h.mono fun m hm => ?_
    rwa [isFolderAt_put hn hfree]

/-- The last piece of a path that can be opened for writing. -/
theorem reaches_of_walkToLast (h : d.walkToLast p = .ok (.named folder name false))
    (hname : checkName name = .ok ()) : d.Reaches p folder name := by
  have hends := endsIn_of_walkToLast h
  obtain ⟨front, behind, hpieces, -, hbehind, hwalk⟩ := hends.pieces
  -- no separator stands at the end, so the name is the last piece
  obtain rfl : behind = [] := by simpa using hbehind.symm
  refine ⟨hends.path, ⟨front, hpieces, hwalk⟩, hends.isFolder, hends.isIdle, hends.ne_parent, ?_⟩
  unfold checkName at hname
  split at hname
  · cases hname
  · exact Nat.not_lt.1 ‹_›

theorem checkName_of_reaches (h : d.Reaches p folder name) : checkName name = .ok () :=
  if_neg (Nat.not_lt.2 h.size_le)

/-- **Writing a file in place succeeds** exactly where it can stand and no folder does. -/
theorem writeFile_eq_ok_iff : d.writeFile p content = .ok d' ↔
    ∃ folder name, d.Reaches p folder name ∧ d.isFolderAt p.place = false ∧
      d' = d.put p.place (.file content) := by
  constructor
  · intro h
    obtain ⟨hput, -, hfree⟩ := writeFile_eq_ok h
    obtain ⟨last, hlast, h⟩ := bind_eq_ok_iff.1 h
    split at h
    · cases h
    · cases h
    · rename_i folder name
      obtain ⟨⟨⟩, hname, _⟩ := bind_eq_ok_iff.1 h
      exact ⟨folder, name, reaches_of_walkToLast hlast hname, beq_eq_false_iff_ne.2 hfree, hput⟩
  · rintro ⟨folder, name, hreaches, hfree, rfl⟩
    rw [hreaches.place_eq] at hfree ⊢
    unfold writeFile
    rw [hreaches.walkToLast_eq]
    show (checkName name >>= fun _ => _) = _
    rw [checkName_of_reaches hreaches]
    exact if_neg (Bool.eq_false_iff.1 hfree)

/-- Putting a file in place as a whole succeeds where writing it does. -/
theorem replaceFile_eq_ok_iff : d.replaceFile p content = .ok d' ↔
    ∃ folder name, d.Reaches p folder name ∧ d.isFolderAt p.place = false ∧
      d' = d.put p.place (.file content) := by
  constructor
  · intro h
    obtain ⟨hput, -, hfree⟩ := replaceFile_eq_ok h
    obtain ⟨last, hlast, h⟩ := bind_eq_ok_iff.1 h
    have hwalk : d.walkToLast p = .ok last := by
      cases hw : d.walkToLast p with
      | error e =>
        rw [hw] at hlast
        cases hlast
      | ok last' =>
        rw [hw] at hlast
        cases hlast
        rfl
    split at h
    · cases h
    · rename_i folder name asFolder
      obtain ⟨⟨⟩, hname, h⟩ := bind_eq_ok_iff.1 h
      split at h
      · cases h
      · rename_i hseparator
        rw [Bool.not_eq_true] at hseparator
        subst hseparator
        exact ⟨folder, name, reaches_of_walkToLast hwalk hname, beq_eq_false_iff_ne.2 hfree, hput⟩
  · rintro ⟨folder, name, hreaches, hfree, rfl⟩
    rw [hreaches.place_eq] at hfree ⊢
    unfold replaceFile
    rw [hreaches.walkToLast_eq]
    show (checkName name >>= fun _ => _) = _
    rw [checkName_of_reaches hreaches]
    show (if d.isFolderAt (folder ++ [name]) = true then Except.error DiskError.isAFolder else _) = _
    exact if_neg (Bool.eq_false_iff.1 hfree)

/-! ## Files that are read -/

/-- A path to a file ends with its name. -/
theorem exists_reaches_of_at? (h : d.at? p = .ok (.file content)) :
    ∃ folder name, d.Reaches p folder name := by
  obtain ⟨n, hwalk, h⟩ := bind_eq_ok_iff.1 h
  have hfile : d.entry? n = some (.file content) := by
    split at h
    · cases h
      assumption
    · cases h
  obtain ⟨⟨⟩, hpath, hwalk⟩ := bind_eq_ok_iff.1 hwalk
  have hnot : d.isFolderAt n = false := by
    rw [isFolderAt, hfile]
    rfl
  rcases List.eq_nil_or_concat p.pieces with hnil | ⟨front, name, hpieces⟩
  · rw [hnil] at hwalk
    cases hwalk
    cases hfile
  · rw [hpieces, List.concat_eq_append, walkFrom_append] at hwalk
    obtain ⟨folder, hfront, hlast⟩ := bind_eq_ok_iff.1 hwalk
    obtain ⟨hfolder, _, hpasses, hlast⟩ := walkFrom_cons_eq_ok_iff.1 hlast
    cases hlast
    cases hpasses with
    | stays =>
      -- an idle piece ends where it starts, which is a folder
      rw [hfolder] at hnot
      cases hnot
    | up =>
      -- the folders above the last one exist, since the walk came through them
      have habove := foldersAbove_of_walkFrom hfront
        (fun m hm hne => absurd (List.prefix_nil.1 hm) hne)
      by_cases heq : folder.dropLast = folder
      · rw [heq, hfolder] at hnot
        cases hnot
      · rw [habove _ (List.dropLast_prefix _) heq] at hnot
        cases hnot
    | down named ne_parent size_le _ =>
      exact ⟨folder, name, hpath, ⟨front, hpieces.trans (List.concat_eq_append ..), hfront⟩,
        hfolder, named, ne_parent, size_le⟩

/-- **Reading a file succeeds** exactly when the path reaches it. -/
theorem readFile_eq_ok_iff : d.readFile p = .ok content ↔
    ∃ folder name, d.Reaches p folder name ∧ d.entry? p.place = some (.file content) := by
  constructor
  · intro h
    obtain ⟨e, he, h⟩ := bind_eq_ok_iff.1 h
    split at h
    · cases h
      obtain ⟨folder, name, hreaches⟩ := exists_reaches_of_at? he
      exact ⟨folder, name, hreaches, entry?_of_at? he⟩
    · cases h
  · rintro ⟨folder, name, hreaches, hentry⟩
    refine bind_eq_ok_iff.2 ⟨.file content, ?_, rfl⟩
    rw [hreaches.at?_eq, hentry]

theorem isFile_eq_true_iff : d.isFile p = true ↔ ∃ content, d.readFile p = .ok content := by
  constructor
  · intro h
    unfold isFile at h
    split at h
    · rename_i content hat
      exact ⟨content, bind_eq_ok_iff.2 ⟨_, hat, rfl⟩⟩
    · cases h
  · rintro ⟨content, h⟩
    obtain ⟨e, he, h⟩ := bind_eq_ok_iff.1 h
    split at h
    · rw [isFile, he]
    · cases h

/-- What is not there although the path reaches it. -/
theorem Reaches.entry?_of_not_exists (h : d.Reaches p folder name) (hnone : d.exists_ p = false) :
    d.entry? p.place = none := by
  rw [exists_, h.at?_eq] at hnone
  cases he : d.entry? p.place with
  | none => rfl
  | some e =>
    rw [he] at hnone
    cases hnone

/-- A file that is written is read as it was written, and the other files as they were. -/
theorem readFile_put (hfree : d.isFolderAt n = false) (hn : n ≠ []) {c : Bytes} :
    Disk.readFile (d.put n (.file content)) p = .ok c ↔
      if p.place = n then c = content ∧ ∃ folder name, d.Reaches p folder name
      else d.readFile p = .ok c := by
  simp only [readFile_eq_ok_iff, reaches_put_iff hn hfree]
  split
  · rename_i heq
    rw [heq, entry?_put _ hn, Option.some.injEq, Entry.file.injEq]
    constructor
    · rintro ⟨folder, name, hreaches, rfl⟩
      exact ⟨rfl, folder, name, hreaches⟩
    · rintro ⟨rfl, folder, name, hreaches⟩
      exact ⟨folder, name, hreaches, rfl⟩
  · rename_i hne
    rw [entry?_put_of_ne _ hne]

theorem isFolderAt_of_entry? (h : d.entry? n = some (.file content)) : d.isFolderAt n = false := by
  rw [isFolderAt, h]
  rfl

/-- A file is read as it was written. -/
theorem readFile_of_writeFile (h : d.writeFile p content = .ok d') :
    d'.readFile p = .ok content := by
  obtain ⟨folder, name, hreaches, hfree, rfl⟩ := writeFile_eq_ok_iff.1 h
  have hroot : p.place ≠ [] := by rw [hreaches.place_eq]; simp
  rw [readFile_put hfree hroot, if_pos rfl]
  exact ⟨rfl, folder, name, hreaches⟩

/-- The other files stay when a file is written. -/
theorem readFile_of_writeFile_of_ne {c : Bytes} (h : d.writeFile p content = .ok d')
    (hne : q.place ≠ p.place) : d'.readFile q = .ok c ↔ d.readFile q = .ok c := by
  obtain ⟨folder, name, hreaches, hfree, rfl⟩ := writeFile_eq_ok_iff.1 h
  have hroot : p.place ≠ [] := by rw [hreaches.place_eq]; simp
  rw [readFile_put hfree hroot, if_neg hne]

/-- A file stays readable when its entry and all folders stay. -/
theorem readFile_mono (h : d.readFile p = .ok content)
    (hle : ∀ m, d.isFolderAt m = true → d'.isFolderAt m = true)
    (hentry : d.entry? p.place = some (.file content) → d'.entry? p.place = some (.file content)) :
    d'.readFile p = .ok content := by
  obtain ⟨folder, name, hreaches, hfile⟩ := readFile_eq_ok_iff.1 h
  exact readFile_eq_ok_iff.2 ⟨folder, name, hreaches.mono hle, hentry hfile⟩

theorem readText_eq_ok_iff {s : List Char} : d.readText p = .ok s ↔
    ∃ content, d.readFile p = .ok content ∧ Text.Utf8.decode? content = some s := by
  constructor
  · intro h
    obtain ⟨content, hread, h⟩ := bind_eq_ok_iff.1 h
    split at h
    · cases h
      exact ⟨content, hread, ‹_›⟩
    · cases h
  · rintro ⟨content, hread, hdecoded⟩
    refine bind_eq_ok_iff.2 ⟨content, hread, ?_⟩
    rw [hdecoded]

/-! ## Copies -/

theorem exists_reaches_of_copyFile (h : d.copyFile p q = .ok d') :
    ∃ folder name, d.Reaches q folder name := by
  obtain ⟨e, -, h⟩ := bind_eq_ok_iff.1 h
  split at h
  · cases h
  · obtain ⟨emptied, hwrite, -⟩ := bind_eq_ok_iff.1 h
    obtain ⟨folder, name, hreaches, -⟩ := writeFile_eq_ok_iff.1 hwrite
    exact ⟨folder, name, hreaches⟩

/-- **A file is copied to another place** when it can be read, and written there. -/
theorem copyFile_eq_ok_iff (hne : p.place ≠ q.place) : d.copyFile p q = .ok d' ↔
    ∃ content, d.readFile p = .ok content ∧ d.writeFile q content = .ok d' := by
  constructor
  · intro h
    obtain ⟨folder, name, hreaches⟩ := exists_reaches_of_copyFile h
    obtain ⟨content, content', hentry, hsame, -, hfree, hput⟩ := copyFile_eq_ok h
    obtain ⟨e, hat, -⟩ := bind_eq_ok_iff.1 h
    have hfile : e = .file content := Option.some.inj ((entry?_of_at? hat).symm.trans hentry)
    refine ⟨content, bind_eq_ok_iff.2 ⟨e, hat, ?_⟩, ?_⟩
    · rw [hfile]
    · rw [hput, hsame hne]
      exact writeFile_eq_ok_iff.2 ⟨folder, name, hreaches, beq_eq_false_iff_ne.2 hfree, rfl⟩
  · rintro ⟨content, hread, hwrite⟩
    obtain ⟨folder, name, hreaches, hfree, rfl⟩ := writeFile_eq_ok_iff.1 hwrite
    have hat : d.at? p = .ok (.file content) := by
      obtain ⟨folder', name', hreaches', hentry'⟩ := readFile_eq_ok_iff.1 hread
      rw [hreaches'.at?_eq, hentry']
    have hwrites : ∀ bytes, d.writeFile q bytes = .ok (d.put q.place (.file bytes)) :=
      fun bytes => writeFile_eq_ok_iff.2 ⟨folder, name, hreaches, hfree, rfl⟩
    have hcopy : ∃ bytes, d.copyFile p q = .ok (d.put q.place (.file bytes)) :=
      ⟨_, bind_eq_ok_iff.2 ⟨_, hat, bind_eq_ok_iff.2 ⟨_, hwrites [], hwrites _⟩⟩⟩
    obtain ⟨bytes, hcopy⟩ := hcopy
    obtain ⟨content', bytes', hentry, hsame, -, -, hput⟩ := copyFile_eq_ok hcopy
    rw [entry?_of_at? hat, Option.some.injEq, Entry.file.injEq] at hentry
    rw [hcopy, hput, hsame hne, ← hentry]

/-! ## Disks with the same folders -/

theorem isFolder_eq_true_iff : d.isFolder p = true ↔
    d.walk p = .ok p.place ∧ d.isFolderAt p.place = true := by
  constructor
  · intro h
    unfold isFolder at h
    split at h
    · rename_i hat
      obtain ⟨n, hwalk, -⟩ := bind_eq_ok_iff.1 hat
      have hentry := entry?_of_at? hat
      rw [isFolderAt, hentry]
      exact ⟨walk_eq_place hwalk ▸ hwalk, rfl⟩
    · cases h
  · rintro ⟨hwalk, hfolder⟩
    rw [isFolderAt, beq_iff_eq] at hfolder
    rw [isFolder, at?, hwalk]
    simp only [bind, Except.bind, hfolder]

section Folders

variable (hfolders : ∀ m, d'.isFolderAt m = d.isFolderAt m)
include hfolders

theorem walk_of_folders (h : d.isFolder p = true) : d'.walk p = .ok p.place := by
  obtain ⟨hwalk, hfolder⟩ := isFolder_eq_true_iff.1 h
  obtain ⟨⟨⟩, hpath, hwalk⟩ := bind_eq_ok_iff.1 hwalk
  refine bind_eq_ok_iff.2 ⟨(), hpath, ?_⟩
  exact walkFrom_mono (fun m hm => (hfolders m).trans hm) hwalk hfolder

theorem isFolder_eq (p : Path) : d'.isFolder p = d.isFolder p := by
  have hle : ∀ {d d' : Disk}, (∀ m, d'.isFolderAt m = d.isFolderAt m) → d.isFolder p = true →
      d'.isFolder p = true := by
    intro d d' hfolders h
    refine isFolder_eq_true_iff.2 ⟨walk_of_folders hfolders h, ?_⟩
    exact (hfolders _).trans (isFolder_eq_true_iff.1 h).2
  rw [Bool.eq_iff_iff]
  exact ⟨hle fun m => (hfolders m).symm, hle hfolders⟩

theorem reaches_iff {folder : Names} {name : String} :
    d'.Reaches p folder name ↔ d.Reaches p folder name :=
  ⟨fun h => h.mono fun m hm => (hfolders m).symm.trans hm,
    fun h => h.mono fun m hm => (hfolders m).trans hm⟩

/-- A file is read alike when its place has the same entry. -/
theorem readFile_eq_ok_congr (hentry : d'.entry? p.place = d.entry? p.place) :
    d'.readFile p = .ok content ↔ d.readFile p = .ok content := by
  simp only [readFile_eq_ok_iff, reaches_iff hfolders, hentry]

theorem isFile_congr (hfile : (∃ c, d'.entry? p.place = some (.file c)) ↔
    ∃ c, d.entry? p.place = some (.file c)) : d'.isFile p = d.isFile p := by
  have hreaches : ∀ d : Disk, (∃ c, d.readFile p = .ok c) ↔
      (∃ folder name, d.Reaches p folder name) ∧ ∃ c, d.entry? p.place = some (.file c) := by
    intro d
    simp only [readFile_eq_ok_iff]
    exact ⟨fun ⟨c, folder, name, h, he⟩ => ⟨⟨folder, name, h⟩, c, he⟩,
      fun ⟨⟨folder, name, h⟩, c, he⟩ => ⟨c, folder, name, h, he⟩⟩
  rw [Bool.eq_iff_iff, isFile_eq_true_iff, isFile_eq_true_iff, hreaches, hreaches, hfile]
  simp only [reaches_iff hfolders]

end Folders

/-- The pieces of a path lead to its folder, with or without the empty one at the end. -/
theorem walkFrom_front {front : List String}
    (hpieces : p.pieces = front ∨ p.pieces = front ++ [""] ∨ p.text = "")
    (h : d.isFolder p = true) : d.walkFrom [] front = .ok p.place := by
  obtain ⟨⟨⟩, hpath, hwalk⟩ := bind_eq_ok_iff.1 (isFolder_eq_true_iff.1 h).1
  rcases hpieces with hpieces | hpieces | hempty
  · rwa [hpieces] at hwalk
  · rw [hpieces, walkFrom_append] at hwalk
    obtain ⟨n, hfront, hlast⟩ := bind_eq_ok_iff.1 hwalk
    obtain ⟨-, next, hpasses, hnext⟩ := walkFrom_cons_eq_ok_iff.1 hlast
    cases hnext
    rw [hfront, hpasses.eq_descend]
    rfl
  · rw [checkPath, hempty] at hpath
    cases hpath

/-! ## Temporary files -/

end Disk

namespace Path

/-- The root in front of a relative path makes no difference to its pieces. -/
theorem exists_front_join_root (p : Path) :
    ∃ front, (p.pieces = front ∨ p.pieces = front ++ [""] ∨ p.text = "") ∧
      ∀ s : String, separator ∉ s.toList →
        (((Path.mk "/").join p).child s).pieces = front ++ [s] := by
  by_cases habsolute : p.isAbsolute = true
  · obtain ⟨front, -, hfront, hchild⟩ := p.exists_front
    refine ⟨front, hfront, ?_⟩
    rwa [join, if_pos habsolute]
  · have hjoin : (Path.mk "/").join p = ⟨"/" ++ p.text⟩ := by
      rw [join, if_neg habsolute]
      rfl
    have htext : ((Path.mk "/").join p).text.toList = separator :: p.text.toList := by
      rw [hjoin]
      exact String.toList_append
    have hpieces : ((Path.mk "/").join p).pieces = p.pieces :=
      (pieces_of_absolute htext).trans (pieces_of_relative (mt beq_iff_eq.2 habsolute)).symm
    obtain ⟨front, -, hfront, hchild⟩ := ((Path.mk "/").join p).exists_front
    refine ⟨front, ?_, hchild⟩
    rw [hpieces] at hfront
    rcases hfront with hsame | hmore | hempty
    · exact .inl hsame
    · exact .inr (.inl hmore)
    · rw [hempty] at htext
      cases htext

end Path

namespace Device

open Disk

variable {d : Disk} {folder place : Path} {content : Bytes}

/-- The name of a temporary file goes into the folder that it is created in. -/
theorem walkToLast_temporaryIn (h : d.isFolder folder = true) :
    d.walkToLast (temporaryIn folder) =
      (checkPath (temporaryIn folder)).map fun _ => .named folder.place ".tmpXXXXXX" false := by
  obtain ⟨front, hfront, hchild⟩ := folder.exists_front_join_root
  have hpieces : (temporaryIn folder).pieces = front ++ [".tmpXXXXXX"] := hchild _ (by decide)
  have hwalk := walkFrom_front hfront h
  have hfolder := (isFolder_eq_true_iff.1 h).2
  have hname : (".tmpXXXXXX" == "") = false ∧ (".tmpXXXXXX" == ".") = false ∧
      (".tmpXXXXXX" == "..") = false := by decide
  unfold walkToLast
  cases checkPath (temporaryIn folder) with
  | error e => rfl
  | ok _ =>
    simp only [hpieces, List.reverse_append, List.reverse_singleton, List.singleton_append,
      List.dropWhile_cons, hname, Bool.false_eq_true, if_false, List.reverse_reverse, hwalk, bind,
      Except.bind, hfolder, Except.map]
    rfl

/-- A temporary file can be created in a folder that is there when its path is not too long. -/
theorem createTemporary_eq (h : d.isFolder folder = true) :
    createTemporary d folder place =
      (checkPath (temporaryIn folder)).mapError (aboutTemporary folder) := by
  show Except.mapError _ (Except.map _ (d.walkToLast (temporaryIn folder))) = _
  rw [walkToLast_temporaryIn h]
  cases checkPath (temporaryIn folder) <;> rfl

theorem createTemporary_eq_ok_iff [Device] (h : d.isFolder folder = true) :
    createTemporary d folder place = .ok () ↔
      fault? d (.createTemporary folder place) = none ∧ checkPath (temporaryIn folder) = .ok () := by
  rw [createTemporary, mapError_eq_ok_iff, asWhole_eq_ok_iff, walkToLast_temporaryIn h]
  refine and_congr_right fun _ => ?_
  cases checkPath (temporaryIn folder) <;> simp [Except.map]

theorem fillTemporary_eq_ok_iff [Device] : fillTemporary d folder place content = .ok () ↔
    fault? d (.fillTemporary folder place content) = none := by
  rw [fillTemporary, mapError_eq_ok_iff, asWhole_eq_ok_iff, and_iff_left rfl]

/-! ## Changes that are not left half-done -/

section Whole

/-- When the change fails, its file has not been touched, or all of the content has been written. -/
def Whole [Device] (d : Disk) (c : Change) (content : Bytes) : Prop :=
  ∀ fault n, fault? d c = some fault → fault.written = some n → content.length ≤ n

variable [Device] {p q target : Path} {finished : Disk} {c : Change}

theorem disk_inPlace_of_whole (hwhole : Whole d c content)
    (hwrite : d.writeFile target content = .ok finished) :
    (inPlace d c target (.ok finished)).2 = d ∨ (inPlace d c target (.ok finished)).2 = finished := by
  unfold inPlace
  cases hfault : fault? d c with
  | none => exact .inr rfl
  | some fault =>
    dsimp only
    unfold halfDone
    rw [readFile_of_writeFile hwrite]
    cases hwritten : fault.written with
    | none => exact .inl rfl
    | some n =>
      dsimp only
      rw [List.take_of_length_le (hwhole fault n hfault hwritten), hwrite]
      exact .inr rfl

theorem disk_writeFile_of_whole (hwhole : Whole d (.writeFile p content) content) :
    (Device.writeFile d p content).2 = d ∨
      d.writeFile p content = .ok (Device.writeFile d p content).2 := by
  unfold Device.writeFile
  cases hwrite : d.writeFile p content with
  | error e => exact .inl rfl
  | ok finished =>
    exact (disk_inPlace_of_whole hwhole hwrite).imp_right fun hdone => congrArg Except.ok hdone.symm

theorem disk_copyFile_of_whole (hne : ∀ d', d.copyFile p q = .ok d' → p.place ≠ q.place)
    (hwhole : ∀ content, d.readFile p = .ok content → Whole d (.copyFile p q) content) :
    (Device.copyFile d p q).2 = d ∨ d.copyFile p q = .ok (Device.copyFile d p q).2 := by
  unfold Device.copyFile
  cases hcopy : d.copyFile p q with
  | error e => exact .inl rfl
  | ok finished =>
    obtain ⟨content, hread, hwrite⟩ := (copyFile_eq_ok_iff (hne _ hcopy)).1 hcopy
    exact (disk_inPlace_of_whole (hwhole content hread) hwrite).imp_right fun hdone =>
      congrArg Except.ok hdone.symm

end Whole

end Device

end CilGraft
