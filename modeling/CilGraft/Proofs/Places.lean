import CilGraft.Disk.Device
import CilGraft.Steps

/-!
# Places on a disk

A disk has no links, so the text of a path alone says to which names it leads. What an access does
is said by its place, and what it leaves alone is all the rest.

* `Path.place` — the names to which a path leads; `walk_eq_place`.
* `Disk.Passes`, `walkFrom_cons_eq_ok_iff` — what a walk does with one piece of a path.
* `Disk.EndsIn` — the last name of a path and the folder in which it stands.
* `exists_place_append`, `place_child` — a path with a text or a name behind it.
* `Disk.ChangesOnly` — what is outside of some places stays; folders may be new.
* `writeFile_eq_ok`, `copyFile_eq_ok`, … — what an access has done that succeeded.
* `changesOnly_writeFile`, … — what it has left alone.
* `Device.disk_writeFile`, `Device.disk_copyFile` — what is on a disk when a device has been asked to change
  a file.
* `Path.folders`, `disk_createFolders` — the folders that are created with a folder.
-/

set_option autoImplicit false

namespace CilGraft

/-! ## Pieces of a text -/

namespace Text

variable {p : Char → Bool}

theorem pieces_cons_of_not {c : Char} (h : p c = false) {s w : List Char} {ws : List (List Char)}
    (hs : pieces p s = w :: ws) : pieces p (c :: s) = (c :: w) :: ws := by
  rw [pieces, if_neg (Bool.eq_false_iff.1 h), hs]

/-- A text has a last piece, and what is put behind the text goes there unless it is cut. -/
theorem exists_pieces_append (p : Char → Bool) (s : List Char) :
    ∃ front last, pieces p s = front ++ [last] ∧
      ∀ t, (∀ c ∈ t, p c = false) → pieces p (s ++ t) = front ++ [last ++ t] := by
  induction s with
  | nil =>
    refine ⟨[], [], rfl, fun t ht => ?_⟩
    induction t with
    | nil => rfl
    | cons c t ih =>
      obtain ⟨hc, ht⟩ := List.forall_mem_cons.1 ht
      exact pieces_cons_of_not hc (ih ht)
  | cons c s ih =>
    obtain ⟨front, last, hs, hmore⟩ := ih
    cases hc : p c with
    | true =>
      refine ⟨[] :: front, last, ?_, fun t ht => ?_⟩
      · rw [pieces, if_pos hc, hs, List.cons_append]
      · rw [List.cons_append, pieces, if_pos hc, hmore t ht, List.cons_append]
    | false =>
      cases front with
      | nil =>
        exact ⟨[], c :: last, pieces_cons_of_not hc hs,
          fun t ht => pieces_cons_of_not hc (hmore t ht)⟩
      | cons w front =>
        exact ⟨(c :: w) :: front, last, pieces_cons_of_not hc hs,
          fun t ht => pieces_cons_of_not hc (hmore t ht)⟩

theorem exists_pieces_eq_cons (p : Char → Bool) (s : List Char) : ∃ w ws, pieces p s = w :: ws := by
  obtain ⟨front, last, hs, -⟩ := exists_pieces_append p s
  cases front with
  | nil => exact ⟨_, _, hs⟩
  | cons w front => exact ⟨_, _, hs⟩

/-- A cut starts a new piece. -/
theorem pieces_append_cons {c : Char} (hc : p c = true) (s t : List Char) :
    pieces p (s ++ c :: t) = pieces p s ++ pieces p t := by
  induction s with
  | nil => exact if_pos hc
  | cons d s ih =>
    cases hd : p d with
    | true => rw [List.cons_append, pieces, if_pos hd, ih, pieces, if_pos hd, List.cons_append]
    | false =>
      obtain ⟨w, ws, hs⟩ := exists_pieces_eq_cons p s
      rw [hs, List.cons_append] at ih
      rw [List.cons_append, pieces_cons_of_not hd ih, pieces_cons_of_not hd hs, List.cons_append]

end Text

/-! ## Places -/

namespace Path

/-- Where a piece of a path leads from a place. -/
def descend (at_ : Names) (piece : String) : Names :=
  if isIdle piece then at_ else if piece == ".." then at_.dropLast else at_ ++ [piece]

/-- Where a path leads, by its text alone. -/
def place (p : Path) : Names := p.pieces.foldl descend []

theorem descend_of_isIdle {at_ : Names} {s : String} (h : isIdle s = true) :
    descend at_ s = at_ := if_pos h

theorem descend_of_name {at_ : Names} {s : String} (hidle : isIdle s = false) (hparent : s ≠ "..") :
    descend at_ s = at_ ++ [s] := by
  rw [descend, if_neg (Bool.eq_false_iff.1 hidle), if_neg (mt beq_iff_eq.1 hparent)]

/-- A name that leads into a folder is known from its place. -/
theorem eq_of_descend_eq {at_ : Names} {s t : String} (h : descend at_ s = at_ ++ [t]) : s = t := by
  unfold descend at h
  split at h
  · have hlength := congrArg List.length h
    simp at hlength
  · split at h
    · have hlength := congrArg List.length h
      rw [List.length_dropLast, List.length_append, List.length_singleton] at hlength
      omega
    · exact List.singleton_inj.1 (List.append_cancel_left h)

theorem descend_cases (at_ : Names) (s : String) :
    descend at_ s = at_ ∨ descend at_ s = at_.dropLast ∨ descend at_ s = at_ ++ [s] := by
  unfold descend
  split
  · exact .inl rfl
  · split
    · exact .inr (.inl rfl)
    · exact .inr (.inr rfl)

theorem isSeparator_eq_false {s : List Char} (h : separator ∉ s) :
    ∀ c ∈ s, (c == separator) = false := by
  intro c hc
  rw [beq_eq_false_iff_ne]
  rintro rfl
  exact h hc

/-- The pieces of an absolute path are those behind its mark. -/
theorem pieces_of_absolute {p : Path} {rest : List Char} (h : p.text.toList = separator :: rest) :
    p.pieces = (Text.pieces (· == separator) rest).map String.ofList := by
  have habsolute : p.isAbsolute = true := by
    rw [isAbsolute, h, List.head?_cons]
    rfl
  rw [pieces, if_pos habsolute, h, Text.pieces, if_pos (beq_self_eq_true _), List.map_cons,
    List.drop_succ_cons, List.drop_zero]

theorem pieces_of_relative {p : Path} (h : p.text.toList.head? ≠ some separator) :
    p.pieces = (Text.pieces (· == separator) p.text.toList).map String.ofList := by
  have hrelative : ¬ p.isAbsolute = true := mt beq_iff_eq.1 h
  rw [pieces, if_neg hrelative]

/-- A text without separators behind a path goes to its last piece. -/
theorem exists_pieces_append (t : String) :
    ∃ front last, ∀ s : String, separator ∉ s.toList →
      (Path.mk (t ++ s)).pieces = front ++ [last ++ s] := by
  have hlift : ∀ u : List Char, ∃ front last, ∀ s : String, separator ∉ s.toList →
      (Text.pieces (· == separator) (u ++ s.toList)).map String.ofList = front ++ [last ++ s] := by
    intro u
    obtain ⟨front, last, -, hmore⟩ := Text.exists_pieces_append (· == separator) u
    refine ⟨front.map String.ofList, String.ofList last, fun s hs => ?_⟩
    rw [hmore s.toList (isSeparator_eq_false hs), List.map_append, List.map_singleton,
      String.ofList_append, String.ofList_toList]
  by_cases habsolute : t.toList.head? = some separator
  · obtain ⟨rest, ht⟩ := List.head?_eq_some_iff.1 habsolute
    obtain ⟨front, last, hmore⟩ := hlift rest
    refine ⟨front, last, fun s hs => ?_⟩
    have htext : (t ++ s).toList = separator :: (rest ++ s.toList) := by
      rw [String.toList_append, ht, List.cons_append]
    rw [pieces_of_absolute htext, hmore s hs]
  · obtain ⟨front, last, hmore⟩ := hlift t.toList
    refine ⟨front, last, fun s hs => ?_⟩
    have hrelative : (t ++ s).toList.head? ≠ some separator := by
      rw [String.toList_append]
      cases ht : t.toList with
      | nil =>
        intro hhead
        exact hs (List.mem_of_mem_head? hhead)
      | cons c rest =>
        rw [ht] at habsolute
        exact habsolute
    rw [pieces_of_relative hrelative, String.toList_append, hmore s hs]

/-- The place of a path with a text behind it: the text goes to the last name. -/
theorem exists_place_append (t : String) :
    ∃ front last, ∀ s : String, separator ∉ s.toList →
      (Path.mk (t ++ s)).place = descend front (last ++ s) := by
  obtain ⟨front, last, hmore⟩ := exists_pieces_append t
  refine ⟨front.foldl descend [], last, fun s hs => ?_⟩
  rw [place, hmore s hs, List.foldl_append, List.foldl_cons, List.foldl_nil]

/-- What stands behind a separator has its pieces behind those in front of it. -/
theorem exists_pieces_append_separator (t : String) :
    ∃ front, front.foldl descend [] = (Path.mk t).place ∧ (t ≠ "" → front = (Path.mk t).pieces) ∧
      ∀ s : String, (Path.mk (t ++ "/" ++ s)).pieces =
        front ++ (Text.pieces (· == separator) s.toList).map String.ofList := by
  have htext : ∀ s : String, (t ++ "/" ++ s).toList = t.toList ++ separator :: s.toList := by
    intro s
    rw [String.toList_append, String.toList_append, List.append_assoc]
    rfl
  have hcut := Text.pieces_append_cons (p := (· == separator)) (beq_self_eq_true separator)
  cases ht : t.toList with
  | nil =>
    obtain rfl : t = "" := String.toList_injective ht
    exact ⟨[], rfl, fun hne => absurd rfl hne, fun s => pieces_of_absolute (htext s)⟩
  | cons c rest =>
    refine ⟨(Path.mk t).pieces, rfl, fun _ => rfl, fun s => ?_⟩
    have htext := htext s
    rw [ht, List.cons_append] at htext
    by_cases hc : c = separator
    · subst hc
      rw [pieces_of_absolute htext, hcut, List.map_append, pieces_of_absolute ht]
    · have hrelative : (t ++ "/" ++ s).toList.head? ≠ some separator := by
        rw [htext]
        exact mt Option.some.inj hc
      have hrelative' : t.toList.head? ≠ some separator := by
        rw [ht]
        exact mt Option.some.inj hc
      rw [pieces_of_relative hrelative, htext, ← List.cons_append, hcut, List.map_append,
        pieces_of_relative hrelative', ht]

theorem pieces_of_whole {s : List Char} (h : separator ∉ s) :
    Text.pieces (· == separator) s = [s] := by
  induction s with
  | nil => rfl
  | cons c s ih =>
    obtain ⟨hc, hs⟩ := List.ne_and_not_mem_of_not_mem_cons h
    have hkept : (c == separator) = false := beq_eq_false_iff_ne.2 (Ne.symm hc)
    exact Text.pieces_cons_of_not (p := (· == separator)) hkept (ih hs)

/-- A text without separators is the last piece of a path at whose end it stands. The pieces in front
of it are those of the path, but for an empty one at its end. -/
theorem exists_front (p : Path) :
    ∃ front, front.foldl descend [] = p.place ∧
      (p.pieces = front ∨ p.pieces = front ++ [""] ∨ p.text = "") ∧
      ∀ s : String, separator ∉ s.toList → (p.child s).pieces = front ++ [s] := by
  have hwhole : ∀ s : String, separator ∉ s.toList →
      (Text.pieces (· == separator) s.toList).map String.ofList = [s] := by
    intro s hs
    rw [pieces_of_whole hs, List.map_singleton, String.ofList_toList]
  have hhead : ∀ s : String, separator ∉ s.toList → s.toList.head? ≠ some separator :=
    fun s hs hhead => hs (List.mem_of_mem_head? hhead)
  have hchild : ∀ s : String, separator ∉ s.toList →
      p.child s = ⟨p.text ++
        (if p.text == "" || p.text.toList.getLast? == some separator then "" else "/") ++ s⟩ := by
    intro s hs
    have hrelative : ¬ (Path.mk s).isAbsolute = true := mt beq_iff_eq.1 (hhead s hs)
    rw [child, join, if_neg hrelative]
  obtain ⟨t⟩ := p
  by_cases hgap : (t == "" || t.toList.getLast? == some separator) = true
  · simp only [hgap, if_true, String.append_empty] at hchild
    rw [Bool.or_eq_true] at hgap
    rcases hgap with hempty | hend
    · obtain rfl := beq_iff_eq.1 hempty
      refine ⟨[], rfl, .inr (.inr rfl), fun s hs => ?_⟩
      rw [hchild s hs, String.empty_append]
      exact (pieces_of_relative (hhead s hs)).trans (hwhole s hs)
    · obtain ⟨before, hbefore⟩ := List.getLast?_eq_some_iff.1 (beq_iff_eq.1 hend)
      obtain rfl : t = String.ofList before ++ "/" := by
        apply String.toList_injective
        rw [hbefore, String.toList_append, String.toList_ofList]
        rfl
      -- a separator at the end of a path does not lead anywhere else
      obtain ⟨front, hplace, -, hpieces⟩ :=
        exists_pieces_append_separator (String.ofList before)
      have hself := hpieces ""
      rw [String.append_empty, hwhole "" (by decide)] at hself
      refine ⟨front, ?_, .inr (.inl hself), fun s hs => ?_⟩
      · rw [place, hself, List.foldl_append]
        rfl
      · rw [hchild s hs, hpieces s, hwhole s hs]
  · simp only [hgap, if_false, Bool.false_eq_true] at hchild
    obtain ⟨front, hplace, hsame, hpieces⟩ := exists_pieces_append_separator t
    have hne : t ≠ "" := by
      rintro rfl
      exact hgap rfl
    refine ⟨front, hplace, .inl (hsame hne).symm, fun s hs => ?_⟩
    rw [hchild s hs, hpieces s, hwhole s hs]

theorem exists_pieces_child (p : Path) {s : String} (hs : separator ∉ s.toList) :
    ∃ front, front.foldl descend [] = p.place ∧ (p.child s).pieces = front ++ [s] := by
  obtain ⟨front, hplace, -, hpieces⟩ := p.exists_front
  exact ⟨front, hplace, hpieces s hs⟩

/-- The place of a text without separators seen from a path. -/
theorem place_child (p : Path) {s : String} (hs : separator ∉ s.toList) :
    (p.child s).place = descend p.place s := by
  obtain ⟨front, hplace, hpieces⟩ := p.exists_pieces_child hs
  rw [place, hpieces, List.foldl_append, hplace]
  rfl

/-- A text without separators is known from the path at whose end it stands. -/
theorem eq_of_child_eq {p : Path} {s t : String} (hs : separator ∉ s.toList)
    (ht : separator ∉ t.toList) (h : p.child s = p.child t) : s = t := by
  obtain ⟨front, -, hpieces⟩ := p.exists_pieces_child hs
  obtain ⟨front', -, hpieces'⟩ := p.exists_pieces_child ht
  rw [h, hpieces'] at hpieces
  exact (List.singleton_inj.1 (List.append_inj' hpieces rfl).2).symm

/-- Different texts lead to one place only when they lead nowhere. -/
theorem place_child_eq_of_ne {p : Path} {s t : String} (hs : separator ∉ s.toList)
    (ht : separator ∉ t.toList) (hne : s ≠ t) (h : (p.child s).place = (p.child t).place) :
    (p.child s).place = p.place := by
  rw [place_child p hs, place_child p ht] at h
  rw [place_child p hs]
  rcases Bool.eq_false_or_eq_true (isIdle s) with hidle | hidle
  · exact descend_of_isIdle hidle
  rcases Bool.eq_false_or_eq_true (isIdle t) with hidle' | hidle'
  · exact h.trans (descend_of_isIdle hidle')
  by_cases hparent : s = ".."
  · have hparent' : t ≠ ".." := fun h' => hne (hparent.trans h'.symm)
    exact absurd (eq_of_descend_eq (h.trans (descend_of_name hidle' hparent'))) hne
  · exact absurd (eq_of_descend_eq (h.symm.trans (descend_of_name hidle hparent))).symm hne

end Path

/-! ## What an access does -/

namespace Disk

variable {d d' : Disk} {p q : Path} {n m : Names} {e : Entry}

/-- The names of the entries stay when one of them is replaced. -/
theorem fst_replaced (n : Names) (e : Entry) (x : Names × Entry) :
    (if x.1 == n then (n, e) else x).1 = x.1 := by
  split
  · rename_i h
    exact (beq_iff_eq.1 h).symm
  · rfl

theorem entry?_put (e : Entry) (hn : n ≠ []) : Disk.entry? (d.put n e) n = some e := by
  rw [ entry?, if_neg hn, put]
  split
  · rename_i hany
    obtain ⟨x, hx⟩ := Option.isSome_iff_exists.1 (List.find?_isSome.2 (List.any_eq_true.1 hany))
    have hkey := List.find?_some hx
    simp only [List.find?_map, Function.comp_def, fst_replaced, hx, Option.map_some, if_pos hkey]
  · rename_i hnone
    have hmissing : d.entries.find? (·.1 == n) = none := by
      rw [List.find?_eq_none]
      exact fun x hx hkey => hnone (List.any_eq_true.2 ⟨x, hx, hkey⟩)
    simp [List.find?_append, hmissing]

theorem entry?_put_of_ne (e : Entry) (h : m ≠ n) :
    Disk.entry? (d.put n e) m = d.entry? m := by
  rw [ entry?, entry?, put]
  split
  · rfl
  · split
    · simp only [List.find?_map, Function.comp_def, fst_replaced, Option.map_map]
      cases hfind : d.entries.find? (·.1 == m) with
      | none => rfl
      | some x =>
        have hfound := List.find?_some hfind
        have hkey : x.1 = m := beq_iff_eq.1 hfound
        have hother : ¬ (x.1 == n) = true := by
          rw [beq_iff_eq, hkey]
          exact h
        simp only [Option.map_some, if_neg hother]
    · simp [List.find?_append, Ne.symm h]

/-- What a walk does with one piece of a path when it stands in a folder. -/
inductive Passes (d : Disk) (at_ : Names) (piece : String) : Names → Prop
  | stays (idle : Path.isIdle piece = true) : Passes d at_ piece at_
  | up (named : Path.isIdle piece = false) (parent : piece = "..") : Passes d at_ piece at_.dropLast
  | down (named : Path.isIdle piece = false) (ne_parent : piece ≠ "..")
      (size_le : piece.utf8ByteSize ≤ maxName) (there : (d.entry? (at_ ++ [piece])).isSome = true) :
      Passes d at_ piece (at_ ++ [piece])

theorem Passes.eq_descend {at_ : Names} {piece : String} (h : d.Passes at_ piece n) :
    n = Path.descend at_ piece := by
  cases h with
  | stays idle => exact (Path.descend_of_isIdle idle).symm
  | up named parent =>
    rw [Path.descend, if_neg (Bool.eq_false_iff.1 named), if_pos (beq_iff_eq.2 parent)]
  | down named ne_parent _ _ => exact (Path.descend_of_name named ne_parent).symm

/-- A walk succeeds piece by piece, and each piece is passed from a folder. -/
theorem walkFrom_cons_eq_ok_iff {at_ : Names} {piece : String} {ps : List String} :
    d.walkFrom at_ (piece :: ps) = .ok n ↔
      d.isFolderAt at_ = true ∧ ∃ next, d.Passes at_ piece next ∧ d.walkFrom next ps = .ok n := by
  rw [walkFrom]
  constructor
  · intro h
    split at h
    · cases h
    · rename_i hfolder
      refine ⟨by simpa using hfolder, ?_⟩
      split at h
      · exact ⟨_, .stays ‹_›, h⟩
      · rename_i hidle
        rw [Bool.not_eq_true] at hidle
        split at h
        · exact ⟨_, .up hidle (beq_iff_eq.1 ‹_›), h⟩
        · rename_i hparent
          split at h
          · cases h
          · rename_i hsize
            split at h
            · exact ⟨_, .down hidle (mt beq_iff_eq.2 hparent) (Nat.not_lt.1 hsize) ‹_›, h⟩
            · cases h
  · rintro ⟨hfolder, next, hpasses, h⟩
    rw [hfolder, Bool.not_true, if_neg Bool.false_ne_true]
    cases hpasses with
    | stays idle => rwa [if_pos idle]
    | up named parent => rwa [named, if_neg Bool.false_ne_true, if_pos (beq_iff_eq.2 parent)]
    | down named ne_parent size_le there =>
      rwa [named, if_neg Bool.false_ne_true, if_neg (mt beq_iff_eq.1 ne_parent),
        if_neg (Nat.not_lt.2 size_le), if_pos there]

theorem walkFrom_eq_place {at_ : Names} {ps : List String} (h : d.walkFrom at_ ps = .ok n) :
    n = ps.foldl Path.descend at_ := by
  induction ps generalizing at_ with
  | nil =>
    cases h
    rfl
  | cons piece ps ih =>
    obtain ⟨-, next, hpasses, h⟩ := walkFrom_cons_eq_ok_iff.1 h
    rw [List.foldl_cons, ← hpasses.eq_descend]
    exact ih h

/-- A path leads to its place, if it leads anywhere. -/
theorem walk_eq_place (h : d.walk p = .ok n) : n = p.place := by
  obtain ⟨-, -, h⟩ := bind_eq_ok_iff.1 h
  exact walkFrom_eq_place h

theorem entry?_of_at? (h : d.at? p = .ok e) : d.entry? p.place = some e := by
  obtain ⟨n, hwalk, h⟩ := bind_eq_ok_iff.1 h
  obtain rfl := walk_eq_place hwalk
  split at h
  · rename_i e' he
    cases h
    exact he
  · cases h

theorem exists_of_isFile (h : d.isFile p = true) : ∃ c, d.entry? p.place = some (.file c) := by
  unfold isFile at h
  split at h
  · rename_i c hc
    exact ⟨c, entry?_of_at? hc⟩
  · cases h

theorem exists_of_exists_ (h : d.exists_ p = true) : ∃ e, d.entry? p.place = some e := by
  unfold exists_ at h
  split at h
  · rename_i e he
    exact ⟨e, entry?_of_at? he⟩
  · cases h

/-- The last name of a path, behind which there are separators at most, and the folder in which it
stands. -/
structure EndsIn (d : Disk) (p : Path) (folder : Names) (name : String) (asFolder : Bool) : Prop where
  path : checkPath p = .ok ()
  pieces : ∃ front behind, p.pieces = front ++ name :: behind ∧ (∀ s ∈ behind, s = "") ∧
    asFolder = !behind.isEmpty ∧ d.walkFrom [] front = .ok folder
  isFolder : d.isFolderAt folder = true
  isIdle : Path.isIdle name = false
  ne_parent : name ≠ ".."

/-- The last piece that is not empty, with the empty ones behind it. -/
theorem exists_of_dropWhile_reverse {ps front : List String} {last : String}
    (h : ps.reverse.dropWhile (· == "") = last :: front) :
    last ≠ "" ∧ ∃ behind, ps = front.reverse ++ last :: behind ∧ (∀ s ∈ behind, s = "") ∧
      (ps.reverse.head? == some "") = !behind.isEmpty := by
  have hlast : last ≠ "" := by
    have hhead := List.head?_dropWhile_not (· == "") ps.reverse
    rw [h] at hhead
    simpa using hhead
  have hempty : ∀ s ∈ ps.reverse.takeWhile (· == ""), s = "" := fun s hs =>
    beq_iff_eq.1 (List.all_eq_true.1 List.all_takeWhile s hs)
  have hcut := List.takeWhile_append_dropWhile (p := (· == "")) (l := ps.reverse)
  rw [h] at hcut
  refine ⟨hlast, (ps.reverse.takeWhile (· == "")).reverse, ?_, ?_, ?_⟩
  · simpa using (congrArg List.reverse hcut).symm
  · exact fun s hs => hempty s (List.mem_reverse.1 hs)
  · rw [List.isEmpty_reverse]
    cases htake : ps.reverse.takeWhile (· == "") with
    | nil =>
      rw [htake] at hcut
      rw [← hcut]
      simpa using hlast
    | cons s behind =>
      rw [htake] at hcut hempty
      rw [← hcut, hempty s List.mem_cons_self]
      rfl

theorem endsIn_of_walkToLast {folder : Names} {name : String} {asFolder : Bool}
    (h : d.walkToLast p = .ok (.named folder name asFolder)) : d.EndsIn p folder name asFolder := by
  obtain ⟨⟨⟩, hpath, h⟩ := bind_eq_ok_iff.1 h
  dsimp only at h
  split at h
  · cases h
  · rename_i last front hback
    obtain ⟨hlast, behind, hpieces, hbehind, hhead⟩ := exists_of_dropWhile_reverse hback
    obtain ⟨folder', hwalk, h⟩ := bind_eq_ok_iff.1 h
    split at h
    · cases h
    · rename_i hfolder
      split at h
      · cases h
      · rename_i hdot
        split at h
        · cases h
        · rename_i hparent
          cases h
          have hidle : Path.isIdle name = false := by
            rw [Path.isIdle, Bool.or_eq_false_iff]
            exact ⟨beq_eq_false_iff_ne.2 hlast, Bool.eq_false_iff.2 hdot⟩
          exact ⟨hpath, ⟨_, behind, hpieces, hbehind, hhead, hwalk⟩, by simpa using hfolder, hidle,
            mt beq_iff_eq.2 hparent⟩

/-- The last name of a path is that of its place. -/
theorem EndsIn.place_eq {folder : Names} {name : String} {asFolder : Bool}
    (h : d.EndsIn p folder name asFolder) : p.place = folder ++ [name] := by
  obtain ⟨front, behind, hpieces, hbehind, -, hwalk⟩ := h.pieces
  -- the pieces behind the last name are empty, and lead nowhere
  have hstay : ∀ at_ : Names, behind.foldl Path.descend at_ = at_ := by
    intro at_
    clear hpieces
    induction behind with
    | nil => rfl
    | cons s behind ih =>
      obtain ⟨rfl, hrest⟩ := List.forall_mem_cons.1 hbehind
      exact ih hrest
  rw [Path.place, hpieces, List.foldl_append, ← walkFrom_eq_place hwalk, List.foldl_cons, hstay,
    Path.descend_of_name h.isIdle h.ne_parent]

theorem writeFile_eq_ok {c : Bytes} (h : d.writeFile p c = .ok d') :
    d' = d.put p.place (.file c) ∧ p.place ≠ [] ∧ d.entry? p.place ≠ some .folder := by
  obtain ⟨last, hlast, h⟩ := bind_eq_ok_iff.1 h
  split at h
  · cases h
  · cases h
  · rename_i folder name
    obtain ⟨-, -, h⟩ := bind_eq_ok_iff.1 h
    rw [(endsIn_of_walkToLast hlast).place_eq]
    split at h
    · cases h
    · rename_i hfolder
      cases h
      exact ⟨rfl, by simp, fun hentry => hfolder (beq_iff_eq.2 hentry)⟩

theorem replaceFile_eq_ok {c : Bytes} (h : d.replaceFile p c = .ok d') :
    d' = d.put p.place (.file c) ∧ p.place ≠ [] ∧ d.entry? p.place ≠ some .folder := by
  obtain ⟨last, hlast, h⟩ := bind_eq_ok_iff.1 h
  split at h
  · cases h
  · rename_i folder name asFolder
    obtain ⟨-, -, h⟩ := bind_eq_ok_iff.1 h
    have hwalk : d.walkToLast p = .ok (.named folder name asFolder) := by
      cases hw : d.walkToLast p with
      | error e =>
        rw [hw] at hlast
        cases hlast
      | ok last =>
        rw [hw] at hlast
        cases hlast
        rfl
    rw [(endsIn_of_walkToLast hwalk).place_eq]
    split at h
    · cases h
    · split at h
      · cases h
      · rename_i hfolder
        cases h
        exact ⟨rfl, by simp, fun hentry => hfolder (beq_iff_eq.2 hentry)⟩

theorem createFolder_eq_ok (h : d.createFolder p = .ok d') :
    d' = d.put p.place .folder ∧ p.place ≠ [] ∧ d.entry? p.place = none := by
  obtain ⟨last, hlast, h⟩ := bind_eq_ok_iff.1 h
  split at h
  · cases h
  · rename_i folder name asFolder
    obtain ⟨-, -, h⟩ := bind_eq_ok_iff.1 h
    rw [(endsIn_of_walkToLast hlast).place_eq]
    split at h
    · cases h
    · rename_i hnone
      cases h
      exact ⟨rfl, by simp, Option.not_isSome_iff_eq_none.1 hnone⟩

/-- A copy has the content of its source, unless a file is copied onto itself. -/
theorem copyFile_eq_ok (h : d.copyFile p q = .ok d') :
    ∃ c c', d.entry? p.place = some (.file c) ∧ (p.place ≠ q.place → c' = c) ∧
      q.place ≠ [] ∧ d.entry? q.place ≠ some .folder ∧ d' = d.put q.place (.file c') := by
  obtain ⟨e, he, h⟩ := bind_eq_ok_iff.1 h
  split at h
  · cases h
  · rename_i c
    obtain ⟨emptied, hempty, h⟩ := bind_eq_ok_iff.1 h
    obtain ⟨rfl, hroot, hfolder⟩ := writeFile_eq_ok hempty
    obtain ⟨rfl, -, -⟩ := writeFile_eq_ok h
    refine ⟨c, _, entry?_of_at? he, fun hne => if_neg ?_, hroot, hfolder, rfl⟩
    intro honto
    obtain ⟨n, hwalk, -⟩ := bind_eq_ok_iff.1 he
    have hsame := beq_iff_eq.1 honto
    rw [hwalk] at hsame
    cases htarget : (d.put q.place (.file [])).walk q with
    | error e =>
      rw [htarget] at hsame
      cases hsame
    | ok n' =>
      rw [htarget] at hsame
      obtain rfl : n = n' := Option.some.inj hsame
      exact hne ((walk_eq_place hwalk).symm.trans (walk_eq_place htarget))

theorem exists_writeFile_of_copyFile (h : d.copyFile p q = .ok d') :
    ∃ content, d.writeFile q content = .ok d' := by
  obtain ⟨e, -, h⟩ := bind_eq_ok_iff.1 h
  split at h
  · cases h
  · obtain ⟨emptied, -, h⟩ := bind_eq_ok_iff.1 h
    exact ⟨_, h⟩

/-! ## What an access leaves alone -/

/-- The second disk has the entries of the first outside of some places. It may have more folders. -/
structure ChangesOnly (at_ : Names → Prop) (d d' : Disk) : Prop where
  kept : ∀ n e, ¬ at_ n → d.entry? n = some e → d'.entry? n = some e
  new : ∀ n, ¬ at_ n → d.entry? n = none → d'.entry? n = none ∨ d'.entry? n = some .folder

section Frames

variable {at_ at' : Names → Prop} {d'' : Disk}

theorem ChangesOnly.refl (at_ : Names → Prop) (d : Disk) : ChangesOnly at_ d d :=
  ⟨fun _ _ _ h => h, fun _ _ h => Or.inl h⟩

theorem ChangesOnly.trans (h : ChangesOnly at_ d d') (h' : ChangesOnly at_ d' d'') :
    ChangesOnly at_ d d'' where
  kept n e hn he := h'.kept n e hn (h.kept n e hn he)
  new n hn hnone := by
    rcases h.new n hn hnone with hnone | hfolder
    · exact h'.new n hn hnone
    · exact Or.inr (h'.kept n _ hn hfolder)

theorem ChangesOnly.mono (h : ChangesOnly at_ d d') (hle : ∀ n, at_ n → at' n) :
    ChangesOnly at' d d' where
  kept n e hn he := h.kept n e (mt (hle n) hn) he
  new n hn hnone := h.new n (mt (hle n) hn) hnone

theorem ChangesOnly.of_none (h : ChangesOnly (fun _ => False) d d') : ChangesOnly at_ d d' :=
  h.mono fun _ hn => hn.elim

/-- Nothing has changed outside of the places. -/
theorem ChangesOnly.of_entries (h : ∀ n, ¬ at_ n → d'.entry? n = d.entry? n) :
    ChangesOnly at_ d d' where
  kept n e hn he := by rw [h n hn, he]
  new n hn hnone := Or.inl (by rw [h n hn, hnone])

/-- There is no file at the names. -/
def Vacant (d : Disk) (n : Names) : Prop := d.entry? n = none ∨ d.entry? n = some .folder

theorem ChangesOnly.vacant (h : ChangesOnly at_ d d') {n : Names} (hn : ¬ at_ n)
    (hvacant : d.Vacant n) : d'.Vacant n := by
  rcases hvacant with hnone | hfolder
  · exact h.new n hn hnone
  · exact Or.inr (h.kept n _ hn hfolder)

theorem Vacant.isFile_eq_false (h : d.Vacant p.place) : d.isFile p = false := by
  rw [← Bool.not_eq_true]
  intro hfile
  obtain ⟨c, hc⟩ := exists_of_isFile hfile
  rcases h with h | h <;> rw [hc] at h <;> cases h

theorem changesOnly_put (d : Disk) (n : Names) (e : Entry) : ChangesOnly (· = n) d (d.put n e) where
  kept m e' hm he := by rw [entry?_put_of_ne e hm, he]
  new m hm hnone := Or.inl (by rw [entry?_put_of_ne e hm, hnone])

theorem changesOnly_writeFile {c : Bytes} (h : d.writeFile p c = .ok d') :
    ChangesOnly (· = p.place) d d' := by
  rw [(writeFile_eq_ok h).1]
  exact changesOnly_put d _ _

theorem changesOnly_replaceFile {c : Bytes} (h : d.replaceFile p c = .ok d') :
    ChangesOnly (· = p.place) d d' := by
  rw [(replaceFile_eq_ok h).1]
  exact changesOnly_put d _ _

/-- A new folder takes the place of nothing. -/
theorem changesOnly_createFolder (h : d.createFolder p = .ok d') :
    ChangesOnly (fun _ => False) d d' := by
  obtain ⟨rfl, hroot, hnone⟩ := createFolder_eq_ok h
  constructor
  · intro n e _ he
    have hne : n ≠ p.place := by
      rintro rfl
      rw [hnone] at he
      cases he
    rw [entry?_put_of_ne _ hne, he]
  · intro n _ hn
    by_cases hne : n = p.place
    · subst hne
      exact Or.inr (entry?_put _ hroot)
    · exact Or.inl (by rw [entry?_put_of_ne _ hne, hn])

end Frames

end Disk

/-! ## Changes through a device -/

namespace Device

/-- A copy that the disk admits is made by a device that never fails. -/
theorem copyFile_of_ok {d d' : Disk} {p q : Path} (h : d.copyFile p q = .ok d') :
    Device.copyFile d p q = (.ok (), d') := by
  unfold Device.copyFile
  rw [h]
  rfl

variable [Device] {d d' finished : Disk} {p q target : Path} {content : Bytes} {c : Change}
  {result : Except DiskError Disk}

theorem eq_ok_of_inPlace (h : inPlace d c target result = (.ok (), d')) : result = .ok d' := by
  unfold inPlace at h
  split at h
  · cases h
  · split at h
    · cases h
      rfl
    · cases h

/-- A change of a file is not made, or it is finished, or the file has a part of its content. -/
theorem disk_inPlace (d : Disk) (c : Change) (target : Path) (result : Except DiskError Disk) :
    (inPlace d c target result).2 = d ∨
    result = .ok (inPlace d c target result).2 ∨
      ∃ part, d.writeFile target part = .ok (inPlace d c target result).2 := by
  unfold inPlace
  split
  · exact .inl rfl
  · split
    · exact .inr (.inl rfl)
    · dsimp only
      unfold halfDone
      split
      · rename_i n whole _ _
        cases hpart : d.writeFile target (whole.take n) with
        | error e => exact .inl rfl
        | ok left => exact .inr (.inr ⟨_, hpart⟩)
      · exact .inl rfl

theorem asWhole_eq_ok_iff {α : Type} {result : Except DiskError α} {a : α} :
    asWhole d c result = .ok a ↔ fault? d c = none ∧ result = .ok a := by
  unfold asWhole
  cases fault? d c <;> simp

theorem writeFile_eq_ok (h : Device.writeFile d p content = (.ok (), d')) :
    d.writeFile p content = .ok d' := eq_ok_of_inPlace h

theorem copyFile_eq_ok (h : Device.copyFile d p q = (.ok (), d')) : d.copyFile p q = .ok d' :=
  eq_ok_of_inPlace h

theorem createFolder_eq_ok {place : Path} (h : Device.createFolder d p place = .ok d') :
    d.createFolder p = .ok d' :=
  (asWhole_eq_ok_iff.1 h).2

theorem replaceFile_eq_ok (h : Device.replaceFile d p content = .ok d') :
    d.replaceFile p content = .ok d' := (asWhole_eq_ok_iff.1 h).2

/-- Writing a file leaves some content in it, or the disk as it is. -/
theorem disk_writeFile (d : Disk) (p : Path) (content : Bytes) : (Device.writeFile d p content).2 = d ∨
    ∃ part, d.writeFile p part = .ok (Device.writeFile d p content).2 := by
  rcases disk_inPlace d (.writeFile p content) p (d.writeFile p content) with hsame | hwhole | hpart
  · exact .inl hsame
  · exact .inr ⟨content, hwhole⟩
  · exact .inr hpart

/-- Copying a file leaves some content in the target, or the disk as it is. -/
theorem disk_copyFile (d : Disk) (p q : Path) : (Device.copyFile d p q).2 = d ∨
    ∃ part, d.writeFile q part = .ok (Device.copyFile d p q).2 := by
  rcases disk_inPlace d (.copyFile p q) q (d.copyFile p q) with hsame | hwhole | hpart
  · exact .inl hsame
  · exact .inr (Disk.exists_writeFile_of_copyFile hwhole)
  · exact .inr hpart

end Device

/-! ## Folders with the folders on the way to them -/

namespace Path

/-- The path and the folders on the way to it, at most `depth` of them. -/
def foldersUpTo : Nat → Path → List Path
  | 0, _ => []
  | depth + 1, p =>
    p :: match p.parent? with
      | none => []
      | some parent => foldersUpTo depth parent

/-- The folders that are created with a folder. -/
def folders (p : Path) : List Path := foldersUpTo (p.pieces.length + 2) p

end Path

namespace Disk

section Folders

variable [Device] {R : Disk → Disk → Prop}

theorem disk_createFoldersUpTo (refl : ∀ d, R d d)
    (trans : ∀ {d d' d''}, R d d' → R d' d'' → R d d'') (place : Path) (depth : Nat) (d : Disk)
    (p : Path)
    (create : ∀ q ∈ p.foldersUpTo depth, ∀ {d d' : Disk}, d.createFolder q = .ok d' → R d d') :
    R d (createFoldersUpTo place depth d p).2 := by
  induction depth generalizing d p with
  | zero => exact refl d
  | succ depth ih =>
    obtain ⟨hself, habove⟩ := List.forall_mem_cons.1 create
    unfold createFoldersUpTo
    split
    · exact refl d
    · split
      · rename_i hd'
        exact hself (Device.createFolder_eq_ok hd')
      · split
        · exact refl d
        · rename_i parent hparent
          rw [hparent] at habove
          have houter := ih d parent habove
          split
          · rename_i hresult
            rwa [hresult] at houter
          · rename_i hresult
            rw [hresult] at houter
            split
            · rename_i hd''
              exact trans houter (hself (Device.createFolder_eq_ok hd''))
            · exact houter
      · exact refl d

/-- **What the creation of each folder on the way keeps is kept when a folder is created with them.** -/
theorem disk_createFolders (refl : ∀ d, R d d) (trans : ∀ {d d' d''}, R d d' → R d' d'' → R d d'')
    (d : Disk) (p place : Path)
    (create : ∀ q ∈ p.folders, ∀ {d d' : Disk}, d.createFolder q = .ok d' → R d d') :
    R d (d.createFolders p place).2 := disk_createFoldersUpTo refl trans place _ d p create

theorem changesOnly_createFolders (d : Disk) (p place : Path) :
    ChangesOnly (fun _ => False) d (d.createFolders p place).2 :=
  disk_createFolders (ChangesOnly.refl _) ChangesOnly.trans d p place fun _ _ =>
    changesOnly_createFolder

/-- **The folders on the way to a folder are created with it, and no others.** -/
theorem entry?_createFolders {n : Names} (d : Disk) (p place : Path)
    (hn : ∀ q ∈ p.folders, q.place ≠ n) :
    Disk.entry? (d.createFolders p place).2 n = d.entry? n := by
  refine disk_createFolders (R := fun d d' => d'.entry? n = d.entry? n) (fun _ => rfl)
    (fun h h' => h'.trans h) d p place fun q hq d d' hd' => ?_
  rw [(createFolder_eq_ok hd').1]
  exact entry?_put_of_ne _ (hn q hq).symm

end Folders

end Disk

end CilGraft
