import CilGraft.Proofs.HeaderGrammar
import CilGraft.Proofs.TargetNames

/-!
# The paths of libraries

The path of a library is resolved by its text alone: its pieces are walked one after the other from
the folder of the source, and a way back stops at the root.  Texts that walk to the same names give
the same path.

* `Path.IsName`, `Path.IsCanonical` — the paths that resolving gives; `place_ofNames`.
* `Path.IsDetour`, `Path.Lengthens` — a path with `./`, with a separator twice, or with a name and the
  way back from it; `walk_of_lengthens`.
* `Path.ups` — ways back; `walk_ups`.
* `Descriptor.libraryPathIn` — the path of a library, seen from any current folder;
  `libraryPathIn_eq`.
-/

set_option autoImplicit false

namespace CilGraft

namespace Path

/-! ## Canonical paths -/

/-- A piece that leads to a place of its own. -/
structure IsName (s : String) : Prop where
  idle : isIdle s = false
  parent : s ≠ ".."
  whole : separator ∉ s.toList

/-- An absolute path whose components are names, and nothing else: it has neither `.` nor `..`, and
no separator without need. -/
def IsCanonical (p : Path) : Prop :=
  ∃ names : List String, (∀ n ∈ names, IsName n) ∧ p = ofNames names ∧ p.isAbsolute = true ∧
    p.components = .root :: names.map .name

section Canonical

variable {names at_ : Names}

theorem IsName.descend_eq {s : String} (h : IsName s) (at_ : Names) : descend at_ s = at_ ++ [s] :=
  descend_of_name h.idle h.parent

/-- A walk from names leads to names. -/
theorem isName_of_mem_walk (h : ∀ n ∈ at_, IsName n) (text : List Char) :
    ∀ n ∈ walk at_ text, IsName n := by
  have hpieces : ∀ s ∈ (Text.pieces (· == separator) text).map String.ofList,
      separator ∉ s.toList := by
    intro s hs
    obtain ⟨w, hw, rfl⟩ := List.mem_map.1 hs
    rw [String.toList_ofList]
    intro hmem
    have hkept := Text.not_of_mem_pieces hw hmem
    rw [beq_self_eq_true] at hkept
    cases hkept
  rw [walk]
  -- The names stay names with every piece.
  generalize (Text.pieces (· == separator) text).map String.ofList = ps at hpieces
  induction ps generalizing at_ with
  | nil => exact h
  | cons s ps ih =>
    obtain ⟨hs, hps⟩ := List.forall_mem_cons.1 hpieces
    show ∀ n ∈ ps.foldl descend (descend at_ s), IsName n
    refine ih ?_ hps
    unfold descend
    split
    · exact h
    · rename_i hidle
      split
      · exact fun n hn => h n (List.dropLast_subset at_ hn)
      · rename_i hparent
        intro n hn
        rcases List.mem_append.1 hn with hn | hn
        · exact h n hn
        · rw [List.mem_singleton.1 hn]
          exact ⟨Bool.eq_false_iff.2 hidle, mt beq_iff_eq.2 hparent, hs⟩

theorem isName_of_mem_place (p : Path) : ∀ n ∈ p.place, IsName n := by
  rw [place_eq_walk]
  exact isName_of_mem_walk (fun _ h => absurd h List.not_mem_nil) _

/-- Names with separators between them are cut there again. -/
theorem pieces_intercalate {name : String} (h : ∀ n ∈ name :: names, IsName n) :
    (Text.pieces (· == separator) ("/".intercalate (name :: names)).toList).map String.ofList =
      name :: names := by
  induction names generalizing name with
  | nil =>
    rw [String.intercalate_singleton, pieces_of_whole (h name List.mem_cons_self).whole,
      List.map_singleton, String.ofList_toList]
  | cons other names ih =>
    obtain ⟨hname, hnames⟩ := List.forall_mem_cons.1 h
    rw [String.intercalate_cons_cons, String.toList_append, String.toList_append,
      List.append_assoc]
    show (Text.pieces (· == separator) (name.toList ++ separator :: _)).map String.ofList = _
    rw [Text.pieces_append_cons (p := (· == separator)) (beq_self_eq_true separator),
      pieces_of_whole hname.whole, List.singleton_append, List.map_cons, String.ofList_toList]
    exact congrArg (name :: ·) (ih hnames)

theorem toList_ofNames (names : List String) :
    (ofNames names).text.toList = separator :: ("/".intercalate names).toList := by
  rw [ofNames, String.toList_append]
  rfl

/-- The path of names leads to them, from wherever it is walked. -/
theorem place_ofNames (h : ∀ n ∈ names, IsName n) : (ofNames names).place = names := by
  have hfold : ∀ (ps : List String) (at_ : Names), (∀ n ∈ ps, IsName n) →
      ps.foldl descend at_ = at_ ++ ps := by
    intro ps
    induction ps with
    | nil => exact fun at_ _ => (List.append_nil at_).symm
    | cons n ps ih =>
      intro at_ hps
      obtain ⟨hn, hps⟩ := List.forall_mem_cons.1 hps
      rw [List.foldl_cons, hn.descend_eq, ih _ hps, List.append_assoc, List.singleton_append]
  rw [place, pieces_of_absolute (toList_ofNames names)]
  cases names with
  | nil => rfl
  | cons n names =>
    rw [pieces_intercalate h, hfold _ _ h, List.nil_append]

/-- **The path of names is canonical.** -/
theorem isCanonical_ofNames (h : ∀ n ∈ names, IsName n) : (ofNames names).IsCanonical := by
  have habsolute : (ofNames names).isAbsolute = true := by
    rw [isAbsolute, toList_ofNames, List.head?_cons]
    rfl
  refine ⟨names, h, rfl, habsolute, ?_⟩
  have hhere : ¬ (ofNames names).startsHere = true := by simp [startsHere, habsolute]
  have hcomponent : ∀ n ∈ names, componentOf n = .name n := fun n hn => by
    rw [componentOf, if_neg (mt beq_iff_eq.1 (h n hn).parent)]
  rw [components, if_pos habsolute, body, if_neg hhere,
    pieces_of_absolute (toList_ofNames names)]
  cases names with
  | nil => rfl
  | cons n names =>
    rw [pieces_intercalate h, List.filter_eq_self.2 fun n hn => by rw [(h n hn).idle]; rfl,
      List.map_congr_left hcomponent]

theorem IsCanonical.normalize_eq_self {p : Path} (h : p.IsCanonical) : p.normalize = p := by
  obtain ⟨names, hnames, rfl, -⟩ := h
  rw [normalize_eq, place_ofNames hnames]

end Canonical

/-! ## Detours -/

/-- A text in front of a piece of a path that leads nowhere: the piece `.`, an empty piece, or a name
and the way back from it. -/
inductive IsDetour : List Char → Prop where
  | here : IsDetour ['.', separator]
  | again : IsDetour [separator]
  | back {x : List Char} (hx : IsName (String.ofList x)) : IsDetour (x ++ ['/', '.', '.', '/'])

/-- The second path is the first one with a detour, behind one of its separators or in front of a
relative path. Blanks in front of the second path do not belong to it. -/
inductive Lengthens (path : List Char) : List Char → Prop where
  | behind {front rest detour : List Char} (hpath : path = front ++ separator :: rest)
      (hdetour : IsDetour detour) : Lengthens path (front ++ separator :: (detour ++ rest))
  | before {detour : List Char}
      (hpath : ∀ c, path.head? = some c → c ≠ separator ∧ Text.isBlank c = false)
      (hdetour : IsDetour (Text.trimStart detour))
      (hagain : (Text.trimStart detour).head? ≠ some separator) : Lengthens path (detour ++ path)

section Detours

variable {at_ : Names} {detour path path' : List Char}

theorem IsDetour.ne_nil (h : IsDetour detour) : detour ≠ [] := by
  cases h with
  | here => exact List.cons_ne_nil _ _
  | again => exact List.cons_ne_nil _ _
  | back => exact List.append_ne_nil_of_right_ne_nil _ (List.cons_ne_nil _ _)

theorem walk_of_isDetour (h : IsDetour detour) (at_ : Names) (rest : List Char) :
    walk at_ (detour ++ rest) = walk at_ rest := by
  cases h with
  | here => exact walk_append_separator at_ ['.'] rest
  | again => exact walk_separator at_ rest
  | back hx =>
    rename_i x
    have hwhole : separator ∉ x := by simpa using hx.whole
    rw [List.append_assoc]
    show walk at_ (x ++ separator :: (['.', '.'] ++ separator :: rest)) = walk at_ rest
    rw [walk_append_separator, walk_append_separator, walk_of_whole hwhole, hx.descend_eq,
      walk_of_whole (show separator ∉ ['.', '.'] by decide)]
    show walk (at_ ++ [String.ofList x]).dropLast rest = walk at_ rest
    rw [List.dropLast_concat]

/-- A path with a detour, without the blanks in front of it. -/
theorem Lengthens.trimStart_cases (h : Lengthens path path') :
    (∃ front detour rest, IsDetour detour ∧ Text.trimStart path = front ++ separator :: rest ∧
      Text.trimStart path' = front ++ separator :: (detour ++ rest)) ∨
    ∃ detour, IsDetour detour ∧ detour.head? ≠ some separator ∧
      (Text.trimStart path).head? ≠ some separator ∧
      Text.trimStart path' = detour ++ Text.trimStart path := by
  cases h with
  | behind hpath hdetour =>
    rename_i front rest detour
    subst hpath
    exact .inl ⟨Text.trimStart front, detour, rest, hdetour,
      Text.trimStart_append_cons (by decide) front rest,
      Text.trimStart_append_cons (by decide) front (detour ++ rest)⟩
  | before hpath hdetour hagain =>
    rename_i detour
    obtain ⟨c, more, hmore⟩ := List.exists_cons_of_ne_nil hdetour.ne_nil
    rw [Text.trimStart_of_head fun c hc => (hpath c hc).2]
    refine .inr ⟨Text.trimStart detour, hdetour, hagain, fun hhead => (hpath _ hhead).1 rfl, ?_⟩
    rw [Text.trimStart, List.dropWhile_append, ← Text.trimStart, hmore]
    rfl

/-- A path with a detour leads to the same place, from the root as well as from any other place. -/
theorem walk_of_lengthens (h : Lengthens path path') :
    (∀ at_, walk at_ (Text.trimStart path') = walk at_ (Text.trimStart path)) ∧
      ((Text.trimStart path').head? = some separator ↔
        (Text.trimStart path).head? = some separator) := by
  obtain ⟨front, detour, rest, hdetour, hpath, hpath'⟩ | ⟨detour, hdetour, hagain, hhead, hpath'⟩ :=
    h.trimStart_cases
  · rw [hpath, hpath']
    simp only [walk_append_separator, walk_of_isDetour hdetour, implies_true, true_and,
      List.head?_append, List.head?_cons]
  · rw [hpath']
    refine ⟨fun at_ => walk_of_isDetour hdetour at_ _, iff_of_false ?_ hhead⟩
    rwa [List.head?_append_of_ne_nil _ hdetour.ne_nil]

end Detours

/-! ## Ways back -/

/-- A number of ways back. -/
def ups : Nat → List Char
  | 0 => []
  | k + 1 => '.' :: '.' :: separator :: ups k

/-- A way back takes off the last name, and stays at the root when there is none. -/
theorem walk_ups (k : Nat) (at_ : Names) (rest : List Char) :
    walk at_ (ups k ++ rest) = walk (at_.take (at_.length - k)) rest := by
  induction k generalizing at_ with
  | zero => rw [Nat.sub_zero, List.take_length, ups, List.nil_append]
  | succ k ih =>
    show walk at_ (['.', '.'] ++ separator :: (ups k ++ rest)) = _
    rw [walk_append_separator, walk_of_whole (show separator ∉ ['.', '.'] by decide)]
    show walk at_.dropLast (ups k ++ rest) = _
    rw [ih, List.length_dropLast, List.dropLast_eq_take, List.take_take]
    congr 2
    omega

end Path

namespace Descriptor

open CilGraft.Path

/-! ## Libraries -/

/-- The path of a library that a source asks for, when paths are seen from the folder `here`. -/
def libraryPathIn (here source : Path) (name : List Char) : Path :=
  (here.join ((baseOf source).join ⟨String.ofList name⟩)).normalize

/-- The names that lead to the folder of a source. -/
def folderOf (here source : Path) : Names := (here.join (baseOf source)).place

section Libraries

variable {here source : Path} {name : List Char}

/-- **The path of a library** is where its text leads from the folder of the source, or from the root
when the text is absolute. -/
theorem libraryPathIn_eq (here source : Path) (name : List Char) :
    libraryPathIn here source name =
      ofNames (walk (if name.head? = some separator then [] else folderOf here source) name) := by
  have htext : (Path.mk (String.ofList name)).text.toList = name := String.toList_ofList
  have habsolute : (Path.mk (String.ofList name)).isAbsolute = true ↔
      name.head? = some separator := by
    rw [isAbsolute, htext, beq_iff_eq]
  rw [libraryPathIn, normalize_eq, place_eq_walk, walk_join, isAbsolute_join, walk_join, walk_join,
    htext, folderOf, place_eq_walk, walk_join]
  by_cases hname : name.head? = some separator
  · rw [habsolute.2 hname, Bool.true_or, if_pos rfl, if_pos rfl, if_pos hname]
  · rw [Bool.eq_false_iff.2 (mt habsolute.1 hname), Bool.false_or, if_neg Bool.false_ne_true,
      if_neg Bool.false_ne_true, if_neg hname]
    split <;> rfl

/-- The paths of the libraries are seen from the root. -/
theorem libraryPathIn_root (source : Path) (name : List Char) :
    libraryPathIn ⟨"/"⟩ source name = libraryPath source name := by
  rw [libraryPathIn, libraryPath, resolve]

/-- The path of a library is canonical. -/
theorem isCanonical_libraryPathIn (here source : Path) (name : List Char) :
    (libraryPathIn here source name).IsCanonical := by
  rw [libraryPathIn, normalize_eq]
  exact isCanonical_ofNames (isName_of_mem_place _)

/-- A canonical path is resolved to itself, whatever the source is and from wherever it is seen. -/
theorem libraryPathIn_of_isCanonical {p : Path} (h : p.IsCanonical) (here source : Path) :
    libraryPathIn here source p.text.toList = p := by
  obtain ⟨names, hnames, rfl, -⟩ := h
  have hhead : (ofNames names).text.toList.head? = some separator := by
    rw [toList_ofNames, List.head?_cons]
  rw [libraryPathIn_eq, if_pos hhead, ← place_eq_walk, place_ofNames hnames]

theorem libraryPathIn_of_lengthens {path path' : List Char} (h : Lengthens path path')
    (here source : Path) : libraryPathIn here source (Text.trimStart path') =
      libraryPathIn here source (Text.trimStart path) := by
  obtain ⟨hwalk, hhead⟩ := walk_of_lengthens h
  rw [libraryPathIn_eq, libraryPathIn_eq, hwalk]
  simp only [hhead]

/-- Ways back lead out of the folder of the source name by name, and stop at the root. -/
theorem libraryPathIn_ups (k : Nat) {rest : List Char} (hrest : rest.head? ≠ some separator) :
    libraryPathIn here source (ups k ++ rest) =
      if k < (folderOf here source).length then
        ofNames (walk ((folderOf here source).take ((folderOf here source).length - k)) rest)
      else libraryPathIn here source (separator :: rest) := by
  have hhead : (ups k ++ rest).head? ≠ some separator := by
    cases k with
    | zero => exact hrest
    | succ k => exact mt Option.some.inj (by decide)
  rw [libraryPathIn_eq, if_neg hhead, walk_ups, libraryPathIn_eq, if_pos List.head?_cons,
    walk_separator]
  split
  · rfl
  · rename_i hdeep
    rw [Nat.sub_eq_zero_of_le (Nat.not_lt.1 hdeep), List.take_zero]

/-- Ways back at the root stay there. -/
theorem libraryPathIn_separator_ups (k : Nat) (rest : List Char) :
    libraryPathIn here source (separator :: (ups k ++ rest)) =
      libraryPathIn here source (separator :: rest) := by
  rw [libraryPathIn_eq, libraryPathIn_eq, if_pos List.head?_cons, if_pos List.head?_cons,
    walk_separator, walk_separator, walk_ups, List.take_nil]

end Libraries

end Descriptor

end CilGraft
