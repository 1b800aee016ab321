import CilGraft.Patch.Descriptor
import CilGraft.Proofs.Places

/-!
# Walks along paths

The text of a path is walked piece by piece.  A path behind another one is walked behind it, and to
resolve a path is to walk it.

* `Path.walk` — where a text leads from a place; `walk_join`, `normalize_eq`.
* `Path.resolve_eq` — **a path resolves to where it leads** from the current folder.
* `Path.resolve_of_isAbsolute` — an absolute path resolves to the same one in any folder.
-/

set_option autoImplicit false

namespace CilGraft

namespace Path

/-! ## Walks -/

/-- Where a text leads from a place: each piece between its separators is one step. -/
def walk (at_ : Names) (text : List Char) : Names :=
  ((Text.pieces (· == separator) text).map String.ofList).foldl descend at_

section Walks

variable {at_ : Names} {p q : Path}

@[simp] theorem walk_nil (at_ : Names) : walk at_ [] = at_ := rfl

theorem walk_append_separator (at_ : Names) (s t : List Char) :
    walk at_ (s ++ separator :: t) = walk (walk at_ s) t := by
  rw [walk, Text.pieces_append_cons (p := (· == separator)) (beq_self_eq_true separator),
    List.map_append, List.foldl_append]
  rfl

theorem walk_separator (at_ : Names) (t : List Char) : walk at_ (separator :: t) = walk at_ t :=
  walk_append_separator at_ [] t

theorem walk_of_whole {x : List Char} (hx : separator ∉ x) (at_ : Names) :
    walk at_ x = descend at_ (String.ofList x) := by
  rw [walk, pieces_of_whole hx]
  rfl

theorem place_eq_walk (p : Path) : p.place = walk [] p.text.toList := by
  by_cases habsolute : p.text.toList.head? = some separator
  · obtain ⟨rest, htext⟩ := List.head?_eq_some_iff.1 habsolute
    rw [place, pieces_of_absolute htext, htext, walk_separator]
    rfl
  · rw [place, pieces_of_relative habsolute]
    rfl

/-- Where a path behind another one leads. -/
theorem walk_join (at_ : Names) (p q : Path) : walk at_ (p.join q).text.toList =
    if q.isAbsolute then walk at_ q.text.toList
    else walk (walk at_ p.text.toList) q.text.toList := by
  rw [join]
  split
  · rfl
  · by_cases hgap : (p.text == "" || p.text.toList.getLast? == some separator) = true
    · rw [if_pos hgap]
      dsimp only
      rw [String.append_empty, String.toList_append]
      rcases Bool.or_eq_true_iff.1 hgap with hempty | hend
      · rw [beq_iff_eq.1 hempty]
        rfl
      · -- a separator at the end of the first path is the gap already
        obtain ⟨front, hfront⟩ := List.getLast?_eq_some_iff.1 (beq_iff_eq.1 hend)
        rw [hfront, List.append_assoc, List.singleton_append, walk_append_separator,
          walk_append_separator, walk_nil]
    · rw [if_neg hgap]
      dsimp only
      rw [String.toList_append, String.toList_append, List.append_assoc]
      exact walk_append_separator at_ p.text.toList q.text.toList

theorem isAbsolute_join (p q : Path) :
    (p.join q).isAbsolute = (q.isAbsolute || p.isAbsolute) := by
  rw [join]
  cases hq : q.isAbsolute with
  | true => rw [if_pos rfl, hq, Bool.true_or]
  | false =>
    rw [if_neg Bool.false_ne_true, Bool.false_or]
    by_cases hempty : p.text = ""
    · have hp : p.isAbsolute = false := by
        rw [isAbsolute, hempty]
        rfl
      rw [hp, ← hq, hempty]
      simp [isAbsolute]
    · obtain ⟨c, rest, htext⟩ := List.exists_cons_of_ne_nil (mt String.toList_eq_nil_iff.1 hempty)
      simp only [isAbsolute, String.toList_append, htext, List.cons_append, List.head?_cons]

/-- The components of pieces lead where the pieces lead. -/
theorem resolveNames_map_componentOf (ps : List String) (at_ : Names) :
    resolveNames ((ps.filter (!isIdle ·)).map componentOf) at_ = ps.foldl descend at_ := by
  induction ps generalizing at_ with
  | nil => rfl
  | cons s ps ih =>
    cases hidle : isIdle s with
    | true =>
      rw [List.filter_cons_of_neg (by rw [hidle]; decide), ih, List.foldl_cons,
        descend_of_isIdle hidle]
    | false =>
      rw [List.filter_cons_of_pos (by rw [hidle]; rfl), List.map_cons, List.foldl_cons]
      by_cases hparent : s = ".."
      · subst hparent
        exact ih at_.dropLast
      · rw [componentOf, if_neg (mt beq_iff_eq.1 hparent), descend_of_name hidle hparent]
        exact ih (at_ ++ [s])

/-- The components of a path lead to its place. -/
theorem resolveNames_components (p : Path) : resolveNames p.components [] = p.place := by
  have hpieces : resolveNames p.components [] = p.pieces.foldl descend [] := by
    rw [components]
    split
    · rename_i habsolute
      have hhere : ¬ p.startsHere = true := by simp [startsHere, habsolute]
      rw [body, if_neg hhere]
      exact resolveNames_map_componentOf p.pieces []
    · split
      · rename_i hhere
        -- the point at the start is a component, but it leads nowhere
        have hhead : p.pieces.head? = some "." :=
          beq_iff_eq.1 (Bool.and_eq_true_iff.1 hhere).2
        obtain ⟨rest, hrest⟩ := List.head?_eq_some_iff.1 hhead
        rw [body, if_pos hhere, hrest]
        exact resolveNames_map_componentOf rest []
      · rename_i hhere
        rw [body, if_neg hhere]
        exact resolveNames_map_componentOf p.pieces []
  exact hpieces

/-- **Resolving an absolute path goes to its place.** -/
theorem normalize_eq (p : Path) : p.normalize = ofNames p.place := by
  rw [normalize, resolveNames_components]

/-- **Resolving a path goes to where it leads**: from the root when it is absolute, otherwise from the
current folder.  A relative path stays relative when that is not known. -/
theorem resolve_eq (here : Option Path) (p : Path) : p.resolve here =
    if p.isAbsolute then ofNames (walk [] p.text.toList)
    else match here with
      | some here => ofNames (walk (walk [] here.text.toList) p.text.toList)
      | none => ⟨"/".intercalate (walk [] p.text.toList)⟩ := by
  cases here with
  | none => rw [resolve, normalize_eq, resolveNames_components, place_eq_walk]
  | some here =>
    rw [resolve, normalize_eq, place_eq_walk, walk_join]
    split <;> rfl

/-- It does not matter from where an absolute path is seen. -/
theorem resolve_of_isAbsolute {p : Path} (h : p.isAbsolute = true) (here here' : Option Path) :
    p.resolve here = p.resolve here' := by
  rw [resolve_eq, resolve_eq, if_pos h, if_pos h]

end Walks

end Path

end CilGraft
