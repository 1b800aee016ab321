import CilGraft.Proofs.LibraryLines
import CilGraft.Proofs.TargetNames

/-!
# The references of a source

A line that asks for a library adds one path to the references of a source and changes nothing else of
its descriptor. So what is true of the path is true of the reference: it is canonical, and a detour
in the text of the path does not change it.

* `Descriptor.ofLines_insert`, `parse_fill` — what a line for a library adds to a descriptor.
* `Descriptor.isCanonical_of_mem_references` — the references of a source are canonical.
* `Descriptor.libraries_resolved` — **the libraries of a source are resolved lexically.**
* `Sample.libraries_resolved_slot` — a source, and the same one with a detour in its path.
* `Sample.detour_of_blank` — what trimming makes of a name that begins with a blank.
-/

set_option autoImplicit false

namespace CilGraft

namespace Descriptor

open Patch

/-! ## Descriptors -/

section Parsing

variable {source : Path} {checksum : Checksum} {defaults : Defaults}

/-- A line that asks for a library gives no key a value. -/
theorem headerValue?_insert {line : List Char} (hline : usingMark <+: line) {key : String}
    (hkey : key.toList.head? ≠ some 'u') (before after : List (List Char)) :
    headerValue? (before ++ line :: after) key = headerValue? (before ++ after) key := by
  have hnone : valueIn? key line = none := by
    obtain ⟨rest, rfl⟩ := hline
    refine valueIn?_eq_none_iff.2 fun ⟨back, hback⟩ => ?_
    have hsecond := (List.cons.inj hback).2
    cases hchars : key.toList with
    | nil =>
      rw [hchars] at hsecond
      exact absurd (List.cons.inj hsecond).1 (by decide)
    | cons c chars =>
      rw [hchars] at hkey hsecond
      exact hkey (congrArg some (List.cons.inj hsecond).1)
  rw [headerValue?, headerValue?, List.findSome?_append, List.findSome?_append,
    List.findSome?_cons, hnone]

theorem bind_eq_map {α β γ : Type} {x : Except Error α} {f : α → Except Error γ}
    {g : α → Except Error β} {h : β → γ} (hf : ∀ a, f a = (g a).map h) :
    (x >>= f) = (x >>= g).map h := by
  cases x with
  | error e => rfl
  | ok a => exact hf a

/-- **A line that asks for a library adds its path to the references**, and changes nothing else. -/
theorem ofLines_insert (before after : List (List Char)) (source : Path) (checksum : Checksum)
    (defaults : Defaults) : ∃ front back : List Path, ∀ line name,
      usingMark <+: line → libraryNames [line] = .ok [name] →
        ofLines (before ++ line :: after) source checksum defaults =
          (ofLines (before ++ after) source checksum defaults).map fun p =>
            { p with references := front ++ libraryPath source name :: back } := by
  refine ⟨((libraryNames before).toOption.getD []).map (libraryPath source),
    ((libraryNames after).toOption.getD []).map (libraryPath source), fun line name hline hname => ?_⟩
  have hlines : before ++ line :: after = before ++ ([line] ++ after) := rfl
  have hkey : ∀ key : String, key.toList.head? ≠ some 'u' →
      headerValue? (before ++ line :: after) key = headerValue? (before ++ after) key :=
    fun key hkey => headerValue?_insert hline hkey before after
  have hrequired : ∀ key : String, key.toList.head? ≠ some 'u' →
      required (before ++ line :: after) key = required (before ++ after) key := fun key hu => by
    rw [required, required, hkey key hu]
  have hoptional : ∀ (key otherwise : String), key.toList.head? ≠ some 'u' →
      optional (before ++ line :: after) key otherwise =
        optional (before ++ after) key otherwise := fun key otherwise hu => by
    rw [optional, optional, hkey key hu]
  rw [ofLines, ofLines, hrequired "TargetClass" (by decide), hrequired "TargetMethod" (by decide),
    hrequired "TargetLocation" (by decide), hrequired "PatchClass" (by decide),
    hrequired "PatchMethod" (by decide), hkey "TargetAssembly" (by decide),
    hoptional "Name" _ (by decide), hoptional "Description" _ (by decide),
    hoptional "TargetFramework" _ (by decide), hoptional "TargetModule" _ (by decide),
    hoptional "TargetNamespace" _ (by decide)]
  refine bind_eq_map fun class_ => bind_eq_map fun method => bind_eq_map fun value =>
    bind_eq_map fun location => bind_eq_map fun patchClass => bind_eq_map fun patchMethod => ?_
  rw [hlines, libraryNames_append, libraryNames_append, libraryNames_append, hname]
  cases libraryNames before with
  | error e => rfl
  | ok names =>
    cases libraryNames after with
    | error e => rfl
    | ok others =>
      simp only [bind, Except.bind, Except.map, Except.toOption, Option.getD_some,
        List.map_append, List.map_cons, List.singleton_append]

/-- **Another path for a library changes one reference**, and nothing else. -/
theorem parse_fill (s : LibrarySlot) (source : Path) (checksum : Checksum) (defaults : Defaults) :
    ∃ (others : Except Error Descriptor) (front back : List Path), ∀ path, IsAskable path →
      parse (s.fill path) source checksum defaults = others.map fun p =>
        { p with references := front ++ libraryPath source (Text.trimStart path) :: back } := by
  obtain ⟨before, after, hlines⟩ := s.headerLines_fill
  obtain ⟨front, back, hinsert⟩ := ofLines_insert before after source checksum defaults
  refine ⟨ofLines (before ++ after) source checksum defaults, front, back, fun path h => ?_⟩
  have hname := s.libraryIn?_text h.library
  rw [parse, hlines path h.unbroken h.unclosed]
  exact hinsert _ _ (mem_of_libraryIn? hname).1 (libraryNames_singleton hname h.library)

/-- The references of a source are canonical. -/
theorem isCanonical_of_mem_references {content : List Char} {p : Descriptor} {r : Path}
    (h : parse content source checksum defaults = .ok p) (hr : r ∈ p.references) :
    r.IsCanonical := by
  obtain ⟨-, -, -, names, -, hreferences⟩ := fields_of_ofLines h
  rw [hreferences] at hr
  obtain ⟨name, -, rfl⟩ := List.mem_map.1 hr
  rw [← libraryPathIn_root]
  exact isCanonical_libraryPathIn _ source name

end Parsing

/-- **The libraries of a source are resolved lexically and canonically.**

All references of a source are canonical. Every library of every header stands in a place where
another path can stand: then the descriptor has one path for it between the same others, and is the
same otherwise; and with a detour in the path it is the same altogether. That path is resolved to
itself again, whatever the source and the current folder are. Ways back lead out of the folder of the
source name by name and stop at the root. -/
theorem libraries_resolved :
    (∀ content source checksum defaults p, parse content source checksum defaults = .ok p →
      ∀ r ∈ p.references, r.IsCanonical) ∧
    (∀ (content : List Char) (names : List (List Char)),
      libraryNames (headerLines content) = .ok names →
        ∀ name ∈ names, ∃ s : LibrarySlot, s.fill name = content ∧ IsAskable name) ∧
    (∀ (s : LibrarySlot) (source : Path) (checksum : Checksum) (defaults : Defaults),
      (∃ (others : Except Error Descriptor) (front back : List Path), ∀ path, IsAskable path →
        parse (s.fill path) source checksum defaults = others.map fun p =>
          { p with references := front ++ libraryPath source (Text.trimStart path) :: back }) ∧
      ∀ path path', IsAskable path → Path.Lengthens path path' → '\n' ∉ path' →
        ¬ closeMark <:+: path' → parse (s.fill path') source checksum defaults =
          parse (s.fill path) source checksum defaults) ∧
    (∀ source name, libraryPath source name = libraryPathIn ⟨"/"⟩ source name) ∧
    ∀ here source : Path,
      (∀ name, (libraryPathIn here source name).IsCanonical ∧
        (libraryPathIn here source name).normalize = libraryPathIn here source name ∧
        (∀ here' source', libraryPathIn here' source' (libraryPathIn here source name).text.toList =
          libraryPathIn here source name) ∧
        ∀ path', Path.Lengthens name path' → libraryPathIn here source (Text.trimStart path') =
          libraryPathIn here source (Text.trimStart name)) ∧
      ∀ (k : Nat) (rest : List Char),
        (rest.head? ≠ some Path.separator → libraryPathIn here source (Path.ups k ++ rest) =
          if k < (folderOf here source).length then
            Path.ofNames (Path.walk
              ((folderOf here source).take ((folderOf here source).length - k)) rest)
          else libraryPathIn here source (Path.separator :: rest)) ∧
        libraryPathIn here source (Path.separator :: (Path.ups k ++ rest)) =
          libraryPathIn here source (Path.separator :: rest) := by
  refine ⟨fun _ _ _ _ _ h _ hr => isCanonical_of_mem_references h hr,
    fun content names h name hmem => exists_slot h hmem,
    fun s source checksum defaults => ⟨parse_fill s source checksum defaults, ?_⟩,
    fun source name => (libraryPathIn_root source name).symm, fun here source => ⟨?_, ?_⟩⟩
  · intro path path' hpath hlonger hfeed hclosed
    obtain ⟨others, front, back, hfill⟩ := parse_fill s source checksum defaults
    have hsame : libraryPath source (Text.trimStart path') =
        libraryPath source (Text.trimStart path) := by
      rw [← libraryPathIn_root, ← libraryPathIn_root, libraryPathIn_of_lengthens hlonger]
    rw [hfill path' (hpath.of_lengthens hlonger hfeed hclosed), hfill path hpath, hsame]
  · intro name
    have hcanonical := isCanonical_libraryPathIn here source name
    exact ⟨hcanonical, hcanonical.normalize_eq_self,
      fun here' source' => libraryPathIn_of_isCanonical hcanonical here' source',
      fun path' h => libraryPathIn_of_lengthens h here source⟩
  · exact fun k rest => ⟨libraryPathIn_ups k, libraryPathIn_separator_ups k rest⟩

end Descriptor

/-! ## A library -/

namespace Sample

open Patch

/-- The lines in front of the line of a library. -/
def slotFront : List Char :=
  "/*\n * @TargetClass=Player\n * @TargetMethod=Start\n * @TargetLocation=Prefix\n".toList ++
    " * @PatchClass=Hooks\n * @PatchMethod=Run\n".toList

/-- A place for a library in the last line of a comment. -/
def slot : LibrarySlot where
  front := slotFront
  inside := true
  indent := [' ']
  star := true
  gap := [' ']
  spacing := []
  pad := [' ']
  semicolons := 1
  tail := []
  behind := "*/\nclass Hooks".toList
  whole := .inr (by decide +kernel)
  open_front := by decide +kernel
  blank c hc :=
    have hall : [' ', ' ', ' '].all (fun c => Text.isBlank c = true ∧ c ≠ '\n') = true := by decide
    of_decide_eq_true (List.all_eq_true.1 hall c hc)
  ends := .inr (.inr ⟨_, rfl⟩)

/-- The references of a source at a place. -/
def referencesOf (content : List Char) : Option (List Path) :=
  (Descriptor.parse content ⟨"/games/Demo/Patches/GodMode.cs"⟩ (Checksum.of []) {}).toOption.map
    (·.references)

/-- A name and the way back from it do not change the library of a source. -/
theorem libraries_resolved_slot :
    let path := "Lib/Helpers.dll".toList
    let path' := "Lib/x y/../Helpers.dll".toList
    IsAskable path ∧ Path.Lengthens path path' ∧ '\n' ∉ path' ∧ ¬ closeMark <:+: path' ∧
      referencesOf (slot.fill path) = some [⟨"/games/Demo/Patches/Lib/Helpers.dll"⟩] ∧
      ∀ defaults, Descriptor.parse (slot.fill path') ⟨"/games/Demo/Patches/GodMode.cs"⟩
        (Checksum.of []) defaults = Descriptor.parse (slot.fill path)
          ⟨"/games/Demo/Patches/GodMode.cs"⟩ (Checksum.of []) defaults := by
  intro path path'
  have hpath : IsAskable path := ⟨by decide +kernel, by decide +kernel, by decide +kernel⟩
  have hname : Path.IsName (String.ofList "x y".toList) :=
    ⟨by decide +kernel, by decide +kernel, by decide +kernel⟩
  have hlonger : Path.Lengthens path path' :=
    .behind (show path = "Lib".toList ++ Path.separator :: "Helpers.dll".toList by decide +kernel)
      (.back hname)
  have hfeed : '\n' ∉ path' := by decide +kernel
  have hclosed : ¬ closeMark <:+: path' := by decide +kernel
  refine ⟨hpath, hlonger, hfeed, hclosed, by decide +kernel, fun defaults => ?_⟩
  obtain ⟨-, -, hslot, -⟩ := Descriptor.libraries_resolved
  exact (hslot slot _ _ defaults).2 path path' hpath hlonger hfeed hclosed

/-- Blanks around a path are trimmed off, and so a name that begins with blanks may be another one in
front of it, or none; an ending alone is no path; and a line feed ends the line. -/
theorem detour_of_blank : Path.IsName " " ∧ Path.IsName " ." ∧ Path.IsName "x\ny" ∧
    referencesOf (slot.fill "Helpers.dll".toList) = some [⟨"/games/Demo/Patches/Helpers.dll"⟩] ∧
      referencesOf (slot.fill " /../Helpers.dll".toList) = some [⟨"/Helpers.dll"⟩] ∧
      referencesOf (slot.fill " ./../Helpers.dll".toList) = some [⟨"/games/Demo/Helpers.dll"⟩] ∧
      referencesOf (slot.fill "x\ny/../Helpers.dll".toList) = some [] ∧
      referencesOf (slot.fill ".dll".toList) = some [] ∧
      referencesOf (slot.fill "./.dll".toList) = some [⟨"/games/Demo/Patches/.dll"⟩] := by
  refine ⟨⟨?_, ?_, ?_⟩, ⟨?_, ?_, ?_⟩, ⟨?_, ?_, ?_⟩, ?_⟩ <;> decide +kernel

end Sample

end CilGraft
