import CilGraft.Proofs.FileFrames

/-!
# The binaries that patches name

A patch names the binary that it is for by a file name, since only the last name of what its header
says is used. So the binary stands in the folder of the binaries, but for the primary one, which may
be set to be elsewhere.

* `Sources.forall_ready` — what holds for the descriptors of all sources holds for the patches that
  are ready.
* `separator_not_mem_assembly` — a binary other than the primary one is named by a file name.
* `Path.components_child` — a name behind a path is one component more.
* `managed_isPrefix_place` — a binary with a file name stands in the folder of the binaries.
* `Layout.primary_of_discover` — the primary binary of a game that is found.
-/

set_option autoImplicit false

namespace CilGraft

variable {σ : Type}

/-! ## Names in headers -/

theorem Text.not_of_mem_afterLast {p : Char → Bool} {s : List Char} {c : Char}
    (h : c ∈ afterLast p s) : p c = false := by
  have hback := List.all_eq_true.1 List.all_takeWhile c (List.mem_reverse.1 h)
  simpa using hback

theorem Text.not_of_mem_pieces {p : Char → Bool} {s w : List Char} (h : w ∈ pieces p s) {c : Char}
    (hc : c ∈ w) : p c = false := by
  induction s generalizing w with
  | nil =>
    obtain rfl := List.mem_singleton.1 h
    cases hc
  | cons d s ih =>
    cases hd : p d with
    | true =>
      rw [pieces, if_pos hd] at h
      rcases List.mem_cons.1 h with rfl | hrest
      · cases hc
      · exact ih hrest hc
    | false =>
      obtain ⟨first, rest, hfirst⟩ := exists_pieces_eq_cons p s
      rw [pieces_cons_of_not hd hfirst] at h
      rcases List.mem_cons.1 h with rfl | hrest
      · rcases List.mem_cons.1 hc with rfl | hc
        · exact hd
        · exact ih (hfirst ▸ List.mem_cons_self) hc
      · exact ih (hfirst ▸ List.mem_cons_of_mem _ hrest) hc

namespace Path

theorem separator_not_mem_piece {p : Path} {piece : String} (h : piece ∈ p.pieces) :
    separator ∉ piece.toList := by
  have hcut : piece ∈ (Text.pieces (· == separator) p.text.toList).map String.ofList := by
    unfold pieces at h
    split at h
    · exact List.mem_of_mem_drop h
    · exact h
  obtain ⟨w, hw, rfl⟩ := List.mem_map.1 hcut
  rw [String.toList_ofList]
  intro hmem
  have hother := Text.not_of_mem_pieces hw hmem
  rw [beq_self_eq_true] at hother
  cases hother

/-- A file name is one piece of a path. -/
theorem separator_not_mem_fileName {p : Path} {name : String} (h : p.fileName? = some name) :
    separator ∉ name.toList := by
  have hlast : p.components.getLast? = some (.name name) := by
    unfold fileName? at h
    split at h
    · rename_i found hfound
      cases h
      exact hfound
    · cases h
  have hname : .name name ∈ (p.body.filter (!isIdle ·)).map componentOf := by
    have hmem := List.mem_of_getLast? hlast
    unfold components at hmem
    dsimp only at hmem
    split at hmem
    · exact (List.mem_cons.1 hmem).resolve_left Component.noConfusion
    · split at hmem
      · exact (List.mem_cons.1 hmem).resolve_left Component.noConfusion
      · exact hmem
  obtain ⟨piece, hpiece, hcomponent⟩ := List.mem_map.1 hname
  have hbody : piece ∈ p.pieces := by
    have hmem := (List.mem_filter.1 hpiece).1
    unfold body at hmem
    split at hmem
    · exact List.mem_of_mem_drop hmem
    · exact hmem
  unfold componentOf at hcomponent
  split at hcomponent
  · cases hcomponent
  · cases hcomponent
    exact separator_not_mem_piece hbody

end Path

namespace Descriptor

open Patch

theorem separator_not_mem_lastName (path : List Char) : Path.separator ∉ lastName path := by
  intro hmem
  have hother := Text.not_of_mem_afterLast hmem
  revert hother
  decide

/-- A descriptor is of its source, with the libraries and the binary that the header lines name. -/
theorem fields_of_ofLines {lines : List (List Char)} {source : Path} {checksum : Checksum}
    {defaults : Defaults} {p : Descriptor} (h : ofLines lines source checksum defaults = .ok p) :
    p.source = source ∧ p.checksum = checksum ∧
      p.assembly = ((headerValue? lines "TargetAssembly").map
        fun path => String.ofList (lastName path)).getD defaults.assembly ∧
      ∃ libraries, libraryNames lines = .ok libraries ∧
        p.references = libraries.map (libraryPath source) := by
  obtain ⟨_, -, h⟩ := bind_eq_ok_iff.1 h
  obtain ⟨_, -, h⟩ := bind_eq_ok_iff.1 h
  obtain ⟨_, -, h⟩ := bind_eq_ok_iff.1 h
  obtain ⟨_, -, h⟩ := bind_eq_ok_iff.1 h
  obtain ⟨_, -, h⟩ := bind_eq_ok_iff.1 h
  obtain ⟨_, -, h⟩ := bind_eq_ok_iff.1 h
  obtain ⟨libraries, hlibraries, h⟩ := bind_eq_ok_iff.1 h
  cases h
  refine ⟨rfl, rfl, ?_, libraries, hlibraries, rfl⟩
  cases headerValue? lines "TargetAssembly" <;> rfl

/-- A patch is for the binary that is set, or names one by a file name. -/
theorem separator_not_mem_assembly {d : Disk} {source : Path} {defaults : Defaults} {p : Descriptor}
    (h : ofFile d source defaults = .ok p) :
    p.assembly = defaults.assembly ∨ Path.separator ∉ p.assembly.toList := by
  unfold ofFile at h
  split at h
  · cases h
  · obtain ⟨-, -, hassembly, -⟩ := fields_of_ofLines h
    rw [hassembly]
    cases headerValue? _ "TargetAssembly" with
    | none => exact Or.inl rfl
    | some path =>
      rw [Option.map_some, Option.getD_some, String.toList_ofList]
      exact Or.inr (separator_not_mem_lastName path)

end Descriptor

/-! ## The patches that are ready -/

namespace Sources

variable {d : Disk} {defaults : Defaults} {source : Path} {p : Descriptor}

theorem ofFile_of_mem_parseEach {sources : List Path} {parsed : List Parsed}
    (h : parseEach d defaults sources = .ok parsed) (hmem : (source, .ok p) ∈ parsed) :
    Descriptor.ofFile d source defaults = .ok p := by
  induction sources generalizing parsed with
  | nil =>
    cases h
    cases hmem
  | cons first sources ih =>
    unfold parseEach at h
    split at h
    · cases h
    · split at h
      · cases h
      · rename_i others hothers
        cases h
        rcases List.mem_cons.1 hmem with hfirst | hrest
        · rw [Prod.mk.injEq] at hfirst
          rw [hfirst.1, ← hfirst.2]
        · exact ih hothers hrest

theorem mem_of_mem_admitEach {claimed : List (List Char × Path)} {sources : List Parsed}
    (h : (source, .ok p) ∈ admitEach claimed sources) : (source, .ok p) ∈ sources := by
  fun_induction admitEach claimed sources with
  | case1 => exact h
  | case2 claimed first e rest ih =>
    rcases List.mem_cons.1 h with hfirst | hrest
    · cases hfirst
    · exact List.mem_cons_of_mem _ (ih hrest)
  | case3 claimed first q rest _ _ _ ih =>
    rcases List.mem_cons.1 h with hfirst | hrest
    · cases hfirst
    · exact List.mem_cons_of_mem _ (ih hrest)
  | case4 claimed first q rest _ ih =>
    rcases List.mem_cons.1 h with hfirst | hrest
    · rw [hfirst]
      exact List.mem_cons_self
    · exact List.mem_cons_of_mem _ (ih hrest)

theorem mem_admitted {sources : List Parsed} :
    p ∈ admitted sources ↔ ∃ source, (source, .ok p) ∈ sources := by
  rw [admitted, List.mem_filterMap]
  constructor
  · rintro ⟨⟨source, result⟩, hmem, hresult⟩
    cases result with
    | error e => cases hresult
    | ok q =>
      cases hresult
      exact ⟨source, hmem⟩
  · rintro ⟨source, hmem⟩
    exact ⟨_, hmem, rfl⟩

variable [Device] {c : Cache} {compiler : Compiler}

/-- Compiling a patch names its artifact, and leaves the rest of the descriptor as it is. -/
theorem descriptor_of_compile {done : Compiled} (h : (c.compile compiler d p).result = .ok done) :
    done.descriptor = p.withArtifact (c.artifactPath p.name) := by
  have hcompiles := c.compiles_compile compiler d p
  generalize c.compile compiler d p = job at h hcompiles
  cases hcompiles <;> cases h <;> rfl

theorem result_compileOne (w : World σ) (p : Descriptor) :
    (compileOne c compiler w p).1 = (c.compile compiler w.disk p).result := by
  rw [compileOne_eq]

/-- What is compiled is one of the patches, with its artifact. -/
theorem mem_of_mem_compileEach {ps : List Descriptor} {w : World σ}
    (h : (source, .ok p) ∈ (compileEach c compiler w ps).1) :
    ∃ q ∈ ps, source = q.source ∧ p = q.withArtifact (c.artifactPath q.name) := by
  induction ps generalizing w with
  | nil => cases h
  | cons q ps ih =>
    have heach : (compileEach c compiler w (q :: ps)).1 =
        (q.source, (compileOne c compiler w q).1.map (·.descriptor)) ::
          (compileEach c compiler (compileOne c compiler w q).2 ps).1 := rfl
    rw [heach, List.mem_cons] at h
    rcases h with hfirst | hrest
    · rw [Prod.mk.injEq] at hfirst
      obtain ⟨hsource, hresult⟩ := hfirst
      have hcompile : (compileOne c compiler w q).1 = (c.compile compiler w.disk q).result :=
        result_compileOne w q
      cases hone : (compileOne c compiler w q).1 with
      | error e =>
        rw [hone] at hresult
        cases hresult
      | ok done =>
        rw [hone] at hresult hcompile
        cases hresult
        exact ⟨q, List.mem_cons_self, hsource, descriptor_of_compile hcompile.symm⟩
    · obtain ⟨q', hq', hsource, hp⟩ := ih hrest
      exact ⟨q', List.mem_cons_of_mem _ hq', hsource, hp⟩

/-- **What holds for the descriptors of all sources holds for the patches that are ready**, when it
does not depend on their artifacts. -/
theorem forall_ready {P : Descriptor → Prop} {w w' : World σ} {sources : List Path}
    {prepared : Prepared} (h : prepare c compiler defaults w sources = (.ok prepared, w'))
    (hsource : ∀ source p, Descriptor.ofFile w.disk source defaults = .ok p → P p)
    (hartifact : ∀ p artifact, P p → P (p.withArtifact artifact)) : ∀ p ∈ prepared.ready, P p := by
  rcases prepare_cases c compiler w defaults sources with
    ⟨e, -, hprepare⟩ | ⟨parsed, hparsed, hprepare⟩ <;> rw [hprepare] at h
  · cases h
  · cases h
    intro p hp
    obtain ⟨source, hcompiled⟩ := mem_admitted.1 hp
    obtain ⟨q, hq, -, rfl⟩ := mem_of_mem_compileEach hcompiled
    obtain ⟨source', hadmitted⟩ := mem_admitted.1 hq
    have hfound := ofFile_of_mem_parseEach hparsed (mem_of_mem_admitEach hadmitted)
    exact hartifact q _ (hsource source' q hfound)

end Sources

/-- A patch that is ready is for the binary that is set, or names one by a file name. -/
theorem Session.Begins.assembly_cases [Device] {s : Session σ} {w w₁ : World σ} {game : Path} {l : Layout}
    {primary : Assembly} {prepared : Sources.Prepared} (h : s.Begins w game l primary prepared w₁) :
    ∀ p ∈ prepared.ready,
      p.assembly = s.settings.primaryAssembly ∨ Path.separator ∉ p.assembly.toList := by
  obtain ⟨-, disk, w₀, -, -, hprepare⟩ := h
  obtain ⟨sources, -, hready⟩ := s.prepare_eq_ok l w₀ hprepare
  exact Sources.forall_ready hready
    (fun source p hp => Descriptor.separator_not_mem_assembly hp) fun p artifact hp => hp

/-! ## Their places -/

namespace Path

/-- A name is put behind the pieces of a path; an empty piece at their end gives way to it. -/
theorem exists_pieces_child_eq (p : Path) :
    ∃ front, (p.pieces = front ∨ p.pieces = front ++ [""]) ∧
      ∀ s : String, separator ∉ s.toList → (p.child s).pieces = front ++ [s] := by
  obtain ⟨front, -, hfront, hchild⟩ := p.exists_front
  refine ⟨front, ?_, hchild⟩
  rcases hfront with h | h | h
  · exact .inl h
  · exact .inr h
  · obtain rfl : p = ⟨""⟩ := by
      cases p
      exact congrArg Path.mk h
    have hone : ((Path.mk "").child "x").pieces = [] ++ ["x"] := by decide
    rw [hchild "x" (by decide)] at hone
    rw [List.append_cancel_right hone]
    exact .inr (by decide)

theorem isAbsolute_child (p : Path) {s : String} (hs : separator ∉ s.toList) :
    (p.child s).isAbsolute = p.isAbsolute := by
  have hname : (Path.mk s).isAbsolute = false :=
    beq_eq_false_iff_ne.2 fun h => hs (List.mem_of_mem_head? h)
  rw [child, join, if_neg (Bool.eq_false_iff.1 hname)]
  by_cases hp : p.text = ""
  · have hempty : p.isAbsolute = false := by
      rw [isAbsolute, hp]
      rfl
    rw [hp, hempty]
    simpa using hname
  · rw [isAbsolute, isAbsolute]
    dsimp only
    rw [String.toList_append, String.toList_append]
    cases htext : p.text.toList with
    | nil => exact absurd (String.toList_injective htext) hp
    | cons c rest => rfl

variable {p : Path} {s : String}

theorem startsHere_child (hs : separator ∉ s.toList) (hidle : isIdle s = false) :
    (p.child s).startsHere = p.startsHere := by
  obtain ⟨front, hfront, hchild⟩ := p.exists_pieces_child_eq
  rw [startsHere, startsHere, isAbsolute_child p hs, hchild s hs]
  cases front with
  | nil =>
    have hs : s ≠ "." := by
      rintro rfl
      cases hidle
    have hhead : p.pieces.head? ≠ some "." := by
      rcases hfront with h | h <;> rw [h] <;> decide
    have hname : ([] ++ [s]).head? ≠ some "." := fun h => hs (Option.some.inj h)
    rw [beq_eq_false_iff_ne.2 hhead, beq_eq_false_iff_ne.2 hname]
  | cons first rest =>
    rcases hfront with h | h <;> rw [h] <;> rfl

theorem filter_body_child (hs : separator ∉ s.toList) (hidle : isIdle s = false) :
    (p.child s).body.filter (!isIdle ·) = p.body.filter (!isIdle ·) ++ [s] := by
  have hkept : ([s] : List String).filter (!isIdle ·) = [s] :=
    List.filter_cons_of_pos (by rw [hidle]; rfl)
  have hdropped : ([""] : List String).filter (!isIdle ·) = [] := by decide
  obtain ⟨front, hfront, hchild⟩ := p.exists_pieces_child_eq
  rw [body, body, startsHere_child hs hidle, hchild s hs]
  cases hhere : p.startsHere with
  | true =>
    rw [if_pos rfl, if_pos rfl]
    cases front with
    | nil =>
      have hhead : p.pieces.head? ≠ some "." := by
        rcases hfront with h | h <;> rw [h] <;> decide
      rw [startsHere, beq_eq_false_iff_ne.2 hhead, Bool.and_false] at hhere
      cases hhere
    | cons first rest =>
      rcases hfront with h | h
      · rw [h, List.cons_append, List.drop_one, List.drop_one, List.tail_cons, List.tail_cons,
          List.filter_append, hkept]
      · rw [h, List.cons_append, List.cons_append, List.drop_one, List.drop_one, List.tail_cons,
          List.tail_cons, List.filter_append, List.filter_append, hkept, hdropped, List.append_nil]
  | false =>
    rw [if_neg Bool.false_ne_true, if_neg Bool.false_ne_true]
    rcases hfront with h | h
    · rw [h, List.filter_append, hkept]
    · rw [h, List.filter_append, List.filter_append, hkept, hdropped, List.append_nil]

/-- **A name behind a path is one component more.** -/
theorem components_child (hs : separator ∉ s.toList) (hidle : isIdle s = false) :
    (p.child s).components = p.components ++ [componentOf s] := by
  rw [components, components, isAbsolute_child p hs, startsHere_child hs hidle,
    filter_body_child hs hidle, List.map_append]
  split
  · rfl
  · split <;> rfl

end Path

/-- A path that ends with `..` has no file name. -/
theorem Path.fileName?_child_parent (p : Path) : (p.child "..").fileName? = none := by
  rw [fileName?, components_child (by decide) (by decide), List.getLast?_concat]
  rfl

/-- A path that ends with a name has it for its file name. -/
theorem Path.fileName?_child (p : Path) {name : String} (hname : separator ∉ name.toList)
    (hidle : isIdle name = false) (hparent : name ≠ "..") :
    (p.child name).fileName? = some name := by
  rw [fileName?, components_child hname hidle, List.getLast?_concat, componentOf,
    if_neg (mt beq_iff_eq.1 hparent)]

/-- A file name without separators is the name of nothing else. -/
theorem Path.place_child_cases (p : Path) {name : String} (hname : separator ∉ name.toList)
    (hfile : ((p.child name).fileName?).isSome) :
    (p.child name).place = p.place ∨ (p.child name).place = p.place ++ [name] := by
  rw [place_child p hname]
  by_cases hidle : isIdle name = true
  · exact Or.inl (descend_of_isIdle hidle)
  · refine Or.inr (descend_of_name (Bool.eq_false_iff.2 hidle) ?_)
    rintro rfl
    rw [fileName?_child_parent] at hfile
    cases hfile

namespace Layout

variable {l : Layout}

/-- A binary with a file name stands in the folder of the binaries. -/
theorem managed_isPrefix_place {name file : String} (hname : Path.separator ∉ name.toList)
    (hfile : Backup.nameOf (l.assemblyPath name) = .ok file) :
    l.managed.place <+: (l.assemblyPath name).place := by
  have hsome : ((l.assemblyPath name).fileName?).isSome := by
    unfold Backup.nameOf at hfile
    split at hfile
    · rename_i hfound
      rw [hfound]
      rfl
    · cases hfile
  rcases l.managed.place_child_cases hname hsome with heq | heq
  · exact heq ▸ List.prefix_refl _
  · exact heq ▸ List.prefix_append _ _

/-- The parts of a game are where the settings say. -/
theorem parts_of_discover {d : Disk} {root : Path} {s : Settings} (h : discover d root s = .ok l) :
    l.primary = l.assemblyPath s.primaryAssembly ∧ d.isFile l.primary = true ∧
      l.compiled = root.join s.compiledFolder := by
  obtain ⟨_, -, h⟩ := bind_eq_ok_iff.1 h
  obtain ⟨_, -, h⟩ := bind_eq_ok_iff.1 h
  obtain ⟨_, -, h⟩ := bind_eq_ok_iff.1 h
  obtain ⟨_, -, h⟩ := bind_eq_ok_iff.1 h
  obtain ⟨_, -, h⟩ := bind_eq_ok_iff.1 h
  dsimp only at h
  split at h
  · rename_i hfile
    cases h
    exact ⟨rfl, hfile, rfl⟩
  · cases h

/-- The primary binary of a game is a file in the folder of the binaries. -/
theorem primary_of_discover {d : Disk} {root : Path} {s : Settings}
    (h : discover d root s = .ok l) :
    l.primary = l.assemblyPath s.primaryAssembly ∧ d.isFile l.primary = true := by
  obtain ⟨hprimary, hfile, -⟩ := parts_of_discover h
  exact ⟨hprimary, hfile⟩

end Layout

end CilGraft
