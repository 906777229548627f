import AgenticKb.AgentRunner.Build
import AgenticKb.Lib.Run

open AgenticKb.Lib

namespace AgenticKb.AgentRunner

section Bounds

variable (lane : Lane) (change_pack : ChangePack)

/-- The files of a change pack that the lane works with. -/
def resolved_files : ResolvedBuildFiles := resolve_build_files lane.workspace lane.files change_pack

/-- Where a path leads from the workspace, and where it is written. -/
def read_place (path : String) : Place := (lane.workspace.joinpath path).place

def write_place (path : String) : Place := (lane.worktree.joinpath path).place

/-- The lane reads files of the workspace alone, writes targets and the primary test into the worktree alone, and writes
no file that is the worktree's copy of a dependency. -/
structure Confined (effects : List Effect) : Prop where
  reads : ∀ place, .read place ∈ effects →
    lane.workspace.place <+: place ∧ ∃ text, lane.files.node place = some (.file text)
  writes : ∀ place text, .write place text ∈ effects → lane.worktree.place <+: place ∧
    ∃ path ∈ (resolved_files lane change_pack).target ++ (resolved_files lane change_pack).test.take 1,
      place = write_place lane path
  dependencies : ∀ place text, .write place text ∈ effects → ∀ path ∈ (resolved_files lane change_pack).dependency,
    ∀ rest, place = lane.worktree.place ++ rest → read_place lane path ≠ lane.workspace.place ++ rest

/-- Every file that is read or may be written goes down again below the workspace the way it has climbed, every file that
may be written does so below the worktree, and no dependency is a copy of one that may be written. -/
structure InBounds : Prop where
  reads : ∀ path ∈ (resolved_files lane change_pack).all_files ++ (resolved_files lane change_pack).writable,
    ReturnsTo lane.workspace.place (PurePath.parse path).parts
  writes : ∀ path ∈ (resolved_files lane change_pack).writable,
    ReturnsTo lane.worktree.place (PurePath.parse path).parts
  apart : ∀ path ∈ (resolved_files lane change_pack).writable, ∀ other ∈ (resolved_files lane change_pack).dependency,
    read_place lane other ≠ lane.workspace.place ++ (write_place lane path).drop lane.worktree.place.length

/-- A read of one of some files of the workspace. -/
def Reads (paths : List String) (effect : Effect) : Prop :=
  ∃ path ∈ paths, effect = .read (read_place lane path) ∧ lane.files.is_file (lane.workspace.joinpath path) = true

/-- A read of a writable file, or a write of one. -/
def Allowed (writable : List String) (effect : Effect) : Prop :=
  Reads lane writable effect ∨ ∃ path ∈ writable, ∃ text, effect = .write (write_place lane path) text

/-- The accepted blocks are of writable files, and only such have been read. -/
structure WithinWritable (writable : List String) (validated : Validated) : Prop where
  accepted : ∀ block ∈ validated.accepted, block.1 ∈ writable
  reads : ∀ effect ∈ validated.reads, Reads lane writable effect

end Bounds

section Resolved

variable {lane : Lane} {change_pack : ChangePack} {paths refs : List String} {path rel : String}

theorem not_absolute_of_rel_to_workspace {workspace : PurePath} (h : rel_to_workspace workspace path = some rel) :
    (PurePath.parse rel).is_absolute = false := by
  rw [rel_to_workspace] at h
  split at h
  · rename_i hrelative
    obtain rfl := Option.some.inj h
    simpa using hrelative
  · obtain ⟨rest, hrest, rfl⟩ := Option.map_eq_some_iff.1 h
    exact PurePath.not_absolute_of_relative_to hrest

/-- What is kept of a change pack are relative paths of existing files. -/
theorem mem_existing (h : rel ∈ existing lane.workspace lane.files refs) :
    (PurePath.parse rel).is_absolute = false ∧ lane.files.is_file (lane.workspace.joinpath rel) = true := by
  have hall : ∀ rel ∈ existing lane.workspace lane.files refs,
      (PurePath.parse rel).is_absolute = false ∧ lane.files.is_file (lane.workspace.joinpath rel) = true := by
    apply foldl_invariant (I := fun seen : List String => ∀ rel ∈ seen,
      (PurePath.parse rel).is_absolute = false ∧ lane.files.is_file (lane.workspace.joinpath rel) = true)
    · intro seen path _ hseen
      cases hrel : rel_to_workspace lane.workspace path with
      | none => exact hseen
      | some rel =>
        dsimp only
        split
        · rename_i hnew
          rw [Bool.and_eq_true_iff] at hnew
          rw [List.forall_mem_append]
          exact ⟨hseen, List.forall_mem_singleton.2 ⟨not_absolute_of_rel_to_workspace hrel, hnew.2⟩⟩
        · exact hseen
    · exact fun rel hrel => absurd hrel List.not_mem_nil
  exact hall rel h

theorem mem_writable : path ∈ (resolved_files lane change_pack).writable ↔
    path ∈ (resolved_files lane change_pack).target ++ (resolved_files lane change_pack).test.take 1 := List.mem_dedup

/-- The files that are read and those that may be written are paths of the change pack that exist. -/
theorem mem_resolved (h : path ∈ (resolved_files lane change_pack).all_files ++ (resolved_files lane change_pack).writable) :
    (PurePath.parse path).is_absolute = false ∧ lane.files.is_file (lane.workspace.joinpath path) = true := by
  have hkept : path ∈ (resolved_files lane change_pack).target ++ (resolved_files lane change_pack).test ++
      (resolved_files lane change_pack).dependency := by
    simp only [List.mem_append]
    cases List.mem_append.1 h with
    | inl hread =>
      have hordered := List.mem_of_mem_take hread
      simp only [List.mem_append] at hordered
      exact hordered.imp_left fun h => h.imp_right List.mem_of_mem_take
    | inr hwrite => exact .inl ((List.mem_append.1 (mem_writable.1 hwrite)).imp_right List.mem_of_mem_take)
  simp only [List.mem_append] at hkept
  rcases hkept with (htarget | htest) | hdependency
  · exact mem_existing htarget
  · exact mem_existing htest
  · exact mem_existing hdependency

end Resolved

section Steps

variable {lane : Lane} {writable : List String} {validated : Validated} {effect : Effect}

/-- One block is accepted only for a writable file, and only such a file is read for it. -/
theorem withinWritable_validate_file_block (h : WithinWritable lane writable validated) (block : String × String) :
    WithinWritable lane writable (validate_file_block lane writable validated block) := by
  obtain ⟨path, content⟩ := block
  rw [validate_file_block]
  dsimp only
  by_cases hpath : path ∈ writable
  · have haccept : ∀ entry ∈ validated.accepted.set path content, entry.1 ∈ writable := by
      intro entry hentry
      cases Dict.mem_set hentry with
      | inl hold => exact h.accepted entry hold
      | inr hnew => exact hnew ▸ hpath
    rw [if_neg (by simpa using hpath)]
    by_cases hplaceholder : searches (PLACEHOLDER_RE lane.unicode) content = true
    · rw [if_pos hplaceholder]
      exact ⟨h.accepted, h.reads⟩
    · rw [if_neg hplaceholder]
      cases (if endswith path ".py" = true then lane.parse_error content else none) with
      | some error => exact ⟨h.accepted, h.reads⟩
      | none =>
        cases hold : lane.files.read_text (lane.workspace.joinpath path) with
        | none => exact ⟨haccept, h.reads⟩
        | some old =>
          have hread : Reads lane writable (.read (lane.workspace.joinpath path).place) :=
            ⟨path, hpath, rfl, by rw [FileTree.is_file, hold]; rfl⟩
          have hreads := List.forall_mem_append.2 ⟨h.reads, List.forall_mem_singleton.2 hread⟩
          dsimp only
          split
          · exact ⟨h.accepted, hreads⟩
          · exact ⟨haccept, hreads⟩
  · rw [if_pos (by simpa using hpath)]
    exact ⟨h.accepted, h.reads⟩

theorem withinWritable_validate_file_blocks (lane : Lane) (writable : List String) (blocks : Dict String String) :
    WithinWritable lane writable (validate_file_blocks lane writable blocks) := by
  apply foldl_invariant (I := WithinWritable lane writable)
  · exact fun _ block _ h => withinWritable_validate_file_block h block
  · exact ⟨fun _ h => absurd h List.not_mem_nil, fun _ h => absurd h List.not_mem_nil⟩

theorem allowed_write_files {blocks : Dict String String} (h : ∀ block ∈ blocks, block.1 ∈ writable) :
    ∀ effect ∈ write_files lane blocks, Allowed lane writable effect := by
  intro effect heffect
  obtain ⟨block, hblock, rfl⟩ := List.mem_map.1 heffect
  exact .inr ⟨block.1, h block hblock, _, rfl⟩

theorem WithinWritable.allowed (h : WithinWritable lane writable validated) :
    ∀ effect ∈ validated.reads, Allowed lane writable effect := fun effect heffect => .inl (h.reads effect heffect)

/-- Whatever the model answers, the attempts read and write writable files alone. -/
theorem allowed_attempts (lane : Lane) (replies : Nat → String) (writable : List String) (left call : Nat) (gated : Bool)
    {current : Dict String String} (h : ∀ block ∈ current, block.1 ∈ writable) :
    ∀ effect ∈ (attempts lane replies writable left call gated current).1, Allowed lane writable effect := by
  induction left generalizing call gated current with
  | zero => exact fun effect heffect => absurd heffect List.not_mem_nil
  | succ left ih =>
    have hwritten : ∀ effect ∈ write_files lane current, Allowed lane writable effect := allowed_write_files h
    have hnext := withinWritable_validate_file_blocks lane writable (extract lane writable (replies call))
    have hstep := List.forall_mem_append.2 ⟨hwritten, hnext.allowed⟩
    have hrest := List.forall_mem_append.2 ⟨hstep, ih (call + 1) true hnext.accepted⟩
    rw [attempts]
    dsimp only
    generalize (if gated = true then GateDecision.approved else lane.gate (lane.worktree_diff current)) = decision
    split
    · exact hwritten
    · split
      · exact hwritten
      · split
        · exact hwritten
        · split
          · exact hwritten
          · split
            · exact hwritten
            · split
              · exact hstep
              · exact hrest

end Steps

section Run

variable {lane : Lane} {change_pack : ChangePack}

/-- Whatever the model answers, the lane reads the resolved files and reads and writes writable ones. -/
theorem effects_of_build (lane : Lane) (replies : Nat → String) (change_pack : ChangePack) :
    ∀ effect ∈ (build lane replies change_pack).1,
      Reads lane (resolved_files lane change_pack).all_files effect ∨
        Allowed lane (resolved_files lane change_pack).writable effect := by
  have hfiles : ∀ effect ∈ read_files lane.workspace (resolved_files lane change_pack).all_files,
      Reads lane (resolved_files lane change_pack).all_files effect := by
    intro effect heffect
    obtain ⟨path, hpath, rfl⟩ := List.mem_map.1 heffect
    exact ⟨path, hpath, rfl, (mem_resolved (List.mem_append_left _ hpath)).2⟩
  have hread : ∀ effect ∈ read_files lane.workspace (resolved_files lane change_pack).all_files,
      Reads lane (resolved_files lane change_pack).all_files effect ∨
        Allowed lane (resolved_files lane change_pack).writable effect := fun effect heffect => .inl (hfiles effect heffect)
  rw [build, ← resolved_files]
  dsimp only
  generalize implementer_blocks lane replies (resolved_files lane change_pack).writable = found
  have hvalid := withinWritable_validate_file_blocks lane (resolved_files lane change_pack).writable found.1
  have hchecked := List.forall_mem_append.2 ⟨hread, fun effect heffect => .inr (hvalid.allowed effect heffect)⟩
  have hdone := List.forall_mem_append.2 ⟨hchecked, fun effect heffect => .inr (allowed_attempts lane replies
    (resolved_files lane change_pack).writable (MAX_FIX_ATTEMPTS + 1) found.2 false hvalid.accepted effect heffect)⟩
  split
  · exact fun effect heffect => absurd heffect List.not_mem_nil
  · split
    · exact hread
    · split
      · exact hchecked
      · split
        · exact hchecked
        · exact hdone

/-- A lane that lacks a target or a test does nothing. -/
theorem build_of_missing (replies : Nat → String)
    (h : ((resolved_files lane change_pack).missing_target || (resolved_files lane change_pack).missing_test) = true) :
    (build lane replies change_pack).1 = [] := by
  rw [build, ← resolved_files]
  dsimp only
  rw [if_pos h]

theorem read_place_of_returnsTo {path : String} (hrelative : (PurePath.parse path).is_absolute = false)
    (h : ReturnsTo lane.workspace.place (PurePath.parse path).parts) : lane.workspace.place <+: read_place lane path := by
  rw [read_place, PurePath.place_joinpath hrelative]
  exact prefix_foldl_climb_iff.2 h

theorem write_place_of_returnsTo {path : String} (hrelative : (PurePath.parse path).is_absolute = false)
    (h : ReturnsTo lane.worktree.place (PurePath.parse path).parts) : lane.worktree.place <+: write_place lane path := by
  rw [write_place, PurePath.place_joinpath hrelative]
  exact prefix_foldl_climb_iff.2 h

/-- Whatever the model, the parser, git, the operator and the tests say, a lane that lacks a target or a test, or whose
files are in bounds, is confined. -/
theorem build_confined (lane : Lane) (change_pack : ChangePack)
    (h : ((resolved_files lane change_pack).missing_target || (resolved_files lane change_pack).missing_test) = true ∨
      InBounds lane change_pack) (replies : Nat → String) :
    Confined lane change_pack (build lane replies change_pack).1 := by
  cases h with
  | inl hmissing =>
    rw [build_of_missing replies hmissing]
    exact ⟨fun _ h => absurd h List.not_mem_nil, fun _ _ h => absurd h List.not_mem_nil,
      fun _ _ h => absurd h List.not_mem_nil⟩
  | inr hbounds =>
    have heffects := effects_of_build lane replies change_pack
    have hread : ∀ paths place, (∀ path ∈ paths, path ∈ (resolved_files lane change_pack).all_files ++
        (resolved_files lane change_pack).writable) → Reads lane paths (.read place) →
          lane.workspace.place <+: place ∧ ∃ text, lane.files.node place = some (.file text) := by
      intro paths place hpaths hreads
      obtain ⟨path, hpath, heq, hfile⟩ := hreads
      obtain ⟨text, htext⟩ := Option.isSome_iff_exists.1 hfile
      rw [Effect.read.inj heq]
      exact ⟨read_place_of_returnsTo (mem_resolved (hpaths path hpath)).1 (hbounds.reads path (hpaths path hpath)), text,
        FileTree.node_place htext⟩
    have hwrite : ∀ place text, .write place text ∈ (build lane replies change_pack).1 →
        ∃ path ∈ (resolved_files lane change_pack).writable, place = write_place lane path := by
      intro place text heffect
      rcases heffects _ heffect with ⟨_, _, heq, _⟩ | ⟨_, _, heq, _⟩ | ⟨path, hpath, text', heq⟩
      · cases heq
      · cases heq
      · exact ⟨path, hpath, (Effect.write.inj heq).1⟩
    refine ⟨?_, ?_, ?_⟩
    · intro place heffect
      rcases heffects _ heffect with hfiles | hreads | ⟨_, _, _, heq⟩
      · exact hread _ place (fun path hpath => List.mem_append_left _ hpath) hfiles
      · exact hread _ place (fun path hpath => List.mem_append_right _ hpath) hreads
      · cases heq
    · intro place text heffect
      obtain ⟨path, hpath, rfl⟩ := hwrite place text heffect
      refine ⟨?_, path, mem_writable.1 hpath, rfl⟩
      exact write_place_of_returnsTo (mem_resolved (List.mem_append_right _ hpath)).1 (hbounds.writes path hpath)
    · intro place text heffect other hother rest hplace
      obtain ⟨path, hpath, rfl⟩ := hwrite place text heffect
      have hapart := hbounds.apart path hpath other hother
      rw [hplace, List.drop_left] at hapart
      exact hapart

/-- The reads need the bound: a lane that has its target and its test reads all its files before it asks the model. -/
theorem returnsTo_of_confined {replies : Nat → String}
    (hpresent : ((resolved_files lane change_pack).missing_target || (resolved_files lane change_pack).missing_test) = false)
    (h : Confined lane change_pack (build lane replies change_pack).1) :
    ∀ path ∈ (resolved_files lane change_pack).all_files,
      ReturnsTo lane.workspace.place (PurePath.parse path).parts := by
  intro path hpath
  have hread : .read (read_place lane path) ∈ read_files lane.workspace (resolved_files lane change_pack).all_files :=
    List.mem_map.2 ⟨path, hpath, rfl⟩
  have hbuild : .read (read_place lane path) ∈ (build lane replies change_pack).1 := by
    rw [build, ← resolved_files]
    dsimp only
    rw [if_neg (by rw [hpresent]; decide)]
    split
    · exact hread
    · split
      · exact List.mem_append_left _ hread
      · split
        · exact List.mem_append_left _ hread
        · exact List.mem_append_left _ (List.mem_append_left _ hread)
  have hunder := (h.reads _ hbuild).1
  rw [read_place, PurePath.place_joinpath (mem_resolved (List.mem_append_left _ hpath)).1] at hunder
  exact prefix_foldl_climb_iff.1 hunder

/-- A checkout with three files beside a directory that it does not hold. -/
private def checkout : FileTree where
  node place :=
    if [["repo", "src", "util.py"], ["repo", "src", "base.py"], ["repo", "tests", "test_util.py"],
      ["shared", "util.py"]].contains place then some (.file "x = 0\n")
    else if [[], ["repo"], ["repo", "src"], ["repo", "tests"], ["shared"]].contains place then some .directory
    else none

/-- A lane in which all goes well. -/
private def smooth_lane : Lane where
  unicode := .ascii
  workspace := .parse "/repo"
  files := checkout
  worktree := .parse "/tmp/kb-runner-wt-1/tree"
  worktree_added := true
  set_order paths := paths
  set_order_perm _ := .refl _
  parse_error _ := none
  worktree_diff _ := "diff"
  gate _ := .approved
  run_pytest _ _ := true

private def file_reply (path : String) : Nat → String := fun _ =>
  "<<<FILE path=\"" ++ path ++ "\">\nx = 1\n<<<END_FILE>>>"

private def plain_pack : ChangePack :=
  { target_files := ["/repo/src/util.py"], test_files := ["tests/test_util.py"], dependency_files := ["./src/base.py"] }

theorem plain_pack_confined :
    Confined smooth_lane plain_pack (build smooth_lane (file_reply "src/util.py") plain_pack).1 :=
  build_confined smooth_lane plain_pack (.inr ⟨by decide +kernel, by decide +kernel, by decide +kernel⟩) _

/-- A target outside the workspace is read there and written beside the worktree; and a dependency that is spelled
differently from a target is written with it. -/
theorem lane_escapes :
    (¬Confined smooth_lane { plain_pack with target_files := ["/repo/../shared/util.py"] }
      (build smooth_lane (file_reply "../shared/util.py")
        { plain_pack with target_files := ["/repo/../shared/util.py"] }).1) ∧
    ¬Confined smooth_lane { plain_pack with dependency_files := ["./src/util.py"] }
      (build smooth_lane (file_reply "src/util.py") { plain_pack with dependency_files := ["./src/util.py"] }).1 := by
  constructor
  · intro h
    have hread := (h.reads ["shared", "util.py"] (by decide +kernel)).1
    exact absurd hread (by decide +kernel)
  · intro h
    have hwrite := h.dependencies ["tmp", "kb-runner-wt-1", "tree", "src", "util.py"] "x = 1\n" (by decide +kernel)
      "./src/util.py" (by decide +kernel) ["src", "util.py"] (by decide +kernel)
    exact absurd hwrite (by decide +kernel)

end Run

end AgenticKb.AgentRunner
