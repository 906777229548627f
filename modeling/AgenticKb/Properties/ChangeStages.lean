import Mathlib.Data.List.Dedup
import Mathlib.Tactic.Linarith
import AgenticKb.Lib.Ranking
import AgenticKb.ContextBroker.ChangeContext
import AgenticKb.Properties.GraphReads

open AgenticKb.Lib

namespace AgenticKb.ContextBroker

variable {deps : ChangeDeps} {db : Database} {build_seq : Nat} {requester : Requester} {request : ChangeContextRequest}

theorem mem_visible_among {ids : List Uuid} {row : ArtifactRow}
    (h : row ∈ visible_among deps db build_seq requester ids) :
    row ∈ visible_rows deps.platform db build_seq requester := by
  obtain ⟨hfetched, hadmits⟩ := mem_filter_artifacts.1 h
  exact mem_filter_artifacts.2 ⟨(mem_fetch_artifacts.1 hfetched).1, hadmits⟩

theorem mem_by_artifact_id {rows : List ArtifactRow} {entry : Uuid × ArtifactRow} (h : entry ∈ by_artifact_id rows) :
    entry.2 ∈ rows := by
  cases Dict.mem_foldl_set ArtifactRow.artifact_id id h with
  | inl hnil => cases hnil
  | inr hrow =>
    obtain ⟨row, hrow, rfl⟩ := hrow
    exact hrow

theorem mem_code_rows {row : ArtifactRow} (h : row ∈ code_rows deps db build_seq requester request) :
    row ∈ visible_rows deps.platform db build_seq requester ∧ CODE_TYPES.contains row.artifact_type = true := by
  obtain ⟨hfound, htype⟩ := List.mem_filter.1 (mem_sorted.1 h)
  exact ⟨mem_visible_among hfound, htype⟩

theorem mem_neighbours {code : List ArtifactRow} {targets : Targets} {id : Uuid} {row : ArtifactRow}
    (h : (neighbours deps db build_seq requester code targets).get? id = some row) :
    row ∈ visible_rows deps.platform db build_seq requester :=
  mem_visible_among (mem_by_artifact_id (Dict.mem_of_get? h))

theorem file_ref_some {path reason : String} {confidence : Rat} {est_tokens : Nat} {file : FileRef}
    (h : file_ref path reason confidence est_tokens = some file) :
    file.path = path ∧ file.reason = reason ∧ file.confidence = confidence := by
  unfold file_ref at h
  split at h
  case isTrue =>
    obtain rfl := Option.some.inj h
    exact ⟨rfl, rfl, rfl⟩
  case isFalse => cases h

/-- A target file stands for a code artifact the requester may see, and says why it was taken. -/
def TargetFrom (rows : List ArtifactRow) (file : FileRef) : Prop :=
  ∃ row ∈ rows, CODE_TYPES.contains row.artifact_type = true ∧ file.path = file_of row ∧
    (file.reason = exact_symbol_reason row ∨ file.reason = file_name_reason row ∨ file.reason = LEXICAL_REASON)

/-- A test file stands for an artifact the requester may see. -/
def TestFrom (rows : List ArtifactRow) (file : FileRef) : Prop :=
  ∃ row ∈ rows, file.path = file_of row ∧
    (file.reason = tests_edge_reason row ∨ file.reason = REFERENCE_REASON ∨ file.reason = LOCATED_REASON)

def SymbolFrom (rows : List ArtifactRow) (symbol : String) : Prop :=
  ∃ row ∈ rows, row.artifact_type = .code_symbol ∧ row.title = some symbol

/-- What stage 2 keeps up. -/
structure TargetsSound (rows : List ArtifactRow) (targets : Targets) : Prop where
  files : ∀ file ∈ targets.files, TargetFrom rows file
  symbols : ∀ symbol ∈ targets.relevant_symbols, SymbolFrom rows symbol
  paths : targets.paths = targets.files.map (·.path)

theorem Targets.add_sound {rows : List ArtifactRow} {by_file_chars : Dict String Nat} {reason : ArtifactRow → String}
    {confidence : Rat} {targets targets' : Targets} {row : ArtifactRow} (hrow : row ∈ rows)
    (hcode : CODE_TYPES.contains row.artifact_type = true)
    (hreason : reason row = exact_symbol_reason row ∨ reason row = file_name_reason row ∨ reason row = LEXICAL_REASON)
    (h : TargetsSound rows targets) (hadd : targets.add by_file_chars reason confidence row = some targets') :
    TargetsSound rows targets' := by
  have hmid : ∀ mid : Targets, mid = (if row.artifact_type == .code_symbol then
      { targets with
        symbol_ids := targets.symbol_ids ++ [row.artifact_id]
        relevant_symbols := targets.relevant_symbols ++ row.title.toList.filter (· != "") }
      else targets) → TargetsSound rows mid := by
    rintro mid rfl
    split
    · rename_i hsymbol
      refine ⟨h.files, ?_, h.paths⟩
      intro symbol hmem
      cases List.mem_append.1 hmem with
      | inl hold => exact h.symbols symbol hold
      | inr hnew =>
        have htitle := (List.mem_filter.1 hnew).1
        exact ⟨row, hrow, by simpa using hsymbol, Option.mem_toList.1 htitle⟩
    · exact h
  unfold Targets.add at hadd
  extract_lets path mid at hadd
  have hsound := hmid mid rfl
  clear_value mid
  split at hadd
  case isTrue => exact Option.some.inj hadd ▸ hsound
  case isFalse =>
    obtain ⟨file, hfile, rfl⟩ := Option.map_eq_some_iff.1 hadd
    obtain ⟨hpath, hwhy, -⟩ := file_ref_some hfile
    refine ⟨?_, hsound.symbols, ?_⟩
    · intro other hother
      cases List.mem_append.1 hother with
      | inl hold => exact hsound.files other hold
      | inr hnew =>
        obtain rfl := List.mem_singleton.1 hnew
        exact ⟨row, hrow, hcode, hpath, by rwa [hwhy]⟩
    · rw [hsound.paths, List.map_append, List.map_singleton, hpath]

/-- Stage 2 takes visible code only. -/
theorem find_targets_sound {rows : List ArtifactRow} {text : String} {code : List ArtifactRow}
    {by_file_chars : Dict String Nat} {targets : Targets} {notes : List String}
    (hcode : ∀ row ∈ code, row ∈ rows ∧ CODE_TYPES.contains row.artifact_type = true)
    (h : find_targets deps text code by_file_chars = some (targets, notes)) : TargetsSound rows targets := by
  have hstart : TargetsSound rows {} := by
    constructor <;> simp
  simp only [find_targets, Option.bind_eq_bind, Option.bind_eq_some_iff] at h
  obtain ⟨by_symbol, hsymbol, by_name, hname, hlast⟩ := h
  have hsound : TargetsSound rows by_symbol := by
    refine foldlM_invariant ?_ hstart hsymbol
    intro mid row mid' hrow hmid hadd
    obtain ⟨hseen, htype⟩ := hcode row (List.mem_filter.1 hrow).1
    exact Targets.add_sound hseen htype (.inl rfl) hmid hadd
  have hsound' : TargetsSound rows by_name := by
    unfold file_targets at hname
    split at hname
    · refine foldlM_invariant ?_ hsound hname
      intro mid row mid' hrow hmid hadd
      obtain ⟨hseen, htype⟩ := hcode row (List.mem_filter.1 hrow).1
      exact Targets.add_sound hseen htype (.inr (.inl rfl)) hmid hadd
    · exact Option.some.inj hname ▸ hsound
  unfold lexical_target at hlast
  split at hlast
  · obtain ⟨last, hadd, hlast⟩ := Option.map_eq_some_iff.1 hlast
    obtain ⟨rfl, -⟩ := Prod.mk.inj hlast
    obtain ⟨hseen, htype⟩ := hcode _ List.mem_cons_self
    exact Targets.add_sound hseen htype (.inr (.inr rfl)) hsound' hadd
  · obtain ⟨rfl, -⟩ := Prod.mk.inj (Option.some.inj hlast)
    exact hsound'

/-- What stage 3 keeps up. -/
def TestsSound (good : FileRef → Prop) (target_scope : Option String) (tests : Tests) : Prop :=
  ∀ file ∈ tests.files, good file ∧ same_repo target_scope file.path = true

theorem Tests.add_sound {good : FileRef → Prop} {target_scope : Option String} {by_file_chars : Dict String Nat}
    {confidence : Rat} {tests tests' : Tests} {path reason : String}
    (hgood : ∀ file : FileRef, file.path = path → file.reason = reason → good file)
    (h : TestsSound good target_scope tests)
    (hadd : tests.add target_scope by_file_chars confidence path reason = some tests') :
    TestsSound good target_scope tests' := by
  unfold Tests.add at hadd
  split at hadd
  case isTrue => exact Option.some.inj hadd ▸ h
  case isFalse hfresh =>
    obtain ⟨file, hfile, rfl⟩ := Option.map_eq_some_iff.1 hadd
    obtain ⟨hpath, hwhy, -⟩ := file_ref_some hfile
    intro other hother
    cases List.mem_append.1 hother with
    | inl hold => exact h other hold
    | inr hnew =>
      obtain rfl := List.mem_singleton.1 hnew
      refine ⟨hgood other hpath hwhy, ?_⟩
      rw [hpath]
      simp only [Bool.or_eq_true, not_or, Bool.not_eq_true', Bool.not_eq_false] at hfresh
      exact hfresh.2

section Tests

variable {found code : List ArtifactRow} {targets : Targets} {by_file_chars by_file_chars' : Dict String Nat}
  {tests tests' : Tests}

theorem edge_tests_sound
    (h : edge_tests deps db build_seq requester code targets by_file_chars = some tests) :
    TestsSound (TestFrom (visible_rows deps.platform db build_seq requester)) targets.scope tests := by
  have hstart : TestsSound (TestFrom (visible_rows deps.platform db build_seq requester)) targets.scope {} :=
    fun file hfile => absurd hfile List.not_mem_nil
  refine foldlM_invariant ?_ hstart h
  intro mid e mid' _ hmid hadd
  split at hadd
  · split at hadd
    case h_1 row hrow =>
      apply Tests.add_sound _ hmid hadd
      exact fun file hpath hreason => ⟨row, mem_neighbours hrow, hpath, .inl hreason⟩
    case h_2 => exact Option.some.inj hadd ▸ hmid
  · exact Option.some.inj hadd ▸ hmid

theorem naming_tests_sound {rows : List ArtifactRow} (hfound : ∀ row ∈ found, row ∈ rows)
    (hsound : TestsSound (TestFrom rows) targets.scope tests)
    (h : naming_tests deps found targets by_file_chars tests = some tests') :
    TestsSound (TestFrom rows) targets.scope tests' := by
  refine foldlM_invariant ?_ hsound h
  intro mid row mid' hrow hmid hadd
  apply Tests.add_sound _ hmid hadd
  exact fun file hpath hreason => ⟨row, hfound row (List.mem_filter.1 hrow).1, hpath, .inr (.inl hreason)⟩

theorem located_tests_sound
    (hsound : TestsSound (TestFrom (visible_rows deps.platform db build_seq requester)) targets.scope tests)
    (h : located_tests deps db build_seq requester targets by_file_chars tests = some (by_file_chars', tests')) :
    TestsSound (TestFrom (visible_rows deps.platform db build_seq requester)) targets.scope tests' := by
  unfold located_tests at h
  split at h
  case isTrue =>
    refine foldlM_invariant (I := fun state : Dict String Nat × Tests =>
      TestsSound (TestFrom (visible_rows deps.platform db build_seq requester)) targets.scope state.2) ?_ hsound h
    intro mid row mid' hrow hmid hadd
    obtain ⟨next, hnext, rfl⟩ := Option.map_eq_some_iff.1 hadd
    apply Tests.add_sound _ hmid hnext
    exact fun file hpath hreason =>
      ⟨row, mem_visible_among (List.mem_filter.1 hrow).1, hpath, .inr (.inr hreason)⟩
  case isFalse =>
    obtain ⟨-, rfl⟩ := Prod.mk.inj (Option.some.inj h)
    exact hsound

/-- A test file that is only proposed. -/
def Proposed (paths : List String) (file : FileRef) : Prop :=
  file.reason = CONVENTION_REASON ∧ ∃ path ∈ paths, file.path ∈ conventional_test_paths path

/-- Only where no test was found is one proposed, and the answer then says so. -/
theorem conventional_tests_sound {notes : List String}
    (h : conventional_tests deps targets by_file_chars tests = some (tests', notes)) :
    (tests.files ≠ [] → tests' = tests) ∧
      (tests.files = [] → TestsSound (Proposed targets.paths) targets.scope tests' ∧
        (tests'.files = [] ∨ CONVENTION_NOTE ∈ notes)) := by
  unfold conventional_tests at h
  split at h
  case isTrue hnone =>
    rw [List.isEmpty_iff] at hnone
    obtain ⟨last, hlast, hpair⟩ := Option.map_eq_some_iff.1 h
    obtain ⟨rfl, rfl⟩ := Prod.mk.inj hpair
    refine ⟨fun hsome => absurd hnone hsome, fun _ => ⟨?_, ?_⟩⟩
    · have hstart : TestsSound (Proposed targets.paths) targets.scope tests := by
        intro file hfile
        rw [hnone] at hfile
        cases hfile
      refine foldlM_invariant ?_ hstart hlast
      intro mid path mid' hpath hmid hadd
      apply Tests.add_sound _ hmid hadd
      obtain ⟨target, htarget, hpath⟩ := List.mem_flatMap.1 hpath
      intro file hfile hreason
      refine ⟨hreason, target, ?_, by rwa [hfile]⟩
      exact List.mem_dedup.1 ((deps.set_order_perm _).mem_iff.1 htarget)
    · by_cases hempty : last.files = []
      · exact .inl hempty
      · refine .inr ?_
        rw [if_neg (by simpa using hempty)]
        exact List.mem_singleton_self _
  case isFalse hsome =>
    obtain ⟨rfl, -⟩ := Prod.mk.inj (Option.some.inj h)
    rw [List.isEmpty_iff] at hsome
    exact ⟨fun _ => rfl, fun hnone => absurd hnone hsome⟩

theorem mem_rank_tests {files : List FileRef} {file : FileRef} (h : file ∈ rank_tests deps targets files) : file ∈ files :=
  mem_sorted.1 (List.mem_of_mem_take h)

/-- Stage 3 finds visible artifacts within the target's service. -/
theorem find_tests_sound (hfound : ∀ row ∈ found, row ∈ visible_rows deps.platform db build_seq requester)
    (h : find_tests deps db build_seq requester found code targets by_file_chars = some (by_file_chars', tests)) :
    TestsSound (TestFrom (visible_rows deps.platform db build_seq requester)) targets.scope tests := by
  simp only [find_tests, Option.bind_eq_bind, Option.bind_eq_some_iff] at h
  obtain ⟨by_edge, hedge, by_name, hname, hlocated⟩ := h
  exact located_tests_sound (naming_tests_sound hfound (edge_tests_sound hedge) hname) hlocated

end Tests

section Dependencies

variable {query : String} {code : List ArtifactRow} {targets : Targets}

theorem scored_file_some {symbols : List (Uuid × ArtifactRow)} {entry : Uuid × ArtifactRow} {file : ScoredFile}
    (h : scored_file deps query code targets symbols entry = some file) :
    file.path = file_of entry.2 ∧ same_repo targets.scope file.path = true ∧
      file.reason = dependency_reason (imported_score deps query code targets symbols entry).2 := by
  unfold scored_file at h
  extract_lets path at h
  split at h
  case isTrue => cases h
  case isFalse hkeep =>
    dsimp only at h
    split at h
    case isTrue => cases h
    case isFalse =>
      obtain rfl := Option.some.inj h
      simp only [Bool.or_eq_true, not_or, Bool.not_eq_true', Bool.not_eq_false] at hkeep
      exact ⟨rfl, hkeep.2, rfl⟩

/-- The names by which the target uses an imported file, as the reason gives them. -/
def names_used (deps : ChangeDeps) (db : Database) (build_seq : Nat) (query : String) (code : List ArtifactRow)
    (targets : Targets) (entry : Uuid × ArtifactRow) : List String :=
  (imported_score deps query code targets (imported_symbols deps db build_seq code targets) entry).2

/-- A dependency file is one of the imported files that the requester may see. -/
def DependencyFrom (deps : ChangeDeps) (db : Database) (build_seq : Nat) (requester : Requester) (query : String)
    (code : List ArtifactRow) (targets : Targets) (path reason : String) (entry : Uuid × ArtifactRow) : Prop :=
  entry ∈ imported_files deps db build_seq requester code targets ∧ path = file_of entry.2 ∧
    reason = dependency_reason (names_used deps db build_seq query code targets entry)

theorem mem_scored_files {file : ScoredFile}
    (h : file ∈ scored_files deps db build_seq requester query code targets) :
    (∃ entry, DependencyFrom deps db build_seq requester query code targets file.path file.reason entry) ∧
      same_repo targets.scope file.path = true := by
  obtain ⟨entry, hentry, hfile⟩ := List.mem_filterMap.1 (mem_sorted.1 h)
  obtain ⟨hpath, hscope, hreason⟩ := scored_file_some hfile
  exact ⟨⟨entry, hentry, hpath, hreason⟩, hscope⟩

theorem DependencyFrom.visible {path reason : String} {entry : Uuid × ArtifactRow}
    (h : DependencyFrom deps db build_seq requester query code targets path reason entry) :
    entry.2 ∈ visible_rows deps.platform db build_seq requester :=
  mem_visible_among (mem_by_artifact_id h.1)

theorem mem_of_mem_unique {texts : List String} {text : String} (h : text ∈ unique texts) : text ∈ texts := by
  have hkept : ∀ text ∈ unique texts, text ∈ texts := by
    unfold unique
    apply foldl_invariant (I := fun out => ∀ text ∈ out, text ∈ texts)
    · intro out text htext hout other hother
      split at hother
      · exact hout other hother
      · cases List.mem_append.1 hother with
        | inl hold => exact hout other hold
        | inr hnew => exact List.mem_singleton.1 hnew ▸ htext
    · simp
  exact hkept text h

/-- Best first. -/
theorem scored_files_ranked :
    (scored_files deps db build_seq requester query code targets).Pairwise fun a b => b.score ≤ a.score := by
  let key (file : ScoredFile) : Rat ×ₗ Int := toLex (-file.score, -(file.proximity : Int))
  have hle : ∀ a b : ScoredFile, decide (key a ≤ key b) = true ↔ key a ≤ key b := fun _ _ => decide_eq_true_iff
  refine (pairwise_sorted hle _).imp ?_
  intro a b h
  have hfst : -a.score ≤ -b.score := by
    cases (Prod.Lex.toLex_le_toLex).1 h with
    | inl hlt => exact hlt.le
    | inr heq => exact heq.1.le
  exact neg_le_neg_iff.1 hfst

/-- Stage 4 takes visible files within the target's service, best first. -/
theorem find_dependencies_sound {by_file_chars : Dict String Nat} {files : List FileRef}
    (h : find_dependencies deps db build_seq requester query code targets by_file_chars = some files) :
    (∀ file ∈ files, (∃ entry, DependencyFrom deps db build_seq requester query code targets file.path file.reason entry) ∧
      same_repo targets.scope file.path = true) ∧
    files.length ≤ MAX_DEPENDENCY_FILES ∧
    files.Pairwise fun a b => b.confidence ≤ a.confidence := by
  have hmatch := forall₂_mapM h
  refine ⟨?_, ?_, ?_⟩
  · intro file hfile
    obtain ⟨n, hn, rfl⟩ := List.getElem_of_mem hfile
    obtain ⟨hlength, hget⟩ := List.forall₂_iff_get.1 hmatch
    obtain ⟨hpath, hreason, -⟩ := file_ref_some (hget n (by omega) hn)
    rw [List.get_eq_getElem] at hpath hreason
    rw [hpath, hreason]
    exact mem_scored_files (List.mem_of_mem_take (List.getElem_mem _))
  · rw [← hmatch.length_eq, List.length_take]
    omega
  · have hconfidence : files.map (·.confidence) =
        ((scored_files deps db build_seq requester query code targets).take MAX_DEPENDENCY_FILES).map fun file =>
          min (19 / 20) (11 / 20 + file.score / 2) := by
      have hboth := hmatch.imp fun file ref hfile => (file_ref_some hfile).2.2.symm
      rw [← List.forall₂_map_right_iff, ← List.forall₂_map_left_iff (f := fun file : ScoredFile =>
        min (19 / 20 : Rat) (11 / 20 + file.score / 2)), List.forall₂_eq_eq_eq] at hboth
      exact hboth.symm
    rw [← List.pairwise_map (f := FileRef.confidence) (R := fun a b => b ≤ a), hconfidence, List.pairwise_map]
    refine (scored_files_ranked.sublist (List.take_sublist _ _)).imp ?_
    intro a b hscore
    exact min_le_min_left _ (by linarith)

end Dependencies

/-- Targets of one service, whatever else they are, have it. -/
theorem Targets.scope_eq {targets : Targets} {scope : String} (hsome : ∃ path ∈ targets.paths, repo_scope path = some scope)
    (hall : ∀ path ∈ targets.paths, ∀ other, repo_scope path = some other → other = scope) :
    targets.scope = some scope := by
  have hmem : scope ∈ (targets.paths.filterMap repo_scope).dedup := by
    rw [List.mem_dedup, List.mem_filterMap]
    exact hsome
  have hsame : ∀ other ∈ (targets.paths.filterMap repo_scope).dedup, other = scope := by
    intro other hother
    obtain ⟨path, hpath, hscope⟩ := List.mem_filterMap.1 (List.mem_dedup.1 hother)
    exact hall path hpath other hscope
  have hnodup := List.nodup_dedup (targets.paths.filterMap repo_scope)
  unfold Targets.scope
  generalize (targets.paths.filterMap repo_scope).dedup = scopes at hmem hsame hnodup
  cases scopes with
  | nil => cases hmem
  | cons first rest =>
    have hfirst := hsame first List.mem_cons_self
    cases rest with
    | nil => rw [hfirst]
    | cons second rest =>
      have hsecond := hsame second (List.mem_cons_of_mem _ List.mem_cons_self)
      rw [hfirst, hsecond] at hnodup
      exact absurd List.mem_cons_self (List.nodup_cons.1 hnodup).1

theorem scope_of_same_repo {scope other path : String} (h : same_repo (some scope) path = true)
    (hother : repo_scope path = some other) : other = scope := by
  unfold same_repo at h
  rw [hother] at h
  exact (beq_iff_eq.1 h).symm

end AgenticKb.ContextBroker
