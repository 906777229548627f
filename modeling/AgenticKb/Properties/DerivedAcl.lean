import AgenticKb.Domain.AclIntersection

open AgenticKb.Lib

namespace AgenticKb

/-- The team is on every list that is not everybody's. -/
def OnEvery (acl_rows : List (List String)) (team : String) : Prop := ∀ acl ∈ acl_rows, acl ≠ [] → team ∈ acl

section Merge

variable {acl_rows : List (List String)} {teams : List String} {team : String}

/-- Only lists of everybody merge to everybody's. -/
theorem merge_path_acls_public (h : ∀ acl ∈ acl_rows, acl = []) : merge_path_acls acl_rows = [] := by
  have hnone : (acl_rows.filter fun acl => !acl.isEmpty) = [] := by
    rw [List.filter_eq_nil_iff]
    intro acl hacl
    simp [h acl hacl]
  rw [merge_path_acls, hnone]

/-- Where a list restricts, the merged one holds the teams of all that do, or nobody's. -/
theorem merge_path_acls_restricted (h : ∃ acl ∈ acl_rows, acl ≠ []) :
    merge_path_acls acl_rows ≠ [] ∧ ∀ team ∉ DENY_ALL_ACL, team ∈ merge_path_acls acl_rows ↔ OnEvery acl_rows team := by
  obtain ⟨acl, hacl, hne⟩ := h
  have hmem : ∀ acl, acl ∈ (acl_rows.filter fun acl => !acl.isEmpty) ↔ acl ∈ acl_rows ∧ acl ≠ [] := by
    intro acl
    simp [List.mem_filter]
  unfold merge_path_acls
  cases hconstraints : acl_rows.filter fun acl => !acl.isEmpty with
  | nil =>
    have hin := (hmem acl).2 ⟨hacl, hne⟩
    rw [hconstraints] at hin
    simp at hin
  | cons first rest =>
    dsimp only
    have hon : ∀ team, team ∈ (first.dedup.filter fun team => rest.all fun acl => acl.contains team) ↔
        OnEvery acl_rows team := by
      intro team
      have hevery : OnEvery acl_rows team ↔ ∀ acl ∈ first :: rest, team ∈ acl := by
        rw [← hconstraints]
        constructor
        · intro h acl hacl
          exact h acl ((hmem acl).1 hacl).1 ((hmem acl).1 hacl).2
        · intro h acl hacl hne
          exact h acl ((hmem acl).2 ⟨hacl, hne⟩)
      rw [hevery, List.mem_filter, List.mem_dedup, List.forall_mem_cons]
      simp
    split
    · rename_i hempty
      refine ⟨by simp [DENY_ALL_ACL], ?_⟩
      intro team hteam
      rw [List.isEmpty_iff] at hempty
      constructor
      · intro hdenied
        exact absurd hdenied hteam
      · intro hevery
        rw [← hon, hempty] at hevery
        simp at hevery
    · rename_i hsome
      refine ⟨?_, fun team _ => by rw [mem_sorted, hon]⟩
      intro hnil
      apply hsome
      rw [List.isEmpty_iff]
      apply List.eq_nil_iff_forall_not_mem.2
      intro team hteam
      rw [← @mem_sorted _ str_le, hnil] at hteam
      simp at hteam

theorem acl_admits_iff {acl_teams : List String} :
    acl_admits teams acl_teams = true ↔ acl_teams = [] ∨ ∃ team ∈ teams, team ∈ acl_teams := by
  simp [acl_admits]

/-- Whoever reads what the lists merge to reads every one of them, and a requester of one team who reads every one
reads what they merge to. -/
theorem merge_path_acls_narrows (hteams : ∀ team ∈ teams, team ∉ DENY_ALL_ACL) :
    (acl_admits teams (merge_path_acls acl_rows) = true → ∀ acl ∈ acl_rows, acl_admits teams acl = true) ∧
      (teams = [team] → (∀ acl ∈ acl_rows, acl_admits teams acl = true) →
        acl_admits teams (merge_path_acls acl_rows) = true) := by
  by_cases hpublic : ∀ acl ∈ acl_rows, acl = []
  · refine ⟨?_, ?_⟩
    · intro _ acl hacl
      rw [hpublic acl hacl]
      rfl
    · intro _ _
      rw [merge_path_acls_public hpublic]
      rfl
  · push Not at hpublic
    obtain ⟨hrestricts, hmem⟩ := merge_path_acls_restricted hpublic
    refine ⟨?_, ?_⟩
    · intro hadmits acl hacl
      rw [acl_admits_iff] at hadmits
      obtain ⟨team, hteam, hon⟩ := hadmits.resolve_left hrestricts
      rw [hmem team (hteams team hteam)] at hon
      by_cases hopen : acl = []
      · rw [hopen]
        rfl
      · exact acl_admits_iff.2 (.inr ⟨team, hteam, hon acl hacl hopen⟩)
    · rintro rfl hadmits
      have hteam : team ∈ [team] := List.mem_singleton_self team
      refine acl_admits_iff.2 (.inr ⟨team, hteam, (hmem team (hteams team hteam)).2 ?_⟩)
      intro acl hacl hopen
      have hone := hadmits acl hacl
      rw [acl_admits_iff] at hone
      obtain ⟨holder, hholder, hin⟩ := hone.resolve_left hopen
      exact List.mem_singleton.1 hholder ▸ hin

end Merge

section Derived

variable {target_paths : List String} {path_acls : Dict String (List String)} {teams : List String}

/-- The lists of the input paths that resolve. -/
def resolved_acls (target_paths : List String) (path_acls : Dict String (List String)) : List (List String) :=
  target_paths.filterMap path_acls.get?

theorem commit_acl_intersection_resolved (h : resolved_acls target_paths path_acls ≠ []) :
    commit_acl_intersection target_paths path_acls = merge_path_acls (resolved_acls target_paths path_acls) := by
  unfold resolved_acls at h ⊢
  unfold commit_acl_intersection
  split
  · rename_i hnone
    exact absurd hnone h
  · rfl

/-- Nobody but a holder of the sentinel reads what has no resolved input. -/
theorem commit_acl_intersection_unresolved (h : resolved_acls target_paths path_acls = [])
    (hteams : ∀ team ∈ teams, team ∉ DENY_ALL_ACL) :
    acl_admits teams (commit_acl_intersection target_paths path_acls) = false := by
  unfold resolved_acls at h
  have hdenied : commit_acl_intersection target_paths path_acls = DENY_ALL_ACL := by
    rw [commit_acl_intersection, h]
  rw [hdenied, Bool.eq_false_iff, Ne, acl_admits_iff]
  rintro (hempty | ⟨team, hteam, hin⟩)
  · simp [DENY_ALL_ACL] at hempty
  · exact hteams team hteam hin

/-- A derived list admits a requester only if every list it was derived from does; for a requester of one team, if and
only if. With no resolved input it admits nobody, but lists merged of no rows admit everybody. -/
theorem derived_acls_narrow (target_paths : List String) (path_acls : Dict String (List String))
    (acl_rows : List (List String)) (teams : List String) (hteams : ∀ team ∈ teams, team ∉ DENY_ALL_ACL) :
    ((acl_admits teams (commit_acl_intersection target_paths path_acls) = true →
        ∀ acl ∈ resolved_acls target_paths path_acls, acl_admits teams acl = true) ∧
      (∀ team, teams = [team] → resolved_acls target_paths path_acls ≠ [] →
        (∀ acl ∈ resolved_acls target_paths path_acls, acl_admits teams acl = true) →
          acl_admits teams (commit_acl_intersection target_paths path_acls) = true) ∧
      (resolved_acls target_paths path_acls = [] →
        acl_admits teams (commit_acl_intersection target_paths path_acls) = false)) ∧
    (acl_admits teams (merge_path_acls acl_rows) = true → ∀ acl ∈ acl_rows, acl_admits teams acl = true) ∧
    (∀ team, teams = [team] → (∀ acl ∈ acl_rows, acl_admits teams acl = true) →
      acl_admits teams (merge_path_acls acl_rows) = true) ∧
    (acl_rows = [] → acl_admits teams (merge_path_acls acl_rows) = true) := by
  have hmerge : ∀ rows team, (acl_admits teams (merge_path_acls rows) = true → ∀ acl ∈ rows, acl_admits teams acl = true) ∧
      (teams = [team] → (∀ acl ∈ rows, acl_admits teams acl = true) → acl_admits teams (merge_path_acls rows) = true) :=
    fun rows team => merge_path_acls_narrows hteams
  refine ⟨⟨?_, ?_, ?_⟩, (hmerge acl_rows "").1, fun team => (hmerge acl_rows team).2, ?_⟩
  · intro hadmits
    by_cases hnone : resolved_acls target_paths path_acls = []
    · simp [hnone]
    · rw [commit_acl_intersection_resolved hnone] at hadmits
      exact (hmerge _ "").1 hadmits
  · intro team hone hsome hadmits
    rw [commit_acl_intersection_resolved hsome]
    exact (hmerge _ team).2 hone hadmits
  · exact fun hnone => commit_acl_intersection_unresolved hnone hteams
  · rintro rfl
    rfl

/-- A path of team `a` and one of teams `a` and `b`, for a requester of team `b`. -/
theorem derived_acls_narrow_teams :
    (∀ team ∈ ["b"], team ∉ DENY_ALL_ACL) ∧
      acl_admits ["b"] (commit_acl_intersection ["x", "y"] [("x", ["a"]), ("y", ["b", "a"])]) = false := by
  have hteams : ∀ team ∈ ["b"], team ∉ DENY_ALL_ACL := by decide
  refine ⟨hteams, ?_⟩
  rw [Bool.eq_false_iff]
  intro hadmits
  have hx := (derived_acls_narrow ["x", "y"] [("x", ["a"]), ("y", ["b", "a"])] [] ["b"] hteams).1.1 hadmits ["a"]
    (by decide)
  revert hx
  decide

/-- No rows merge to everybody's list. -/
theorem merge_path_acls_no_rows : ¬ ∀ (acl_rows : List (List String)) (teams : List String),
    (∀ team ∈ teams, team ∉ DENY_ALL_ACL) → acl_rows = [] → acl_admits teams (merge_path_acls acl_rows) = false := by
  intro h
  have hdenied := h [] [] (by simp) rfl
  revert hdenied
  decide

end Derived

end AgenticKb
