import Mathlib.Data.List.Dedup
import AgenticKb.Lib.Python

open AgenticKb.Lib

namespace AgenticKb

/-- The broker's reading of an access list: an empty one admits every requester, any other one a
requester who holds one of its teams. -/
def acl_admits (teams acl_teams : List String) : Bool :=
  acl_teams.isEmpty || teams.any fun team => acl_teams.contains team

/-- `acl` admits no requester whom `bound` turns away. -/
def NoWider (acl bound : List String) : Prop :=
  ∀ teams, acl_admits teams acl = true → acl_admits teams bound = true

theorem NoWider.refl (acl : List String) : NoWider acl acl := fun _ h => h

/-- Only the list of everybody is as wide as an empty one; any other bounds the lists of its teams. -/
theorem noWider_iff {acl bound : List String} : NoWider acl bound ↔ bound = [] ∨ acl ≠ [] ∧ acl ⊆ bound := by
  constructor
  · intro h
    by_cases hbound : bound = []
    · exact .inl hbound
    refine .inr ⟨?_, fun team hteam => ?_⟩
    · rintro rfl
      -- the requester without a team
      have hnobody := h [] rfl
      simp [acl_admits, hbound] at hnobody
    · have hholder := h [team] (by simp [acl_admits, hteam])
      simpa [acl_admits, hbound] using hholder
  · rintro (rfl | ⟨hne, hsub⟩) teams hteams
    · rfl
    · simp only [acl_admits, Bool.or_eq_true, List.isEmpty_iff, hne, false_or, List.any_eq_true,
        List.contains_iff_mem] at hteams ⊢
      obtain ⟨team, hteam, hmem⟩ := hteams
      exact .inr ⟨team, hteam, hsub hmem⟩

instance (acl bound : List String) : Decidable (NoWider acl bound) :=
  decidable_of_iff (bound = [] ∨ acl ≠ [] ∧ ∀ team ∈ acl, team ∈ bound) noWider_iff.symm

/-- Visible to nobody: a team no requester holds. An empty list would mean everybody. -/
def DENY_ALL_ACL : List String := ["__no_team__"]

/-- Strictest-wins access list of the source rows that resolve for one path. -/
def merge_path_acls (acl_rows : List (List String)) : List String :=
  match acl_rows.filter fun acl => !acl.isEmpty with
  | [] => []
  | first :: rest =>
    let intersection := first.dedup.filter fun team => rest.all fun acl => acl.contains team
    if intersection.isEmpty then DENY_ALL_ACL else sorted str_le intersection

/-- Visibility of a derived artifact: the teams authorised for every input path that resolves. -/
def commit_acl_intersection (target_paths : List String) (path_acls : Dict String (List String)) :
    List String :=
  match target_paths.filterMap path_acls.get? with
  | [] => DENY_ALL_ACL
  | resolved => merge_path_acls resolved

end AgenticKb
