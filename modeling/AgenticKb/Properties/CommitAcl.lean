import AgenticKb.Domain.AclIntersection
import AgenticKb.Effects.Build

open AgenticKb.Lib

namespace AgenticKb

/-- No commit artifact admits a requester whom the list its writer computed turns away. -/
def CommitsNarrow (r : Registry) : Prop :=
  ∀ a ∈ r.artifacts, a.artifact_type = .commit → NoWider a.acl_teams a.acl_at_write

instance (r : Registry) : Decidable (CommitsNarrow r) :=
  inferInstanceAs (Decidable (∀ a ∈ r.artifacts, _ → NoWider _ _))

/-- The access list of each seen source is no wider than those its live commit artifacts were written
with, as far as the sweeps leave these. -/
def ListsNarrow (p : Platform) (r : Registry) (b : Build) : Prop :=
  ∀ passes ∈ (run p cached_generation r b).finalized, ∀ s ∈ passes.judged.source_items,
    s.source_id ∈ (run p cached_generation r b).sources.seen → ∀ a ∈ passes.judged.artifacts,
      a.source_id = s.source_id → a.artifact_type = .commit → a.Live →
      Swept passes.judged (r.build_seq + 1)
          (vanished_live_sources passes.judged (run p cached_generation r b).sources.seen r.now)
          (run p cached_generation r b).sources.changed a ∨
        NoWider s.acl_teams a.acl_at_write

instance (p : Platform) (r : Registry) (b : Build) : Decidable (ListsNarrow p r b) :=
  inferInstanceAs (Decidable (∀ passes ∈ _, ∀ s ∈ Registry.source_items _, _ →
    ∀ a ∈ Registry.artifacts _, _ → _ → _ → _ ∨ _))

section Builds

variable {p : Platform} {b : Build} {r r' : Registry} {n : Nat}

theorem CommitsNarrow.congr (h : CommitsNarrow r) (ha : r'.artifacts = r.artifacts) : CommitsNarrow r' :=
  fun a hmem => h a (ha ▸ hmem)

/-- A writer gives an artifact the list it computed. -/
private theorem loopRule_commitsNarrow :
    LoopRule p b n (fun _ _ => True) (fun _ _ => True) fun r _ => CommitsNarrow r where
  touched htouch h := h.congr htouch.artifacts
  processed _ h _ _ _ _ hprocessed _ a ha htype := by
    rw [hprocessed.artifacts] at ha
    rcases List.mem_append.1 ha with ha | ha
    · exact h a ha htype
    · exact (hprocessed.extracted a ha).acl ▸ .refl _
  repo _ _ _ _ h _ _ hw a ha htype := by
    rw [hw.artifacts] at ha
    rcases List.mem_append.1 ha with ha | ha
    · exact h a ha htype
    · obtain ⟨path, unit, -, -, -, hext⟩ := hw.extracted a ha
      exact hext.acl ▸ .refl _

/-- The propagation copies the lists of the sources onto what the sweeps have left. -/
theorem commitsNarrow_next (hwf : WellFormed p r) (hinj : Function.Injective p.gen_random_uuid)
    (h : CommitsNarrow r) (hok : ListsNarrow p r b) : CommitsNarrow (next p cached_generation r b) := by
  have hgood := run_rule_of_any (b := b) loopRule_commitsNarrow hwf hinj (h.congr rfl)
  cases run_end p r b with
  | failed hsources hpasses hsame => exact hgood.committed.congr hsame.artifacts
  | completed passes hsources hpasses hfinal hsame =>
    have hwf' := hgood.current_wellFormed
    have hframe := hfinal.onlyEdges_judged
    have hseq : passes.judged.build_seq = r.build_seq + 1 := hframe.build_seq.trans hgood.current_seq
    intro a ha htype
    rw [show (next p cached_generation r b).artifacts = passes.mined.artifacts from hsame.artifacts,
      (hfinal.onlyAliases_mined hwf' hinj).mem_iff (by simp [htype])] at ha
    obtain ⟨a₀, ha₀, hk⟩ := ((hfinal.invalidates hwf').artifacts.origin ha).resolve_right False.elim
    have htype₀ : a₀.artifact_type = .commit := hk.same.artifact_type.symm.trans htype
    rw [hk.same.acl_at_write]
    rcases hk.acl with heq | ⟨hlive, s, hs, hseen, hid, heq⟩
    · rw [heq]
      exact hgood.current a₀ (hframe.artifacts ▸ ha₀) htype₀
    · obtain ⟨hlive₀, hstays⟩ := hk.live_iff.1 hlive
      rw [heq]
      rw [hseq] at hstays
      exact (hok passes hpasses s hs hseen a₀ ha₀ hid.symm htype₀ hlive₀).resolve_left hstays

/-- No build widens the access list of a commit, as long as the lists of their sources are no wider. -/
theorem commitsNarrow_history (hinj : Function.Injective p.gen_random_uuid) (builds : List Build)
    (hok : Along (next p cached_generation) (ListsNarrow p) Registry.empty builds) :
    CommitsNarrow (history p cached_generation builds) := by
  have hinv : WellFormed p (history p cached_generation builds) ∧
      CommitsNarrow (history p cached_generation builds) := by
    refine hok.invariant (I := fun r => WellFormed p r ∧ CommitsNarrow r) ?_ ⟨wellFormed_empty p, ?_⟩
    · exact fun r b _ h hb => ⟨(wellFormed_next h.1 hinj).1, commitsNarrow_next h.1 hinj h.2 hb⟩
    · simp [CommitsNarrow, Registry.empty]
  exact hinv.2

/-- A build over a document and a commit that changes it, each listed with an access list. -/
def commit_build (acl_teams commit_teams : List String) (message : String) : Build :=
  { page_build [] with
    listing :=
      [({ source_type := .github_doc, source_uri := "d", source_version := "1", path := some "d", acl_teams },
        "text"),
        ({ source_type := .git_metadata, source_uri := "git:1", source_version := "1", acl_teams := commit_teams },
          message ++ "\n--- changed files ---\nd")] }

/-- Team `b` loses the document, and with it the commit, whose source is team `a`'s alone; then the commit is amended. -/
theorem commitsNarrow_narrowed_document :
    (history .plain cached_generation [commit_build ["a", "b"] ["a"] "fix", commit_build ["a"] ["a"] "fix",
        commit_build ["a"] ["a"] "two"]).artifacts.map (fun a => (a.artifact_type, a.acl_teams, a.acl_at_write, a.invalidated_at_seq)) =
      [(.summary, ["a"], ["a", "b"], none), (.commit, ["a"], ["a", "b"], some 3), (.commit, ["a"], ["a"], none)] ∧
    CommitsNarrow (history .plain cached_generation [commit_build ["a", "b"] ["a"] "fix", commit_build ["a"] ["a"] "fix",
      commit_build ["a"] ["a"] "two"]) :=
  ⟨by decide +kernel, commitsNarrow_history (fun _ _ h => h) _ (by decide +kernel)⟩

/-- The document is team `a`'s, and so is its commit when it is written, but the connector lists commits without an access
list; the propagation of the same build opens the commit to everybody. -/
theorem commit_of_restricted_document_opened :
    AllComplete .plain [commit_build ["a"] [] "fix"] ∧
      ¬ CommitsNarrow (history .plain cached_generation [commit_build ["a"] [] "fix"]) := by
  decide +kernel

end Builds

end AgenticKb
