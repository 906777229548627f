import AgenticKb.Effects.EdgeEnds

open AgenticKb.Lib

namespace AgenticKb

/-- Every edge version `s` serves has both ends served by `s`. -/
def GhostFree (r : Registry) (s : Nat) : Prop :=
  ∀ e ∈ r.edges, e.MemberAt s → ∀ id ∈ [e.from_artifact_id, e.to_artifact_id],
    ∃ a ∈ r.artifacts, a.artifact_id = id ∧ a.MemberAt s

instance (r : Registry) (s : Nat) : Decidable (GhostFree r s) :=
  inferInstanceAs (Decidable (∀ e ∈ r.edges, e.MemberAt s → ∀ id ∈ _, ∃ a ∈ r.artifacts, _ ∧ _))

/-- No writer of the build puts an edge on a retired artifact: not the code pass, the linker or the
judge, whose queries do not ask whether an artifact is live; and the alias passes retire no row that
still carries an edge of another writer. -/
structure EdgesOnLive (p : Platform) (r : Registry) (b : Build) : Prop where
  code : AlongM (graphify_one_repo p b) (CodeEndsLive p b) (source_loop p b (start_run p r b.kb_version))
    (b.repos (source_loop p b (start_run p r b.kb_version)))
  linker : ∀ _ ∈ (run p cached_generation r b).finalized,
    LinkerWrites EndsLive p (run p cached_generation r b).sources.current b.kb_version (r.build_seq + 1)
      b.similarity
  judge : ∀ passes ∈ (run p cached_generation r b).finalized, ∀ judge ∈ b.judge,
    JudgeWrites EndsLive p passes.generated b.kb_version (r.build_seq + 1) judge
  aliases : ∀ passes ∈ (run p cached_generation r b).finalized, ∀ e ∈ passes.invalidated.edges, e.Live →
    is_alias_edge e = false → touches (aliases_retired p passes.invalidated (r.build_seq + 1)) e = false
  ledger : ∀ passes ∈ (run p cached_generation r b).finalized, ∀ e ∈ passes.aliased.edges, e.Live →
    touches (ledger_retired p passes.aliased b.retrieval_events b.window_start) e = false

instance (p : Platform) (r : Registry) (b : Build) : Decidable (EdgesOnLive p r b) :=
  decidable_of_iff (_ ∧ (∀ _ ∈ _, _) ∧ (∀ passes ∈ _, ∀ judge ∈ b.judge, _) ∧ (∀ passes ∈ _, ∀ e ∈ _, _) ∧
      ∀ passes ∈ _, ∀ e ∈ _, _)
    ⟨fun h => ⟨h.1, h.2.1, h.2.2.1, h.2.2.2.1, h.2.2.2.2⟩,
      fun h => ⟨h.code, h.linker, h.judge, h.aliases, h.ledger⟩⟩

section Builds

variable {p : Platform} {b : Build} {r : Registry}

theorem EdgesOnLive.writesOnLive (h : EdgesOnLive p r b) : WritesOnLive (fun _ => True) p r b :=
  ⟨fun _ => h.code, fun _ => h.linker, fun _ => h.judge, fun passes hpasses e he _ => h.aliases passes hpasses e he,
    fun passes hpasses e he _ => h.ledger passes hpasses e he⟩

/-- At the newest version the live rows are the ones served. -/
theorem NoGhost.ghostFree (hwf : WellFormed p r) (hg : NoGhost (fun _ => True) r) : GhostFree r r.build_seq := by
  intro e he hmember id hid
  obtain ⟨hfrom, hto⟩ := hg e he trivial ((hwf.edges_stamped e he).memberAt_iff_live.1 hmember)
  have hmem : LiveArtifact r id → ∃ a ∈ r.artifacts, a.artifact_id = id ∧ a.MemberAt r.build_seq := by
    rintro ⟨a, ha, hida, hlive⟩
    exact ⟨a, ha, hida, (hwf.artifacts_stamped a ha).memberAt_iff_live.2 hlive⟩
  simp only [List.mem_cons, List.not_mem_nil, or_false] at hid
  rcases hid with rfl | rfl
  · exact hmem hfrom
  · exact hmem hto

/-- No version a build leaves serves an edge without its ends, as long as the builds write their edges
on live artifacts. -/
theorem ghostFree_history (hinj : Function.Injective p.gen_random_uuid) (builds : List Build)
    (hok : Along (next p cached_generation) (EdgesOnLive p) Registry.empty builds) :
    GhostFree (history p cached_generation builds) (history p cached_generation builds).build_seq := by
  have hinv : WellFormed p (history p cached_generation builds) ∧
      NoGhost (fun _ => True) (history p cached_generation builds) := by
    refine hok.invariant (I := fun r => WellFormed p r ∧ NoGhost (fun _ => True) r) ?_ ⟨wellFormed_empty p, ?_⟩
    · exact fun r b _ h hb => ⟨(wellFormed_next h.1 hinj).1, noGhost_next h.1 hinj h.2 hb.writesOnLive⟩
    · simp [NoGhost, Registry.empty]
  exact hinv.2.ghostFree hinv.1

/-- The second build renames the concept to the one the summary is about: it retires the old row, and links the summary to
the new one. -/
theorem ghostFree_linked_concept :
    (∃ a ∈ (history .plain cached_generation [concept_build "Beta X", concept_build "Alpha X"]).artifacts, ¬a.Live) ∧
      (∃ e ∈ (history .plain cached_generation [concept_build "Beta X", concept_build "Alpha X"]).edges, e.Live) ∧
      GhostFree (history .plain cached_generation [concept_build "Beta X", concept_build "Alpha X"])
        (history .plain cached_generation [concept_build "Beta X", concept_build "Alpha X"]).build_seq :=
  ⟨by decide +kernel, by decide +kernel, ghostFree_history (fun _ _ h => h) _ (by decide +kernel)⟩

/-- The concept is renamed on its page, which retires it; the build after that finds its row, links the
summary to it again, and does not sweep the edge, as its source did not change. -/
theorem ghost_edge_of_retired_concept :
    AllComplete .plain [concept_build "Alpha X", concept_build "Beta X", concept_build "Beta X"] ∧
      ¬ GhostFree
        (history .plain cached_generation
          [concept_build "Alpha X", concept_build "Beta X", concept_build "Beta X"])
        (history .plain cached_generation
          [concept_build "Alpha X", concept_build "Beta X", concept_build "Beta X"]).build_seq := by
  decide +kernel

end Builds

end AgenticKb
