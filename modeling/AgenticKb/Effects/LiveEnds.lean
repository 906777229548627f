import AgenticKb.Effects.Invalidation

open AgenticKb.Lib

namespace AgenticKb

instance (r : Registry) (id : Uuid) : Decidable (LiveArtifact r id) :=
  inferInstanceAs (Decidable (∃ a ∈ r.artifacts, _ ∧ _))

/-- The end of an edge is a live artifact, or one of the ids that need not be. -/
def EndLive (exempt : Uuid → Prop) (r : Registry) (id : Uuid) : Prop := LiveArtifact r id ∨ exempt id

/-- Every live edge of some writers has live ends, up to the exempt ones. -/
def LiveEnds (of : Option EdgeSource → Prop) (exempt : Uuid → Prop) (r : Registry) : Prop :=
  ∀ e ∈ r.edges, of e.source → e.Live → EndLive exempt r e.from_artifact_id ∧ EndLive exempt r e.to_artifact_id

section Steps

variable {r r' : Registry} {of : Option EdgeSource → Prop} {exempt : Uuid → Prop}

theorem LiveEnds.congr (h : LiveEnds of exempt r) (he : r'.edges = r.edges)
    (hlive : ∀ id, LiveArtifact r id → LiveArtifact r' id) : LiveEnds of exempt r' := by
  intro e hmem hof hl
  obtain ⟨hfrom, hto⟩ := h e (he ▸ hmem) hof hl
  exact ⟨hfrom.imp_left (hlive _), hto.imp_left (hlive _)⟩

theorem LiveArtifact.congr {id : Uuid} (h : LiveArtifact r id) (ha : r'.artifacts = r.artifacts) :
    LiveArtifact r' id := by
  obtain ⟨a, hmem, hrest⟩ := h
  exact ⟨a, ha ▸ hmem, hrest⟩

/-- Retiring edges leaves the others as they were. -/
theorem LiveEnds.retire_edges (h : LiveEnds of exempt r) (n : Nat) (stale : KnowledgeEdge → Bool) :
    LiveEnds of exempt (retire_edges r n stale) := by
  intro e he hof hlive
  obtain ⟨e₀, he₀, rfl⟩ := List.mem_map.1 he
  split at hlive
  · exact absurd (show some n = none from hlive) (by simp)
  · rename_i hp
    rw [if_neg hp] at hof ⊢
    exact h e₀ he₀ hof hlive

/-- Retiring artifacts together with the edges that touch them. -/
theorem LiveEnds.retire (h : LiveEnds of exempt r) (n : Nat) (ids : List Uuid)
    (hlive : ∀ id, id ∉ ids → LiveArtifact r id → LiveArtifact r' id) (he : r'.edges = r.edges) :
    LiveEnds of exempt (AgenticKb.retire_edges r' n (touches ids)) := by
  intro e hmem hof hl
  obtain ⟨e₀, he₀, rfl⟩ := List.mem_map.1 hmem
  split at hl
  · exact absurd (show some n = none from hl) (by simp)
  · rename_i hp
    rw [if_neg hp] at hof ⊢
    have hl' : e₀.invalidated_at_seq = none := hl
    simp only [hl', touches, Option.isNone_none, Bool.true_and, Bool.or_eq_true, List.contains_iff_mem,
      not_or] at hp
    obtain ⟨hfrom, hto⟩ := h e₀ (he ▸ he₀) hof hl
    exact ⟨hfrom.imp_left (hlive _ hp.1), hto.imp_left (hlive _ hp.2)⟩

end Steps

section Invalidation

variable {p : Platform} {r r' : Registry} {n : Nat} {old_id new_id : Uuid} {of : Option EdgeSource → Prop} {exempt : Uuid → Prop}

private theorem reattached_live {from_side : Bool} {e e' : KnowledgeEdge}
    (h : Reattached n old_id new_id from_side e e') (hlive : e'.Live) :
    e.Live ∧ (e' = e ∧ e.column from_side ≠ old_id ∨ e' = e.repoint from_side new_id) := by
  cases h with
  | kept hside => exact ⟨hlive, .inl ⟨rfl, hside hlive⟩⟩
  | loop => exact absurd (show some n = none from hlive) (by simp)
  | repointed hlive₀ => exact ⟨hlive₀, .inr rfl⟩

/-- One pass of the reattachment: no live edge is left with the old artifact on its side. -/
private theorem reattach_side_live {from_side : Bool}
    (h : reattach_side old_id new_id n r from_side = some r') (hne : new_id ≠ old_id)
    (hnew : LiveArtifact r new_id) (hg : LiveEnds of exempt r) :
    LiveEnds of exempt r' ∧ (∀ e ∈ r'.edges, e.Live → e.column from_side ≠ old_id) ∧
      ((∀ e ∈ r.edges, e.Live → e.column (!from_side) ≠ old_id) →
        ∀ e ∈ r'.edges, e.Live → e.column (!from_side) ≠ old_id) := by
  obtain ⟨edges, rfl, hstep⟩ := reattach_side_spec h
  have horigin : ∀ e ∈ edges, e.Live → ∃ e₀ ∈ r.edges, e₀.Live ∧
      (e = e₀ ∧ e₀.column from_side ≠ old_id ∨ e = e₀.repoint from_side new_id) := by
    intro e he hlive
    obtain ⟨e₀, he₀, hk⟩ := (hstep.origin he).resolve_right False.elim
    exact ⟨e₀, he₀, reattached_live hk hlive⟩
  refine ⟨fun e he hof hlive => ?_, fun e he hlive => ?_, fun hother e he hlive => ?_⟩
  · obtain ⟨e₀, he₀, hlive₀, ⟨rfl, -⟩ | rfl⟩ := horigin e he hlive
    · exact hg e he₀ hof hlive₀
    · have hof₀ : of e₀.source := by cases from_side <;> exact hof
      obtain ⟨hfrom, hto⟩ := hg e₀ he₀ hof₀ hlive₀
      cases from_side with
      | true => exact ⟨.inl hnew, hto⟩
      | false => exact ⟨hfrom, .inl hnew⟩
  · obtain ⟨e₀, he₀, hlive₀, ⟨rfl, hside⟩ | rfl⟩ := horigin e he hlive
    · exact hside
    · cases from_side <;> exact hne
  · obtain ⟨e₀, he₀, hlive₀, ⟨rfl, -⟩ | rfl⟩ := horigin e he hlive
    · exact hother e he₀ hlive₀
    · cases from_side <;> exact hother e₀ he₀ hlive₀

/-- Both passes: no live edge touches the old artifact any more. -/
private theorem reattach_edges_live (h : reattach_edges r old_id new_id n = some r') (hne : new_id ≠ old_id)
    (hnew : LiveArtifact r new_id) (hg : LiveEnds of exempt r) :
    LiveEnds of exempt r' ∧ r'.artifacts = r.artifacts ∧
      ∀ e ∈ r'.edges, e.Live → e.from_artifact_id ≠ old_id ∧ e.to_artifact_id ≠ old_id := by
  simp only [reattach_edges, List.foldlM_cons, List.foldlM_nil, Option.bind_eq_bind,
    Option.bind_eq_some_iff, Option.pure_def, Option.some.injEq] at h
  obtain ⟨mid, hfrom, r', hto, rfl⟩ := h
  obtain ⟨hgmid, hmid, -⟩ := reattach_side_live hfrom hne hnew hg
  obtain ⟨edges, rfl, -⟩ := reattach_side_spec hfrom
  obtain ⟨hg', hto', hkept⟩ := reattach_side_live hto hne hnew hgmid
  obtain ⟨edges', rfl, -⟩ := reattach_side_spec hto
  exact ⟨hg', rfl, fun e he hlive => ⟨hkept hmid e he hlive, hto' e he hlive⟩⟩

/-- A rename moves the edges of the old artifact before it retires it. -/
private theorem liveEnds_apply_rename {rename : Rename} (h : apply_rename n r rename = some r')
    (hne : rename.new_artifact_id ≠ rename.old_artifact_id) (hnew : LiveArtifact r rename.new_artifact_id)
    (hg : LiveEnds of exempt r) : LiveEnds of exempt r' := by
  simp only [apply_rename, Option.bind_eq_bind, Option.bind_eq_some_iff, Option.some.injEq] at h
  obtain ⟨mid, hmid, rfl⟩ := h
  set linked : Registry := { r with
    artifacts := update_where r.artifacts (fun a => a.artifact_id == rename.new_artifact_id) fun a =>
      { a with prior_identity_id := some rename.old_artifact_id } } with hlinked
  have hlive : ∀ id, LiveArtifact r id → LiveArtifact linked id := by
    rintro id ⟨a, ha, hid, hl⟩
    refine ⟨_, List.mem_map_of_mem ha, ?_⟩
    split <;> exact ⟨hid, hl⟩
  obtain ⟨hgmid, -, hfree⟩ := reattach_edges_live hmid hne (hlive _ hnew) (hg.congr rfl hlive)
  intro e he hof hl
  obtain ⟨hfrom, hto⟩ := hgmid e he hof hl
  obtain ⟨hfrom', hto'⟩ := hfree e he hl
  have hkeep : ∀ id, id ≠ rename.old_artifact_id → LiveArtifact mid id →
      LiveArtifact (tombstone_sources (retire_artifacts mid [rename.old_artifact_id] n)
        [rename.old_source_id]) id := by
    rintro id hid ⟨a, ha, rfl, hla⟩
    refine ⟨a, List.mem_map.2 ⟨a, ha, ?_⟩, rfl, hla⟩
    simp [hid]
  exact ⟨hfrom.imp_left (hkeep _ hfrom'), hto.imp_left (hkeep _ hto')⟩

/-- The renames one after the other: no new artifact is the old one of another rename. -/
private theorem liveEnds_apply_renames (p : Platform) (renames : List Rename)
    (hdisjoint : ∀ rename ∈ renames, ∀ rename' ∈ renames, rename.new_artifact_id ≠ rename'.old_artifact_id)
    (hnew : ∀ rename ∈ renames, LiveArtifact r rename.new_artifact_id) (hg : LiveEnds of exempt r)
    (hseq : r.build_seq = n) (h : renames.foldlM (apply_rename n) r = some r') : LiveEnds of exempt r' := by
  refine (foldlM_invariant (I := fun mid : Registry => mid.build_seq = n ∧ LiveEnds of exempt mid ∧
    ∀ rename ∈ renames, LiveArtifact mid rename.new_artifact_id) ?_ ⟨hseq, hg, hnew⟩ h).2.1
  rintro mid rename mid' hrename ⟨hseq', hgmid, hnew'⟩ hstep
  have hsweep := sweep_apply_rename (p := p) (hseq'.symm ▸ hstep)
  refine ⟨hsweep.build_seq.trans hseq', liveEnds_apply_rename hstep (hdisjoint _ hrename _ hrename)
    (hnew' _ hrename) hgmid, fun rename' hrename' => ?_⟩
  obtain ⟨a, ha, hid, hlive⟩ := hnew' rename' hrename'
  exact hsweep.liveArtifact.2 ⟨a, ha, hid, hlive, hid ▸ hdisjoint _ hrename' _ hrename⟩

/-- The invalidation pass leaves no further end dead, when the artifacts of this build are still live. -/
theorem liveEnds_run_invalidation_pass (hwf : WellFormed p r) (hg : LiveEnds of exempt r)
    (hfresh : ∀ a ∈ r.artifacts, a.valid_from_seq = n → a.Live) (hseq : r.build_seq = n)
    {seen changed : List Uuid} {started_at : Timestamp}
    (h : run_invalidation_pass r n seen changed started_at = some r') : LiveEnds of exempt r' := by
  simp only [run_invalidation_pass, Option.bind_eq_bind, Option.bind_eq_some_iff, Option.some.injEq] at h
  obtain ⟨renamed, hrenamed, rfl⟩ := h
  have hrename : ∀ rename ∈ detected_renames r (vanished_live_sources r seen started_at) n,
      IsRename r (vanished_live_sources r seen started_at) n rename := fun _ => isRename_of_mem
  have hgrenamed : LiveEnds of exempt renamed := by
    refine liveEnds_apply_renames p _ ?_ ?_ hg hseq hrenamed
    · intro rename hmem rename' hmem' heq
      obtain ⟨a, ha, -, hid, hstays⟩ := (hrename rename hmem).new
      obtain ⟨a', ha', -, hid', hsource⟩ := (hrename rename' hmem').old
      have := hwf.artifact_eq ha ha' (hid.trans (heq.trans hid'.symm))
      exact hstays (this ▸ hsource ▸ (hrename rename' hmem').vanished)
    · intro rename hmem
      obtain ⟨a, ha, hfrom, hid, -⟩ := (hrename rename hmem).new
      exact ⟨a, ha, hid, hfresh a ha hfrom⟩
  have hretired : ∀ {mid : Registry} {ids : List Uuid} {id : Uuid}, id ∉ ids → LiveArtifact mid id →
      LiveArtifact (retire_artifacts mid ids n) id := by
    rintro mid ids id hid ⟨a, ha, rfl, hlive⟩
    refine ⟨a, List.mem_map.2 ⟨a, ha, ?_⟩, rfl, hlive⟩
    simp [hid]
  have hdeletion : ∀ {mid : Registry} (ids : List Uuid), LiveEnds of exempt mid → LiveEnds of exempt (deletion_sweep mid n ids) :=
    fun ids hmid => hmid.retire n (live_artifact_ids _ ids) (fun id hid hl => hretired hid hl) rfl
  have hsupersession : ∀ {mid : Registry}, LiveEnds of exempt mid → LiveEnds of exempt (supersession_sweep mid n changed) :=
    fun hmid => hmid.retire n _ (fun id hid hl => hretired hid hl) rfl
  obtain ⟨artifacts, hprop, hacl⟩ := propagate_acl_spec (supersession_sweep (deletion_sweep renamed n
    (swept_sources r n (vanished_live_sources r seen started_at))) n changed) seen
  have hg' := hsupersession (hdeletion (swept_sources r n (vanished_live_sources r seen started_at)) hgrenamed)
  refine hprop ▸ hg'.congr rfl ?_
  rintro id ⟨a, ha, hid, hlive⟩
  obtain ⟨a', ha', hk⟩ := hacl.successor ha
  exact ⟨a', ha', hk.same.artifact_id.trans hid, hk.invalidated_at_seq.trans hlive⟩

end Invalidation

end AgenticKb
