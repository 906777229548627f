import AgenticKb.Effects.EdgeEnds

open AgenticKb.Lib

namespace AgenticKb

/-- An artifact stands here since before the edge came, and as far as version `n` can tell it does not leave earlier. -/
def Covered (n : Nat) (r : Registry) (e : KnowledgeEdge) (id : Uuid) : Prop :=
  ∃ a ∈ r.artifacts, a.artifact_id = id ∧ a.valid_from_seq ≤ e.valid_from_seq ∧
    ∀ m ∈ a.invalidated_at_seq, e.invalidated_at_seq.getD n ≤ m

/-- The linker's edges are covered at both ends. -/
def LinksCovered (n : Nat) (r : Registry) : Prop :=
  ∀ e ∈ r.edges, e.source = some .linker → ∀ from_side, Covered n r e (e.column from_side)

/-- What becomes of an edge of the linker: it keeps its beginning, its end can only be this version, and it moves only if
it came with this version, to a fresh artifact. -/
structure LinkFollows (n : Nat) (fresh : Uuid → Prop) (e e' : KnowledgeEdge) : Prop where
  source : e'.source = e.source
  valid_from_seq : e.source = some .linker → e'.valid_from_seq = e.valid_from_seq
  invalidated_at_seq : e.source = some .linker → e'.invalidated_at_seq.getD n = e.invalidated_at_seq.getD n
  ends : e.source = some .linker → ∀ from_side,
    e'.column from_side = e.column from_side ∨ n ≤ e.valid_from_seq ∧ fresh (e'.column from_side)

section Follows

variable {n : Nat} {fresh : Uuid → Prop} {e e' e'' : KnowledgeEdge} {r r' : Registry}

theorem LinkFollows.refl (n : Nat) (fresh : Uuid → Prop) (e : KnowledgeEdge) : LinkFollows n fresh e e :=
  ⟨rfl, fun _ => rfl, fun _ => rfl, fun _ _ => .inl rfl⟩

theorem LinkFollows.trans (h : LinkFollows n fresh e e') (h' : LinkFollows n fresh e' e'') : LinkFollows n fresh e e'' := by
  have hlinker : e.source = some .linker → e'.source = some .linker := h.source.trans
  refine ⟨h'.source.trans h.source, fun hl => (h'.valid_from_seq (hlinker hl)).trans (h.valid_from_seq hl),
    fun hl => (h'.invalidated_at_seq (hlinker hl)).trans (h.invalidated_at_seq hl), fun hl from_side => ?_⟩
  cases h'.ends (hlinker hl) from_side with
  | inl hsame =>
    rw [hsame]
    exact h.ends hl from_side
  | inr hmoved => exact .inr ⟨h.valid_from_seq hl ▸ hmoved.1, hmoved.2⟩

theorem LinkFollows.retire (hlive : e.Live) : LinkFollows n fresh e { e with invalidated_at_seq := some n } := by
  refine ⟨rfl, fun _ => rfl, fun _ => ?_, fun _ _ => .inl rfl⟩
  rw [show e.invalidated_at_seq = none from hlive]
  rfl

/-- The edges of one registry follow those of another. -/
abbrev LinksFollow (n : Nat) (fresh : Uuid → Prop) (r r' : Registry) : Prop :=
  TableStep (LinkFollows n fresh) (fun e => e.source ≠ some .linker) r.edges r'.edges

theorem LinksFollow.comp {r'' : Registry} (h : LinksFollow n fresh r r') (h' : LinksFollow n fresh r' r'') :
    LinksFollow n fresh r r'' :=
  TableStep.trans h h' (fun _ _ _ hab hbc => hab.trans hbc) fun _ _ hother hk => hk.source ▸ hother

theorem linksFollow_retire_edges (fresh : Uuid → Prop) (r : Registry) (n : Nat) (stale : KnowledgeEdge → Bool) :
    LinksFollow n fresh r (retire_edges r n stale) := by
  refine .of_update_where (fun e _ hp => ?_) fun e _ _ => .refl n fresh e
  simp only [Bool.and_eq_true, Option.isNone_iff_eq_none] at hp
  exact .retire hp.1

theorem LinksCovered.grown {added : List KnowledgeArtifact} {links : List KnowledgeEdge} (h : LinksCovered n r)
    (ha : r'.artifacts = r.artifacts ++ added) (he : r'.edges = r.edges ++ links)
    (hother : ∀ e ∈ links, e.source ≠ some .linker) : LinksCovered n r' := by
  intro e hmem hl from_side
  rw [he] at hmem
  have hold := (List.mem_append.1 hmem).resolve_right fun hnew => hother e hnew hl
  obtain ⟨a, hmem, hrest⟩ := h e hold hl from_side
  exact ⟨a, ha ▸ List.mem_append_left _ hmem, hrest⟩

theorem LinksCovered.congr (h : LinksCovered n r) (ha : r'.artifacts = r.artifacts) (he : r'.edges = r.edges) :
    LinksCovered n r' := by
  have hartifacts : r'.artifacts = r.artifacts ++ [] := by simpa using ha
  have hedges : r'.edges = r.edges ++ [] := by simpa using he
  exact h.grown hartifacts hedges (by simp)

/-- Artifacts that only end, and edges that follow, stay covered. -/
theorem LinksCovered.step (fresh : Uuid → Prop) {p : Platform} {Keep : KnowledgeArtifact → KnowledgeArtifact → Prop}
    {Add : KnowledgeArtifact → Prop} (h : LinksCovered n r) (hwf : WellFormed p r) (hwf' : WellFormed p r')
    (hseq : r.build_seq = n) (hseq' : r'.build_seq = n) (ha : TableStep Keep Add r.artifacts r'.artifacts)
    (hkeep : ∀ a a', Keep a a' → a'.artifact_id = a.artifact_id ∧ a.Evolves n a'.toLifespan)
    (he : LinksFollow n fresh r r') (hfresh : ∀ id, fresh id → LiveArtifact r id) : LinksCovered n r' := by
  intro e' he' hl' from_side
  obtain ⟨e, hmem, hk⟩ := (he.origin he').resolve_right fun hother => hother hl'
  have hl : e.source = some .linker := hk.source.symm.trans hl'
  have hstamped : e'.invalidated_at_seq.getD n ≤ n := by
    cases hend : e'.invalidated_at_seq with
    | none => exact le_rfl
    | some k => exact hseq' ▸ (hwf'.edges_stamped e' he').2 k hend
  cases hk.ends hl from_side with
  | inl hsame =>
    obtain ⟨a, hmem_a, hid, hfrom, huntil⟩ := h e hmem hl from_side
    obtain ⟨a', hmem_a', hka⟩ := ha.successor hmem_a
    obtain ⟨hid', hevolves⟩ := hkeep a a' hka
    refine ⟨a', hmem_a', hid'.trans (hid.trans hsame.symm), ?_, fun m hm => ?_⟩
    · rw [hevolves.valid_from, hk.valid_from_seq hl]
      exact hfrom
    · rw [hk.invalidated_at_seq hl]
      generalize hspan : a'.toLifespan = span at hevolves
      have hm' : m ∈ span.invalidated_at_seq := hspan ▸ hm
      cases hevolves with
      | keep => exact huntil m hm'
      | retire => exact hk.invalidated_at_seq hl ▸ Option.some.inj hm' ▸ hstamped
      | revive => cases hm'
  | inr hmoved =>
    obtain ⟨hown, hnew⟩ := hmoved
    obtain ⟨a, hmem_a, hid, hlive⟩ := hfresh _ hnew
    obtain ⟨a', hmem_a', hka⟩ := ha.successor hmem_a
    obtain ⟨hid', hevolves⟩ := hkeep a a' hka
    refine ⟨a', hmem_a', hid'.trans hid, ?_, fun m hm => ?_⟩
    · have hstamp := (hwf.artifacts_stamped a hmem_a).1
      rw [hevolves.valid_from, hk.valid_from_seq hl]
      omega
    · generalize hspan : a'.toLifespan = span at hevolves
      have hm' : m ∈ span.invalidated_at_seq := hspan ▸ hm
      cases hevolves with
      | keep =>
        rw [show a.invalidated_at_seq = none from hlive] at hm'
        cases hm'
      | retire => exact Option.some.inj hm' ▸ hstamped
      | revive => cases hm'

end Follows

section Links

variable {p : Platform} {s : Registry} {n : Nat}

/-- A link between live artifacts is covered, also one that is written back. -/
theorem linkInvariant_linksCovered (hwf : WellFormed p s) (hseq : s.build_seq = n) (source : EdgeSource) :
    LinkInvariant p n source (fun r key evidence => source = .linker → EndsLive r key evidence)
      fun r => r.artifacts = s.artifacts ∧ LinksCovered n r where
  sameCore r r' hsame h := ⟨hsame.artifacts.trans h.1, h.2.congr hsame.artifacts hsame.edges⟩
  link r r' key evidence row set _ h hok hw hupsert := by
    obtain ⟨hartifacts, hcovered⟩ := h
    have hends : ∀ e : KnowledgeEdge, e.key = key → EndsLive r key evidence →
        ∀ from_side, LiveArtifact r (e.column from_side) := by
      intro e hkey hlive from_side
      subst hkey
      cases from_side with
      | true => exact hlive.1
      | false => exact hlive.2
    rcases upsert_edge_cases hupsert with ⟨-, rfl⟩ | ⟨-, rfl⟩
    · refine ⟨hartifacts, fun e he hl from_side => ?_⟩
      obtain ⟨e₀, he₀, rfl⟩ := List.mem_map.1 he
      split at hl
      · rename_i hlink
        have hlink₀ : IsLink source key e₀ := of_decide_eq_true hlink
        rw [if_pos hlink]
        have hsource : e₀.source = some .linker := (hw.set_source e₀).symm.trans hl
        have hlinker : source = .linker := Option.some.inj (hlink₀.1.symm.trans hsource)
        have hcolumn : (set e₀).column from_side = e₀.column from_side := by
          have hkey := hw.set_key e₀
          cases from_side with
          | true => exact congrArg (·.1) hkey
          | false => exact congrArg (·.2.1) hkey
        obtain ⟨a, ha, hid, hfrom, -⟩ := hcovered e₀ he₀ hsource from_side
        obtain ⟨live, hlive_mem, hlive_id, hlive⟩ := hends e₀ hlink₀.2 (hok hlinker) from_side
        -- the row that covers the old link is the live one
        obtain rfl := hwf.artifact_eq (hartifacts ▸ ha) (hartifacts ▸ hlive_mem) (hid.trans hlive_id.symm)
        refine ⟨a, ha, hid.trans hcolumn.symm, ?_, fun m hm => ?_⟩
        · rw [hw.set_valid_from]
          exact hfrom
        · rw [show a.invalidated_at_seq = none from hlive] at hm
          cases hm
      · rename_i hlink
        rw [if_neg hlink]
        exact hcovered e₀ he₀ hl from_side
    · refine ⟨hartifacts, fun e he hl from_side => ?_⟩
      rcases List.mem_append.1 he with he | he
      · exact hcovered e he hl from_side
      · rw [List.mem_singleton.1 he] at hl ⊢
        have hlinker : source = .linker := Option.some.inj ((hw.row_source _).symm.trans hl)
        obtain ⟨live, hlive_mem, hlive_id, hlive⟩ := hends _ (hw.row_key (r.fresh p)) (hok hlinker) from_side
        refine ⟨live, hlive_mem, hlive_id, ?_, fun m hm => ?_⟩
        · rw [(hw.row_introduced _).1, ← hseq]
          exact (hwf.artifacts_stamped live (hartifacts ▸ hlive_mem)).1
        · rw [show live.invalidated_at_seq = none from hlive] at hm
          cases hm
  retire r stale _ h := by
    refine ⟨h.1, fun e he hl from_side => ?_⟩
    obtain ⟨e₀, he₀, hk⟩ := ((linksFollow_retire_edges (fun _ => False) r n stale).origin he).resolve_right
      fun hother => hother hl
    have hl₀ : e₀.source = some .linker := hk.source.symm.trans hl
    obtain ⟨a, ha, hid, hfrom, huntil⟩ := h.2 e₀ he₀ hl₀ from_side
    have hsame := (hk.ends hl₀ from_side).resolve_right fun hmoved => hmoved.2
    refine ⟨a, ha, hid.trans hsame.symm, ?_, fun m hm => ?_⟩
    · rw [hk.valid_from_seq hl₀]
      exact hfrom
    · rw [hk.invalidated_at_seq hl₀]
      exact huntil m hm

end Links

/-- A rename finds no live edge of the linker that an earlier version serves and that it would repoint. -/
def RenameKeepsLinks (n : Nat) (r : Registry) (rename : Rename) : Prop :=
  ∀ e ∈ r.edges, e.source = some .linker → e.Live → e.valid_from_seq < n → ∀ from_side,
    e.column from_side = rename.old_artifact_id → e.column (!from_side) = rename.new_artifact_id

instance (n : Nat) (r : Registry) (rename : Rename) : Decidable (RenameKeepsLinks n r rename) :=
  inferInstanceAs (Decidable (∀ e ∈ r.edges, _ → _ → _ → ∀ _ : Bool, _ → _))

section Invalidation

variable {p : Platform} {r r' : Registry} {n : Nat} {fresh : Uuid → Prop}

private theorem linksFollow_reattach_side {old_id new_id : Uuid} {from_side : Bool}
    (h : reattach_side old_id new_id n r from_side = some r') (hnew : fresh new_id)
    (hkeep : ∀ e ∈ r.edges, e.source = some .linker → e.Live → e.valid_from_seq < n → e.column from_side = old_id →
      e.column (!from_side) = new_id) : LinksFollow n fresh r r' := by
  obtain ⟨edges, rfl, hstep⟩ := reattach_side_spec h
  refine hstep.mono (fun e he e' hk => ?_) fun _ hf => hf.elim
  cases hk with
  | kept => exact .refl n fresh e
  | loop hlive => exact .retire hlive
  | repointed hlive hold hother =>
    have hown : e.source = some .linker → n ≤ e.valid_from_seq := fun hl =>
      not_lt.1 fun hlt => hother (hkeep e he hl hlive hlt hold)
    refine ⟨?_, fun _ => ?_, fun _ => ?_, fun hl side => ?_⟩
    · cases from_side <;> rfl
    · cases from_side <;> rfl
    · cases from_side <;> rfl
    · cases from_side <;> cases side
      · exact .inr ⟨hown hl, hnew⟩
      · exact .inl rfl
      · exact .inl rfl
      · exact .inr ⟨hown hl, hnew⟩

theorem linksFollow_apply_rename {rename : Rename} (h : apply_rename n r rename = some r')
    (hnew : fresh rename.new_artifact_id) (hkeep : RenameKeepsLinks n r rename) : LinksFollow n fresh r r' := by
  simp only [apply_rename, reattach_edges, List.foldlM_cons, List.foldlM_nil, Option.bind_eq_bind,
    Option.bind_eq_some_iff, Option.pure_def, Option.some.injEq] at h
  obtain ⟨mid', ⟨mid, hfrom, mid', hto, rfl⟩, rfl⟩ := h
  have hfirst := linksFollow_reattach_side hfrom hnew fun e he hl hlive hlt => hkeep e he hl hlive hlt true
  obtain ⟨edges, hmid, hstep⟩ := reattach_side_spec hfrom
  have hsecond : LinksFollow n fresh mid mid' := by
    refine linksFollow_reattach_side hto hnew fun e he hl hlive hlt hold => ?_
    rw [hmid] at he
    obtain ⟨e₀, he₀, hk⟩ := (hstep.origin he).resolve_right False.elim
    cases hk with
    | kept => exact hkeep e he₀ hl hlive hlt false hold
    | loop => exact absurd (show some n = none from hlive) (by simp)
    | repointed hlive₀ hold₀ hnew₀ => exact absurd (hkeep e₀ he₀ hl hlive₀ hlt true hold₀) hnew₀
  exact hfirst.comp hsecond

/-- The invalidation pass, when its renames move no link of an earlier version. -/
theorem linksCovered_run_invalidation_pass (hwf : WellFormed p r) (hseq : r.build_seq = n) (hfresh : FreshLive n r)
    {seen changed : List Uuid} {started_at : Timestamp}
    (hrenames : AlongM (apply_rename n) (RenameKeepsLinks n) r
      (detected_renames r (vanished_live_sources r seen started_at) n))
    (h : run_invalidation_pass r n seen changed started_at = some r') (hcovered : LinksCovered n r) :
    LinksCovered n r' := by
  have hspec := run_invalidation_pass_spec (p := p) hwf (hseq.symm ▸ h)
  simp only [run_invalidation_pass, Option.bind_eq_bind, Option.bind_eq_some_iff, Option.some.injEq] at h
  obtain ⟨renamed, hrenamed, rfl⟩ := h
  have hedges : LinksFollow n (LiveArtifact r) r renamed := by
    refine (AlongM.invariant (I := fun mid : Registry => mid.build_seq = n ∧ LinksFollow n (LiveArtifact r) r mid) ?_
      ⟨hseq, .refl fun e _ => .refl n _ e⟩ hrenames hrenamed).2
    rintro mid rename mid' hmem ⟨hmid, hfollow⟩ hkeep hstep
    have hsweep := sweep_apply_rename (p := p) (hmid.symm ▸ hstep)
    obtain ⟨a, ha, hfrom, hid, -⟩ := (isRename_of_mem hmem).new
    exact ⟨hsweep.build_seq.trans hmid,
      hfollow.comp (linksFollow_apply_rename hstep ⟨a, ha, hid, hfresh a ha hfrom⟩ hkeep)⟩
  obtain ⟨artifacts, hprop, -⟩ := propagate_acl_spec (supersession_sweep (deletion_sweep renamed n
    (swept_sources r n (vanished_live_sources r seen started_at))) n changed) seen
  have hdeletion : LinksFollow n (LiveArtifact r) renamed (deletion_sweep renamed n
      (swept_sources r n (vanished_live_sources r seen started_at))) := linksFollow_retire_edges _ _ n _
  have hsupersession : LinksFollow n (LiveArtifact r) _ (supersession_sweep (deletion_sweep renamed n
      (swept_sources r n (vanished_live_sources r seen started_at))) n changed) := linksFollow_retire_edges _ _ n _
  refine hcovered.step (LiveArtifact r) hwf hspec.wellFormed hseq (hspec.build_seq.trans hseq) hspec.artifacts
    (fun a a' hk => ⟨hk.same.artifact_id, hseq ▸ hk.evolves⟩) ?_ fun _ hlive => hlive
  unfold swept_sources at hprop
  rw [hprop]
  exact (hedges.comp hdeletion).comp hsupersession

end Invalidation

section Builds

variable {p : Platform} {b : Build} {r : Registry}

/-- The source loop adds artifacts and code edges only. -/
private theorem loopRule_linksCovered (n : Nat) :
    LoopRule p b n (fun _ _ => True) (fun _ _ => True) fun r _ => LinksCovered n r where
  touched htouch h := h.congr htouch.artifacts htouch.edges
  processed _ h _ _ _ _ hprocessed _ :=
    h.grown hprocessed.artifacts (by rw [hprocessed.edges, List.append_nil]) (by simp)
  repo _ _ _ _ h _ _ hw := h.grown hw.artifacts hw.edges fun e he => by simp [hw.source e he]

/-- The linker of the build writes between live artifacts only, no rename repoints a link of an earlier version, and the
alias passes retire no artifact with a link. -/
structure LinksOnLive (p : Platform) (r : Registry) (b : Build) : Prop where
  linker : ∀ _ ∈ (run p cached_generation r b).finalized,
    LinkerWrites EndsLive p (run p cached_generation r b).sources.current b.kb_version (r.build_seq + 1) b.similarity
  renames : ∀ passes ∈ (run p cached_generation r b).finalized,
    AlongM (apply_rename (r.build_seq + 1)) (RenameKeepsLinks (r.build_seq + 1)) passes.judged
      (detected_renames passes.judged
        (vanished_live_sources passes.judged (run p cached_generation r b).sources.seen r.now) (r.build_seq + 1))
  aliases : ∀ passes ∈ (run p cached_generation r b).finalized, ∀ e ∈ passes.invalidated.edges,
    e.source = some .linker → e.Live → touches (aliases_retired p passes.invalidated (r.build_seq + 1)) e = false
  ledger : ∀ passes ∈ (run p cached_generation r b).finalized, ∀ e ∈ passes.aliased.edges,
    e.source = some .linker → e.Live →
      touches (ledger_retired p passes.aliased b.retrieval_events b.window_start) e = false

instance (p : Platform) (r : Registry) (b : Build) : Decidable (LinksOnLive p r b) :=
  decidable_of_iff ((∀ _ ∈ _, _) ∧ (∀ passes ∈ _, _) ∧ (∀ passes ∈ _, ∀ e ∈ _, _) ∧ ∀ passes ∈ _, ∀ e ∈ _, _)
    ⟨fun h => ⟨h.1, h.2.1, h.2.2.1, h.2.2.2⟩, fun h => ⟨h.linker, h.renames, h.aliases, h.ledger⟩⟩

theorem LinksOnLive.writesOnLive (h : LinksOnLive p r b) : WritesOnLive (· = some .linker) p r b :=
  ⟨fun hof => by simp at hof, fun _ => h.linker, fun hof => by simp at hof,
    fun passes hpasses e he hof hlive _ => h.aliases passes hpasses e he hof hlive, h.ledger⟩

private theorem linksCovered_finalized (hinj : Function.Injective p.gen_random_uuid) {s : Registry} {n : Nat}
    (hwf : WellFormed p s) (hn : s.build_seq = n) (hfresh : FreshLive n s) (h : LinksCovered n s)
    {seen changed : List Uuid} {started_at : Timestamp} {passes : Finalized}
    (hfinal : Finalizes p b s seen changed started_at passes)
    (hlinker : LinkerWrites EndsLive p s b.kb_version n b.similarity)
    (hrenames : AlongM (apply_rename n) (RenameKeepsLinks n) passes.judged
      (detected_renames passes.judged (vanished_live_sources passes.judged seen started_at) n)) :
    LinksCovered n passes.mined := by
  subst hn
  have hrulings : ∀ judge ∈ b.judge,
      JudgeWrites (fun r key evidence => EdgeSource.llm_judge = .linker → EndsLive r key evidence) p passes.generated
        b.kb_version s.build_seq judge :=
    fun _ _ => .of_forall fun _ _ _ _ _ _ hlinker => by cases hlinker
  have hlinks : LinkerWrites (fun r key evidence => EdgeSource.linker = .linker → EndsLive r key evidence) p s b.kb_version
      s.build_seq b.similarity := fun drafts hdrafts => (hlinker drafts hdrafts).mono fun _ _ hok _ => hok
  have hjudged := (hfinal.links_rule (linkInvariant_linksCovered hwf rfl .linker)
    (linkInvariant_linksCovered hwf rfl .llm_judge) ⟨rfl, h⟩ hlinks hrulings).2
  have hframe := hfinal.onlyEdges_judged
  have hinvalidates := hfinal.invalidates hwf
  have hinvalidated : LinksCovered s.build_seq passes.invalidated := by
    refine linksCovered_run_invalidation_pass (hframe.wellFormed hwf) hframe.build_seq ?_ hrenames hfinal.invalidated
      hjudged
    unfold FreshLive
    rw [hframe.artifacts]
    exact hfresh
  have hseq := hfinal.invalidated_seq hwf
  have hother : ∀ e : KnowledgeEdge, is_alias_edge e = true → e.source ≠ some .linker := by
    intro e halias hl
    simp [is_alias_edge, hl] at halias
  obtain ⟨honly, -, hedges, -⟩ := run_alias_miner_spec b.kb_version hinvalidates.wellFormed hinj
  rw [hseq] at honly hedges
  have haliased : LinksCovered s.build_seq passes.aliased := by
    rw [hfinal.aliased]
    refine hinvalidated.step (fun _ => False) hinvalidates.wellFormed (honly.wellFormed hinvalidates.wellFormed)
      hseq (honly.build_seq.trans hseq) honly.artifacts (fun a a' hk => ⟨hk.artifact_id, hseq ▸ hk.evolves⟩) ?_
      fun _ hf => hf.elim
    refine hedges.mono (fun e _ e' hk => ?_) fun e he => hother e he.alias_edge
    cases halias : is_alias_edge e with
    | true =>
      have hnot := hother e halias
      exact ⟨hk.source, fun hl => absurd hl hnot, fun hl => absurd hl hnot, fun hl => absurd hl hnot⟩
    | false =>
      rw [hk.other halias]
      exact .refl _ _ e
  have hwf_aliased : WellFormed p passes.aliased := by
    rw [hfinal.aliased]
    exact honly.wellFormed hinvalidates.wellFormed
  obtain ⟨honly', hedges', -⟩ := run_ledger_alias_miner_spec (r := passes.aliased) b.kb_version b.retrieval_events
    b.window_start hinj
  have hseq' := hfinal.aliased_seq hwf hinj
  rw [hfinal.mined, ← hseq']
  refine (hseq' ▸ haliased).step (fun _ => False) hwf_aliased (honly'.wellFormed hwf_aliased) rfl
    honly'.build_seq honly'.artifacts (fun a a' hk => ⟨hk.artifact_id, hk.evolves⟩) ?_ fun _ hf => hf.elim
  rw [LinksFollow, hedges']
  exact .refl fun e _ => .refl _ _ e

/-- The linker's edges are covered, and those alive have live ends. -/
structure LinksServed (p : Platform) (r : Registry) : Prop where
  wellFormed : WellFormed p r
  live : NoGhost (· = some .linker) r
  covered : LinksCovered r.build_seq r

/-- Before a build its version is the next one, and what is alive stays covered in it. -/
theorem LinksServed.next_version (h : LinksServed p r) : LinksCovered (r.build_seq + 1) r := by
  intro e he hl from_side
  obtain ⟨a, ha, hid, hfrom, huntil⟩ := h.covered e he hl from_side
  refine ⟨a, ha, hid, hfrom, fun m hm => ?_⟩
  have hm' := huntil m hm
  cases hend : e.invalidated_at_seq with
  | some k => rwa [hend] at hm'
  | none =>
    have hends := h.live e he hl hend
    have hlive : LiveArtifact r (e.column from_side) := by
      cases from_side with
      | true => exact hends.1
      | false => exact hends.2
    obtain ⟨a', ha', hid', hlive⟩ := hlive
    obtain rfl := h.wellFormed.artifact_eq ha ha' (hid.trans hid'.symm)
    rw [show a.invalidated_at_seq = none from hlive] at hm
    cases hm

/-- One build, completed or not. -/
theorem linksServed_next (hinj : Function.Injective p.gen_random_uuid) (h : LinksServed p r) (hok : LinksOnLive p r b) :
    LinksServed p (next p cached_generation r b) := by
  obtain ⟨hwf', hseq⟩ := wellFormed_next (b := b) h.wellFormed hinj
  refine ⟨hwf', noGhost_next h.wellFormed hinj h.live hok.writesOnLive, ?_⟩
  rw [hseq]
  have hgood := run_rule_of_any (loopRule_linksCovered (b := b) (r.build_seq + 1)) h.wellFormed hinj
    (h.next_version.congr rfl rfl)
  cases run_end p r b with
  | failed hsources hpasses hsame => exact hgood.committed.congr hsame.artifacts hsame.edges
  | completed passes hsources hpasses hfinal hsame =>
    have hmined := linksCovered_finalized hinj hgood.current_wellFormed hgood.current_seq
      (freshLive_sources h.wellFormed hinj) hgood.current hfinal (hok.linker passes hpasses) (hok.renames passes hpasses)
    exact hmined.congr hsame.artifacts hsame.edges

/-- No version serves an edge of the linker without its ends. -/
theorem LinksServed.ends (h : LinksServed p r) {e : KnowledgeEdge} (he : e ∈ r.edges) (hl : e.source = some .linker)
    {seq : Nat} (hmember : e.MemberAt seq) (from_side : Bool) :
    ∃ a ∈ r.artifacts, a.artifact_id = e.column from_side ∧ a.MemberAt seq := by
  obtain ⟨a, ha, hid, hfrom, huntil⟩ := h.next_version e he hl from_side
  refine ⟨a, ha, hid, hfrom.trans hmember.1, ?_⟩
  cases hend : a.invalidated_at_seq with
  | none => exact .inl rfl
  | some m =>
    refine .inr ⟨m, rfl, ?_⟩
    have hle := huntil m hend
    rcases hmember.2 with hlive | ⟨k, hk, hlt⟩
    · have hstamp := (h.wellFormed.artifacts_stamped a ha).2 m hend
      rw [hlive, Option.getD_none] at hle
      omega
    · rw [hk, Option.getD_some] at hle
      omega

end Builds

end AgenticKb
