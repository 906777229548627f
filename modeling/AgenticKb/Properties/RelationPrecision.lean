import AgenticKb.Effects.LinkSpans
import AgenticKb.Properties.Activation

open AgenticKb.Lib

namespace AgenticKb

/-- What the publish gates ask of the linker's edges: a type of the vocabulary, and evidence that is not
NULL. -/
def Precise (e : KnowledgeEdge) : Prop :=
  e.source = some .linker → e.edge_type ∈ ALLOWED_EDGE_TYPES ∧ e.evidence.is_null = false

/-- The same of a link that is yet to be written. -/
def PreciseLink (_ : Registry) (key : Uuid × Uuid × EdgeType) (evidence : Jsonb) : Prop :=
  key.2.2 ∈ ALLOWED_EDGE_TYPES ∧ evidence.is_null = false

theorem LinkerEdgeType.mem_allowed (t : LinkerEdgeType) : t.edge_type ∈ ALLOWED_EDGE_TYPES := by
  cases t <;> decide

/-- Every draft of the linker is one: a draft without evidence is stored as the JSON value `null`. -/
theorem preciseLink_draft (r : Registry) (draft : LinkEdgeDraft) :
    PreciseLink r draft.key (.bind draft.evidence) :=
  ⟨draft.edge_type.mem_allowed, Jsonb.is_null_bind _⟩

section Links

variable {p : Platform} {r r' : Registry} {n : Nat} {source : EdgeSource}
  {key : Uuid × Uuid × EdgeType} {evidence : Jsonb} {row : Uuid → KnowledgeEdge}
  {set : KnowledgeEdge → KnowledgeEdge}

theorem SameLink.precise {e e' : KnowledgeEdge} (h : SameLink e e') (he : Precise e) : Precise e' := by
  unfold Precise
  rw [h.source, h.edge_type, h.evidence]
  exact he

theorem SameLinks.precise (h : SameLinks r r') (hr : ∀ e ∈ r.edges, Precise e) : ∀ e ∈ r'.edges, Precise e :=
  TableStep.forall_mem h (fun _ _ he hk => hk.precise he) (fun _ hf => hf.elim) hr

private theorem edge_type_of_key {e : KnowledgeEdge} (h : e.key = key) : e.edge_type = key.2.2 :=
  congrArg (·.2.2) h

/-- The row of a link that was written holds what was written. -/
private theorem upserted_link (hw : LinkWrite n source key evidence row set)
    (h : upsert_edge p r source key row set = some r') :
    ∀ e ∈ r'.edges, IsLink source key e → e.evidence = evidence := by
  rcases upsert_edge_cases h with ⟨-, rfl⟩ | ⟨hnone, rfl⟩
  · intro e he hlink
    obtain ⟨e₀, he₀, rfl⟩ := List.mem_map.1 he
    split at hlink
    · rename_i hlink₀
      rw [if_pos hlink₀]
      exact hw.set_evidence e₀
    · rename_i hlink₀
      exact absurd (decide_eq_true hlink) hlink₀
  · intro e he hlink
    rcases List.mem_append.1 he with he | he
    · exact absurd hlink (hnone e he)
    · rw [List.mem_singleton.1 he]
      exact hw.row_evidence _

/-- The rows of other links are not written. -/
private theorem other_links (h : upsert_edge p r source key row set = some r')
    (hw : LinkWrite n source key evidence row set) :
    ∀ e ∈ r'.edges, ¬ IsLink source key e → e ∈ r.edges := by
  rcases upsert_edge_cases h with ⟨-, rfl⟩ | ⟨-, rfl⟩
  · intro e he hother
    obtain ⟨e₀, he₀, rfl⟩ := List.mem_map.1 he
    split at hother
    · rename_i hlink
      have hlink₀ : IsLink source key e₀ := of_decide_eq_true hlink
      exact absurd ⟨(hw.set_source e₀).trans hlink₀.1, (hw.set_key e₀).trans hlink₀.2⟩ hother
    · rename_i hlink
      rwa [if_neg hlink]
  · intro e he hother
    rcases List.mem_append.1 he with he | he
    · exact he
    · rw [List.mem_singleton.1 he] at hother
      exact absurd ⟨hw.row_source _, hw.row_key _⟩ hother

/-- A precise link leaves the linker's edges precise; the judge writes none of them. -/
theorem linkInvariant_precise (n : Nat) (source : EdgeSource) :
    LinkInvariant p n source PreciseLink fun r => ∀ e ∈ r.edges, Precise e where
  sameCore r r' hsame h := by
    rw [hsame.edges]
    exact h
  link r r' key evidence row set _ h hok hw hupsert e he := by
    by_cases hlink : IsLink source key e
    · intro _
      rw [edge_type_of_key hlink.2, upserted_link hw hupsert e he hlink]
      exact hok
    · exact h e (other_links hupsert hw e he hlink)
  retire r stale _ h := (sameLinks_retire_edges r n stale).precise h

/-- Whatever the registry holds, each link the writer stores for a draft is precise. -/
theorem precise_write_link_edges {kb_version : String} {drafts : List LinkEdgeDraft}
    {protected_edge_types : List EdgeType}
    (h : write_link_edges p r kb_version n drafts protected_edge_types = some r') :
    ∀ draft ∈ drafts, ∀ e ∈ r'.edges, IsLink .linker draft.key e → Precise e := by
  simp only [write_link_edges, Option.bind_eq_bind, Option.bind_eq_some_iff, Option.some.injEq] at h
  obtain ⟨mid, hmid, rfl⟩ := h
  have hmid' : ∀ draft ∈ drafts, ∀ e ∈ mid.edges, IsLink .linker draft.key e → Precise e := by
    refine foldlM_prefix_invariant (I := fun done (mid : Registry) =>
      ∀ draft ∈ done, ∀ e ∈ mid.edges, IsLink .linker draft.key e → Precise e) ?_ (by simp) hmid
    intro done s draft s' _ hs hwrite draft' hdraft' e he hlink
    obtain ⟨row, set, hw, hupsert⟩ := linkWrite_of_write_link_edge hwrite
    by_cases hown : IsLink .linker draft.key e
    · intro _
      rw [edge_type_of_key hown.2, upserted_link hw hupsert e he hown]
      exact preciseLink_draft s draft
    · have hdone := (List.mem_append.1 hdraft').resolve_right fun hlast =>
        hown (List.mem_singleton.1 hlast ▸ hlink)
      exact hs draft' hdone e (other_links hupsert hw e he hown) hlink
  intro draft hdraft e he hlink
  obtain ⟨e₀, he₀, rfl⟩ := List.mem_map.1 he
  split at hlink
  · rename_i hretired
    rw [if_pos hretired]
    exact hmid' draft hdraft e₀ he₀ hlink
  · rename_i hkept
    rw [if_neg hkept]
    exact hmid' draft hdraft e₀ he₀ hlink

end Links

section Builds

variable {p : Platform} {b : Build} {r : Registry}

private theorem precise_of_source {e : KnowledgeEdge} {source : EdgeSource} (h : e.source = some source)
    (hne : source ≠ .linker) : Precise e := fun hlinker =>
  absurd (Option.some.inj (h.symm.trans hlinker)) hne

/-- The code pass writes edges of its own. -/
private theorem loopRule_precise {n : Nat} :
    LoopRule p b n (fun _ _ => True) (fun _ _ => True) fun r _ => ∀ e ∈ r.edges, Precise e where
  touched htouch h := by
    rw [htouch.edges]
    exact h
  processed {s r' fetched id added} _ h _ _ _ _ hprocessed _ := by
    rw [hprocessed.edges]
    exact h
  repo {s s' entry result rows added links} _ _ _ _ h _ _ hw e he := by
    rw [hw.edges] at he
    exact (List.mem_append.1 he).elim (h e) fun hlink => precise_of_source (hw.source e hlink) (by simp)

private theorem precise_finalized (hinj : Function.Injective p.gen_random_uuid) (hwf : WellFormed p r)
    {seen changed : List Uuid} {started_at : Timestamp} {passes : Finalized}
    (hfinal : Finalizes p b r seen changed started_at passes) (hr : ∀ e ∈ r.edges, Precise e) :
    ∀ e ∈ passes.mined.edges, Precise e := by
  have hjudged : ∀ e ∈ passes.judged.edges, Precise e := by
    refine hfinal.links_rule (linkInvariant_precise r.build_seq .linker)
      (linkInvariant_precise r.build_seq .llm_judge) hr
      (fun _ _ => .of_forall fun s draft _ => preciseLink_draft s draft)
      fun _ _ => .of_forall fun state cand _ ruling _ _ => ?_
    exact ⟨show EdgeType.documents ∈ ALLOWED_EDGE_TYPES by decide, rfl⟩
  have hinvalidated := (sameLinks_run_invalidation_pass hfinal.invalidated).precise hjudged
  have haliased : ∀ e ∈ passes.aliased.edges, Precise e := by
    obtain ⟨-, -, hedges, -⟩ := run_alias_miner_spec b.kb_version
      (hfinal.invalidates hwf).wellFormed hinj
    rw [hfinal.invalidated_seq hwf] at hedges
    rw [hfinal.aliased]
    refine hedges.forall_mem (fun e e' he hk hlinker => ?_) (fun e he => ?_) hinvalidated
    · have hsource : e.source = some .linker := hk.source.symm.trans hlinker
      rw [hk.other (by simp [is_alias_edge, hsource])]
      exact he hsource
    · have halias := he.alias_edge
      simp only [is_alias_edge, Bool.and_eq_true, beq_iff_eq] at halias
      exact precise_of_source halias.1 (by simp)
  have hledger := (run_ledger_alias_miner_spec (r := passes.aliased) b.kb_version b.retrieval_events
    b.window_start hinj).2.1
  rw [hfinal.aliased_seq hwf hinj] at hledger
  rw [hfinal.mined, hledger]
  exact haliased

/-- One build, completed or not. -/
private theorem precise_next (hinj : Function.Injective p.gen_random_uuid) (hwf : WellFormed p r)
    (hr : ∀ e ∈ r.edges, Precise e) : ∀ e ∈ (next p cached_generation r b).edges, Precise e := by
  have hgood := run_rule_of_any (b := b) loopRule_precise hwf hinj hr
  cases run_end p r b with
  | failed hsources hpasses hsame =>
    intro e he
    exact hgood.committed e (hsame.edges ▸ he)
  | completed passes hsources hpasses hfinal hsame =>
    intro e he
    exact precise_finalized hinj hgood.current_wellFormed hfinal hgood.current e (hsame.edges ▸ he)

end Builds

section Gates

variable {p : Platform} {r r' : Registry} {index : SearchIndex} {kb_version : String}

/-- The registry without the rows of the linker. -/
def without_links (r : Registry) : Registry := { r with edges := r.edges.filter fun e => e.source != some .linker }

/-- What the publish gates decide of a label; `none` where one of them raises. -/
def verdict (index : SearchIndex) (r : Registry) (kb_version : String) : Option Bool :=
  (make_publish_gate_validator index r kb_version).map (·.2)

/-- Whatever build is to be activated, against whatever index: the linker's rows do not change what the gates decide. -/
def NotBlockedByLinks (r : Registry) : Prop :=
  ∀ index kb_version, verdict index r kb_version = verdict index (without_links r) kb_version

def GateResult.lets_pass (result : GateResult) : Bool := result.skipped || result.passed

/-- Gates that let the same pass decide the same. -/
theorem compose_gates_congr {gates : List Gate}
    (h : ∀ gate ∈ gates, (gate r kb_version).map GateResult.lets_pass = (gate r' kb_version).map GateResult.lets_pass) :
    (compose_gates gates r kb_version).map (·.2) = (compose_gates gates r' kb_version).map (·.2) := by
  induction gates with
  | nil => rfl
  | cons gate gates ih =>
    obtain ⟨hgate, hgates⟩ := List.forall_mem_cons.1 h
    simp only [compose_gates]
    cases hr : gate r kb_version with
    | none =>
      rw [hr, Option.map_none, eq_comm, Option.map_eq_none_iff] at hgate
      rw [hgate]
    | some result =>
      rw [hr, Option.map_some, eq_comm, Option.map_eq_some_iff] at hgate
      obtain ⟨result', hr', hsame⟩ := hgate
      rw [hr']
      simp only [GateResult.lets_pass] at hsame
      simp only [hsame]
      split
      · exact ih hgates
      · rfl

/-- A count that no row of the linker is in. -/
theorem countP_without_links {sel : KnowledgeEdge → Bool}
    (h : ∀ e ∈ r.edges, e.source = some .linker → sel e = false) : (without_links r).edges.countP sel = r.edges.countP sel := by
  rw [without_links, List.countP_filter]
  refine List.countP_congr fun e he => ?_
  by_cases hl : e.source = some .linker
  · simp [h e he hl]
  · simp [hl]

/-- Rows that are precise, with both ends served, are in no count of the gates. -/
theorem notBlockedByLinks (hserved : LinksServed p r) (hprecise : ∀ e ∈ r.edges, Precise e) : NotBlockedByLinks r := by
  have htype : ∀ seq, ∀ e ∈ r.edges, e.source = some .linker →
      (decide (e.MemberAt seq) && !ALLOWED_EDGE_TYPES.contains e.edge_type) = false := by
    intro seq e he hl
    simp [(hprecise e he hl).1]
  have hends : ∀ seq, ∀ e ∈ r.edges, e.source = some .linker → ghost r seq e = false := by
    intro seq e he hl
    by_cases hmember : e.MemberAt seq
    · have hin : ∀ from_side, (member_ids r seq).contains (e.column from_side) = true := by
        intro from_side
        obtain ⟨a, ha, hid, hserves⟩ := hserved.ends he hl hmember from_side
        rw [List.contains_iff_mem, ← hid]
        exact List.mem_map_of_mem (List.mem_filter.2 ⟨ha, decide_eq_true hserves⟩)
      have hfrom : (member_ids r seq).contains e.from_artifact_id = true := hin true
      have hto : (member_ids r seq).contains e.to_artifact_id = true := hin false
      rw [ghost, hfrom, hto, Bool.not_true, Bool.or_false, Bool.and_false]
    · rw [ghost, decide_eq_false hmember, Bool.false_and]
  have hmissing : ∀ seq, ∀ e ∈ r.edges, e.source = some .linker → missing_evidence seq e = false := by
    intro seq e he hl
    simp [missing_evidence, (hprecise e he hl).2]
  intro index kb_version
  refine compose_gates_congr fun gate hgate => ?_
  simp only [publish_gates, List.mem_cons, List.not_mem_nil, or_false] at hgate
  rcases hgate with rfl | rfl | rfl | rfl | rfl | rfl | rfl
  · rfl
  · rfl
  · rfl
  · rfl
  · have hsame : ∀ seq, edge_evidence_integrity (without_links r) seq = edge_evidence_integrity r seq := by
      intro seq
      simp only [edge_evidence_integrity]
      rw [countP_without_links (htype seq), show ghost (without_links r) seq = ghost r seq from rfl,
        countP_without_links (hends seq)]
    rw [edge_evidence_integrity_gate, edge_evidence_integrity_gate, funext hsame]
    rfl
  · have hsame : ∀ seq, relation_precision (without_links r) seq = relation_precision r seq := by
      intro seq
      simp only [relation_precision]
      rw [countP_without_links (hmissing seq)]
    rw [relation_precision_gate, relation_precision_gate, funext hsame]
    rfl
  · rfl

end Gates

section Operations

variable {p : Platform} {r : Registry}

/-- A build of the run writes its links on live artifacts. -/
def OperationLinks (p : Platform) (r : Registry) : Operation → Prop
  | .build b => LinksOnLive p r b
  | .activate _ _ => True

instance (p : Platform) (r : Registry) (operation : Operation) : Decidable (OperationLinks p r operation) :=
  match operation with
  | .build b => inferInstanceAs (Decidable (LinksOnLive p r b))
  | .activate _ _ => .isTrue trivial

/-- An activation writes the run table only. -/
theorem sameCore_activate (p : Platform) (r : Registry) (build_id : Uuid) (index : SearchIndex) :
    SameCore r (operate p r (.activate build_id index)) := by
  cases hactivation : activation r build_id index with
  | none => simpa [operate, hactivation] using SameCore.refl r
  | some result =>
    simp only [operate, hactivation, Option.map_some, Option.getD_some]
    obtain ⟨run, -, -, -, checked, hchecked, rfl⟩ := activation_cases hactivation
    obtain ⟨checked, passed⟩ := checked
    cases passed with
    | true =>
      obtain ⟨rfl, -⟩ := compose_gates_passed hchecked
      exact ⟨rfl, rfl, rfl, rfl, rfl⟩
    | false =>
      obtain ⟨result, rfl⟩ := compose_gates_failed hchecked
      exact ⟨rfl, rfl, rfl, rfl, rfl⟩

theorem precise_operations (hinj : Function.Injective p.gen_random_uuid) (operations : List Operation) :
    ∀ e ∈ (operations.foldl (operate p) Registry.empty).edges, Precise e := by
  have hinv : WellFormed p (operations.foldl (operate p) Registry.empty) ∧
      ∀ e ∈ (operations.foldl (operate p) Registry.empty).edges, Precise e := by
    refine foldl_invariant (I := fun r => WellFormed p r ∧ ∀ e ∈ r.edges, Precise e) ?_
      ⟨wellFormed_empty p, by simp [Registry.empty]⟩
    rintro r operation - ⟨hwf, hr⟩
    cases operation with
    | build b => exact ⟨(wellFormed_next hwf hinj).1, precise_next hinj hwf hr⟩
    | activate build_id index =>
      have hsame := sameCore_activate p r build_id index
      refine ⟨hwf.of_sameCore hsame, ?_⟩
      rw [hsame.edges]
      exact hr
  exact hinv.2

theorem linksServed_operate (hinj : Function.Injective p.gen_random_uuid) {operation : Operation} (h : LinksServed p r)
    (hok : OperationLinks p r operation) : LinksServed p (operate p r operation) := by
  cases operation with
  | build b => exact linksServed_next hinj h hok
  | activate build_id index =>
    have hsame := sameCore_activate p r build_id index
    refine ⟨h.wellFormed.of_sameCore hsame, h.live.congr hsame.edges fun _ hl => hl.congr hsame.artifacts, ?_⟩
    rw [hsame.build_seq]
    exact h.covered.congr hsame.artifacts hsame.edges

/-- What the linker writes for its drafts meets the gates' predicate, whatever the artifacts are; after any builds and
activations no row of it fails the gate over the relations; and as long as the builds write their links on live artifacts,
no build is blocked by them. -/
theorem linker_edges_pass_relation_precision (hinj : Function.Injective p.gen_random_uuid) :
    (∀ (r r' : Registry) (kb_version : String) (n : Nat) (similarity : Option SimilarityProvider)
        (drafts : List LinkEdgeDraft), linker_drafts p r similarity = some drafts →
      run_linker p r kb_version n similarity = some r' →
      ∀ draft ∈ drafts, ∀ e ∈ r'.edges, IsLink .linker draft.key e →
        e.edge_type ∈ ALLOWED_EDGE_TYPES ∧ e.evidence.is_null = false) ∧
    ∀ operations : List Operation,
      (∀ e ∈ (operations.foldl (operate p) Registry.empty).edges, e.source = some .linker →
        e.edge_type ∈ ALLOWED_EDGE_TYPES ∧ e.evidence.is_null = false) ∧
      (∀ seq, (relation_precision (operations.foldl (operate p) Registry.empty) seq).passed = true) ∧
      (Along (operate p) (OperationLinks p) Registry.empty operations →
        NotBlockedByLinks (operations.foldl (operate p) Registry.empty)) := by
  refine ⟨fun r r' kb_version n similarity drafts hdrafts hrun draft hdraft e he hlink => ?_, fun operations => ?_⟩
  · simp only [run_linker, hdrafts, Option.bind_eq_bind, Option.bind_some] at hrun
    exact precise_write_link_edges hrun draft hdraft e he hlink hlink.1
  · have hprecise := precise_operations hinj operations
    refine ⟨hprecise, fun seq => ?_, fun hok => ?_⟩
    · simp only [relation_precision, beq_iff_eq, List.countP_eq_zero, missing_evidence, Bool.and_eq_true, not_and,
        decide_eq_true_eq, and_imp]
      intro e he _ hlinker
      simp [(hprecise e he hlinker).2]
    · have hserved : LinksServed p (operations.foldl (operate p) Registry.empty) := by
        refine hok.invariant (I := LinksServed p) (fun r operation _ h hlinks => linksServed_operate hinj h hlinks) ?_
        exact ⟨wellFormed_empty p, by simp [NoGhost, Registry.empty], by simp [LinksCovered, Registry.empty]⟩
      exact notBlockedByLinks hserved hprecise

def concept_index (texts : List String) : SearchIndex :=
  reconcile_index .plain (history .plain cached_generation (texts.map concept_build)) []

/-- A concept is renamed by the build of another label, which ends its link, and that build is activated. -/
def renamed_concept : List Operation :=
  [.build (concept_build "Alpha X"), .build { concept_build "Beta X" with kb_version := "w" },
    .activate 6 (concept_index ["Alpha X", "Beta X"])]

/-- The first build serves a link that has ended since, without an evidence pointer, and can still be activated. -/
theorem renamed_concept_not_blocked :
    (∃ e ∈ (renamed_concept.foldl (operate .plain) Registry.empty).edges, e.source = some .linker ∧ e.MemberAt 1 ∧
      e.invalidated_at_seq = some 2 ∧ e.evidence = .json_null) ∧
    active_runs (renamed_concept.foldl (operate .plain) Registry.empty) = [6] ∧
    verdict (concept_index ["Alpha X", "Beta X"]) (renamed_concept.foldl (operate .plain) Registry.empty) "v" =
      some true ∧
    verdict (concept_index ["Alpha X", "Beta X"]) (without_links (renamed_concept.foldl (operate .plain) Registry.empty)) "v" =
      some true := by
  have hlinks := ((linker_edges_pass_relation_precision (p := .plain) (fun _ _ h => h)).2 renamed_concept).2.2
    (by decide +kernel)
  have hverdict : verdict (concept_index ["Alpha X", "Beta X"]) (renamed_concept.foldl (operate .plain) Registry.empty) "v" =
      some true := by
    decide +kernel
  exact ⟨by decide +kernel, by decide +kernel, hverdict, (hlinks _ _).symm.trans hverdict⟩

/-- The third build finds the row of the concept that the second one retired and links the summary to it again. Every row
of the linker is precise, and yet the gates reject the build for that link alone. -/
theorem build_blocked_by_link :
    AllComplete .plain [concept_build "Alpha X", concept_build "Beta X", concept_build "Beta X"] ∧
    build_seq_for (history .plain cached_generation (["Alpha X", "Beta X", "Beta X"].map concept_build)) "v" = some 3 ∧
    verdict (concept_index ["Alpha X", "Beta X", "Beta X"])
      (history .plain cached_generation (["Alpha X", "Beta X", "Beta X"].map concept_build)) "v" = some false ∧
    verdict (concept_index ["Alpha X", "Beta X", "Beta X"])
      (without_links (history .plain cached_generation (["Alpha X", "Beta X", "Beta X"].map concept_build))) "v" =
        some true := by
  refine ⟨?_, ?_, ?_, ?_⟩ <;> decide +kernel

end Operations

end AgenticKb
