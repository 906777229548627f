import AgenticKb.Effects.CodeGraph

open AgenticKb.Lib

namespace AgenticKb

/-- Only edges were written, and ids drawn for them. -/
structure OnlyEdges (p : Platform) (r r' : Registry) : Prop where
  source_items : r'.source_items = r.source_items
  artifacts : r'.artifacts = r.artifacts
  build_seq : r'.build_seq = r.build_seq
  wellFormed : WellFormed p r → WellFormed p r'

namespace OnlyEdges

variable {p : Platform} {r r' r'' : Registry}

theorem of_sameCore (h : SameCore r r') : OnlyEdges p r r' :=
  ⟨h.source_items, h.artifacts, h.build_seq, fun hwf => hwf.of_sameCore h⟩

theorem refl (r : Registry) : OnlyEdges p r r := of_sameCore (.refl r)

theorem trans (h : OnlyEdges p r r') (h' : OnlyEdges p r' r'') : OnlyEdges p r r'' :=
  ⟨h'.source_items.trans h.source_items, h'.artifacts.trans h.artifacts,
    h'.build_seq.trans h.build_seq, fun hwf => h'.wellFormed (h.wellFormed hwf)⟩

theorem liveArtifact (h : OnlyEdges p r r') {id : Uuid} : LiveArtifact r' id ↔ LiveArtifact r id := by
  simp only [LiveArtifact, h.artifacts]

end OnlyEdges

/-- A link write of build `n`: the row it inserts and the row it makes of an existing one stand for
the same logical link with the same evidence, and are live. -/
structure LinkWrite (n : Nat) (source : EdgeSource) (key : Uuid × Uuid × EdgeType) (evidence : Jsonb)
    (row : Uuid → KnowledgeEdge) (set : KnowledgeEdge → KnowledgeEdge) : Prop where
  row_introduced : ∀ id, (row id).IntroducedBy n
  row_key : ∀ id, (row id).key = key
  row_source : ∀ id, (row id).source = some source
  row_evidence : ∀ id, (row id).evidence = evidence
  set_valid_from : ∀ e, (set e).valid_from_seq = e.valid_from_seq
  set_live : ∀ e, (set e).Live
  set_id : ∀ e, (set e).edge_id = e.edge_id
  set_key : ∀ e, (set e).key = e.key
  set_source : ∀ e, (set e).source = e.source
  set_evidence : ∀ e, (set e).evidence = evidence

/-- The row of a logical link. -/
def IsLink (source : EdgeSource) (key : Uuid × Uuid × EdgeType) (e : KnowledgeEdge) : Prop :=
  e.source = some source ∧ e.key = key

instance (source : EdgeSource) (key : Uuid × Uuid × EdgeType) (e : KnowledgeEdge) :
    Decidable (IsLink source key e) := inferInstanceAs (Decidable (_ ∧ _))

section Upsert

variable {p : Platform} {r r' : Registry} {n : Nat} {source : EdgeSource}
  {key : Uuid × Uuid × EdgeType} {evidence : Jsonb} {row : Uuid → KnowledgeEdge}
  {set : KnowledgeEdge → KnowledgeEdge}

/-- An upsert rewrites the rows of its link, or appends the link's first row. -/
theorem upsert_edge_cases (h : upsert_edge p r source key row set = some r') :
    (∃ e ∈ r.edges, IsLink source key e) ∧
        r' = { r with edges := update_where r.edges (fun e => decide (IsLink source key e)) set } ∨
      (∀ e ∈ r.edges, ¬ IsLink source key e) ∧ r' = r.add_edge p row := by
  have hsame : ∀ e : KnowledgeEdge, (e.source == some source && e.key == key) = true ↔ IsLink source key e := by
    simp [IsLink]
  unfold upsert_edge at h
  dsimp only at h
  split at h
  · rename_i hany
    obtain ⟨e, he, hlink⟩ := List.any_eq_true.1 hany
    refine .inl ⟨⟨e, he, (hsame e).1 hlink⟩, ?_⟩
    rw [← Option.some.inj h]
    have hpred : (fun e : KnowledgeEdge => e.source == some source && e.key == key) =
        fun e => decide (IsLink source key e) := by
      funext e
      rw [Bool.eq_iff_iff, hsame e, decide_eq_true_iff]
    rw [hpred]
  · rename_i hany
    split at h
    · refine .inr ⟨fun e he hlink => hany (List.any_eq_true.2 ⟨e, he, (hsame e).2 hlink⟩), ?_⟩
      exact (Option.some.inj h).symm
    · simp at h

theorem LinkWrite.onlyEdges (hw : LinkWrite r.build_seq source key evidence row set)
    (h : upsert_edge p r source key row set = some r') : OnlyEdges p r r' := by
  rcases upsert_edge_cases h with ⟨-, rfl⟩ | ⟨-, rfl⟩
  · refine ⟨rfl, rfl, rfl, fun hwf => hwf.set_edges (.of_update_where ?_ fun e _ _ => .refl _ _)⟩
    exact fun e _ _ => ⟨hw.set_valid_from e, .inr (.inl (hw.set_live e))⟩
  · exact ⟨rfl, rfl, rfl, fun hwf => hwf.add_edge hw.row_introduced⟩

theorem onlyEdges_retire_edges (p : Platform) (r : Registry) (stale : KnowledgeEdge → Bool) :
    OnlyEdges p r (retire_edges r r.build_seq stale) :=
  ⟨rfl, rfl, rfl, fun hwf => hwf.set_edges
    (.of_update_where (fun _ _ _ => ⟨rfl, .inr (.inr rfl)⟩) fun _ _ _ => .refl _ _)⟩

end Upsert

/-- Each draft the linker writes is one link write. -/
theorem linkWrite_of_write_link_edge {p : Platform} {kb_version : String} {n : Nat} {r r' : Registry}
    {draft : LinkEdgeDraft} (h : write_link_edge p kb_version n r draft = some r') :
    ∃ row set, LinkWrite n .linker draft.key (.bind draft.evidence) row set ∧
      upsert_edge p r .linker draft.key row set = some r' := by
  refine ⟨_, _, ?_, h⟩
  exact ⟨fun _ => ⟨rfl, rfl⟩, fun _ => rfl, fun _ => rfl, fun _ => rfl, fun _ => rfl, fun _ => rfl,
    fun _ => rfl, fun _ => rfl, fun _ => rfl, fun _ => rfl⟩

/-- So is each ruling the judge writes. -/
theorem linkWrite_of_upsert_judge_edge {p : Platform} {kb_version : String} {n : Nat} {r r' : Registry}
    {cand : JudgeCandidate} {judgment : RelationshipJudgment}
    (h : upsert_judge_edge p kb_version n r cand judgment = some r') :
    ∃ row set, LinkWrite n .llm_judge cand.key (.object (evidence_pointer judgment)) row set ∧
      upsert_edge p r .llm_judge cand.key row set = some r' := by
  refine ⟨_, _, ?_, h⟩
  exact ⟨fun _ => ⟨rfl, rfl⟩, fun _ => rfl, fun _ => rfl, fun _ => rfl, fun _ => rfl, fun _ => rfl,
    fun _ => rfl, fun _ => rfl, fun _ => rfl, fun _ => rfl⟩

/-- What an invariant of the edge table has to survive in the linker's and the judge's pass. -/
structure LinkInvariant (p : Platform) (n : Nat) (source : EdgeSource)
    (ok : Registry → Uuid × Uuid × EdgeType → Jsonb → Prop) (inv : Registry → Prop) : Prop where
  sameCore : ∀ r r', SameCore r r' → inv r → inv r'
  link : ∀ r r' key evidence row set, r.build_seq = n → inv r → ok r key evidence →
    LinkWrite n source key evidence row set → upsert_edge p r source key row set = some r' → inv r'
  retire : ∀ r stale, r.build_seq = n → inv r → inv (retire_edges r n stale)

section Linker

variable {p : Platform} {b : Build} {r r' : Registry} {kb_version : String} {n : Nat}
  {similarity : Option SimilarityProvider} {ok : Registry → Uuid × Uuid × EdgeType → Jsonb → Prop}
  {inv : Registry → Prop}

/-- Every link the linker writes meets `ok` at the registry it is written to. -/
def LinkerWrites (ok : Registry → Uuid × Uuid × EdgeType → Jsonb → Prop) (p : Platform) (r : Registry)
    (kb_version : String) (n : Nat) (similarity : Option SimilarityProvider) : Prop :=
  ∀ drafts ∈ linker_drafts p r similarity,
    AlongM (write_link_edge p kb_version n) (fun r draft => ok r draft.key (.bind draft.evidence)) r drafts

instance [∀ r key evidence, Decidable (ok r key evidence)] :
    Decidable (LinkerWrites ok p r kb_version n similarity) :=
  inferInstanceAs (Decidable (∀ drafts ∈ linker_drafts p r similarity, AlongM _ _ _ _))

/-- The linker's pass: one link write for each draft, then one retirement. -/
theorem run_linker_rule (hinv : LinkInvariant p n .linker ok inv) (hn : r.build_seq = n) (hr : inv r)
    (hok : LinkerWrites ok p r kb_version n similarity)
    (h : run_linker p r kb_version n similarity = some r') : inv r' ∧ r'.build_seq = n := by
  simp only [run_linker, write_link_edges, Option.bind_eq_bind, Option.bind_eq_some_iff,
    Option.some.injEq] at h
  obtain ⟨drafts, hdrafts, mid, hmid, rfl⟩ := h
  have hloop : inv mid ∧ mid.build_seq = n := by
    refine AlongM.invariant (I := fun r => inv r ∧ r.build_seq = n) ?_ ⟨hr, hn⟩ (hok drafts hdrafts) hmid
    rintro s draft s' - ⟨hs, hseq⟩ hdraft hwrite
    obtain ⟨row, set, hw, hupsert⟩ := linkWrite_of_write_link_edge hwrite
    exact ⟨hinv.link s s' _ _ row set hseq hs hdraft hw hupsert,
      ((hseq ▸ hw).onlyEdges hupsert).build_seq.trans hseq⟩
  exact ⟨hinv.retire mid _ hloop.2 hloop.1, hloop.2⟩

/-- The frame of any link pass. -/
theorem linkInvariant_onlyEdges (p : Platform) (r₀ : Registry) (source : EdgeSource) :
    LinkInvariant p r₀.build_seq source (fun _ _ _ => True) (OnlyEdges p r₀) where
  sameCore _ _ hsame h := h.trans (.of_sameCore hsame)
  link _ _ _ _ _ _ hseq h _ hw hupsert := h.trans ((hseq ▸ hw).onlyEdges hupsert)
  retire r stale hseq h := h.trans (hseq ▸ onlyEdges_retire_edges p r stale)

theorem onlyEdges_run_linker (h : run_linker p r kb_version r.build_seq similarity = some r') :
    OnlyEdges p r r' :=
  (run_linker_rule (linkInvariant_onlyEdges p r .linker) rfl (.refl r) (fun _ _ => .of_forall fun _ _ _ => trivial) h).1

theorem sameCore_run_candidate_generator :
    SameCore r (run_candidate_generator p r kb_version similarity) := by
  have hset : ∀ rows, SameCore r { r with candidates := rows } := fun _ => ⟨rfl, rfl, rfl, rfl, rfl⟩
  exact hset _

end Linker

section Judge

variable {p : Platform} {r r' : Registry} {kb_version : String} {n : Nat} {judge : RelationshipJudge}
  {ok : Registry → Uuid × Uuid × EdgeType → Jsonb → Prop} {inv : Registry → Prop}

/-- Every link the judge writes meets `ok` at the registry it is written to. -/
def JudgeWrites (ok : Registry → Uuid × Uuid × EdgeType → Jsonb → Prop) (p : Platform) (r : Registry)
    (kb_version : String) (n : Nat) (judge : RelationshipJudge) : Prop :=
  AlongM (judge_candidate p kb_version n judge)
    (fun state cand => ∀ ruling ∈ judgment_of judge state.1 cand,
      (guarded p cand ruling.2).trust_bucket ≠ .REJECTED →
      ok ruling.1 cand.key (.object (evidence_pointer (guarded p cand ruling.2))))
    (r, []) (load_candidates p r kb_version)

instance [∀ r key evidence, Decidable (ok r key evidence)] :
    Decidable (JudgeWrites ok p r kb_version n judge) :=
  have : ∀ (state : Registry × List (Uuid × Uuid × EdgeType)) (cand : JudgeCandidate),
      Decidable (∀ ruling ∈ judgment_of judge state.1 cand,
        (guarded p cand ruling.2).trust_bucket ≠ .REJECTED →
        ok ruling.1 cand.key (.object (evidence_pointer (guarded p cand ruling.2)))) :=
    fun _ _ => inferInstance
  inferInstanceAs (Decidable (AlongM _ _ _ _))

theorem sameCore_judgment_of {cand : JudgeCandidate} {judgment : RelationshipJudgment}
    (h : judgment_of judge r cand = some (r', judgment)) : SameCore r r' := by
  obtain ⟨judgments, rfl⟩ := eq_of_judgment_of h
  exact ⟨rfl, rfl, rfl, rfl, rfl⟩

/-- Ruling on one candidate: a cache write and, unless it is rejected, one link write. -/
theorem judge_candidate_cases {state state' : Registry × List (Uuid × Uuid × EdgeType)}
    {cand : JudgeCandidate} (h : judge_candidate p kb_version n judge state cand = some state') :
    ∃ ruled judgment, judgment_of judge state.1 cand = some (ruled, judgment) ∧
      (state' = (ruled, state.2) ∨
        (guarded p cand judgment).trust_bucket ≠ .REJECTED ∧ ∃ row set,
          LinkWrite n .llm_judge cand.key (.object (evidence_pointer (guarded p cand judgment))) row set ∧
          upsert_edge p ruled .llm_judge cand.key row set = some state'.1) := by
  simp only [judge_candidate, Option.bind_eq_bind, Option.bind_eq_some_iff, Prod.exists] at h
  obtain ⟨ruled, judgment, hruling, h⟩ := h
  refine ⟨ruled, judgment, hruling, ?_⟩
  split at h
  · exact .inl (Option.some.inj h).symm
  · rename_i hbucket
    simp only [Option.bind_eq_some_iff, Option.some.injEq] at h
    obtain ⟨written, hwrite, rfl⟩ := h
    obtain ⟨row, set, hw, hupsert⟩ := linkWrite_of_upsert_judge_edge hwrite
    exact .inr ⟨by simpa using hbucket, row, set, hw, hupsert⟩

/-- The judge's pass: one link write for each candidate it does not reject, then one retirement. -/
theorem run_judge_rule (hinv : LinkInvariant p n .llm_judge ok inv) (hn : r.build_seq = n) (hr : inv r)
    (hok : JudgeWrites ok p r kb_version n judge) (h : run_judge p kb_version n judge r = some r') :
    inv r' ∧ r'.build_seq = n := by
  simp only [run_judge, Option.bind_eq_bind, Option.bind_eq_some_iff, Option.some.injEq, Prod.exists] at h
  obtain ⟨mid, computed, hmid, h⟩ := h
  have hloop : inv mid ∧ mid.build_seq = n := by
    refine AlongM.invariant (I := fun state => inv state.1 ∧ state.1.build_seq = n) ?_ ⟨hr, hn⟩ hok hmid
    rintro state cand state' - ⟨hs, hseq⟩ hcand hstep
    obtain ⟨ruled, judgment, hruling, hcases⟩ := judge_candidate_cases hstep
    have hsame := sameCore_judgment_of hruling
    have hruled := hinv.sameCore _ _ hsame hs
    have hseq' : ruled.build_seq = n := hsame.build_seq.trans hseq
    rcases hcases with rfl | ⟨hbucket, row, set, hw, hupsert⟩
    · exact ⟨hruled, hseq'⟩
    · exact ⟨hinv.link ruled _ _ _ row set hseq' hruled (hcand (ruled, judgment) hruling hbucket) hw hupsert,
        ((hseq' ▸ hw).onlyEdges hupsert).build_seq.trans hseq'⟩
  subst h
  split
  · exact hloop
  · exact ⟨hinv.retire mid _ hloop.2 hloop.1, hloop.2⟩

theorem onlyEdges_run_judge (h : run_judge p kb_version r.build_seq judge r = some r') :
    OnlyEdges p r r' := by
  refine (run_judge_rule (linkInvariant_onlyEdges p r .llm_judge) rfl (.refl r) ?_ h).1
  exact .of_forall fun _ _ _ _ _ _ => trivial

end Judge

end AgenticKb
