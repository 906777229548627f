import AgenticKb.Effects.Links
import AgenticKb.Lib.Run

open AgenticKb.Lib

namespace AgenticKb

/-- What a model is asked about a pair: the titles and bodies in the order it is shown them. -/
structure Question where
  model_version : String
  from_title : String
  from_text : String
  to_title : String
  to_text : String
deriving DecidableEq, Repr

/-- The cache row of the question. -/
def Question.key (p : Platform) (q : Question) : JudgmentCacheKey :=
  relationship_judgment_cache_parts (p.content_hash q.from_text) (p.content_hash q.to_text) q.model_version

def JudgeCandidate.question (judge : RelationshipJudge) (cand : JudgeCandidate) : Question :=
  { model_version := judge.model_name ++ "|" ++ judge.model_params_hash
    from_title := cand.from_endpoint.title
    from_text := cand.from_endpoint.evidence_text
    to_title := cand.to_endpoint.title
    to_text := cand.to_endpoint.evidence_text }

/-- The judge rules by what it is shown. -/
def JudgesShown (verdict : Question → Option RelationshipJudgment) (judge : RelationshipJudge) : Prop :=
  ∀ cand, judge.generate_relationship_judgment cand = verdict (cand.question judge)

/-- The judge pass of one build: the registry it finds, but for the cache, and whether the build goes on to commit. -/
structure JudgeTurn where
  registry : Registry
  kb_version : String
  valid_from_seq : Nat
  judge : RelationshipJudge
  commits : Bool := true

/-- The cache, and the questions its rows were an answer to. -/
structure Rulings where
  judgments : Dict JudgmentCacheKey RelationshipJudgmentCache := []
  asked : List Question := []

section Judge

variable (p : Platform)

/-- What the pass asks or looks up. -/
def JudgeTurn.questions (turn : JudgeTurn) : List Question :=
  (load_candidates p turn.registry turn.kb_version).map fun cand => cand.question turn.judge

/-- The pass of a build that finds this cache. -/
def JudgeTurn.run (turn : JudgeTurn) (judgments : Dict JudgmentCacheKey RelationshipJudgmentCache) : Option Registry :=
  run_judge p turn.kb_version turn.valid_from_seq turn.judge { turn.registry with judgments }

def take_judge_turn (s : Rulings) (turn : JudgeTurn) : Rulings :=
  match turn.run p s.judgments with
  | some r => if turn.commits then { judgments := r.judgments, asked := s.asked ++ turn.questions p } else s
  | none => s

/-- `judge_candidate` for a pair that is judged afresh: no earlier ruling is to be found. -/
def judge_candidate_afresh (kb_version : String) (valid_from_seq : Nat) (judge : RelationshipJudge)
    (state : Registry × List (Uuid × Uuid × EdgeType)) (cand : JudgeCandidate) :
    Option (Registry × List (Uuid × Uuid × EdgeType)) :=
  judge_candidate p kb_version valid_from_seq judge ({ state.1 with judgments := [] }, state.2) cand

/-- `run_judge` with every pair judged afresh. -/
def run_judge_afresh (kb_version : String) (valid_from_seq : Nat) (judge : RelationshipJudge) (r : Registry) :
    Option Registry := do
  let candidates := load_candidates p r kb_version
  let (r, computed) ← candidates.foldlM (judge_candidate_afresh p kb_version valid_from_seq judge) (r, [])
  some <| if candidates.isEmpty then r
    else retire_edges r valid_from_seq fun e =>
      e.source == some .llm_judge && !computed.contains e.key

/-- The live judge edges: endpoints, type, trust class and quote. -/
def live_judge_edges (r : Registry) : List (Uuid × Uuid × EdgeType × TrustClass × Jsonb) :=
  (r.edges.filter fun e => e.source == some .llm_judge && e.invalidated_at_seq.isNone).map fun e =>
    (e.from_artifact_id, e.to_artifact_id, e.edge_type, e.trust_class, e.evidence)

/-- The pass leaves the judge edges this judge would leave if it ruled on every pair afresh, or raises as it would. -/
def JudgedAs (judge : RelationshipJudge) (s : Rulings) (turn : JudgeTurn) : Prop :=
  (turn.run p s.judgments).map live_judge_edges =
    (run_judge_afresh p turn.kb_version turn.valid_from_seq judge turn.registry).map live_judge_edges

instance (judge : RelationshipJudge) (s : Rulings) (turn : JudgeTurn) : Decidable (JudgedAs p judge s turn) :=
  inferInstanceAs (Decidable (_ = _))

/-- The pass leaves the judge edges it would leave without the cache. -/
def JudgedAsAfresh (s : Rulings) (turn : JudgeTurn) : Prop := JudgedAs p turn.judge s turn

instance (s : Rulings) (turn : JudgeTurn) : Decidable (JudgedAsAfresh p s turn) := inferInstanceAs (Decidable (_ = _))

/-- The first question asked of the cache row of `q`, or `q` itself. -/
def first_asked (asked : List Question) (q : Question) : Question :=
  (asked.find? fun old => old.key p == q.key p).getD q

/-- The judge that answers each question as the first one of its cache row. -/
def answering (verdict : Question → Option RelationshipJudgment) (asked : List Question)
    (judge : RelationshipJudge) : RelationshipJudge :=
  { judge with
    generate_relationship_judgment := fun cand => verdict (first_asked p asked (cand.question judge)) }

/-- Questions that share a cache row, asked before or in this pass, have one answer. -/
def RuledAlike (verdict : Question → Option RelationshipJudgment) (s : Rulings) (turn : JudgeTurn) : Prop :=
  ∀ q ∈ s.asked ++ turn.questions p, ∀ q' ∈ turn.questions p, q.key p = q'.key p → verdict q = verdict q'

instance (verdict : Question → Option RelationshipJudgment) (s : Rulings) (turn : JudgeTurn) :
    Decidable (RuledAlike p verdict s turn) :=
  inferInstanceAs (Decidable (∀ q ∈ _, ∀ q' ∈ _, _ → _))

/-- The edges of the pass are those of a judge that gives every cache row the answer to its first question; where
    the questions of a row have one answer, they are the judge's own. -/
def JudgedByFirstAsked (verdict : Question → Option RelationshipJudgment) (s : Rulings) (turn : JudgeTurn) : Prop :=
  JudgedAs p (answering p verdict (s.asked ++ turn.questions p) turn.judge) s turn ∧
    (RuledAlike p verdict s turn → JudgedAsAfresh p s turn)

end Judge

section Candidates

variable {p : Platform} {kb_version : String} {n : Nat} {judge : RelationshipJudge}
  {verdict : Question → Option RelationshipJudgment} {r : Registry} {cand : JudgeCandidate}
  {asked : List Question} {state state' : Registry × List (Uuid × Uuid × EdgeType)}

/-- The state of the pass, but for the cache. -/
def uncached (state : Registry × List (Uuid × Uuid × EdgeType)) : Registry × List (Uuid × Uuid × EdgeType) :=
  ({ state.1 with judgments := [] }, state.2)

/-- What the pass does with a ruling. -/
def write_ruling (p : Platform) (kb_version : String) (n : Nat) (state : Registry × List (Uuid × Uuid × EdgeType))
    (cand : JudgeCandidate) (judgment : RelationshipJudgment) :
    Option (Registry × List (Uuid × Uuid × EdgeType)) :=
  if (guarded p cand judgment).trust_bucket == .REJECTED then some state
  else (upsert_judge_edge p kb_version n state.1 cand (guarded p cand judgment)).map fun r =>
    (r, state.2 ++ [cand.key])

/-- The cached ruling on a candidate, or else the model's. -/
def ruling (judge : RelationshipJudge) (r : Registry) (cand : JudgeCandidate) : Option RelationshipJudgment :=
  (judgment_of judge r cand).map (·.2)

theorem judgment_of_eq : ∃ table : RelationshipJudgment → Dict JudgmentCacheKey RelationshipJudgmentCache,
    judgment_of judge r cand = (ruling judge r cand).map fun judgment =>
      ({ r with judgments := table judgment }, judgment) := by
  unfold ruling judgment_of
  dsimp only
  split
  · rename_i hit _
    refine ⟨fun _ => r.judgments, ?_⟩
    cases hit.judgment with
    | none => rfl
    | some judgment => rfl
  · cases judge.generate_relationship_judgment cand with
    | none => exact ⟨fun _ => r.judgments, rfl⟩
    | some judgment => exact ⟨fun judgment => _, rfl⟩

theorem upsert_judge_edge_uncached (r : Registry) (judgment : RelationshipJudgment) :
    upsert_judge_edge p kb_version n { r with judgments := [] } cand judgment =
      (upsert_judge_edge p kb_version n r cand judgment).map fun r => { r with judgments := [] } := by
  unfold upsert_judge_edge upsert_edge
  dsimp only
  split
  · rfl
  · split
    · rfl
    · rfl

/-- The edges are written whatever the cache holds. -/
theorem write_ruling_uncached (state : Registry × List (Uuid × Uuid × EdgeType)) (judgment : RelationshipJudgment) :
    (write_ruling p kb_version n state cand judgment).map uncached =
      write_ruling p kb_version n (uncached state) cand judgment := by
  unfold write_ruling
  split
  · rfl
  · rw [uncached, upsert_judge_edge_uncached, Option.map_map, Option.map_map]
    rfl

/-- One candidate: what the pass leaves beside the cache depends on the ruling alone. -/
theorem judge_candidate_uncached (state : Registry × List (Uuid × Uuid × EdgeType)) :
    (judge_candidate p kb_version n judge state cand).map uncached =
      (ruling judge state.1 cand).bind (write_ruling p kb_version n (uncached state) cand) := by
  obtain ⟨table, htable⟩ : ∃ table : RelationshipJudgment → Dict JudgmentCacheKey RelationshipJudgmentCache,
      judgment_of judge state.1 cand = (ruling judge state.1 cand).map fun judgment =>
        ({ state.1 with judgments := table judgment }, judgment) := judgment_of_eq
  cases hruling : ruling judge state.1 cand with
  | none => simp only [judge_candidate, htable, hruling, Option.map_none, Option.bind_eq_bind, Option.bind_none]
  | some judgment =>
    have hwritten : judge_candidate p kb_version n judge state cand =
        write_ruling p kb_version n ({ state.1 with judgments := table judgment }, state.2) cand judgment := by
      simp only [judge_candidate, htable, hruling, Option.map_some, Option.bind_eq_bind, Option.bind_some, write_ruling]
      split
      · rfl
      · cases upsert_judge_edge p kb_version n { state.1 with judgments := table judgment } cand
          (guarded p cand judgment) with
        | none => rfl
        | some r => rfl
    rw [hwritten, write_ruling_uncached, Option.bind_some]
    rfl

/-- The cache holds the answer to the first question of each row that was asked for, and no other row. -/
def Answers (p : Platform) (verdict : Question → Option RelationshipJudgment) (asked : List Question)
    (judgments : Dict JudgmentCacheKey RelationshipJudgmentCache) : Prop :=
  ∀ key, (judgments.get? key).map (·.judgment) = (asked.find? fun q => q.key p == key).map verdict

/-- The loader hashes what it shows. -/
theorem key_of_mem (hcand : cand ∈ load_candidates p r kb_version) :
    relationship_judgment_cache_parts cand.from_endpoint.content_hash cand.to_endpoint.content_hash
      (judge.model_name ++ "|" ++ judge.model_params_hash) = (cand.question judge).key p := by
  have hhash : ∀ (a : KnowledgeArtifact) (endpoint : JudgeEndpoint), judge_endpoint p a = some endpoint →
      endpoint.content_hash = p.content_hash endpoint.evidence_text := by
    intro a endpoint h
    unfold judge_endpoint at h
    split at h
    · split at h
      · cases h
      · rw [← Option.some.inj h]
    · cases h
  simp only [load_candidates, List.mem_filterMap, Option.bind_eq_bind, Option.bind_eq_some_iff, Option.some.injEq] at hcand
  obtain ⟨row, -, from_a, -, to_a, -, from_endpoint, hfrom, to_endpoint, hto, rfl⟩ := hcand
  rw [Question.key, hhash from_a from_endpoint hfrom, hhash to_a to_endpoint hto]
  rfl

/-- The ruling is the answer to the first question of the row. -/
theorem ruling_eq (hjudge : JudgesShown verdict judge) (hcache : Answers p verdict asked state.1.judgments)
    (hcand : cand ∈ load_candidates p r kb_version) :
    ruling judge state.1 cand = verdict (first_asked p asked (cand.question judge)) := by
  have hrow := hcache ((cand.question judge).key p)
  unfold ruling judgment_of first_asked
  rw [key_of_mem hcand]
  dsimp only
  cases hfound : asked.find? fun q => q.key p == (cand.question judge).key p with
  | none =>
    rw [hfound, Option.map_none, Option.map_eq_none_iff] at hrow
    rw [hrow, Option.getD_none, ← hjudge cand]
    cases judge.generate_relationship_judgment cand with
    | none => rfl
    | some judgment => rfl
  | some q =>
    rw [hfound, Option.map_some, Option.map_eq_some_iff] at hrow
    obtain ⟨hit, hget, hanswer⟩ := hrow
    rw [hget, Option.getD_some, ← hanswer]
    dsimp only
    rw [Option.map_map]
    exact Option.map_id'

/-- A pair that is judged leaves the cache with the answer to the first question of its row. -/
theorem answers_judge_candidate (hjudge : JudgesShown verdict judge) (hcache : Answers p verdict asked state.1.judgments)
    (hcand : cand ∈ load_candidates p r kb_version)
    (h : judge_candidate p kb_version n judge state cand = some state') :
    Answers p verdict (asked ++ [cand.question judge]) state'.1.judgments := by
  have hupsert : ∀ {r r' : Registry} {judgment : RelationshipJudgment},
      upsert_judge_edge p kb_version n r cand judgment = some r' → r'.judgments = r.judgments := by
    intro r r' judgment hwrite
    unfold upsert_judge_edge upsert_edge at hwrite
    dsimp only at hwrite
    split at hwrite
    · exact Option.some.inj hwrite ▸ rfl
    · split at hwrite
      · exact Option.some.inj hwrite ▸ rfl
      · cases hwrite
  have hruled : ∀ {r' : Registry} {judgment : RelationshipJudgment}, judgment_of judge state.1 cand = some (r', judgment) →
      Answers p verdict (asked ++ [cand.question judge]) r'.judgments := by
    intro r' judgment hruling key
    have hrow := hcache ((cand.question judge).key p)
    unfold judgment_of at hruling
    rw [key_of_mem hcand] at hruling
    dsimp only at hruling
    rw [List.find?_append]
    split at hruling
    · rename_i hit hget
      rw [Option.map_eq_some_iff] at hruling
      obtain ⟨_, -, heq⟩ := hruling
      rw [← (Prod.mk.inj heq).1, hcache key]
      cases hfound : asked.find? fun q => q.key p == key with
      | some q => rfl
      | none =>
        by_cases hkey : (cand.question judge).key p = key
        · rw [hkey] at hrow hget
          rw [hfound, hget] at hrow
          cases hrow
        · simp [hkey]
    · rename_i hmiss
      simp only [Option.bind_eq_bind, Option.bind_eq_some_iff, Option.some.injEq, Prod.mk.injEq] at hruling
      obtain ⟨answer, hanswer, rfl, rfl⟩ := hruling
      rw [hjudge cand] at hanswer
      rw [hmiss, Option.map_none, eq_comm, Option.map_eq_none_iff] at hrow
      rw [Dict.get?_setdefault, hmiss, Option.getD_none]
      by_cases hkey : key = (cand.question judge).key p
      · rw [if_pos hkey, hkey, hrow]
        simp [hanswer]
      · rw [if_neg hkey, hcache key]
        have hother : ¬ (cand.question judge).key p = key := fun heq => hkey heq.symm
        simp [hother]
  simp only [judge_candidate, Option.bind_eq_bind, Option.bind_eq_some_iff, Prod.exists] at h
  obtain ⟨ruled, judgment, hruling, h⟩ := h
  split at h
  · rw [← Option.some.inj h]
    exact hruled hruling
  · simp only [Option.bind_eq_some_iff, Option.some.injEq] at h
    obtain ⟨written, hwrite, rfl⟩ := h
    rw [hupsert hwrite]
    exact hruled hruling

/-- A row's first question is settled once one of its questions is asked. -/
theorem first_asked_append (q : Question) (rest : List Question) :
    first_asked p (asked ++ q :: rest) q = first_asked p asked q := by
  unfold first_asked
  have hself : (q :: rest).find? (fun old => old.key p == q.key p) = some q :=
    List.find?_cons_of_pos (beq_self_eq_true (q.key p))
  rw [List.find?_append, hself]
  cases asked.find? fun old => old.key p == q.key p with
  | none => rfl
  | some old => rfl

/-- The candidates one after another: with the cache, and judged afresh by the first question of each row. -/
theorem judge_candidates_uncached (hjudge : JudgesShown verdict judge) {candidates : List JudgeCandidate}
    {all : List Question} (hloaded : ∀ cand ∈ candidates, cand ∈ load_candidates p r kb_version)
    (hall : asked ++ candidates.map (fun cand => cand.question judge) = all)
    (hsame : uncached state = uncached state') (hcache : Answers p verdict asked state.1.judgments) :
    (candidates.foldlM (judge_candidate p kb_version n judge) state).map uncached =
        (candidates.foldlM (judge_candidate_afresh p kb_version n (answering p verdict all judge)) state').map uncached ∧
      ∀ last, candidates.foldlM (judge_candidate p kb_version n judge) state = some last →
        Answers p verdict all last.1.judgments := by
  induction candidates generalizing state state' asked with
  | nil =>
    rw [List.map_nil, List.append_nil] at hall
    refine ⟨congrArg some hsame, ?_⟩
    intro last hlast
    rw [← Option.some.inj hlast, ← hall]
    exact hcache
  | cons cand candidates ih =>
    have hcand := hloaded cand List.mem_cons_self
    have hruling : ruling judge state.1 cand = verdict (first_asked p asked (cand.question judge)) :=
      ruling_eq hjudge hcache hcand
    have hafresh : ruling (answering p verdict all judge) { state'.1 with judgments := [] } cand =
        verdict (first_asked p asked (cand.question judge)) := by
      rw [← first_asked_append (cand.question judge) (candidates.map fun cand => cand.question judge), ← List.map_cons,
        hall]
      unfold ruling judgment_of answering
      dsimp only
      have hmiss : ∀ key, Dict.get? ([] : Dict JudgmentCacheKey RelationshipJudgmentCache) key = none := fun key => rfl
      rw [hmiss]
      cases verdict (first_asked p all (cand.question judge)) with
      | none => rfl
      | some judgment => rfl
    have hstep : (judge_candidate p kb_version n judge state cand).map uncached =
        (judge_candidate_afresh p kb_version n (answering p verdict all judge) state' cand).map uncached := by
      rw [judge_candidate_afresh, judge_candidate_uncached, judge_candidate_uncached, hruling, hafresh, hsame]
      rfl
    simp only [List.foldlM_cons, Option.bind_eq_bind]
    cases hfirst : judge_candidate p kb_version n judge state cand with
    | none =>
      rw [hfirst, Option.map_none, eq_comm, Option.map_eq_none_iff] at hstep
      rw [hstep]
      refine ⟨rfl, ?_⟩
      intro last hlast
      cases hlast
    | some mid =>
      rw [hfirst, Option.map_some, eq_comm, Option.map_eq_some_iff] at hstep
      obtain ⟨mid', hmid', hsame'⟩ := hstep
      rw [hmid', Option.bind_some, Option.bind_some]
      apply ih (fun other hother => hloaded other (List.mem_cons_of_mem _ hother)) _ hsame'.symm
      · exact answers_judge_candidate hjudge hcache hcand hfirst
      · rw [List.append_assoc, List.singleton_append, ← List.map_cons, hall]

end Candidates

section Turns

variable {p : Platform} {verdict : Question → Option RelationshipJudgment} {s : Rulings} {turn : JudgeTurn}

/-- The edges a pass ends with depend on what it leaves beside the cache. -/
theorem live_judge_edges_uncached {m : Nat} {none_loaded : Bool} {state state' : Registry × List (Uuid × Uuid × EdgeType)}
    (heq : uncached state = uncached state') :
    live_judge_edges (if none_loaded then state.1
        else retire_edges state.1 m fun e => e.source == some .llm_judge && !state.2.contains e.key) =
      live_judge_edges (if none_loaded then state'.1
        else retire_edges state'.1 m fun e => e.source == some .llm_judge && !state'.2.contains e.key) := by
  have hedges : state.1.edges = state'.1.edges := congrArg (fun state => state.1.edges) heq
  have hcomputed : (uncached state).2 = (uncached state').2 := congrArg Prod.snd heq
  change state.2 = state'.2 at hcomputed
  rw [hcomputed]
  split
  · rw [live_judge_edges, hedges, live_judge_edges]
  · rw [live_judge_edges, retire_edges, hedges, live_judge_edges, retire_edges]

/-- The judge pass of one build, and the cache it leaves if the build commits. -/
theorem judge_turn (hjudge : JudgesShown verdict turn.judge) (hcache : Answers p verdict s.asked s.judgments) :
    JudgedAs p (answering p verdict (s.asked ++ turn.questions p) turn.judge) s turn ∧
      Answers p verdict (take_judge_turn p s turn).asked (take_judge_turn p s turn).judgments := by
  set r : Registry := { turn.registry with judgments := s.judgments } with hr
  set judge := answering p verdict (s.asked ++ turn.questions p) turn.judge with hjudge_eq
  have hstart : Answers p verdict s.asked (r, ([] : List (Uuid × Uuid × EdgeType))).1.judgments := hcache
  have hbegin : uncached (r, []) = uncached (turn.registry, []) := rfl
  obtain ⟨hsame, hend⟩ := judge_candidates_uncached (n := turn.valid_from_seq) hjudge
    (fun cand (hcand : cand ∈ load_candidates p r turn.kb_version) => hcand) rfl hbegin hstart
  constructor
  · unfold JudgedAs JudgeTurn.run run_judge run_judge_afresh
    simp only [Option.bind_eq_bind]
    rw [← hr]
    have hload : load_candidates p turn.registry turn.kb_version = load_candidates p r turn.kb_version := rfl
    rw [hload]
    cases hcached : (load_candidates p r turn.kb_version).foldlM
        (judge_candidate p turn.kb_version turn.valid_from_seq turn.judge) (r, []) with
    | none =>
      rw [hcached, Option.map_none, eq_comm, Option.map_eq_none_iff] at hsame
      rw [hjudge_eq]
      erw [hsame]
    | some last =>
      rw [hcached, Option.map_some, eq_comm, Option.map_eq_some_iff] at hsame
      obtain ⟨last', hlast', heq⟩ := hsame
      rw [hjudge_eq]
      erw [hlast']
      rw [Option.bind_some, Option.bind_some, Option.map_some, Option.map_some]
      exact congrArg some (live_judge_edges_uncached heq.symm)
  · unfold take_judge_turn
    split
    · rename_i written hwritten
      by_cases hcommits : turn.commits
      · rw [if_pos hcommits]
        unfold JudgeTurn.run run_judge at hwritten
        rw [← hr] at hwritten
        simp only [Option.bind_eq_bind, Option.bind_eq_some_iff, Option.some.injEq] at hwritten
        obtain ⟨last, hlast, hfinal⟩ := hwritten
        have hjudgments : written.judgments = last.1.judgments := by
          rw [← hfinal]
          split
          · rfl
          · rfl
        rw [hjudgments]
        exact hend last hlast
      · rw [if_neg hcommits]
        exact hcache
    · exact hcache

theorem first_asked_alike (halike : RuledAlike p verdict s turn) {q : Question} (hq : q ∈ turn.questions p) :
    verdict (first_asked p (s.asked ++ turn.questions p) q) = verdict q := by
  unfold first_asked
  cases hfound : (s.asked ++ turn.questions p).find? fun old => old.key p == q.key p with
  | none => rfl
  | some old =>
    have hkey : old.key p = q.key p := by simpa using List.find?_some hfound
    exact halike old (List.mem_of_find?_eq_some hfound) q hq hkey

/-- Judges that answer the candidates alike leave the same registry. -/
theorem run_judge_afresh_congr {judge judge' : RelationshipJudge} {r : Registry} {kb_version : String} {n : Nat}
    (hmodel : judge'.model_name = judge.model_name) (hparams : judge'.model_params_hash = judge.model_params_hash)
    (hanswer : ∀ cand ∈ load_candidates p r kb_version,
      judge'.generate_relationship_judgment cand = judge.generate_relationship_judgment cand) :
    run_judge_afresh p kb_version n judge' r = run_judge_afresh p kb_version n judge r := by
  have hfold : ∀ (candidates : List JudgeCandidate) (state : Registry × List (Uuid × Uuid × EdgeType)),
      (∀ cand ∈ candidates, judge'.generate_relationship_judgment cand = judge.generate_relationship_judgment cand) →
      candidates.foldlM (judge_candidate_afresh p kb_version n judge') state =
        candidates.foldlM (judge_candidate_afresh p kb_version n judge) state := by
    intro candidates
    induction candidates with
    | nil => exact fun state _ => rfl
    | cons cand candidates ih =>
      intro state h
      have hfirst : judge_candidate_afresh p kb_version n judge' state cand =
          judge_candidate_afresh p kb_version n judge state cand := by
        unfold judge_candidate_afresh judge_candidate judgment_of
        rw [hmodel, hparams, h cand List.mem_cons_self]
      rw [List.foldlM_cons, List.foldlM_cons, hfirst]
      have hrest := fun next => ih next fun other hother => h other (List.mem_cons_of_mem _ hother)
      simp only [hrest]
  unfold run_judge_afresh
  dsimp only
  rw [hfold _ _ hanswer]

/-- In every sequence of builds the judge edges live after a pass are those of a judge that gives every cache row
    the answer to its first question; where the questions of a row have one answer, the cache changes nothing. -/
theorem judged_by_first_asked (p : Platform) (verdict : Question → Option RelationshipJudgment)
    (turns : List JudgeTurn) (hjudges : ∀ turn ∈ turns, JudgesShown verdict turn.judge) :
    Along (take_judge_turn p) (JudgedByFirstAsked p verdict) {} turns := by
  have hrun : Along (take_judge_turn p) (fun _ _ => True) {} turns := .of_forall fun _ _ _ => trivial
  refine hrun.imp_of_invariant (I := fun s : Rulings => Answers p verdict s.asked s.judgments) ?_ ?_ ?_
  · exact fun s turn hturn hcache _ => (judge_turn (hjudges turn hturn) hcache).2
  · intro s turn hturn hcache _
    have hfirst := (judge_turn (hjudges turn hturn) hcache).1
    refine ⟨hfirst, ?_⟩
    intro halike
    unfold JudgedAsAfresh JudgedAs
    unfold JudgedAs at hfirst
    have hanswer : ∀ cand ∈ load_candidates p turn.registry turn.kb_version,
        (answering p verdict (s.asked ++ turn.questions p) turn.judge).generate_relationship_judgment cand =
          turn.judge.generate_relationship_judgment cand := by
      intro cand hcand
      have hshown : cand.question turn.judge ∈ turn.questions p := List.mem_map_of_mem hcand
      rw [hjudges turn hturn cand]
      exact first_asked_alike halike hshown
    have hafresh : run_judge_afresh p turn.kb_version turn.valid_from_seq
        (answering p verdict (s.asked ++ turn.questions p) turn.judge) turn.registry =
        run_judge_afresh p turn.kb_version turn.valid_from_seq turn.judge turn.registry :=
      run_judge_afresh_congr rfl rfl hanswer
    rw [hfirst, hafresh]
  · exact fun key => rfl

end Turns

/-- A page and the function it is about. -/
def page_and_code : List KnowledgeArtifact :=
  [{ artifact_id := 1, artifact_type := .summary, source_id := 1, title := some "Payments"
     body_text := some (.text "pay charges"), content_hash := none, kb_version := "v"
     knowledge_kind := some .interpreted, acl_teams := [], created_at := 0, valid_from_seq := 1 },
   { artifact_id := 2, artifact_type := .code_symbol, source_id := 2, title := some "pay"
     body_text := some (.text "def pay"), content_hash := none, kb_version := "v"
     knowledge_kind := some .source_backed, acl_teams := [], created_at := 0, valid_from_seq := 1 }]

def candidate_pair (from_id to_id : Uuid) : RelationshipCandidate :=
  { from_artifact_id := from_id, to_artifact_id := to_id, signals := []
    candidate_recall_bucket := .high, kb_version := "v" }

/-- A page documents code, and no code a page. -/
def documents_code (q : Question) : Option RelationshipJudgment :=
  if q.from_title == "Payments" then
    some { trust_bucket := .INFERRED_HIGH, supporting_quote := "pay charges", reason := "described" }
  else some { trust_bucket := .REJECTED, supporting_quote := "", reason := "not described" }

def documents_judge : RelationshipJudge where
  model_name := "judge"
  model_params_hash := "1"
  generate_relationship_judgment cand :=
    if cand.from_endpoint.title == "Payments" then
      some { trust_bucket := .INFERRED_HIGH, supporting_quote := "pay charges", reason := "described" }
    else some { trust_bucket := .REJECTED, supporting_quote := "", reason := "not described" }

/-- The pass of a build that finds these pairs. -/
def judge_turn_of (candidates : List RelationshipCandidate) (n : Nat) : JudgeTurn :=
  { registry := { artifacts := page_and_code, candidates }, kb_version := "v", valid_from_seq := n
    judge := documents_judge }

theorem documents_judge_shown : JudgesShown documents_code documents_judge := fun _ => rfl

/-- The page is judged against the code in one build and the code against the page in the next. -/
theorem judged_by_first_asked_reversed :
    Along (take_judge_turn .plain) (JudgedByFirstAsked .plain documents_code) {}
      [judge_turn_of [candidate_pair 1 2] 1, judge_turn_of [candidate_pair 2 1] 2] := by
  apply judged_by_first_asked
  intro turn hturn
  simp only [List.mem_cons, List.not_mem_nil, or_false] at hturn
  cases hturn with
  | inl hfirst => exact hfirst ▸ documents_judge_shown
  | inr hsecond => exact hsecond ▸ documents_judge_shown

/-- The generator gives a pair in both directions, and the second one inherits the first one's ruling. -/
theorem judged_afresh_reversed :
    (∀ cand, documents_judge.generate_relationship_judgment cand = documents_code (cand.question documents_judge)) ∧
    ¬ Along (take_judge_turn .plain) (JudgedAsAfresh .plain) {}
      [judge_turn_of [candidate_pair 1 2, candidate_pair 2 1] 1] :=
  ⟨fun _ => rfl, by decide +kernel⟩

end AgenticKb
