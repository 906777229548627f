import Mathlib.Data.Multiset.Filter
import AgenticKb.Properties.Activation
import AgenticKb.Properties.NoOracle
import AgenticKb.Properties.SearchIndex

open AgenticKb.Lib

namespace AgenticKb.ContextBroker

section Verdicts

variable (deps : VerifierDeps) (db : Database) (evidence : Evidence)

/-- The texts the model is shown: the bodies the cited members have now. -/
def evidence_texts (cited_ids : List Uuid) (build_seq : Nat) : List String :=
  ((fetch_artifacts deps.platform db cited_ids build_seq).filterMap (·.body_text)).filter (· != "")

/-- What a direct call says of a claim the last level runs for. -/
def direct_l3 (entry : DeterministicClaim) : Option Bool :=
  (l3_client deps evidence).bind fun client =>
    if l3_runs deps evidence entry then
      some (client.check_entailment 0 entry.claim.text
        (evidence_texts deps db (cited_resolvable deps evidence.resolvable_ids entry.claim) evidence.build_seq))
    else none

/-- Claim by claim, the verdict with the cache is that of a direct call. -/
def VerdictsCurrent (request : VerifyAnswerRequest) (requester : Requester) : Prop :=
  ∀ active ∈ fetch_active_version db,
    let evidence := resolve_evidence deps db request requester active
    (own_l3s deps db request evidence).map (fun outcome => outcome.2.map (·.entailed)) =
      (deterministic_pass deps evidence request.claims).map (direct_l3 deps db evidence)

instance (request : VerifyAnswerRequest) (requester : Requester) : Decidable (VerdictsCurrent deps db request requester) :=
  inferInstanceAs (Decidable (∀ active ∈ fetch_active_version db, _))

/-- The artifacts the last level has a model judge claims on. -/
def judged_ids (request : VerifyAnswerRequest) (requester : Requester) : List Uuid :=
  match fetch_active_version db with
  | none => []
  | some active =>
    let evidence := resolve_evidence deps db request requester active
    if (l3_client deps evidence).isSome then
      ((deterministic_pass deps evidence request.claims).filter (l3_runs deps evidence)).flatMap fun entry =>
        cited_resolvable deps evidence.resolvable_ids entry.claim
    else []

end Verdicts

/-- A verdict that depends only on the claim up to white space and on the texts up to order. -/
def JudgesTexts (u : Unicode) (client : EntailmentClient) (verdict : String → Multiset String → Bool) : Prop :=
  ∀ calls text texts, client.check_entailment calls text texts = verdict (normalize_whitespace u text) texts

/-- What happens to the database: builds and activations, ledger rows of other tools, verifications. -/
inductive Turn where
  | operate (operation : AgenticKb.Operation)
  | record (event : RetrievalEventInsert)
  | verify (request : VerifyAnswerRequest) (requester : Requester) (client_id : Option String)

/-- The database, and the artifacts its cached verdicts rest on. -/
structure Judged where
  db : Database := {}
  ids : List Uuid := []

/-- The body of an artifact. -/
def body_of (r : Registry) (id : Uuid) : Option BodyText :=
  (r.artifacts.find? fun a => a.artifact_id == id).bind (·.body_text)

section Turns

variable (deps : VerifierDeps)

def take_turn (s : Judged) : Turn → Judged
  | .operate operation =>
    { s with db := { s.db with toRegistry := operate deps.platform s.db.toRegistry operation } }
  | .record event => { s with db := { s.db with retrieval_events := s.db.retrieval_events ++ [event] } }
  | .verify request requester client_id =>
    { db := (verify_answer deps s.db request requester client_id).2
      ids := s.ids ++ judged_ids deps s.db request requester }

/-- No build gives an artifact that a cached verdict rests on another body. -/
def KeepsJudgedBodies (s : Judged) : Turn → Prop
  | .operate operation =>
    ∀ id ∈ s.ids, body_of (operate deps.platform s.db.toRegistry operation) id = body_of s.db.toRegistry id
  | _ => True

instance (s : Judged) (turn : Turn) : Decidable (KeepsJudgedBodies deps s turn) :=
  match turn with
  | .operate _ => inferInstanceAs (Decidable (∀ id ∈ s.ids, _))
  | .record _ => .isTrue trivial
  | .verify _ _ _ => .isTrue trivial

/-- A verification answers from the cache as it would without. -/
def CacheCurrent (s : Judged) : Turn → Prop
  | .verify request requester _ => VerdictsCurrent deps s.db request requester
  | _ => True

instance (s : Judged) (turn : Turn) : Decidable (CacheCurrent deps s turn) :=
  match turn with
  | .operate _ => .isTrue trivial
  | .record _ => .isTrue trivial
  | .verify request requester _ => inferInstanceAs (Decidable (VerdictsCurrent deps s.db request requester))

end Turns

section Bodies

variable {deps : VerifierDeps} {db : Database} {build_seq : Nat} {ids : List Uuid}

/-- The texts of some artifacts, whichever version serves them. -/
def texts_of (p : Platform) (r : Registry) (ids : List Uuid) : List String :=
  (ids.filterMap fun id => (body_of r id).map p.body_string).filter (· != "")

theorem body_of_mem (hkeyed : Keyed db) {a : KnowledgeArtifact} (ha : a ∈ db.artifacts) :
    body_of db.toRegistry a.artifact_id = a.body_text := by
  have hfound : (db.artifacts.find? fun other => other.artifact_id == a.artifact_id) = some a := by
    cases hfind : db.artifacts.find? fun other => other.artifact_id == a.artifact_id with
    | none => exact absurd (List.find?_eq_none.mp hfind a ha) (by simp)
    | some other =>
      have hid : other.artifact_id = a.artifact_id := by simpa using List.find?_some hfind
      exact congrArg some (List.inj_on_of_nodup_map hkeyed (List.mem_of_find?_eq_some hfind) ha hid)
  rw [body_of, hfound, Option.bind_some]

/-- Of members with sources the model is shown the bodies, in the order of the table. -/
theorem evidence_texts_perm (hkeyed : Keyed db) (hnodup : ids.Nodup)
    (hmember : ∀ id ∈ ids, ∃ entry ∈ member_artifacts db build_seq, entry.1.artifact_id = id) :
    (evidence_texts deps db ids build_seq).Perm (texts_of deps.platform db.toRegistry ids) := by
  have hrows : (fetch_artifacts deps.platform db ids build_seq).filterMap (·.body_text) =
      (((member_artifacts db build_seq).filter fun entry => ids.contains entry.1.artifact_id).map
        (·.1.artifact_id)).filterMap fun id => (body_of db.toRegistry id).map deps.platform.body_string := by
    rw [fetch_artifacts, List.filter_map, List.filterMap_map, List.filterMap_map]
    apply List.filterMap_congr
    intro entry hentry
    have hjoined := List.mem_of_mem_filter (List.mem_of_mem_filter hentry)
    have ha : entry.1 ∈ db.artifacts := (mem_joined hjoined).1
    rw [Function.comp_apply, Function.comp_apply, body_of_mem hkeyed ha]
    rfl
  have hperm : (((member_artifacts db build_seq).filter fun entry => ids.contains entry.1.artifact_id).map
      (·.1.artifact_id)).Perm ids := by
    rw [List.perm_ext_iff_of_nodup ((List.filter_sublist.map _).nodup (nodup_member_ids hkeyed)) hnodup]
    intro id
    constructor
    · intro hid
      obtain ⟨entry, hentry, rfl⟩ := List.mem_map.mp hid
      exact List.contains_iff_mem.mp (List.mem_filter.mp hentry).2
    · intro hid
      obtain ⟨entry, hentry, rfl⟩ := hmember id hid
      exact List.mem_map_of_mem (List.mem_filter.mpr ⟨hentry, List.contains_iff_mem.mpr hid⟩)
  rw [evidence_texts, texts_of, hrows]
  exact (hperm.filterMap _).filter _

end Bodies

section Keys

variable {deps : VerifierDeps} {client : EntailmentClient} {text text' : String} {ids ids' : List Uuid}

/-- What the cache takes from the platform: a digest tells texts apart, and an id's text is its own and has no comma. -/
structure KeysFaithful (p : Platform) : Prop where
  content_hash : Function.Injective p.content_hash
  str_uuid : Function.Injective p.str_uuid
  no_comma : ∀ id, ',' ∉ (p.str_uuid id).toList

/-- Texts without commas can be read back from the text that joins them by commas. -/
theorem join_comma_injective {xs ys : List String} (hxs : xs ≠ []) (hys : ys ≠ []) (hx : ∀ x ∈ xs, ',' ∉ x.toList)
    (hy : ∀ y ∈ ys, ',' ∉ y.toList) (h : join "," xs = join "," ys) : xs = ys := by
  have hcomma : ",".toList = [','] := by decide
  have hchars := congrArg String.toList h
  rw [join, join, String.toList_intercalate, String.toList_intercalate, hcomma] at hchars
  have hsplit := congrArg (List.splitOn ',') hchars
  rw [List.splitOn_intercalate _ (by simpa using hx) (by simpa using hxs),
    List.splitOn_intercalate _ (by simpa using hy) (by simpa using hys)] at hsplit
  exact (List.map_injective_iff.mpr fun _ _ => String.toList_inj.mp) hsplit

/-- Claims under one key have the same text up to white space and cite the same artifacts. -/
theorem entailment_key_injective (hkeys : KeysFaithful deps.platform) (hids : ids ≠ []) (hids' : ids' ≠ [])
    (h : entailment_key deps client text ids = entailment_key deps client text' ids') :
    normalize_whitespace deps.platform.unicode text = normalize_whitespace deps.platform.unicode text' ∧
      ids.Perm ids' := by
  simp only [entailment_key, EntailmentKey.mk.injEq, and_true] at h
  refine ⟨hkeys.content_hash h.1, ?_⟩
  have hperm : ∀ ids : List Uuid, (sorted str_le (ids.map deps.platform.str_uuid)).Perm (ids.map deps.platform.str_uuid) :=
    fun ids => List.perm_insertionSort _ _
  have hne : ∀ ids : List Uuid, ids ≠ [] → sorted str_le (ids.map deps.platform.str_uuid) ≠ [] := by
    intro ids hids hnil
    have hempty := hperm ids
    rw [hnil, List.nil_perm, List.map_eq_nil_iff] at hempty
    exact hids hempty
  have hplain : ∀ ids : List Uuid, ∀ x ∈ sorted str_le (ids.map deps.platform.str_uuid), ',' ∉ x.toList := by
    intro ids x hx
    obtain ⟨id, -, rfl⟩ := List.mem_map.mp (mem_sorted.mp hx)
    exact hkeys.no_comma id
  have hsorted := join_comma_injective (hne ids hids) (hne ids' hids') (hplain ids) (hplain ids')
    (hkeys.content_hash h.2)
  have hnames : (ids.map deps.platform.str_uuid).Perm (ids'.map deps.platform.str_uuid) :=
    (hperm ids).symm.trans (hsorted ▸ hperm ids')
  exact (List.map_perm_map_iff hkeys.str_uuid).mp hnames

end Keys

section Pass

variable {deps : VerifierDeps} {db : Database} {evidence : Evidence} {client : EntailmentClient}
  {verdict : String → Multiset String → Bool} {judged : List Uuid} {cache : Dict EntailmentKey Bool}

/-- Every cached verdict is the model's on a claim text and the texts that some artifacts have now. -/
def CacheRests (deps : VerifierDeps) (client : EntailmentClient) (verdict : String → Multiset String → Bool)
    (r : Registry) (judged : List Uuid) (cache : Dict EntailmentKey Bool) : Prop :=
  ∀ key entailed, cache.get? key = some entailed → ∃ text ids, ids ≠ [] ∧ (∀ id ∈ ids, id ∈ judged) ∧
    key = entailment_key deps client text ids ∧
    entailed = verdict (normalize_whitespace deps.platform.unicode text) (texts_of deps.platform r ids)

theorem CacheRests.mono {judged' : List Uuid} {r : Registry} (h : CacheRests deps client verdict r judged cache)
    (hsub : ∀ id ∈ judged, id ∈ judged') : CacheRests deps client verdict r judged' cache := by
  intro key entailed hget
  obtain ⟨text, ids, hne, hids, hkey, hverdict⟩ := h key entailed hget
  exact ⟨text, ids, hne, fun id hid => hsub id (hids id hid), hkey, hverdict⟩

/-- Nothing but a judged artifact's body matters. -/
theorem CacheRests.congr {r r' : Registry} (h : CacheRests deps client verdict r judged cache)
    (hbody : ∀ id ∈ judged, body_of r' id = body_of r id) : CacheRests deps client verdict r' judged cache := by
  intro key entailed hget
  obtain ⟨text, ids, hne, hids, hkey, hverdict⟩ := h key entailed hget
  have htexts : texts_of deps.platform r' ids = texts_of deps.platform r ids := by
    rw [texts_of, texts_of]
    congr 1
    apply List.filterMap_congr
    intro id hid
    rw [hbody id (hids id hid)]
  exact ⟨text, ids, hne, hids, hkey, by rw [htexts]; exact hverdict⟩

/-- What the last level asks about are members with sources, each once. -/
structure CitesMembers (deps : VerifierDeps) (db : Database) (evidence : Evidence) : Prop where
  keyed : Keyed db
  member : ∀ id ∈ evidence.resolvable_ids, ∃ entry ∈ member_artifacts db evidence.build_seq, entry.1.artifact_id = id

theorem cited_texts_perm (hcites : CitesMembers deps db evidence) (claim : ClaimInput) :
    (evidence_texts deps db (cited_resolvable deps evidence.resolvable_ids claim) evidence.build_seq).Perm
      (texts_of deps.platform db.toRegistry (cited_resolvable deps evidence.resolvable_ids claim)) := by
  apply evidence_texts_perm hcites.keyed (List.nodup_dedup _)
  intro id hid
  have hresolvable := (List.mem_filter.mp (List.mem_dedup.mp hid)).2
  exact hcites.member id (List.contains_iff_mem.mp hresolvable)

/-- One claim: cached or not, its verdict is that of a direct call, and the cache still rests on what is current. -/
theorem run_l3_entailment_current (hkeys : KeysFaithful deps.platform)
    (hclient : JudgesTexts deps.platform.unicode client verdict) (hcites : CitesMembers deps db evidence)
    {state : L3Pass} (hcache : CacheRests deps client verdict db.toRegistry judged state.entailment_cache)
    {claim : ClaimInput} (hne : cited_resolvable deps evidence.resolvable_ids claim ≠ []) :
    (run_l3_entailment deps evidence db client state claim.text
      (cited_resolvable deps evidence.resolvable_ids claim)).entailed =
      verdict (normalize_whitespace deps.platform.unicode claim.text)
        (texts_of deps.platform db.toRegistry (cited_resolvable deps evidence.resolvable_ids claim)) := by
  set ids := cited_resolvable deps evidence.resolvable_ids claim with hids
  rw [run_l3_entailment]
  cases hget : state.entailment_cache.get? (entailment_key deps client claim.text ids) with
  | none =>
    have htexts : (evidence_texts deps db ids evidence.build_seq : Multiset String) =
        texts_of deps.platform db.toRegistry ids := Multiset.coe_eq_coe.mpr (cited_texts_perm hcites claim)
    show client.check_entailment state.llm_calls claim.text (evidence_texts deps db ids evidence.build_seq) = _
    rw [hclient, htexts]
  | some entailed =>
    obtain ⟨text, ids', hne', -, hkey, hverdict⟩ := hcache _ _ hget
    obtain ⟨htext, hperm⟩ := entailment_key_injective hkeys hne hne' hkey
    have htexts : (texts_of deps.platform db.toRegistry ids : Multiset String) =
        texts_of deps.platform db.toRegistry ids' := Multiset.coe_eq_coe.mpr ((hperm.filterMap _).filter _)
    show entailed = _
    rw [hverdict, htext, htexts]

theorem cacheRests_l3_step (hkeys : KeysFaithful deps.platform)
    (hclient : JudgesTexts deps.platform.unicode client verdict) (hcites : CitesMembers deps db evidence)
    {state : L3Pass} (hcache : CacheRests deps client verdict db.toRegistry judged state.entailment_cache)
    {entry : DeterministicClaim} (hjudged : l3_runs deps evidence entry = true →
      ∀ id ∈ cited_resolvable deps evidence.resolvable_ids entry.claim, id ∈ judged) :
    CacheRests deps client verdict db.toRegistry judged
      (l3_step deps evidence db client state entry).entailment_cache := by
  by_cases hruns : l3_runs deps evidence entry = true
  · have hne : cited_resolvable deps evidence.resolvable_ids entry.claim ≠ [] := by
      have hboth := hruns
      rw [l3_runs, Bool.and_eq_true] at hboth
      simpa using hboth.2
    have hverdict := run_l3_entailment_current hkeys hclient hcites hcache hne
    rw [l3_step, if_pos hruns]
    dsimp only
    split
    · exact hcache
    · intro key entailed hget
      rw [Dict.get?_setdefault] at hget
      by_cases hkey : key = entailment_key deps client entry.claim.text
          (cited_resolvable deps evidence.resolvable_ids entry.claim)
      · rw [if_pos hkey, Option.some.injEq] at hget
        cases hold : state.entailment_cache.get? (entailment_key deps client entry.claim.text
            (cited_resolvable deps evidence.resolvable_ids entry.claim)) with
        | none =>
          rw [hold, Option.getD_none] at hget
          exact ⟨_, _, hne, hjudged hruns, hkey, hget ▸ hverdict⟩
        | some old =>
          rw [hold, Option.getD_some] at hget
          exact hcache key entailed (by rw [hkey, hold, hget])
      · rw [if_neg hkey] at hget
        exact hcache key entailed hget
  · rw [l3_step, if_neg hruns]
    exact hcache

/-- All the claims of an answer, one after another. -/
theorem l3_outcomes_current (hkeys : KeysFaithful deps.platform)
    (hclient : JudgesTexts deps.platform.unicode client verdict) (hcites : CitesMembers deps db evidence)
    (hpass : l3_client deps evidence = some client) (entries : List DeterministicClaim) {state : L3Pass}
    (hcache : CacheRests deps client verdict db.toRegistry judged state.entailment_cache)
    (hjudged : ∀ entry ∈ entries, l3_runs deps evidence entry = true →
      ∀ id ∈ cited_resolvable deps evidence.resolvable_ids entry.claim, id ∈ judged) :
    (l3_outcomes deps db evidence client state entries).map (fun outcome => outcome.2.map (·.entailed)) =
        entries.map (direct_l3 deps db evidence) ∧
      CacheRests deps client verdict db.toRegistry judged
        (entries.foldl (l3_step deps evidence db client) state).entailment_cache := by
  induction entries generalizing state with
  | nil => exact ⟨rfl, hcache⟩
  | cons entry entries ih =>
    have hstep := cacheRests_l3_step hkeys hclient hcites hcache (hjudged entry List.mem_cons_self)
    obtain ⟨hrest, hend⟩ := ih hstep fun other hother => hjudged other (List.mem_cons_of_mem _ hother)
    refine ⟨?_, hend⟩
    have hfirst : (l3_outcome deps db evidence client state entry).map (·.entailed) = direct_l3 deps db evidence entry := by
      rw [l3_outcome, direct_l3, hpass, Option.bind_some]
      by_cases hruns : l3_runs deps evidence entry = true
      · have hne : cited_resolvable deps evidence.resolvable_ids entry.claim ≠ [] := by
          have hboth := hruns
          rw [l3_runs, Bool.and_eq_true] at hboth
          simpa using hboth.2
        have htexts := Multiset.coe_eq_coe.mpr (cited_texts_perm hcites entry.claim)
        rw [if_pos hruns, if_pos hruns, Option.map_some, hclient, htexts,
          run_l3_entailment_current hkeys hclient hcites hcache hne]
      · rw [if_neg hruns, if_neg hruns, Option.map_none]
    rw [l3_outcomes, List.map_cons, List.map_cons, hrest, hfirst]

end Pass

section Calls

variable {deps : VerifierDeps} {db : Database} {request : VerifyAnswerRequest} {requester : Requester}
  {active : ActiveVersion}

theorem citesMembers_resolve (hkeyed : Keyed db) :
    CitesMembers deps db (resolve_evidence deps db request requester active) := by
  refine ⟨hkeyed, ?_⟩
  intro id hid
  rw [resolvable_ids_eq] at hid
  obtain ⟨entry, hentry, hidentity, -⟩ := source_of_visible hkeyed (List.mem_of_mem_filter hid)
  rw [admitted_sources_eq] at hentry
  exact ⟨entry, List.mem_of_mem_filter hentry, hidentity⟩

/-- What one verification answers, and what it leaves in the cache. -/
theorem verify_answer_current (client_id : Option String) {client : EntailmentClient}
    {verdict : String → Multiset String → Bool} {judged : List Uuid} (hkeys : KeysFaithful deps.platform)
    (hdeps : deps.entailment_client = some client) (hclient : JudgesTexts deps.platform.unicode client verdict)
    (hkeyed : Keyed db) (hcache : CacheRests deps client verdict db.toRegistry judged db.entailment_cache) :
    VerdictsCurrent deps db request requester ∧
      CacheRests deps client verdict db.toRegistry (judged ++ judged_ids deps db request requester)
        (verify_answer deps db request requester client_id).2.entailment_cache := by
  have hcache' : CacheRests deps client verdict db.toRegistry (judged ++ judged_ids deps db request requester)
      db.entailment_cache :=
    hcache.mono fun id hid => List.mem_append_left _ hid
  cases hactive : fetch_active_version db with
  | none =>
    refine ⟨?_, ?_⟩
    · intro active hmem
      rw [hactive] at hmem
      cases hmem
    · rw [verify_answer, hactive]
      exact hcache'
  | some active =>
    set evidence := resolve_evidence deps db request requester active with hevidence
    have hcites : CitesMembers deps db evidence := citesMembers_resolve hkeyed
    cases hpass : l3_client deps evidence with
    | none =>
      refine ⟨?_, ?_⟩
      · intro served hmem
        rw [hactive, Option.mem_some_iff] at hmem
        subst hmem
        dsimp only
        rw [← hevidence, own_l3s, hpass, deterministic_pass, List.map_map, List.map_map]
        apply List.map_congr_left
        intro claim _
        rw [Function.comp_apply, Function.comp_apply, direct_l3, hpass]
        rfl
      · rw [verify_answer, hactive]
        dsimp only
        rw [← hevidence, l3_pass, hpass]
        exact hcache'
    | some client' =>
      have hsame : client' = client := by
        rw [l3_client] at hpass
        split at hpass
        · rw [hdeps] at hpass
          exact (Option.some.inj hpass).symm
        · cases hpass
      subst hsame
      have hjudged : ∀ entry ∈ deterministic_pass deps evidence request.claims, l3_runs deps evidence entry = true →
          ∀ id ∈ cited_resolvable deps evidence.resolvable_ids entry.claim,
            id ∈ judged ++ judged_ids deps db request requester := by
        intro entry hentry hruns id hid
        apply List.mem_append_right
        rw [judged_ids, hactive]
        dsimp only
        rw [← hevidence, hpass, Option.isSome_some, if_pos rfl, List.mem_flatMap]
        exact ⟨entry, List.mem_filter.mpr ⟨hentry, hruns⟩, hid⟩
      have hstart : CacheRests deps client' verdict db.toRegistry (judged ++ judged_ids deps db request requester)
          ({ entailment_cache := db.entailment_cache } : L3Pass).entailment_cache := hcache'
      obtain ⟨houtcomes, hend⟩ := l3_outcomes_current hkeys hclient hcites hpass
        (deterministic_pass deps evidence request.claims) hstart hjudged
      refine ⟨?_, ?_⟩
      · intro served hmem
        rw [hactive, Option.mem_some_iff] at hmem
        subst hmem
        dsimp only
        rw [← hevidence, own_l3s, hpass]
        exact houtcomes
      · rw [verify_answer, hactive]
        dsimp only
        rw [← hevidence, l3_pass, hpass]
        exact hend

theorem verify_answer_registry {client_id : Option String} :
    (verify_answer deps db request requester client_id).2.toRegistry = db.toRegistry := by
  rw [verify_answer]
  cases fetch_active_version db with
  | none => rfl
  | some active => rfl

/-- Activations write run rows only. -/
theorem wellFormed_operate {p : Platform} {r : Registry} (hwf : WellFormed p r)
    (hinj : Function.Injective p.gen_random_uuid) (operation : AgenticKb.Operation) :
    WellFormed p (operate p r operation) := by
  cases operation with
  | build b => exact (wellFormed_next hwf hinj).1
  | activate build_id index =>
    cases hactivation : activation r build_id index with
    | none => simpa [operate, hactivation] using hwf
    | some result =>
      simp only [operate, hactivation, Option.map_some, Option.getD_some]
      obtain ⟨run, -, -, -, ⟨checked, passed⟩, hchecked, rfl⟩ := activation_cases hactivation
      cases passed with
      | true =>
        obtain ⟨rfl, -⟩ := compose_gates_passed hchecked
        exact hwf.of_sameCore ⟨rfl, rfl, rfl, rfl, rfl⟩
      | false =>
        obtain ⟨result, rfl⟩ := compose_gates_failed hchecked
        exact hwf.of_sameCore ⟨rfl, rfl, rfl, rfl, rfl⟩

end Calls

section Histories

variable {deps : VerifierDeps} {client : EntailmentClient} {verdict : String → Multiset String → Bool}

/-- In every history of builds, activations, ledger rows and verifications: as long as no build rewrites the body of an
    artifact that a cached verdict rests on, each verdict is the one a direct call on the current bodies gives. -/
theorem cached_verdicts_current (hkeys : KeysFaithful deps.platform)
    (hinj : Function.Injective deps.platform.gen_random_uuid) (hdeps : deps.entailment_client = some client)
    (hclient : JudgesTexts deps.platform.unicode client verdict) (turns : List Turn)
    (hkeep : Along (take_turn deps) (KeepsJudgedBodies deps) {} turns) :
    Along (take_turn deps) (CacheCurrent deps) {} turns := by
  refine hkeep.imp_of_invariant (I := fun s : Judged => WellFormed deps.platform s.db.toRegistry ∧
    CacheRests deps client verdict s.db.toRegistry s.ids s.db.entailment_cache) ?_ ?_ ?_
  · rintro s turn - ⟨hwf, hcache⟩ hbodies
    cases turn with
    | operate operation => exact ⟨wellFormed_operate hwf hinj operation, hcache.congr hbodies⟩
    | record event => exact ⟨hwf, hcache⟩
    | verify request requester client_id =>
      have hregistry : (verify_answer deps s.db request requester client_id).2.toRegistry = s.db.toRegistry :=
        verify_answer_registry
      have hend : CacheRests deps client verdict s.db.toRegistry (s.ids ++ judged_ids deps s.db request requester)
          (verify_answer deps s.db request requester client_id).2.entailment_cache :=
        (verify_answer_current client_id hkeys hdeps hclient hwf.artifact_ids hcache).2
      simp only [take_turn, hregistry]
      exact ⟨hwf, hend⟩
  · rintro s turn - ⟨hwf, hcache⟩ -
    cases turn with
    | operate operation => trivial
    | record event => trivial
    | verify request requester client_id =>
      exact (verify_answer_current client_id hkeys hdeps hclient hwf.artifact_ids hcache).1
  · refine ⟨wellFormed_empty _, ?_⟩
    intro key entailed hget
    cases hget

end Histories

section Refreshes

theorem keysFaithful_plain : KeysFaithful Platform.plain where
  content_hash _ _ h := h
  str_uuid := str_uuid_plain_injective
  no_comma id hmem := by
    have hrepr : ',' ∈ (Nat.repr id).toList := hmem
    rw [Nat.repr_eq_ofList_toDigits, String.toList_ofList] at hrepr
    exact absurd (Nat.isDigit_of_mem_toDigits (by decide) (by decide) hrepr) (by decide)

/-- A model that supports a claim unless a text it is shown speaks of a guide. -/
def guide_client : EntailmentClient :=
  { model_version := "m", check_entailment := fun _ _ texts => texts.all fun text => !contains text "guide" }

theorem judgesTexts_guide_client : JudgesTexts .ascii guide_client fun _ texts =>
    decide (∀ text ∈ texts, contains text "guide" = false) := by
  intro calls text texts
  simp [guide_client, List.all_eq]

/-- The verifier with that model. -/
def guide_deps : VerifierDeps := { VerifierDeps.plain with entailment_client := some guide_client }

/-- A claim that cites the alias which the first build of a document mines. -/
def alias_claim : Turn :=
  .verify { answer_id := "answer", claims := [{ claim_id := "c", text := "where the notes are", evidence_ids := ["2"] }]
            verifier_levels := [.L0, .L3] }
    { subject := "agent", teams := [] } none

/-- A document is indexed and served, the agent is given its alias, and a claim on the alias is verified before and
    after another build. -/
def alias_history (b : Build) : List Turn :=
  let first := doc_build ["docs/release-notes.md"]
  [.operate (.build first),
    .operate (.activate 0 (reconcile_index .plain (history .plain cached_generation [first]) [])),
    .record
      { run_id := "run", agent_name := "agent", tool_name := "kb_search", status := .approved, kb_version := "v"
        returned_artifact_ids := [2] },
    alias_claim, .operate (.build b), alias_claim]

/-- The same document again: the alias keeps its body. -/
theorem cached_verdicts_current_rebuilt :
    Along (take_turn guide_deps) (CacheCurrent guide_deps) {} (alias_history (doc_build ["docs/release-notes.md"])) := by
  have hkeep : Along (take_turn guide_deps) (KeepsJudgedBodies guide_deps) {}
      (alias_history (doc_build ["docs/release-notes.md"])) := by
    decide +kernel
  have hkeys : KeysFaithful guide_deps.platform := keysFaithful_plain
  have hinj : Function.Injective guide_deps.platform.gen_random_uuid := fun _ _ h => h
  exact cached_verdicts_current hkeys hinj rfl judgesTexts_guide_client _ hkeep

/-- A second document of the name rewrites the alias in place, and the claim keeps the verdict on the old body. -/
theorem stale_verdict_of_refreshed_alias : KeysFaithful guide_deps.platform ∧
    JudgesTexts guide_deps.platform.unicode guide_client
      (fun _ texts => decide (∀ text ∈ texts, contains text "guide" = false)) ∧
    ¬ Along (take_turn guide_deps) (CacheCurrent guide_deps) {}
      (alias_history (doc_build ["docs/release-notes.md", "guide/release-notes.md"])) := by
  refine ⟨keysFaithful_plain, judgesTexts_guide_client, ?_⟩
  decide +kernel

end Refreshes

end AgenticKb.ContextBroker
