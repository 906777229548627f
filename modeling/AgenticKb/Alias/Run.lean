import AgenticKb.Alias.Resolve
import AgenticKb.Connectors.GitMetadata
import AgenticKb.Domain.AclIntersection
import AgenticKb.Lib.Run
import AgenticKb.Linker.WriteEdges

open AgenticKb.Lib

namespace AgenticKb

def MAX_EDGE_TARGETS : Nat := 20

/-- Preference among the artifacts of one target path. -/
def target_type_rank : ArtifactType → Nat
  | .code_file => 0
  | .summary => 1
  | _ => 2

/-- What one live source offers the miner. -/
inductive MiningKind where
  | commit (subject : String) (changed_files : List String)
  | doc (path : String)
deriving DecidableEq, Repr

structure MiningInput where
  source_key : String
  ref : String
  content_hash : String
  source_id : Uuid
  kind : MiningKind
  repo : Option String
deriving DecidableEq, Repr

def extract_phrases (u : Unicode) (input : MiningInput) : List MinedPhrase :=
  match input.kind with
  | .commit subject changed_files => mine_commit u subject changed_files
  | .doc path => mine_doc_source u path

/-- A live commit artifact of a live source. -/
def commit_input (p : Platform) (entry : KnowledgeArtifact × SourceItem) : Option MiningInput :=
  let (a, s) := entry
  if a.artifact_type == .commit && a.invalidated_at_seq.isNone && !s.is_deleted then
    match a.body_text.map p.body_string, a.content_hash with
    | some body, some content_hash => some
      { source_key := "commit:" ++ s.source_uri
        ref := take_chars s.source_version 12
        content_hash
        source_id := s.source_id
        kind := .commit (strip p.unicode (before_first "\n" body)) (parse_changed_files p.unicode body)
        repo := s.repo }
    | _, _ => none
  else none

/-- A live markdown document. -/
def doc_input (u : Unicode) (s : SourceItem) : Option MiningInput :=
  match s.path with
  | some path =>
    if s.source_type == .github_doc && !s.is_deleted && endswith (u.lower path) ".md" then some
      { source_key := "doc:" ++ s.source_uri, ref := path, content_hash := s.content_hash
        source_id := s.source_id, kind := .doc path, repo := s.repo }
    else none
  | none => none

def load_mining_inputs (p : Platform) (r : Registry) : List MiningInput :=
  sorted (fun a b => str_le a.source_key b.source_key)
    (r.joined.filterMap (commit_input p) ++ r.source_items.filterMap (doc_input p.unicode))

/-- An alias row the pass may keep: live, or retired by the sweeps of this very build. -/
def revivable (valid_from_seq : Nat) (invalidated_at_seq : Option Nat) : Bool :=
  invalidated_at_seq.isNone || invalidated_at_seq == some valid_from_seq

/-- The alias rows the pass may keep, live ones first. -/
def alias_rows (r : Registry) (valid_from_seq : Nat) : List KnowledgeArtifact :=
  sorted (fun a b => (a.invalidated_at_seq.isNone && b.invalidated_at_seq.isSome) ||
      (a.invalidated_at_seq.isNone == b.invalidated_at_seq.isNone && a.artifact_id ≤ b.artifact_id))
    (r.artifacts.filter fun a =>
      a.artifact_type == .alias_reference && revivable valid_from_seq a.invalidated_at_seq)

/-- The first row of each title. -/
def first_by_title (rows : List KnowledgeArtifact) : Dict String KnowledgeArtifact :=
  rows.foldl (fun (d : Dict String KnowledgeArtifact) row =>
    match row.title with
    | some title => d.setdefault title row
    | none => d) []

/-- The rows of a title beyond its first. -/
def duplicate_rows (rows : List KnowledgeArtifact) : List Uuid :=
  let kept := (first_by_title rows).map (·.2.artifact_id)
  (rows.filter fun row => row.title.isSome && !kept.contains row.artifact_id).map (·.artifact_id)

/-- Retire the live alias rows among `ids`. -/
def retire_aliases (r : Registry) (valid_from_seq : Nat) (ids : List Uuid) : Registry :=
  { r with
    artifacts := update_where r.artifacts
      (fun a => a.artifact_type == .alias_reference && ids.contains a.artifact_id &&
        a.invalidated_at_seq.isNone) fun a => { a with invalidated_at_seq := some valid_from_seq } }

/-- `_parse_body`. -/
def parse_body (row : KnowledgeArtifact) : Option AliasBody :=
  match row.body_text with
  | some (.alias_body body) => some body
  | _ => none

/-- One evidence entry read back into the per-source state. A source whose entries disagree on the
hash they were mined at is poisoned. -/
def prior_extraction_step (title : String)
    (state : Dict String (String × Dict String (List String)) × List String) (entry : AliasEvidence) :
    Dict String (String × Dict String (List String)) × List String :=
  let (known, poisoned) := state
  match entry with
  | .mined source _ content_hash targets =>
    if poisoned.contains source then state
    else match known.get? source with
      | none => (known.set source (content_hash, [(title, targets)]), poisoned)
      | some (mined_hash, phrases) =>
        if mined_hash = content_hash then
          (known.set source (content_hash, phrases.set title targets), poisoned)
        else (known.filter fun entry => entry.1 ≠ source, source :: poisoned)
  | .misses .. => state

/-- Per source, the hash it was mined at and the phrases stored for it. -/
def prior_extractions (prior_rows : Dict String KnowledgeArtifact) :
    Dict String (String × Dict String (List String)) :=
  ((sorted (fun a b => str_le a.1 b.1) prior_rows).foldl (fun state (title, row) =>
    match parse_body row with
    | some body => body.evidence.foldl (prior_extraction_step title) state
    | none => state) ([], [])).1

/-- An unchanged source's stored phrases are replayed; any other source is mined. -/
def contribution (u : Unicode) (prior : Dict String (String × Dict String (List String)))
    (input : MiningInput) : SourceContribution :=
  let mined := extract_phrases u input
  let phrases := match prior.get? input.source_key with
    | some (content_hash, phrases) =>
      if content_hash = input.content_hash then
        (sorted (fun a b => str_le a.1 b.1) phrases).map fun (phrase, targets) => ⟨phrase, targets⟩
      else mined
    | none => mined
  { source_key := input.source_key, ref := input.ref, content_hash := input.content_hash, phrases }

/-- The repos whose sources name each target path. -/
def contributing_repos (aggregates : List AliasAggregate) (inputs : List MiningInput) :
    Dict String (List (Option String)) :=
  (aggregates.flatMap (·.evidence)).foldl (fun d evidence =>
    match inputs.reverse.find? fun i => i.source_key == evidence.source_key with
    | some input => evidence.targets.foldl
        (fun (d : Dict String (List (Option String))) path => d.append_to path input.repo) d
    | none => d) []

/-- The live sources a target path stands for, in a repo that names it. -/
def target_sources (r : Registry) (paths : List String)
    (path_repos : Dict String (List (Option String))) : List (SourceItem × String) :=
  r.source_items.filterMap fun s =>
    match s.path with
    | some path =>
      if paths.contains path && !s.is_deleted && ((path_repos.get? path).getD []).contains s.repo then
        some (s, path)
      else none
    | none => none

/-- The smaller of two candidates for a path: by type rank, then by id. -/
def prefer_target (best : Dict String (Nat × Uuid)) (path : String) (rank : Nat) (id : Uuid) :
    Dict String (Nat × Uuid) :=
  match best.get? path with
  | none => best.set path (rank, id)
  | some (best_rank, best_id) =>
    if rank < best_rank || (rank == best_rank && id < best_id) then best.set path (rank, id) else best

/-- Per target path, the access list of its sources and its preferred live artifact. -/
def resolve_targets (r : Registry) (paths : List String)
    (path_repos : Dict String (List (Option String))) :
    Dict String (List String) × Dict String Uuid :=
  let sources := target_sources r paths path_repos
  let acl_rows := sources.foldl (fun (d : Dict String (List (List String))) (s, path) =>
    d.append_to path s.acl_teams) []
  let best := r.artifacts.foldl (fun best a =>
    match sources.find? fun entry => entry.1.source_id == a.source_id with
    | some (_, path) =>
      if a.invalidated_at_seq.isNone && a.artifact_type != .alias_reference then
        prefer_target best path (target_type_rank a.artifact_type) a.artifact_id
      else best
    | none => best) []
  (acl_rows.map fun (path, rows) => (path, merge_path_acls rows), best.map fun (path, b) => (path, b.2))

def desired_body (u : Unicode) (aggregate : AliasAggregate) (path_artifacts : Dict String Uuid) :
    AliasBody :=
  { phrase := aggregate.phrase
    variants := phrase_variants u aggregate.phrase
    confirmation_count := aggregate.confirmation_count
    ledger_mined := false
    targets := aggregate.targets.map fun target =>
      ⟨target.path, path_artifacts.get? target.path, target.count⟩
    evidence := aggregate.evidence.map fun e => .mined e.source_key e.ref e.content_hash e.targets }

/-- What a pass wants the alias row of one phrase to hold. -/
structure DesiredAlias where
  phrase : String
  body : AliasBody
  search_text : String
  acl_teams : List String
  source_id : Uuid
deriving DecidableEq, Repr

/-- The row already holds what is wanted, and is live. -/
def DesiredAlias.same (desired : DesiredAlias) (row : KnowledgeArtifact) : Bool :=
  row.body_text == some (.alias_body desired.body) && row.search_text == some desired.search_text &&
    row.acl_teams == desired.acl_teams && row.source_id == desired.source_id &&
    row.invalidated_at_seq.isNone

/-- Write one wanted alias: insert it, or refresh the row that stands for it in place. A refreshed
row keeps its `valid_from_seq`; `revive` makes it live again. -/
def write_alias (p : Platform) (kb_version : String) (valid_from_seq : Nat) (revive : Bool)
    (r : Registry) (prior : Option KnowledgeArtifact) (desired : DesiredAlias) : Registry × Uuid :=
  match prior with
  | none =>
    let (r, ids) := r.add_artifacts p [fun artifact_id =>
      { artifact_id
        artifact_type := .alias_reference
        source_id := desired.source_id
        title := some desired.phrase
        body_text := some (.alias_body desired.body)
        content_hash := some (p.content_hash (p.json_dumps desired.body))
        search_text := some desired.search_text
        kb_version
        valid_from_seq
        knowledge_kind := some .interpreted
        acl_teams := desired.acl_teams
        created_at := r.now }]
    (r, ids.headD 0)
  | some row =>
    if desired.same row then (r, row.artifact_id)
    else
      ({ r with
          artifacts := update_where r.artifacts
            (fun a => a.artifact_type == .alias_reference && a.artifact_id == row.artifact_id) fun a =>
              { a with
                body_text := some (.alias_body desired.body)
                content_hash := some (p.content_hash (p.json_dumps desired.body))
                search_text := some desired.search_text
                acl_teams := desired.acl_teams
                source_id := desired.source_id
                kb_version
                invalidated_at_seq := if revive then none else a.invalidated_at_seq } }, row.artifact_id)

/-- The wanted alias of one aggregate; its anchor is its first contributing source. -/
def desired_alias (u : Unicode) (inputs : List MiningInput) (path_acls : Dict String (List String))
    (path_artifacts : Dict String Uuid) (aggregate : AliasAggregate) : Option DesiredAlias := do
  let first ← aggregate.evidence.head?
  let anchor ← inputs.reverse.find? fun i => i.source_key == first.source_key
  some
    { phrase := aggregate.phrase
      body := desired_body u aggregate path_artifacts
      search_text := alias_search_text u aggregate.phrase
      acl_teams := commit_acl_intersection (aggregate.targets.map (·.path)) path_acls
      source_id := anchor.source_id }

/-- The live rows no longer mined, except those the ledger pass owns. -/
def stale_aliases (aggregates : List AliasAggregate) (prior_rows : Dict String KnowledgeArtifact) :
    List Uuid :=
  (prior_rows.filter fun (title, row) =>
    !(aggregates.any fun aggregate => aggregate.phrase == title) && row.invalidated_at_seq.isNone &&
      !(parse_body row).any (·.ledger_mined)).map (·.2.artifact_id)

/-- Upsert one row per phrase; the stale rows are retired. -/
def reconcile_artifacts (p : Platform) (r : Registry) (kb_version : String) (valid_from_seq : Nat)
    (aggregates : List AliasAggregate) (prior_rows : Dict String KnowledgeArtifact)
    (desired : AliasAggregate → Option DesiredAlias) : Registry × Dict String Uuid :=
  let (r, alias_ids) := aggregates.foldl (fun (r, alias_ids) aggregate =>
    match desired aggregate with
    | some wanted =>
      let (r, id) := write_alias p kb_version valid_from_seq true r
        (prior_rows.get? aggregate.phrase) wanted
      (r, Dict.set alias_ids aggregate.phrase id)
    | none => (r, alias_ids)) (r, ([] : Dict String Uuid))
  (retire_aliases r valid_from_seq (stale_aliases aggregates prior_rows), alias_ids)

/-- The upserts of `reconcile_artifacts`. -/
def upserted (p : Platform) (kb_version : String) (n : Nat)
    (prior_rows : Dict String KnowledgeArtifact) (desired : AliasAggregate → Option DesiredAlias)
    (state : Registry × Dict String Uuid) (aggregate : AliasAggregate) : Registry × Dict String Uuid :=
  match desired aggregate with
  | some wanted =>
    let (r, id) := write_alias p kb_version n true state.1 (prior_rows.get? aggregate.phrase) wanted
    (r, Dict.set state.2 aggregate.phrase id)
  | none => state

/-- What every write and the retirement of the stale rows keep, the reconciliation keeps. -/
theorem reconcile_artifacts_rule {p : Platform} {kb_version : String} {n : Nat}
    {aggregates : List AliasAggregate} {prior_rows : Dict String KnowledgeArtifact}
    {desired : AliasAggregate → Option DesiredAlias} {I : Registry → Prop}
    (hwrite : ∀ mid, ∀ aggregate ∈ aggregates, ∀ wanted ∈ desired aggregate, I mid →
      I (write_alias p kb_version n true mid (prior_rows.get? aggregate.phrase) wanted).1)
    (hretire : ∀ mid, I mid → I (retire_aliases mid n (stale_aliases aggregates prior_rows)))
    {r : Registry} (h : I r) : I (reconcile_artifacts p r kb_version n aggregates prior_rows desired).1 := by
  have hupserts : I (aggregates.foldl (upserted p kb_version n prior_rows desired) (r, [])).1 := by
    refine foldl_invariant (I := fun state : Registry × Dict String Uuid => I state.1) ?_ h
    intro state aggregate haggregate hs
    unfold upserted
    cases hwanted : desired aggregate with
    | none => exact hs
    | some wanted => exact hwrite state.1 aggregate haggregate wanted hwanted hs
  exact hretire _ hupserts

/-- Confidence and evidence of one desired `aliases` edge. -/
structure DesiredEdge where
  confidence : Rat
  evidence : Evidence
deriving DecidableEq, Repr

/-- The edges the aggregates ask for; only resolved live targets get one. -/
def desired_edges (aggregates : List AliasAggregate) (alias_ids path_artifacts : Dict String Uuid) :
    Dict (Uuid × Uuid) DesiredEdge :=
  aggregates.foldl (fun desired aggregate =>
    match alias_ids.get? aggregate.phrase with
    | none => desired
    | some alias_id =>
      (aggregate.targets.take MAX_EDGE_TARGETS).foldl
        (fun (desired : Dict (Uuid × Uuid) DesiredEdge) target =>
          match path_artifacts.get? target.path with
          | none => desired
          | some target_id =>
            let sources := sorted str_le <| (aggregate.evidence.filter fun e =>
              e.targets.contains target.path).map (·.ref)
            desired.set (alias_id, target_id)
              { confidence := (target.count : Rat) / aggregate.confirmation_count
                evidence := .alias_target aggregate.phrase target.path sources }) desired) []

def is_alias_edge (e : KnowledgeEdge) : Bool := e.source == some .alias_miner && e.edge_type == .aliases

def KnowledgeEdge.pair (e : KnowledgeEdge) : Uuid × Uuid := (e.from_artifact_id, e.to_artifact_id)

/-- The alias edges the pass may keep, by id. -/
def existing_alias_edges (r : Registry) (valid_from_seq : Nat) : List KnowledgeEdge :=
  sorted (fun a b => decide (a.edge_id ≤ b.edge_id))
    (r.edges.filter fun e => is_alias_edge e && revivable valid_from_seq e.invalidated_at_seq)

/-- The existing edges that stand for a desired pair: the first of each. -/
def kept_alias_edges (existing : List KnowledgeEdge) (desired : Dict (Uuid × Uuid) DesiredEdge) :
    Dict (Uuid × Uuid) Uuid :=
  existing.foldl (fun (kept : Dict (Uuid × Uuid) Uuid) e =>
    if (desired.get? e.pair).isSome then kept.setdefault e.pair e.edge_id else kept) []

/-- The edge already holds what is wanted, and is live. -/
def DesiredEdge.same (wanted : DesiredEdge) (e : KnowledgeEdge) : Bool :=
  e.confidence == some wanted.confidence && e.evidence == .object wanted.evidence &&
    e.invalidated_at_seq.isNone

/-- Refresh a kept edge, retire a superfluous one. -/
def reconcile_edge (kb_version : String) (valid_from_seq : Nat)
    (desired : Dict (Uuid × Uuid) DesiredEdge) (kept : Dict (Uuid × Uuid) Uuid) (e : KnowledgeEdge) :
    KnowledgeEdge :=
  match desired.get? e.pair with
  | some wanted =>
    if kept.get? e.pair == some e.edge_id then
      if wanted.same e then e
      else
        { e with
          confidence := some wanted.confidence
          evidence := .object wanted.evidence
          kb_version
          relation_schema_version := RELATION_SCHEMA_VERSION
          invalidated_at_seq := none }
    else if e.invalidated_at_seq.isNone then { e with invalidated_at_seq := some valid_from_seq }
    else e
  | none =>
    if e.invalidated_at_seq.isNone then { e with invalidated_at_seq := some valid_from_seq } else e

/-- Reconcile the `aliases` edges with the desired set. -/
def reconcile_edges (p : Platform) (r : Registry) (kb_version : String) (valid_from_seq : Nat)
    (desired : Dict (Uuid × Uuid) DesiredEdge) : Registry :=
  let kept := kept_alias_edges (existing_alias_edges r valid_from_seq) desired
  let r := { r with
    edges := update_where r.edges
      (fun e => is_alias_edge e && revivable valid_from_seq e.invalidated_at_seq)
      (reconcile_edge kb_version valid_from_seq desired kept) }
  let missing := sorted (fun a b => a.1.1 < b.1.1 || (a.1.1 == b.1.1 && a.1.2 ≤ b.1.2))
    (desired.filter fun entry => (kept.get? entry.1).isNone)
  missing.foldl (fun r ((from_artifact_id, to_artifact_id), wanted) =>
    r.add_edge p fun edge_id =>
      { edge_id
        from_artifact_id
        to_artifact_id
        edge_type := .aliases
        confidence := some wanted.confidence
        source := some .alias_miner
        kb_version
        trust_class := .EXTRACTED
        relation_schema_version := RELATION_SCHEMA_VERSION
        evidence := .object wanted.evidence
        valid_from_seq }) r

/-- What the mined and the replayed sources add up to. -/
def mined_aggregates (u : Unicode) (inputs : List MiningInput)
    (prior_rows : Dict String KnowledgeArtifact) : List AliasAggregate :=
  aggregate_contributions u (inputs.map (contribution u (prior_extractions prior_rows)))

/-- Reconcile the alias rows with what the live registry supports; the edges they ask for come back
with the registry. -/
def reconcile_aliases (p : Platform) (r : Registry) (kb_version : String) (valid_from_seq : Nat) :
    Registry × Dict (Uuid × Uuid) DesiredEdge :=
  let inputs := load_mining_inputs p r
  let rows := alias_rows r valid_from_seq
  let prior_rows := first_by_title rows
  let r := retire_aliases r valid_from_seq (duplicate_rows rows)
  let aggregates := mined_aggregates p.unicode inputs prior_rows
  let target_paths := (aggregates.flatMap fun aggregate => aggregate.targets.map (·.path)).dedup
  let (path_acls, path_artifacts) :=
    resolve_targets r target_paths (contributing_repos aggregates inputs)
  let (r, alias_ids) := reconcile_artifacts p r kb_version valid_from_seq aggregates prior_rows
    (desired_alias p.unicode inputs path_acls path_artifacts)
  (r, desired_edges aggregates alias_ids path_artifacts)

/-- Reconcile the alias rows, then their edges. -/
def run_alias_miner (p : Platform) (r : Registry) (kb_version : String) (valid_from_seq : Nat) :
    Registry :=
  let (r, desired) := reconcile_aliases p r kb_version valid_from_seq
  reconcile_edges p r kb_version valid_from_seq desired

/-- The resolver's entry of a live alias row whose body can be read. -/
def load_alias_entry (a : KnowledgeArtifact) : Option AliasEntry :=
  if a.artifact_type == .alias_reference && a.invalidated_at_seq.isNone then
    match a.title, parse_body a with
    | some title, some body => some ⟨title, body.targets.map (·.path), body.confirmation_count⟩
    | _, _ => none
  else none

/-- The live alias index. -/
def load_alias_entries (r : Registry) : List AliasEntry :=
  sorted (fun a b => str_le a.alias_name b.alias_name) (r.artifacts.filterMap load_alias_entry)

end AgenticKb
