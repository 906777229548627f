import AgenticKb.ContextBroker.Graph
import AgenticKb.ContextBroker.Retrieval

open AgenticKb.Lib

namespace AgenticKb.ContextBroker

inductive ConfidenceTier where
  | ground_truth | deterministic | interpreted
deriving DecidableEq, Repr

inductive ResolutionSource where
  | alias_index | hint | search
deriving DecidableEq, Repr

/-- Paths and symbols the developer already mentioned. -/
structure TaskContextHints where
  file_paths : List String := []
  symbols : List String := []
deriving DecidableEq, Repr

structure GetTaskContextRequest where
  task_description : String
  hints : TaskContextHints := {}
  confidence_floor : ConfidenceTier := .interpreted
  max_tokens : Option Nat := none
deriving DecidableEq, Repr

structure ScopeEntity where
  entity_id : Uuid
  path : String
  symbol : Option String
  resolution_source : ResolutionSource
  confidence_tier : ConfidenceTier
deriving DecidableEq, Repr

/-- Resolution stopped short of a single answer: the candidates are the answer. -/
structure AmbiguousCandidate where
  alias_text : String
  candidates : List Uuid
  reason : String
  alias_text_ne : alias_text ≠ ""
  two_candidates : 2 ≤ candidates.length
deriving DecidableEq, Repr

structure Convention where
  pattern : String
  evidence_ids : List Uuid
  confidence_tier : ConfidenceTier
  pattern_ne : pattern ≠ ""
deriving DecidableEq, Repr

structure PriorChange where
  commit_or_pr_id : String
  summary : String
  evidence_ids : List Uuid
  commit_or_pr_id_ne : commit_or_pr_id ≠ ""
deriving DecidableEq, Repr

/-- One neighbor of the resolved scope; its path stands in the response's table. -/
structure BlastRadiusEntity where
  entity_id : Uuid
  path_ref : Nat
  symbol : Option String
  edge_type : EdgeType
  confidence_tier : ConfidenceTier
  caveat : Option String
deriving DecidableEq, Repr

structure BlastRadius where
  callers : List BlastRadiusEntity
  callees : List BlastRadiusEntity
  tests : List BlastRadiusEntity
deriving DecidableEq, Repr

structure ResolvedScope where
  entities : List ScopeEntity
  ambiguous_candidates : List AmbiguousCandidate
deriving DecidableEq, Repr

structure TaskContextBudget where
  tokens : Nat
  calls : Nat
deriving DecidableEq, Repr

structure GetTaskContextResponse where
  resolved_scope : ResolvedScope
  referenced_paths : List String
  blast_radius : BlastRadius
  conventions : List Convention
  similar_prior_changes : List PriorChange
  evidence_ids : List Uuid
  open_questions : List String
  budget_used : TaskContextBudget
deriving DecidableEq, Repr

/-- What `json.loads` returns. -/
inductive JsonValue where
  | dict (fields : List (String × JsonValue))
  | list (items : List JsonValue)
  | str (value : String)
  /-- A number, a truth value or null, with its `str`. -/
  | scalar (text : String)

def JsonValue.is_dict : JsonValue → Bool
  | .dict _ => true
  | _ => false

/-- The entry of an object; nothing else has any. -/
def JsonValue.get? (key : String) : JsonValue → Option JsonValue
  | .dict fields => Dict.get? fields key
  | _ => none

/-- The broker's services with what the task context takes from outside beside them: `json.loads`, `uuid.UUID` of
a text, and pydantic's dump of a response. -/
structure TaskContextDeps extends BrokerDeps where
  json_loads : String → Option JsonValue
  uuid_of_text : String → Option Uuid
  response_dump_json : GetTaskContextResponse → String
  task_context_max_tokens : Nat := 8000

/-- Who asks for what, and the build that answers. -/
structure TaskContextCtx where
  requester : Requester
  request : GetTaskContextRequest
  build_seq : Nat
deriving DecidableEq, Repr

def SEARCH_TOP : Nat := 8
def BROADENED_TOP : Nat := 16
def MAX_SCOPE_ENTITIES : Nat := 5
def MAX_CONVENTIONS : Nat := 3
def MAX_PRIOR_CHANGES : Nat := 3
def ALIAS_AMBIGUITY_RATIO : Rat := 4 / 5

def SYMBOL_TYPES : List ArtifactType := [.code_symbol, .endpoint]
def CODE_TYPES : List ArtifactType := [.code_symbol, .endpoint, .code_file, .test]
def GENERIC_SEGMENTS : List String := ["src", "services", "tests", "test", "lib", "docs"]

def TIER_RANK : ConfidenceTier → Nat
  | .interpreted => 0
  | .deterministic => 1
  | .ground_truth => 2

def admits_floor (tier floor : ConfidenceTier) : Bool := decide (TIER_RANK floor ≤ TIER_RANK tier)

def uncorroborated_call (target_path : String) : String :=
  "`calls` edge is not corroborated by an import of " ++ target_path ++
    "; a same-named symbol elsewhere may be the real target — verify before relying on it"

def unresolved_call : String :=
  "`calls` edge target's defining module could not be resolved (no `defined_in` edge); the call target is unverified — a same-named symbol may be the real target"

/-- A `calls` edge is sure only if its ends share a file, or the caller's file imports the target's. -/
def calls_edge_tier (caller_file target_file : Option Uuid) (import_pairs : List (Uuid × Uuid))
    (target_path : Option String) : ConfidenceTier × Option String :=
  let corroborated := match caller_file, target_file with
    | some caller_file, some target_file =>
      caller_file == target_file || import_pairs.contains (caller_file, target_file)
    | _, _ => false
  if corroborated then (.deterministic, none)
  else match target_path.filter (· != "") with
    | some target_path => (.interpreted, some (uncorroborated_call target_path))
    | none => (.interpreted, some unresolved_call)

structure ScopeResolution where
  entities : List ScopeEntity := []
  ambiguous : List AmbiguousCandidate := []
  open_questions : List String := []
deriving DecidableEq, Repr

/-- An ambiguous answer is an answer. -/
def ScopeResolution.unresolved (scope : ScopeResolution) : Bool := scope.entities.isEmpty && scope.ambiguous.isEmpty

/-- One neighbor with its whole path. -/
structure BlastEntry where
  entity_id : Uuid
  path : String
  symbol : Option String
  edge_type : EdgeType
  confidence_tier : ConfidenceTier
  caveat : Option String
deriving DecidableEq, Repr

structure BlastResolution where
  callers : List BlastEntry := []
  callees : List BlastEntry := []
  tests : List BlastEntry := []
deriving DecidableEq, Repr

/-- `s.rstrip("()")`. -/
def rstrip_parens (s : String) : String :=
  String.ofList (s.toList.reverse.dropWhile fun c => c == '(' || c == ')').reverse

def symbol_of (row : ArtifactRow) : Option String := if SYMBOL_TYPES.contains row.artifact_type then row.title else none

def entity (row : ArtifactRow) (source : ResolutionSource) (tier : ConfidenceTier) : ScopeEntity :=
  { entity_id := row.artifact_id
    path := readable_path row.source_uri
    symbol := symbol_of row
    resolution_source := source
    confidence_tier := tier }

/-- The validated candidate; the schema refuses a nameless one and fewer than two. -/
def ambiguous_candidate (alias_text : String) (candidates : List Uuid) (reason : String) : Option AmbiguousCandidate :=
  if h : alias_text ≠ "" ∧ 2 ≤ candidates.length then
    some { alias_text, candidates, reason, alias_text_ne := h.1, two_candidates := h.2 }
  else none

section Nodes

variable (deps : TaskContextDeps) (db : Database) (ctx : TaskContextCtx)

/-- `_search_rows`: the hits the requester may see, best first, and the scores of all hits. -/
def search_rows (query : String) (top : Nat) : List ArtifactRow × Dict Uuid Rat :=
  let scores := hit_scores (deps.search db query ctx.build_seq top)
  let allowed := filter_artifacts ctx.requester (fetch_artifacts deps.platform db (scores.map (·.1)) ctx.build_seq)
  let score (row : ArtifactRow) := (scores.get? row.artifact_id).getD 0
  (sorted (fun a b => decide (score b < score a) ||
      score a == score b && str_le (deps.platform.str_uuid a.artifact_id) (deps.platform.str_uuid b.artifact_id)) allowed,
    scores)

/-- `_hydrate_allowed`. -/
def hydrate_allowed (artifact_ids : List Uuid) : Uuid → Option ArtifactRow :=
  allowed_by_id deps.platform db ctx.build_seq ctx.requester artifact_ids

/-- `uuid.UUID(str(value))`: the text of a list or dict is never that of an id. -/
def uuid_of : JsonValue → Option Uuid
  | .str text | .scalar text => deps.uuid_of_text text
  | _ => none

/-- `_alias_targets`: an alias's targets, best first; a body that does not parse has none. -/
def alias_targets (row : ArtifactRow) : List Uuid :=
  match deps.json_loads (row.body_text.getD "") with
  | some payload =>
    let raw := match payload.get? "target_entity_ids" with
      | some (.list ids) => ids
      | _ => match payload.get? "targets" with
        | some (.list targets) => (targets.filter JsonValue.is_dict).map fun target : JsonValue =>
          (target.get? "artifact_id").getD (.scalar "None")
        | _ => []
    (raw.filterMap (uuid_of deps)).foldl (fun out id => if out.contains id then out else out ++ [id]) []
  | none => []

/-- `_alias_tier`. -/
def alias_tier (row : ArtifactRow) : ConfidenceTier :=
  match (deps.json_loads (row.body_text.getD "")).bind (JsonValue.get? "confidence_tier") with
  | some (.str "ground_truth") => .ground_truth
  | some (.str "deterministic") => .deterministic
  | _ => .interpreted

/-- One symbol hint. -/
def resolve_symbol (symbol : String) : Option ScopeResolution :=
  let found := (search_rows deps db ctx symbol SEARCH_TOP).1.filter fun row =>
    SYMBOL_TYPES.contains row.artifact_type && rstrip_parens (row.title.getD "") == symbol
  match found with
  | [] => some { open_questions := ["Hint symbol '" ++ symbol ++ "' was not found in the knowledge base."] }
  | [row] => some { entities := [entity row .hint .deterministic] }
  | _ => do
    let count := toString found.length
    let candidate ← ambiguous_candidate symbol (found.map (·.artifact_id))
      ("symbol '" ++ symbol ++ "' matches " ++ count ++ " distinct definitions; resolution stopped rather than guessing")
    some
      { ambiguous := [candidate]
        open_questions := ["Which '" ++ symbol ++ "' is in scope? " ++ count ++ " definitions match — see ambiguous_candidates."] }

/-- The hits at a hinted path, by path; a path is known by its file's own artifact. -/
def matched_paths (path : String) (rows : List ArtifactRow) : Dict String ArtifactRow :=
  rows.foldl (fun matched row =>
    let row_path := readable_path row.source_uri
    if row_path == path || endswith row_path ("/" ++ path) then
      match matched.get? row_path with
      | none => matched.set row_path row
      | some current =>
        if row.artifact_type == .code_file && current.artifact_type != .code_file then matched.set row_path row
        else matched
    else matched) []

/-- One file hint. -/
def resolve_file (path : String) : Option ScopeResolution :=
  let found := (matched_paths path (search_rows deps db ctx (basename path) SEARCH_TOP).1).map (·.2)
  match found with
  | [] => some { open_questions := ["Hint file '" ++ path ++ "' was not found in the knowledge base."] }
  | [row] => some { entities := [entity row .hint .deterministic] }
  | _ => do
    let count := toString found.length
    let candidates := sorted (fun a b => str_le (readable_path a.source_uri) (readable_path b.source_uri)) found
    let candidate ← ambiguous_candidate path (candidates.map (·.artifact_id))
      ("file hint '" ++ path ++ "' matches " ++ count ++ " distinct paths; resolution stopped rather than guessing")
    some
      { ambiguous := [candidate]
        open_questions :=
          ["Which file did you mean by '" ++ path ++ "'? " ++ count ++ " paths match — see ambiguous_candidates."] }

/-- What several hints resolve to together. -/
def join_scopes (scopes : List ScopeResolution) : ScopeResolution :=
  { entities := scopes.flatMap (·.entities)
    ambiguous := scopes.flatMap (·.ambiguous)
    open_questions := scopes.flatMap (·.open_questions) }

def resolve_from_hints : Option ScopeResolution := do
  let symbols ← ctx.request.hints.symbols.mapM (resolve_symbol deps db ctx)
  let files ← ctx.request.hints.file_paths.mapM (resolve_file deps db ctx)
  some (join_scopes (symbols ++ files))

/-- The alias rows whose phrase fits about as well as the best one's and means something else. -/
def differing_aliases (scores : Dict Uuid Rat) (top : ArtifactRow) (others : List ArtifactRow) : List ArtifactRow :=
  let score (row : ArtifactRow) := (scores.get? row.artifact_id).getD 0
  let top_targets := alias_targets deps top
  others.filter fun row =>
    let targets := alias_targets deps row
    decide ( ALIAS_AMBIGUITY_RATIO * score top ≤ score row) && !targets.isEmpty &&
      !(targets.all top_targets.contains && top_targets.all targets.contains)

/-- The targets of the best alias, then the others' that are not among them. -/
def candidate_ids (top : ArtifactRow) (differing : List ArtifactRow) : List Uuid :=
  (differing.flatMap (alias_targets deps)).foldl (fun out id => if out.contains id then out else out ++ [id])
    (alias_targets deps top)

/-- `_resolve_from_alias`: by the alias rows among the hits of the task. -/
def resolve_from_alias (rows : List ArtifactRow) (scores : Dict Uuid Rat) : Option ScopeResolution :=
  match rows.filter fun row => row.artifact_type == .alias_reference with
  | [] => some {}
  | top :: others =>
    let top_targets := alias_targets deps top
    if top_targets.isEmpty then some {}
    else
      let differing := differing_aliases deps scores top others
      if differing.isEmpty then
        let allowed := hydrate_allowed deps db ctx top_targets
        let entities := (top_targets.filterMap allowed).map fun row => entity row .alias_index (alias_tier deps top)
        some { entities := entities.take MAX_SCOPE_ENTITIES }
      else do
        let ids := candidate_ids deps top differing
        let candidate ← ambiguous_candidate (nonempty_or top.title ctx.request.task_description) ids
          (toString (1 + differing.length) ++ " alias phrases match with comparable relevance and point at different targets; resolution stopped rather than guessing")
        some
          { ambiguous := [candidate]
            open_questions :=
              ["The phrase resolves to " ++ toString ids.length ++ " different targets via the alias index — which one is in scope? See ambiguous_candidates."] }

/-- `_resolve_from_search`. -/
def resolve_from_search (rows : List ArtifactRow) (broadened : Bool) : ScopeResolution :=
  let candidates := rows.filter fun row =>
    if broadened then row.artifact_type != .alias_reference && row.artifact_type != .commit
    else CODE_TYPES.contains row.artifact_type
  { entities := (candidates.take MAX_SCOPE_ENTITIES).map fun row => entity row .search .interpreted }

/-- The rows of the task's own search. -/
def task_rows (top : Nat) : List ArtifactRow × Dict Uuid Rat := search_rows deps db ctx ctx.request.task_description top

/-- `_resolve_entities_and_rows`: hints, then aliases, then the search; the rows of the task's search where it was
made, and the number of searches. -/
def resolve_entities_and_rows (broadened : Bool) : Option (ScopeResolution × Option (List ArtifactRow) × Nat) := do
  let searches := ctx.request.hints.symbols.length + ctx.request.hints.file_paths.length
  let from_hints ← resolve_from_hints deps db ctx
  if !from_hints.unresolved then some (from_hints, none, searches)
  else
    let (rows, scores) := task_rows deps db ctx (if broadened then BROADENED_TOP else SEARCH_TOP)
    let from_alias ← resolve_from_alias deps db ctx rows scores
    if !from_alias.unresolved then
      some ({ from_alias with open_questions := from_hints.open_questions ++ from_alias.open_questions }, some rows,
        searches + 1)
    else
      some ({ resolve_from_search rows broadened with open_questions := from_hints.open_questions }, some rows,
        searches + 1)

end Nodes

section Blast

-- what it reads: the admitted edges at some artifacts, of some types, and the rows the requester may see among some ids
variable (edges_at : List Uuid → List EdgeType → List EdgeRow) (cap : Nat) (seeds : List Uuid)

def seed_edges : List EdgeRow := edges_at seeds [.calls, .imports, .tests, .defined_in]

def is_dependency (e : EdgeRow) : Bool := e.edge_type == .calls || e.edge_type == .imports

/-- An edge from outside into the seeds. -/
def enters (e : EdgeRow) : Bool := seeds.contains e.to_artifact_id && !seeds.contains e.from_artifact_id

/-- An edge from the seeds to the outside. -/
def leaves (e : EdgeRow) : Bool := seeds.contains e.from_artifact_id && !seeds.contains e.to_artifact_id

def caller_edges : List EdgeRow := (seed_edges edges_at seeds).filter fun e => is_dependency e && enters seeds e
def callee_edges : List EdgeRow := (seed_edges edges_at seeds).filter fun e => is_dependency e && leaves seeds e
def test_edges : List EdgeRow := (seed_edges edges_at seeds).filter fun e => e.edge_type == .tests && enters seeds e

/-- The other ends of the edges taken. -/
def neighbor_ids : List Uuid :=
  ((caller_edges edges_at seeds).take cap ++ (test_edges edges_at seeds).take cap).map (·.from_artifact_id) ++
    ((callee_edges edges_at seeds).take cap).map (·.to_artifact_id)

/-- The files of the artifacts at the seeds. -/
def seed_files : Dict Uuid Uuid :=
  ((seed_edges edges_at seeds).filter fun e => e.edge_type == .defined_in).foldl
    (fun files e => files.set e.from_artifact_id e.to_artifact_id) []

/-- The second hop only corroborates: the neighbors' files, and the imports between the files involved. -/
def corroboration_seeds : List Uuid := neighbor_ids edges_at cap seeds ++ (seed_files edges_at seeds).map (·.2)

def corroboration_edges : List EdgeRow := edges_at (corroboration_seeds edges_at cap seeds) [.defined_in, .imports]

def defined_in : Dict Uuid Uuid :=
  ((corroboration_edges edges_at cap seeds).filter fun e => e.edge_type == .defined_in).foldl
    (fun files e => files.setdefault e.from_artifact_id e.to_artifact_id) (seed_files edges_at seeds)

def import_pairs : List (Uuid × Uuid) :=
  ((seed_edges edges_at seeds ++ corroboration_edges edges_at cap seeds).filter fun e => e.edge_type == .imports).map
    fun e => (e.from_artifact_id, e.to_artifact_id)

variable (hydrate : List Uuid → Uuid → Option ArtifactRow)

/-- The rows that the blast radius may surface. -/
def blast_rows : Uuid → Option ArtifactRow :=
  hydrate (neighbor_ids edges_at cap seeds ++ (defined_in edges_at cap seeds).map (·.2))

/-- `_blast_entity`: an artifact the requester may not see is neither returned nor acknowledged. -/
def blast_entity (e : EdgeRow) (neighbor_id : Uuid) : Option BlastEntry :=
  (blast_rows edges_at cap seeds hydrate neighbor_id).map fun row =>
    let file_of := (defined_in edges_at cap seeds).get?
    let target_path := ((file_of e.to_artifact_id).bind (blast_rows edges_at cap seeds hydrate)).map fun file =>
      readable_path file.source_uri
    let (tier, caveat) :=
      if e.edge_type == .calls then
        calls_edge_tier (file_of e.from_artifact_id) (file_of e.to_artifact_id) (import_pairs edges_at cap seeds) target_path
      else (.deterministic, none)
    { entity_id := row.artifact_id
      path := readable_path row.source_uri
      symbol := symbol_of row
      edge_type := e.edge_type
      confidence_tier := tier
      caveat }

/-- `_ordered`: by path, symbol and id. -/
def ordered (str_uuid : Uuid → String) (entries : List BlastEntry) : List BlastEntry :=
  let symbol (e : BlastEntry) := e.symbol.getD ""
  sorted (fun a b =>
    a.path == b.path && (symbol a == symbol b && str_le (str_uuid a.entity_id) (str_uuid b.entity_id) ||
      symbol a != symbol b && str_le (symbol a) (symbol b)) ||
    a.path != b.path && str_le a.path b.path) entries

/-- What the seeds touch, and the number of reads. -/
def blast_radius (str_uuid : Uuid → String) : BlastResolution × Nat :=
  if seeds.isEmpty then ({}, 0)
  else
    let entry := blast_entity edges_at cap seeds hydrate
    ({ callers := ordered str_uuid (((caller_edges edges_at seeds).take cap).filterMap fun e => entry e e.from_artifact_id)
       callees := ordered str_uuid (((callee_edges edges_at seeds).take cap).filterMap fun e => entry e e.to_artifact_id)
       tests := ordered str_uuid (((test_edges edges_at seeds).take cap).filterMap fun e => entry e e.from_artifact_id) },
      if (corroboration_seeds edges_at cap seeds).isEmpty then 1 else 2)

end Blast

/-- The member edges at some artifacts that the trust floor admits. -/
def admitted_edges_at (db : Database) (build_seq : Nat) (artifact_ids : List Uuid) (edge_types : List EdgeType) :
    List EdgeRow :=
  (fetch_edges_touching db artifact_ids build_seq (some edge_types)).filter fun e => admits e.trust_class .EXTRACTED false

/-- The words that tell the neighborhood of the scope: the stems and directories of its paths. -/
def scope_terms (u : Unicode) (scope : ScopeResolution) : List String :=
  scope.entities.flatMap fun entity =>
    let path := u.lower entity.path
    let name := basename path
    let stem := ((rpartition name ".").map (·.1)).getD name
    let directories := ((rpartition path "/").map fun parts => runs (· != '/') parts.1).getD []
    (stem :: directories).filter fun term => term != "" && !GENERIC_SEGMENTS.contains term

/-- The validated convention; the schema refuses a nameless one. -/
def convention (row : ArtifactRow) : Option Convention :=
  let pattern := nonempty_or row.title (readable_path row.source_uri)
  if h : pattern ≠ "" then
    some { pattern, evidence_ids := [row.artifact_id], confidence_tier := .interpreted, pattern_ne := h }
  else none

/-- The validated change; the schema refuses a nameless one. -/
def prior_change (p : Platform) (row : ArtifactRow) : Option PriorChange :=
  let path := readable_path row.source_uri
  let commit_or_pr_id := if path = "" then p.str_uuid row.artifact_id else path
  let summary := nonempty_or row.title ((splitlines (strip p.unicode (row.body_text.getD ""))).headD "")
  if h : commit_or_pr_id ≠ "" then
    some { commit_or_pr_id, summary := take_chars summary 200, evidence_ids := [row.artifact_id], commit_or_pr_id_ne := h }
  else none

/-- What the four nodes of a pass find, and what they cost. -/
structure TaskContextPass where
  scope : ScopeResolution
  blast : BlastResolution
  conventions : List Convention
  prior_changes : List PriorChange
  calls : Nat
deriving DecidableEq, Repr

section Graph

variable (deps : TaskContextDeps) (db : Database) (ctx : TaskContextCtx)

def blast_radius_node (broadened : Bool) : Option (BlastResolution × Nat) := do
  let (scope, _, searches) ← resolve_entities_and_rows deps db ctx broadened
  let (blast, reads) := blast_radius (admitted_edges_at db ctx.build_seq) deps.settings.max_graph_neighbors
    (scope.entities.map (·.entity_id)) (hydrate_allowed deps db ctx) deps.platform.str_uuid
  some (blast, searches + reads)

/-- The documents among the hits, those about the scope's neighborhood if there are any. -/
def convention_rows (scope : ScopeResolution) (rows : List ArtifactRow) : List ArtifactRow :=
  let docs := rows.filter fun row =>
    !CODE_TYPES.contains row.artifact_type && row.artifact_type != .alias_reference && row.artifact_type != .commit
  let terms := scope_terms deps.platform.unicode scope
  let relevant := docs.filter fun row =>
    let text := deps.platform.unicode.lower (row.title.getD "" ++ " " ++ row.body_text.getD "")
    terms.any fun term => contains text term
  let docs := if terms.isEmpty || relevant.isEmpty then docs else relevant
  docs.take MAX_CONVENTIONS

def conventions_node (broadened : Bool) : Option (List Convention × Nat) := do
  let (scope, task_hits, searches) ← resolve_entities_and_rows deps db ctx broadened
  -- the task's own search is made again only if its result is not at hand
  let (rows, again) := match task_hits with
    | some rows => if broadened then ((task_rows deps db ctx SEARCH_TOP).1, 1) else (rows, 0)
    | none => ((task_rows deps db ctx SEARCH_TOP).1, 1)
  let conventions ← (convention_rows deps scope rows).mapM convention
  some (conventions, searches + again)

def similar_prior_changes_node : Option (List PriorChange × Nat) := do
  let rows := (task_rows deps db ctx BROADENED_TOP).1
  let commits := (rows.filter fun row => row.artifact_type == .commit).take MAX_PRIOR_CHANGES
  let prior ← commits.mapM (prior_change deps.platform)
  some (prior, 1)

/-- The four nodes beside each other. A node that raises fails the call. -/
def fan_out (broadened : Bool) : Option TaskContextPass := do
  let (scope, _, searches) ← resolve_entities_and_rows deps db ctx broadened
  let (blast, blast_calls) ← blast_radius_node deps db ctx broadened
  let (conventions, convention_calls) ← conventions_node deps db ctx broadened
  let (prior_changes, prior_calls) ← similar_prior_changes_node deps db ctx
  some
    { scope, blast, conventions, prior_changes
      calls := searches + blast_calls + convention_calls + prior_calls }

end Graph

end AgenticKb.ContextBroker
