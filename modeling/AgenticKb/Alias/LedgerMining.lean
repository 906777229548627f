import AgenticKb.Alias.Resolve
import AgenticKb.Alias.Run

open AgenticKb.Lib

namespace AgenticKb

def MAX_RAW_QUERY_CHARS : Nat := 80

/-- One normalized miss phrase over the window. -/
structure MissGroup where
  phrase : String
  first_seen : Timestamp
  last_seen : Timestamp
  miss_count : Nat
  confirmation_count : Nat
deriving DecidableEq, Repr

/-- Control characters go, then the length is capped. -/
def sanitize_query_text (raw : String) : String :=
  String.ofList ((raw.toList.filter fun c => !(c.toNat < 32 || c.toNat == 127)).take MAX_RAW_QUERY_CHARS)

/-- The searches of the window that came back empty or thin, grouped by phrase. -/
def load_miss_groups (u : Unicode) (events : List RetrievalEvent) (window_start : Timestamp) :
    List MissGroup :=
  let misses := events.filter fun e => e.tool_name == "kb_search" && e.status == "approved" &&
    e.returned_artifacts ≤ 1 && window_start ≤ e.created_at && e.query_text.isSome
  let by_phrase := misses.foldl (fun (d : Dict String (List RetrievalEvent)) e =>
    let phrase := normalize_phrase u (sanitize_query_text (e.query_text.getD ""))
    if phrase = "" then d else d.append_to phrase e) []
  (sorted (fun a b => str_le a.1 b.1) by_phrase).map fun (phrase, found) =>
    let times := found.map (·.created_at)
    { phrase
      first_seen := times.foldl min (times.headD 0)
      last_seen := times.foldl max 0
      miss_count := found.length
      confirmation_count := (found.map (·.created_date)).dedup.length }

/-- What a target path resolves to. -/
structure LedgerTarget where
  artifact_id : Uuid
  acl_teams : List String
  source_id : Uuid
deriving DecidableEq, Repr

/-- A live, titled artifact of a live source with a path, under its normalized title. -/
def ledger_candidate (u : Unicode) (entry : KnowledgeArtifact × SourceItem) :
    Option (String × String × KnowledgeArtifact × SourceItem) :=
  let (a, s) := entry
  match a.title, s.path with
  | some title, some path =>
    if a.artifact_type != .alias_reference && a.invalidated_at_seq.isNone && !s.is_deleted &&
        normalize_phrase u title ≠ "" then some (normalize_phrase u title, path, a, s)
    else none
  | _, _ => none

/-- The resolver's entries and, per path, the preferred artifact behind it. -/
def load_ledger_candidates (u : Unicode) (r : Registry) :
    List AliasEntry × Dict String (KnowledgeArtifact × LedgerTarget) :=
  let rows := r.joined.filterMap (ledger_candidate u)
  let entries := rows.map fun (alias_name, path, _) =>
    ({ alias_name, targets := [path], confirmation_count := 1 } : AliasEntry)
  let targets := rows.foldl (fun (d : Dict String (KnowledgeArtifact × LedgerTarget)) (_, path, a, s) =>
    let rank (a : KnowledgeArtifact) := target_type_rank a.artifact_type
    match d.get? path with
    | none => d.set path (a, ⟨a.artifact_id, s.acl_teams, s.source_id⟩)
    | some (best, _) =>
      if rank a < rank best || (rank a == rank best && a.artifact_id < best.artifact_id) then
        d.set path (a, ⟨a.artifact_id, s.acl_teams, s.source_id⟩)
      else d) []
  (sorted (fun a b => ((compare a.alias_name b.alias_name).then (compare a.targets b.targets)).isLE)
    entries, targets)

/-- The live alias rows this pass owns, by title; of several rows of a title the last one. -/
def ledger_rows (r : Registry) : Dict String KnowledgeArtifact :=
  r.artifacts.foldl (fun (d : Dict String KnowledgeArtifact) a =>
    match a.title with
    | some title =>
      if a.artifact_type == .alias_reference && a.invalidated_at_seq.isNone &&
          (parse_body a).any (·.ledger_mined) then d.set title a
      else d
    | none => d) []

/-- The titles of all live alias rows. -/
def alias_titles (r : Registry) : List String :=
  (r.artifacts.filter fun a =>
    a.artifact_type == .alias_reference && a.invalidated_at_seq.isNone).filterMap (·.title)

def ledger_body (u : Unicode) (group : MissGroup) (target_path : String) (artifact_id : Uuid) :
    AliasBody :=
  { phrase := group.phrase
    variants := phrase_variants u group.phrase
    confirmation_count := group.confirmation_count
    ledger_mined := true
    targets := [⟨target_path, some artifact_id, 1⟩]
    evidence := [.misses group.first_seen group.last_seen group.miss_count] }

/-- The alias one miss phrase asks for; `none` when it does not resolve, or when an alias of another
provenance already has its title. -/
def ledger_alias (u : Unicode) (entries : List AliasEntry)
    (targets : Dict String (KnowledgeArtifact × LedgerTarget)) (titles : List String)
    (owned : Dict String KnowledgeArtifact) (group : MissGroup) : Option DesiredAlias := do
  let target_path ← (← resolve u group.phrase entries).head?
  let (_, target) ← targets.get? target_path
  let wanted : DesiredAlias :=
    { phrase := group.phrase
      body := ledger_body u group target_path target.artifact_id
      search_text := alias_search_text u group.phrase
      acl_teams := commit_acl_intersection [target_path] [(target_path, target.acl_teams)]
      source_id := target.source_id }
  if titles.contains group.phrase && (owned.get? group.phrase).isNone then none else some wanted

/-- The aliases the misses of the window ask for. -/
def ledger_wanted (u : Unicode) (r : Registry) (events : List RetrievalEvent)
    (window_start : Timestamp) : List DesiredAlias :=
  let (entries, targets) := load_ledger_candidates u r
  (load_miss_groups u events window_start).filterMap
    (ledger_alias u entries targets (alias_titles r) (ledger_rows r))

/-- The owned rows no longer wanted. -/
def stale_ledger_aliases (wanted : List DesiredAlias) (owned : Dict String KnowledgeArtifact) :
    List Uuid :=
  (owned.filter fun (title, _) => !(wanted.any fun desired => desired.phrase == title)).map
    (·.2.artifact_id)

/-- Mine the misses of the query ledger into alias rows; the owned rows no longer wanted leave. -/
def run_ledger_alias_miner (p : Platform) (r : Registry) (kb_version : String) (valid_from_seq : Nat)
    (events : List RetrievalEvent) (window_start : Timestamp) : Registry :=
  let owned := ledger_rows r
  let wanted := ledger_wanted p.unicode r events window_start
  let r := wanted.foldl (fun r desired =>
    (write_alias p kb_version valid_from_seq false r (owned.get? desired.phrase) desired).1) r
  retire_aliases r valid_from_seq (stale_ledger_aliases wanted owned)

end AgenticKb
