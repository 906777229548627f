import AgenticKb.Application.Build
import AgenticKb.Connectors.Backends
import AgenticKb.Domain.ContentHasher

open AgenticKb.Lib

namespace AgenticKb

/-- The host and the selection of a source entry, by its type. -/
inductive SourceKind where
  | github (spec : GithubSpec)
  | wiki (wiki : Wiki)
  | cards (query : WorkItemQuery)
deriving DecidableEq, Repr

/-- One entry of the source configuration. -/
structure SourceSpec where
  name : String
  enabled : Bool := true
  acl_teams : List String := []
  kind : SourceKind
  /-- `PathFilter.matches`: an include glob matches, and no exclude glob does. -/
  path_matches : String → Bool := fun _ => true

/-- The text a connector makes of what its backend read. -/
def normalize (nfc : String → String) (u : Unicode) : SourceType → String → String
  | .github_code => normalize_code
  | _ => normalize_text nfc u

section Collect

variable (nfc : String → String) (unicode : Unicode) (u : Upstream) (worlds : Nat → World)

/-- Drop the refs whose path fails the filter, and stamp the entry's teams on the others. -/
def filter_refs (spec : SourceSpec) (refs : List SourceRef) : List SourceRef :=
  (refs.filter fun ref => ref.path.all spec.path_matches).map fun ref => { ref with acl_teams := spec.acl_teams }

/-- The backend of an entry lists what it finds. -/
def backend_list_sources : SourceKind → StateT Nat Option Listing
  | .github spec => github_list_sources worlds spec
  | .wiki wiki => wiki_list_sources worlds wiki
  | .cards query => work_item_list_sources worlds query

/-- The connector of an entry lists its sources. -/
def list_sources (spec : SourceSpec) : StateT Nat Option Listing := do
  let listing ← backend_list_sources worlds spec.kind
  return { listing with refs := filter_refs spec listing.refs }

/-- The connector of an entry reads one source. -/
def fetch_text (spec : SourceSpec) (source : SourceRef) : StateT Nat Option String :=
  match spec.kind with
  | .github _ => github_fetch_text u worlds source
  | .wiki _ => wiki_fetch_text u worlds source
  | .cards _ => work_item_fetch_text u worlds source

/-- A source as it was read; `fetched_at` is a history variable. -/
structure Fetched where
  ref : SourceRef
  raw : String
  /-- The request that read it. -/
  fetched_at : Nat
deriving DecidableEq, Repr

/-- What the connectors of a build have answered so far. -/
structure Collected where
  entries : List Fetched := []
  /-- The requests made. -/
  clock : Nat := 0
  raised : Bool := false
  /-- Some connector knows that its listing is incomplete. -/
  partial_listing : Bool := false
deriving DecidableEq, Repr

/-- Read one source; an error ends the loop. -/
def fetch_ref (spec : SourceSpec) (c : Collected) (ref : SourceRef) : Collected :=
  if c.raised then c
  else match fetch_text u worlds spec ref c.clock with
    | some (raw, clock) => { c with entries := c.entries ++ [⟨ref, raw, c.clock⟩], clock }
    | none => { c with raised := true }

/-- List one entry, and read what it lists. -/
def collect_spec (c : Collected) (spec : SourceSpec) : Collected :=
  if c.raised then c
  else match list_sources worlds spec c.clock with
    | some (listing, clock) => listing.refs.foldl (fetch_ref u worlds spec)
        { c with clock, partial_listing := c.partial_listing || listing.partial_listing }
    | none => { c with raised := true }

/-- The enabled entries, in the order of the configuration. -/
def collect (specs : List SourceSpec) : Collected := (specs.filter (·.enabled)).foldl (collect_spec u worlds) {}

end Collect

/-- A commit of the workspace, rendered as text. -/
structure WorkspaceCommit where
  sha : String
  repo : Option String
  branch : Option String
  text : String
deriving DecidableEq, Repr

def WorkspaceCommit.ref (commit : WorkspaceCommit) : SourceRef :=
  { source_type := .git_metadata
    source_uri := "git:" ++ commit.sha
    source_version := commit.sha
    repo := commit.repo
    branch := commit.branch
    external_id := some commit.sha }

/-- One call of `run_build`: the configuration, the hosts while it runs, the commits of the workspace, and the
label and collaborators of the build. -/
structure BuildCall where
  specs : List SourceSpec
  worlds : Nat → World
  commits : List WorkspaceCommit := []
  base : Build

/-- The build the call comes to. A connector that raises interrupts it after the sources read so far. -/
def BuildCall.build (nfc : String → String) (unicode : Unicode) (u : Upstream) (call : BuildCall) : Build :=
  let collected := collect u call.worlds call.specs
  let entries := collected.entries.map fun entry => (entry.ref, normalize nfc unicode entry.ref.source_type entry.raw)
  if collected.raised then
    { call.base with listing := entries, fault := some (.after_sources entries.length) }
  else { call.base with listing := entries ++ call.commits.map fun commit => (commit.ref, commit.text) }

end AgenticKb
