import AgenticKb.Linker.WriteEdges

open AgenticKb.Lib

namespace AgenticKb

/-- `COALESCE(last_seen_at, created_at)`. -/
def SourceItem.last_recorded (s : SourceItem) : Timestamp := s.last_seen_at.getD s.created_at

/-- The live sources this build did not see and that were last recorded strictly before it started;
a later record belongs to a concurrent writer. -/
def vanished_live_sources (r : Registry) (seen_source_ids : List Uuid) (build_started_at : Timestamp) :
    List Uuid :=
  (r.source_items.filter fun s => !s.is_deleted && !seen_source_ids.contains s.source_id &&
    s.last_recorded < build_started_at).map (·.source_id)

/-- Soft-invalidate the live artifacts among `ids`. -/
def retire_artifacts (r : Registry) (ids : List Uuid) (invalidated_at_seq : Nat) : Registry :=
  { r with
    artifacts := update_where r.artifacts
      (fun a => ids.contains a.artifact_id && a.invalidated_at_seq.isNone) fun a =>
        { a with invalidated_at_seq := some invalidated_at_seq } }

def touches (ids : List Uuid) (e : KnowledgeEdge) : Bool :=
  ids.contains e.from_artifact_id || ids.contains e.to_artifact_id

def tombstone_sources (r : Registry) (ids : List Uuid) : Registry :=
  { r with
    source_items := update_where r.source_items (fun s => ids.contains s.source_id) fun s =>
      { s with is_deleted := true } }

/-- The unique indexes over the linker's and the judge's links. -/
def unique_links (edges : List KnowledgeEdge) : Bool :=
  [EdgeSource.linker, EdgeSource.llm_judge].all fun source =>
    decide ((edges.filter fun e => e.source == some source).map (·.key)).Nodup

/-- Set the `from` or the `to` endpoint of an edge. -/
def KnowledgeEdge.repoint (from_side : Bool) (new_artifact_id : Uuid) (e : KnowledgeEdge) :
    KnowledgeEdge :=
  if from_side then { e with from_artifact_id := new_artifact_id }
  else { e with to_artifact_id := new_artifact_id }

/-- One pass of `_reattach_edges`: the live edges with the old artifact on one side. A would-be
self-loop is retired, every other edge is repointed; a repointed link that another row of its
unique index already stands for raises. -/
def reattach_side (old_artifact_id new_artifact_id : Uuid) (build_seq : Nat) (r : Registry)
    (from_side : Bool) : Option Registry :=
  let column (e : KnowledgeEdge) := if from_side then e.from_artifact_id else e.to_artifact_id
  let other (e : KnowledgeEdge) := if from_side then e.to_artifact_id else e.from_artifact_id
  let r := retire_edges r build_seq fun e =>
    column e == old_artifact_id && other e == new_artifact_id
  let edges := update_where r.edges
    (fun e => e.invalidated_at_seq.isNone && column e == old_artifact_id &&
      other e != new_artifact_id)
    (·.repoint from_side new_artifact_id)
  if unique_links edges then some { r with edges } else none

/-- Repoint the live edges of the old artifact onto the new one. -/
def reattach_edges (r : Registry) (old_artifact_id new_artifact_id : Uuid) (build_seq : Nat) :
    Option Registry :=
  [true, false].foldlM (reattach_side old_artifact_id new_artifact_id build_seq) r

/-- One detected rename: an artifact of a vanished source and the new artifact with its content. -/
structure Rename where
  old_artifact_id : Uuid
  old_source_id : Uuid
  new_artifact_id : Uuid
deriving DecidableEq, Repr

/-- The live artifacts of the vanished sources by content hash; the first of each hash. -/
def old_by_hash (r : Registry) (vanished : List Uuid) : Dict String (Uuid × Uuid) :=
  r.artifacts.foldl (fun (d : Dict String (Uuid × Uuid)) a =>
    match a.content_hash with
    | some hash =>
      if vanished.contains a.source_id && a.invalidated_at_seq.isNone then
        d.setdefault hash (a.artifact_id, a.source_id)
      else d
    | none => d) []

/-- The renames of this build: each hash is matched once, by the first artifact introduced in this
build at a source that has not vanished. -/
def detected_renames (r : Registry) (vanished : List Uuid) (build_seq : Nat) : List Rename :=
  let old := old_by_hash r vanished
  let found := r.artifacts.foldl (fun (d : Dict String Rename) a =>
    match a.content_hash.bind fun hash => (old.get? hash).map fun entry => (hash, entry) with
    | some (hash, old_artifact_id, old_source_id) =>
      if a.valid_from_seq == build_seq && !vanished.contains a.source_id then
        d.setdefault hash ⟨old_artifact_id, old_source_id, a.artifact_id⟩
      else d
    | none => d) []
  found.map (·.2)

/-- Link the two identities, reattach the edges, retire the old artifact and tombstone its source. -/
def apply_rename (build_seq : Nat) (r : Registry) (rename : Rename) : Option Registry := do
  let r := { r with
    artifacts := update_where r.artifacts (fun a => a.artifact_id == rename.new_artifact_id) fun a =>
      { a with prior_identity_id := some rename.old_artifact_id } }
  let r ← reattach_edges r rename.old_artifact_id rename.new_artifact_id build_seq
  some (tombstone_sources (retire_artifacts r [rename.old_artifact_id] build_seq)
    [rename.old_source_id])

/-- Retire the generation and embedding cache rows of invalidated artifacts. -/
def retire_caches (r : Registry) (artifact_ids : List Uuid) : Registry :=
  { r with
    generation_cache_artifacts := r.generation_cache_artifacts.filter fun row =>
      !artifact_ids.contains row.artifact_id
    embedding_cache := r.embedding_cache.filter fun row => !artifact_ids.contains row.artifact_id }

/-- The live artifacts of some sources. -/
def live_artifact_ids (r : Registry) (source_ids : List Uuid) : List Uuid :=
  (r.artifacts.filter fun a =>
    source_ids.contains a.source_id && a.invalidated_at_seq.isNone).map (·.artifact_id)

/-- Tombstone the vanished sources; their live artifacts and the edges touching them leave. -/
def deletion_sweep (r : Registry) (build_seq : Nat) (source_ids : List Uuid) : Registry :=
  let artifact_ids := live_artifact_ids r source_ids
  let r := retire_artifacts (tombstone_sources r source_ids) artifact_ids build_seq
  retire_caches (retire_edges r build_seq (touches artifact_ids)) artifact_ids

/-- The live artifacts of the changed sources that an earlier build introduced. -/
def prior_generation (r : Registry) (build_seq : Nat) (changed_source_ids : List Uuid) : List Uuid :=
  (r.artifacts.filter fun a => changed_source_ids.contains a.source_id &&
    a.valid_from_seq < build_seq && a.invalidated_at_seq.isNone).map (·.artifact_id)

/-- The prior generation of the changed sources and the edges touching it leave. -/
def supersession_sweep (r : Registry) (build_seq : Nat) (changed_source_ids : List Uuid) : Registry :=
  let prior_ids := prior_generation r build_seq changed_source_ids
  retire_edges (retire_artifacts r prior_ids build_seq) build_seq (touches prior_ids)

/-- Copy the access list of each seen source onto its live artifacts. -/
def propagate_acl (r : Registry) (seen_source_ids : List Uuid) : Registry :=
  (r.source_items.filter fun s => seen_source_ids.contains s.source_id).foldl (fun r s =>
    { r with
      artifacts := update_where r.artifacts
        (fun a => a.source_id == s.source_id && a.invalidated_at_seq.isNone &&
          a.acl_teams != s.acl_teams) fun a => { a with acl_teams := s.acl_teams } }) r

/-- The four sub-passes, in order. A source with a detected rename is left out of the sweep. -/
def run_invalidation_pass (r : Registry) (build_seq : Nat)
    (seen_source_ids changed_source_ids : List Uuid) (build_started_at : Timestamp) :
    Option Registry := do
  let vanished := vanished_live_sources r seen_source_ids build_started_at
  let renames := detected_renames r vanished build_seq
  let r ← renames.foldlM (apply_rename build_seq) r
  let to_delete := vanished.filter fun id => !(renames.map (·.old_source_id)).contains id
  let r := deletion_sweep r build_seq to_delete
  let r := supersession_sweep r build_seq changed_source_ids
  some (propagate_acl r seen_source_ids)

end AgenticKb
