import Mathlib.Data.Rat.Defs
import AgenticKb.Lib.Table
import AgenticKb.Lib.Python

open AgenticKb.Lib

namespace AgenticKb

abbrev Uuid := Nat

/-- An instant of the database clock. -/
abbrev Timestamp := Nat

inductive SourceType where
  | github_code | github_doc | azure_wiki | ado_card | git_metadata
deriving DecidableEq, Repr

inductive ArtifactType where
  | code_file | code_symbol | endpoint | test
  | summary | concept | source_backed_fact | chunk
  | commit | alias_reference
deriving DecidableEq, Repr

inductive KnowledgeKind where
  | interpreted | source_backed
deriving DecidableEq, Repr

/-- The `edge_type` column; it is text, so a row may hold a name outside the ontology. -/
inductive EdgeType where
  | imports | calls | inherits | exposes | tests | documents | implements | mentions
  | exposed_as | requests | defined_in | uses | references | aliases
  | other (name : String)
deriving DecidableEq, Repr

inductive EdgeSource where
  | graphify | linker | llm_judge | alias_miner
deriving DecidableEq, Repr

inductive TrustClass where
  | EXTRACTED | INFERRED_HIGH | INFERRED_LOW | AMBIGUOUS | REJECTED
deriving DecidableEq, Repr

/-- The JSON objects that stand in `knowledge_edge.evidence`, one shape per writer. -/
inductive Evidence where
  | work_item_ref (matched : String)
  | commit_ref (matched : String)
  | changed_file (path : String)
  | quote (supporting_quote judge_prompt_version : String)
  | alias_target (phrase target_path : String) (sources : List String)
deriving DecidableEq, Repr

/-- A nullable JSONB column: SQL NULL, the JSON value `null`, or an object. -/
inductive Jsonb where
  | sql_null
  | json_null
  | object (evidence : Evidence)
deriving DecidableEq, Repr

/-- SQLAlchemy binds a Python value to a `JSONB` column declared without `none_as_null`: `None`
becomes the JSON value `null`, not SQL NULL. -/
def Jsonb.bind : Option Evidence → Jsonb
  | none => .json_null
  | some evidence => .object evidence

/-- Reading the column back: SQL NULL and JSON `null` are both `None` to Python. -/
def Jsonb.load : Jsonb → Option Evidence
  | .object evidence => some evidence
  | _ => none

/-- The SQL test `evidence IS NULL`. -/
def Jsonb.is_null : Jsonb → Bool
  | .sql_null => true
  | _ => false

@[simp] theorem Jsonb.is_null_bind (evidence : Option Evidence) :
    (Jsonb.bind evidence).is_null = false := by
  cases evidence <;> rfl

/-- One `evidence` entry of an alias body: a mined source, or the window of ledger misses. -/
inductive AliasEvidence where
  | mined (source ref content_hash : String) (targets : List String)
  | misses (first_seen last_seen : Timestamp) (miss_count : Nat)
deriving DecidableEq, Repr

structure AliasTarget where
  path : String
  artifact_id : Option Uuid
  count : Nat
deriving DecidableEq, Repr

/-- The JSON body of an `alias_reference` artifact. -/
structure AliasBody where
  phrase : String
  variants : List String
  confirmation_count : Nat
  ledger_mined : Bool
  targets : List AliasTarget
  evidence : List AliasEvidence
deriving DecidableEq, Repr

/-- `body_text`: plain text, or the serialised body of an alias row. -/
inductive BodyText where
  | text (s : String)
  | alias_body (body : AliasBody)
deriving DecidableEq, Repr

structure SourceItem where
  source_id : Uuid
  source_type : SourceType
  source_uri : String
  source_version : String
  repo : Option String
  branch : Option String
  path : Option String
  external_id : Option String
  content_hash : String
  last_seen_at : Option Timestamp
  acl_teams : List String
  is_deleted : Bool
  created_at : Timestamp
deriving DecidableEq, Repr

/-- A `knowledge_artifact` row. The last two fields are not columns: they are history variables
that record, for an artifact written from a source, what its writer saw. -/
structure KnowledgeArtifact extends Lifespan where
  artifact_id : Uuid
  artifact_type : ArtifactType
  source_id : Uuid
  title : Option String
  body_text : Option BodyText
  content_hash : Option String
  artifact_hash : Option String := none
  kb_version : String
  prior_identity_id : Option Uuid := none
  knowledge_kind : Option KnowledgeKind
  authority_score : Option Rat := none
  freshness_score : Option Rat := none
  span_start : Option Nat := none
  span_end : Option Nat := none
  search_text : Option String := none
  acl_teams : List String
  created_at : Timestamp
  /-- Content hash of the source the artifact was extracted from. -/
  made_from : Option String := none
  /-- The access list its writer computed. -/
  acl_at_write : List String := []
deriving DecidableEq, Repr

structure KnowledgeEdge extends Lifespan where
  edge_id : Uuid
  from_artifact_id : Uuid
  to_artifact_id : Uuid
  edge_type : EdgeType
  confidence : Option Rat
  source : Option EdgeSource
  kb_version : String
  trust_class : TrustClass
  relation_schema_version : Nat := 1
  evidence : Jsonb := .sql_null
deriving DecidableEq, Repr

structure GenerationCache where
  cache_key : String
  input_hash : String
  output_artifact_id : Option Uuid
deriving DecidableEq, Repr

structure GenerationCacheArtifact where
  cache_key : String
  artifact_id : Uuid
  position : Nat
deriving DecidableEq, Repr

structure EmbeddingCache where
  artifact_id : Uuid
  text_hash : String
  embedding_model : String
  embedding_hash : String
  embedding : Option (List Rat)
deriving DecidableEq, Repr

inductive RecallBucket where
  | high | medium | low
deriving DecidableEq, Repr

structure RelationshipCandidate where
  from_artifact_id : Uuid
  to_artifact_id : Uuid
  signals : Dict String Rat
  candidate_recall_bucket : RecallBucket
  kb_version : String
deriving DecidableEq, Repr

/-- The buckets the judge may assign; `EXTRACTED` is not among them. -/
inductive JudgeTrustBucket where
  | INFERRED_HIGH | INFERRED_LOW | AMBIGUOUS | REJECTED
deriving DecidableEq, Repr

/-- The judge's ruling on one candidate pair; its only relation is `documents`. -/
structure RelationshipJudgment where
  trust_bucket : JudgeTrustBucket
  supporting_quote : String
  reason : String
deriving DecidableEq, Repr

/-- A row of the judgment cache. Its columns are text, so a row may hold what no ruling does. -/
structure RelationshipJudgmentCache where
  relation_type : String
  trust_bucket : String
  supporting_quote : String
  reason : String
deriving DecidableEq, Repr

structure JudgmentCacheKey where
  hash_a : String
  hash_b : String
  relation_schema_version : Nat
  prompt_version : String
  model_version : String
deriving DecidableEq, Repr

inductive RunStatus where
  | running | completed | failed | validation_failed | active | superseded
deriving DecidableEq, Repr

structure KbBuildRun where
  build_id : Uuid
  kb_version : String
  build_seq : Nat
  status : RunStatus
  started_at : Timestamp
  extractor_failures : Nat := 0
  allow_large_delta : Bool := false
  failed_gate : Option String := none
  gate_measured_value : Option Rat := none
deriving DecidableEq, Repr

/-- The Postgres registry. `build_seq` is the sequence, `uuids` the number of random ids its rows
have been given, and `now` the start of the open transaction. -/
structure Registry where
  source_items : List SourceItem := []
  artifacts : List KnowledgeArtifact := []
  edges : List KnowledgeEdge := []
  generation_cache : List GenerationCache := []
  generation_cache_artifacts : List GenerationCacheArtifact := []
  embedding_cache : List EmbeddingCache := []
  candidates : List RelationshipCandidate := []
  judgments : Dict JudgmentCacheKey RelationshipJudgmentCache := []
  runs : List KbBuildRun := []
  build_seq : Nat := 0
  uuids : Nat := 0
  now : Timestamp := 0
deriving DecidableEq, Repr

/-- The registry after the migrations, before any build. -/
def Registry.empty : Registry := {}

/-- What the program takes from the platform under it: SHA-256, random ids and their text form,
`json.dumps` of an alias body and the Unicode tables. -/
structure Platform where
  content_hash : String → String
  gen_random_uuid : Nat → Uuid
  str_uuid : Uuid → String
  json_dumps : AliasBody → String
  unicode : Unicode

/-- A platform to run builds on small inputs: a digest is the text itself, random ids count up, a dump
spells out an alias body's phrase, count and targets, and text is ASCII. -/
def Platform.plain : Platform where
  content_hash text := text
  gen_random_uuid n := n
  str_uuid id := toString id
  json_dumps body := join " " (body.phrase :: toString body.confirmation_count :: body.targets.map (·.path))
  unicode := .ascii

/-- `body_text` as a string. -/
def Platform.body_string (p : Platform) : BodyText → String
  | .text s => s
  | .alias_body body => p.json_dumps body

/-- The next random id. -/
def Registry.fresh (p : Platform) (r : Registry) : Uuid := p.gen_random_uuid r.uuids

/-- Identity of one source item; mirrors the `source_item` columns. -/
structure SourceRef where
  source_type : SourceType
  source_uri : String
  source_version : String
  repo : Option String := none
  branch : Option String := none
  path : Option String := none
  external_id : Option String := none
  acl_teams : List String := []
deriving DecidableEq, Repr

/-- The wiki page of an address. -/
def SourceRef.page (uri : String) : SourceRef :=
  { source_type := .azure_wiki, source_uri := uri, source_version := "1" }

structure NormalizedContent where
  source : SourceRef
  text : String
  content_hash : String
deriving DecidableEq, Repr

end AgenticKb
