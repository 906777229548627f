import AgenticKb.Domain.Drafts

open AgenticKb.Lib

namespace AgenticKb

def compose_key (p : Platform) (kind : String) (parts : List String) : String :=
  p.content_hash (join "\x1f" (kind :: parts))

def doc_extract_cache_key (p : Platform) (source_content_hash doc_extract_prompt_version model_name
    model_params_hash output_schema_version : String) : String :=
  compose_key p "doc_extract"
    [source_content_hash, doc_extract_prompt_version, model_name, model_params_hash,
      output_schema_version]

namespace GenerationCacheGate

def lookup (r : Registry) (cache_key : String) : Option GenerationCache :=
  r.generation_cache.find? fun row => row.cache_key == cache_key

/-- All output artifact ids of a cache row, in generation order. -/
def lookup_artifact_ids (r : Registry) (cache_key : String) : List Uuid :=
  (sorted (fun a b => decide (a.position ≤ b.position))
    (r.generation_cache_artifacts.filter fun row => row.cache_key == cache_key)).map
    (·.artifact_id)

/-- One row of the mapping insert: a pair that is there already is left alone, a position another
artifact holds violates the unique constraint and raises. -/
def insert_mapping (rows : List GenerationCacheArtifact) (row : GenerationCacheArtifact) :
    Option (List GenerationCacheArtifact) :=
  if rows.any fun old => old.cache_key == row.cache_key && old.artifact_id == row.artifact_id then
    some rows
  else if rows.any fun old => old.cache_key == row.cache_key && old.position == row.position then
    none
  else some (rows ++ [row])

def record (r : Registry) (cache_key input_hash : String) (output_artifact_ids : List Uuid) :
    Option Registry := do
  let generation_cache :=
    if r.generation_cache.any fun row => row.cache_key == cache_key then r.generation_cache
    else r.generation_cache ++ [{ cache_key, input_hash, output_artifact_id := output_artifact_ids.head? }]
  let generation_cache_artifacts ← (output_artifact_ids.zipIdx).foldlM
    (fun rows (artifact_id, position) => insert_mapping rows { cache_key, artifact_id, position })
    r.generation_cache_artifacts
  some { r with generation_cache, generation_cache_artifacts }

end GenerationCacheGate

namespace EmbeddingCacheGate

def same_key (artifact_id : Uuid) (text_hash embedding_model : String) (row : EmbeddingCache) : Bool :=
  row.artifact_id == artifact_id && row.text_hash == text_hash &&
    row.embedding_model == embedding_model

/-- A row without its vector counts as a miss, so that the vector is backfilled once. -/
def lookup (r : Registry) (artifact_id : Uuid) (text_hash embedding_model : String) :
    Option EmbeddingCache :=
  (r.embedding_cache.find? (same_key artifact_id text_hash embedding_model)).filter
    (·.embedding.isSome)

/-- A vector-bearing record backfills the row of its key. -/
def record (r : Registry) (artifact_id : Uuid) (text_hash embedding_model embedding_hash : String)
    (embedding : List Rat) : Registry :=
  { r with
    embedding_cache :=
      if r.embedding_cache.any (same_key artifact_id text_hash embedding_model) then
        update_where r.embedding_cache (same_key artifact_id text_hash embedding_model) fun row =>
          { row with embedding_hash, embedding := some embedding }
      else
        r.embedding_cache ++
          [{ artifact_id, text_hash, embedding_model, embedding_hash, embedding := some embedding }] }

end EmbeddingCacheGate

end AgenticKb
