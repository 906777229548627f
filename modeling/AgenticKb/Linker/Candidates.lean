import Mathlib.Algebra.Order.Ring.Unbundled.Rat
import AgenticKb.Linker.WriteEdges

open AgenticKb.Lib

namespace AgenticKb

def CANDIDATE_FAN_OUT_K : Nat := 10
def EMBEDDING_SIMILARITY_FLOOR : Rat := 80 / 100
def TOKEN_OVERLAP_FLOOR : Rat := 10 / 100
def SECTION_PROXIMITY_SCORE : Rat := 60 / 100
def PATH_COLOCATION_SCORE : Rat := 40 / 100
def HIGH_BUCKET_FLOOR : Rat := 70 / 100
def MEDIUM_BUCKET_FLOOR : Rat := 40 / 100
def EMBEDDING_TOP_K : Nat := 5

inductive ArtifactDomain where
  | commit | card | doc | code | other
deriving DecidableEq, Repr

def artifact_domain (artifact : LinkableArtifact) : ArtifactDomain :=
  if COMMIT_SOURCE_TYPES.contains artifact.source_type then .commit
  else if CARD_SOURCE_TYPES.contains artifact.source_type then .card
  else if DOC_SOURCE_TYPES.contains artifact.source_type then .doc
  else if CODE_ARTIFACT_TYPES.contains artifact.artifact_type || artifact.path.isSome then .code
  else .other

/-- Lowercased alphanumeric tokens of at least three characters. -/
def candidate_tokens (u : Unicode) (parts : List (Option String)) : List String :=
  (parts.flatMap fun part =>
    ((runs Char.isAlphanum (part.getD "")).filter fun t => 3 ≤ t.length).map u.lower).dedup

def token_overlap (a_tokens b_tokens : List String) : Rat :=
  let inter := (a_tokens.filter fun t => b_tokens.contains t).length
  if inter = 0 then 0 else (inter : Rat) / ((a_tokens ∪ b_tokens).length : Nat)

def dir_prefix (path : Option String) : Option String :=
  path.bind fun path => (rpartition path "/").map (·.1)

def candidate_bucket (score : Rat) : RecallBucket :=
  if HIGH_BUCKET_FLOOR ≤ score then .high
  else if MEDIUM_BUCKET_FLOOR ≤ score then .medium
  else .low

structure CandidateDraft where
  from_artifact_id : Uuid
  to_artifact_id : Uuid
  signals : Dict String Rat
  candidate_recall_bucket : RecallBucket
deriving DecidableEq, Repr

/-- `max(signals.values())`, or zero. -/
def signals_score (signals : Dict String Rat) : Rat :=
  match signals.map (·.2) with
  | [] => 0
  | score :: scores => scores.foldl max score

def CandidateDraft.score (draft : CandidateDraft) : Rat := signals_score draft.signals

/-- The signals gathered so far, by ordered pair. -/
abbrev Scratch := Dict (Uuid × Uuid) (Dict String Rat)

/-- `_Scratch.offer`: the strongest observation of a signal is kept. -/
def offer_signal (signals : Dict String Rat) (name : String) (score : Rat) : Dict String Rat :=
  if (signals.get? name).getD 0 < score then signals.set name score else signals

/-- Highest score first, then the smaller target. -/
def ranks_before (a b : CandidateDraft) : Bool :=
  b.score < a.score || (a.score == b.score && a.to_artifact_id ≤ b.to_artifact_id)

/-- Keep at most `CANDIDATE_FAN_OUT_K` candidates per `from` artifact. -/
def bound_fan_out (drafts : List CandidateDraft) : List CandidateDraft :=
  let from_ids := sorted (fun a b => decide (a ≤ b)) (drafts.map (·.from_artifact_id)).dedup
  let kept := from_ids.flatMap fun from_id =>
    (sorted ranks_before (drafts.filter fun d => d.from_artifact_id == from_id)).take
      CANDIDATE_FAN_OUT_K
  sorted (fun a b => a.from_artifact_id < b.from_artifact_id ||
    (a.from_artifact_id == b.from_artifact_id && a.to_artifact_id ≤ b.to_artifact_id)) kept

section Generate

variable (u : Unicode) (artifacts : List LinkableArtifact) (existing_pairs : List (Uuid × Uuid))

/-- Offer one signal of an ordered pair; a pair within one domain or already linked takes none. -/
def offer (scratch : Scratch) (from_a to_a : LinkableArtifact) (name : String) (score : Rat) :
    Scratch :=
  if from_a.artifact_id == to_a.artifact_id then scratch
  else if existing_pairs.contains (from_a.artifact_id, to_a.artifact_id) ||
      existing_pairs.contains (to_a.artifact_id, from_a.artifact_id) then scratch
  else if artifact_domain from_a == artifact_domain to_a then scratch
  else
    let pair := (from_a.artifact_id, to_a.artifact_id)
    scratch.set pair (offer_signal ((scratch.get? pair).getD []) name score)

/-- The embedding neighbours of every artifact. -/
def embedding_signals (provider : SimilarityProvider) (ordered : List LinkableArtifact)
    (scratch : Scratch) : Scratch :=
  ordered.foldl (fun scratch artifact =>
    (provider artifact.artifact_id EMBEDDING_TOP_K).foldl (fun scratch candidate =>
      match artifacts.find? fun a => a.artifact_id == candidate.artifact_id with
      | some to_a =>
        if candidate.similarity < EMBEDDING_SIMILARITY_FLOOR then scratch
        else offer existing_pairs scratch artifact to_a "embedding_similarity" candidate.similarity
      | none => scratch) scratch) scratch

/-- The token, section and path signals of one ordered pair. -/
def pair_signals (from_a : LinkableArtifact) (scratch : Scratch) (to_a : LinkableArtifact) : Scratch :=
  if to_a.artifact_id == from_a.artifact_id then scratch
  else
    let tokens (a : LinkableArtifact) := candidate_tokens u [a.title, a.path, a.external_id]
    let overlap := token_overlap (tokens from_a) (tokens to_a)
    let scratch :=
      if TOKEN_OVERLAP_FLOOR ≤ overlap then
        offer existing_pairs scratch from_a to_a "token_overlap" overlap
      else scratch
    let name := if to_a.path.getD "" = "" then to_a.title.getD "" else to_a.path.getD ""
    let needle := u.lower name
    let body_lower := u.lower (from_a.body_text.getD "")
    let scratch :=
      if 4 ≤ needle.length && body_lower ≠ "" && contains body_lower needle then
        offer existing_pairs scratch from_a to_a "section_proximity" SECTION_PROXIMITY_SCORE
      else scratch
    if ( dir_prefix from_a.path).isSome && dir_prefix from_a.path == dir_prefix to_a.path then
      offer existing_pairs scratch from_a to_a "path_colocation" PATH_COLOCATION_SCORE
    else scratch

/-- Bounded, deterministic cross-domain candidates. -/
def generate_candidates (similarity : Option SimilarityProvider) : List CandidateDraft :=
  let ordered := sorted (fun a b => decide (a.artifact_id ≤ b.artifact_id)) artifacts
  let scratch := match similarity with
    | some provider => embedding_signals artifacts existing_pairs provider ordered []
    | none => []
  let scratch := ordered.foldl (fun scratch from_a =>
    ordered.foldl (pair_signals u existing_pairs from_a) scratch) scratch
  bound_fan_out <| (scratch.filter fun entry => !entry.2.isEmpty).map fun ((from_id, to_id), signals) =>
    { from_artifact_id := from_id, to_artifact_id := to_id
      signals := sorted (fun a b => str_le a.1 b.1) signals
      candidate_recall_bucket := candidate_bucket (signals_score signals) }

end Generate

/-- The pairs a live linker edge joins. -/
def live_linker_pairs (r : Registry) : List (Uuid × Uuid) :=
  (r.edges.filter fun e => e.source == some .linker && e.invalidated_at_seq.isNone).map fun e =>
    (e.from_artifact_id, e.to_artifact_id)

def upsert_candidate (kb_version : String) (rows : List RelationshipCandidate)
    (draft : CandidateDraft) : List RelationshipCandidate :=
  let same (row : RelationshipCandidate) := row.from_artifact_id == draft.from_artifact_id &&
    row.to_artifact_id == draft.to_artifact_id && row.kb_version == kb_version
  if rows.any same then
    update_where rows same fun row =>
      { row with
        signals := draft.signals, candidate_recall_bucket := draft.candidate_recall_bucket }
  else
    rows ++ [{ from_artifact_id := draft.from_artifact_id, to_artifact_id := draft.to_artifact_id
               signals := draft.signals
               candidate_recall_bucket := draft.candidate_recall_bucket, kb_version }]

/-- Generate the candidates of this label and prune those no longer produced. It writes no edge. -/
def run_candidate_generator (p : Platform) (r : Registry) (kb_version : String)
    (similarity : Option SimilarityProvider) : Registry :=
  let drafts :=
    generate_candidates p.unicode (load_linkable_artifacts p r) (live_linker_pairs r) similarity
  let rows := drafts.foldl (upsert_candidate kb_version) r.candidates
  { r with
    candidates := rows.filter fun row =>
      row.kb_version != kb_version || drafts.any fun d =>
        d.from_artifact_id == row.from_artifact_id && d.to_artifact_id == row.to_artifact_id }

end AgenticKb
