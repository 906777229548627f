import AgenticKb.Effects.DurableOutputs
import AgenticKb.Effects.Build

open AgenticKb.Lib

namespace AgenticKb.Durable

variable {p : Platform} {gate : GenerationGate} {s : DurableBuild} {builds later : List DurableBuild}

/-- The durable tables after a sequence of builds. -/
def spent (p : Platform) (gate : GenerationGate) (builds : List DurableBuild) : Outputs :=
  ((history p gate builds).run {}).2

/-- The storage refuses none of the build's statements; it may still raise. -/
def Serves (s : DurableBuild) : Prop := ∀ n, s.taken n ≠ .refused

/-- What both tables go through. -/
structure Spends (served : Prop) (d d' : Outputs) : Prop where
  documents : Memo.Used served d.doc_extraction_output d'.doc_extraction_output
  vectors : Memo.Used served d.embedding_output d'.embedding_output

theorem Spends.refl (served : Prop) (d : Outputs) : Spends served d d := ⟨.refl _ _, .refl _ _⟩

theorem Spends.trans {served : Prop} (d e f : Outputs) (h : Spends served d e) (h' : Spends served e f) :
    Spends served d f := ⟨h.documents.trans h'.documents, h.vectors.trans h'.vectors⟩

section Spends

variable {served : Prop} (hserved : served → Serves s)

include hserved in
theorem extract_once_spends (fetched : NormalizedContent) :
    Goes (Spends served) (extract_once p s fetched).run := by
  intro d
  obtain ⟨-, hdocuments, hvectors⟩ := @extract_once_run p s d fetched
  constructor
  case documents =>
    rw [hdocuments]
    exact Memo.request_used (fun h => hserved h _) _ _ _ _
  case vectors =>
    rw [hvectors]
    exact .refl _ _

include hserved in
theorem embed_once_spends (text : String) : Goes (Spends served) (embed_once p s text).run := by
  intro d
  obtain ⟨-, hvectors, hdocuments⟩ := @embed_once_run p s d text
  constructor
  case documents =>
    rw [hdocuments]
    exact .refl _ _
  case vectors =>
    rw [hvectors]
    exact Memo.request_used (fun h => hserved h _) _ _ _ _

end Spends

/-- A sequence of builds, from any registry. -/
theorem builds_spend {served : Prop} (hserved : served → ∀ s ∈ builds, Serves s) (r : Registry) :
    Goes (Spends served) (builds.foldlM (next p gate) r) := by
  induction builds generalizing r with
  | nil => exact Spends.refl served
  | cons s builds ih =>
    rw [List.foldlM_cons]
    apply Goes.bind Spends.trans
    · have hs (h : served) : Serves s := hserved h s List.mem_cons_self
      exact next_goes (Spends.refl served) Spends.trans (extract_once_spends hs) (embed_once_spends hs) r
    · exact fun r => ih (fun h s hs => hserved h s (List.mem_cons_of_mem _ hs)) r

theorem spent_append : Spends (∀ s ∈ later, Serves s) (spent p gate builds) (spent p gate (builds ++ later)) := by
  have happend : spent p gate (builds ++ later) =
      ((later.foldlM (next p gate) ((history p gate builds).run {}).1).run (spent p gate builds)).2 := by
    rw [spent, history, List.foldlM_append]
    rfl
  rw [happend]
  exact builds_spend id _ _

/-- Through crashes, rollbacks and outages: a document and a text are paid for once, and once more for
each answer that failed to come, to be stored or to be read back. What is stored stays, and later builds
over a storage that serves them pay nothing for it. -/
theorem outputs_paid_once (p : Platform) (gate : GenerationGate) (builds later : List DurableBuild) :
    ((spent p gate builds).doc_extraction_output.Thrifty ∧ (spent p gate builds).embedding_output.Thrifty) ∧
      ((spent p gate builds).doc_extraction_output.Grows (spent p gate (builds ++ later)).doc_extraction_output ∧
        (spent p gate builds).embedding_output.Grows (spent p gate (builds ++ later)).embedding_output) ∧
      ((∀ s ∈ later, Serves s) →
        (spent p gate builds).doc_extraction_output.Rests (spent p gate (builds ++ later)).doc_extraction_output ∧
          (spent p gate builds).embedding_output.Rests (spent p gate (builds ++ later)).embedding_output) := by
  have hall : Spends False {} (spent p gate builds) := builds_spend False.elim Registry.empty {}
  have hlater := @spent_append p gate builds later
  refine ⟨⟨hall.documents.thrifty Memo.thrifty_empty, hall.vectors.thrifty Memo.thrifty_empty⟩,
    ⟨hlater.documents.toGrows, hlater.vectors.toGrows⟩, ?_⟩
  intro hserved
  exact ⟨hlater.documents.rests hserved, hlater.vectors.rests hserved⟩

section Transparency

variable {documents : String → Option (List DocArtifactDraft)} {vectors : String × String → Option (List Rat × String)}

/-- The models answer each key alike, whenever they are asked, and the storage turns statements down but
raises into none. -/
structure Steady (p : Platform) (documents : String → Option (List DocArtifactDraft))
    (vectors : String × String → Option (List Rat × String)) (s : DurableBuild) : Prop where
  taken : ∀ n, s.taken n ≠ .raised
  extract : ∀ n fetched, s.extract n fetched = documents (generation_key p s.build fetched)
  embed : ∀ n text, s.embed n text = vectors (p.content_hash text, s.build.embedding_model)
  build_extract : ∀ fetched, s.build.extract fetched = documents (generation_key p s.build fetched)
  build_embed : ∀ text, s.build.embed text = vectors (p.content_hash text, s.build.embedding_model)

/-- Every stored output is what its model answers. -/
structure Truthful (documents : String → Option (List DocArtifactDraft))
    (vectors : String × String → Option (List Rat × String)) (d : Outputs) : Prop where
  documents : d.doc_extraction_output.Holds (·.output_json) documents
  vectors : d.embedding_output.Holds (fun row => (row.embedding, row.embedding_hash)) vectors

theorem extract_once_agrees (hs : Steady p documents vectors s) (fetched : NormalizedContent) :
    Agrees (Truthful documents vectors) (extract_once p s fetched).run (s.build.extract fetched) := by
  intro d hd
  obtain ⟨hresult, hdocuments, hvectors⟩ := @extract_once_run p s d fetched
  have hanswer : ((s.extract d.extractions fetched).map (output_row s fetched)).map (·.output_json) =
      documents (generation_key p s.build fetched) := by
    rw [hs.extract, Option.map_map]
    exact Option.map_id'
  constructor
  case left =>
    rw [hresult, hs.build_extract, requested_doc]
    exact Memo.request_fst hd.documents hanswer (hs.taken _) (hs.taken _)
  case right =>
    constructor
    case documents =>
      rw [hdocuments]
      exact (Memo.request_spec _ _ _ _ _).holds hanswer hd.documents
    case vectors =>
      rw [hvectors]
      exact hd.vectors

theorem embed_once_agrees (hs : Steady p documents vectors s) (text : String) :
    Agrees (Truthful documents vectors) (embed_once p s text).run (s.build.embed text) := by
  intro d hd
  obtain ⟨hresult, hvectors, hdocuments⟩ := @embed_once_run p s d text
  have hanswer : ((s.embed d.embeddings text).map vector_row).map (fun row => (row.embedding, row.embedding_hash)) =
      vectors (p.content_hash text, s.build.embedding_model) := by
    rw [hs.embed, Option.map_map]
    exact Option.map_id'
  constructor
  case left =>
    rw [hresult, hs.build_embed, requested_vector]
    exact Memo.request_fst hd.vectors hanswer (hs.taken _) (hs.taken _)
  case right =>
    constructor
    case documents =>
      rw [hdocuments]
      exact hd.documents
    case vectors =>
      rw [hvectors]
      exact (Memo.request_spec _ _ _ _ _).holds hanswer hd.vectors

/-- A sequence of builds, from any registry. -/
theorem builds_agree (hs : ∀ s ∈ builds, Steady p documents vectors s) (r : Registry) :
    Agrees (Truthful documents vectors) (builds.foldlM (next p gate) r)
      ((builds.map (·.build)).foldl (AgenticKb.next p gate) r) := by
  induction builds generalizing r with
  | nil => exact Agrees.pure r
  | cons s builds ih =>
    rw [List.foldlM_cons, List.map_cons, List.foldl_cons]
    have hhead := hs s List.mem_cons_self
    apply Agrees.bind (next_agrees (extract_once_agrees hhead) (embed_once_agrees hhead) r)
    exact ih (fun s hmem => hs s (List.mem_cons_of_mem _ hmem)) _

/-- The cache is an optimization: however much of it is refused or missing, the builds write what they
write without it. -/
theorem outputs_transparent (p : Platform) (gate : GenerationGate) (builds : List DurableBuild)
    (documents : String → Option (List DocArtifactDraft)) (vectors : String × String → Option (List Rat × String))
    (hs : ∀ s ∈ builds, Steady p documents vectors s) :
    ((history p gate builds).run {}).1 = AgenticKb.history p gate (builds.map (·.build)) :=
  (builds_agree hs Registry.empty {} ⟨Memo.holds_empty _ _, Memo.holds_empty _ _⟩).1

/-- The output for a page is paid for and stored, and the index then refuses its artifact; the next build starts over
with the output that is stored. -/
def page_retried : List DurableBuild :=
  let summary (_ : NormalizedContent) : Option (List DocArtifactDraft) := some [⟨.summary, none, "a page", 1, 1⟩]
  [{ build := { page_build [("d", "A")] with extract := summary, upsert_documents := fun _ => false }
     extract := fun _ => summary, embed := fun _ _ => some ([], "") },
   { build := { page_build [("d", "A")] with extract := summary }
     extract := fun _ => summary, embed := fun _ _ => some ([], "") }]

/-- The model is asked once, and the second build publishes what it would have paid for. -/
theorem outputs_transparent_retried :
    ((history .plain cached_generation page_retried).run {}).2.extractions = 1 ∧
    (AgenticKb.history .plain cached_generation (page_retried.map (·.build))).artifacts.length = 1 ∧
    ((history .plain cached_generation page_retried).run {}).1 =
      AgenticKb.history .plain cached_generation (page_retried.map (·.build)) := by
  refine ⟨by decide +kernel, by decide +kernel, ?_⟩
  refine outputs_transparent .plain cached_generation page_retried (fun _ => some [⟨.summary, none, "a page", 1, 1⟩])
    (fun _ => some ([], "")) ?_
  intro s hs
  cases hs with
  | head => exact ⟨fun _ h => (nomatch h), fun _ _ => rfl, fun _ _ => rfl, fun _ => rfl, fun _ => rfl⟩
  | tail _ hs =>
    cases hs with
    | head => exact ⟨fun _ h => (nomatch h), fun _ _ => rfl, fun _ _ => rfl, fun _ => rfl, fun _ => rfl⟩
    | tail _ hs => cases hs

end Transparency

end AgenticKb.Durable
