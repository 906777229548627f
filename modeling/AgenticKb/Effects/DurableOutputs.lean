import AgenticKb.Application.DurableOutputs

open AgenticKb.Lib

namespace AgenticKb.Durable

/-! What a build does to the durable tables: it reaches them through the two paid requests only. -/

variable {p : Platform} {gate : GenerationGate} {s : DurableBuild} {d : Outputs}

section Requests

/-- A document's request, as the table of documents sees it. -/
def requested_doc (p : Platform) (s : DurableBuild) (d : Outputs) (fetched : NormalizedContent) :
    Option DocExtractionOutput × Memo String DocExtractionOutput :=
  d.doc_extraction_output.request (s.taken d.statements) (s.taken (d.statements + 1))
    ((s.extract d.extractions fetched).map (output_row s fetched)) (generation_key p s.build fetched)

theorem extract_once_run (fetched : NormalizedContent) :
    ((extract_once p s fetched).run.run d).1 = (requested_doc p s d fetched).1.map (·.output_json) ∧
      ((extract_once p s fetched).run.run d).2.doc_extraction_output = (requested_doc p s d fetched).2 ∧
      ((extract_once p s fetched).run.run d).2.embedding_output = d.embedding_output := by
  unfold requested_doc
  cases hread : d.doc_extraction_output.read (s.taken d.statements) (generation_key p s.build fetched) with
  | mk row table =>
    have hget : (get_doc_extraction s (generation_key p s.build fetched)).run.run d =
        (row.map (·.map (·.output_json)), { d with doc_extraction_output := table, statements := d.statements + 1 }) := by
      simp only [get_doc_extraction, OptionT.run_mk, StateT.run, hread]
    rw [Memo.request, hread]
    cases row with
    | none =>
      rw [extract_once, Lasting.once_failed hget]
      exact ⟨rfl, rfl, rfl⟩
    | some row =>
      cases row with
      | some row =>
        rw [extract_once, Lasting.once_found hget]
        exact ⟨rfl, rfl, rfl⟩
      | none =>
        have hcall : (call_extractor p s fetched).run.run
            { d with doc_extraction_output := table, statements := d.statements + 1 } =
              (s.extract d.extractions fetched, _) := rfl
        cases hanswer : s.extract d.extractions fetched with
        | none =>
          rw [hanswer] at hcall
          rw [extract_once, Lasting.once_unmade hget hcall]
          exact ⟨rfl, rfl, rfl⟩
        | some drafts =>
          have hmap (stored : Option Unit) : (stored.map fun _ => drafts) =
              (stored.map fun _ => output_row s fetched drafts).map (·.output_json) := by cases stored <;> rfl
          rw [hanswer] at hcall
          rw [extract_once, Lasting.once_made hget hcall rfl]
          exact ⟨hmap _, rfl, rfl⟩

/-- The row a vector is stored in. -/
def vector_row (result : List Rat × String) : EmbeddingOutput :=
  { embedding := result.1, embedding_hash := result.2 }

/-- A text's request, as the table of vectors sees it. -/
def requested_vector (p : Platform) (s : DurableBuild) (d : Outputs) (text : String) :
    Option EmbeddingOutput × Memo (String × String) EmbeddingOutput :=
  d.embedding_output.request (s.taken d.statements) (s.taken (d.statements + 1))
    ((s.embed d.embeddings text).map vector_row) (p.content_hash text, s.build.embedding_model)

theorem embed_once_run (text : String) :
    ((embed_once p s text).run.run d).1 =
        (requested_vector p s d text).1.map (fun row => (row.embedding, row.embedding_hash)) ∧
      ((embed_once p s text).run.run d).2.embedding_output = (requested_vector p s d text).2 ∧
      ((embed_once p s text).run.run d).2.doc_extraction_output = d.doc_extraction_output := by
  unfold requested_vector
  cases hread : d.embedding_output.read (s.taken d.statements) (p.content_hash text, s.build.embedding_model) with
  | mk row table =>
    have hget : (get_embedding s (p.content_hash text) s.build.embedding_model).run.run d =
        (row.map (·.map fun row => (row.embedding, row.embedding_hash)),
          { d with embedding_output := table, statements := d.statements + 1 }) := by
      simp only [get_embedding, OptionT.run_mk, StateT.run, hread]
    rw [Memo.request, hread]
    cases row with
    | none =>
      rw [embed_once, Lasting.once_failed hget]
      exact ⟨rfl, rfl, rfl⟩
    | some row =>
      cases row with
      | some row =>
        rw [embed_once, Lasting.once_found hget]
        exact ⟨rfl, rfl, rfl⟩
      | none =>
        have hcall : (call_embedder p s text).run.run
            { d with embedding_output := table, statements := d.statements + 1 } = (s.embed d.embeddings text, _) := rfl
        cases hanswer : s.embed d.embeddings text with
        | none =>
          rw [hanswer] at hcall
          rw [embed_once, Lasting.once_unmade hget hcall]
          exact ⟨rfl, rfl, rfl⟩
        | some result =>
          have hmap (stored : Option Unit) : (stored.map fun _ => result) =
              (stored.map fun _ => vector_row result).map (fun row => (row.embedding, row.embedding_hash)) := by
            cases stored <;> rfl
          rw [hanswer] at hcall
          rw [embed_once, Lasting.once_made hget hcall rfl]
          exact ⟨hmap _, rfl, rfl⟩

end Requests

section Goes

variable {R : Outputs → Outputs → Prop} (hrefl : ∀ d, R d d) (htrans : ∀ d e f, R d e → R e f → R d f)
  (hextract : ∀ fetched, Goes R (extract_once p s fetched).run) (hembed : ∀ text, Goes R (embed_once p s text).run)

include hrefl htrans hextract in
theorem docify_gated_goes (r : Registry) (fetched : NormalizedContent) (source_id : Uuid) :
    Goes R (docify_gated p gate s r fetched source_id).run := by
  unfold docify_gated
  cases gate.lookup r (generation_key p s.build fetched) with
  | some ids => exact Goes.pure hrefl _
  | none =>
    apply Goes.run_bind hrefl htrans (hextract fetched)
    intro drafts
    exact Goes.run_bind hrefl htrans (Goes.of hrefl _) fun _ => Goes.pure hrefl _

include hrefl htrans hembed in
theorem embed_gated_goes (r : Registry) (artifact_id : Uuid) : Goes R (embed_gated p s r artifact_id).run := by
  unfold embed_gated
  cases (r.artifacts.find? fun a => a.artifact_id == artifact_id).bind (·.body_text) with
  | none => exact Goes.pure hrefl _
  | some body =>
    dsimp only
    cases EmbeddingCacheGate.lookup r artifact_id (p.content_hash (p.body_string body)) s.build.embedding_model with
    | some row => exact Goes.pure hrefl _
    | none => exact Goes.run_bind hrefl htrans (hembed _) fun _ => Goes.pure hrefl _

include hrefl htrans hembed in
theorem embed_and_index_goes (r : Registry) (artifact_ids : List Uuid) :
    Goes R (embed_and_index p s r artifact_ids).run :=
  Goes.run_bind hrefl htrans (Goes.run_foldlM hrefl htrans (embed_gated_goes hrefl htrans hembed) artifact_ids r)
    fun _ => Goes.of hrefl _

include hrefl htrans hextract hembed in
theorem process_changed_source_goes (r : Registry) (fetched : NormalizedContent) :
    Goes R (process_changed_source p gate s r fetched).run := by
  unfold process_changed_source
  cases fetched.source.source_type == .git_metadata with
  | true =>
    exact Goes.run_bind hrefl htrans (embed_and_index_goes hrefl htrans hembed _ _) fun _ => Goes.pure hrefl _
  | false =>
    apply Goes.run_bind hrefl htrans (docify_gated_goes hrefl htrans hextract _ _ _)
    intro written
    exact Goes.run_bind hrefl htrans (embed_and_index_goes hrefl htrans hembed _ _) fun _ => Goes.pure hrefl _

include hrefl htrans hextract hembed in
theorem process_source_goes (l : SourceLoop) (fetched : NormalizedContent) :
    Goes R (process_source p gate s l fetched) := by
  unfold process_source
  split
  · exact Goes.pure hrefl _
  · split
    · exact Goes.pure hrefl _
    · apply Goes.bind htrans (process_changed_source_goes hrefl htrans hextract hembed l.current fetched)
      intro processed
      cases processed with
      | none => exact Goes.pure hrefl _
      | some processed => exact Goes.pure hrefl _

include hrefl htrans hembed in
theorem graphify_one_repo_goes (l : SourceLoop) (entry : String × List CodeUnit) :
    Goes R (graphify_one_repo p s l entry).run := by
  cases entry with
  | mk repo units =>
    unfold graphify_one_repo
    dsimp only
    cases s.build.graphify_tree (units.map fun unit => (unit.path, unit.fetched.text)) with
    | none => exact Goes.pure hrefl _
    | some result =>
      have hwrite : Goes R (write_repo_artifacts p s l repo units result.artifacts).run :=
        Goes.run_bind hrefl htrans (embed_and_index_goes hrefl htrans hembed _ _) fun _ => Goes.pure hrefl _
      apply Goes.run_bind hrefl htrans hwrite
      intro written
      exact Goes.run_bind hrefl htrans (Goes.of hrefl _) fun _ => Goes.pure hrefl _

include hrefl htrans hextract hembed in
theorem process_sources_goes (r : Registry) : Goes R (process_sources p gate s r) := by
  have hloop (fetched : List NormalizedContent) (l : SourceLoop) : Goes R (fetched.foldlM (process_source p gate s) l) :=
    Goes.foldlM hrefl htrans (process_source_goes hrefl htrans hextract hembed) fetched l
  unfold process_sources
  dsimp only
  split
  · exact Goes.bind htrans (hloop _ _) fun _ => Goes.pure hrefl _
  · apply Goes.bind htrans (hloop _ _)
    intro l
    split
    · split
      · exact Goes.pure hrefl _
      · apply Goes.bind htrans (Goes.run_foldlM hrefl htrans (graphify_one_repo_goes hrefl htrans hembed) _ _)
        intro graph
        cases graph with
        | none => exact Goes.pure hrefl _
        | some l => exact Goes.pure hrefl _
    · exact Goes.pure hrefl _

include hrefl htrans hextract hembed in
/-- What the two paid requests keep, a whole build keeps. -/
theorem next_goes (r : Registry) : Goes R (next p gate r s) :=
  Goes.bind htrans
    (Goes.bind htrans (process_sources_goes hrefl htrans hextract hembed _) fun _ => Goes.pure hrefl _)
    fun _ => Goes.pure hrefl _

end Goes

section Agrees

variable {Good : Outputs → Prop} (hextract : ∀ fetched, Agrees Good (extract_once p s fetched).run (s.build.extract fetched))
  (hembed : ∀ text, Agrees Good (embed_once p s text).run (s.build.embed text))

include hextract in
theorem docify_gated_agrees (r : Registry) (fetched : NormalizedContent) (source_id : Uuid) :
    Agrees Good (docify_gated p gate s r fetched source_id).run
      (AgenticKb.docify_gated p gate s.build r fetched source_id) := by
  unfold docify_gated AgenticKb.docify_gated
  cases gate.lookup r (generation_key p s.build fetched) with
  | some ids => exact Agrees.pure _
  | none =>
    apply Agrees.run_bind (hextract fetched)
    intro drafts
    exact Agrees.run_bind (Agrees.of _) fun _ => Agrees.pure _

include hembed in
theorem embed_gated_agrees (r : Registry) (artifact_id : Uuid) :
    Agrees Good (embed_gated p s r artifact_id).run (AgenticKb.embed_gated p s.build r artifact_id) := by
  unfold embed_gated AgenticKb.embed_gated
  cases (r.artifacts.find? fun a => a.artifact_id == artifact_id).bind (·.body_text) with
  | none => exact Agrees.pure _
  | some body =>
    dsimp only
    cases EmbeddingCacheGate.lookup r artifact_id (p.content_hash (p.body_string body)) s.build.embedding_model with
    | some row => exact Agrees.pure _
    | none => exact Agrees.run_bind (hembed _) fun _ => Agrees.pure _

include hembed in
theorem embed_and_index_agrees (r : Registry) (artifact_ids : List Uuid) :
    Agrees Good (embed_and_index p s r artifact_ids).run (AgenticKb.embed_and_index p s.build r artifact_ids) :=
  Agrees.run_bind (Agrees.run_foldlM (embed_gated_agrees hembed) artifact_ids r) fun _ => Agrees.of _

include hextract hembed in
theorem process_changed_source_agrees (r : Registry) (fetched : NormalizedContent) :
    Agrees Good (process_changed_source p gate s r fetched).run
      (AgenticKb.process_changed_source p gate s.build r fetched) := by
  unfold process_changed_source AgenticKb.process_changed_source
  cases fetched.source.source_type == .git_metadata with
  | true => exact Agrees.run_bind (embed_and_index_agrees hembed _ _) fun _ => Agrees.pure _
  | false =>
    apply Agrees.run_bind (docify_gated_agrees hextract _ _ _)
    intro written
    exact Agrees.run_bind (embed_and_index_agrees hembed _ _) fun _ => Agrees.pure _

include hextract hembed in
theorem process_source_agrees (l : SourceLoop) (fetched : NormalizedContent) :
    Agrees Good (process_source p gate s l fetched) (AgenticKb.process_source p gate s.build l fetched) := by
  by_cases hcode : is_code_file fetched = true
  · rw [process_source, if_pos hcode]
    exact Agrees.pure _
  · by_cases hsame : is_unchanged l.current fetched = true
    · rw [process_source, if_neg hcode, if_pos hsame]
      exact Agrees.pure _
    · rw [process_source, if_neg hcode, if_neg hsame, AgenticKb.process_source, if_neg hcode, if_neg hsame]
      apply Agrees.bind (process_changed_source_agrees hextract hembed l.current fetched)
      cases AgenticKb.process_changed_source p gate s.build l.current fetched with
      | none => exact Agrees.pure _
      | some processed => exact Agrees.pure _

include hembed in
theorem graphify_one_repo_agrees (l : SourceLoop) (entry : String × List CodeUnit) :
    Agrees Good (graphify_one_repo p s l entry).run (AgenticKb.graphify_one_repo p s.build l entry) := by
  cases entry with
  | mk repo units =>
    unfold graphify_one_repo AgenticKb.graphify_one_repo
    dsimp only
    cases s.build.graphify_tree (units.map fun unit => (unit.path, unit.fetched.text)) with
    | none => exact Agrees.pure _
    | some result =>
      have hwrite : Agrees Good (write_repo_artifacts p s l repo units result.artifacts).run
          (AgenticKb.write_repo_artifacts p s.build l repo units result.artifacts) :=
        Agrees.run_bind (embed_and_index_agrees hembed _ _) fun _ => Agrees.pure _
      apply Agrees.run_bind hwrite
      intro written
      exact Agrees.run_bind (Agrees.of _) fun _ => Agrees.pure _

include hextract hembed in
theorem process_sources_agrees (r : Registry) :
    Agrees Good (process_sources p gate s r) (AgenticKb.process_sources p gate s.build r) := by
  have hloop (fetched : List NormalizedContent) (l : SourceLoop) :
      Agrees Good (fetched.foldlM (process_source p gate s) l)
        (fetched.foldl (AgenticKb.process_source p gate s.build) l) :=
    Agrees.foldlM (process_source_agrees hextract hembed) fetched l
  have hgraph (l : SourceLoop) :
      Agrees Good (graphify_code_tree p s l).run (AgenticKb.graphify_code_tree p s.build l) :=
    Agrees.run_foldlM (graphify_one_repo_agrees hembed) (units_by_repo l.code_units) l
  unfold process_sources AgenticKb.process_sources
  dsimp only
  rcases s.build.fault with _ | processed | _ | _
  case some.after_sources => exact Agrees.bind (hloop _ _) (Agrees.pure _)
  case some.in_graphify =>
    apply Agrees.bind (hloop _ _)
    split
    · exact Agrees.pure _
    · exact Agrees.pure _
  -- A build that fails in its finalisation has gone through its sources as one that does not fail.
  all_goals
    apply Agrees.bind (hloop _ _)
    generalize (s.build.listing.map p.fetch).foldl (AgenticKb.process_source p gate s.build) _ = l
    split
    · apply Agrees.bind (hgraph l)
      cases AgenticKb.graphify_code_tree p s.build l with
      | some _ => exact Agrees.pure _
      | none => exact Agrees.pure _
    · exact Agrees.pure _

include hextract hembed in
/-- Where the two paid requests come to what the models answer, the build is the one without the cache. -/
theorem next_agrees (r : Registry) : Agrees Good (next p gate r s) (AgenticKb.next p gate r s.build) := by
  have hrun : Agrees Good (run p gate s r) (AgenticKb.run p gate r s.build) :=
    Agrees.bind (process_sources_agrees hextract hembed _) (Agrees.pure _)
  exact Agrees.bind hrun (Agrees.pure _)

end Agrees

end AgenticKb.Durable
