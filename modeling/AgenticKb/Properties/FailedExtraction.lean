import AgenticKb.Effects.Unseen

open AgenticKb.Lib

namespace AgenticKb

/-- The row of one of these files. -/
def RowOf (units : List CodeUnit) (row : SourceItem) : Prop :=
  ∃ unit ∈ units, same_source unit.fetched row = true

instance (units : List CodeUnit) (row : SourceItem) : Decidable (RowOf units row) :=
  inferInstanceAs (Decidable (∃ unit ∈ units, _))

/-- The build asks for the code graph of a repo, and the extraction raises. -/
def ExtractionRaises (p : Platform) (r : Registry) (b : Build) (entry : String × List CodeUnit) : Prop :=
  entry ∈ b.repos (source_loop p b (start_run p r b.kb_version)) ∧
    b.graphify_tree (entry.2.map fun unit => (unit.path, unit.fetched.text)) = none

instance (p : Platform) (r : Registry) (b : Build) (entry : String × List CodeUnit) :
    Decidable (ExtractionRaises p r b entry) := inferInstanceAs (Decidable (_ ∧ _))

/-- The address of a source tells whether it is a code file, and of which repo. -/
def AddressesNameRepos (p : Platform) (b : Build) : Prop :=
  ∀ f ∈ b.turns p, ∀ f' ∈ b.turns p, f.key = f'.key →
    is_code_file f = is_code_file f' ∧ f.source.repo = f'.source.repo

instance (p : Platform) (b : Build) : Decidable (AddressesNameRepos p b) :=
  inferInstanceAs (Decidable (∀ f ∈ b.turns p, ∀ f' ∈ b.turns p, _ → _))

section Raised

variable {p : Platform} {r : Registry} {b : Build} {entry : String × List CodeUnit} {row : SourceItem}

/-- The files of the repo are not looked at again in the build. -/
theorem ExtractionRaises.unseen (hinj : Function.Injective p.gen_random_uuid) (hwf : WellFormed p r)
    (haddress : AddressesNameRepos p b) (h : ExtractionRaises p r b entry) (hrow : RowOf entry.2 row) :
    Unseen p r b row := by
  obtain ⟨hentry, hraise⟩ := h
  obtain ⟨unit, hunit, hsame⟩ := hrow
  rw [same_source_iff] at hsame
  have hrepos : b.repos (source_loop p b (start_run p r b.kb_version)) =
        units_by_repo (source_loop p b (start_run p r b.kb_version)).code_units ∧
      (source_loop p b (start_run p r b.kb_version)).any_code_changed = true := by
    unfold Build.repos at hentry ⊢
    split at hentry
    · simp at hentry
    · simp at hentry
    · split at hentry
      · rename_i hcode
        exact ⟨by simp [hcode], hcode⟩
      · simp at hentry
  rw [hrepos.1] at hentry
  have hlisted : ∀ entry' ∈ units_by_repo (source_loop p b (start_run p r b.kb_version)).code_units,
      ∀ u ∈ entry'.2, u.fetched ∈ b.turns p ∧ is_code_file u.fetched = true ∧
        u.fetched.source.repo.getD "" = entry'.1 := by
    intro entry' hentry' u hu
    obtain ⟨hmem, hrepo⟩ := mem_units_by_repo hentry' u hu
    obtain ⟨hturn, hcode, -, hname⟩ := unit_of_source_loop hinj (wellFormed_start_run hwf) hmem
    exact ⟨hturn, hcode, hname.symm.trans hrepo⟩
  obtain ⟨hturn, hcode, hname⟩ := hlisted entry hentry unit hunit
  constructor
  · intro f hf hprose heq
    have hkind := (haddress f hf unit.fetched hturn (heq.trans hsame)).1
    rw [hprose, hcode] at hkind
    simp at hkind
  · constructor
    · intro hunchanged
      rw [hrepos.2] at hunchanged
      simp at hunchanged
    · intro entry' hentry' hresult u hu heq
      rw [hrepos.1] at hentry'
      obtain ⟨hturn', -, hname'⟩ := hlisted entry' hentry' u hu
      have hrepo := (haddress u.fetched hturn' unit.fetched hturn (heq.trans hsame)).2
      have hone : entry' = entry := by
        apply eq_of_mem_units_by_repo hentry' hentry
        rw [← hname', ← hname, hrepo]
      exact hresult (hone ▸ hraise)

/-- A build in which the extraction of a repo raises keeps what was known of the files exactly when it knew
none of them: a live row that is not seen is swept. -/
theorem failed_extraction_keeps_iff (hinj : Function.Injective p.gen_random_uuid) (builds : List Build)
    (haddress : AddressesNameRepos p b)
    (hraised : ExtractionRaises p (history p cached_generation builds) b entry)
    (hdone : (run p cached_generation (history p cached_generation builds) b).finalized.isSome = true) :
    KnowledgeKept (RowOf entry.2) (history p cached_generation builds)
        (next p cached_generation (history p cached_generation builds) b) ↔
      ∀ row ∈ (history p cached_generation builds).source_items, RowOf entry.2 row → row.is_deleted = true :=
  knowledgeKept_iff (wellFormed_history hinj builds) hinj (recordedBefore_history hinj builds) hdone
    fun _ _ hfile => hraised.unseen hinj (wellFormed_history hinj builds) haddress hfile

/-- A code file of one repo. -/
def SourceRef.file (path : String) : SourceRef :=
  { source_type := .github_code, source_uri := path, source_version := "1", repo := some "acme/app"
    path := some path }

/-- A build over the files of that repo; its extraction answers with the files themselves, or raises. -/
def repo_build (files : List (String × String)) (raises : Bool) : Build :=
  { kb_version := "v"
    listing := files.map fun (path, text) => (.file path, text)
    graphify_tree := fun tree =>
      if raises then none
      else some { artifacts := tree.map fun (path, text) =>
        { key := "file:" ++ path, artifact_type := .code_file, title := path, body_text := some text } } }

/-- The one file of such a build, as it is put aside. -/
def repo_unit (path text : String) : CodeUnit :=
  ⟨Platform.plain.fetch (.file path, text), path, "acme/app", true⟩

/-- A file is deleted and comes back in a build whose extraction raises: what was known of it was gone already. -/
theorem returned_file_extraction_fails_kept :
    KnowledgeKept (RowOf [repo_unit "a.py" "y"])
      (history .plain cached_generation [repo_build [("a.py", "x")] false, repo_build [] false])
      (next .plain cached_generation
        (history .plain cached_generation [repo_build [("a.py", "x")] false, repo_build [] false])
        (repo_build [("a.py", "y")] true)) :=
  have hraised : ExtractionRaises .plain
      (history .plain cached_generation [repo_build [("a.py", "x")] false, repo_build [] false])
      (repo_build [("a.py", "y")] true) ("acme/app", [repo_unit "a.py" "y"]) := by decide +kernel
  (failed_extraction_keeps_iff (fun _ _ h => h) [repo_build [("a.py", "x")] false, repo_build [] false]
    (by decide +kernel) hraised (by decide +kernel)).2 (by decide +kernel)

/-- A file is edited, and the extraction of its repo raises: the build completes, the file's row is tombstoned,
and the artifact of its last extraction is retired. -/
theorem edited_file_extraction_fails_swept :
    ExtractionRaises .plain (history .plain cached_generation [repo_build [("a.py", "x")] false])
        (repo_build [("a.py", "y")] true) ("acme/app", [repo_unit "a.py" "y"]) ∧
      (run .plain cached_generation (history .plain cached_generation [repo_build [("a.py", "x")] false])
        (repo_build [("a.py", "y")] true)).finalized.isSome = true ∧
      ¬ KnowledgeKept (RowOf [repo_unit "a.py" "y"])
        (history .plain cached_generation [repo_build [("a.py", "x")] false])
        (next .plain cached_generation (history .plain cached_generation [repo_build [("a.py", "x")] false])
          (repo_build [("a.py", "y")] true)) := by
  decide +kernel

end Raised

end AgenticKb
