import AgenticKb.Properties.ChangeStages

open AgenticKb.Lib

namespace AgenticKb.ContextBroker

variable {deps : ChangeDeps} {db : Database} {build_seq : Nat} {requester : Requester} {request : ChangeContextRequest}

section Budget

variable {budget_tokens spent : Nat} {file : FileRef} {files : List FileRef}

theorem keep_within_foldl (kept : List FileRef) :
    files.foldl (fun state file =>
      if budget_tokens < state.2 + file.est_tokens then state
      else (state.1 ++ [file], state.2 + file.est_tokens)) (kept, spent) =
    (kept ++ (keep_within budget_tokens spent files).1, (keep_within budget_tokens spent files).2) := by
  induction files generalizing kept spent with
  | nil => rw [List.foldl_nil, keep_within, List.foldl_nil, List.append_nil]
  | cons file files ih =>
    rw [keep_within, List.foldl_cons, List.foldl_cons]
    split
    · exact ih kept
    · rw [ih, ih, List.append_assoc, List.nil_append]

theorem keep_within_cons : keep_within budget_tokens spent (file :: files) =
    if budget_tokens < spent + file.est_tokens then keep_within budget_tokens spent files
    else (file :: (keep_within budget_tokens (spent + file.est_tokens) files).1,
      (keep_within budget_tokens (spent + file.est_tokens) files).2) := by
  rw [keep_within, List.foldl_cons]
  split
  · rfl
  · exact keep_within_foldl [file]

/-- The loop keeps some of the files, in their order, and as many as fit. -/
theorem keep_within_sound (budget_tokens spent : Nat) (files : List FileRef) :
    (keep_within budget_tokens spent files).1.Sublist files ∧
      (keep_within budget_tokens spent files).2 = spent + total_tokens (keep_within budget_tokens spent files).1 ∧
      ((keep_within budget_tokens spent files).1 = [] ∨ (keep_within budget_tokens spent files).2 ≤ budget_tokens) := by
  induction files generalizing spent with
  | nil => exact ⟨.slnil, rfl, .inl rfl⟩
  | cons file files ih =>
    rw [keep_within_cons]
    split
    case isTrue =>
      obtain ⟨hsub, hspent, hfits⟩ := ih spent
      exact ⟨hsub.cons file, hspent, hfits⟩
    case isFalse hover =>
      obtain ⟨hsub, hspent, hfits⟩ := ih (spent + file.est_tokens)
      refine ⟨hsub.cons_cons file, ?_, .inr ?_⟩
      · simp only [total_tokens, List.map_cons, List.sum_cons] at hspent ⊢
        omega
      · cases hfits with
        | inl hnil =>
          rw [hspent, hnil, total_tokens, List.map_nil, List.sum_nil]
          omega
        | inr hle => exact hle

/-- Each file kept fits on its own. -/
theorem fits_of_mem_keep_within (h : file ∈ (keep_within budget_tokens spent files).1) :
    spent + file.est_tokens ≤ budget_tokens := by
  induction files generalizing spent with
  | nil => cases h
  | cons first files ih =>
    rw [keep_within_cons] at h
    split at h
    · exact ih h
    · cases List.mem_cons.1 h with
      | inl heq =>
        subst heq
        omega
      | inr hmem =>
        have hfits := ih hmem
        omega

theorem keep_within_eq_nil_iff :
    (keep_within budget_tokens spent files).1 = [] ↔ ∀ file ∈ files, budget_tokens < spent + file.est_tokens := by
  induction files with
  | nil => simp [keep_within]
  | cons file files ih =>
    rw [keep_within_cons, List.forall_mem_cons]
    by_cases hover : budget_tokens < spent + file.est_tokens
    · rw [if_pos hover, ih, and_iff_right hover]
    · rw [if_neg hover]
      exact ⟨fun hnil => absurd hnil (List.cons_ne_nil _ _), fun hall => absurd hall.1 hover⟩

/-- Once a file does not fit, no later one does. -/
def FitsInOrder (budget_tokens : Nat) (spent : Nat) : List FileRef → Prop
  | [] => True
  | file :: files =>
    if budget_tokens < spent + file.est_tokens then ∀ later ∈ files, budget_tokens < spent + later.est_tokens
    else FitsInOrder budget_tokens (spent + file.est_tokens) files

theorem fitsInOrder_of_le (h : spent + total_tokens files ≤ budget_tokens) : FitsInOrder budget_tokens spent files := by
  induction files generalizing spent with
  | nil => trivial
  | cons file files ih =>
    rw [total_tokens, List.map_cons, List.sum_cons] at h
    rw [FitsInOrder, if_neg (by omega)]
    refine ih ?_
    rw [total_tokens]
    omega

/-- Exactly then the files kept are the first ones. -/
theorem prefix_keep_within_iff :
    (keep_within budget_tokens spent files).1 <+: files ↔ FitsInOrder budget_tokens spent files := by
  induction files generalizing spent with
  | nil => exact iff_of_true (List.prefix_refl _) trivial
  | cons file files ih =>
    rw [keep_within_cons, FitsInOrder]
    by_cases hover : budget_tokens < spent + file.est_tokens
    · rw [if_pos hover, if_pos hover, ← keep_within_eq_nil_iff]
      constructor
      · intro hprefix
        cases List.prefix_cons_iff.1 hprefix with
        | inl hnil => exact hnil
        | inr hcons =>
          -- the first file would be kept although it does not fit
          obtain ⟨rest, hkept, -⟩ := hcons
          have hfits := fits_of_mem_keep_within (hkept ▸ List.mem_cons_self (a := file) (l := rest))
          omega
      · intro hnil
        rw [hnil]
        exact List.nil_prefix
    · rw [if_neg hover, if_neg hover, List.prefix_cons_inj, ih]

end Budget

section Reasons

/-- The words of a list of names, of which each but the last has a comma behind it. -/
def with_commas : List String → List String
  | [] => []
  | [name] => [name]
  | name :: second :: rest => (name ++ ",") :: with_commas (second :: rest)

theorem with_commas_ne_nil {names : List String} (h : names ≠ []) : with_commas names ≠ [] := by
  cases names with
  | nil => exact absurd rfl h
  | cons name rest => cases rest <;> exact List.cons_ne_nil _ _

theorem join_with_commas (names : List String) : join " " (with_commas names) = join ", " names := by
  induction names with
  | nil => rfl
  | cons name rest ih =>
    cases rest with
    | nil => rfl
    | cons second rest =>
      have hne := with_commas_ne_nil (List.cons_ne_nil second rest)
      simp only [join] at ih ⊢
      rw [with_commas, String.intercalate_cons_of_ne_nil hne, ih,
        String.intercalate_cons_of_ne_nil (List.cons_ne_nil second rest), String.append_assoc, String.append_assoc,
        String.append_assoc]
      rfl

theorem blank_with_commas {names : List String} (hplain : ∀ name ∈ names, ' ' ∉ name.toList) :
    ∀ word ∈ with_commas names, ' ' ∉ word.toList := by
  induction names with
  | nil => simp [with_commas]
  | cons name rest ih =>
    obtain ⟨hname, hrest⟩ := List.forall_mem_cons.1 hplain
    cases rest with
    | nil => simpa [with_commas] using hname
    | cons second rest =>
      rw [with_commas, List.forall_mem_cons]
      exact ⟨by simpa using hname, ih hrest⟩

theorem with_commas_inj {names names' : List String} (h : with_commas names = with_commas names') : names = names' := by
  induction names generalizing names' with
  | nil =>
    by_contra hne
    exact with_commas_ne_nil (Ne.symm hne) h.symm
  | cons name rest ih =>
    cases rest with
    | nil =>
      cases names' with
      | nil => cases h
      | cons name' rest' =>
        cases rest' with
        | nil => exact h
        | cons second' rest' =>
          exact absurd (List.cons.inj h).2.symm (with_commas_ne_nil (List.cons_ne_nil second' rest'))
    | cons second rest =>
      cases names' with
      | nil => cases h
      | cons name' rest' =>
        cases rest' with
        | nil => exact absurd (List.cons.inj h).2 (with_commas_ne_nil (List.cons_ne_nil second rest))
        | cons second' rest' =>
          obtain ⟨hhead, htail⟩ := List.cons.inj h
          rw [String.append_left_inj] at hhead
          rw [hhead, ih htail]

/-- The words of a reason. -/
def reason_words (names : List String) : List String :=
  ["defines"] ++ (if names.isEmpty then ["imported", "by", "the", "target"] else with_commas names) ++
    ["used", "by", "the", "target", "file"]

theorem join_reason_words (names : List String) : join " " (reason_words names) = dependency_reason names := by
  have hmiddle : ∀ words : List String, words ≠ [] →
      join " " (["defines"] ++ words ++ ["used", "by", "the", "target", "file"]) =
        "defines " ++ join " " words ++ " used by the target file" := by
    intro words hwords
    simp only [join]
    rw [String.intercalate_append_of_ne_nil (by simp) (by simp), String.intercalate_append_of_ne_nil (by simp) hwords]
    simp only [String.append_assoc]
    rfl
  unfold reason_words dependency_reason
  cases names with
  | nil => rfl
  | cons name rest =>
    rw [if_neg (by simp), if_neg (by simp), hmiddle _ (with_commas_ne_nil (List.cons_ne_nil name rest)),
      join_with_commas]

theorem blank_reason_words {names : List String} (hplain : ∀ name ∈ names, ' ' ∉ name.toList) :
    ∀ word ∈ reason_words names, ' ' ∉ word.toList := by
  have hends : ∀ word ∈ ["defines", "imported", "by", "the", "target", "used", "file"], ' ' ∉ word.toList := by decide
  intro word hword
  simp only [reason_words, List.mem_append] at hword
  rcases hword with (hfirst | hmiddle) | hlast
  · exact hends word (by grind)
  · split at hmiddle
    · exact hends word (by grind)
    · exact blank_with_commas hplain word hmiddle
  · exact hends word (by grind)

theorem with_commas_ne_imported {names : List String} : with_commas names ≠ ["imported", "by", "the", "target"] := by
  intro h
  cases names with
  | nil => cases h
  | cons name rest =>
    cases rest with
    | nil => cases (List.cons.inj h).2
    | cons second rest =>
      have hlast := congrArg (fun word : String => word.toList.getLast?) (List.cons.inj h).1
      simp at hlast

/-- Names without a blank are read back from a reason. -/
theorem dependency_reason_inj {names names' : List String} (hplain : ∀ name ∈ names, ' ' ∉ name.toList)
    (hplain' : ∀ name ∈ names', ' ' ∉ name.toList) (h : dependency_reason names = dependency_reason names') :
    names = names' := by
  have hne : ∀ names : List String, reason_words names ≠ [] := by
    intro names
    simp [reason_words]
  have hsplit : ∀ names : List String, (∀ name ∈ names, ' ' ∉ name.toList) →
      split_on ' ' (dependency_reason names) = reason_words names := by
    intro names hplain
    rw [← join_reason_words]
    exact split_on_join (hne names) (blank_reason_words hplain)
  have hwords : reason_words names = reason_words names' := by
    rw [← hsplit names hplain, h, hsplit names' hplain']
  simp only [reason_words, List.append_cancel_left_eq, List.append_cancel_right_eq] at hwords
  cases names with
  | nil =>
    cases names' with
    | nil => rfl
    | cons name rest => exact absurd hwords.symm with_commas_ne_imported
  | cons name rest =>
    cases names' with
    | nil => exact absurd hwords with_commas_ne_imported
    | cons name' rest' => exact with_commas_inj hwords

end Reasons

section Stages

variable {selection : Selection}

/-- What the stages select is visible and within the targets' service, but for a proposed test file. -/
structure SelectionSound (deps : ChangeDeps) (db : Database) (build_seq : Nat) (requester : Requester)
    (request : ChangeContextRequest) (selection : Selection) : Prop where
  targets : TargetsSound (visible_rows deps.platform db build_seq requester) selection.targets
  found : selection.tests.files ≠ [] →
    ∀ file ∈ selection.test_files, TestFrom (visible_rows deps.platform db build_seq requester) file
  proposed : selection.tests.files = [] →
    (∀ file ∈ selection.test_files, Proposed selection.targets.paths file) ∧
      (selection.test_files = [] ∨ CONVENTION_NOTE ∈ selection.test_notes)
  dependencies : ∀ file ∈ selection.dependency_files, ∃ entry,
    DependencyFrom deps db build_seq requester (change_query deps request)
      (code_rows deps db build_seq requester request) selection.targets file.path file.reason entry
  service : ∀ file ∈ selection.test_files ++ selection.dependency_files,
    same_repo selection.targets.scope file.path = true
  ranked : selection.dependency_files.length ≤ MAX_DEPENDENCY_FILES ∧
    selection.dependency_files.Pairwise fun a b => b.confidence ≤ a.confidence

theorem select_files_sound (h : select_files deps db build_seq requester request = some selection) :
    SelectionSound deps db build_seq requester request selection := by
  simp only [select_files, Option.bind_eq_bind, Option.bind_eq_some_iff] at h
  obtain ⟨targets, htargets, tests, htests, proposed, hproposed, dependencies, hdependencies, hselection⟩ := h
  obtain rfl := Option.some.inj hselection
  have hfound := find_tests_sound (fun row hrow => mem_visible_among hrow) htests
  obtain ⟨hkept, hconvention⟩ := conventional_tests_sound hproposed
  obtain ⟨hdep_rows, hdep_length, hdep_order⟩ := find_dependencies_sound hdependencies
  constructor
  case targets => exact find_targets_sound (fun row hrow => mem_code_rows hrow) htargets
  case found =>
    intro hsome file hfile
    have hfile' := mem_rank_tests hfile
    rw [hkept hsome] at hfile'
    exact (hfound file hfile').1
  case proposed =>
    intro hnone
    obtain ⟨hall, hnote⟩ := hconvention hnone
    refine ⟨fun file hfile => (hall file (mem_rank_tests hfile)).1, hnote.imp_left fun hempty => ?_⟩
    rw [hempty]
    rfl
  case dependencies => exact fun file hfile => (hdep_rows file hfile).1
  case service =>
    intro file hfile
    cases List.mem_append.1 hfile with
    | inl htest =>
      have htest' := mem_rank_tests htest
      by_cases hnone : tests.2.files = []
      · exact ((hconvention hnone).1 file htest').2
      · rw [hkept hnone] at htest'
        exact (hfound file htest').2
    | inr hdep => exact (hdep_rows file hdep).2
  case ranked => exact ⟨hdep_length, hdep_order⟩

end Stages

/-- Where the target files that carry a service agree on one, no other file carries another. -/
def WithinService (response : ChangeContextResponse) : Prop :=
  ∀ scope, (∃ file ∈ response.target_files, repo_scope file.path = some scope) →
    (∀ file ∈ response.target_files, ∀ other, repo_scope file.path = some other → other = scope) →
    ∀ file ∈ response.test_files ++ response.dependency_files, ∀ other, repo_scope file.path = some other → other = scope

def WithinBudget (budget_tokens : Nat) (response : ChangeContextResponse) : Prop :=
  response.dependency_files = [] ∨
    total_tokens (response.target_files ++ response.test_files ++ response.dependency_files) ≤ budget_tokens

/-- The file is that of an artifact the requester may see. -/
def PathFrom (rows : List ArtifactRow) (file : FileRef) : Prop := ∃ row ∈ rows, file.path = file_of row

/-- What a change pack keeps whatever the registry is; a test file may be proposed, and is then said to be. -/
structure ChangePackSound (rows : List ArtifactRow) (budget_tokens : Nat) (response : ChangeContextResponse) : Prop where
  targets : ∀ file ∈ response.target_files, TargetFrom rows file
  symbols : ∀ symbol ∈ response.relevant_symbols, SymbolFrom rows symbol
  tests : (∀ file ∈ response.test_files, TestFrom rows file) ∨
    (∀ file ∈ response.test_files, Proposed (response.target_files.map (·.path)) file) ∧
      (response.test_files = [] ∨ CONVENTION_NOTE ∈ response.notes)
  dependencies : ∀ file ∈ response.dependency_files, PathFrom rows file
  service : WithinService response
  ranked : response.dependency_files.length ≤ MAX_DEPENDENCY_FILES ∧
    response.dependency_files.Pairwise fun a b => b.confidence ≤ a.confidence
  budget : WithinBudget budget_tokens response

/-- The reason of a dependency file names symbols that the requester may see. -/
def DefinesFrom (rows : List ArtifactRow) (file : FileRef) : Prop :=
  ∃ names, (∀ name ∈ names, SymbolFrom rows name) ∧ file.reason = dependency_reason names

/-- A change pack discloses and mixes nothing it should not: every path and every name in it is a visible artifact's, and
the dependency files kept are the first of the ranked ones, within the budget. -/
structure PackAdmitted (rows : List ArtifactRow) (budget_tokens : Nat) (ranked : List FileRef)
    (response : ChangeContextResponse) : Prop where
  targets : ∀ file ∈ response.target_files, TargetFrom rows file
  symbols : ∀ symbol ∈ response.relevant_symbols, SymbolFrom rows symbol
  tests : ∀ file ∈ response.test_files, TestFrom rows file ∨ PathFrom rows file ∧ file.reason = CONVENTION_REASON
  dependencies : ∀ file ∈ response.dependency_files, PathFrom rows file ∧ DefinesFrom rows file
  service : WithinService response
  kept : response.dependency_files <+: ranked
  budget : WithinBudget budget_tokens response

/-- The test files are found, or those proposed exist; of an imported file that is kept the target uses visible symbols
only; and once a dependency file does not fit, no later one does. -/
structure PackPremises (deps : ChangeDeps) (db : Database) (build_seq : Nat) (requester : Requester)
    (request : ChangeContextRequest) (selection : Selection) : Prop where
  tests : selection.tests.files = [] →
    ∀ file ∈ selection.test_files, PathFrom (visible_rows deps.platform db build_seq requester) file
  names : ∀ file ∈ selection.kept request.budget_tokens, ∀ entry,
    DependencyFrom deps db build_seq requester (change_query deps request)
      (code_rows deps db build_seq requester request) selection.targets file.path file.reason entry →
    ∀ name ∈ names_used deps db build_seq (change_query deps request)
        (code_rows deps db build_seq requester request) selection.targets entry,
      SymbolFrom (visible_rows deps.platform db build_seq requester) name
  fits : FitsInOrder request.budget_tokens selection.essential selection.dependency_files

/-- No symbol's title has a blank. -/
def PlainTitles (deps : ChangeDeps) (db : Database) (build_seq : Nat) (requester : Requester)
    (request : ChangeContextRequest) (selection : Selection) : Prop :=
  (∀ symbol, SymbolFrom (visible_rows deps.platform db build_seq requester) symbol → ' ' ∉ symbol.toList) ∧
    ∀ entry, ∀ name ∈ names_used deps db build_seq (change_query deps request)
      (code_rows deps db build_seq requester request) selection.targets entry, ' ' ∉ name.toList

section Response

variable {selection : Selection} {response : ChangeContextResponse}

/-- What the answer shows of what was selected. -/
structure Presents (budget_tokens : Nat) (selection : Selection) (response : ChangeContextResponse) : Prop where
  target_files : response.target_files = selection.targets.files
  test_files : response.test_files = selection.test_files
  dependency_files : response.dependency_files = selection.kept budget_tokens
  relevant_symbols : response.relevant_symbols = unique selection.targets.relevant_symbols
  notes : selection.test_notes ⊆ response.notes

theorem changePackSound_of_presents (hsound : SelectionSound deps db build_seq requester request selection)
    (h : Presents request.budget_tokens selection response) :
    ChangePackSound (visible_rows deps.platform db build_seq requester) request.budget_tokens response := by
  obtain ⟨hkept, hspent, hfits⟩ := keep_within_sound request.budget_tokens selection.essential selection.dependency_files
  have hpaths : response.target_files.map (·.path) = selection.targets.paths := by
    rw [h.target_files, hsound.targets.paths]
  constructor
  case targets => exact h.target_files ▸ hsound.targets.files
  case symbols =>
    intro symbol hsymbol
    rw [h.relevant_symbols] at hsymbol
    exact hsound.targets.symbols symbol (mem_of_mem_unique hsymbol)
  case tests =>
    rw [hpaths, h.test_files]
    by_cases hnone : selection.tests.files = []
    · obtain ⟨hall, hnote⟩ := hsound.proposed hnone
      exact .inr ⟨hall, hnote.imp_right fun hmem => h.notes hmem⟩
    · exact .inl (hsound.found hnone)
  case dependencies =>
    intro file hfile
    rw [h.dependency_files] at hfile
    obtain ⟨entry, hentry⟩ := hsound.dependencies file (hkept.subset hfile)
    exact ⟨entry.2, hentry.visible, hentry.2.1⟩
  case service =>
    intro scope hsome hall file hfile other hother
    have hscope : selection.targets.scope = some scope := by
      apply Targets.scope_eq
      · rw [← hpaths]
        obtain ⟨target, htarget, htarget_scope⟩ := hsome
        exact ⟨target.path, List.mem_map_of_mem htarget, htarget_scope⟩
      · rw [← hpaths]
        intro path hpath
        obtain ⟨target, htarget, rfl⟩ := List.mem_map.1 hpath
        exact hall target htarget
    rw [h.test_files, h.dependency_files] at hfile
    have hmem : file ∈ selection.test_files ++ selection.dependency_files :=
      List.append_subset.2 ⟨List.subset_append_left _ _, fun file hfile =>
        List.mem_append_right _ (hkept.subset hfile)⟩ hfile
    have hsame := hsound.service file hmem
    rw [hscope] at hsame
    exact scope_of_same_repo hsame hother
  case ranked =>
    rw [h.dependency_files]
    exact ⟨hkept.length_le.trans hsound.ranked.1, hsound.ranked.2.sublist hkept⟩
  case budget =>
    unfold WithinBudget
    rw [h.dependency_files, h.target_files, h.test_files]
    refine hfits.imp_right fun hle => ?_
    rw [hspent] at hle
    rwa [total_tokens, List.map_append, List.sum_append]

/-- Under the premises nothing more is disclosed. -/
theorem packAdmitted_of_premises (hsound : SelectionSound deps db build_seq requester request selection)
    (h : Presents request.budget_tokens selection response)
    (hpremises : PackPremises deps db build_seq requester request selection) :
    PackAdmitted (visible_rows deps.platform db build_seq requester) request.budget_tokens selection.dependency_files
      response := by
  have hpack := changePackSound_of_presents hsound h
  have hkept := (keep_within_sound request.budget_tokens selection.essential selection.dependency_files).1
  constructor
  case targets => exact hpack.targets
  case symbols => exact hpack.symbols
  case tests =>
    intro file hfile
    rw [h.test_files] at hfile
    by_cases hnone : selection.tests.files = []
    · exact .inr ⟨hpremises.tests hnone file hfile, ((hsound.proposed hnone).1 file hfile).1⟩
    · exact .inl (hsound.found hnone file hfile)
  case dependencies =>
    intro file hfile
    refine ⟨hpack.dependencies file hfile, ?_⟩
    rw [h.dependency_files] at hfile
    obtain ⟨entry, hentry⟩ := hsound.dependencies file (hkept.subset hfile)
    exact ⟨_, hpremises.names file hfile entry hentry, hentry.2.2⟩
  case service => exact hpack.service
  case kept =>
    rw [h.dependency_files]
    exact prefix_keep_within_iff.2 hpremises.fits
  case budget => exact hpack.budget

/-- And where it is not, a premise fails: the names are read back from the reasons. -/
theorem premises_of_packAdmitted (h : Presents request.budget_tokens selection response)
    (hplain : PlainTitles deps db build_seq requester request selection)
    (hpack : PackAdmitted (visible_rows deps.platform db build_seq requester) request.budget_tokens
      selection.dependency_files response) :
    PackPremises deps db build_seq requester request selection := by
  constructor
  case tests =>
    intro _ file hfile
    rw [← h.test_files] at hfile
    cases hpack.tests file hfile with
    | inl hfrom =>
      obtain ⟨row, hrow, hpath, -⟩ := hfrom
      exact ⟨row, hrow, hpath⟩
    | inr hproposed => exact hproposed.1
  case names =>
    intro file hfile entry hentry name hname
    rw [← h.dependency_files] at hfile
    obtain ⟨names, hnames, hreason⟩ := (hpack.dependencies file hfile).2
    have hsame := dependency_reason_inj (fun name hname => hplain.1 name (hnames name hname)) (hplain.2 entry)
      (hreason.symm.trans hentry.2.2)
    exact hnames name (hsame ▸ hname)
  case fits =>
    have hprefix := hpack.kept
    rw [h.dependency_files] at hprefix
    exact prefix_keep_within_iff.1 hprefix

end Response

section Runner

def pack_artifact (id source_id : Uuid) (artifact_type : ArtifactType) (title : String) (body_text : Option BodyText)
    (acl_teams : List String) : KnowledgeArtifact :=
  { valid_from_seq := 1, artifact_id := id, artifact_type, source_id, title := some title
    body_text, content_hash := none, kb_version := "v1", knowledge_kind := some .source_backed, acl_teams
    created_at := 0 }

def pack_source (id : Uuid) (source_uri path : String) : SourceItem :=
  { source_id := id, source_type := .github_code, source_uri, source_version := "1"
    repo := some "acme/app", branch := some "main", path := some path, external_id := none, content_hash := ""
    last_seen_at := none, acl_teams := [], is_deleted := false, created_at := 0 }

def pack_edge (id from_artifact_id to_artifact_id : Uuid) (edge_type : EdgeType) : KnowledgeEdge :=
  { valid_from_seq := 1, edge_id := id, from_artifact_id, to_artifact_id, edge_type
    confidence := some 1, source := some .graphify, kb_version := "v1", trust_class := .EXTRACTED }

/-- `Runner` in `run.py`, which a test covers, uses the client of `http.py`, whose name is for the platform team alone, and
the error of `err.py`. -/
def runner_database : Database :=
  { source_items := [pack_source 10 "github://acme/app/pkg/run.py" "pkg/run.py",
      pack_source 20 "github://acme/app/pkg/http.py" "pkg/http.py", pack_source 30 "github://acme/app/pkg/err.py" "pkg/err.py",
      pack_source 40 "github://acme/app/tests/test_run.py" "tests/test_run.py"]
    artifacts := [pack_artifact 1 10 .code_symbol "Runner" (some (.text "HttpClient HttpError")) [],
      pack_artifact 10 10 .code_file "pkg/run.py" none [],
      pack_artifact 20 20 .code_file "pkg/http.py" none [],
      pack_artifact 21 20 .code_symbol "HttpClient" (some (.text "x")) ["platform"],
      pack_artifact 30 30 .code_file "pkg/err.py" none [],
      pack_artifact 31 30 .code_symbol "HttpError" none [],
      pack_artifact 41 40 .code_symbol "test_run" none []]
    edges := [pack_edge 1 1 10 .defined_in, pack_edge 2 10 20 .imports, pack_edge 3 10 30 .imports,
      pack_edge 4 21 20 .defined_in, pack_edge 5 31 30 .defined_in, pack_edge 6 41 1 .tests]
    runs := [{ build_id := 0, kb_version := "v1", build_seq := 1, status := .active, started_at := 0 }] }

/-- The search knows `Runner`. -/
def runner_deps : ChangeDeps :=
  { BrokerDeps.plain with
    search := fun _ _ _ _ => [{ artifact_id := 1, score := 1 }]
    set_order := List.dedup
    set_order_perm := fun _ => List.Perm.refl _ }

def runner_request : ChangeContextRequest := { task := "Runner HttpError", budget_tokens := 500 }

/-- The client's name is visible to this one. -/
def platform_member : Requester := { outsider with teams := ["platform"] }

instance {rows : List ArtifactRow} {symbol : String} : Decidable (SymbolFrom rows symbol) :=
  inferInstanceAs (Decidable (∃ row ∈ rows, row.artifact_type = .code_symbol ∧ row.title = some symbol))

/-- With enough room the member's pack meets the premises: a test is found, both names are visible and both files fit. -/
theorem runner_premises {selection : Selection}
    (h : select_files runner_deps runner_database 1 platform_member { runner_request with budget_tokens := 25000 } =
      some selection) :
    PackPremises runner_deps runner_database 1 platform_member { runner_request with budget_tokens := 25000 } selection := by
  have hall : (select_files runner_deps runner_database 1 platform_member
      { runner_request with budget_tokens := 25000 }).all (fun selection =>
        !selection.tests.files.isEmpty &&
        (imported_files runner_deps runner_database 1 platform_member
          (code_rows runner_deps runner_database 1 platform_member { runner_request with budget_tokens := 25000 })
          selection.targets).all (fun entry =>
            (names_used runner_deps runner_database 1
              (change_query runner_deps { runner_request with budget_tokens := 25000 })
              (code_rows runner_deps runner_database 1 platform_member { runner_request with budget_tokens := 25000 })
              selection.targets entry).all fun name =>
                decide (SymbolFrom (visible_rows runner_deps.platform runner_database 1 platform_member) name)) &&
        decide (selection.essential + total_tokens selection.dependency_files ≤ 25000)) = true := by
    decide +kernel
  rw [h, Option.all_some] at hall
  simp only [Bool.and_eq_true, Bool.not_eq_true', List.isEmpty_eq_false_iff, List.all_eq_true, decide_eq_true_eq] at hall
  obtain ⟨⟨htests, hnames⟩, hroom⟩ := hall
  exact ⟨fun hnone => absurd hnone htests, fun _ _ entry hentry => hnames entry hentry.1, fitsInOrder_of_le hroom⟩

end Runner

end AgenticKb.ContextBroker
