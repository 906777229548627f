import AgenticKb.Effects.CodeSweep

open AgenticKb.Lib

namespace AgenticKb

/-! The code graph of a repo as its readers see it, and as the extractor answers it. -/

/-- An artifact of the code graph, without its identity. -/
structure CodeNode where
  path : String
  title : Option String
  body_text : Option BodyText
deriving DecidableEq, Repr

/-- An edge of the code graph; an end that is no live artifact of the repo is `none`. -/
structure CodeLink where
  from_end : Option CodeNode
  to_end : Option CodeNode
  edge_type : EdgeType
  confidence : Option Rat
deriving DecidableEq, Repr

def code_node (entry : KnowledgeArtifact × SourceItem) : CodeNode :=
  ⟨entry.2.path.getD "", entry.1.title, entry.1.body_text⟩

/-- The artifacts of the code files of a repo, retired ones among them. -/
def code_artifacts (r : Registry) (repo : String) : List (KnowledgeArtifact × SourceItem) :=
  r.joined.filter fun entry => is_code_item entry.2 && entry.2.repo.getD "" == repo &&
    entry.1.artifact_type != .alias_reference

def live_code_artifacts (r : Registry) (repo : String) : List (KnowledgeArtifact × SourceItem) :=
  (code_artifacts r repo).filter fun entry => entry.1.invalidated_at_seq.isNone

/-- The live code artifacts of a repo. -/
def code_nodes (r : Registry) (repo : String) : List CodeNode := (live_code_artifacts r repo).map code_node

def node_of (r : Registry) (repo : String) (artifact_id : Uuid) : Option CodeNode :=
  ((live_code_artifacts r repo).find? fun entry => entry.1.artifact_id == artifact_id).map code_node

/-- The live edges of the extractor that touch a code artifact of a repo. -/
def code_links (r : Registry) (repo : String) : List CodeLink :=
  ((code_edges r).filter fun e => e.invalidated_at_seq.isNone &&
      touches ((code_artifacts r repo).map (·.1.artifact_id)) e).map fun e =>
    ⟨node_of r repo e.from_artifact_id, node_of r repo e.to_artifact_id, e.edge_type, e.confidence⟩

/-- What the extractor answers: the artifact of a draft … -/
def draft_node (draft : CodeArtifactDraft) : CodeNode :=
  ⟨path_of_code_key draft.key, some draft.title, draft.body_text.map .text⟩

def drafted_nodes (result : GraphifyResult) : List CodeNode := result.artifacts.map draft_node

/-- … and the edges between the artifacts that their keys stand for. -/
def drafted_links (result : GraphifyResult) : List CodeLink :=
  result.edges.map fun draft =>
    ⟨(draft_of result.artifacts draft.from_key).map draft_node, (draft_of result.artifacts draft.to_key).map draft_node,
      draft.edge_type.edge_type, some draft.confidence⟩

/-- The code graph of the repo is the extractor's answer. -/
def ServesGraph (r : Registry) (repo : String) (result : GraphifyResult) : Prop :=
  SameMembers (code_nodes r repo) (drafted_nodes result) ∧ SameMembers (code_links r repo) (drafted_links result)

instance (r : Registry) (repo : String) (result : GraphifyResult) : Decidable (ServesGraph r repo result) :=
  inferInstanceAs (Decidable (_ ∧ _))

/-- The artifact is live and shows as this node of the repo. -/
structure ShowsAs (place : SourceType × String → String × String) (r : Registry) (repo : String) (node : CodeNode)
    (a : KnowledgeArtifact) : Prop where
  code : LiveCode place r a
  home : KeyedBy (fun key => CodeKey place key ∧ place key = (repo, node.path)) r a.source_id
  title : a.title = node.title
  body_text : a.body_text = node.body_text

/-- Every live code edge joins two artifacts of one repo. -/
def JoinsRepos (place : SourceType × String → String × String) (r : Registry) : Prop :=
  ∀ e ∈ code_edges r, e.Live → ∃ repo, (∃ node a, ShowsAs place r repo node a ∧ a.artifact_id = e.from_artifact_id) ∧
    ∃ node a, ShowsAs place r repo node a ∧ a.artifact_id = e.to_artifact_id

section View

variable {p : Platform} {place : SourceType × String → String × String} {of : KnowledgeArtifact → Prop}
  {r r' : Registry} {repo repo' : String} {node node' : CodeNode} {a : KnowledgeArtifact} {e : KnowledgeEdge}

theorem WellFormed.mem_joined_iff (hwf : WellFormed p r) {entry : KnowledgeArtifact × SourceItem} :
    entry ∈ r.joined ↔ entry.1 ∈ r.artifacts ∧ entry.2 ∈ r.source_items ∧ entry.2.source_id = entry.1.source_id := by
  simp only [Registry.joined, List.mem_filterMap, Option.map_eq_some_iff]
  constructor
  · rintro ⟨a, ha, row, hrow, rfl⟩
    exact ⟨ha, List.mem_of_find?_eq_some hrow, by simpa using List.find?_some hrow⟩
  · rintro ⟨ha, hrow, hid⟩
    refine ⟨entry.1, ha, entry.2, ?_, rfl⟩
    cases hfound : r.source_of entry.1.source_id with
    | none => exact absurd (List.find?_eq_none.1 hfound entry.2 hrow) (by simp [hid])
    | some row =>
      have hid' : row.source_id = entry.1.source_id := by simpa using List.find?_some hfound
      rw [hwf.source_eq (List.mem_of_find?_eq_some hfound) hrow (hid'.trans hid.symm)]

theorem JoinsRepos.closed (h : JoinsRepos place r) : CodeGraphClosed place r := by
  intro e he hlive
  obtain ⟨repo, ⟨_, a, ha, hfrom⟩, _, a', ha', hto⟩ := h e he hlive
  exact ⟨⟨a, ha.code, hfrom⟩, a', ha'.code, hto⟩

/-- An artifact shows as one node of one repo. -/
theorem ShowsAs.unique (h : ShowsAs place r repo node a) (h' : ShowsAs place r repo' node' a) (hwf : WellFormed p r) :
    repo' = repo ∧ node' = node := by
  obtain ⟨row, hrow, hid, -, hplace⟩ := h.home
  obtain ⟨row', hrow', hid', -, hplace'⟩ := h'.home
  obtain rfl := hwf.source_eq hrow hrow' (hid.trans hid'.symm)
  obtain ⟨rfl, hpath⟩ := Prod.mk.inj (hplace'.symm.trans hplace)
  obtain ⟨path, title, body_text⟩ := node
  obtain ⟨path', title', body_text'⟩ := node'
  refine ⟨rfl, ?_⟩
  rw [CodeNode.mk.injEq]
  exact ⟨hpath, h'.title.symm.trans h.title, h'.body_text.symm.trans h.body_text⟩

/-- It does so in every later state that has it and keeps the rows in place. -/
theorem ShowsAs.persist (h : ShowsAs place r repo node a) (hmem : ∀ a ∈ r.artifacts, a ∈ r'.artifacts)
    (hpersist : ∀ row ∈ r.source_items, ∃ row' ∈ r'.source_items, row'.source_id = row.source_id ∧ row'.key = row.key) :
    ShowsAs place r' repo node a :=
  ⟨⟨hmem a h.code.mem, h.code.live, h.code.not_alias, h.code.home.persist hpersist⟩, h.home.persist hpersist, h.title,
    h.body_text⟩

theorem mem_live_code_artifacts (hwf : WellFormed p r) (hplaced : RowsPlaced place r)
    {entry : KnowledgeArtifact × SourceItem} (h : entry ∈ live_code_artifacts r repo) :
    ShowsAs place r repo (code_node entry) entry.1 := by
  simp only [live_code_artifacts, code_artifacts, List.mem_filter, Bool.and_eq_true, beq_iff_eq, bne_iff_ne,
    Option.isNone_iff_eq_none, hwf.mem_joined_iff] at h
  obtain ⟨⟨⟨ha, hrow, hid⟩, ⟨hcode, hrepo⟩, hother⟩, hlive⟩ := h
  have hkey := (hplaced.is_code_item_iff hrow).1 hcode
  have hplace : place entry.2.key = (repo, entry.2.path.getD "") := by
    rw [← hplaced entry.2 hrow, SourceItem.place, hrepo]
  exact ⟨⟨ha, hlive, hother, entry.2, hrow, hid, hkey⟩, ⟨entry.2, hrow, hid, hkey, hplace⟩, rfl, rfl⟩

theorem ShowsAs.mem (h : ShowsAs place r repo node a) (hwf : WellFormed p r) (hplaced : RowsPlaced place r) :
    ∃ row, (a, row) ∈ live_code_artifacts r repo ∧ code_node (a, row) = node := by
  obtain ⟨row, hrow, hid, hkey, hplace⟩ := h.home
  have hown : row.place = (repo, node.path) := (hplaced row hrow).trans hplace
  obtain ⟨hrepo, hpath⟩ := Prod.mk.inj hown
  refine ⟨row, ?_, ?_⟩
  · simp only [live_code_artifacts, code_artifacts, List.mem_filter, Bool.and_eq_true, beq_iff_eq, bne_iff_ne,
      Option.isNone_iff_eq_none, hwf.mem_joined_iff]
    exact ⟨⟨⟨h.code.mem, hrow, hid⟩, ⟨(hplaced.is_code_item_iff hrow).2 hkey, hrepo⟩, h.code.not_alias⟩, h.code.live⟩
  · rw [code_node, hpath, h.title, h.body_text]

theorem mem_code_nodes (hwf : WellFormed p r) (hplaced : RowsPlaced place r) :
    node ∈ code_nodes r repo ↔ ∃ a, ShowsAs place r repo node a := by
  constructor
  · intro h
    obtain ⟨entry, hentry, rfl⟩ := List.mem_map.1 h
    exact ⟨entry.1, mem_live_code_artifacts hwf hplaced hentry⟩
  · rintro ⟨a, ha⟩
    obtain ⟨row, hmem, hnode⟩ := ha.mem hwf hplaced
    exact List.mem_map.2 ⟨(a, row), hmem, hnode⟩

/-- The node of a live artifact is found by its id. -/
theorem ShowsAs.node_of (h : ShowsAs place r repo node a) (hwf : WellFormed p r) (hplaced : RowsPlaced place r) :
    node_of r repo a.artifact_id = some node := by
  obtain ⟨row, hmem, hnode⟩ := h.mem hwf hplaced
  unfold AgenticKb.node_of
  cases hfound : (live_code_artifacts r repo).find? fun entry => entry.1.artifact_id == a.artifact_id with
  | none => exact absurd (List.find?_eq_none.1 hfound (a, row) hmem) (by simp)
  | some entry =>
    have hshows := mem_live_code_artifacts hwf hplaced (List.mem_of_find?_eq_some hfound)
    have hid : entry.1.artifact_id = a.artifact_id := by simpa using List.find?_some hfound
    rw [hwf.artifact_eq hshows.code.mem h.code.mem hid] at hshows
    rw [Option.map_some, (h.unique hshows hwf).2]

/-- An edge of the repo, between two artifacts of it. -/
structure LinksAs (place : SourceType × String → String × String) (r : Registry) (repo : String) (link : CodeLink)
    (e : KnowledgeEdge) : Prop where
  mem : e ∈ code_edges r
  live : e.Live
  from_end : ∃ node a, ShowsAs place r repo node a ∧ a.artifact_id = e.from_artifact_id ∧ link.from_end = some node
  to_end : ∃ node a, ShowsAs place r repo node a ∧ a.artifact_id = e.to_artifact_id ∧ link.to_end = some node
  edge_type : link.edge_type = e.edge_type
  confidence : link.confidence = e.confidence

theorem mem_code_links (hwf : WellFormed p r) (hplaced : RowsPlaced place r) (hjoins : JoinsRepos place r)
    {link : CodeLink} : link ∈ code_links r repo ↔ ∃ e, LinksAs place r repo link e := by
  unfold code_links
  rw [List.mem_map]
  constructor
  · rintro ⟨e, he, rfl⟩
    rw [List.mem_filter, Bool.and_eq_true, Option.isNone_iff_eq_none] at he
    obtain ⟨hmem, hlive, htouches⟩ := he
    obtain ⟨repo', ⟨node, a, ha, hfrom⟩, node', a', ha', hto⟩ := hjoins e hmem hlive
    -- the artifact of the repo that the edge touches is one of its two ends
    have hrepo : repo' = repo := by
      have hof : ∀ {node a}, ShowsAs place r repo' node a →
          a.artifact_id ∈ (code_artifacts r repo).map (·.1.artifact_id) → repo' = repo := by
        intro node a ha hid
        obtain ⟨entry, hentry, hid⟩ := List.mem_map.1 hid
        have hlisted := hentry
        rw [code_artifacts, List.mem_filter, hwf.mem_joined_iff] at hlisted
        have heq : entry.1 = a := hwf.artifact_eq hlisted.1.1 ha.code.mem hid
        have hmine : entry ∈ live_code_artifacts r repo := by
          rw [live_code_artifacts, List.mem_filter, heq, Option.isNone_iff_eq_none]
          exact ⟨hentry, ha.code.live⟩
        have hshows := mem_live_code_artifacts hwf hplaced hmine
        rw [heq] at hshows
        exact (hshows.unique ha hwf).1
      simp only [touches, Bool.or_eq_true, List.contains_iff_mem] at htouches
      cases htouches with
      | inl hin => exact hof ha (hfrom ▸ hin)
      | inr hin => exact hof ha' (hto ▸ hin)
    subst hrepo
    refine ⟨e, hmem, hlive, ⟨node, a, ha, hfrom, ?_⟩, ⟨node', a', ha', hto, ?_⟩, rfl, rfl⟩
    · rw [← hfrom]
      exact ha.node_of hwf hplaced
    · rw [← hto]
      exact ha'.node_of hwf hplaced
  · rintro ⟨e, h⟩
    obtain ⟨node, a, ha, hfrom, hlink⟩ := h.from_end
    obtain ⟨node', a', ha', hto, hlink'⟩ := h.to_end
    refine ⟨e, ?_, ?_⟩
    · rw [List.mem_filter, Bool.and_eq_true, Option.isNone_iff_eq_none]
      obtain ⟨row, hrow, -⟩ := ha.mem hwf hplaced
      refine ⟨h.mem, h.live, ?_⟩
      simp only [touches, Bool.or_eq_true, List.contains_iff_mem]
      exact .inl (List.mem_map.2 ⟨(a, row), List.mem_of_mem_filter hrow, hfrom⟩)
    · obtain ⟨from_end, to_end, edge_type, confidence⟩ := link
      rw [CodeLink.mk.injEq, ← hfrom, ← hto, ha.node_of hwf hplaced, ha'.node_of hwf hplaced]
      exact ⟨hlink.symm, hlink'.symm, h.edge_type.symm, h.confidence.symm⟩

/-- What a restriction of the code graph shows was shown before. -/
theorem CodeRestricts.shows_from (h : CodeRestricts place of r r') {a' : KnowledgeArtifact}
    (ha' : ShowsAs place r' repo node a') :
    ∃ a, ShowsAs place r repo node a ∧ of a ∧ a'.artifact_id = a.artifact_id := by
  obtain ⟨a, ha, hof, hsame⟩ := h.artifacts_from a' ha'.code
  have hhome := (h.homes _ (fun key hkey => hkey.1) _).1 ha'.home
  exact ⟨a, ⟨ha, hsame.source_id ▸ hhome, hsame.title.symm.trans ha'.title, hsame.body_text.symm.trans ha'.body_text⟩,
    hof, hsame.artifact_id⟩

theorem CodeRestricts.shows_to (h : CodeRestricts place of r r') (ha : ShowsAs place r repo node a) (hof : of a) :
    ∃ a', ShowsAs place r' repo node a' ∧ a'.artifact_id = a.artifact_id := by
  obtain ⟨a', ha', hsame⟩ := h.artifacts_to a ha.code hof
  have hhome := (h.homes _ (fun key hkey => hkey.1) _).2 ha.home
  exact ⟨a', ⟨ha', hsame.source_id.symm ▸ hhome, hsame.title.trans ha.title, hsame.body_text.trans ha.body_text⟩,
    hsame.artifact_id⟩

theorem CodeRestricts.joinsRepos (h : CodeRestricts place of r r') (hjoins : JoinsRepos place r) :
    JoinsRepos place r' := by
  intro e he hlive
  obtain ⟨hmem, hof⟩ := (h.edges e hlive).1 he
  obtain ⟨repo, ⟨node, a, ha, hfrom⟩, node', a', ha', hto⟩ := hjoins e hmem hlive
  obtain ⟨b, hb, hid⟩ := h.shows_to ha (hof a ha.code (touches_singleton.2 (.inl hfrom)))
  obtain ⟨b', hb', hid'⟩ := h.shows_to ha' (hof a' ha'.code (touches_singleton.2 (.inr hto)))
  exact ⟨repo, ⟨node, b, hb, hid.trans hfrom⟩, node', b', hb', hid'.trans hto⟩

/-- The edges of a restriction are those between artifacts that stay. -/
theorem CodeRestricts.links_iff (h : CodeRestricts place of r r') {link : CodeLink} :
    LinksAs place r' repo link e ↔
      LinksAs place r repo link e ∧ ∀ a, LiveCode place r a → touches [a.artifact_id] e = true → of a := by
  constructor
  · intro hlink
    obtain ⟨hmem, hof⟩ := (h.edges e hlink.live).1 hlink.mem
    obtain ⟨node, a', ha', hfrom, hnode⟩ := hlink.from_end
    obtain ⟨node', b', hb', hto, hnode'⟩ := hlink.to_end
    obtain ⟨a, ha, -, hid⟩ := h.shows_from ha'
    obtain ⟨b, hb, -, hid'⟩ := h.shows_from hb'
    exact ⟨{ hlink with
      mem := hmem
      from_end := ⟨node, a, ha, hid.symm.trans hfrom, hnode⟩
      to_end := ⟨node', b, hb, hid'.symm.trans hto, hnode'⟩ }, hof⟩
  · rintro ⟨hlink, hof⟩
    obtain ⟨node, a, ha, hfrom, hnode⟩ := hlink.from_end
    obtain ⟨node', b, hb, hto, hnode'⟩ := hlink.to_end
    obtain ⟨a', ha', hid⟩ := h.shows_to ha (hof a ha.code (touches_singleton.2 (.inl hfrom)))
    obtain ⟨b', hb', hid'⟩ := h.shows_to hb (hof b hb.code (touches_singleton.2 (.inr hto)))
    exact { hlink with
      mem := (h.edges e hlink.live).2 ⟨hlink.mem, hof⟩
      from_end := ⟨node, a', ha', hid.trans hfrom, hnode⟩
      to_end := ⟨node', b', hb', hid'.trans hto, hnode'⟩ }

/-- The same code graph serves the same answer. -/
theorem SameCode.servesGraph (h : SameCode place r r') (hwf : WellFormed p r) (hwf' : WellFormed p r')
    (hplaced : RowsPlaced place r) (hplaced' : RowsPlaced place r') (hjoins : JoinsRepos place r)
    {result : GraphifyResult} (hserves : ServesGraph r repo result) : ServesGraph r' repo result := by
  constructor
  · intro node
    rw [← hserves.1 node, mem_code_nodes hwf hplaced, mem_code_nodes hwf' hplaced']
    constructor
    · rintro ⟨a', ha'⟩
      obtain ⟨a, ha, -⟩ := h.shows_from ha'
      exact ⟨a, ha⟩
    · rintro ⟨a, ha⟩
      obtain ⟨a', ha', -⟩ := h.shows_to ha trivial
      exact ⟨a', ha'⟩
  · intro link
    rw [← hserves.2 link, mem_code_links hwf hplaced hjoins, mem_code_links hwf' hplaced' (h.joinsRepos hjoins)]
    refine exists_congr fun e => ?_
    rw [h.links_iff]
    simp

end View

end AgenticKb
