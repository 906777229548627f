import AgenticKb.Effects.Build
import AgenticKb.Effects.LinkReferences

open AgenticKb.Lib

namespace AgenticKb

/-- A row of the loader's join, with the repository that the loader leaves out. -/
structure LinkRow where
  repo : Option String
  artifact : LinkableArtifact
deriving DecidableEq, Repr

def load_link_rows (p : Platform) (r : Registry) : List LinkRow :=
  (r.joined.filter fun (_, s) => !s.is_deleted).map fun (a, s) =>
    { repo := s.repo
      artifact :=
        { artifact_id := a.artifact_id
          artifact_type := a.artifact_type
          title := a.title
          body_text := a.body_text.map p.body_string
          source_type := s.source_type
          external_id := s.external_id
          path := s.path
          branch := s.branch } }

section Statements

variable (u : Unicode) (rows : List LinkRow)

def link_artifacts : List LinkableArtifact := rows.map (·.artifact)

/-- The logical links of the deterministic and the cross-domain rules. -/
def links_of : List (Uuid × Uuid × EdgeType) :=
  (find_deterministic_links u (link_artifacts rows)).map LinkEdgeDraft.key

/-- The links are those of the set, in whatever order the rows come. -/
def OrderFree : Prop :=
  ∀ rows' : List LinkRow, rows'.Perm rows → ∀ link, link ∈ links_of u rows' ↔ link ∈ links_of u rows

/-- A file at the same path, or a symbol of the same title in it. -/
def Counterpart (a own : LinkableArtifact) : Prop :=
  own.artifact_type = a.artifact_type ∧ own.path = a.path ∧ a.path ≠ none ∧
    (a.artifact_type = .code_file ∨ a.artifact_type = .code_symbol ∧ own.title = a.title)

/-- The second row is of another repository, and the first one's repository has its own in its place. -/
def HasOwn (row other : LinkRow) : Prop :=
  row.repo ≠ none ∧ other.repo ≠ none ∧ other.repo ≠ row.repo ∧
    ∃ own ∈ rows, own.repo = row.repo ∧ Counterpart other.artifact own.artifact

/-- No link joins a reference with a file or symbol of another repository where its own repository has one. -/
def StaysHome : Prop :=
  ∀ rows' : List LinkRow, rows'.Perm rows → ∀ x ∈ rows, ∀ y ∈ rows, ∀ edge_type,
    (x.artifact.artifact_id, y.artifact.artifact_id, edge_type) ∈ links_of u rows' → ¬ HasOwn rows x y ∧ ¬ HasOwn rows y x

/-- One of the maker's references of this type means the artifact and no other. -/
def Settled (ref : LinkReference) (a : LinkableArtifact) : Prop :=
  ∃ other ∈ link_references u (link_artifacts rows), other.from_artifact_id = ref.from_artifact_id ∧
    other.edge_type = ref.edge_type ∧ other.means a = true ∧
    ∀ b ∈ link_artifacts rows, other.means b = true → b = a

/-- Whatever a reference may mean is meant without a doubt. -/
def OneReading : Prop :=
  ∀ ref ∈ link_references u (link_artifacts rows), ∀ a ∈ link_artifacts rows, ref.means a = true →
    a.artifact_id ≠ ref.from_artifact_id → Settled u rows ref a

/-- No reference may mean a file or symbol of another repository where its own repository has one. -/
def OwnNamed : Prop :=
  ∀ ref ∈ link_references u (link_artifacts rows), ∀ x ∈ rows, ∀ y ∈ rows,
    x.artifact.artifact_id = ref.from_artifact_id → ref.means y.artifact = true →
    y.artifact.artifact_id ≠ ref.from_artifact_id → ¬ HasOwn rows x y ∧ ¬ HasOwn rows y x

instance (a own : LinkableArtifact) : Decidable (Counterpart a own) := inferInstanceAs (Decidable (_ ∧ _ ∧ _ ∧ _))

instance (row other : LinkRow) : Decidable (HasOwn rows row other) :=
  inferInstanceAs (Decidable (_ ∧ _ ∧ _ ∧ ∃ own ∈ rows, own.repo = row.repo ∧ Counterpart other.artifact own.artifact))

instance (ref : LinkReference) (a : LinkableArtifact) : Decidable (Settled u rows ref a) :=
  inferInstanceAs (Decidable (∃ other ∈ link_references u (link_artifacts rows), _ ∧ _ ∧ _ ∧
    ∀ b ∈ link_artifacts rows, other.means b = true → b = a))

instance : Decidable (OneReading u rows) :=
  inferInstanceAs (Decidable (∀ ref ∈ link_references u (link_artifacts rows), ∀ a ∈ link_artifacts rows,
    ref.means a = true → a.artifact_id ≠ ref.from_artifact_id → Settled u rows ref a))

instance : Decidable (OwnNamed u rows) :=
  inferInstanceAs (Decidable (∀ ref ∈ link_references u (link_artifacts rows), ∀ x ∈ rows, ∀ y ∈ rows,
    x.artifact.artifact_id = ref.from_artifact_id → ref.means y.artifact = true →
    y.artifact.artifact_id ≠ ref.from_artifact_id → ¬ HasOwn rows x y ∧ ¬ HasOwn rows y x))

/-- Commits come from the git log, under whose sources `write_commit_artifact` puts them. -/
def CommitsFromGit : Prop :=
  ∀ a ∈ link_artifacts rows, a.artifact_type = COMMIT_ARTIFACT_TYPE → a.source_type = .git_metadata

instance : Decidable (CommitsFromGit rows) :=
  inferInstanceAs (Decidable (∀ a ∈ link_artifacts rows, a.artifact_type = COMMIT_ARTIFACT_TYPE →
    a.source_type = .git_metadata))

end Statements

section Orders

variable {u : Unicode} {artifacts artifacts' : List LinkableArtifact} {ref other : LinkReference} {a : LinkableArtifact}

/-- A reference is followed to one of the rows it may mean. -/
theorem target_mem (h : ref.target artifacts = some a) : a ∈ artifacts ∧ ref.means a = true := by
  unfold LinkReference.target at h
  cases hkeeps : ref.keeps with
  | first =>
    rw [hkeeps] at h
    exact ⟨List.mem_of_find?_eq_some h, List.find?_some h⟩
  | last =>
    rw [hkeeps] at h
    exact ⟨List.mem_reverse.mp (List.mem_of_find?_eq_some h), List.find?_some h⟩

/-- The only row a reference may mean is the one it is followed to. -/
theorem target_sole (hin : a ∈ artifacts) (hmeans : ref.means a = true)
    (hsole : ∀ b ∈ artifacts, ref.means b = true → b = a) : ref.target artifacts = some a := by
  have hsome : (ref.target artifacts).isSome := by
    unfold LinkReference.target
    cases ref.keeps with
    | first => exact List.find?_isSome.mpr ⟨a, hin, hmeans⟩
    | last => exact List.find?_isSome.mpr ⟨a, List.mem_reverse.mpr hin, hmeans⟩
  obtain ⟨b, hb⟩ := Option.isSome_iff_exists.mp hsome
  obtain ⟨hb_in, hb_means⟩ := target_mem hb
  rw [hb, hsole b hb_in hb_means]

/-- The references are those of the set of artifacts. -/
theorem link_references_perm (h : artifacts'.Perm artifacts) :
    ref ∈ link_references u artifacts' ↔ ref ∈ link_references u artifacts := by
  have hconcepts : (concept_matchers u artifacts').Perm (concept_matchers u artifacts) := h.filterMap _
  have hsymbols : (symbol_matchers u artifacts').Perm (symbol_matchers u artifacts) := h.filterMap _
  have hcode : (code_matchers u artifacts').Perm (code_matchers u artifacts) := hsymbols.append (h.filterMap _)
  have hdocs : (linkable_docs artifacts').Perm (linkable_docs artifacts) := h.filter _
  have hsha : is_referenced_commit artifacts' = is_referenced_commit artifacts := by
    funext sha a
    unfold is_referenced_commit
    rw [h.any_eq, h.all_eq]
  have hcommits : commit_references u artifacts' = commit_references u artifacts := by
    funext commit
    unfold commit_references commit_reference
    rw [hsha]
  have htitles : ∀ draft, draft ∈ concept_links u artifacts' ++ doc_links u artifacts' ↔
      draft ∈ concept_links u artifacts ++ doc_links u artifacts := by
    intro draft
    simp only [concept_links, doc_links, List.mem_append, List.mem_flatMap, List.mem_filterMap, hconcepts.mem_iff,
      hsymbols.mem_iff, hcode.mem_iff, hdocs.mem_iff]
  simp only [link_references, List.mem_append, List.mem_map, List.mem_flatMap, hcommits, hdocs.mem_iff,
    (h.filter _).mem_iff]
  simp only [List.mem_append] at htitles
  simp only [htitles]

/-- Who makes a reference, and which of its rows the index of its kind keeps. -/
theorem reference_cases (href : ref ∈ link_references u artifacts) :
    (ref.keeps = .first ∧ ∃ x ∈ artifacts, x.artifact_id = ref.from_artifact_id ∧
      x.artifact_type ≠ COMMIT_ARTIFACT_TYPE) ∨
    ∃ x ∈ artifacts, x.artifact_id = ref.from_artifact_id ∧ x.artifact_type = COMMIT_ARTIFACT_TYPE ∧
      (ref.keeps = .first ∧ ref.edge_type = .implements ∧
          (∀ a, ref.means a = true → WORK_ITEM_SOURCE_TYPES.contains a.source_type = true) ∨
        ref.keeps = .last ∧ ref.edge_type = .implements ∧
          (∀ a, ref.means a = true → a.artifact_type = COMMIT_ARTIFACT_TYPE) ∨
        ref.keeps = .last ∧ ref.edge_type = .mentions) := by
  rw [link_references, List.mem_append, List.mem_append] at href
  obtain htitle | hcommit | hdoc := href
  · obtain ⟨draft, hdraft, rfl⟩ := List.mem_map.mp htitle
    exact .inl ⟨rfl, (title_link_ends hdraft).1⟩
  · obtain ⟨commit, hin, href⟩ := List.mem_flatMap.mp hcommit
    rw [List.mem_filter, beq_iff_eq] at hin
    rw [commit_references, List.mem_append, List.mem_append] at href
    obtain hwork | hsha | hfile := href
    · obtain ⟨parsed, -, rfl⟩ := List.mem_map.mp hwork
      refine .inr ⟨commit, hin.1, rfl, hin.2, .inl ⟨rfl, rfl, ?_⟩⟩
      intro a hmeans
      exact (Bool.and_eq_true_iff.mp hmeans).1
    · obtain ⟨parsed, -, rfl⟩ := List.mem_map.mp hsha
      refine .inr ⟨commit, hin.1, rfl, hin.2, .inr (.inl ⟨rfl, rfl, ?_⟩)⟩
      intro a hmeans
      have hknown := (Bool.and_eq_true_iff.mp hmeans).1
      exact beq_iff_eq.mp (Bool.and_eq_true_iff.mp hknown).1
    · obtain ⟨path, -, rfl⟩ := List.mem_map.mp hfile
      exact .inr ⟨commit, hin.1, rfl, hin.2, .inr (.inr ⟨rfl, rfl⟩)⟩
  · obtain ⟨doc, hin, href⟩ := List.mem_flatMap.mp hdoc
    obtain ⟨_, -, rfl⟩ := List.mem_map.mp href
    obtain ⟨hin, hprose⟩ := List.mem_filter.mp hin
    refine .inl ⟨rfl, doc, hin, rfl, ?_⟩
    intro hcommit
    rw [hcommit] at hprose
    cases hprose

/-- References of one maker and type that may mean the same row keep the same end of the rows. -/
theorem keeps_eq (hids : (artifacts.map (·.artifact_id)).Nodup)
    (hgit : ∀ a ∈ artifacts, a.artifact_type = COMMIT_ARTIFACT_TYPE → a.source_type = .git_metadata)
    (href : ref ∈ link_references u artifacts) (hother : other ∈ link_references u artifacts)
    (hfrom : other.from_artifact_id = ref.from_artifact_id) (htype : other.edge_type = ref.edge_type)
    (hin : a ∈ artifacts) (hmeans : ref.means a = true) (hmeans' : other.means a = true) :
    other.keeps = ref.keeps := by
  have hmaker : ∀ {x y : LinkableArtifact}, x ∈ artifacts → y ∈ artifacts → x.artifact_id = ref.from_artifact_id →
      y.artifact_id = other.from_artifact_id → x.artifact_type = COMMIT_ARTIFACT_TYPE →
      y.artifact_type = COMMIT_ARTIFACT_TYPE := by
    intro x y hx hy hxid hyid hcommit
    have hsame : y = x := List.inj_on_of_nodup_map hids hy hx (hyid.trans (hfrom.trans hxid.symm))
    rw [hsame]
    exact hcommit
  have hnever : WORK_ITEM_SOURCE_TYPES.contains a.source_type = true → a.artifact_type ≠ COMMIT_ARTIFACT_TYPE := by
    intro hwork hcommit
    rw [hgit a hin hcommit] at hwork
    cases hwork
  cases reference_cases href with
  | inl hfirst =>
    obtain ⟨hkeeps, x, hx, hxid, hxtype⟩ := hfirst
    cases reference_cases hother with
    | inl hfirst' => rw [hkeeps, hfirst'.1]
    | inr hcommit =>
      obtain ⟨y, hy, hyid, hytype, -⟩ := hcommit
      have hsame : y = x := List.inj_on_of_nodup_map hids hy hx (hyid.trans (hfrom.trans hxid.symm))
      exact absurd (hsame ▸ hytype) hxtype
  | inr hcommit =>
    obtain ⟨x, hx, hxid, hxtype, hkind⟩ := hcommit
    cases reference_cases hother with
    | inl hfirst' =>
      obtain ⟨-, y, hy, hyid, hytype⟩ := hfirst'
      exact absurd (hmaker hx hy hxid hyid hxtype) hytype
    | inr hcommit' =>
      obtain ⟨-, -, -, -, hkind'⟩ := hcommit'
      obtain ⟨hkeeps, himpl, hwork⟩ | ⟨hkeeps, himpl, hsha⟩ | ⟨hkeeps, hment⟩ := hkind
      · obtain ⟨hkeeps', -⟩ | ⟨-, -, hsha'⟩ | ⟨-, hment'⟩ := hkind'
        · rw [hkeeps, hkeeps']
        · exact absurd (hsha' a hmeans') (hnever (hwork a hmeans))
        · rw [hment', himpl] at htype
          cases htype
      · obtain ⟨-, -, hwork'⟩ | ⟨hkeeps', -⟩ | ⟨hkeeps', -⟩ := hkind'
        · exact absurd (hsha a hmeans) (hnever (hwork' a hmeans'))
        · rw [hkeeps, hkeeps']
        · rw [hkeeps, hkeeps']
      · obtain ⟨-, himpl', -⟩ | ⟨hkeeps', -⟩ | ⟨hkeeps', -⟩ := hkind'
        · rw [himpl', hment] at htype
          cases htype
        · rw [hkeeps, hkeeps']
        · rw [hkeeps, hkeeps']

end Orders

section Linking

variable {u : Unicode} {rows rows' : List LinkRow} {ref : LinkReference} {a : LinkableArtifact}
  {link : Uuid × Uuid × EdgeType}

theorem link_artifacts_perm (h : rows'.Perm rows) : (link_artifacts rows').Perm (link_artifacts rows) := h.map _

theorem mem_links_of : link ∈ links_of u rows ↔
    Follows (link_artifacts rows) (link_references u (link_artifacts rows)) link ∧ link.1 ≠ link.2.1 :=
  mem_find_deterministic_links

/-- A link of some order of the rows is a reference, followed to one of the rows it may mean. -/
theorem reference_of_link (hperm : rows'.Perm rows) (h : link ∈ links_of u rows') :
    link.1 ≠ link.2.1 ∧ ∃ ref ∈ link_references u (link_artifacts rows), ∃ a ∈ link_artifacts rows,
      ref.means a = true ∧ link = (ref.from_artifact_id, a.artifact_id, ref.edge_type) := by
  obtain ⟨⟨ref, href, a, htarget, hlink⟩, hne⟩ := mem_links_of.mp h
  obtain ⟨hin, hmeans⟩ := target_mem htarget
  have hperm' := link_artifacts_perm hperm
  exact ⟨hne, ref, (link_references_perm hperm').mp href, a, hperm'.mem_iff.mp hin, hmeans, hlink⟩

/-- Where every row that a reference may mean is meant without a doubt, the order of the rows does not matter. -/
theorem link_of_settled (hone : OneReading u rows) (hperm : rows'.Perm rows)
    (href : ref ∈ link_references u (link_artifacts rows)) (hin : a ∈ link_artifacts rows)
    (hmeans : ref.means a = true) (hne : ref.from_artifact_id ≠ a.artifact_id) :
    (ref.from_artifact_id, a.artifact_id, ref.edge_type) ∈ links_of u rows' := by
  obtain ⟨other, hother, hfrom, htype, hother_means, hsole⟩ := hone ref href a hin hmeans hne.symm
  have hperm' := link_artifacts_perm hperm
  have htarget : other.target (link_artifacts rows') = some a :=
    target_sole (hperm'.mem_iff.mpr hin) hother_means fun b hb => hsole b (hperm'.mem_iff.mp hb)
  refine mem_links_of.mpr ⟨⟨other, (link_references_perm hperm').mpr hother, a, htarget, ?_⟩, hne⟩
  rw [hfrom, htype]

/-- In some order of the rows a reference is followed to any given row that it may mean. -/
theorem exists_followed (href : ref ∈ link_references u (link_artifacts rows)) (hin : a ∈ link_artifacts rows)
    (hmeans : ref.means a = true) (hne : ref.from_artifact_id ≠ a.artifact_id) :
    ∃ rows' : List LinkRow, rows'.Perm rows ∧ (ref.from_artifact_id, a.artifact_id, ref.edge_type) ∈ links_of u rows' := by
  obtain ⟨row, hrow, rfl⟩ := List.mem_map.mp hin
  obtain ⟨before, after, rfl⟩ := List.append_of_mem hrow
  have hlink : ∀ rows' : List LinkRow, rows'.Perm (before ++ row :: after) →
      ref.target (link_artifacts rows') = some row.artifact →
      (ref.from_artifact_id, row.artifact.artifact_id, ref.edge_type) ∈ links_of u rows' := fun rows' hperm htarget =>
    mem_links_of.mpr ⟨⟨ref, (link_references_perm (link_artifacts_perm hperm)).mpr href, _, htarget, rfl⟩, hne⟩
  cases hkeeps : ref.keeps with
  | first =>
    have hperm : (row :: (before ++ after)).Perm (before ++ row :: after) := List.perm_middle.symm
    refine ⟨_, hperm, hlink _ hperm ?_⟩
    rw [LinkReference.target, hkeeps]
    exact List.find?_cons_of_pos hmeans
  | last =>
    have hperm : ((before ++ after) ++ [row]).Perm (before ++ row :: after) :=
      (List.perm_append_singleton row _).trans List.perm_middle.symm
    refine ⟨_, hperm, hlink _ hperm ?_⟩
    rw [LinkReference.target, hkeeps, link_artifacts, List.map_append, List.reverse_append]
    exact List.find?_cons_of_pos hmeans

/-- In the opposite order only an undoubted reference is followed to the row. -/
theorem settled_of_every_order (hids : (rows.map (·.artifact.artifact_id)).Nodup) (hgit : CommitsFromGit rows)
    (href : ref ∈ link_references u (link_artifacts rows)) (hin : a ∈ link_artifacts rows) (hmeans : ref.means a = true)
    (hevery : ∀ rows' : List LinkRow, rows'.Perm rows →
      (ref.from_artifact_id, a.artifact_id, ref.edge_type) ∈ links_of u rows') : Settled u rows ref a := by
  have hids' : ((link_artifacts rows).map (·.artifact_id)).Nodup := by
    rw [link_artifacts, List.map_map]
    exact hids
  obtain ⟨row, hrow, rfl⟩ := List.mem_map.mp hin
  obtain ⟨before, after, hrows⟩ := List.append_of_mem hrow
  -- the row where the index does not look first, and the reference that is followed there nevertheless
  have hfollowed : ∀ rows' : List LinkRow, rows'.Perm rows → ∃ other ∈ link_references u (link_artifacts rows),
      other.from_artifact_id = ref.from_artifact_id ∧ other.edge_type = ref.edge_type ∧
        other.means row.artifact = true ∧ other.keeps = ref.keeps ∧
        other.target (link_artifacts rows') = some row.artifact := by
    intro rows' hperm
    have hperm' := link_artifacts_perm hperm
    obtain ⟨⟨other, hother, b, htarget, hlink⟩, -⟩ := mem_links_of.mp (hevery rows' hperm)
    simp only [Prod.mk.injEq] at hlink
    obtain ⟨hb, hb_means⟩ := target_mem htarget
    have hsame : b = row.artifact := List.inj_on_of_nodup_map hids' (hperm'.mem_iff.mp hb) hin hlink.2.1.symm
    subst hsame
    have hother' := (link_references_perm hperm').mp hother
    exact ⟨other, hother', hlink.1.symm, hlink.2.2.symm, hb_means,
      keeps_eq hids' hgit href hother' hlink.1.symm hlink.2.2.symm hin hmeans hb_means, htarget⟩
  have hcover : ∀ b ∈ link_artifacts rows, b ∈ link_artifacts (before ++ after) ∨ b = row.artifact := by
    intro b hb
    rw [hrows] at hb
    simp only [link_artifacts, List.map_append, List.map_cons, List.mem_append, List.mem_cons] at hb ⊢
    tauto
  have hown : row.artifact ∉ link_artifacts (before ++ after) := by
    have hperm : (row :: (before ++ after)).Perm rows := hrows ▸ List.perm_middle.symm
    have hnodup := (((link_artifacts_perm hperm).map (·.artifact_id)).nodup_iff).mpr hids'
    intro hmem
    exact (List.nodup_cons.mp hnodup).1 (List.mem_map_of_mem hmem)
  -- a search that comes to the row last has found no other
  have hlast : ∀ (means : LinkableArtifact → Bool) (others : List LinkableArtifact),
      (∀ b ∈ others, b ∈ link_artifacts (before ++ after)) → (others ++ [row.artifact]).find? means = some row.artifact →
      ∀ b ∈ others, ¬ means b = true := by
    intro means others hothers hfind
    rw [List.find?_append] at hfind
    cases hfirst : others.find? means with
    | none => exact List.find?_eq_none.mp hfirst
    | some c =>
      rw [hfirst, Option.some_or, Option.some.injEq] at hfind
      exact absurd (hothers c (List.mem_of_find?_eq_some hfirst)) (hfind ▸ hown)
  have hsettled : ∀ other ∈ link_references u (link_artifacts rows), other.from_artifact_id = ref.from_artifact_id →
      other.edge_type = ref.edge_type → other.means row.artifact = true →
      (∀ b ∈ link_artifacts (before ++ after), ¬ other.means b = true) → Settled u rows ref row.artifact := by
    intro other hother hfrom htype hother_means hnone
    refine ⟨other, hother, hfrom, htype, hother_means, ?_⟩
    intro b hb hb_means
    cases hcover b hb with
    | inl hrest => exact absurd hb_means (hnone b hrest)
    | inr hsame => exact hsame
  cases hkeeps : ref.keeps with
  | first =>
    have hperm : ((before ++ after) ++ [row]).Perm rows :=
      hrows ▸ (List.perm_append_singleton row _).trans List.perm_middle.symm
    obtain ⟨other, hother, hfrom, htype, hother_means, hother_keeps, htarget⟩ := hfollowed _ hperm
    rw [LinkReference.target, hother_keeps, hkeeps, link_artifacts, List.map_append] at htarget
    exact hsettled other hother hfrom htype hother_means (hlast other.means _ (fun b hb => hb) htarget)
  | last =>
    have hperm : (row :: (before ++ after)).Perm rows := hrows ▸ List.perm_middle.symm
    obtain ⟨other, hother, hfrom, htype, hother_means, hother_keeps, htarget⟩ := hfollowed _ hperm
    rw [LinkReference.target, hother_keeps, hkeeps, link_artifacts, List.map_cons, List.reverse_cons] at htarget
    have hnone := hlast other.means _ (fun b hb => List.mem_reverse.mp hb) htarget
    exact hsettled other hother hfrom htype hother_means fun b hb => hnone b (List.mem_reverse.mpr hb)

/-- Linking that is a function of the set and keeps references at home leaves no doubt. -/
theorem oneReading_of_sound (hids : (rows.map (·.artifact.artifact_id)).Nodup) (hgit : CommitsFromGit rows)
    (hsame : OrderFree u rows) : OneReading u rows := by
  intro ref href a hin hmeans hne
  obtain ⟨first, hfirst, hlink⟩ := exists_followed href hin hmeans (Ne.symm hne)
  apply settled_of_every_order hids hgit href hin hmeans
  intro rows' hperm
  exact (hsame rows' hperm _).mpr ((hsame first hfirst _).mp hlink)

theorem ownNamed_of_staysHome (hhome : StaysHome u rows) : OwnNamed u rows := by
  intro ref href x hx y hy hfrom hmeans hne
  have hin : y.artifact ∈ link_artifacts rows := List.mem_map_of_mem hy
  obtain ⟨rows', hperm, hlink⟩ := exists_followed href hin hmeans (Ne.symm hne)
  rw [← hfrom] at hlink
  exact hhome rows' hperm x hx y hy ref.edge_type hlink

/-- What is meant without a doubt is linked in every order. -/
theorem orderFree_of_oneReading (hone : OneReading u rows) : OrderFree u rows := by
  have hevery : ∀ {rows' rows'' : List LinkRow}, rows'.Perm rows → rows''.Perm rows → ∀ link,
      link ∈ links_of u rows' → link ∈ links_of u rows'' := by
    intro rows' rows'' hperm hperm' link hlink
    obtain ⟨hne, ref, href, a, hin, hmeans, rfl⟩ := reference_of_link hperm hlink
    exact link_of_settled hone hperm' href hin hmeans hne
  intro rows' hperm link
  exact ⟨hevery hperm (.refl rows) link, hevery (.refl rows) hperm link⟩

theorem staysHome_of_ownNamed (hids : (rows.map (·.artifact.artifact_id)).Nodup) (howns : OwnNamed u rows) :
    StaysHome u rows := by
  intro rows' hperm x hx y hy edge_type hlink
  obtain ⟨hne, ref, href, a, hin, hmeans, heq⟩ := reference_of_link hperm hlink
  simp only [Prod.mk.injEq] at heq
  obtain ⟨row, hrow, rfl⟩ := List.mem_map.mp hin
  have hsame : y = row := List.inj_on_of_nodup_map hids hy hrow heq.2.1
  subst hsame
  exact howns ref href x hx y hy heq.1 hmeans (heq.1 ▸ Ne.symm hne)

/-- Linking is a function of the set of artifacts and keeps references in their own repository exactly when every row
    that a reference may mean is meant without a doubt, and none is a file or symbol of another repository that the
    reference's own repository has as well. -/
theorem linking_sound_iff (u : Unicode) (rows : List LinkRow) (hids : (rows.map (·.artifact.artifact_id)).Nodup)
    (hgit : CommitsFromGit rows) :
    OrderFree u rows ∧ StaysHome u rows ↔ OneReading u rows ∧ OwnNamed u rows := by
  constructor
  · rintro ⟨hsame, hhome⟩
    exact ⟨oneReading_of_sound hids hgit hsame, ownNamed_of_staysHome hhome⟩
  · rintro ⟨hone, howns⟩
    exact ⟨orderFree_of_oneReading hone, staysHome_of_ownNamed hids howns⟩

end Linking

section Builds

theorem load_link_rows_artifacts (p : Platform) (r : Registry) :
    (load_link_rows p r).map (·.artifact) = load_linkable_artifacts p r := by
  rw [load_link_rows, List.map_map]
  rfl

/-- The loader returns a row for each artifact at most. -/
theorem nodup_load_link_rows {p : Platform} {r : Registry} (hwf : WellFormed p r) :
    ((load_link_rows p r).map (·.artifact.artifact_id)).Nodup := by
  have hids := List.pairwise_map.mp hwf.artifact_ids
  rw [load_link_rows, List.map_map, List.Nodup, List.pairwise_map]
  apply List.Pairwise.filter
  rw [Registry.joined, List.pairwise_filterMap]
  refine hids.imp ?_
  intro a b hne entry hentry entry' hentry'
  obtain ⟨s, -, rfl⟩ := Option.map_eq_some_iff.mp hentry
  obtain ⟨s', -, rfl⟩ := Option.map_eq_some_iff.mp hentry'
  exact hne

/-- Every commit hangs on a source of the git log. -/
def CommitsUnderGit (r : Registry) : Prop :=
  ∀ a ∈ r.artifacts, a.artifact_type = COMMIT_ARTIFACT_TYPE → KeyedBy (fun key => key.1 = .git_metadata) r a.source_id

variable {p : Platform} {b : Build} {r r' : Registry}

/-- It stays so while commits are none but the old ones, and rows keep their ids and keys. -/
theorem CommitsUnderGit.persist (h : CommitsUnderGit r)
    (hcommits : ∀ a ∈ r'.artifacts, a.artifact_type = COMMIT_ARTIFACT_TYPE →
      ∃ old ∈ r.artifacts, old.artifact_type = COMMIT_ARTIFACT_TYPE ∧ old.source_id = a.source_id)
    (hpersist : ∀ row ∈ r.source_items, ∃ row' ∈ r'.source_items, row'.source_id = row.source_id ∧ row'.key = row.key) :
    CommitsUnderGit r' := by
  intro a ha htype
  obtain ⟨old, hold, hold_type, hsource⟩ := hcommits a ha htype
  exact hsource ▸ (h old hold hold_type).persist hpersist

theorem CommitsUnderGit.of_tables (h : CommitsUnderGit r) (ha : r'.artifacts = r.artifacts)
    (hs : r'.source_items = r.source_items) : CommitsUnderGit r' :=
  h.persist (fun a hmem htype => ⟨a, ha ▸ hmem, htype, rfl⟩) fun row hrow => ⟨row, hs ▸ hrow, rfl, rfl⟩

/-- The source loop writes commits for the git log only. -/
theorem loopRule_commitsUnderGit (p : Platform) (b : Build) (n : Nat) :
    LoopRule p b n (fun _ _ => True) (fun _ _ => True) fun r _ => CommitsUnderGit r where
  touched htouch h := h.persist (fun a hmem htype => ⟨a, htouch.artifacts ▸ hmem, htype, rfl⟩) htouch.persist
  processed {s r' fetched id added} _ h _ _ _ _ hprocessed _ := by
    intro a ha htype
    rw [hprocessed.artifacts] at ha
    cases List.mem_append.mp ha with
    | inl hold => exact (h a hold htype).persist hprocessed.advanced.persist
    | inr hnew =>
      obtain ⟨row, hrow, hid, hsame, -, -⟩ := hprocessed.advanced.row
      have hkey : row.key = fetched.key := same_source_iff.mp hsame
      have hgit : fetched.key.1 = .git_metadata := hprocessed.commits a hnew htype
      exact ⟨row, hrow, hid.trans (hprocessed.extracted a hnew).source_id.symm, hkey ▸ hgit⟩
  repo {s s' entry result rows added links} _ _ _ _ h _ _ hw := by
    refine h.persist ?_ ?_
    · intro a ha htype
      rw [hw.artifacts] at ha
      cases List.mem_append.mp ha with
      | inl hold => exact ⟨a, hold, htype, rfl⟩
      | inr hnew => exact absurd htype (hw.not_commit a hnew)
    · rw [hw.source_items]
      exact hw.upserted.persist

/-- The passes over the graph write no commit. -/
theorem commitsUnderGit_finalized {seen changed : List Uuid} {started_at : Timestamp} {passes : Finalized}
    (hwf : WellFormed p r) (hinj : Function.Injective p.gen_random_uuid) (h : CommitsUnderGit r)
    (hfinal : Finalizes p b r seen changed started_at passes) : CommitsUnderGit passes.mined := by
  have hjudged : CommitsUnderGit passes.judged :=
    h.of_tables hfinal.onlyEdges_judged.artifacts hfinal.onlyEdges_judged.source_items
  have hinvalidates := hfinal.invalidates hwf
  have hinvalidated : CommitsUnderGit passes.invalidated := by
    refine hjudged.persist ?_ ?_
    · intro a ha htype
      obtain ⟨old, hold, hkept⟩ := (hinvalidates.artifacts.origin ha).resolve_right id
      exact ⟨old, hold, hkept.same.artifact_type.symm.trans htype, hkept.same.source_id.symm⟩
    · intro row hrow
      obtain ⟨row', hrow', hkept⟩ := hinvalidates.source_items.successor hrow
      rw [show row' = _ from hkept] at hrow'
      exact ⟨_, hrow', rfl, rfl⟩
  have honly := hfinal.onlyAliases_mined hwf hinj
  refine hinvalidated.persist ?_ fun row hrow => ⟨row, honly.source_items ▸ hrow, rfl, rfl⟩
  intro a ha htype
  cases honly.artifacts.origin ha with
  | inl hkept =>
    obtain ⟨old, hold, hrefreshed⟩ := hkept
    have hold_type : old.artifact_type = COMMIT_ARTIFACT_TYPE := hrefreshed.artifact_type.symm.trans htype
    have hsame := hrefreshed.other (by simp [hold_type, COMMIT_ARTIFACT_TYPE])
    exact ⟨old, hold, hold_type, hsame ▸ rfl⟩
  | inr hnew => simp [hnew.artifact_type, COMMIT_ARTIFACT_TYPE] at htype

theorem commitsUnderGit_sources (hwf : WellFormed p r) (hinj : Function.Injective p.gen_random_uuid)
    (h : CommitsUnderGit r) :
    SourcesGood p (r.build_seq + 1) (fun r _ => CommitsUnderGit r) (run p cached_generation r b).sources :=
  run_rule_of_any (loopRule_commitsUnderGit p b (r.build_seq + 1)) hwf hinj (h.of_tables rfl rfl)

theorem commitsUnderGit_next (hwf : WellFormed p r) (hinj : Function.Injective p.gen_random_uuid)
    (h : CommitsUnderGit r) : CommitsUnderGit (next p cached_generation r b) := by
  have hgood := commitsUnderGit_sources (b := b) hwf hinj h
  cases run_end p r b with
  | failed hsources hpasses hsame => exact hgood.committed.of_tables hsame.artifacts hsame.source_items
  | completed passes hsources hpasses hfinal hsame =>
    exact (commitsUnderGit_finalized hgood.current_wellFormed hinj hgood.current hfinal).of_tables hsame.artifacts
      hsame.source_items

theorem commitsUnderGit_history (hinj : Function.Injective p.gen_random_uuid) (builds : List Build) :
    WellFormed p (history p cached_generation builds) ∧ CommitsUnderGit (history p cached_generation builds) := by
  refine foldl_invariant (I := fun r => WellFormed p r ∧ CommitsUnderGit r) ?_
    ⟨wellFormed_empty p, by simp [CommitsUnderGit, Registry.empty]⟩
  rintro r b - ⟨hwf, h⟩
  exact ⟨(wellFormed_next hwf hinj).1, commitsUnderGit_next hwf hinj h⟩

theorem commitsFromGit_load_link_rows (hwf : WellFormed p r) (h : CommitsUnderGit r) :
    CommitsFromGit (load_link_rows p r) := by
  intro artifact hmem htype
  obtain ⟨row, hrow, rfl⟩ := List.mem_map.mp hmem
  obtain ⟨⟨a, s⟩, hentry, rfl⟩ := List.mem_map.mp hrow
  obtain ⟨ha, hs, hid⟩ := mem_joined (List.mem_of_mem_filter hentry)
  obtain ⟨s', hs', hid', hgit⟩ := h a ha htype
  obtain rfl := hwf.source_eq hs hs' (hid.trans hid'.symm)
  exact hgit

/-- What the linker of a build loads, after any builds before it: its links are of these rows, and sound exactly where
    they are meant without a doubt. -/
theorem linking_sound_build (hinj : Function.Injective p.gen_random_uuid) (builds : List Build) (b : Build) :
    let r := (run p cached_generation (history p cached_generation builds) b).sources.current
    links_of p.unicode (load_link_rows p r) =
        (find_deterministic_links p.unicode (load_linkable_artifacts p r)).map LinkEdgeDraft.key ∧
      (OrderFree p.unicode (load_link_rows p r) ∧ StaysHome p.unicode (load_link_rows p r) ↔
        OneReading p.unicode (load_link_rows p r) ∧ OwnNamed p.unicode (load_link_rows p r)) := by
  intro r
  obtain ⟨hwf, hgit⟩ := commitsUnderGit_history hinj builds
  have hgood := commitsUnderGit_sources (b := b) hwf hinj hgit
  have hids := nodup_load_link_rows hgood.current_wellFormed
  have hcommits := commitsFromGit_load_link_rows hgood.current_wellFormed hgood.current
  refine ⟨?_, ?_, ?_⟩
  · rw [links_of, link_artifacts, load_link_rows_artifacts]
  · rintro ⟨hsame, hhome⟩
    exact ⟨oneReading_of_sound hids hcommits hsame, ownNamed_of_staysHome hhome⟩
  · rintro ⟨hone, howns⟩
    exact ⟨orderFree_of_oneReading hone, staysHome_of_ownNamed hids howns⟩

end Builds

/-- A file of a repository, and a commit there that changed a file. -/
def file_row (repo : String) (id : Uuid) (path : String) : LinkRow :=
  { repo := some repo
    artifact :=
      { artifact_id := id, artifact_type := .code_file, title := some path, body_text := none, source_type := .github_code
        path := some path } }

def commit_row (repo : String) (id : Uuid) (sha path : String) : LinkRow :=
  { repo := some repo
    artifact :=
      { artifact_id := id, artifact_type := .commit, title := some sha, source_type := .git_metadata
        body_text := some (CHANGED_FILES_HEADER ++ "\n" ++ path), external_id := some sha } }

/-- Two repositories with a file each, and a commit of the first that changed its file. -/
def two_repos (path other_path : String) : List LinkRow :=
  [file_row "shop" 1 path, file_row "docs" 2 other_path, commit_row "shop" 3 "0f3c9a1" path]

theorem linking_sound_two_repos :
    OrderFree .ascii (two_repos "pay.py" "conf.py") ∧ StaysHome .ascii (two_repos "pay.py" "conf.py") :=
  (linking_sound_iff .ascii (two_repos "pay.py" "conf.py") (by decide) (by decide)).mpr (by decide +kernel)

/-- Both repositories have a `setup.py`, and the commit of one is linked to whichever comes last. -/
theorem linking_unsound_same_path :
    ((two_repos "setup.py" "setup.py").map (·.artifact.artifact_id)).Nodup ∧
    CommitsFromGit (two_repos "setup.py" "setup.py") ∧
    ¬ OrderFree .ascii (two_repos "setup.py" "setup.py") ∧ ¬ StaysHome .ascii (two_repos "setup.py" "setup.py") := by
  refine ⟨by decide, by decide, ?_, ?_⟩
  · intro hsame
    have hlinks := hsame [file_row "docs" 2 "setup.py", file_row "shop" 1 "setup.py",
      commit_row "shop" 3 "0f3c9a1" "setup.py"] (.swap _ _ _) (3, 1, .mentions)
    revert hlinks
    decide +kernel
  · intro hhome
    have hlink := hhome _ (.refl _) (commit_row "shop" 3 "0f3c9a1" "setup.py") (by decide)
      (file_row "docs" 2 "setup.py") (by decide) .mentions (by decide +kernel)
    revert hlink
    decide +kernel

end AgenticKb
