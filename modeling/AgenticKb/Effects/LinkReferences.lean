import Mathlib.Data.List.Find
import AgenticKb.Linker.Run
import AgenticKb.Lib.Run

open AgenticKb.Lib

namespace AgenticKb

/-- Of the rows that share a key, an index keeps the first to come or the last. -/
inductive Keeps where
  | first | last
deriving DecidableEq, Repr

/-- A reference the linker follows: who makes it, the link it becomes, and the rows it may mean. -/
structure LinkReference where
  from_artifact_id : Uuid
  edge_type : EdgeType
  keeps : Keeps
  means : LinkableArtifact → Bool

/-- The row the reference is followed to. -/
def LinkReference.target (ref : LinkReference) (artifacts : List LinkableArtifact) : Option LinkableArtifact :=
  match ref.keeps with
  | .first => artifacts.find? ref.means
  | .last => artifacts.reverse.find? ref.means

def is_work_item (u : Unicode) (key : String) (a : LinkableArtifact) : Bool :=
  WORK_ITEM_SOURCE_TYPES.contains a.source_type && (work_item_keys u a).contains key

def is_changed_file (path : String) (a : LinkableArtifact) : Bool :=
  a.artifact_type == .code_file && a.path == some path

/-- A commit with an id. -/
def is_known_commit (a : LinkableArtifact) : Bool :=
  a.artifact_type == COMMIT_ARTIFACT_TYPE && a.external_id.any (· ≠ "")

/-- The id of the one commit that a SHA names: the SHA itself, or the one known id it is a prefix of. -/
def is_referenced_commit (artifacts : List LinkableArtifact) (sha : String) (a : LinkableArtifact) : Bool :=
  is_known_commit a &&
    if artifacts.any fun b => is_known_commit b && b.external_id.getD "" == sha then a.external_id.getD "" == sha
    else startswith (a.external_id.getD "") sha && artifacts.all fun b =>
      !(is_known_commit b && startswith (b.external_id.getD "") sha) || b.external_id.getD "" == a.external_id.getD ""

section References

variable (u : Unicode) (artifacts : List LinkableArtifact)

/-- A title that was found names its own artifact. -/
def title_reference (draft : LinkEdgeDraft) : LinkReference :=
  { from_artifact_id := draft.from_artifact_id, edge_type := draft.edge_type.edge_type, keeps := .first
    means := fun a => a.artifact_id == draft.to_artifact_id }

def work_item_reference (from_a : LinkableArtifact) (edge_type : EdgeType) (ref : Reference) : LinkReference :=
  { from_artifact_id := from_a.artifact_id, edge_type, keeps := .first, means := is_work_item u ref.key }

def commit_reference (from_a : LinkableArtifact) (ref : Reference) : LinkReference :=
  { from_artifact_id := from_a.artifact_id, edge_type := .implements, keeps := .last
    means := is_referenced_commit artifacts ref.key }

def file_reference (from_a : LinkableArtifact) (path : String) : LinkReference :=
  { from_artifact_id := from_a.artifact_id, edge_type := .mentions, keeps := .last, means := is_changed_file path }

def commit_references (commit : LinkableArtifact) : List LinkReference :=
  let message := commit.body_text.getD ""
  (parse_work_item_references u message commit.branch).map (work_item_reference u commit .implements) ++
    ((parse_sha_references u message).map (commit_reference artifacts commit) ++
      (parse_changed_files u message).map (file_reference commit))

def doc_references (doc : LinkableArtifact) : List LinkReference :=
  (parse_work_item_references u (doc.body_text.getD "") none).map (work_item_reference u doc .mentions)

/-- Every reference the deterministic rules follow. -/
def link_references : List LinkReference :=
  (concept_links u artifacts ++ doc_links u artifacts).map title_reference ++
    ((artifacts.filter fun a => a.artifact_type == COMMIT_ARTIFACT_TYPE).flatMap (commit_references u artifacts) ++
      (linkable_docs artifacts).flatMap (doc_references u))

end References

section Drafts

variable {drafts acc : List LinkEdgeDraft} {link : Uuid × Uuid × EdgeType}

theorem mem_foldl_add_link : link ∈ (drafts.foldl add_link acc).map LinkEdgeDraft.key ↔
    link ∈ acc.map LinkEdgeDraft.key ∨ link ∈ drafts.map LinkEdgeDraft.key ∧ link.1 ≠ link.2.1 := by
  induction drafts generalizing acc with
  | nil => simp
  | cons draft drafts ih =>
    rw [List.foldl_cons, ih, add_link]
    have hown : draft.from_artifact_id = draft.to_artifact_id ↔ draft.key.1 = draft.key.2.1 := Iff.rfl
    by_cases hskip : (acc.any (fun old => old.key == draft.key) || draft.from_artifact_id == draft.to_artifact_id) = true
    · rw [if_pos hskip]
      simp only [Bool.or_eq_true, List.any_eq_true, beq_iff_eq, hown] at hskip
      simp only [List.map_cons, List.mem_cons]
      constructor
      · rintro (h | ⟨h, hne⟩)
        · exact .inl h
        · exact .inr ⟨.inr h, hne⟩
      · rintro (h | ⟨rfl | h, hne⟩)
        · exact .inl h
        · cases hskip with
          | inl hold =>
            obtain ⟨old, hold, hkey⟩ := hold
            exact .inl (hkey ▸ List.mem_map_of_mem hold)
          | inr hself => exact absurd hself hne
        · exact .inr ⟨h, hne⟩
    · rw [if_neg hskip]
      simp only [Bool.or_eq_true, beq_iff_eq, hown, not_or] at hskip
      simp only [List.map_append, List.map_cons, List.map_nil, List.mem_append, List.mem_cons, List.not_mem_nil, or_false]
      constructor
      · rintro ((h | rfl) | ⟨h, hne⟩)
        · exact .inl h
        · exact .inr ⟨.inl rfl, hskip.2⟩
        · exact .inr ⟨.inr h, hne⟩
      · rintro (h | ⟨rfl | h, hne⟩)
        · exact .inl (.inl h)
        · exact .inl (.inr rfl)
        · exact .inr ⟨h, hne⟩

theorem mem_foldl_merge_link : link ∈ (drafts.foldl merge_link acc).map LinkEdgeDraft.key ↔
    link ∈ acc.map LinkEdgeDraft.key ∨ link ∈ drafts.map LinkEdgeDraft.key := by
  induction drafts generalizing acc with
  | nil => simp
  | cons draft drafts ih =>
    rw [List.foldl_cons, ih, merge_link]
    by_cases hskip : (acc.any fun old => old.key == draft.key) = true
    · rw [if_pos hskip]
      simp only [List.any_eq_true, beq_iff_eq] at hskip
      obtain ⟨old, hold, hkey⟩ := hskip
      simp only [List.map_cons, List.mem_cons]
      constructor
      · rintro (h | h)
        · exact .inl h
        · exact .inr (.inr h)
      · rintro (h | rfl | h)
        · exact .inl h
        · exact .inl (hkey ▸ List.mem_map_of_mem hold)
        · exact .inr h
    · rw [if_neg hskip]
      simp only [List.map_append, List.map_cons, List.map_nil, List.mem_append, List.mem_cons, List.not_mem_nil, or_false,
        or_assoc]

end Drafts

section Indexes

variable {u : Unicode} {artifacts : List LinkableArtifact}

/-- Work items: the first row of a key. -/
theorem get?_work_item_index (key : String) :
    (work_item_index u artifacts).get? key = artifacts.find? (is_work_item u key) := by
  have hkeys : ∀ (artifact : LinkableArtifact) (keys : List String) (index : Dict String LinkableArtifact),
      (keys.foldl (fun index key => index.setdefault key artifact) index).get? key =
        (index.get? key).or (if keys.contains key then some artifact else none) := by
    intro artifact keys
    induction keys with
    | nil => exact fun index => by simp
    | cons k keys ih =>
      intro index
      rw [List.foldl_cons, ih, Dict.get?_setdefault]
      by_cases hk : key = k
      · subst hk
        cases hget : index.get? key with
        | none => simp
        | some old => simp
      · have hother : (k :: keys).contains key = keys.contains key := by simp [hk]
        rw [if_neg hk, hother]
  have hindex : ∀ (rows : List LinkableArtifact) (index : Dict String LinkableArtifact),
      (rows.foldl (fun index artifact =>
        (work_item_keys u artifact).foldl (fun index key => index.setdefault key artifact) index) index).get? key =
        (index.get? key).or (rows.find? fun a => (work_item_keys u a).contains key) := by
    intro rows
    induction rows with
    | nil => exact fun index => by simp
    | cons artifact rows ih =>
      intro index
      rw [List.foldl_cons, ih, hkeys, Option.or_assoc, List.find?_cons]
      congr 1
      cases (work_item_keys u artifact).contains key with
      | true => rfl
      | false => rfl
  have hnil : Dict.get? ([] : Dict String LinkableArtifact) key = none := rfl
  rw [work_item_index, hindex, List.find?_filter, hnil, Option.none_or]
  congr 1
  funext a
  rw [is_work_item, Bool.eq_iff_iff]
  simp only [decide_eq_true_eq, Bool.and_eq_true]

/-- The file index of `find_cross_domain_links`. -/
def code_file_index (artifacts : List LinkableArtifact) : Dict String LinkableArtifact :=
  (artifacts.filter fun a => a.artifact_type == .code_file && a.path.isSome).foldl
    (fun (d : Dict String LinkableArtifact) a => d.set (a.path.getD "") a) []

/-- The commit index of `find_cross_domain_links`. -/
def sha_index_of (artifacts : List LinkableArtifact) : Dict String LinkableArtifact :=
  ((artifacts.filter fun a => a.artifact_type == COMMIT_ARTIFACT_TYPE).filter fun a =>
      a.external_id.any (· ≠ "")).foldl
    (fun (d : Dict String LinkableArtifact) a => d.set (a.external_id.getD "") a) []

/-- Files: the last row of a path. -/
theorem get?_code_file_index (path : String) :
    (code_file_index artifacts).get? path = artifacts.reverse.find? (is_changed_file path) := by
  rw [code_file_index, Dict.get?_foldl_set, Option.map_id_fun', ← List.filter_reverse, List.find?_filter]
  have hnil : Dict.get? ([] : Dict String LinkableArtifact) path = none := rfl
  rw [hnil, Option.or_none, id]
  congr 1
  funext a
  rw [is_changed_file, Bool.eq_iff_iff]
  cases hpath : a.path with
  | none => simp
  | some p => simp

theorem get?_sha_index_of (key : String) : (sha_index_of artifacts).get? key =
    artifacts.reverse.find? fun a => is_known_commit a && a.external_id.getD "" == key := by
  have hnil : Dict.get? ([] : Dict String LinkableArtifact) key = none := rfl
  rw [sha_index_of, Dict.get?_foldl_set, Option.map_id_fun', ← List.filter_reverse, ← List.filter_reverse,
    List.filter_filter, List.find?_filter, hnil, Option.or_none, id]
  congr 1
  funext a
  rw [is_known_commit, Bool.eq_iff_iff]
  simp only [decide_eq_true_eq, Bool.and_eq_true]
  tauto

theorem nodup_sha_index_of : ((sha_index_of artifacts).map (·.1)).Nodup := by
  have hempty : (([] : Dict String LinkableArtifact).map (·.1)).Nodup := List.nodup_nil
  unfold sha_index_of
  refine foldl_invariant (I := fun d : Dict String LinkableArtifact => (d.map (·.1)).Nodup) ?_ hempty
  exact fun d a _ hd => Dict.nodup_set hd

/-- The index has the ids of the known commits. -/
theorem mem_sha_index_of {key : String} :
    (∃ entry ∈ sha_index_of artifacts, entry.1 = key) ↔
      ∃ b ∈ artifacts, is_known_commit b = true ∧ b.external_id.getD "" = key := by
  constructor
  · rintro ⟨entry, hentry, rfl⟩
    have hfound := Dict.get?_of_mem nodup_sha_index_of hentry
    rw [get?_sha_index_of] at hfound
    have hmeans := List.find?_some hfound
    rw [Bool.and_eq_true, beq_iff_eq] at hmeans
    exact ⟨entry.2, List.mem_reverse.mp (List.mem_of_find?_eq_some hfound), hmeans⟩
  · rintro ⟨b, hb, hknown, rfl⟩
    have hfound : (artifacts.reverse.find? fun a => is_known_commit a && a.external_id.getD "" ==
        b.external_id.getD "").isSome := by
      rw [List.find?_isSome]
      exact ⟨b, List.mem_reverse.mpr hb, by simp [hknown]⟩
    rw [← get?_sha_index_of, Option.isSome_iff_exists] at hfound
    obtain ⟨found, hfound⟩ := hfound
    exact ⟨_, Dict.mem_of_get? hfound, rfl⟩

/-- The one id that the known commits with this prefix have. -/
def SoleId (artifacts : List LinkableArtifact) (sha id : String) : Prop :=
  startswith id sha = true ∧
    ∀ b ∈ artifacts, is_known_commit b = true → startswith (b.external_id.getD "") sha = true → b.external_id.getD "" = id

theorem is_referenced_commit_of_exact {sha : String} (hexact : ((sha_index_of artifacts).get? sha).isSome)
    (a : LinkableArtifact) : is_referenced_commit artifacts sha a = (is_known_commit a && a.external_id.getD "" == sha) := by
  have hany : (artifacts.any fun b => is_known_commit b && b.external_id.getD "" == sha) = true := by
    rw [get?_sha_index_of, List.find?_isSome] at hexact
    obtain ⟨b, hb, hmeans⟩ := hexact
    exact List.any_eq_true.mpr ⟨b, List.mem_reverse.mp hb, hmeans⟩
  rw [is_referenced_commit, if_pos hany]

theorem is_referenced_commit_iff {sha : String} (hnone : (sha_index_of artifacts).get? sha = none)
    (a : LinkableArtifact) : is_referenced_commit artifacts sha a = true ↔
      is_known_commit a = true ∧ SoleId artifacts sha (a.external_id.getD "") := by
  have hany : ¬ (artifacts.any fun b => is_known_commit b && b.external_id.getD "" == sha) = true := by
    rw [get?_sha_index_of, List.find?_eq_none] at hnone
    rw [List.any_eq_true]
    rintro ⟨b, hb, hmeans⟩
    exact hnone b (List.mem_reverse.mpr hb) hmeans
  rw [is_referenced_commit, if_neg hany, Bool.and_eq_true, Bool.and_eq_true, SoleId]
  simp only [List.all_eq_true, Bool.or_eq_true, Bool.not_eq_true', Bool.and_eq_false_iff, beq_iff_eq]
  refine and_congr_right fun _ => and_congr_right fun _ => forall_congr' fun b => forall_congr' fun _ => ?_
  cases is_known_commit b with
  | false => simp
  | true =>
    cases startswith (b.external_id.getD "") sha with
    | false => simp
    | true => simp

/-- The only entry with the prefix has the only id. -/
theorem soleId_of_only {sha : String} {only : String × LinkableArtifact}
    (h : (sha_index_of artifacts).filter (fun entry => startswith entry.1 sha) = [only]) :
    SoleId artifacts sha only.1 := by
  have honly : only ∈ (sha_index_of artifacts).filter fun entry => startswith entry.1 sha := by
    rw [h]
    exact List.mem_cons_self
  refine ⟨(List.mem_filter.mp honly).2, ?_⟩
  intro b hb hknown hprefixed
  obtain ⟨entry, hentry, hid⟩ := mem_sha_index_of.mpr ⟨b, hb, hknown, rfl⟩
  have hin : entry ∈ (sha_index_of artifacts).filter fun entry => startswith entry.1 sha :=
    List.mem_filter.mpr ⟨hentry, hid ▸ hprefixed⟩
  rw [h, List.mem_singleton] at hin
  rw [← hid, hin]

/-- Where a known commit has the only id, the index has only one entry with the prefix. -/
theorem only_of_soleId {sha : String} {b : LinkableArtifact} (hb : b ∈ artifacts) (hknown : is_known_commit b = true)
    (h : SoleId artifacts sha (b.external_id.getD "")) :
    ∃ only, (sha_index_of artifacts).filter (fun entry => startswith entry.1 sha) = [only] := by
  have hkeys : (((sha_index_of artifacts).filter fun entry => startswith entry.1 sha).map (·.1)).Nodup :=
    nodup_sha_index_of.sublist (List.filter_sublist.map _)
  have hsame : ∀ entry ∈ (sha_index_of artifacts).filter (fun entry => startswith entry.1 sha),
      entry.1 = b.external_id.getD "" := by
    intro entry hentry
    obtain ⟨hentry, hprefixed⟩ := List.mem_filter.mp hentry
    obtain ⟨c, hc, hc_known, hc_id⟩ := mem_sha_index_of.mp ⟨entry, hentry, rfl⟩
    rw [← hc_id]
    exact h.2 c hc hc_known (hc_id ▸ hprefixed)
  obtain ⟨entry, hentry, hid⟩ := mem_sha_index_of.mpr ⟨b, hb, hknown, rfl⟩
  have hin : entry ∈ (sha_index_of artifacts).filter fun entry => startswith entry.1 sha :=
    List.mem_filter.mpr ⟨hentry, hid ▸ h.1⟩
  generalize (sha_index_of artifacts).filter (fun entry => startswith entry.1 sha) = entries at hkeys hsame hin ⊢
  cases entries with
  | nil => cases hin
  | cons only rest =>
    cases rest with
    | nil => exact ⟨only, rfl⟩
    | cons second rest =>
      have heq : only.1 = second.1 :=
        (hsame only List.mem_cons_self).trans (hsame second (List.mem_cons_of_mem _ List.mem_cons_self)).symm
      rw [List.map_cons, List.map_cons, heq] at hkeys
      exact absurd List.mem_cons_self (List.nodup_cons.mp hkeys).1

/-- Commits: the last row of the one id the SHA names. -/
theorem resolve_sha_eq (sha : String) :
    resolve_sha sha (sha_index_of artifacts) = artifacts.reverse.find? (is_referenced_commit artifacts sha) := by
  unfold resolve_sha
  cases hexact : (sha_index_of artifacts).get? sha with
  | some found =>
    rw [List.find?_congr fun a _ => is_referenced_commit_of_exact (hexact ▸ rfl) a, ← get?_sha_index_of, hexact]
  | none =>
    by_cases honly : ∃ only, (sha_index_of artifacts).filter (fun entry => startswith entry.1 sha) = [only]
    · obtain ⟨only, hfilter⟩ := honly
      have hsole := soleId_of_only hfilter
      have hmem : only ∈ (sha_index_of artifacts).filter fun entry => startswith entry.1 sha := by
        rw [hfilter]
        exact List.mem_cons_self
      have hfound := Dict.get?_of_mem nodup_sha_index_of (List.mem_filter.mp hmem).1
      simp only [hfilter]
      rw [← hfound, get?_sha_index_of]
      apply List.find?_congr
      intro a ha
      rw [Bool.eq_iff_iff, is_referenced_commit_iff hexact, Bool.and_eq_true, beq_iff_eq]
      refine and_congr_right fun hknown => ?_
      constructor
      · exact fun hid => hid.symm ▸ hsole
      · exact fun h => hsole.2 a (List.mem_reverse.mp ha) hknown h.1
    · have hnone : artifacts.reverse.find? (is_referenced_commit artifacts sha) = none := by
        rw [List.find?_eq_none]
        intro b hb hmeans
        rw [is_referenced_commit_iff hexact] at hmeans
        exact honly (only_of_soleId (List.mem_reverse.mp hb) hmeans.1 hmeans.2)
      rw [hnone]
      generalize (sha_index_of artifacts).filter (fun entry => startswith entry.1 sha) = entries at honly
      cases entries with
      | nil => rfl
      | cons only rest =>
        cases rest with
        | nil => exact absurd ⟨only, rfl⟩ honly
        | cons second rest => rfl

end Indexes

section Links

variable {u : Unicode} {artifacts : List LinkableArtifact} {link : Uuid × Uuid × EdgeType}

/-- The link is what following one of the references comes to. -/
def Follows (artifacts : List LinkableArtifact) (refs : List LinkReference) (link : Uuid × Uuid × EdgeType) : Prop :=
  ∃ ref ∈ refs, ∃ target, ref.target artifacts = some target ∧
    link = (ref.from_artifact_id, target.artifact_id, ref.edge_type)

theorem follows_append {refs refs' : List LinkReference} :
    Follows artifacts (refs ++ refs') link ↔ Follows artifacts refs link ∨ Follows artifacts refs' link := by
  simp only [Follows, List.mem_append, or_and_right, exists_or]

theorem follows_flatMap {α : Type*} {xs : List α} {refs : α → List LinkReference} :
    Follows artifacts (xs.flatMap refs) link ↔ ∃ x ∈ xs, Follows artifacts (refs x) link := by
  simp only [Follows, List.mem_flatMap]
  constructor
  · rintro ⟨ref, ⟨x, hx, href⟩, h⟩
    exact ⟨x, hx, ref, href, h⟩
  · rintro ⟨x, hx, ref, href, h⟩
    exact ⟨ref, ⟨x, hx, href⟩, h⟩

/-- The drafts of one rule, each made of what a lookup finds. -/
theorem mem_lookups_iff {α : Type*} {xs : List α} {find : α → Option LinkableArtifact}
    {draft : α → LinkableArtifact → LinkEdgeDraft} {reference : α → LinkReference}
    (htarget : ∀ x, (reference x).target artifacts = find x)
    (hdraft : ∀ x target, (draft x target).key =
      ((reference x).from_artifact_id, target.artifact_id, (reference x).edge_type)) :
    link ∈ (xs.filterMap fun x => (find x).map (draft x)).map LinkEdgeDraft.key ↔
      Follows artifacts (xs.map reference) link := by
  simp only [List.mem_map, List.mem_filterMap, Option.map_eq_some_iff, Follows]
  constructor
  · rintro ⟨_, ⟨x, hx, target, hfind, rfl⟩, rfl⟩
    exact ⟨_, ⟨x, hx, rfl⟩, target, (htarget x).trans hfind, hdraft x target⟩
  · rintro ⟨_, ⟨x, hx, rfl⟩, target, hfind, rfl⟩
    exact ⟨draft x target, ⟨x, hx, target, (htarget x).symm.trans hfind, rfl⟩, hdraft x target⟩

theorem mem_commit_links (commit : LinkableArtifact) :
    link ∈ (commit_links u (work_item_index u artifacts) (sha_index_of artifacts) (code_file_index artifacts)
        commit).map LinkEdgeDraft.key ↔ Follows artifacts (commit_references u artifacts commit) link := by
  simp only [commit_links, commit_references, List.map_append, List.mem_append, follows_append, or_assoc]
  refine or_congr ?_ (or_congr ?_ ?_)
  · exact mem_lookups_iff (fun ref => (get?_work_item_index ref.key).symm) fun ref target => rfl
  · exact mem_lookups_iff (fun ref => (resolve_sha_eq ref.key).symm) fun ref target => rfl
  · exact mem_lookups_iff (fun path => (get?_code_file_index path).symm) fun path target => rfl

theorem mem_find_cross_domain_links :
    link ∈ (find_cross_domain_links u artifacts).map LinkEdgeDraft.key ↔
      Follows artifacts ((artifacts.filter fun a => a.artifact_type == COMMIT_ARTIFACT_TYPE).flatMap
        (commit_references u artifacts)) link ∧ link.1 ≠ link.2.1 := by
  have hrules : find_cross_domain_links u artifacts =
      ((artifacts.filter fun a => a.artifact_type == COMMIT_ARTIFACT_TYPE).flatMap
        (commit_links u (work_item_index u artifacts) (sha_index_of artifacts) (code_file_index artifacts))).foldl
        add_link [] := rfl
  rw [hrules, mem_foldl_add_link, follows_flatMap, List.map_flatMap, List.mem_flatMap]
  simp only [mem_commit_links, List.map_nil, List.not_mem_nil, false_or]

theorem mem_find_doc_work_item_mentions :
    link ∈ (find_doc_work_item_mentions u (linkable_docs artifacts) artifacts).map LinkEdgeDraft.key ↔
      Follows artifacts ((linkable_docs artifacts).flatMap (doc_references u)) link ∧ link.1 ≠ link.2.1 := by
  rw [find_doc_work_item_mentions, mem_foldl_add_link, follows_flatMap, List.map_flatMap, List.mem_flatMap]
  simp only [List.map_nil, List.not_mem_nil, false_or]
  refine and_congr_left' (exists_congr fun doc => and_congr_right' ?_)
  exact mem_lookups_iff (fun ref => (get?_work_item_index ref.key).symm) fun ref target => rfl

theorem of_mem_concept_matchers {m : Matcher} (h : m ∈ concept_matchers u artifacts) : m.artifact ∈ artifacts := by
  obtain ⟨a, ha, hm⟩ := List.mem_filterMap.mp h
  split at hm
  · split at hm
    · exact Option.some.inj hm ▸ ha
    · cases hm
  · cases hm

theorem of_mem_symbol_matchers {m : Matcher} (h : m ∈ symbol_matchers u artifacts) :
    m.artifact ∈ artifacts ∧ m.artifact.artifact_type = .code_symbol := by
  obtain ⟨a, ha, hm⟩ := List.mem_filterMap.mp h
  split at hm
  · split at hm
    · rename_i hsymbol
      rw [Bool.and_eq_true, beq_iff_eq] at hsymbol
      exact Option.some.inj hm ▸ ⟨ha, hsymbol.1⟩
    · cases hm
  · cases hm

theorem of_mem_code_matchers {m : Matcher} (h : m ∈ code_matchers u artifacts) : m.artifact ∈ artifacts := by
  rw [code_matchers, List.mem_append] at h
  cases h with
  | inl hsymbol => exact (of_mem_symbol_matchers hsymbol).1
  | inr hother =>
    obtain ⟨a, ha, hm⟩ := List.mem_filterMap.mp hother
    split at hm
    · split at hm
      · exact Option.some.inj hm ▸ ha
      · cases hm
    · cases hm

/-- The title rules link two artifacts of the set, and the first is no commit. -/
theorem title_link_ends {draft : LinkEdgeDraft} (h : draft ∈ concept_links u artifacts ++ doc_links u artifacts) :
    (∃ from_a ∈ artifacts, from_a.artifact_id = draft.from_artifact_id ∧ from_a.artifact_type ≠ COMMIT_ARTIFACT_TYPE) ∧
      ∃ target ∈ artifacts, target.artifact_id = draft.to_artifact_id := by
  cases List.mem_append.mp h with
  | inl hconcept =>
    simp only [concept_links, List.mem_flatMap, List.mem_filterMap, Option.ite_none_right_eq_some,
      Option.some.injEq] at hconcept
    obtain ⟨concept, hconcept, symbol, hsymbol, -, rfl⟩ := hconcept
    obtain ⟨hfrom, htype⟩ := of_mem_symbol_matchers hsymbol
    refine ⟨⟨symbol.artifact, hfrom, rfl, ?_⟩, concept.artifact, of_mem_concept_matchers hconcept, rfl⟩
    rw [htype]
    decide
  | inr hdoc =>
    simp only [doc_links, List.mem_flatMap, List.mem_append, List.mem_filterMap, Option.ite_none_right_eq_some,
      Option.some.injEq] at hdoc
    obtain ⟨doc, hdoc, hlink⟩ := hdoc
    obtain ⟨hin, hprose⟩ := List.mem_filter.mp hdoc
    have htype : doc.artifact_type ≠ COMMIT_ARTIFACT_TYPE := by
      intro hcommit
      rw [hcommit] at hprose
      cases hprose
    cases hlink with
    | inl hconcept =>
      obtain ⟨m, hm, -, rfl⟩ := hconcept
      exact ⟨⟨doc, hin, rfl, htype⟩, m.artifact, of_mem_concept_matchers hm, rfl⟩
    | inr hcode =>
      obtain ⟨m, hm, -, rfl⟩ := hcode
      exact ⟨⟨doc, hin, rfl, htype⟩, m.artifact, of_mem_code_matchers hm, rfl⟩

theorem follows_titles :
    Follows artifacts ((concept_links u artifacts ++ doc_links u artifacts).map title_reference) link ↔
      link ∈ (concept_links u artifacts ++ doc_links u artifacts).map LinkEdgeDraft.key := by
  simp only [Follows, List.mem_map]
  constructor
  · rintro ⟨_, ⟨draft, hdraft, rfl⟩, target, hfind, rfl⟩
    refine ⟨draft, hdraft, ?_⟩
    have hid : target.artifact_id = draft.to_artifact_id := by simpa [title_reference] using List.find?_some hfind
    rw [hid]
    rfl
  · rintro ⟨draft, hdraft, rfl⟩
    obtain ⟨a, ha, hid⟩ := (title_link_ends hdraft).2
    have hfound : (artifacts.find? fun a => a.artifact_id == draft.to_artifact_id).isSome := by
      rw [List.find?_isSome]
      exact ⟨a, ha, by simp [hid]⟩
    obtain ⟨target, htarget⟩ := Option.isSome_iff_exists.mp hfound
    have htarget_id : target.artifact_id = draft.to_artifact_id := by simpa using List.find?_some htarget
    refine ⟨_, ⟨draft, hdraft, rfl⟩, target, htarget, ?_⟩
    rw [htarget_id]
    rfl

/-- The deterministic links are the references followed, but for what would lead back to where it starts. -/
theorem mem_find_deterministic_links :
    link ∈ (find_deterministic_links u artifacts).map LinkEdgeDraft.key ↔
      Follows artifacts (link_references u artifacts) link ∧ link.1 ≠ link.2.1 := by
  have hcross : link ∈ (find_cross_domain_links u artifacts ++
      find_doc_work_item_mentions u (linkable_docs artifacts) artifacts).map LinkEdgeDraft.key ↔
      (Follows artifacts ((artifacts.filter fun a => a.artifact_type == COMMIT_ARTIFACT_TYPE).flatMap
        (commit_references u artifacts)) link ∨
        Follows artifacts ((linkable_docs artifacts).flatMap (doc_references u)) link) ∧ link.1 ≠ link.2.1 := by
    rw [List.map_append, List.mem_append, mem_find_cross_domain_links, mem_find_doc_work_item_mentions, or_and_right]
  rw [find_deterministic_links, mem_foldl_merge_link, mem_foldl_add_link, hcross, link_references, follows_append,
    follows_append, follows_titles, List.map_nil]
  simp only [List.not_mem_nil, false_or, or_and_right]

end Links

end AgenticKb
