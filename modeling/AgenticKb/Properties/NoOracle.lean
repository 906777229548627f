import Mathlib.Data.List.Dedup
import AgenticKb.Properties.VerifierSoundness

open AgenticKb.Lib

namespace AgenticKb.ContextBroker

section EdgeAcl

/-- Two access lists that both name teams, and none in common. -/
def DisjointAcls (from_acl to_acl : List String) : Prop :=
  from_acl ≠ [] ∧ to_acl ≠ [] ∧ ∀ team ∈ from_acl, team ∉ to_acl

instance (from_acl to_acl : List String) : Decidable (DisjointAcls from_acl to_acl) :=
  inferInstanceAs (Decidable (_ ∧ _ ∧ _))

theorem acl_admits_iff {teams acl_teams : List String} :
    acl_admits teams acl_teams = true ↔ acl_teams = [] ∨ ∃ team ∈ teams, team ∈ acl_teams := by
  simp [acl_admits]

/-- Edge lists are read as the lists of all teams they hold. -/
theorem acl_admits_sorted {teams acl_teams : List String} :
    acl_admits teams (sorted str_le acl_teams) = true ↔ acl_teams = [] ∨ ∃ team ∈ teams, team ∈ acl_teams := by
  have hnil : sorted str_le acl_teams = [] ↔ acl_teams = [] := by
    simp only [List.eq_nil_iff_forall_not_mem, mem_sorted]
  rw [acl_admits_iff, hnil]
  simp only [mem_sorted]

/-- Whom the access list of an edge admits: everybody, if its ends have no team in common. -/
theorem acl_admits_intersection {teams from_acl to_acl : List String} :
    acl_admits teams (acl_intersection from_acl to_acl) = true ↔
      DisjointAcls from_acl to_acl ∨ (from_acl = [] ∧ acl_admits teams to_acl = true) ∨
        (to_acl = [] ∧ acl_admits teams from_acl = true) ∨
          ∃ team ∈ teams, team ∈ from_acl ∧ team ∈ to_acl := by
  unfold acl_intersection
  by_cases hfrom : from_acl = []
  · subst hfrom
    rw [if_pos List.isEmpty_nil, acl_admits_sorted, acl_admits_iff]
    simp only [List.dedup_eq_nil, List.mem_dedup]
    constructor
    · intro hto
      exact .inr (.inl ⟨trivial, hto⟩)
    · rintro (⟨hne, -⟩ | ⟨-, hto⟩ | ⟨hto, -⟩ | ⟨team, -, hteam, -⟩)
      · exact absurd rfl hne
      · exact hto
      · exact .inl hto
      · simp at hteam
  · rw [if_neg (by simpa using hfrom)]
    by_cases hto : to_acl = []
    · subst hto
      rw [if_pos List.isEmpty_nil, acl_admits_sorted, acl_admits_iff]
      simp [DisjointAcls, List.dedup_eq_nil, acl_admits_iff, hfrom]
    · rw [if_neg (by simpa using hto), acl_admits_sorted]
      simp [DisjointAcls, hfrom, hto, List.filter_eq_nil_iff]

/-- It admits no one whom an end turns away, unless the ends have no team in common. -/
theorem acl_intersection_sound_iff {teams from_acl to_acl : List String} :
    (acl_admits teams (acl_intersection from_acl to_acl) = true →
        acl_admits teams from_acl = true ∧ acl_admits teams to_acl = true) ↔
      (DisjointAcls from_acl to_acl → acl_admits teams from_acl = true ∧ acl_admits teams to_acl = true) := by
  rw [acl_admits_intersection]
  constructor
  · intro h hdisjoint
    exact h (.inl hdisjoint)
  · rintro h (hdisjoint | ⟨rfl, hto⟩ | ⟨rfl, hfrom⟩ | ⟨team, hteam, hfrom, hto⟩)
    · exact h hdisjoint
    · exact ⟨rfl, hto⟩
    · exact ⟨hfrom, rfl⟩
    · exact ⟨acl_admits_iff.2 (.inr ⟨team, hteam, hfrom⟩), acl_admits_iff.2 (.inr ⟨team, hteam, hto⟩)⟩

end EdgeAcl

section Admitted

variable (db : Database) (build_seq : Nat) (requester : Requester)

/-- The member artifacts the requester's teams admit, each beside its source. -/
def admitted_members : List (KnowledgeArtifact × Option SourceItem) :=
  (db.artifacts.filter fun a => decide (a.MemberAt build_seq) && acl_admits requester.teams a.acl_teams).map fun a =>
    (a, db.source_of a.source_id)

/-- Those with a source. -/
def admitted_sources : List (KnowledgeArtifact × SourceItem) :=
  (admitted_members db build_seq requester).filterMap fun entry => entry.2.map fun s => (entry.1, s)

def admitted (id : Uuid) : Bool := (admitted_members db build_seq requester).any fun entry => entry.1.artifact_id == id

/-- The member edges between two admitted artifacts. -/
def admitted_edges : List KnowledgeEdge :=
  db.edges.filter fun e => decide (e.MemberAt build_seq) &&
    (admitted db build_seq requester e.from_artifact_id && admitted db build_seq requester e.to_artifact_id)

/-- The primary key of the artifacts. -/
def Keyed : Prop := (db.artifacts.map (·.artifact_id)).Nodup

instance : Decidable (Keyed db) := inferInstanceAs (Decidable (List.Nodup _))

end Admitted

/-- Two databases that serve one version and agree on every artifact the requester's teams admit and on every
member edge between two such artifacts, with one ledger and one entailment cache. -/
structure SameAdmitted (requester : Requester) (db db' : Database) : Prop where
  active : fetch_active_version db = fetch_active_version db'
  members : ∀ active ∈ fetch_active_version db,
    admitted_members db active.build_seq requester = admitted_members db' active.build_seq requester
  edges : ∀ active ∈ fetch_active_version db, ∀ e,
    e ∈ admitted_edges db active.build_seq requester ↔ e ∈ admitted_edges db' active.build_seq requester
  retrieval_events : db.retrieval_events = db'.retrieval_events
  entailment_cache : db.entailment_cache = db'.entailment_cache

section Members

variable {db : Database} {build_seq : Nat} {requester : Requester}

theorem admitted_sources_eq : admitted_sources db build_seq requester =
    (member_artifacts db build_seq).filter fun entry => acl_admits requester.teams entry.1.acl_teams := by
  rw [admitted_sources, admitted_members, member_artifacts, Registry.joined, List.filter_filter, List.filterMap_map,
    List.filterMap_filter, List.filter_filterMap]
  refine List.filterMap_congr fun a _ => ?_
  cases hsource : db.source_of a.source_id with
  | none => simp [hsource]
  | some s =>
    by_cases hmember : a.MemberAt build_seq
    · by_cases hacl : acl_admits requester.teams a.acl_teams = true
      · simp [hsource, hmember, hacl, Option.filter]
      · simp [hmember, hacl, Option.filter]
    · simp [hmember, Option.filter]

theorem nodup_member_ids (hkeyed : Keyed db) : ((member_artifacts db build_seq).map (·.1.artifact_id)).Nodup := by
  have hsub : ((member_artifacts db build_seq).map (·.1)).Sublist db.artifacts := by
    have hjoined : (db.joined.map (·.1)).Sublist db.artifacts := by
      rw [Registry.joined]
      induction db.artifacts with
      | nil => exact List.Sublist.refl []
      | cons a artifacts ih =>
        cases hsource : db.source_of a.source_id with
        | none =>
          rw [List.filterMap_cons_none (by rw [hsource]; rfl)]
          exact ih.cons a
        | some s =>
          rw [List.filterMap_cons_some (by rw [hsource]; rfl), List.map_cons]
          exact ih.cons_cons a
    exact (List.filter_sublist.map _).trans hjoined
  unfold Keyed at hkeyed
  have hids := (hsub.map KnowledgeArtifact.artifact_id).nodup hkeyed
  rw [List.map_map] at hids
  exact hids

/-- Under a primary key the provenance is one row per member. -/
theorem fetch_provenance_eq (hkeyed : Keyed db) (artifact_ids : List Uuid) :
    fetch_provenance db artifact_ids build_seq =
      ((member_artifacts db build_seq).filter fun entry => artifact_ids.contains entry.1.artifact_id).map fun entry =>
        (entry.1.artifact_id, provenance_row db build_seq entry) := by
  have hnodup := (List.filter_sublist (p := fun entry : KnowledgeArtifact × SourceItem =>
    artifact_ids.contains entry.1.artifact_id) (l := member_artifacts db build_seq)).map (·.1.artifact_id)
    |>.nodup (nodup_member_ids hkeyed)
  rw [fetch_provenance, Dict.foldl_set_eq_map _ _ hnodup]

theorem admitted_iff {id : Uuid} : admitted db build_seq requester id = true ↔
    ∃ a ∈ db.artifacts, a.MemberAt build_seq ∧ acl_admits requester.teams a.acl_teams = true ∧ a.artifact_id = id := by
  simp [admitted, admitted_members, and_assoc]

/-- A member under an admitted id is admitted. -/
theorem acl_admits_of_admitted (hkeyed : Keyed db) {a : KnowledgeArtifact} (ha : a ∈ db.artifacts)
    (h : admitted db build_seq requester a.artifact_id = true) : acl_admits requester.teams a.acl_teams = true := by
  unfold Keyed at hkeyed
  obtain ⟨other, hother, -, hacl, heq⟩ := admitted_iff.1 h
  obtain rfl : other = a := List.inj_on_of_nodup_map hkeyed hother ha heq
  exact hacl

/-- The members under admitted ids are found among the admitted members. -/
theorem filter_members_eq (hkeyed : Keyed db) {q : Uuid → Bool}
    (hq : ∀ id, q id = true → admitted db build_seq requester id = true) :
    (db.artifacts.filter fun a => q a.artifact_id && decide (a.MemberAt build_seq)) =
      ((admitted_members db build_seq requester).map (·.1)).filter fun a => q a.artifact_id := by
  have hmap : (admitted_members db build_seq requester).map (·.1) =
      db.artifacts.filter fun a => decide (a.MemberAt build_seq) && acl_admits requester.teams a.acl_teams := by
    rw [admitted_members, List.map_map]
    exact List.map_id _
  rw [hmap, List.filter_filter]
  refine List.filter_congr fun a ha => ?_
  cases hid : q a.artifact_id with
  | false => rfl
  | true =>
    rw [acl_admits_of_admitted hkeyed ha (hq _ hid)]
    simp

theorem filter_member_artifacts_eq (hkeyed : Keyed db) {q : Uuid → Bool}
    (hq : ∀ id, q id = true → admitted db build_seq requester id = true) :
    ((member_artifacts db build_seq).filter fun entry => q entry.1.artifact_id) =
      (admitted_sources db build_seq requester).filter fun entry => q entry.1.artifact_id := by
  rw [admitted_sources_eq, List.filter_filter]
  refine List.filter_congr fun entry hentry => ?_
  cases hid : q entry.1.artifact_id with
  | false => rfl
  | true =>
    have hmem : entry.1 ∈ db.artifacts := by
      obtain ⟨a, ha, hsource⟩ := List.mem_filterMap.1 (List.mem_filter.1 hentry).1
      obtain ⟨s, -, rfl⟩ := Option.map_eq_some_iff.1 hsource
      exact ha
    rw [acl_admits_of_admitted hkeyed hmem (hq _ hid)]
    rfl

theorem admitted_of_mem_sources {entry : KnowledgeArtifact × SourceItem}
    (h : entry ∈ admitted_sources db build_seq requester) :
    admitted db build_seq requester entry.1.artifact_id = true := by
  obtain ⟨member, hmember, hsource⟩ := List.mem_filterMap.1 h
  obtain ⟨s, -, rfl⟩ := Option.map_eq_some_iff.1 hsource
  exact List.any_eq_true.2 ⟨member, hmember, beq_self_eq_true _⟩

end Members

section Imports

variable (db : Database) (build_seq : Nat) (requester : Requester) (cited_ids : List Uuid) (file module : String)

/-- An extracted import edge from a cited file of this path to an artifact of this title. -/
structure ImportFact (e : KnowledgeEdge) (ffile : KnowledgeArtifact × SourceItem) (tmod : KnowledgeArtifact) :
    Prop where
  edge : e ∈ db.edges
  edge_member : e.MemberAt build_seq
  edge_type : e.edge_type.text = "imports"
  extracted : is_claim_supporting e.trust_class = true
  cited : e.from_artifact_id ∈ cited_ids
  file_member : ffile ∈ member_artifacts db build_seq
  file_id : ffile.1.artifact_id = e.from_artifact_id
  code_file : ffile.1.artifact_type = .code_file
  path : ffile.2.path = some file
  module_artifact : tmod ∈ db.artifacts
  module_member : tmod.MemberAt build_seq
  module_id : tmod.artifact_id = e.to_artifact_id
  title : tmod.title = some module

/-- A fact about two artifacts the requester is admitted to. -/
def VisibleImport : Prop :=
  ∃ e ffile tmod, ImportFact db build_seq cited_ids file module e ffile tmod ∧
    acl_admits requester.teams tmod.acl_teams = true ∧
      acl_admits requester.teams (acl_intersection ffile.1.acl_teams tmod.acl_teams) = true

/-- A fact about a module the requester is not admitted to, whose access list has no team in common with the
file's. -/
def HiddenImport : Prop :=
  ∃ e ffile tmod, ImportFact db build_seq cited_ids file module e ffile tmod ∧
    acl_admits requester.teams tmod.acl_teams = false ∧ DisjointAcls ffile.1.acl_teams tmod.acl_teams

variable {db build_seq requester cited_ids file module} {parse_uuid : String → Option Uuid}

theorem adjudicate_import_iff :
    adjudicate_typed_fact parse_uuid db (.file_imports_module file module) build_seq requester cited_ids = true ↔
      VisibleImport db build_seq requester cited_ids file module ∨
        HiddenImport db build_seq requester cited_ids file module := by
  have hfacts : adjudicate_typed_fact parse_uuid db (.file_imports_module file module) build_seq requester cited_ids =
      true ↔ ∃ e ffile tmod, ImportFact db build_seq cited_ids file module e ffile tmod ∧
        acl_admits requester.teams (acl_intersection ffile.1.acl_teams tmod.acl_teams) = true := by
    simp only [adjudicate_typed_fact, claim_supporting_edge_units, fetch_file_imports_module_units, members_of_id,
      List.any_eq_true, List.mem_filter, List.mem_flatMap, List.mem_map, List.contains_iff_mem, Bool.and_eq_true,
      beq_iff_eq, decide_eq_true_eq]
    constructor
    · rintro ⟨row, ⟨⟨e, ⟨he, htype, hmember⟩, ffile, ⟨hffile, ⟨hid, hcode⟩, hpath⟩, tmod, ⟨⟨htmod, hto, htmember⟩,
        htitle⟩, rfl⟩, hacl, hextracted⟩, hcited⟩
      exact ⟨e, ffile, tmod, ⟨he, hmember, htype, hextracted, hcited, hffile, hid, hcode, hpath, htmod, htmember, hto,
        htitle⟩, hacl⟩
    · rintro ⟨e, ffile, tmod, h, hacl⟩
      exact ⟨edge_fact e ffile.1.acl_teams tmod.acl_teams, ⟨⟨e, ⟨h.edge, h.edge_type, h.edge_member⟩, ffile,
        ⟨h.file_member, ⟨h.file_id, h.code_file⟩, h.path⟩, tmod, ⟨⟨h.module_artifact, h.module_id, h.module_member⟩, h.title⟩, rfl⟩,
        hacl, h.extracted⟩, h.cited⟩
  rw [hfacts]
  constructor
  · rintro ⟨e, ffile, tmod, h, hacl⟩
    cases hmodule : acl_admits requester.teams tmod.acl_teams with
    | true => exact .inl ⟨e, ffile, tmod, h, hmodule, hacl⟩
    | false =>
      refine .inr ⟨e, ffile, tmod, h, hmodule, ?_⟩
      have hnot : ¬ acl_admits requester.teams tmod.acl_teams = true := by simp [hmodule]
      obtain hdisjoint | ⟨-, hto⟩ | ⟨hto, -⟩ | ⟨team, hteam, -, hto⟩ := acl_admits_intersection.1 hacl
      · exact hdisjoint
      · exact absurd hto hnot
      · exact absurd (acl_admits_iff.2 (.inl hto)) hnot
      · exact absurd (acl_admits_iff.2 (.inr ⟨team, hteam, hto⟩)) hnot
  · rintro (⟨e, ffile, tmod, h, -, hacl⟩ | ⟨e, ffile, tmod, h, -, hdisjoint⟩)
    · exact ⟨e, ffile, tmod, h, hacl⟩
    · exact ⟨e, ffile, tmod, h, acl_admits_intersection.2 (.inl hdisjoint)⟩

end Imports

section TwoDatabases

/-- Two keyed databases that agree at a build on what a requester is admitted to. -/
structure SameAt (requester : Requester) (build_seq : Nat) (db db' : Database) : Prop where
  keyed : Keyed db
  keyed' : Keyed db'
  members : admitted_members db build_seq requester = admitted_members db' build_seq requester
  edges : ∀ e, e ∈ admitted_edges db build_seq requester ↔ e ∈ admitted_edges db' build_seq requester

variable {db db' : Database} {build_seq : Nat} {requester : Requester}

theorem SameAt.symm (h : SameAt requester build_seq db db') : SameAt requester build_seq db' db :=
  ⟨h.keyed', h.keyed, h.members.symm, fun e => (h.edges e).symm⟩

theorem SameAt.admitted (h : SameAt requester build_seq db db') (id : Uuid) :
    ContextBroker.admitted db build_seq requester id = ContextBroker.admitted db' build_seq requester id := by
  rw [ContextBroker.admitted, h.members, ContextBroker.admitted]

theorem SameAt.sources (h : SameAt requester build_seq db db') :
    admitted_sources db build_seq requester = admitted_sources db' build_seq requester := by
  rw [admitted_sources, h.members, admitted_sources]

theorem SameAt.members_of_id (h : SameAt requester build_seq db db') {id : Uuid}
    (hid : ContextBroker.admitted db build_seq requester id = true) :
    members_of_id db build_seq id = members_of_id db' build_seq id := by
  have hq : ∀ other, (other == id) = true → ContextBroker.admitted db build_seq requester other = true := by
    intro other heq
    rw [beq_iff_eq.1 heq]
    exact hid
  have hleft := filter_members_eq h.keyed hq
  have hright := filter_members_eq h.keyed' fun other heq => (h.admitted other).symm.trans (hq other heq)
  rw [ContextBroker.members_of_id, hleft, h.members, ContextBroker.members_of_id, hright]

/-- A member edge between admitted artifacts is in both. -/
theorem SameAt.mem_edges (h : SameAt requester build_seq db db') {e : KnowledgeEdge} (hmember : e.MemberAt build_seq)
    (hfrom : ContextBroker.admitted db build_seq requester e.from_artifact_id = true)
    (hto : ContextBroker.admitted db build_seq requester e.to_artifact_id = true) : e ∈ db.edges ↔ e ∈ db'.edges := by
  have hedges := h.edges e
  simpa [admitted_edges, hmember, hfrom, hto, ← h.admitted] using hedges

theorem SameAt.visibleImport (h : SameAt requester build_seq db db') {cited_ids : List Uuid} {file module : String}
    (hcited : ∀ id ∈ cited_ids, ContextBroker.admitted db build_seq requester id = true)
    (himport : VisibleImport db build_seq requester cited_ids file module) :
    VisibleImport db' build_seq requester cited_ids file module := by
  obtain ⟨e, ffile, tmod, hfact, hmodule, hacl⟩ := himport
  have hfrom := hcited _ hfact.cited
  have htmod : ContextBroker.admitted db build_seq requester tmod.artifact_id = true :=
    admitted_iff.2 ⟨tmod, hfact.module_artifact, hfact.module_member, hmodule, rfl⟩
  have hto : ContextBroker.admitted db build_seq requester e.to_artifact_id = true := hfact.module_id ▸ htmod
  have hffile : ffile ∈ admitted_sources db build_seq requester := by
    have hq : ∀ other, (other == e.from_artifact_id) = true →
        ContextBroker.admitted db build_seq requester other = true := by
      intro other heq
      rw [beq_iff_eq.1 heq]
      exact hfrom
    have hmem : ffile ∈ (member_artifacts db build_seq).filter fun entry =>
        entry.1.artifact_id == e.from_artifact_id :=
      List.mem_filter.2 ⟨hfact.file_member, beq_iff_eq.2 hfact.file_id⟩
    rw [filter_member_artifacts_eq (q := fun id => id == e.from_artifact_id) h.keyed hq] at hmem
    exact (List.mem_filter.1 hmem).1
  have hffile' : ffile ∈ member_artifacts db' build_seq := by
    rw [h.sources, admitted_sources_eq] at hffile
    exact (List.mem_filter.1 hffile).1
  have htmod' : tmod ∈ ContextBroker.members_of_id db' build_seq tmod.artifact_id := by
    rw [← h.members_of_id htmod, ContextBroker.members_of_id, List.mem_filter]
    exact ⟨hfact.module_artifact, by simp [hfact.module_member]⟩
  exact ⟨e, ffile, tmod, ⟨(h.mem_edges hfact.edge_member hfrom hto).1 hfact.edge, hfact.edge_member, hfact.edge_type,
    hfact.extracted, hfact.cited, hffile', hfact.file_id, hfact.code_file, hfact.path, (List.mem_filter.1 htmod').1,
    hfact.module_member, hfact.module_id, hfact.title⟩, hmodule, hacl⟩

theorem adjudicate_symbol_iff {parse_uuid : String → Option Uuid} {symbol file : String} {cited_ids : List Uuid} :
    adjudicate_typed_fact parse_uuid db (.symbol_in_file symbol file) build_seq requester cited_ids = true ↔
      ∃ entry ∈ admitted_sources db build_seq requester,
        (entry.1.artifact_type = .code_symbol ∨ entry.1.artifact_type = .test) ∧ entry.1.title = some symbol ∧
          entry.2.path = some file ∧ entry.1.artifact_id ∈ cited_ids := by
  rw [admitted_sources_eq]
  simp only [adjudicate_typed_fact, fetch_symbol_in_file_units, List.any_eq_true, List.mem_filter, List.mem_filterMap,
    List.contains_iff_mem]
  constructor
  · rintro ⟨row, ⟨⟨entry, hentry, hrow⟩, hacl⟩, hcited⟩
    split at hrow
    · rename_i hcond
      obtain rfl := Option.some.inj hrow
      simp only [Bool.and_eq_true, Bool.or_eq_true, beq_iff_eq] at hcond
      exact ⟨entry, ⟨hentry, hacl⟩, hcond.1.1, hcond.1.2, hcond.2, hcited⟩
    · simp at hrow
  · rintro ⟨entry, ⟨hentry, hacl⟩, htype, htitle, hpath, hcited⟩
    have hcond : ((entry.1.artifact_type == .code_symbol || entry.1.artifact_type == .test) &&
        entry.1.title == some symbol && entry.2.path == some file) = true := by
      simp only [Bool.and_eq_true, Bool.or_eq_true, beq_iff_eq]
      exact ⟨⟨htype, htitle⟩, hpath⟩
    exact ⟨_, ⟨⟨entry, hentry, if_pos hcond⟩, hacl⟩, hcited⟩

theorem adjudicate_edge_iff {parse_uuid : String → Option Uuid} {edge_type raw_from raw_to : String}
    {cited_ids : List Uuid} :
    adjudicate_typed_fact parse_uuid db (.edge_between edge_type raw_from raw_to) build_seq requester cited_ids = true ↔
      ∃ from_id ∈ parse_uuid raw_from, ∃ to_id ∈ parse_uuid raw_to, from_id ∈ cited_ids ∧ to_id ∈ cited_ids ∧
        ∃ e ∈ db.edges, e.MemberAt build_seq ∧ e.edge_type.text = edge_type ∧
          is_claim_supporting e.trust_class = true ∧
          (e.from_artifact_id = from_id ∧ e.to_artifact_id = to_id ∨
            e.from_artifact_id = to_id ∧ e.to_artifact_id = from_id) ∧
          ∃ af ∈ members_of_id db build_seq e.from_artifact_id, ∃ at2 ∈ members_of_id db build_seq e.to_artifact_id,
            acl_admits requester.teams (acl_intersection af.acl_teams at2.acl_teams) = true := by
  rw [adjudicate_typed_fact]
  cases hfrom : parse_uuid raw_from with
  | none => simp
  | some from_id =>
    cases hto : parse_uuid raw_to with
    | none => simp
    | some to_id =>
      simp only [Option.mem_some_iff, exists_eq_left']
      by_cases hcited : (cited_ids.contains from_id && cited_ids.contains to_id) = true
      · rw [if_pos hcited]
        rw [Bool.and_eq_true, List.contains_iff_mem, List.contains_iff_mem] at hcited
        rw [Bool.not_eq_true', List.isEmpty_eq_false_iff_exists_mem]
        simp only [hcited.1, hcited.2, true_and, claim_supporting_edge_units, fetch_edge_between_units, List.mem_filter,
          List.mem_flatMap, List.mem_map, Bool.and_eq_true, Bool.or_eq_true, beq_iff_eq, decide_eq_true_eq]
        constructor
        · rintro ⟨row, ⟨e, ⟨he, ⟨htype, hmember⟩, hends⟩, af, haf, at2, hat2, rfl⟩, hacl, hextracted⟩
          exact ⟨e, he, hmember, htype, hextracted, hends, af, haf, at2, hat2, hacl⟩
        · rintro ⟨e, he, hmember, htype, hextracted, hends, af, haf, at2, hat2, hacl⟩
          exact ⟨edge_fact e af.acl_teams at2.acl_teams, ⟨e, ⟨he, ⟨htype, hmember⟩, hends⟩, af, haf, at2, hat2, rfl⟩,
            hacl, hextracted⟩
      · rw [if_neg hcited]
        rw [Bool.and_eq_true, List.contains_iff_mem, List.contains_iff_mem] at hcited
        constructor
        · intro hfalse
          simp at hfalse
        · rintro ⟨hf, ht, -⟩
          exact absurd ⟨hf, ht⟩ hcited

theorem SameAt.adjudicate_edge (h : SameAt requester build_seq db db') {parse_uuid : String → Option Uuid}
    {edge_type raw_from raw_to : String} {cited_ids : List Uuid}
    (hcited : ∀ id ∈ cited_ids, ContextBroker.admitted db build_seq requester id = true)
    (hedge : adjudicate_typed_fact parse_uuid db (.edge_between edge_type raw_from raw_to) build_seq requester
      cited_ids = true) :
    adjudicate_typed_fact parse_uuid db' (.edge_between edge_type raw_from raw_to) build_seq requester cited_ids =
      true := by
  obtain ⟨from_id, hfrom, to_id, hto, hfc, htc, e, he, hmember, htype, hextracted, hends, af, haf, at2, hat2, hacl⟩ :=
    adjudicate_edge_iff.1 hedge
  have hboth : ContextBroker.admitted db build_seq requester e.from_artifact_id = true ∧
      ContextBroker.admitted db build_seq requester e.to_artifact_id = true := by
    cases hends with
    | inl hout => exact ⟨hout.1 ▸ hcited _ hfc, hout.2 ▸ hcited _ htc⟩
    | inr hin => exact ⟨hin.1 ▸ hcited _ htc, hin.2 ▸ hcited _ hfc⟩
  rw [h.members_of_id hboth.1] at haf
  rw [h.members_of_id hboth.2] at hat2
  exact adjudicate_edge_iff.2 ⟨from_id, hfrom, to_id, hto, hfc, htc, e, (h.mem_edges hmember hboth.1 hboth.2).1 he,
    hmember, htype, hextracted, hends, af, haf, at2, hat2, hacl⟩

/-- Assertions of the two other kinds are adjudicated alike in both. -/
theorem SameAt.adjudicate (h : SameAt requester build_seq db db') {parse_uuid : String → Option Uuid}
    {assertion : ClaimAssertion} {cited_ids : List Uuid}
    (hcited : ∀ id ∈ cited_ids, ContextBroker.admitted db build_seq requester id = true)
    (hkind : ∀ file module, assertion ≠ .file_imports_module file module) :
    adjudicate_typed_fact parse_uuid db assertion build_seq requester cited_ids =
      adjudicate_typed_fact parse_uuid db' assertion build_seq requester cited_ids := by
  rw [Bool.eq_iff_iff]
  cases assertion with
  | symbol_in_file symbol file => rw [adjudicate_symbol_iff, adjudicate_symbol_iff, h.sources]
  | file_imports_module file module => exact absurd rfl (hkind file module)
  | edge_between edge_type raw_from raw_to =>
    exact ⟨h.adjudicate_edge hcited, h.symm.adjudicate_edge fun id hid => (h.admitted id).symm.trans (hcited id hid)⟩

/-- Assertions about imports are, exactly if the hidden facts that could support them are in both or in neither. -/
theorem SameAt.adjudicate_import (h : SameAt requester build_seq db db') {parse_uuid : String → Option Uuid}
    {file module : String} {cited_ids : List Uuid}
    (hcited : ∀ id ∈ cited_ids, ContextBroker.admitted db build_seq requester id = true) :
    adjudicate_typed_fact parse_uuid db (.file_imports_module file module) build_seq requester cited_ids =
        adjudicate_typed_fact parse_uuid db' (.file_imports_module file module) build_seq requester cited_ids ↔
      (VisibleImport db build_seq requester cited_ids file module ∨
        (HiddenImport db build_seq requester cited_ids file module ↔
          HiddenImport db' build_seq requester cited_ids file module)) := by
  have hvisible : VisibleImport db build_seq requester cited_ids file module ↔
      VisibleImport db' build_seq requester cited_ids file module :=
    ⟨h.visibleImport hcited, h.symm.visibleImport fun id hid => (h.admitted id).symm.trans (hcited id hid)⟩
  rw [Bool.eq_iff_iff, adjudicate_import_iff, adjudicate_import_iff, ← hvisible]
  by_cases himport : VisibleImport db build_seq requester cited_ids file module
  · simp [himport]
  · simp [himport]

end TwoDatabases

section Context

variable {deps : VerifierDeps} {db : Database} {request : VerifyAnswerRequest} {requester : Requester}
  {active : ActiveVersion}

/-- The ids that a request cites, each once. -/
def unique_ids (deps : VerifierDeps) (request : VerifyAnswerRequest) : List Uuid :=
  (request.claims.flatMap (evidence_uuids deps)).eraseDups

/-- The provenance a request reads, of the members it cites. -/
theorem in_version_eq (hkeyed : Keyed db)
    (hactive : (resolve_evidence deps db request requester active).is_active = true) :
    (resolve_evidence deps db request requester active).ctx.in_version =
      ((member_artifacts db active.build_seq).filter fun entry =>
        (unique_ids deps request).contains entry.1.artifact_id).map fun entry =>
          (entry.1.artifact_id, provenance_row db active.build_seq entry) := by
  rw [← fetch_provenance_eq hkeyed]
  exact if_pos hactive

theorem acl_visible_eq (hkeyed : Keyed db)
    (hactive : (resolve_evidence deps db request requester active).is_active = true) :
    (resolve_evidence deps db request requester active).ctx.acl_visible =
      ((admitted_sources db active.build_seq requester).filter fun entry =>
        (unique_ids deps request).contains entry.1.artifact_id).map (·.1.artifact_id) := by
  have hvisible : (resolve_evidence deps db request requester active).ctx.acl_visible =
      ((resolve_evidence deps db request requester active).ctx.in_version.filter fun entry =>
        acl_admits requester.teams entry.2.acl_teams).map (·.1) := rfl
  rw [hvisible, in_version_eq hkeyed hactive, List.filter_map, List.map_map, admitted_sources_eq, List.filter_comm]
  rfl

theorem acl_visible_inactive (hpinned : (resolve_evidence deps db request requester active).is_active = false) :
    (resolve_evidence deps db request requester active).ctx.acl_visible = [] := by
  have hvisible : (resolve_evidence deps db request requester active).ctx.acl_visible =
      ((resolve_evidence deps db request requester active).ctx.in_version.filter fun entry =>
        acl_admits requester.teams entry.2.acl_teams).map (·.1) := rfl
  have hnone : (resolve_evidence deps db request requester active).ctx.in_version = [] := 
    if_neg (Bool.eq_false_iff.1 hpinned)
  rw [hvisible, hnone]
  rfl

theorem resolvable_ids_eq : (resolve_evidence deps db request requester active).resolvable_ids =
    (resolve_evidence deps db request requester active).ctx.acl_visible.filter
      (resolve_evidence deps db request requester active).ctx.retrieved_by_requester.contains := by
  have hvisible : (resolve_evidence deps db request requester active).ctx.acl_visible =
      ((resolve_evidence deps db request requester active).ctx.in_version.filter fun entry =>
        acl_admits requester.teams entry.2.acl_teams).map (·.1) := rfl
  rw [hvisible, List.filter_map]
  rfl

/-- An id the requester may see stands for an admitted member with a source, whose state the checks read. -/
theorem source_of_visible (hkeyed : Keyed db) {id : Uuid}
    (h : id ∈ (resolve_evidence deps db request requester active).ctx.acl_visible) :
    ∃ entry ∈ admitted_sources db active.build_seq requester, entry.1.artifact_id = id ∧
      (resolve_evidence deps db request requester active).ctx.in_version.get? id =
        some (provenance_row db active.build_seq entry) := by
  cases hactive : (resolve_evidence deps db request requester active).is_active with
  | false =>
    rw [acl_visible_inactive hactive] at h
    simp at h
  | true =>
    rw [acl_visible_eq hkeyed hactive] at h
    obtain ⟨entry, hentry, rfl⟩ := List.mem_map.1 h
    obtain ⟨hmem, hcited⟩ := List.mem_filter.1 hentry
    refine ⟨entry, hmem, rfl, ?_⟩
    rw [admitted_sources_eq] at hmem
    have hmember : entry ∈ (member_artifacts db active.build_seq).filter fun entry =>
        (unique_ids deps request).contains entry.1.artifact_id :=
      List.mem_filter.2 ⟨(List.mem_filter.1 hmem).1, hcited⟩
    rw [in_version_eq hkeyed hactive]
    refine Dict.get?_of_mem ?_ (List.mem_map_of_mem hmember)
    rw [List.map_map]
    exact (List.filter_sublist.map _).nodup (nodup_member_ids hkeyed)

end Context

section Evidence

variable {deps : VerifierDeps} {db db' : Database} {request : VerifyAnswerRequest} {requester : Requester}
  {active : ActiveVersion}

/-- What the levels behind the first one read of a request's evidence is the same. -/
structure SameEvidence (evidence evidence' : Evidence) : Prop where
  is_active : evidence.is_active = evidence'.is_active
  levels : evidence.levels = evidence'.levels
  build_seq : evidence.build_seq = evidence'.build_seq
  acl_visible : evidence.ctx.acl_visible = evidence'.ctx.acl_visible
  retrieved : evidence.ctx.retrieved_by_requester = evidence'.ctx.retrieved_by_requester
  resolvable_ids : evidence.resolvable_ids = evidence'.resolvable_ids
  cited_body_texts : evidence.cited_body_texts = evidence'.cited_body_texts

theorem admitted_of_visible (hkeyed : Keyed db) {id : Uuid}
    (h : id ∈ (resolve_evidence deps db request requester active).ctx.acl_visible) :
    admitted db active.build_seq requester id = true := by
  obtain ⟨entry, hentry, rfl, -⟩ := source_of_visible hkeyed h
  exact admitted_of_mem_sources hentry

theorem admitted_of_resolvable (hkeyed : Keyed db) {id : Uuid}
    (h : id ∈ (resolve_evidence deps db request requester active).resolvable_ids) :
    admitted db active.build_seq requester id = true := by
  rw [resolvable_ids_eq] at h
  exact admitted_of_visible hkeyed (List.mem_filter.1 h).1

theorem SameAt.body_texts {p : Platform} {ids : List Uuid} (h : SameAt requester active.build_seq db db')
    (hids : ∀ id ∈ ids, ContextBroker.admitted db active.build_seq requester id = true) :
    fetch_cited_body_texts p db ids active.build_seq = fetch_cited_body_texts p db' ids active.build_seq := by
  have hq : ∀ id, ids.contains id = true → ContextBroker.admitted db active.build_seq requester id = true :=
    fun id hid => hids id (List.contains_iff_mem.1 hid)
  rw [fetch_cited_body_texts, fetch_cited_body_texts, filter_members_eq h.keyed hq, h.members,
    filter_members_eq h.keyed' fun id hid => (h.admitted id).symm.trans (hq id hid)]

/-- The bodies the model is given are the same in both. -/
theorem SameAt.evidence_texts {p : Platform} {ids : List Uuid} (h : SameAt requester active.build_seq db db')
    (hids : ∀ id ∈ ids, ContextBroker.admitted db active.build_seq requester id = true) :
    (fetch_artifacts p db ids active.build_seq).filterMap (·.body_text) =
      (fetch_artifacts p db' ids active.build_seq).filterMap (·.body_text) := by
  have hq : ∀ id, ids.contains id = true → ContextBroker.admitted db active.build_seq requester id = true :=
    fun id hid => hids id (List.contains_iff_mem.1 hid)
  have htexts : ∀ db : Database, (fetch_artifacts p db ids active.build_seq).filterMap (·.body_text) =
      ((member_artifacts db active.build_seq).filter fun entry => ids.contains entry.1.artifact_id).filterMap
        fun entry => entry.1.body_text.map p.body_string := by
    intro db
    rw [fetch_artifacts, List.filter_map, List.filterMap_map]
    rfl
  rw [htexts, htexts, filter_member_artifacts_eq h.keyed hq, h.sources,
    filter_member_artifacts_eq h.keyed' fun id hid => (h.admitted id).symm.trans (hq id hid)]

theorem SameAt.evidence (h : SameAt requester active.build_seq db db')
    (hledger : db.retrieval_events = db'.retrieval_events) (deps : VerifierDeps) (request : VerifyAnswerRequest) :
    SameEvidence (resolve_evidence deps db request requester active)
      (resolve_evidence deps db' request requester active) := by
  have hretrieved : (resolve_evidence deps db request requester active).ctx.retrieved_by_requester =
      (resolve_evidence deps db' request requester active).ctx.retrieved_by_requester := by
    have hfetch : fetch_subject_retrieved_ids db requester.subject active.kb_version =
        fetch_subject_retrieved_ids db' requester.subject active.kb_version := by
      rw [fetch_subject_retrieved_ids, hledger, fetch_subject_retrieved_ids]
    exact hfetch
  have hvisible : (resolve_evidence deps db request requester active).ctx.acl_visible =
      (resolve_evidence deps db' request requester active).ctx.acl_visible := by
    cases hactive : (resolve_evidence deps db request requester active).is_active with
    | false =>
      have hactive' : (resolve_evidence deps db' request requester active).is_active = false := hactive
      rw [acl_visible_inactive hactive, acl_visible_inactive hactive']
    | true =>
      have hactive' : (resolve_evidence deps db' request requester active).is_active = true := hactive
      rw [acl_visible_eq h.keyed hactive, acl_visible_eq h.keyed' hactive', h.sources]
  have hresolvable : (resolve_evidence deps db request requester active).resolvable_ids =
      (resolve_evidence deps db' request requester active).resolvable_ids := by
    rw [resolvable_ids_eq, resolvable_ids_eq, hvisible, hretrieved]
  have htexts : ∀ db : Database, (resolve_evidence deps db request requester active).cited_body_texts =
      if (resolve_evidence deps db request requester active).levels.contains .L1 &&
          (resolve_evidence deps db request requester active).is_active &&
          !(resolve_evidence deps db request requester active).resolvable_ids.isEmpty then
        fetch_cited_body_texts deps.platform db (resolve_evidence deps db request requester active).resolvable_ids
          active.build_seq
      else [] := fun _ => rfl
  refine ⟨rfl, rfl, rfl, hvisible, hretrieved, hresolvable, ?_⟩
  rw [htexts, htexts, h.body_texts fun id hid => admitted_of_resolvable h.keyed hid, hresolvable]
  rfl

end Evidence

section FirstLevel

variable {deps : VerifierDeps} {db db' : Database} {request : VerifyAnswerRequest} {requester : Requester}
  {active : ActiveVersion} {evidence evidence' : Evidence}

variable (deps evidence) in
/-- Every id the claim cites resolves to a unit whose source is still there. -/
def citations_resolve (claim : ClaimInput) : Bool :=
  claim.evidence_ids.all fun raw_id =>
    (check_evidence deps.parse_uuid evidence.ctx raw_id).1.resolvable &&
      (check_evidence deps.parse_uuid evidence.ctx raw_id).1.not_stale

variable (deps evidence) in
/-- Every id the claim cites passes the check of its edges. -/
def citations_trusted (claim : ClaimInput) : Bool :=
  claim.evidence_ids.all fun raw_id => (check_evidence deps.parse_uuid evidence.ctx raw_id).1.supporting_trust_ok

theorem l0_passes_iff {claim : ClaimInput} : l0_passes deps evidence claim = true ↔
    citations_resolve deps evidence claim = true ∧ citations_trusted deps evidence claim = true := by
  simp only [l0_passes, citations_resolve, citations_trusted, L0Result.passed, L0Result.resolvable, List.all_eq_true,
    Bool.and_eq_true]
  constructor
  · intro h
    exact ⟨fun raw_id hraw => (h raw_id hraw).1, fun raw_id hraw => (h raw_id hraw).2⟩
  · rintro ⟨hresolve, htrusted⟩ raw_id hraw
    exact ⟨hresolve raw_id hraw, htrusted raw_id hraw⟩

/-- A unit resolves if the requester may see it and was given it. -/
theorem resolvable_eq (hkeyed : Keyed db) (raw_id : String) :
    (check_evidence deps.parse_uuid (resolve_evidence deps db request requester active).ctx raw_id).1.resolvable =
      (deps.parse_uuid raw_id).any fun id =>
        (resolve_evidence deps db request requester active).ctx.acl_visible.contains id &&
          (resolve_evidence deps db request requester active).ctx.retrieved_by_requester.contains id := by
  unfold check_evidence
  cases deps.parse_uuid raw_id with
  | none => rfl
  | some id =>
    dsimp only [L0Result.resolvable, Option.any_some]
    by_cases hvisible : id ∈ (resolve_evidence deps db request requester active).ctx.acl_visible
    · obtain ⟨entry, -, -, hrow⟩ := source_of_visible hkeyed hvisible
      simp [hrow]
    · simp [hvisible]

/-- A visible unit is stale if its source is deleted. -/
theorem not_stale_eq (hkeyed : Keyed db) {raw_id : String} {id : Uuid} (hparse : deps.parse_uuid raw_id = some id)
    (hvisible : id ∈ (resolve_evidence deps db request requester active).ctx.acl_visible) :
    (check_evidence deps.parse_uuid (resolve_evidence deps db request requester active).ctx raw_id).1.not_stale =
      ((admitted_sources db active.build_seq requester).filter fun entry => entry.1.artifact_id == id).all
        fun entry => !entry.2.is_deleted := by
  obtain ⟨entry, hentry, rfl, hrow⟩ := source_of_visible hkeyed hvisible
  have hids : ((admitted_sources db active.build_seq requester).map (·.1.artifact_id)).Nodup := by
    rw [admitted_sources_eq]
    exact (List.filter_sublist.map _).nodup (nodup_member_ids hkeyed)
  obtain ⟨k, hk⟩ := List.mem_iff_getElem?.1 hentry
  have hone := Dict.filter_key_eq hids hk
  have hunit : (check_evidence deps.parse_uuid (resolve_evidence deps db request requester active).ctx
      raw_id).1.not_stale = !entry.2.is_deleted := by
    rw [check_evidence, hparse]
    dsimp only
    rw [hrow]
    rfl
  rw [hunit, hone, List.all_cons, List.all_nil, Bool.and_true]

/-- Whether a claim's citations resolve does not depend on what the requester may not see. -/
theorem SameAt.citations_resolve (h : SameAt requester active.build_seq db db')
    (hledger : db.retrieval_events = db'.retrieval_events) (claim : ClaimInput) :
    ContextBroker.citations_resolve deps (resolve_evidence deps db request requester active) claim =
      ContextBroker.citations_resolve deps (resolve_evidence deps db' request requester active) claim := by
  have hsame := h.evidence hledger deps request
  have hunit : ∀ raw_id,
      ((check_evidence deps.parse_uuid (resolve_evidence deps db request requester active).ctx raw_id).1.resolvable &&
        (check_evidence deps.parse_uuid (resolve_evidence deps db request requester active).ctx raw_id).1.not_stale) =
      ((check_evidence deps.parse_uuid (resolve_evidence deps db' request requester active).ctx raw_id).1.resolvable &&
        (check_evidence deps.parse_uuid (resolve_evidence deps db' request requester active).ctx
          raw_id).1.not_stale) := by
    intro raw_id
    rw [resolvable_eq h.keyed, resolvable_eq h.keyed', ← hsame.acl_visible, ← hsame.retrieved]
    cases hparse : deps.parse_uuid raw_id with
    | none => rfl
    | some id =>
      by_cases hvisible : id ∈ (resolve_evidence deps db request requester active).ctx.acl_visible
      · rw [not_stale_eq h.keyed hparse hvisible, not_stale_eq h.keyed' hparse (hsame.acl_visible ▸ hvisible), h.sources]
      · have hnot : (resolve_evidence deps db request requester active).ctx.acl_visible.contains id = false := by
          simpa using hvisible
        simp only [Option.any_some, hnot, Bool.false_and]
  rw [ContextBroker.citations_resolve, ContextBroker.citations_resolve]
  simp only [hunit]

end FirstLevel

section LaterLevels

variable {deps : VerifierDeps} {db db' : Database} {request : VerifyAnswerRequest} {requester : Requester}
  {active : ActiveVersion}

theorem l1_coverage_congr {claim : ClaimInput} {units units' : List L0Result} (texts : List String)
    (h : (units.any (·.resolvable)) = units'.any (·.resolvable)) :
    l1_coverage deps claim units texts = l1_coverage deps claim units' texts := by
  unfold l1_coverage
  rw [h]

/-- The coverage level is the same in both. -/
theorem SameAt.claim_l1 (h : SameAt requester active.build_seq db db')
    (hledger : db.retrieval_events = db'.retrieval_events) (claim : ClaimInput) :
    ContextBroker.claim_l1 deps (resolve_evidence deps db request requester active) claim =
      ContextBroker.claim_l1 deps (resolve_evidence deps db' request requester active) claim := by
  have hsame := h.evidence hledger deps request
  have hunits : (((evidence_results deps (resolve_evidence deps db request requester active) claim).map (·.1)).any
      (·.resolvable)) = ((evidence_results deps (resolve_evidence deps db' request requester active) claim).map
        (·.1)).any (·.resolvable) := by
    simp only [evidence_results, List.any_map, Function.comp_def, resolvable_eq h.keyed, resolvable_eq h.keyed',
      hsame.acl_visible, hsame.retrieved]
  rw [ContextBroker.claim_l1, ContextBroker.claim_l1, l1_coverage_congr _ hunits, claim_cited_texts, claim_cited_texts,
    hsame.resolvable_ids, hsame.cited_body_texts]
  rfl

theorem own_l2_eq_none_iff {evidence : Evidence} {claim : ClaimInput} :
    own_l2 deps db requester evidence claim = none ↔
      (evidence.levels.contains .L2 && evidence.is_active) = false ∨ claim.assertion = none := by
  rw [own_l2, l2_verdict]
  cases evidence.levels.contains .L2 && evidence.is_active with
  | true => simp
  | false => simp

/-- Whether a claim's assertion is adjudicated is the same in both. -/
theorem SameEvidence.shared_l2_eq_none {evidence evidence' : Evidence} (h : SameEvidence evidence evidence')
    (claim_id : String) :
    shared_l2 deps db request requester evidence claim_id = none ↔
      shared_l2 deps db' request requester evidence' claim_id = none := by
  simp only [shared_l2, List.getLast?_eq_none_iff, List.filterMap_eq_nil_iff, own_l2_eq_none_iff, h.levels, h.is_active]

/-- The model is asked about the same claims, with the same texts, if the first passes let through the same. -/
theorem SameAt.l3_outcomes (h : SameAt requester active.build_seq db db')
    (hledger : db.retrieval_events = db'.retrieval_events) (client : EntailmentClient) {claims : List ClaimInput}
    (hruns : ∀ claim ∈ claims,
      l3_runs deps (resolve_evidence deps db request requester active)
          (deterministic_claim deps (resolve_evidence deps db request requester active) claim) =
        l3_runs deps (resolve_evidence deps db' request requester active)
          (deterministic_claim deps (resolve_evidence deps db' request requester active) claim)) (state : L3Pass) :
    ContextBroker.l3_outcomes deps db (resolve_evidence deps db request requester active) client state
        (deterministic_pass deps (resolve_evidence deps db request requester active) claims) =
      ContextBroker.l3_outcomes deps db' (resolve_evidence deps db' request requester active) client state
        (deterministic_pass deps (resolve_evidence deps db' request requester active) claims) := by
  have hsame := h.evidence hledger deps request
  have hasked : ∀ (state : L3Pass) (text : String) (claim : ClaimInput),
      run_l3_entailment deps (resolve_evidence deps db request requester active) db client state text
          (cited_resolvable deps (resolve_evidence deps db request requester active).resolvable_ids claim) =
        run_l3_entailment deps (resolve_evidence deps db' request requester active) db' client state text
          (cited_resolvable deps (resolve_evidence deps db' request requester active).resolvable_ids claim) := by
    intro state text claim
    rw [← hsame.resolvable_ids]
    have hids : ∀ id ∈ cited_resolvable deps (resolve_evidence deps db request requester active).resolvable_ids claim,
        ContextBroker.admitted db active.build_seq requester id = true := by
      intro id hid
      rw [cited_resolvable, List.mem_dedup, List.mem_filter, List.contains_iff_mem] at hid
      exact admitted_of_resolvable h.keyed hid.2
    have htexts := h.evidence_texts (p := deps.platform) hids
    have hbuild : ∀ db : Database, (resolve_evidence deps db request requester active).build_seq = active.build_seq :=
      fun _ => rfl
    rw [run_l3_entailment, run_l3_entailment, hbuild, hbuild, htexts]
  induction claims generalizing state with
  | nil => rfl
  | cons claim claims ih =>
    have hfirst := hruns claim List.mem_cons_self
    have hstep : l3_step deps (resolve_evidence deps db request requester active) db client state
          (deterministic_claim deps (resolve_evidence deps db request requester active) claim) =
        l3_step deps (resolve_evidence deps db' request requester active) db' client state
          (deterministic_claim deps (resolve_evidence deps db' request requester active) claim) := by
      have hclaim : ∀ evidence : Evidence, (deterministic_claim deps evidence claim).claim = claim := fun _ => rfl
      rw [l3_step, l3_step, hfirst, hclaim, hclaim]
      dsimp only
      rw [hasked, hsame.resolvable_ids]
    have hone : l3_outcome deps db (resolve_evidence deps db request requester active) client state
          (deterministic_claim deps (resolve_evidence deps db request requester active) claim) =
        l3_outcome deps db' (resolve_evidence deps db' request requester active) client state
          (deterministic_claim deps (resolve_evidence deps db' request requester active) claim) := by
      have hclaim : ∀ evidence : Evidence, (deterministic_claim deps evidence claim).claim = claim := fun _ => rfl
      rw [l3_outcome, l3_outcome, hfirst, hclaim, hclaim, hasked]
    rw [deterministic_pass, deterministic_pass, List.map_cons, List.map_cons, ContextBroker.l3_outcomes,
      ContextBroker.l3_outcomes, hstep, hone]
    have hrest := ih (fun other hother => hruns other (List.mem_cons_of_mem _ hother))
      (l3_step deps (resolve_evidence deps db' request requester active) db' client state
        (deterministic_claim deps (resolve_evidence deps db' request requester active) claim))
    rw [deterministic_pass, deterministic_pass] at hrest
    rw [hrest]
    rfl

end LaterLevels

section NoOracle

/-- The verdicts of the later levels that a receipt reports on a claim. -/
def ClaimReceipt.later_levels (receipt : ClaimReceipt) : Option Bool × Option Bool × Option Bool :=
  (receipt.checks.L1_coverage, receipt.checks.L2_typed_fact, receipt.checks.L3_entailment)

/-- Every claim of the request has the same verdicts of its own in both, and the receipts report the same. -/
structure SameVerdicts (deps : VerifierDeps) (db db' : Database) (request : VerifyAnswerRequest)
    (requester : Requester) (active : ActiveVersion) : Prop where
  l1 : ∀ claim ∈ request.claims,
    (claim_l1 deps (resolve_evidence deps db request requester active) claim).map (·.1) =
      (claim_l1 deps (resolve_evidence deps db' request requester active) claim).map (·.1)
  l2 : ∀ claim ∈ request.claims,
    own_l2 deps db requester (resolve_evidence deps db request requester active) claim =
      own_l2 deps db' requester (resolve_evidence deps db' request requester active) claim
  l3 : ∀ k, own_l3 deps db request (resolve_evidence deps db request requester active) k =
    own_l3 deps db' request (resolve_evidence deps db' request requester active) k
  reported : ∀ client_id receipt receipt',
    (verify_answer deps db request requester client_id).1 = .ok receipt →
      (verify_answer deps db' request requester client_id).1 = .ok receipt' →
        receipt.claim_results.map (·.later_levels) = receipt'.claim_results.map (·.later_levels)

/-- What the requester may not see weighs the same in both, where it weighs at all: the import facts about modules
whose access list has no team in common with the file's, and the edges to hidden artifacts in the check of a
citation's edges. -/
structure HiddenAlike (deps : VerifierDeps) (db db' : Database) (request : VerifyAnswerRequest)
    (requester : Requester) (evidence evidence' : Evidence) : Prop where
  imports : (evidence.levels.contains .L2 && evidence.is_active) = true → ∀ claim ∈ request.claims, ∀ file module,
    claim.assertion = some (.file_imports_module file module) →
      VisibleImport db evidence.build_seq requester (cited_resolvable deps evidence.resolvable_ids claim) file module ∨
        (HiddenImport db evidence.build_seq requester (cited_resolvable deps evidence.resolvable_ids claim) file
            module ↔
          HiddenImport db' evidence.build_seq requester (cited_resolvable deps evidence.resolvable_ids claim) file
            module)
  trusted : (l3_client deps evidence).isSome = true → ∀ claim ∈ request.claims,
    citations_resolve deps evidence claim = true → l1_passes deps evidence claim = true →
      shared_l2 deps db request requester evidence claim.claim_id = none →
        (citations_trusted deps evidence claim = true ↔ citations_trusted deps evidence' claim = true)

variable {deps : VerifierDeps} {db db' : Database} {request : VerifyAnswerRequest} {requester : Requester}
  {active : ActiveVersion}

/-- The typed-fact verdicts agree exactly if the hidden import facts do. -/
theorem SameAt.own_l2_iff (h : SameAt requester active.build_seq db db')
    (hledger : db.retrieval_events = db'.retrieval_events) (claim : ClaimInput) :
    own_l2 deps db requester (resolve_evidence deps db request requester active) claim =
        own_l2 deps db' requester (resolve_evidence deps db' request requester active) claim ↔
      (((resolve_evidence deps db request requester active).levels.contains .L2 &&
          (resolve_evidence deps db request requester active).is_active) = true → ∀ file module,
        claim.assertion = some (.file_imports_module file module) →
          VisibleImport db active.build_seq requester
              (cited_resolvable deps (resolve_evidence deps db request requester active).resolvable_ids claim) file
              module ∨
            (HiddenImport db active.build_seq requester
                (cited_resolvable deps (resolve_evidence deps db request requester active).resolvable_ids claim) file
                module ↔
              HiddenImport db' active.build_seq requester
                (cited_resolvable deps (resolve_evidence deps db request requester active).resolvable_ids claim) file
                module)) := by
  have hsame := h.evidence hledger deps request
  have hcited : ∀ id ∈ cited_resolvable deps (resolve_evidence deps db request requester active).resolvable_ids claim,
      ContextBroker.admitted db active.build_seq requester id = true := by
    intro id hid
    rw [cited_resolvable, List.mem_dedup, List.mem_filter, List.contains_iff_mem] at hid
    exact admitted_of_resolvable h.keyed hid.2
  rw [own_l2, own_l2, ← hsame.levels, ← hsame.is_active, l2_verdict, l2_verdict, ← hsame.resolvable_ids]
  cases hon : (resolve_evidence deps db request requester active).levels.contains .L2 &&
      (resolve_evidence deps db request requester active).is_active with
  | false => simp
  | true =>
    rw [if_pos rfl, if_pos rfl]
    cases hassertion : claim.assertion with
    | none => simp
    | some assertion =>
      rw [Option.map_some, Option.map_some, Option.some_inj]
      by_cases himport : ∃ file module, assertion = .file_imports_module file module
      · obtain ⟨file, module, rfl⟩ := himport
        apply (h.adjudicate_import hcited).trans
        constructor
        · rintro hhidden - other_file other_module heq
          obtain ⟨rfl, rfl⟩ := ClaimAssertion.file_imports_module.inj (Option.some.inj heq)
          exact hhidden
        · intro hhidden
          exact hhidden rfl file module rfl
      · constructor
        · rintro - - file module heq
          exact absurd ⟨file, module, Option.some.inj heq⟩ himport
        · intro _
          exact h.adjudicate hcited fun file module heq => himport ⟨file, module, heq⟩

/-- Nothing but the check of its citations' edges can keep a claim from the model in one of the two alone. -/
theorem SameAt.l3_runs_iff (h : SameAt requester active.build_seq db db')
    (hledger : db.retrieval_events = db'.retrieval_events) (claim : ClaimInput) :
    (l3_runs deps (resolve_evidence deps db request requester active)
          (deterministic_claim deps (resolve_evidence deps db request requester active) claim) =
        l3_runs deps (resolve_evidence deps db' request requester active)
          (deterministic_claim deps (resolve_evidence deps db' request requester active) claim)) ↔
      (ContextBroker.citations_resolve deps (resolve_evidence deps db request requester active) claim = true →
        l1_passes deps (resolve_evidence deps db request requester active) claim = true →
          shared_l2 deps db request requester (resolve_evidence deps db request requester active) claim.claim_id =
            none →
          (citations_trusted deps (resolve_evidence deps db request requester active) claim = true ↔
            citations_trusted deps (resolve_evidence deps db' request requester active) claim = true)) := by
  have hsame := h.evidence hledger deps request
  have hl1 : l1_passes deps (resolve_evidence deps db' request requester active) claim =
      l1_passes deps (resolve_evidence deps db request requester active) claim := by
    rw [l1_passes, ← h.claim_l1 hledger, l1_passes]
  have hshared : shared_l2 deps db request requester (resolve_evidence deps db request requester active)
        claim.claim_id = none ↔
      shared_l2 deps db' request requester (resolve_evidence deps db' request requester active) claim.claim_id =
        none := hsame.shared_l2_eq_none _
  rw [Bool.eq_iff_iff, ContextBroker.l3_runs_iff rfl, ContextBroker.l3_runs_iff rfl, l0_passes_iff, l0_passes_iff,
    ← hshared, ← h.citations_resolve hledger, hl1]
  constructor
  · intro hruns hresolve hpasses hnone
    simpa [hresolve, hpasses, hnone] using hruns
  · intro htrusted
    constructor
    · rintro ⟨⟨⟨hresolve, hleft⟩, hpasses⟩, hnone⟩
      exact ⟨⟨⟨hresolve, (htrusted hresolve hpasses hnone).1 hleft⟩, hpasses⟩, hnone⟩
    · rintro ⟨⟨⟨hresolve, hright⟩, hpasses⟩, hnone⟩
      exact ⟨⟨⟨hresolve, (htrusted hresolve hpasses hnone).2 hright⟩, hpasses⟩, hnone⟩

/-- What a receipt reports of the later levels, claim by claim. -/
theorem later_levels_eq {client_id : Option String} {receipt : VerificationReceipt}
    (hactive : fetch_active_version db = some active)
    (hreceipt : (verify_answer deps db request requester client_id).1 = .ok receipt) :
    receipt.claim_results.map (·.later_levels) = request.claims.map fun claim =>
      ((claim_l1 deps (resolve_evidence deps db request requester active) claim).map (·.1),
        shared_l2 deps db request requester (resolve_evidence deps db request requester active) claim.claim_id,
        shared_l3 deps db request (resolve_evidence deps db request requester active) claim.claim_id) := by
  rw [verify_answer, hactive] at hreceipt
  obtain rfl := Except.ok.inj hreceipt
  rw [(claim_results_issue_receipt deps _).1, unsigned_receipt, assemble_receipts, List.map_map]
  refine (List.map_map ..).trans (List.map_congr_left fun claim _ => ?_)
  rw [← l2_typed_fact_eq rfl, ← l3_verdict_eq]
  rfl

/-- Two databases that a requester's teams cannot tell apart give every claim the same verdicts exactly if what the
requester may not see weighs the same in both; and the access list of an edge admits no one whom one of its ends
turns away, exactly if the two lists are not lists of teams without one in common. -/
theorem no_oracle_iff (h : SameAdmitted requester db db') (hkeyed : Keyed db) (hkeyed' : Keyed db')
    (hactive : fetch_active_version db = some active) :
    (SameVerdicts deps db db' request requester active ↔
      HiddenAlike deps db db' request requester (resolve_evidence deps db request requester active)
        (resolve_evidence deps db' request requester active)) ∧
      ∀ teams from_acl to_acl,
        (acl_admits teams (acl_intersection from_acl to_acl) = true →
            acl_admits teams from_acl = true ∧ acl_admits teams to_acl = true) ↔
          (DisjointAcls from_acl to_acl → acl_admits teams from_acl = true ∧ acl_admits teams to_acl = true) := by
  refine ⟨?_, fun _ _ _ => acl_intersection_sound_iff⟩
  have hat : SameAt requester active.build_seq db db' :=
    ⟨hkeyed, hkeyed', h.members active hactive, h.edges active hactive⟩
  have hactive' : fetch_active_version db' = some active := h.active ▸ hactive
  have hsame := hat.evidence h.retrieval_events deps request
  have hclient : l3_client deps (resolve_evidence deps db request requester active) =
      l3_client deps (resolve_evidence deps db' request requester active) := rfl
  constructor
  · intro hverdicts
    constructor
    · intro hon claim hclaim
      exact (hat.own_l2_iff h.retrieval_events claim).1 (hverdicts.l2 claim hclaim) hon
    · intro hmodel claim hclaim
      apply (hat.l3_runs_iff h.retrieval_events claim).1
      obtain ⟨k, hk⟩ := List.mem_iff_getElem?.1 hclaim
      have hisSome := congrArg Option.isSome (hverdicts.l3 k)
      have hmodel' := hclient ▸ hmodel
      rw [Bool.eq_iff_iff, own_l3_isSome rfl hk, own_l3_isSome rfl hk] at hisSome
      rw [Bool.eq_iff_iff, l3_runs_iff rfl, l3_runs_iff rfl]
      simpa only [hmodel, hmodel', true_and] using hisSome
  · intro halike
    have hl2 : ∀ claim ∈ request.claims,
        own_l2 deps db requester (resolve_evidence deps db request requester active) claim =
          own_l2 deps db' requester (resolve_evidence deps db' request requester active) claim :=
      fun claim hclaim => (hat.own_l2_iff h.retrieval_events claim).2 fun hon => halike.imports hon claim hclaim
    have hl3s : own_l3s deps db request (resolve_evidence deps db request requester active) =
        own_l3s deps db' request (resolve_evidence deps db' request requester active) := by
      rw [own_l3s, own_l3s, ← hclient]
      cases hmodel : l3_client deps (resolve_evidence deps db request requester active) with
      | none => rfl
      | some client =>
        dsimp only
        rw [← h.entailment_cache]
        apply hat.l3_outcomes h.retrieval_events
        intro claim hclaim
        exact (hat.l3_runs_iff h.retrieval_events claim).2 (halike.trusted (by rw [hmodel]; rfl) claim hclaim)
    have hshared_l2 : ∀ claim_id,
        shared_l2 deps db request requester (resolve_evidence deps db request requester active) claim_id =
          shared_l2 deps db' request requester (resolve_evidence deps db' request requester active) claim_id := by
      intro claim_id
      rw [shared_l2, shared_l2, List.filterMap_congr fun claim hclaim => hl2 claim (List.mem_filter.1 hclaim).1]
    have hshared_l3 : ∀ claim_id,
        shared_l3 deps db request (resolve_evidence deps db request requester active) claim_id =
          shared_l3 deps db' request (resolve_evidence deps db' request requester active) claim_id := by
      intro claim_id
      rw [shared_l3, hl3s, shared_l3]
    refine ⟨fun claim _ => by rw [hat.claim_l1 h.retrieval_events], hl2, fun k => by rw [own_l3, hl3s, own_l3], ?_⟩
    intro client_id receipt receipt' hreceipt hreceipt'
    rw [later_levels_eq hactive hreceipt, later_levels_eq hactive' hreceipt']
    refine List.map_congr_left fun claim _ => ?_
    rw [hat.claim_l1 h.retrieval_events, hshared_l2, hshared_l3]

theorem sameAdmitted_at {requester : Requester} {db db' : Database} (active : ActiveVersion)
    (hactive : fetch_active_version db = some active ∧ fetch_active_version db' = some active)
    (hmembers : admitted_members db active.build_seq requester = admitted_members db' active.build_seq requester)
    (hedges : admitted_edges db active.build_seq requester = admitted_edges db' active.build_seq requester)
    (hledger : db.retrieval_events = db'.retrieval_events) (hcache : db.entailment_cache = db'.entailment_cache) :
    SameAdmitted requester db db' := by
  refine ⟨hactive.1.trans hactive.2.symm, fun other hother => ?_, fun other hother e => ?_, hledger, hcache⟩
  · obtain rfl := Option.some.inj (hactive.1.symm.trans hother)
    exact hmembers
  · obtain rfl := Option.some.inj (hactive.1.symm.trans hother)
    rw [hedges]

end NoOracle

section DisjointTeams

def insider : Requester := { subject := "agent", teams := ["app"] }

/-- A file of the app team, given to the agent; each of `hidden` is a module of the platform team that it imports. -/
def team_database (hidden : List Uuid) : Database :=
  { source_items := repo_source 1 ["app"] :: hidden.map fun id => repo_source id ["platform"]
    artifacts := repo_file 1 ["app"] :: hidden.map fun id => { repo_file id ["platform"] with title := some "secret" }
    edges := hidden.map fun id => repo_import id 1 id
    runs := [{ build_id := 0, kb_version := "v1", build_seq := 1, status := .active, started_at := 0 }]
    retrieval_events :=
      [{ run_id := "run", agent_name := "agent", tool_name := "kb_search", status := .approved, kb_version := "v1"
         returned_artifact_ids := [1] }] }

def secret_import : VerifyAnswerRequest := typed_answer (file_claim "c" (.file_imports_module "file" "secret")) []

/-- A module of another team shows in the verdict on an import of it. -/
theorem no_oracle_disjoint_teams :
    SameAdmitted insider (team_database [2]) (team_database []) ∧ Keyed (team_database [2]) ∧
      Keyed (team_database []) ∧
        ¬ SameVerdicts .plain (team_database [2]) (team_database []) secret_import insider ⟨"v1", 1⟩ := by
  refine ⟨sameAdmitted_at ⟨"v1", 1⟩ ⟨rfl, rfl⟩ (by decide +kernel) (by decide +kernel) rfl rfl,
    by decide +kernel, by decide +kernel, fun hsame => ?_⟩
  have hverdict := hsame.l2 (secret_import.claims.head secret_import.claims_ne) (List.head_mem _)
  exact absurd hverdict (by decide +kernel)

/-- A hub of the platform team between two public files of which one was given to the agent. -/
theorem no_oracle_iff_hub :
    (SameVerdicts .plain { given_database with toRegistry := (repo_database [0, 3]).toRegistry } given_database
          (two_claims "c" "d") outsider ⟨"v1", 1⟩ ↔
        HiddenAlike .plain { given_database with toRegistry := (repo_database [0, 3]).toRegistry } given_database
          (two_claims "c" "d") outsider
          (resolve_evidence .plain { given_database with toRegistry := (repo_database [0, 3]).toRegistry }
            (two_claims "c" "d") outsider ⟨"v1", 1⟩)
          (resolve_evidence .plain given_database (two_claims "c" "d") outsider ⟨"v1", 1⟩)) ∧
      ∀ teams from_acl to_acl,
        (acl_admits teams (acl_intersection from_acl to_acl) = true →
            acl_admits teams from_acl = true ∧ acl_admits teams to_acl = true) ↔
          (DisjointAcls from_acl to_acl → acl_admits teams from_acl = true ∧ acl_admits teams to_acl = true) :=
  no_oracle_iff
    (sameAdmitted_at ⟨"v1", 1⟩ ⟨rfl, rfl⟩ (by decide +kernel) (by decide +kernel) rfl rfl)
    (by decide +kernel) (by decide +kernel) rfl

end DisjointTeams

end AgenticKb.ContextBroker
