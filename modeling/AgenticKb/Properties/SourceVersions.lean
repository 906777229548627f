import AgenticKb.Connectors.ConfigLoader
import AgenticKb.Effects.Rows

open AgenticKb.Lib

namespace AgenticKb

/-- The version in which the hosts serve a source: the listed commit for a file, whatever is current for a page
or a card. -/
def World.served_version (w : World) (ref : SourceRef) : String :=
  match ref.source_type with
  | .azure_wiki | .ado_card => w.head ref.source_uri
  | _ => ref.source_version

section Listings

variable (u : Upstream) (worlds : Nat → World)

private theorem pure_clock {α : Type} (answer : α) (clock : Nat) :
    (StateT.pure answer : StateT Nat Option α) clock = some (answer, clock) := rfl

theorem ask_eq_some {α : Type} {request : World → Option α} {clock : Nat} {answer : α × Nat}
    (h : ask worlds request clock = some answer) : request (worlds clock) = some answer.1 ∧ answer.2 = clock + 1 := by
  simp only [ask, Option.map_eq_some_iff] at h
  obtain ⟨value, hvalue, rfl⟩ := h
  exact ⟨hvalue, rfl⟩

/-- The type of the sources an entry lists. -/
def SourceKind.source_type : SourceKind → SourceType
  | .github spec => spec.type.source_type
  | .wiki _ => .azure_wiki
  | .cards _ => .ado_card

theorem source_type_of_github_list_sources {spec : GithubSpec} {clock : Nat} {result : Listing × Nat}
    (h : github_list_sources worlds spec clock = some result) :
    ∀ ref ∈ result.1.refs, ref.source_type = spec.type.source_type := by
  simp only [github_list_sources, StateT.bind, pure_clock, bind, pure, Option.bind_eq_some_iff] at h
  obtain ⟨_, -, _, -, ⟨tree, _⟩, -, h⟩ := h
  simp only [Option.some.injEq] at h
  subst h
  intro ref href
  rw [mem_sorted] at href
  obtain ⟨entry, -, rfl⟩ := List.mem_map.1 href
  rfl

mutual

theorem source_type_of_walk (wiki : Wiki) (sha : String) (page : WikiPage) :
    ∀ ref ∈ walk wiki sha page, ref.source_type = .azure_wiki := by
  cases page with
  | node path id sub_pages =>
    intro ref href
    simp only [walk] at href
    cases List.mem_append.1 href with
    | inl hown =>
      cases path with
      | none => simp at hown
      | some path =>
        dsimp only at hown
        split at hown
        · simp at hown
        · rw [List.mem_singleton.1 hown]
    | inr hbelow => exact source_type_of_walk_all wiki sha sub_pages ref hbelow

theorem source_type_of_walk_all (wiki : Wiki) (sha : String) (pages : List WikiPage) :
    ∀ ref ∈ walk_all wiki sha pages, ref.source_type = .azure_wiki := by
  cases pages with
  | nil =>
    intro ref href
    rw [walk_all] at href
    simp at href
  | cons page pages =>
    intro ref href
    rw [walk_all] at href
    cases List.mem_append.1 href with
    | inl hpage => exact source_type_of_walk wiki sha page ref hpage
    | inr hpages => exact source_type_of_walk_all wiki sha pages ref hpages

end

theorem source_type_of_wiki_list_sources {wiki : Wiki} {clock : Nat} {result : Listing × Nat}
    (h : wiki_list_sources worlds wiki clock = some result) :
    ∀ ref ∈ result.1.refs, ref.source_type = .azure_wiki := by
  simp only [wiki_list_sources, StateT.bind, pure_clock, bind, pure, Option.bind_eq_some_iff] at h
  obtain ⟨⟨sha, _⟩, -, ⟨tree, _⟩, -, h⟩ := h
  simp only [Option.some.injEq] at h
  subst h
  intro ref href
  rw [mem_sorted] at href
  obtain ⟨entry, hentry, rfl⟩ := List.mem_map.1 href
  cases Dict.mem_foldl_set (fun ref : SourceRef => ref.path) (fun ref => ref) hentry with
  | inl hold => simp at hold
  | inr hnew =>
    obtain ⟨ref, hmem, rfl⟩ := hnew
    exact source_type_of_walk wiki sha tree ref hmem

theorem source_type_of_work_item_list_sources {query : WorkItemQuery} {clock : Nat} {result : Listing × Nat}
    (h : work_item_list_sources worlds query clock = some result) :
    ∀ ref ∈ result.1.refs, ref.source_type = .ado_card := by
  simp only [work_item_list_sources, StateT.bind, bind, pure, Option.bind_eq_some_iff] at h
  obtain ⟨⟨⟨ids, capped⟩, _⟩, -, h⟩ := h
  dsimp only at h
  split at h
  · simp only [pure_clock, Option.some.injEq] at h
    subst h
    simp
  · simp only [StateT.bind, pure_clock, bind, Option.bind_eq_some_iff] at h
    obtain ⟨⟨revs, _⟩, -, h⟩ := h
    simp only [Option.some.injEq] at h
    subst h
    intro ref href
    obtain ⟨entry, -, rfl⟩ := List.mem_map.1 href
    rfl

/-- A connector lists sources of its own type. -/
theorem source_type_of_list_sources {spec : SourceSpec} {clock : Nat} {result : Listing × Nat}
    (h : list_sources worlds spec clock = some result) :
    ∀ ref ∈ result.1.refs, ref.source_type = spec.kind.source_type := by
  simp only [list_sources, StateT.bind, pure_clock, bind, pure, Option.bind_eq_some_iff] at h
  obtain ⟨listing, hlisting, h⟩ := h
  simp only [Option.some.injEq] at h
  subst h
  have htype : ∀ ref ∈ listing.1.refs, ref.source_type = spec.kind.source_type := by
    cases hkind : spec.kind with
    | github github =>
      rw [hkind] at hlisting
      exact source_type_of_github_list_sources worlds hlisting
    | wiki wiki =>
      rw [hkind] at hlisting
      exact source_type_of_wiki_list_sources worlds hlisting
    | cards query =>
      rw [hkind] at hlisting
      exact source_type_of_work_item_list_sources worlds hlisting
  intro ref href
  obtain ⟨listed, hlisted, rfl⟩ := List.mem_map.1 href
  exact htype listed (List.mem_of_mem_filter hlisted)

/-- A connector reads a source of its type in the version the hosts serve. -/
theorem content_of_fetch_text {spec : SourceSpec} {ref : SourceRef} {clock : Nat} {result : String × Nat}
    (htype : ref.source_type = spec.kind.source_type) (h : fetch_text u worlds spec ref clock = some result) :
    u.content ref.source_type ref.source_uri ref.external_id ((worlds clock).served_version ref) =
      some result.1 := by
  unfold fetch_text at h
  cases hkind : spec.kind with
  | github github =>
    rw [hkind] at h htype
    obtain ⟨hread, -⟩ := ask_eq_some worlds h
    cases hgithub : github.type with
    | github_code => simpa [SourceKind.source_type, hgithub, GithubType.source_type, htype, Upstream.content, World.served_version] using hread
    | github_doc => simpa [SourceKind.source_type, hgithub, GithubType.source_type, htype, Upstream.content, World.served_version] using hread
  | wiki wiki =>
    rw [hkind] at h htype
    obtain ⟨hread, -⟩ := ask_eq_some worlds h
    simpa [SourceKind.source_type, htype, Upstream.content, World.served_version] using hread
  | cards query =>
    rw [hkind] at h htype
    obtain ⟨hread, -⟩ := ask_eq_some worlds h
    simpa [SourceKind.source_type, htype, Upstream.content, World.served_version] using hread

/-- Every source collected was read in the version served at that moment. -/
def ReadAsServed (entry : Fetched) : Prop :=
  u.content entry.ref.source_type entry.ref.source_uri entry.ref.external_id
    ((worlds entry.fetched_at).served_version entry.ref) = some entry.raw

theorem readAsServed_collect (specs : List SourceSpec) :
    ∀ entry ∈ (collect u worlds specs).entries, ReadAsServed u worlds entry := by
  apply foldl_invariant (I := fun c : Collected => ∀ entry ∈ c.entries, ReadAsServed u worlds entry)
  · intro c spec _ hc
    unfold collect_spec
    split
    · exact hc
    · split
      · rename_i listing clock hlist
        have htype := source_type_of_list_sources worlds hlist
        apply foldl_invariant (I := fun c : Collected => ∀ entry ∈ c.entries, ReadAsServed u worlds entry)
        · intro c ref href hc
          unfold fetch_ref
          split
          · exact hc
          · split
            · rename_i raw clock hfetch
              intro entry hentry
              cases List.mem_append.1 hentry with
              | inl hold => exact hc entry hold
              | inr hnew =>
                rw [List.mem_singleton.1 hnew]
                exact content_of_fetch_text u worlds (htype ref href) hfetch
            · exact hc
        · exact hc
      · exact hc
  · simp

end Listings

section Versions

variable (nfc : String → String) (p : Platform) (u : Upstream)

/-- The hash of the normalised content of a source at a version. -/
def content_hash_at (source_type : SourceType) (source_uri : String) (external_id : Option String)
    (version : String) : Option String :=
  (u.content source_type source_uri external_id version).map fun raw =>
    p.content_hash (normalize nfc p.unicode source_type raw)

/-- The content hash of a row is that of its source at exactly the recorded version. -/
def VersionNamesContent (row : SourceItem) : Prop :=
  row.source_type ≠ .git_metadata →
    content_hash_at nfc p u row.source_type row.source_uri row.external_id row.source_version =
      some row.content_hash

instance (row : SourceItem) : Decidable (VersionNamesContent nfc p u row) := inferInstanceAs (Decidable (_ → _))

/-- So it is of every row. -/
def VersionsNameContent (r : Registry) : Prop := ∀ row ∈ r.source_items, VersionNamesContent nfc p u row

instance (r : Registry) : Decidable (VersionsNameContent nfc p u r) :=
  inferInstanceAs (Decidable (∀ row ∈ r.source_items, _))

/-- When a source is read, the version being served has the content of the listed one. -/
def ReadAtListedVersion (call : BuildCall) : Prop :=
  ∀ entry ∈ (collect u call.worlds call.specs).entries,
    content_hash_at nfc p u entry.ref.source_type entry.ref.source_uri entry.ref.external_id
        ((call.worlds entry.fetched_at).served_version entry.ref) =
      content_hash_at nfc p u entry.ref.source_type entry.ref.source_uri entry.ref.external_id
        entry.ref.source_version

instance (call : BuildCall) : Decidable (ReadAtListedVersion nfc p u call) :=
  inferInstanceAs (Decidable (∀ entry ∈ _, _))

/-- The same of a source as it is taken in. -/
def FetchedAtVersion (fetched : NormalizedContent) : Prop :=
  fetched.source.source_type ≠ .git_metadata →
    content_hash_at nfc p u fetched.source.source_type fetched.source.source_uri fetched.source.external_id
      fetched.source.source_version = some fetched.content_hash

variable {nfc p u}

theorem fetchedAtVersion_of_turn {call : BuildCall} (hread : ReadAtListedVersion nfc p u call)
    {fetched : NormalizedContent} (h : fetched ∈ (call.build nfc p.unicode u).turns p) :
    FetchedAtVersion nfc p u fetched := by
  have hlisted : fetched ∈ (call.build nfc p.unicode u).listing.map p.fetch := mem_listing_of_mem_turns h
  have hentries : ∀ entry ∈ (collect u call.worlds call.specs).entries,
      FetchedAtVersion nfc p u
        (p.fetch (entry.ref, normalize nfc p.unicode entry.ref.source_type entry.raw)) := by
    intro entry hentry _
    have hserved : u.content entry.ref.source_type entry.ref.source_uri entry.ref.external_id
        ((call.worlds entry.fetched_at).served_version entry.ref) = some entry.raw :=
      readAsServed_collect u call.worlds call.specs entry hentry
    have hsame := hread entry hentry
    rw [content_hash_at, hserved, Option.map_some] at hsame
    exact hsame.symm
  unfold BuildCall.build at hlisted
  dsimp only at hlisted
  split at hlisted
  · simp only [List.map_map, List.mem_map, Function.comp_apply] at hlisted
    obtain ⟨entry, hentry, rfl⟩ := hlisted
    exact hentries entry hentry
  · simp only [List.map_append, List.map_map, List.mem_append, List.mem_map, Function.comp_apply] at hlisted
    cases hlisted with
    | inl hsource =>
      obtain ⟨entry, hentry, rfl⟩ := hsource
      exact hentries entry hentry
    | inr hcommit =>
      obtain ⟨commit, -, rfl⟩ := hcommit
      exact fun htype => absurd rfl htype

/-- A row takes its version and its hash from one and the same source. -/
private theorem rowRule_versions :
    RowRule p (FetchedAtVersion nfc p u) (VersionsNameContent nfc p u) fun _ => True where
  kept hrows _ h row hrow := h row (hrows ▸ hrow)
  touch _ _ h := by
    refine ⟨fun row hrow => ?_, fun _ _ => trivial⟩
    obtain ⟨row₀, hrow₀, rfl⟩ := List.mem_map.1 hrow
    split
    · exact h row₀ hrow₀
    · exact h row₀ hrow₀
  upsert {r fetched} _ hok h := by
    refine ⟨fun row hrow => ?_, trivial⟩
    unfold upsert_source_item at hrow
    cases hfound : source_row r fetched with
    | none =>
      rw [hfound] at hrow
      cases List.mem_append.1 hrow with
      | inl hold => exact h row hold
      | inr hnew =>
        rw [List.mem_singleton.1 hnew]
        exact hok
    | some existing =>
      rw [hfound] at hrow
      obtain ⟨row₀, hrow₀, rfl⟩ := List.mem_map.1 hrow
      split
      · rename_i hsame
        have hkey : (row₀.source_type, row₀.source_uri) = (fetched.source.source_type, fetched.source.source_uri) :=
          same_source_iff.1 hsame
        obtain ⟨htype, huri⟩ := Prod.mk.inj hkey
        unfold VersionNamesContent
        dsimp only
        rw [htype, huri]
        exact hok
      · exact h row₀ hrow₀

/-- Over every interleaving of edits with the requests of any sequence of builds: when every page and card is
read in a state that has the content of its listed version, the version of every row names the content that was
read. Files are read in the listed commit, so the condition says nothing of them. -/
theorem versions_name_content (hinj : Function.Injective p.gen_random_uuid) (calls : List BuildCall)
    (hread : ∀ call ∈ calls, ReadAtListedVersion nfc p u call) :
    VersionsNameContent nfc p u (history p cached_generation (calls.map (·.build nfc p.unicode u))) := by
  refine (foldl_invariant (I := fun r : Registry => WellFormed p r ∧ VersionsNameContent nfc p u r) ?_
    ⟨wellFormed_empty p, by simp [VersionsNameContent, Registry.empty]⟩).2
  rintro r b hb ⟨hwf, hr⟩
  obtain ⟨call, hcall, rfl⟩ := List.mem_map.1 hb
  have hturns : ∀ f ∈ (call.build nfc p.unicode u).turns p, FetchedAtVersion nfc p u f := fun f hf =>
    fetchedAtVersion_of_turn (hread call hcall) hf
  have hunits : ∀ unit ∈ (source_loop p (call.build nfc p.unicode u)
      (start_run p r (call.build nfc p.unicode u).kb_version)).code_units, FetchedAtVersion nfc p u unit.fetched :=
    fun unit hunit => hturns _ (unit_of_source_loop hinj (wellFormed_start_run hwf) hunit).1
  refine ⟨(wellFormed_next hwf hinj).1, rows_next rowRule_versions hwf hinj hr (fun f hf _ => hturns f hf)
    ⟨fun _ => hunits, fun entry hentry _ unit hunit => hunits unit (mem_code_units_of_mem_repos hentry hunit)⟩ ?_⟩
  intro r r' ids hstep _ h row hrow
  obtain ⟨row₀, hrow₀, hk⟩ := (hstep.origin hrow).resolve_right id
  rw [show row = _ from hk]
  exact h row₀ hrow₀

/-- A wiki of one page, whose text in each commit is the name of the commit. -/
def one_page : Upstream where
  blob _ _ := none
  page _ sha := some sha
  card _ _ := none

/-- The wiki while its head is this commit. -/
def wiki_at (sha : String) : World where
  repository_id _ := some "r"
  default_branch _ := some none
  refs _ _ := some [sha]
  pages _ := some (.node (some "/Home") none [])
  head _ := sha

/-- A build over that wiki. Its fifth request, the first after the listing, reads the page. -/
def wiki_call (worlds : Nat → World) : BuildCall where
  specs := [{ name := "docs", kind := .wiki ⟨"acme", "app", "docs"⟩ }]
  worlds := worlds
  base := page_build []

/-- The wiki is edited between two builds. -/
theorem page_edited_between_builds_named :
    VersionsNameContent id .plain one_page (history .plain cached_generation
      ([wiki_call fun _ => wiki_at "1", wiki_call fun _ => wiki_at "2"].map
        (·.build id Platform.plain.unicode one_page))) :=
  versions_name_content (fun _ _ h => h) _ (by decide +kernel)

/-- The wiki is edited in one build between the listing and the reading of the page: the row holds the listed
commit with the hash of the page as it reads in the next one. -/
theorem page_edited_after_listing_misnamed :
    ¬ VersionsNameContent id .plain one_page (history .plain cached_generation
      ([wiki_call fun request => wiki_at (if request < 4 then "1" else "2")].map
        (·.build id Platform.plain.unicode one_page))) := by
  decide +kernel

end Versions

end AgenticKb
