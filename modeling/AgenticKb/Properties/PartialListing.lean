import AgenticKb.Connectors.ConfigLoader
import AgenticKb.Effects.Unseen

open AgenticKb.Lib

namespace AgenticKb

/-- The hosts still serve the source of a row: the head of its branch has the file, or the page or the card is
there. -/
def World.serves (u : Upstream) (w : World) (row : SourceItem) : Bool :=
  match row.source_type with
  | .github_code | .github_doc => (w.branch_sha (row.repo.getD "") (row.branch.getD "")).any fun sha =>
      (u.blob row.source_uri sha).isSome
  | .azure_wiki => (u.page row.source_uri (w.head row.source_uri)).isSome
  | .ado_card => (u.card row.source_uri (w.head row.source_uri)).isSome
  | .git_metadata => false

section Missing

variable (nfc : String → String) (p : Platform) (u : Upstream) (call : BuildCall)

/-- The source of a row exists at every request of the build, and the build's listing lacks it. -/
def StillMissing (row : SourceItem) : Prop :=
  (∀ request < (collect u call.worlds call.specs).clock, (call.worlds request).serves u row = true) ∧
    ∀ entry ∈ (call.build nfc p.unicode u).listing, (p.fetch entry).key ≠ row.key

instance : DecidablePred (StillMissing nfc p u call) := fun _ =>
  inferInstanceAs (Decidable ((∀ request < (collect u call.worlds call.specs).clock, _) ∧ ∀ entry ∈ _, _))

/-- When a connector knows that its listing is incomplete, the build keeps what was known of the sources that
still exist and are missing from it. -/
def PartialListingKeeps (r : Registry) : Prop :=
  (collect u call.worlds call.specs).partial_listing = true →
    KnowledgeKept (StillMissing nfc p u call) r (next p cached_generation r (call.build nfc p.unicode u))

instance (r : Registry) : Decidable (PartialListingKeeps nfc p u call r) := inferInstanceAs (Decidable (_ → _))

variable {nfc p u call}

/-- A build does not look at a source its listing lacks. -/
theorem StillMissing.unseen (hinj : Function.Injective p.gen_random_uuid) {r : Registry} (hwf : WellFormed p r)
    {row : SourceItem} (h : StillMissing nfc p u call row) : Unseen p r (call.build nfc p.unicode u) row := by
  have hturns : ∀ f ∈ (call.build nfc p.unicode u).turns p, f.key ≠ row.key := by
    intro f hf
    obtain ⟨entry, hentry, rfl⟩ := List.mem_map.1 (mem_listing_of_mem_turns hf)
    exact h.2 entry hentry
  have hunits : ∀ unit ∈ (source_loop p (call.build nfc p.unicode u)
      (start_run p r (call.build nfc p.unicode u).kb_version)).code_units, unit.fetched.key ≠ row.key :=
    fun unit hunit => hturns _ (unit_of_source_loop hinj (wellFormed_start_run hwf) hunit).1
  refine ⟨fun f hf _ => hturns f hf, fun _ => hunits, fun entry hentry _ unit hunit => hunits unit ?_⟩
  exact mem_code_units_of_mem_repos hentry hunit

/-- A completed build that knows its listing to be incomplete keeps what was known of the sources it misses
exactly when none of them was live: the sweep takes what is not listed as deleted. -/
theorem partial_listing_keeps_iff (hinj : Function.Injective p.gen_random_uuid) (builds : List Build)
    (hdone : (run p cached_generation (history p cached_generation builds)
      (call.build nfc p.unicode u)).finalized.isSome = true) :
    PartialListingKeeps nfc p u call (history p cached_generation builds) ↔
      ((collect u call.worlds call.specs).partial_listing = true →
        ∀ row ∈ (history p cached_generation builds).source_items, StillMissing nfc p u call row →
          row.is_deleted = true) := by
  have hwf := wellFormed_history hinj builds
  exact imp_congr_right fun _ => knowledgeKept_iff hwf hinj (recordedBefore_history hinj builds) hdone
    fun _ _ hmissing => hmissing.unseen hinj hwf

/-- A repo whose files read the name of their commit. -/
def document_repo : Upstream where
  blob _ sha := some sha
  page _ _ := none
  card _ _ := none

/-- Its branch, while its head is this commit and the tree is answered so. -/
def branch_at (sha : String) (truncated : Bool) (paths : List String) : World where
  branch_sha _ _ := some sha
  tree _ _ := some { truncated, tree := paths.map fun path => ⟨"blob", path⟩ }

/-- A build over the documents of that repo. -/
def document_call (w : World) : BuildCall where
  specs := [{ name := "docs", kind := .github { type := .github_doc, repo := "acme/app" } }]
  worlds _ := w
  base := page_build []

/-- A tree that is truncated behind the documents known so far costs nothing. -/
theorem truncated_behind_known_kept :
    (collect document_repo (fun _ => branch_at "2" true ["a.md", "b.md"])
        (document_call (branch_at "2" true ["a.md", "b.md"])).specs).partial_listing = true ∧
      PartialListingKeeps id .plain document_repo (document_call (branch_at "2" true ["a.md", "b.md"]))
        (history .plain cached_generation
          [(document_call (branch_at "1" false ["a.md", "b.md"])).build id Platform.plain.unicode document_repo]) :=
  ⟨by decide +kernel, (partial_listing_keeps_iff (fun _ _ h => h)
    [(document_call (branch_at "1" false ["a.md", "b.md"])).build id Platform.plain.unicode document_repo]
    (by decide +kernel)).2 (by decide +kernel)⟩

/-- A document is listed, then its branch moves on and the tree is truncated before it: the build completes, the
head still has the document, and its row is tombstoned. -/
theorem truncated_listing_deletes :
    (collect document_repo (fun _ => branch_at "2" true ["a.md"])
        (document_call (branch_at "2" true ["a.md"])).specs).partial_listing = true ∧
      (run .plain cached_generation
        (history .plain cached_generation
          [(document_call (branch_at "1" false ["a.md", "b.md"])).build id Platform.plain.unicode document_repo])
        ((document_call (branch_at "2" true ["a.md"])).build id Platform.plain.unicode document_repo)).finalized.isSome
          = true ∧
      ¬ PartialListingKeeps id .plain document_repo (document_call (branch_at "2" true ["a.md"]))
        (history .plain cached_generation
          [(document_call (branch_at "1" false ["a.md", "b.md"])).build id Platform.plain.unicode document_repo]) := by
  decide +kernel

end Missing

end AgenticKb
