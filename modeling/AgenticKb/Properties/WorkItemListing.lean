import AgenticKb.Connectors.WorkItems
import AgenticKb.Lib.Ranking

open AgenticKb.Lib

namespace AgenticKb

section Selection

variable (under : String → String → Bool) (spec : AdoCardSourceSpec)

/-- The item is in the subtree of the area path, if one is given. -/
def UnderArea (item : WorkItem) : Prop := ∀ area_path ∈ spec.area_path.filter (· != ""), under item.area_path area_path = true

/-- The item has one of the types and one of the states, if such are listed, and carries all listed tags. -/
def PassesFilters (item : WorkItem) : Prop :=
  (spec.work_item_types ≠ [] → item.work_item_type ∈ spec.work_item_types) ∧
    (spec.states ≠ [] → item.state ∈ spec.states) ∧ ∀ tag ∈ spec.tags, tag ∈ item.tags

instance : DecidablePred (UnderArea under spec) := fun item =>
  decidable_of_iff (∀ area_path ∈ (spec.area_path.filter (· != "")).toList, under item.area_path area_path = true)
    (by simp only [UnderArea, Option.mem_toList, Option.mem_def])

instance : DecidablePred (PassesFilters spec) := fun _ => inferInstanceAs (Decidable (_ ∧ _ ∧ _))

/-- The source of a work item at its current revision. -/
def work_item_ref (item : WorkItem) : SourceRef :=
  { source_type := .ado_card
    source_uri := work_item_uri spec.query item.id
    source_version := toString item.rev
    external_id := some (toString item.id) }

/-- The sources of some items, by id. -/
def refs_by_id (items : List WorkItem) : List SourceRef :=
  (sorted (fun (a b : WorkItem) => decide (a.id ≤ b.id)) items).map (work_item_ref spec)

/-- The query is well formed and means the items of the project under the area path, and the listing has the selected
items, each once, by id and at its current revision. -/
structure ListsSelection (host : WorkItemHost) (items : List WorkItem) : Prop where
  well_formed : ∃ query, Wiql.parse (wiql_query spec.query) = some query ∧ ∀ item,
    query.means (work_item_schema spec.project under) item = true ↔ UnderArea under spec item
  listed : ∀ clock, ∃ listing clock', work_item_list_sources (fun _ => host.world) spec.query clock = some (listing, clock') ∧
    listing.refs = refs_by_id spec (items.filter fun item => UnderArea under spec item ∧ PassesFilters spec item)

end Selection

section Query

/-- The query up to the area path, and from there on. -/
private def before_area : String :=
  "SELECT [System.Id] FROM WorkItems WHERE " ++ ("[System.TeamProject] = @project" ++ (" AND " ++ "[System.AreaPath] UNDER '"))

private def after_area : String := "'" ++ " ORDER BY [System.Id]"

private theorem foldlM_before_area : before_area.toList.foldlM Wiql.Lexer.step {} =
    some ⟨[.keyword .select, .field "System.Id", .keyword .from_source, .word "WorkItems", .keyword .where_clause,
      .field "System.TeamProject", .equals, .variable_of "project", .keyword .and_also, .field "System.AreaPath",
      .keyword .under], .text []⟩ := by
  decide +kernel

private theorem foldlM_after_area (tokens : List Wiql.Token) (read : List Char) :
    after_area.toList.foldlM Wiql.Lexer.step ⟨tokens, .text read⟩ =
      some ⟨(tokens ++ [.text read]) ++ [.keyword .order, .keyword .by_field, .field "System.Id"], .between⟩ := by
  have hquote : after_area.toList = '\'' :: ' ' :: "ORDER BY [System.Id]".toList := by decide +kernel
  have horder : "ORDER BY [System.Id]".toList.foldlM Wiql.Lexer.step ⟨[], .between⟩ =
      some ⟨[.keyword .order, .keyword .by_field, .field "System.Id"], .between⟩ := by decide +kernel
  have hrun := Wiql.foldlM_append_tokens (tokens ++ [.text read]) "ORDER BY [System.Id]".toList ⟨[], .between⟩
  rw [horder, List.append_nil, Option.map_some] at hrun
  have hend : Wiql.Lexer.step ⟨tokens, .text read⟩ '\'' = some ⟨tokens, .closing read⟩ := rfl
  have hblank : Wiql.Lexer.step ⟨tokens, .closing read⟩ ' ' = some ⟨tokens ++ [.text read], .between⟩ := rfl
  rw [hquote, List.foldlM_cons, hend, Option.bind_eq_bind, Option.bind_some, List.foldlM_cons, hblank,
    Option.bind_eq_bind, Option.bind_some]
  exact hrun

theorem join_pair (sep a b : String) : join sep [a, b] = a ++ (sep ++ b) := by
  apply String.ext
  rw [join, String.toList_intercalate]
  simp [List.intercalate]

/-- The conditions of a query. -/
def wiql_conditions (query : WorkItemQuery) : List Wiql.Condition :=
  .equals "System.TeamProject" (.variable_of "project") ::
    ((query.area_path.filter (· != "")).map (Wiql.Condition.under "System.AreaPath")).toList

/-- Whatever the area path, the query is one well-formed query. -/
theorem parse_wiql_query (query : WorkItemQuery) : Wiql.parse (wiql_query query) =
    some { select := "System.Id", source := "WorkItems", conditions := wiql_conditions query, order_by := "System.Id" } := by
  unfold wiql_query wiql_conditions
  cases harea : query.area_path.filter (· != "") with
  | none => decide +kernel
  | some area_path =>
    have htext : ("SELECT [System.Id] FROM WorkItems WHERE " ++ join " AND " ["[System.TeamProject] = @project",
          "[System.AreaPath] UNDER '" ++ String.ofList (replace ['\''] ['\'', '\''] area_path.toList) ++ "'"] ++
          " ORDER BY [System.Id]").toList =
        before_area.toList ++ (Wiql.quote area_path.toList ++ after_area.toList) := by
      rw [join_pair]
      unfold before_area after_area Wiql.quote
      simp only [String.toList_append, String.toList_ofList, List.append_assoc]
    dsimp only [List.cons_append, List.nil_append]
    have hlex : Wiql.lex (before_area.toList ++ (Wiql.quote area_path.toList ++ after_area.toList)) =
        some ([.keyword .select, .field "System.Id", .keyword .from_source, .word "WorkItems", .keyword .where_clause,
          .field "System.TeamProject", .equals, .variable_of "project", .keyword .and_also, .field "System.AreaPath",
          .keyword .under] ++ [.text area_path.toList] ++ [.keyword .order, .keyword .by_field, .field "System.Id"]) := by
      rw [Wiql.lex, List.foldlM_append, foldlM_before_area, Option.bind_eq_bind, Option.bind_some, List.foldlM_append,
        Wiql.foldlM_quote, Option.bind_eq_bind, Option.bind_some, foldlM_after_area, Option.bind_some, List.nil_append]
      rfl
    have htokens : ∀ path : List Char, Wiql.parse_tokens ([.keyword .select, .field "System.Id", .keyword .from_source,
        .word "WorkItems", .keyword .where_clause, .field "System.TeamProject", .equals, .variable_of "project",
        .keyword .and_also, .field "System.AreaPath", .keyword .under] ++ [.text path] ++
          [.keyword .order, .keyword .by_field, .field "System.Id"]) =
        some { select := "System.Id", source := "WorkItems", order_by := "System.Id",
               conditions := [.equals "System.TeamProject" (.variable_of "project"),
                 .under "System.AreaPath" (String.ofList path)] } := fun path => rfl
    rw [Wiql.parse, htext, hlex, Option.bind_some, htokens, String.ofList_toList]
    rfl

/-- The query means the items of the project under the area path. -/
theorem means_iff (under : String → String → Bool) (spec : AdoCardSourceSpec) (item : WorkItem) :
    (wiql_conditions spec.query).all (Wiql.Condition.holds (work_item_schema spec.project under) item) = true ↔
      UnderArea under spec item := by
  have hproject : Wiql.Condition.holds (work_item_schema spec.project under) item
      (.equals "System.TeamProject" (.variable_of "project")) = true := by
    rw [Wiql.Condition.holds, work_item_schema]
    dsimp only
    rw [if_pos rfl]
    exact beq_self_eq_true _
  rw [wiql_conditions, List.all_cons, hproject, Bool.true_and, UnderArea, AdoCardSourceSpec.query]
  cases spec.area_path.filter (· != "") with
  | none => simp
  | some area_path => simp [Wiql.Condition.holds, work_item_schema, WorkItem.field]

end Query

section Requests

variable {α β : Type} {host : WorkItemHost} {query : WorkItemQuery} {items : List WorkItem} {clock clock' : Nat}

theorem bind_clock {x : StateT Nat Option α} {f : α → StateT Nat Option β} {answer : α}
    (h : x clock = some (answer, clock')) : (x >>= f) clock = f answer clock' := by
  rw [bind, Monad.toBind, StateT.instMonad]
  dsimp only
  rw [StateT.bind, h]
  rfl

theorem ask_clock {world : World} {request : World → Option α} {answer : α} (h : request world = some answer) :
    ask (fun _ => world) request clock = some (answer, clock + 1) := by
  rw [ask, h]
  rfl

/-- Every id is in one of the chunks, and the chunks are as short as they should be. -/
theorem mem_chunked {ids : List Nat} {n : Nat} (hn : 0 < n) {id : Nat} (h : id ∈ ids) :
    ∃ chunk ∈ chunked ids n, id ∈ chunk := by
  obtain ⟨i, hi, rfl⟩ := List.mem_iff_getElem.1 h
  have hdiv : i / n * n + i % n = i := Nat.div_add_mod' i n
  have hmod : i % n < n := Nat.mod_lt i hn
  have hchunk : i / n < (ids.length + n - 1) / n := by
    have hmul : (i / n + 1) * n = i / n * n + n := Nat.succ_mul _ _
    apply Nat.lt_of_succ_le
    rw [Nat.le_div_iff_mul_le hn, Nat.succ_eq_add_one, hmul]
    omega
  refine ⟨_, List.mem_map.2 ⟨i / n, List.mem_range.2 hchunk, rfl⟩, ?_⟩
  apply List.mem_iff_getElem.2
  refine ⟨i % n, ?_, ?_⟩
  · rw [List.length_take, List.length_drop]
    omega
  · rw [List.getElem_take, List.getElem_drop]
    congr 1

theorem chunked_bounds {ids chunk : List Nat} {size : Nat} (h : chunk ∈ chunked ids size) :
    chunk.length ≤ size ∧ ∀ id ∈ chunk, id ∈ ids := by
  obtain ⟨i, -, rfl⟩ := List.mem_map.1 h
  refine ⟨List.length_take_le _ _, fun id hid => ?_⟩
  exact List.mem_of_mem_drop (List.mem_of_mem_take hid)

variable {under : String → String → Bool}

/-- The rows of a batch, taken into the revisions. -/
def take_rows (revs : Dict Nat Nat) (rows : List (Nat × Option Nat)) : Dict Nat Nat :=
  rows.foldl (fun (revs : Dict Nat Nat) (id, rev) =>
    match rev with
    | some rev => revs.set id rev
    | none => revs) revs

/-- A batch adds the revisions of its ids and leaves the others. -/
theorem get?_take_rows (hids : (items.map (·.id)).Nodup) {chunk : List Nat} {rows : List (Nat × Option Nat)}
    (hrows : ∀ id rev, (id, rev) ∈ rows ↔ ∃ item ∈ items, item.id ∈ chunk ∧ (id, rev) = (item.id, some item.rev))
    (revs : Dict Nat Nat) {item : WorkItem} (hitem : item ∈ items) :
    (take_rows revs rows).get? item.id = if item.id ∈ chunk then some item.rev else revs.get? item.id := by
  have hown : ∀ rev ∈ (rows.filter fun row => row.1 == item.id).filterMap (·.2), rev = item.rev := by
    intro rev hrev
    obtain ⟨row, hrow, hsome⟩ := List.mem_filterMap.1 hrev
    obtain ⟨hmem, hkey⟩ := List.mem_filter.1 hrow
    obtain ⟨other, hother, -, heq⟩ := (hrows row.1 row.2).1 hmem
    obtain ⟨hid, hvalue⟩ := Prod.mk.inj heq
    have hsame : other = item := List.inj_on_of_nodup_map hids hother hitem (hid.symm.trans (beq_iff_eq.1 hkey))
    rw [hvalue, hsame] at hsome
    exact (Option.some.inj hsome).symm
  have htake : take_rows revs rows = rows.foldl (fun (revs : Dict Nat Nat) row => revs.set_some row.1 row.2) revs := by
    rw [take_rows]
    congr 1
    funext revs row
    obtain ⟨id, rev⟩ := row
    cases rev with
    | none => rfl
    | some rev => rfl
  rw [htake, Dict.get?_foldl_set_some (fun row : Nat × Option Nat => row.1) (fun row => row.2)]
  by_cases hchunk : item.id ∈ chunk
  · rw [if_pos hchunk]
    have hmem : item.rev ∈ (rows.filter fun row => row.1 == item.id).filterMap (·.2) := by
      have hrow := (hrows item.id (some item.rev)).2 ⟨item, hitem, hchunk, rfl⟩
      exact List.mem_filterMap.2 ⟨_, List.mem_filter.2 ⟨hrow, beq_self_eq_true _⟩, rfl⟩
    cases hlast : ((rows.filter fun row => row.1 == item.id).filterMap (·.2)).getLast? with
    | none =>
      rw [List.getLast?_eq_none_iff.1 hlast] at hmem
      exact absurd hmem List.not_mem_nil
    | some rev => rw [hown rev (List.mem_of_getLast? hlast), Option.some_or]
  · rw [if_neg hchunk]
    have hnone : rows.filter (fun row => row.1 == item.id) = [] := by
      apply List.filter_eq_nil_iff.2
      intro row hrow hkey
      obtain ⟨other, -, hasked, heq⟩ := (hrows row.1 row.2).1 hrow
      exact hchunk (beq_iff_eq.1 hkey ▸ (Prod.mk.inj heq).1 ▸ hasked)
    rw [hnone]
    rfl

/-- One batch. -/
def fetch_chunk (worlds : Nat → World) (query : WorkItemQuery) (revs : Dict Nat Nat) (chunk : List Nat) :
    StateT Nat Option (Dict Nat Nat) := do
  let rows ← ask worlds (·.work_items query chunk)
  return take_rows revs rows

theorem revisions_eq (worlds : Nat → World) (query : WorkItemQuery) (ids : List Nat) :
    revisions worlds query ids = (chunked ids BATCH_SIZE).foldlM (fetch_chunk worlds query) [] := rfl

/-- Batch by batch, the revisions of all ids asked are fetched. -/
theorem revisions_clock {spec : AdoCardSourceSpec} (hids : (items.map (·.id)).Nodup)
    (hhost : AnswersByMeaning host spec.organization spec.project under items) {ids : List Nat}
    (hknown : ∀ id ∈ ids, id ∈ items.map (·.id)) (clock : Nat) :
    ∃ revs clock', revisions (fun _ => host.world) spec.query ids clock = some (revs, clock') ∧
      ∀ item ∈ items, item.id ∈ ids → revs.get? item.id = some item.rev := by
  have hrun : ∀ (chunks : List (List Nat)) (revs : Dict Nat Nat) (clock : Nat),
      (∀ chunk ∈ chunks, chunk.length ≤ BATCH_SIZE ∧ ∀ id ∈ chunk, id ∈ items.map (·.id)) →
      ∃ revs' clock', chunks.foldlM (fetch_chunk (fun _ => host.world) spec.query) revs clock = some (revs', clock') ∧
        ∀ item ∈ items, revs'.get? item.id =
          if item.id ∈ chunks.flatten then some item.rev else revs.get? item.id := by
    intro chunks
    induction chunks with
    | nil => exact fun revs clock _ => ⟨revs, clock, rfl, fun item _ => by rw [List.flatten_nil, if_neg List.not_mem_nil]⟩
    | cons chunk chunks ih =>
      intro revs clock hchunks
      obtain ⟨hchunk, hrest⟩ := List.forall_mem_cons.1 hchunks
      obtain ⟨rows, hanswer, hrows⟩ := hhost.work_items chunk hchunk.1 hchunk.2
      have hstep : fetch_chunk (fun _ => host.world) spec.query revs chunk clock = some (take_rows revs rows, clock + 1) :=
        bind_clock (ask_clock hanswer)
      obtain ⟨revs', clock', hfold, hget⟩ := ih (take_rows revs rows) (clock + 1) hrest
      refine ⟨revs', clock', ?_, fun item hitem => ?_⟩
      · rw [List.foldlM_cons, bind_clock hstep, hfold]
      · rw [hget item hitem, get?_take_rows hids hrows revs hitem, List.flatten_cons]
        by_cases hlater : item.id ∈ chunks.flatten
        · rw [if_pos hlater, if_pos (List.mem_append_right _ hlater)]
        · rw [if_neg hlater]
          by_cases hnow : item.id ∈ chunk
          · rw [if_pos hnow, if_pos (List.mem_append_left _ hnow)]
          · rw [if_neg hnow, if_neg (by simp [hnow, hlater])]
  have hbounds : ∀ chunk ∈ chunked ids BATCH_SIZE, chunk.length ≤ BATCH_SIZE ∧ ∀ id ∈ chunk, id ∈ items.map (·.id) := by
    intro chunk hchunk
    obtain ⟨hlength, hmem⟩ := chunked_bounds hchunk
    exact ⟨hlength, fun id hid => hknown id (hmem id hid)⟩
  obtain ⟨revs, clock', hfold, hget⟩ := hrun (chunked ids BATCH_SIZE) [] clock hbounds
  refine ⟨revs, clock', ?_, fun item hitem hid => ?_⟩
  · rw [revisions_eq, hfold]
  · obtain ⟨chunk, hchunk, hin⟩ := mem_chunked (n := BATCH_SIZE) (by decide) hid
    rw [hget item hitem, if_pos (List.mem_flatten.2 ⟨chunk, hchunk, hin⟩)]

theorem nodup_eraseDups (ids : List Nat) : ids.eraseDups.Nodup := by
  induction hlength : ids.length using Nat.strong_induction_on generalizing ids with
  | _ n ih =>
    cases ids with
    | nil => exact List.nodup_nil
    | cons id ids =>
      have hshorter : (ids.filter fun other => !other == id).length < n := by
        have hle := List.length_filter_le (fun other => !other == id) ids
        rw [List.length_cons] at hlength
        omega
      rw [List.eraseDups_cons, List.nodup_cons]
      refine ⟨fun hmem => ?_, ih _ hshorter _ rfl⟩
      rw [List.mem_eraseDups, List.mem_filter] at hmem
      simp at hmem

/-- The ids of the query, without repetitions, are those of the items under the area path. -/
theorem eraseDups_perm_ids {spec : AdoCardSourceSpec} (hids : (items.map (·.id)).Nodup) {rows : List Nat}
    (hrows : ∀ id, id ∈ rows ↔ ∃ item ∈ items, item.id = id ∧ UnderArea under spec item) :
    rows.eraseDups.Perm ((items.filter fun item => UnderArea under spec item).map (·.id)) := by
  have hselected : ((items.filter fun item => UnderArea under spec item).map (·.id)).Nodup :=
    hids.sublist (List.filter_sublist.map _)
  apply (List.perm_ext_iff_of_nodup (nodup_eraseDups rows) hselected).2
  intro id
  rw [List.mem_eraseDups, hrows, List.mem_map]
  constructor
  · intro hmem
    obtain ⟨item, hitem, hid, hunder⟩ := hmem
    exact ⟨item, List.mem_filter.2 ⟨hitem, decide_eq_true hunder⟩, hid⟩
  · intro hmem
    obtain ⟨item, hitem, hid⟩ := hmem
    obtain ⟨hitem, hunder⟩ := List.mem_filter.1 hitem
    exact ⟨item, hitem, hid, of_decide_eq_true hunder⟩

/-- Ids in any order, paired with their revisions and sorted, are the sources of the items by id. -/
theorem refs_of_ids {spec : AdoCardSourceSpec} {selected : List WorkItem} (hselected : (selected.map (·.id)).Nodup)
    {ids : List Nat} (hperm : ids.Perm (selected.map (·.id))) {revs : Dict Nat Nat}
    (hrevs : ∀ item ∈ selected, revs.get? item.id = some item.rev) :
    (sorted (fun (a b : Nat × Nat) => decide (a.1 ≤ b.1))
        (ids.filterMap fun id => (revs.get? id).map fun rev => (id, rev))).map
      (fun row => { source_type := .ado_card
                    source_uri := work_item_uri spec.query row.1
                    source_version := toString row.2
                    external_id := some (toString row.1) : SourceRef }) = refs_by_id spec selected := by
  have hle : ∀ a b : Nat × Nat, decide (a.1 ≤ b.1) = true ↔ a.1 ≤ b.1 := fun a b => decide_eq_true_iff
  have hrows : (selected.map (·.id)).filterMap (fun id => (revs.get? id).map fun rev => (id, rev)) =
      selected.map fun item => (item.id, item.rev) := by
    rw [List.filterMap_map, ← List.filterMap_eq_map]
    apply List.filterMap_congr
    intro item hitem
    rw [Function.comp_apply, hrevs item hitem]
    rfl
  have hkeys : ((selected.map fun item => (item.id, item.rev)).map Prod.fst).Nodup := by
    rw [List.map_map]
    exact hselected
  have hpairs : (ids.filterMap fun id => (revs.get? id).map fun rev => (id, rev)).Perm
      (selected.map fun item => (item.id, item.rev)) := hrows ▸ hperm.filterMap _
  have hsorted : sorted (fun (a b : Nat × Nat) => decide (a.1 ≤ b.1)) (selected.map fun item => (item.id, item.rev)) =
      (sorted (fun (a b : WorkItem) => decide (a.id ≤ b.id)) selected).map fun item => (item.id, item.rev) := by
    rw [sorted, sorted]
    symm
    apply List.map_insertionSort
    exact fun _ _ _ _ => Iff.rfl
  rw [← sorted_congr hle hkeys hpairs.symm, hsorted, List.map_map]
  rfl

/-- The listing has the items under the area path, by id and at their current revision. -/
theorem work_item_list_sources_clock {spec : AdoCardSourceSpec} (hids : (items.map (·.id)).Nodup)
    (hcap : items.length < WIQL_ID_CAP)
    (hhost : AnswersByMeaning host spec.organization spec.project under items) (clock : Nat) :
    ∃ listing clock', work_item_list_sources (fun _ => host.world) spec.query clock = some (listing, clock') ∧
      listing.refs = refs_by_id spec (items.filter fun item => UnderArea under spec item) := by
  obtain ⟨rows, hanswer, hrows⟩ := hhost.wiql _ _ (parse_wiql_query spec.query) hcap
  have hmeant : ∀ id, id ∈ rows ↔ ∃ item ∈ items, item.id = id ∧ UnderArea under spec item := by
    intro id
    rw [hrows]
    simp only [Wiql.Query.means, means_iff]
  have hperm := eraseDups_perm_ids hids hmeant
  have hselected : ((items.filter fun item => UnderArea under spec item).map (·.id)).Nodup :=
    hids.sublist (List.filter_sublist.map _)
  have hwiql : wiql_ids (fun _ => host.world) spec.query clock =
      some ((rows.eraseDups, decide (WIQL_ID_CAP ≤ rows.eraseDups.length)), clock + 1) :=
    bind_clock (ask_clock hanswer)
  unfold work_item_list_sources
  rw [bind_clock hwiql]
  by_cases hempty : rows.eraseDups.isEmpty
  · rw [List.isEmpty_iff.1 hempty] at hperm
    have hnone : items.filter (fun item => UnderArea under spec item) = [] := List.map_eq_nil_iff.1 hperm.nil_eq.symm
    refine ⟨{ refs := [] }, clock + 1, ?_, ?_⟩
    · dsimp only
      rw [if_pos hempty]
      rfl
    · rw [hnone]
      rfl
  · have hknown : ∀ id ∈ rows.eraseDups, id ∈ items.map (·.id) := by
      intro id hid
      obtain ⟨item, hitem, rfl⟩ := List.mem_map.1 (hperm.mem_iff.1 hid)
      exact List.mem_map.2 ⟨item, List.mem_of_mem_filter hitem, rfl⟩
    obtain ⟨revs, clock', hfetched, hrevs⟩ := revisions_clock hids hhost hknown (clock + 1)
    have hown : ∀ item ∈ items.filter (fun item => UnderArea under spec item), revs.get? item.id = some item.rev := by
      intro item hitem
      exact hrevs item (List.mem_of_mem_filter hitem) (hperm.mem_iff.2 (List.mem_map.2 ⟨item, hitem, rfl⟩))
    dsimp only
    rw [if_neg hempty, bind_clock hfetched]
    exact ⟨_, clock', rfl, refs_of_ids hselected hperm hown⟩

end Requests

theorem length_refs_by_id (spec : AdoCardSourceSpec) (items : List WorkItem) :
    (refs_by_id spec items).length = items.length := by
  rw [refs_by_id, List.length_map, (sorted_perm items).length_eq]

section Filters

variable {host : WorkItemHost} {under : String → String → Bool} {spec : AdoCardSourceSpec} {items : List WorkItem}

/-- The query selects by area path alone: the listing is the selection as long as no item under the area path is one
that the types, states and tags leave out. -/
theorem work_items_listed_iff (hids : (items.map (·.id)).Nodup) (hcap : items.length < WIQL_ID_CAP)
    (hhost : AnswersByMeaning host spec.organization spec.project under items) :
    ListsSelection under spec host items ↔ ∀ item ∈ items, UnderArea under spec item → PassesFilters spec item := by
  constructor
  · intro h item hitem hunder
    obtain ⟨listing, clock, hlist, hrefs⟩ := h.listed 0
    obtain ⟨listing', clock', hlist', hrefs'⟩ := work_item_list_sources_clock hids hcap hhost 0
    obtain ⟨rfl, -⟩ := Prod.mk.inj (Option.some.inj (hlist.symm.trans hlist'))
    have hlength := congrArg List.length (hrefs.symm.trans hrefs')
    rw [length_refs_by_id, length_refs_by_id] at hlength
    have hsub : (items.filter fun item => UnderArea under spec item ∧ PassesFilters spec item).Sublist
        (items.filter fun item => UnderArea under spec item) := by
      apply List.monotone_filter_right
      intro item hboth
      exact decide_eq_true (of_decide_eq_true hboth).1
    have hsame := hsub.eq_of_length hlength
    have hselected : item ∈ items.filter fun item => UnderArea under spec item :=
      List.mem_filter.2 ⟨hitem, decide_eq_true hunder⟩
    rw [← hsame] at hselected
    exact (of_decide_eq_true (List.mem_filter.1 hselected).2).2
  · intro h
    refine ⟨⟨_, parse_wiql_query spec.query, fun item => means_iff under spec item⟩, fun clock => ?_⟩
    obtain ⟨listing, clock', hlist, hrefs⟩ := work_item_list_sources_clock hids hcap hhost clock
    refine ⟨listing, clock', hlist, ?_⟩
    rw [hrefs]
    congr 1
    apply List.filter_congr
    intro item hitem
    exact decide_eq_decide.2 ⟨fun hunder => ⟨hunder, h item hitem hunder⟩, fun hboth => hboth.1⟩

end Filters

section Service

variable (organization project : String) (under : String → String → Bool) (items : List WorkItem)

/-- A service with one project: it parses a query, and refuses what is not one. -/
def one_project_host : WorkItemHost where
  wiql asked_organization asked_project text :=
    if asked_organization = organization ∧ asked_project = project then
      (Wiql.parse text).map fun query =>
        (items.filter fun item => query.means (work_item_schema project under) item).map (·.id)
    else none
  work_items asked_organization ids :=
    if asked_organization = organization then
      some ((items.filter fun item => item.id ∈ ids).map fun item => (item.id, some item.rev))
    else none

theorem one_project_answers :
    AnswersByMeaning (one_project_host organization project under items) organization project under items where
  wiql text query hparse _ := by
    refine ⟨(items.filter fun item => query.means (work_item_schema project under) item).map (·.id), ?_, fun id => ?_⟩
    · rw [one_project_host]
      dsimp only
      rw [if_pos ⟨rfl, rfl⟩, hparse]
      rfl
    · rw [List.mem_map]
      constructor
      · intro h
        obtain ⟨item, hitem, hid⟩ := h
        obtain ⟨hmem, hmeans⟩ := List.mem_filter.1 hitem
        exact ⟨item, hmem, hid, hmeans⟩
      · intro h
        obtain ⟨item, hmem, hid, hmeans⟩ := h
        exact ⟨item, List.mem_filter.2 ⟨hmem, hmeans⟩, hid⟩
  work_items ids _ _ := by
    refine ⟨(items.filter fun item => item.id ∈ ids).map fun item => (item.id, some item.rev), ?_, fun id rev => ?_⟩
    · rw [one_project_host]
      dsimp only
      rw [if_pos rfl]
    · rw [List.mem_map]
      constructor
      · intro h
        obtain ⟨item, hitem, hrow⟩ := h
        obtain ⟨hmem, hasked⟩ := List.mem_filter.1 hitem
        exact ⟨item, hmem, of_decide_eq_true hasked, hrow.symm⟩
      · intro h
        obtain ⟨item, hmem, hasked, hrow⟩ := h
        exact ⟨item, List.mem_filter.2 ⟨hmem, decide_eq_true hasked⟩, hrow.symm⟩

/-- A path is under itself and under what it continues behind a backslash. -/
def under_area (path root : String) : Bool := path == root || (root.toList ++ ['\\']).isPrefixOf path.toList

end Service

section Cards

/-- A project with a card that is still open, one that is done, and one of another team. -/
def kb_cards : List WorkItem :=
  [{ id := 7, rev := 3, area_path := "kb\\broker", work_item_type := "Bug", state := "Active", tags := ["retrieval"] },
    { id := 2, rev := 5, area_path := "kb", work_item_type := "Bug", state := "Closed" },
    { id := 4, rev := 1, area_path := "crm", work_item_type := "Task", state := "New" }]

/-- The bugs of the team. -/
def kb_bugs : AdoCardSourceSpec :=
  { organization := "acme", project := "platform", area_path := some "kb", work_item_types := ["Bug"] }

/-- The bugs of the team that are active. -/
def kb_active_bugs : AdoCardSourceSpec := { kb_bugs with states := ["Active"] }

/-- The other team's card is of another type, and the query leaves it out. -/
theorem kb_bugs_listed : ListsSelection under_area kb_bugs (one_project_host "acme" "platform" under_area kb_cards) kb_cards :=
  (work_items_listed_iff (by decide) (by decide) (one_project_answers "acme" "platform" under_area kb_cards)).2
    (by decide +kernel)

/-- The closed bug is ingested, whatever states are listed. -/
theorem closed_bug_listed : (kb_cards.map (·.id)).Nodup ∧ kb_cards.length < WIQL_ID_CAP ∧
    AnswersByMeaning (one_project_host "acme" "platform" under_area kb_cards) kb_active_bugs.organization
      kb_active_bugs.project under_area kb_cards ∧
    ¬ ListsSelection under_area kb_active_bugs (one_project_host "acme" "platform" under_area kb_cards) kb_cards := by
  have hhost : AnswersByMeaning (one_project_host "acme" "platform" under_area kb_cards) kb_active_bugs.organization
      kb_active_bugs.project under_area kb_cards := one_project_answers "acme" "platform" under_area kb_cards
  refine ⟨by decide, by decide, hhost, fun h => ?_⟩
  obtain ⟨listing, clock, hlist, hrefs⟩ := h.listed 0
  obtain ⟨listing', clock', hlist', hrefs'⟩ := work_item_list_sources_clock (by decide) (by decide) hhost 0
  obtain ⟨rfl, -⟩ := Prod.mk.inj (Option.some.inj (hlist.symm.trans hlist'))
  have hlength := congrArg List.length (hrefs.symm.trans hrefs')
  rw [length_refs_by_id, length_refs_by_id] at hlength
  exact absurd hlength (by decide +kernel)

end Cards

end AgenticKb
