import Mathlib.Data.List.Dedup
import AgenticKb.Graphify.Backend

open AgenticKb.Lib

namespace AgenticKb.Graphify

/-! When the mapping of an extraction is injective on its nodes, and its call edges are resolved. -/

/-- The edges the extractor returned. -/
def Extraction.all_edges (data : Extraction) : List GraphEdge := data.edges.getD data.links

/-- The nodes that get an artifact. -/
def kept_nodes (inputs : MapInputs) (data : Extraction) : List GraphNode := data.nodes.filter (in_tree inputs)

def is_call (edge : GraphEdge) : Bool := CALL_RELATIONS.contains edge.relation

/-- The node of the tree an id stands for: the last, where several have it. -/
def node_named (inputs : MapInputs) (data : Extraction) (id : String) : Option GraphNode :=
  (kept_nodes inputs data).reverse.find? fun node => node.id == id

/-- The key of the node an id stands for. -/
def key_named (inputs : MapInputs) (data : Extraction) (id : String) : Option String :=
  (node_named inputs data id).map (key_of_node (file_node_ids inputs data.nodes))

/-- The id stands for a symbol of the tree, and for no file of it. -/
def NamesSymbol (inputs : MapInputs) (data : Extraction) (id : String) : Prop :=
  (∃ node ∈ kept_nodes inputs data, node.id = id) ∧ ∀ node ∈ kept_nodes inputs data, node.id = id → is_file_node node = false

/-- A call with symbols of the tree at both ends. -/
def SymbolCall (inputs : MapInputs) (data : Extraction) (edge : GraphEdge) : Prop :=
  is_call edge = true ∧ NamesSymbol inputs data edge.source ∧ NamesSymbol inputs data edge.target

/-- Some call site between nodes of these keys has one target and no other, in the tree or out of it. -/
def Unambiguous (inputs : MapInputs) (data : Extraction) (from_key to_key : String) : Prop :=
  ∃ call ∈ data.all_edges, is_call call = true ∧ key_named inputs data call.source = some from_key ∧
    key_named inputs data call.target = some to_key ∧
    ∀ other ∈ data.all_edges, is_call other = true → call_site other = call_site call → other.target = call.target

/-- The mapping is closed and injective. -/
structure MappingSound (inputs : MapInputs) (data : Extraction) : Prop where
  keys : ((map_extraction inputs data).artifacts.map (·.key)).Nodup
  /-- Every node of the tree has an artifact of its own. -/
  own : (map_extraction inputs data).artifacts.length = (kept_nodes inputs data).length
  closed : ∀ edge ∈ (map_extraction inputs data).edges,
    edge.from_key ∈ (map_extraction inputs data).artifacts.map (·.key) ∧
      edge.to_key ∈ (map_extraction inputs data).artifacts.map (·.key)
  no_self : ∀ edge ∈ (map_extraction inputs data).edges, edge.from_key ≠ edge.to_key
  once : ((map_extraction inputs data).edges.map fun edge => (edge.from_key, edge.to_key, edge.edge_type)).Nodup
  calls : ∀ edge ∈ (map_extraction inputs data).edges, edge.edge_type = .calls →
    Unambiguous inputs data edge.from_key edge.to_key

/-- What the mapping relies on: the files of the file nodes are distinct, so are the paths with the stripped ids of
the symbol nodes, and a site whose calls between symbols have one target is, or stands for, an unambiguous one. -/
structure MappingExact (inputs : MapInputs) (data : Extraction) : Prop where
  files : (((kept_nodes inputs data).filter is_file_node).map (·.source_file)).Nodup
  symbols : (((kept_nodes inputs data).filter fun node => !is_file_node node).map fun node =>
    node.source_file ++ "::" ++ symbol_name (file_node_ids inputs data.nodes) node).Nodup
  calls : ∀ call ∈ data.all_edges, SymbolCall inputs data call →
    (∀ other ∈ data.all_edges, SymbolCall inputs data other → call_site other = call_site call →
      other.target = call.target) →
    ∀ from_key to_key, key_named inputs data call.source = some from_key → key_named inputs data call.target = some to_key →
      from_key ≠ to_key → Unambiguous inputs data from_key to_key

section Nodes

variable {inputs : MapInputs} {file_node_id : Dict String String}

@[simp] theorem artifact_of_node_key (node : GraphNode) :
    (artifact_of_node inputs file_node_id node).key = key_of_node file_node_id node := by
  rw [artifact_of_node, key_of_node]
  split
  · rfl
  · rw [symbol_artifact]
    split
    · rfl
    · rfl

/-- What the loop has built of some nodes. -/
theorem foldl_map_node (nodes : List GraphNode) :
    nodes.foldl (map_node inputs file_node_id) {} =
      { node_key := (nodes.filter (in_tree inputs)).foldl
          (fun d node => d.set node.id (key_of_node file_node_id node)) []
        node_is_file := ((nodes.filter (in_tree inputs)).filter is_file_node).foldl
          (fun d node => d.set node.id node.source_file) []
        symbol_files := ((nodes.filter (in_tree inputs)).filter fun node =>
          !is_file_node node && (file_node_id.get? node.source_file).isSome).map fun node =>
            (key_of_node file_node_id node, node.source_file)
        artifacts := (nodes.filter (in_tree inputs)).map (artifact_of_node inputs file_node_id) } := by
  induction nodes using List.reverseRecOn with
  | nil => rfl
  | append_singleton nodes node ih =>
    rw [List.foldl_append, List.foldl_cons, List.foldl_nil, ih, map_node]
    cases hin : in_tree inputs node with
    | false => simp [hin]
    | true =>
      cases hfile : is_file_node node with
      | true => simp [hin, hfile]
      | false =>
        cases hsome : (file_node_id.get? node.source_file).isSome with
        | true => simp [hin, hfile, hsome]
        | false => simp [hin, hfile, hsome]

theorem get?_node_key (inputs : MapInputs) (data : Extraction) (id : String) :
    (map_nodes inputs data.nodes).node_key.get? id = key_named inputs data id := by
  rw [map_nodes, foldl_map_node]
  dsimp only
  rw [Dict.get?_foldl_set (fun node : GraphNode => node.id) (key_of_node (file_node_ids inputs data.nodes))]
  exact Option.or_none

theorem get?_node_is_file {data : Extraction} {id path : String}
    (h : (map_nodes inputs data.nodes).node_is_file.get? id = some path) :
    ∃ node ∈ kept_nodes inputs data, is_file_node node = true ∧ node.source_file = path := by
  rw [map_nodes, foldl_map_node] at h
  dsimp only at h
  rcases Dict.mem_foldl_set (fun node : GraphNode => node.id) (fun node => node.source_file) (Dict.mem_of_get? h) with
    hnil | ⟨node, hnode, heq⟩
  · simp at hnil
  · obtain ⟨hmem, hfile⟩ := List.mem_filter.1 hnode
    exact ⟨node, hmem, hfile, (congrArg Prod.snd heq).symm⟩

theorem namesSymbol_iff (inputs : MapInputs) (data : Extraction) (id : String) :
    NamesSymbol inputs data id ↔ ((map_nodes inputs data.nodes).node_key.get? id).isSome = true ∧
      ((map_nodes inputs data.nodes).node_is_file.get? id).isNone = true := by
  have hkeys : ((map_nodes inputs data.nodes).node_key.get? id).isSome = true ↔
      ∃ node ∈ kept_nodes inputs data, node.id = id := by
    rw [get?_node_key, key_named, node_named, Option.isSome_map, List.find?_isSome]
    simp
  have hfiles : ((map_nodes inputs data.nodes).node_is_file.get? id).isNone = true ↔
      ∀ node ∈ kept_nodes inputs data, node.id = id → is_file_node node = false := by
    rw [map_nodes, foldl_map_node]
    dsimp only
    rw [Dict.get?_foldl_set (fun node : GraphNode => node.id) (fun node => node.source_file), ← kept_nodes]
    have hempty : Dict.get? ([] : Dict String String) id = none := rfl
    rw [hempty, Option.or_none, Option.isNone_map, Option.isNone_iff_eq_none, List.find?_eq_none]
    simp only [List.mem_reverse, List.mem_filter, beq_iff_eq]
    constructor
    · intro h node hnode hid
      cases hfile : is_file_node node with
      | false => rfl
      | true => exact absurd hid (h node ⟨hnode, hfile⟩)
    · rintro h node ⟨hnode, hfile⟩ hid
      rw [h node hnode hid] at hfile
      exact Bool.false_ne_true hfile
  rw [NamesSymbol, hkeys, hfiles]

theorem symbolCall_iff (inputs : MapInputs) (data : Extraction) (edge : GraphEdge) :
    SymbolCall inputs data edge ↔ is_call edge = true ∧ between_symbols (map_nodes inputs data.nodes) edge = true := by
  rw [SymbolCall, namesSymbol_iff, namesSymbol_iff, between_symbols]
  simp only [Bool.and_eq_true]
  constructor
  · rintro ⟨hcall, ⟨hsource, hsource_file⟩, htarget, htarget_file⟩
    exact ⟨hcall, ⟨⟨hsource, htarget⟩, hsource_file⟩, htarget_file⟩
  · rintro ⟨hcall, ⟨⟨hsource, htarget⟩, hsource_file⟩, htarget_file⟩
    exact ⟨hcall, ⟨hsource, hsource_file⟩, htarget, htarget_file⟩

/-- A recorded file has a file node in the tree. -/
theorem file_node_of_isSome {data : Extraction} {path : String}
    (h : ((file_node_ids inputs data.nodes).get? path).isSome = true) :
    ∃ node ∈ kept_nodes inputs data, is_file_node node = true ∧ node.source_file = path := by
  obtain ⟨id, hid⟩ := Option.isSome_iff_exists.1 h
  have hentry := Dict.mem_of_get? hid
  rw [file_node_ids] at hentry
  rcases Dict.mem_foldl_set (fun node : GraphNode => node.source_file) (fun node => node.id) hentry with
    hnil | ⟨node, hnode, heq⟩
  · simp at hnil
  · obtain ⟨hmem, hnode⟩ := List.mem_filter.1 hnode
    rw [Bool.and_eq_true] at hnode
    exact ⟨node, List.mem_filter.2 ⟨hmem, hnode.1⟩, hnode.2, (congrArg Prod.fst heq).symm⟩

end Nodes

section Drafts

variable {candidates : List CodeEdgeDraft}

def draft_ends (draft : CodeEdgeDraft) : String × String × CodeEdgeType := (draft.from_key, draft.to_key, draft.edge_type)

private theorem any_same_iff {drafts : List CodeEdgeDraft} {draft : CodeEdgeDraft} :
    (drafts.any fun old => old.from_key == draft.from_key && old.to_key == draft.to_key && old.edge_type == draft.edge_type) =
      true ↔ ∃ old ∈ drafts, draft_ends old = draft_ends draft := by
  simp [draft_ends, List.any_eq_true, and_assoc]

/-- `add` lets every candidate in once, and no self-edge. -/
theorem foldl_add_draft (candidates : List CodeEdgeDraft) :
    (∀ draft ∈ candidates.foldl add_draft [], draft ∈ candidates ∧ draft.from_key ≠ draft.to_key) ∧
      ((candidates.foldl add_draft []).map draft_ends).Nodup ∧
      ∀ draft ∈ candidates, draft.from_key ≠ draft.to_key →
        ∃ added ∈ candidates.foldl add_draft [], draft_ends added = draft_ends draft := by
  induction candidates using List.reverseRecOn with
  | nil => simp
  | append_singleton candidates draft ih =>
    obtain ⟨hsound, hnodup, hall⟩ := ih
    rw [List.foldl_append, List.foldl_cons, List.foldl_nil, add_draft]
    by_cases hself : draft.from_key = draft.to_key
    · rw [if_pos hself]
      refine ⟨fun old hold => ⟨List.mem_append_left _ (hsound old hold).1, (hsound old hold).2⟩, hnodup, ?_⟩
      intro other hother hne
      rcases List.mem_append.1 hother with hother | hother
      · exact hall other hother hne
      · rw [List.mem_singleton.1 hother] at hne
        exact absurd hself hne
    · rw [if_neg hself]
      by_cases hseen : ∃ old ∈ candidates.foldl add_draft [], draft_ends old = draft_ends draft
      · rw [if_pos (any_same_iff.2 hseen)]
        refine ⟨fun old hold => ⟨List.mem_append_left _ (hsound old hold).1, (hsound old hold).2⟩, hnodup, ?_⟩
        intro other hother hne
        rcases List.mem_append.1 hother with hother | hother
        · exact hall other hother hne
        · rw [List.mem_singleton.1 hother]
          exact hseen
      · rw [if_neg fun h => hseen (any_same_iff.1 h)]
        refine ⟨?_, ?_, ?_⟩
        · intro old hold
          rcases List.mem_append.1 hold with hold | hnew
          · exact ⟨List.mem_append_left _ (hsound old hold).1, (hsound old hold).2⟩
          · rw [List.mem_singleton.1 hnew]
            exact ⟨List.mem_append_right _ List.mem_cons_self, hself⟩
        · rw [List.map_append, List.map_singleton, List.nodup_append]
          refine ⟨hnodup, List.nodup_singleton _, ?_⟩
          intro ends hends other hother heq
          obtain ⟨old, hold, rfl⟩ := List.mem_map.1 hends
          rw [List.mem_singleton.1 hother] at heq
          exact hseen ⟨old, hold, heq⟩
        · intro other hother hne
          rcases List.mem_append.1 hother with hother | hother
          · obtain ⟨added, hadded, heq⟩ := hall other hother hne
            exact ⟨added, List.mem_append_left _ hadded, heq⟩
          · rw [List.mem_singleton.1 hother]
            exact ⟨draft, List.mem_append_right _ List.mem_cons_self, rfl⟩

end Drafts

section Calls

variable {mapped : MappedNodes} {edges : List GraphEdge} {draft : CodeEdgeDraft}

private theorem dedup_eq_singleton_iff {targets : List String} {target : String} :
    targets.dedup = [target] ↔ targets ≠ [] ∧ ∀ other ∈ targets, other = target := by
  constructor
  · intro h
    have hmem : ∀ other, other ∈ targets ↔ other = target := by
      intro other
      rw [← List.mem_dedup, h, List.mem_singleton]
    exact ⟨List.ne_nil_of_mem ((hmem target).2 rfl), fun other hother => (hmem other).1 hother⟩
  · rintro ⟨hne, hall⟩
    rw [List.eq_replicate_of_mem hall]
    apply List.replicate_dedup
    rwa [ne_eq, List.length_eq_zero_iff]

/-- A stored call comes from a site with one target among the symbols of the tree. -/
theorem mem_call_edges_iff : draft ∈ call_edges mapped edges ↔
    ∃ call ∈ edges, (is_call call = true ∧ between_symbols mapped call = true) ∧
      (∀ other ∈ edges, is_call other = true ∧ between_symbols mapped other = true → call_site other = call_site call →
        other.target = call.target) ∧
      ∃ from_key to_key, mapped.node_key.get? call.source = some from_key ∧
        mapped.node_key.get? call.target = some to_key ∧
        draft = { from_key, to_key, edge_type := .calls, confidence := CALLS_CONFIDENCE } := by
  rw [call_edges, List.mem_filterMap]
  constructor
  · rintro ⟨⟨site, group⟩, hentry, hdraft⟩
    obtain ⟨hne, hall⟩ := Dict.group_sound call_site hentry
    have hgroup : group = _ := Dict.group_eq_filter call_site hentry
    split at hdraft
    · rename_i target htargets
      obtain ⟨-, hsame⟩ := dedup_eq_singleton_iff.1 htargets
      obtain ⟨call, hcall⟩ := List.exists_mem_of_ne_nil group hne
      obtain ⟨hkept, hsite⟩ := hall call hcall
      obtain ⟨hedge, hcalls⟩ := List.mem_filter.1 hkept
      rw [Bool.and_eq_true] at hcalls
      have htarget : call.target = target := hsame _ (List.mem_map_of_mem hcall)
      have hsource : call.source = site.1 := congrArg Prod.fst hsite
      simp only [Option.bind_eq_bind, Option.bind_eq_some_iff, Option.some.injEq] at hdraft
      obtain ⟨from_key, hfrom, to_key, hto, rfl⟩ := hdraft
      refine ⟨call, hedge, hcalls, ?_, from_key, to_key, hsource ▸ hfrom, htarget ▸ hto, rfl⟩
      intro other hother hother_calls hother_site
      have hmem : other ∈ group := by
        rw [hgroup]
        refine List.mem_filter.2 ⟨List.mem_filter.2 ⟨hother, ?_⟩, ?_⟩
        · rw [Bool.and_eq_true]
          exact hother_calls
        · exact decide_eq_true (hother_site.trans hsite)
      rw [htarget]
      exact hsame _ (List.mem_map_of_mem hmem)
    · simp at hdraft
  · rintro ⟨call, hedge, hcalls, hone, from_key, to_key, hfrom, hto, rfl⟩
    have hkept : call ∈ edges.filter fun edge => CALL_RELATIONS.contains edge.relation && between_symbols mapped edge := by
      refine List.mem_filter.2 ⟨hedge, ?_⟩
      rw [Bool.and_eq_true]
      exact hcalls
    obtain ⟨group, hgroup, hmem⟩ := Dict.mem_group_of_mem (d := []) call_site hkept
    have hentry := Dict.mem_of_get? hgroup
    refine ⟨(call_site call, group), hentry, ?_⟩
    have htargets : (group.map (·.target)).dedup = [call.target] := by
      rw [dedup_eq_singleton_iff]
      refine ⟨List.ne_nil_of_mem (List.mem_map_of_mem hmem), fun target htarget => ?_⟩
      obtain ⟨other, hother, rfl⟩ := List.mem_map.1 htarget
      obtain ⟨hother_kept, hother_site⟩ := (Dict.group_sound call_site hentry).2 other hother
      obtain ⟨hother_edge, hother_calls⟩ := List.mem_filter.1 hother_kept
      rw [Bool.and_eq_true] at hother_calls
      exact hone other hother_edge hother_calls hother_site
    dsimp only
    rw [htargets]
    have hsource : mapped.node_key.get? (call_site call).1 = some from_key := hfrom
    simp only [hsource, hto, Option.bind_eq_bind, Option.bind_some]

end Calls

section Mapping

variable {inputs : MapInputs} {data : Extraction}

private theorem keys_eq (inputs : MapInputs) (data : Extraction) :
    (map_extraction inputs data).artifacts.map (·.key) =
      (kept_nodes inputs data).map (key_of_node (file_node_ids inputs data.nodes)) := by
  rw [map_extraction]
  dsimp only
  rw [map_nodes, foldl_map_node, List.map_map]
  exact List.map_congr_left fun node _ => artifact_of_node_key node

/-- The candidates the four loops hand to `add`. -/
private def candidates (inputs : MapInputs) (data : Extraction) : List CodeEdgeDraft :=
  defined_in_edges (map_nodes inputs data.nodes) ++ import_edges (map_nodes inputs data.nodes) data.all_edges ++
    call_edges (map_nodes inputs data.nodes) data.all_edges ++ relation_edges (map_nodes inputs data.nodes) data.all_edges

private theorem mem_keys {node : GraphNode} (h : node ∈ kept_nodes inputs data) :
    key_of_node (file_node_ids inputs data.nodes) node ∈ (map_extraction inputs data).artifacts.map (·.key) := by
  rw [keys_eq]
  exact List.mem_map_of_mem h

private theorem file_key_mem_keys {path : String}
    (h : ∃ node ∈ kept_nodes inputs data, is_file_node node = true ∧ node.source_file = path) :
    file_key path ∈ (map_extraction inputs data).artifacts.map (·.key) := by
  obtain ⟨node, hnode, hfile, rfl⟩ := h
  have hkey : key_of_node (file_node_ids inputs data.nodes) node = file_key node.source_file := by
    rw [key_of_node, if_pos hfile]
  rw [← hkey]
  exact mem_keys hnode

private theorem node_key_mem_keys {id key : String} (h : (map_nodes inputs data.nodes).node_key.get? id = some key) :
    key ∈ (map_extraction inputs data).artifacts.map (·.key) := by
  rw [get?_node_key, key_named, Option.map_eq_some_iff] at h
  obtain ⟨node, hnode, rfl⟩ := h
  exact mem_keys (List.mem_reverse.1 (List.mem_of_find?_eq_some hnode))

private theorem candidates_closed {draft : CodeEdgeDraft} (h : draft ∈ candidates inputs data) :
    draft.from_key ∈ (map_extraction inputs data).artifacts.map (·.key) ∧
      draft.to_key ∈ (map_extraction inputs data).artifacts.map (·.key) := by
  rw [candidates, List.mem_append, List.mem_append, List.mem_append] at h
  rcases h with ((hdefined | himport) | hcall) | hrelation
  · obtain ⟨entry, hentry, rfl⟩ := List.mem_map.1 hdefined
    rw [map_nodes, foldl_map_node] at hentry
    obtain ⟨node, hnode, rfl⟩ := List.mem_map.1 hentry
    obtain ⟨hmem, hsymbol⟩ := List.mem_filter.1 hnode
    rw [Bool.and_eq_true] at hsymbol
    exact ⟨mem_keys hmem, file_key_mem_keys (file_node_of_isSome hsymbol.2)⟩
  · obtain ⟨edge, -, hdraft⟩ := List.mem_filterMap.1 himport
    simp only [Option.bind_eq_bind, Option.bind_eq_some_iff, Option.some.injEq] at hdraft
    obtain ⟨from_file, hfrom, target_file, hto, rfl⟩ := hdraft
    exact ⟨file_key_mem_keys (get?_node_is_file hfrom), file_key_mem_keys (get?_node_is_file hto)⟩
  · obtain ⟨call, -, -, -, from_key, to_key, hfrom, hto, rfl⟩ := mem_call_edges_iff.1 hcall
    exact ⟨node_key_mem_keys hfrom, node_key_mem_keys hto⟩
  · obtain ⟨edge, -, hdraft⟩ := List.mem_filterMap.1 hrelation
    simp only [Option.bind_eq_bind, Option.bind_eq_some_iff, Option.some.injEq] at hdraft
    obtain ⟨edge_type, -, from_key, hfrom, to_key, hto, rfl⟩ := hdraft
    exact ⟨node_key_mem_keys hfrom, node_key_mem_keys hto⟩

/-- No other loop makes a call edge. -/
private theorem call_edge_of_candidate {draft : CodeEdgeDraft} (h : draft ∈ candidates inputs data)
    (htype : draft.edge_type = .calls) : draft ∈ call_edges (map_nodes inputs data.nodes) data.all_edges := by
  rw [candidates, List.mem_append, List.mem_append, List.mem_append] at h
  rcases h with ((hdefined | himport) | hcall) | hrelation
  · obtain ⟨entry, -, rfl⟩ := List.mem_map.1 hdefined
    cases htype
  · obtain ⟨edge, -, hdraft⟩ := List.mem_filterMap.1 himport
    simp only [Option.bind_eq_bind, Option.bind_eq_some_iff, Option.some.injEq] at hdraft
    obtain ⟨from_file, -, target_file, -, rfl⟩ := hdraft
    cases htype
  · exact hcall
  · obtain ⟨edge, -, hdraft⟩ := List.mem_filterMap.1 hrelation
    simp only [Option.bind_eq_bind, Option.bind_eq_some_iff, Option.some.injEq] at hdraft
    obtain ⟨edge_type, hrelation_type, from_key, -, to_key, -, rfl⟩ := hdraft
    have hall : ∀ entry ∈ SYMBOL_RELATIONS, entry.2 ≠ CodeEdgeType.calls := by decide
    exact absurd htype (hall _ (Dict.mem_of_get? hrelation_type))

/-- The keys are distinct exactly when those of the files are, and those of the symbols. -/
theorem nodup_keys_iff (inputs : MapInputs) (data : Extraction) :
    ((map_extraction inputs data).artifacts.map (·.key)).Nodup ↔
      (((kept_nodes inputs data).filter is_file_node).map (·.source_file)).Nodup ∧
        (((kept_nodes inputs data).filter fun node => !is_file_node node).map fun node =>
          node.source_file ++ "::" ++ symbol_name (file_node_ids inputs data.nodes) node).Nodup := by
  have hperm := (List.filter_append_perm is_file_node (kept_nodes inputs data)).map
    (key_of_node (file_node_ids inputs data.nodes))
  have hfiles : ((kept_nodes inputs data).filter is_file_node).map (key_of_node (file_node_ids inputs data.nodes)) =
      (((kept_nodes inputs data).filter is_file_node).map (·.source_file)).map file_key := by
    rw [List.map_map]
    refine List.map_congr_left fun node hnode => ?_
    exact if_pos (List.mem_filter.1 hnode).2
  have hsymbols : ((kept_nodes inputs data).filter fun node => !is_file_node node).map
      (key_of_node (file_node_ids inputs data.nodes)) =
      (((kept_nodes inputs data).filter fun node => !is_file_node node).map fun node =>
        node.source_file ++ "::" ++ symbol_name (file_node_ids inputs data.nodes) node).map ("sym:" ++ ·) := by
    rw [List.map_map]
    refine List.map_congr_left fun node hnode => ?_
    have hnot : ¬is_file_node node = true := by simpa using (List.mem_filter.1 hnode).2
    exact if_neg hnot
  have hfile_inj : Function.Injective file_key := fun _ _ h => (String.append_right_inj "file:").1 h
  have hsymbol_inj : Function.Injective ("sym:" ++ · : String → String) := fun _ _ h => (String.append_right_inj "sym:").1 h
  rw [keys_eq, ← hperm.nodup_iff, List.map_append, hfiles, hsymbols, List.nodup_append, List.nodup_map_iff hfile_inj,
    List.nodup_map_iff hsymbol_inj]
  constructor
  · rintro ⟨hfile, hsymbol, -⟩
    exact ⟨hfile, hsymbol⟩
  · rintro ⟨hfile, hsymbol⟩
    refine ⟨hfile, hsymbol, fun key hkey other hother heq => ?_⟩
    obtain ⟨path, -, rfl⟩ := List.mem_map.1 hkey
    obtain ⟨text, -, rfl⟩ := List.mem_map.1 hother
    have hhead := congrArg (fun s : String => s.toList.head?) heq
    simp [file_key, String.toList_append] at hhead

/-- The mapping is sound exactly where its inputs keep its names and its call sites apart. -/
theorem mapping_sound_iff (inputs : MapInputs) (data : Extraction) : MappingSound inputs data ↔ MappingExact inputs data := by
  have hedges : (map_extraction inputs data).edges = (candidates inputs data).foldl add_draft [] := rfl
  obtain ⟨hsound, hnodup, hall⟩ := foldl_add_draft (candidates inputs data)
  rw [← hedges] at hsound hnodup hall
  constructor
  · intro h
    obtain ⟨hfiles, hsymbols⟩ := (nodup_keys_iff inputs data).1 h.keys
    refine ⟨hfiles, hsymbols, fun call hcall hsymbol hone from_key to_key hfrom hto hne => ?_⟩
    have hmem : { from_key, to_key, edge_type := .calls, confidence := CALLS_CONFIDENCE : CodeEdgeDraft } ∈
        candidates inputs data := by
      refine List.mem_append_left _ (List.mem_append_right _ (mem_call_edges_iff.2 ⟨call, hcall, ?_, ?_, from_key, to_key,
        ?_, ?_, rfl⟩))
      · exact (symbolCall_iff inputs data call).1 hsymbol
      · intro other hother hother_calls
        exact hone other hother ((symbolCall_iff inputs data other).2 hother_calls)
      · rw [get?_node_key, hfrom]
      · rw [get?_node_key, hto]
    obtain ⟨added, hadded, hends⟩ := hall _ hmem hne
    simp only [draft_ends, Prod.mk.injEq] at hends
    have hunambiguous := h.calls added hadded hends.2.2
    rwa [hends.1, hends.2.1] at hunambiguous
  · intro h
    refine ⟨(nodup_keys_iff inputs data).2 ⟨h.files, h.symbols⟩, ?_, ?_, ?_, hnodup, ?_⟩
    · have hlength := congrArg List.length (keys_eq inputs data)
      rwa [List.length_map, List.length_map] at hlength
    · intro edge hedge
      exact candidates_closed (hsound edge hedge).1
    · intro edge hedge
      exact (hsound edge hedge).2
    · intro edge hedge htype
      obtain ⟨hmem, hne⟩ := hsound edge hedge
      obtain ⟨call, hcall, hsymbol, hone, from_key, to_key, hfrom, hto, rfl⟩ :=
        mem_call_edges_iff.1 (call_edge_of_candidate hmem htype)
      rw [get?_node_key] at hfrom hto
      refine h.calls call hcall ((symbolCall_iff inputs data call).2 hsymbol) ?_ from_key to_key hfrom hto hne
      intro other hother hother_calls
      exact hone other hother ((symbolCall_iff inputs data other).1 hother_calls)

end Mapping

private def one_file : MapInputs := { unicode := .ascii, known_paths := some ["a.py"] }

/-- Two symbols of one file, one of which has the file's prefix before the other's id. -/
private def prefixed_ids : Extraction where
  nodes := [⟨"a", some "a.py", "a.py", some "L1"⟩, ⟨"a_run", some "run()", "a.py", some "L1"⟩,
    ⟨"run", some ".run()", "a.py", some "L5"⟩]

/-- A call that may reach a symbol of the tree or one from outside. -/
private def outside_target : Extraction where
  nodes := [⟨"a", some "a.py", "a.py", some "L1"⟩, ⟨"a_run", some "run()", "a.py", some "L1"⟩,
    ⟨"a_open", some "open()", "a.py", some "L5"⟩, ⟨"open", some "open()", "", none⟩]
  edges := some [⟨"calls", "a_run", "a_open", some "L2"⟩, ⟨"calls", "a_run", "open", some "L2"⟩]

theorem mapping_unsound : ¬MappingSound one_file prefixed_ids ∧ ¬MappingSound one_file outside_target := by
  constructor
  · intro h
    have hkeys : (map_extraction one_file prefixed_ids).artifacts.map (·.key) =
        ["file:a.py", "sym:a.py::run", "sym:a.py::run"] := by
      decide +kernel
    have hnodup := h.keys
    rw [hkeys] at hnodup
    exact absurd hnodup (by decide +kernel)
  · intro h
    have hedges : { from_key := "sym:a.py::run", to_key := "sym:a.py::open", edge_type := .calls
                    confidence := CALLS_CONFIDENCE : CodeEdgeDraft } ∈ (map_extraction one_file outside_target).edges := by
      decide +kernel
    obtain ⟨call, hcall, -, -, hto, hone⟩ := h.calls _ hedges rfl
    have hcalls : call = ⟨"calls", "a_run", "a_open", some "L2"⟩ ∨ call = ⟨"calls", "a_run", "open", some "L2"⟩ := by
      simpa [Extraction.all_edges, outside_target] using hcall
    rcases hcalls with rfl | rfl
    · have hsame := hone ⟨"calls", "a_run", "open", some "L2"⟩ (by decide +kernel) (by decide +kernel) rfl
      exact absurd hsame (by decide +kernel)
    · have hnone : key_named one_file outside_target "open" = none := by decide +kernel
      rw [hnone] at hto
      cases hto

end AgenticKb.Graphify
