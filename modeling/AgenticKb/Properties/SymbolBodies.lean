import AgenticKb.Properties.ExtractionMapping

open AgenticKb.Lib

namespace AgenticKb.Graphify

/-! Whose source the body of a symbol is. -/

/-- The line of the first decorator's `@`, or of the definition. -/
def Definition.first_line (d : Definition) : Nat := (d.decorators.head?.map (·.at_line)).getD d.lineno

/-- The line of the first decorator's expression, or of the definition. -/
def Definition.first_reported (d : Definition) : Nat := (d.decorators.head?.map (·.lineno)).getD d.lineno

def Definition.last_line (d : Definition) : Nat := d.end_lineno.getD d.lineno

/-- The decorators a parser reports stand in order above the definition. -/
structure Definition.Placed (d : Definition) : Prop where
  ordered : d.decorators.Pairwise fun a b => a.lineno ≤ b.lineno
  above : ∀ decorator ∈ d.decorators, decorator.lineno ≤ d.lineno

/-- Lines of a text whose lines end in line feeds. -/
def line_range (text : String) (first last : Nat) : String :=
  join "\n" (((split_on '\n' text).drop (first - 1)).take (last - (first - 1)))

/-- The definitions the span pass reads in a file. -/
def file_definitions (tools : GraphifyTools) (path text : String) : List Definition :=
  if PYTHON_SUFFIXES.contains (tools.unicode.lower (span_suffix path)) then (tools.definitions text).getD [] else []

/-- A definition that a node may stand for: it has the node's bare name and starts on the line the node reports. -/
structure Names (tools : GraphifyTools) (node : GraphNode) (d : Definition) : Prop where
  name : label_name tools.unicode node.label = some d.name
  line : line_of tools.unicode node.source_location = some d.lineno

/-- If the artifact has a body, it cites a definition of the node's own name and line in the file of its key, from
the first decorator's `@` to the last line. -/
def CitesOwn (tools : GraphifyTools) (files : List (String × String)) (node : GraphNode) (artifact : CodeArtifactDraft) :
    Prop :=
  ∀ body, artifact.body_text = some body → ∃ text, (node.source_file, text) ∈ files ∧
    (∃ name, artifact.key = symbol_key node.source_file name) ∧
    ∃ d ∈ file_definitions tools node.source_file text, Names tools node d ∧
      artifact.span_start = some d.first_line ∧ artifact.span_end = some d.last_line ∧
      body = line_range text d.first_line d.last_line

/-- The definitions of a file that start on a line, as far as they end in the text. -/
def starting_on (tools : GraphifyTools) (path text : String) (line : Nat) : List Definition :=
  (file_definitions tools path text).filter fun d => d.lineno == line && decide (d.last_line ≤ (file_lines text).length)

/-- The definition a node is joined to: the only one on its line, or the first there with its name. -/
def joined_definition (tools : GraphifyTools) (text : String) (node : GraphNode) : Option Definition :=
  match line_of tools.unicode node.source_location with
  | none => none
  | some line =>
    match starting_on tools node.source_file text line with
    | [d] => some d
    | ds => ds.find? fun d => some d.name == label_name tools.unicode node.label

/-- The join is right: on the node's line starts a definition of its own name that ends where the joined one does, and
whose first decorator's `@` is on the line of the joined one's first decorator expression. -/
def JoinsOwn (tools : GraphifyTools) (files : List (String × String)) (node : GraphNode) : Prop :=
  is_file_node node = false → ∀ text, (node.source_file, text) ∈ files → ∀ d, joined_definition tools text node = some d →
    ∃ own ∈ file_definitions tools node.source_file text, Names tools node own ∧ own.first_line = d.first_reported ∧
      own.last_line = d.last_line

/-- If the artifact has a body, it cites a definition that starts on the node's line, the only one there or one of the
node's own name, from the first decorator to the last line. Where the first decorator's expression is below its `@`,
the first line is left open. -/
def CitesJoined (tools : GraphifyTools) (files : List (String × String)) (node : GraphNode) (artifact : CodeArtifactDraft) :
    Prop :=
  ∀ body, artifact.body_text = some body → ∃ text, (node.source_file, text) ∈ files ∧
    (∃ name, artifact.key = symbol_key node.source_file name) ∧
    ∃ d ∈ file_definitions tools node.source_file text,
      line_of tools.unicode node.source_location = some d.lineno ∧
      (starting_on tools node.source_file text d.lineno = [d] ∨ label_name tools.unicode node.label = some d.name) ∧
      ∃ first, artifact.span_start = some first ∧ artifact.span_end = some d.last_line ∧
        (d.first_line = d.first_reported → first = d.first_line) ∧ body = line_range text first d.last_line

section Spans

variable {tools : GraphifyTools} {files : List (String × String)}

/-- The span recovered for a definition. -/
def span_of (u : Unicode) (lines : List String) (d : Definition) : SymbolSpan where
  name := d.name
  def_line := d.lineno
  span_start := (node_span d).1
  span_end := d.last_line
  body_text := span_text lines (node_span d).1 d.last_line
  search_text := if build_search_text u d = "" then none else some (build_search_text u d)

theorem symbol_span_eq (u : Unicode) (lines : List String) (d : Definition) :
    symbol_span u lines d = if d.last_line ≤ lines.length then some (span_of u lines d) else none := by
  have hspan : node_span d = ((node_span d).1, d.last_line) := rfl
  rw [symbol_span, hspan]
  dsimp only
  by_cases hle : d.last_line ≤ lines.length
  · rw [if_neg (by omega), if_pos hle, span_of]
  · rw [if_pos (by omega), if_neg hle]

/-- The decorators of a placed definition start with the first. -/
theorem Definition.Placed.span_start {d : Definition} (h : d.Placed) : (node_span d).1 = d.first_reported := by
  obtain ⟨hordered, habove⟩ := h
  rw [node_span, Definition.first_reported]
  dsimp only
  have hmin : ∀ (rest : List Decorator) (start : Nat), (∀ decorator ∈ rest, start ≤ decorator.lineno) →
      rest.foldl (fun start decorator => min start decorator.lineno) start = start := by
    intro rest
    induction rest with
    | nil => exact fun _ _ => rfl
    | cons decorator rest ih =>
      intro start hall
      rw [List.forall_mem_cons] at hall
      rw [List.foldl_cons, min_eq_left hall.1]
      exact ih start hall.2
  cases hdecorators : d.decorators with
  | nil => rfl
  | cons first rest =>
    rw [hdecorators] at hordered habove
    rw [List.foldl_cons, min_eq_right (habove first List.mem_cons_self)]
    exact hmin rest first.lineno (List.pairwise_cons.1 hordered).1

/-- A range of lines that ends in the text does not reach the empty text behind the last line feed. -/
theorem span_text_eq {text : String} {first last : Nat} (h : last ≤ (file_lines text).length) :
    span_text (file_lines text) first last = line_range text first last := by
  have htake : (file_lines text).take last = (split_on '\n' text).take last := by
    rw [file_lines] at h ⊢
    split at h
    · rename_i hlast
      rw [if_pos hlast, List.dropLast_eq_take, List.take_take]
      rw [List.length_dropLast] at h
      rw [min_eq_left h]
    · rename_i hlast
      rw [if_neg hlast]
  rw [span_text, line_range, htake, List.drop_take]

/-- The spans recovered for a file, by the line on which they start. -/
theorem get?_recover_spans (tools : GraphifyTools) (path text : String) (line : Nat) :
    (recover_spans tools.unicode tools.definitions text (span_suffix path)).get? line =
      if starting_on tools path text line = [] then none
      else some ((starting_on tools path text line).map (span_of tools.unicode (file_lines text))) := by
  have hspans : ∀ tree : List Definition,
      (tree.filterMap (symbol_span tools.unicode (file_lines text))).filter (fun span => span.def_line == line) =
        (tree.filter fun d => d.lineno == line && decide (d.last_line ≤ (file_lines text).length)).map
          (span_of tools.unicode (file_lines text)) := by
    intro tree
    induction tree with
    | nil => rfl
    | cons d tree ih =>
      have hline : (span_of tools.unicode (file_lines text) d).def_line = d.lineno := rfl
      by_cases hfits : d.last_line ≤ (file_lines text).length
      · have hsome : symbol_span tools.unicode (file_lines text) d = some (span_of tools.unicode (file_lines text) d) := by
          rw [symbol_span_eq, if_pos hfits]
        rw [List.filterMap_cons_some hsome, List.filter_cons, hline, ih, List.filter_cons]
        simp only [hfits, decide_true, Bool.and_true]
        split
        · rw [List.map_cons]
        · rfl
      · have hnone : symbol_span tools.unicode (file_lines text) d = none := by
          rw [symbol_span_eq, if_neg hfits]
        rw [List.filterMap_cons_none hnone, ih, List.filter_cons]
        simp [hfits]
  rw [recover_spans, starting_on, file_definitions]
  split
  · rw [recover_python_spans]
    cases htree : tools.definitions text with
    | none => rfl
    | some tree =>
      dsimp only
      rw [Dict.get?_group (fun span : SymbolSpan => span.def_line), hspans, Option.getD_some]
      simp only [List.map_eq_nil_iff]
  · rfl

private theorem match_span_some (u : Unicode) (spans : Dict Nat (List SymbolSpan)) (line : Nat) (label : Option String) :
    match_span u (some spans) (some line) label =
      match spans.get? line with
      | some [candidate] => some candidate
      | some candidates => candidates.find? fun span => some span.name == label_name u label
      | none => none := rfl

theorem span_of_node_eq (hpaths : (files.map (·.1)).Nodup) {node : GraphNode} {text : String}
    (htext : (node.source_file, text) ∈ files) :
    span_of_node (tree_inputs tools files) node =
      (joined_definition tools text node).map (span_of tools.unicode (file_lines text)) := by
  have hfile : (files.foldl (fun (spans : Dict String (Dict Nat (List SymbolSpan))) file =>
      spans.set file.1 (recover_spans tools.unicode tools.definitions file.2 (span_suffix file.1))) []).get? node.source_file =
      some (recover_spans tools.unicode tools.definitions text (span_suffix node.source_file)) := by
    rw [Dict.foldl_set_eq_map (fun file : String × String => file.1) _ hpaths]
    apply Dict.get?_of_mem
    · rw [List.map_map]
      exact hpaths
    · exact List.mem_map.2 ⟨(node.source_file, text), htext, rfl⟩
  rw [span_of_node, tree_inputs, joined_definition]
  dsimp only
  rw [Option.bind_some, hfile]
  cases hline : line_of tools.unicode node.source_location with
  | none => rfl
  | some line =>
    rw [match_span_some, get?_recover_spans]
    dsimp only
    have hname : ((fun span : SymbolSpan => some span.name == label_name tools.unicode node.label) ∘
        span_of tools.unicode (file_lines text)) = fun d => some d.name == label_name tools.unicode node.label := rfl
    cases hds : starting_on tools node.source_file text line with
    | nil =>
      rw [if_pos rfl]
      rfl
    | cons d ds =>
      rw [if_neg (List.cons_ne_nil d ds), List.map_cons]
      cases ds with
      | nil => rfl
      | cons d' ds =>
        rw [List.map_cons]
        dsimp only
        rw [← List.map_cons, ← List.map_cons, List.find?_map, hname]

end Spans

section Bodies

variable {tools : GraphifyTools} {files : List (String × String)}

/-- A joined definition is one of the file's, starts on the node's line and ends in the text; it is the only one there
or has the node's name. -/
private theorem joined_mem {text : String} {node : GraphNode} {d : Definition} (h : joined_definition tools text node = some d) :
    d ∈ file_definitions tools node.source_file text ∧ d.last_line ≤ (file_lines text).length ∧
      line_of tools.unicode node.source_location = some d.lineno ∧
      (starting_on tools node.source_file text d.lineno = [d] ∨ label_name tools.unicode node.label = some d.name) := by
  rw [joined_definition] at h
  split at h
  · cases h
  · rename_i line hline
    have hmem : d ∈ starting_on tools node.source_file text line ∧
        (starting_on tools node.source_file text line = [d] ∨ label_name tools.unicode node.label = some d.name) := by
      split at h
      · rename_i d' hds
        obtain rfl := Option.some.inj h
        exact ⟨hds ▸ List.mem_cons_self, .inl hds⟩
      · have hname := List.find?_some h
        rw [beq_iff_eq] at hname
        exact ⟨List.mem_of_find?_eq_some h, .inr hname.symm⟩
    obtain ⟨hstarts, hown⟩ := hmem
    obtain ⟨hdefined, hfits⟩ := List.mem_filter.1 hstarts
    rw [Bool.and_eq_true, decide_eq_true_eq, beq_iff_eq] at hfits
    obtain ⟨rfl, hfits⟩ := hfits
    exact ⟨hdefined, hfits, hline, hown⟩

private theorem placed_of_mem (hplaced : ∀ text tree, tools.definitions text = some tree → ∀ d ∈ tree, d.Placed)
    {path text : String} {d : Definition} (h : d ∈ file_definitions tools path text) : d.Placed := by
  rw [file_definitions] at h
  split at h
  · cases htree : tools.definitions text with
    | none =>
      rw [htree] at h
      exact absurd h List.not_mem_nil
    | some tree =>
      rw [htree, Option.getD_some] at h
      exact hplaced text tree htree d h
  · exact absurd h List.not_mem_nil

private theorem tree_artifacts (tools : GraphifyTools) (files : List (String × String)) :
    (graphify_tree tools files).artifacts =
      (kept_nodes (tree_inputs tools files) (tools.extract files)).map
        (artifact_of_node (tree_inputs tools files)
          (file_node_ids (tree_inputs tools files) (tools.extract files).nodes)) := by
  rw [graphify_tree]
  split
  · rename_i hempty
    rw [List.isEmpty_iff] at hempty
    subst hempty
    have hnone : kept_nodes (tree_inputs tools []) (tools.extract []) = [] := by
      rw [kept_nodes, List.filter_eq_nil_iff]
      intro node _ hin
      simp [in_tree, tree_inputs] at hin
    rw [hnone]
    rfl
  · rw [map_extraction]
    dsimp only
    rw [map_nodes, foldl_map_node]
    rfl

/-- One node's artifact cites the node's own definition exactly where the join is right. -/
private theorem citesOwn_iff (hpaths : (files.map (·.1)).Nodup)
    (hplaced : ∀ text tree, tools.definitions text = some tree → ∀ d ∈ tree, d.Placed)
    (file_node_id : Dict String String) {node : GraphNode} (hnode : in_tree (tree_inputs tools files) node = true) :
    CitesOwn tools files node (artifact_of_node (tree_inputs tools files) file_node_id node) ↔ JoinsOwn tools files node := by
  have hfile : ∃ text, (node.source_file, text) ∈ files := by
    have hmem : node.source_file ∈ files.map (·.1) := by simpa [in_tree, tree_inputs] using hnode
    obtain ⟨file, hfile, hpath⟩ := List.mem_map.1 hmem
    exact ⟨file.2, by rw [← hpath]; exact hfile⟩
  obtain ⟨text, htext⟩ := hfile
  have hunique : ∀ other, (node.source_file, other) ∈ files → other = text := by
    intro other hother
    exact congrArg Prod.snd (List.inj_on_of_nodup_map hpaths hother htext rfl)
  cases hkind : is_file_node node with
  | true =>
    have hbody : (artifact_of_node (tree_inputs tools files) file_node_id node).body_text = none := by
      rw [artifact_of_node, if_pos hkind]
      rfl
    refine iff_of_true (fun body h => ?_) fun h => ?_
    · rw [hbody] at h
      cases h
    · rw [hkind] at h
      cases h
  | false =>
    have hnot : ¬is_file_node node = true := by rw [hkind]; exact Bool.false_ne_true
    rw [CitesOwn, artifact_of_node, if_neg hnot, symbol_artifact, span_of_node_eq hpaths htext]
    cases hjoined : joined_definition tools text node with
    | none =>
      refine iff_of_true (fun body h => ?_) fun _ other hother d hd => ?_
      · cases h
      · rw [hunique other hother, hjoined] at hd
        cases hd
    | some d =>
      obtain ⟨hdefined, hfits, -⟩ := joined_mem hjoined
      have hd := placed_of_mem hplaced hdefined
      rw [Option.map_some]
      dsimp only
      constructor
      · intro h _ other hother d' hd'
        rw [hunique other hother] at hd' ⊢
        rw [hjoined] at hd'
        obtain rfl := Option.some.inj hd'
        obtain ⟨text', htext', -, own, hown, hnames, hstart, hend, -⟩ := h _ rfl
        rw [hunique text' htext'] at hown
        refine ⟨own, hown, hnames, ?_, ?_⟩
        · rw [← hd.span_start]
          exact (Option.some.inj hstart).symm
        · exact (Option.some.inj hend).symm
      · intro h body hbody
        obtain ⟨own, hown, hnames, hfirst, hlast⟩ := h hkind text htext d hjoined
        refine ⟨text, htext, ⟨_, rfl⟩, own, hown, hnames, ?_, ?_, ?_⟩
        · rw [hfirst, ← hd.span_start]
          rfl
        · rw [hlast]
          rfl
        · rw [← Option.some.inj hbody, hfirst, hlast, ← hd.span_start]
          exact span_text_eq hfits

private theorem citesJoined (hpaths : (files.map (·.1)).Nodup)
    (hplaced : ∀ text tree, tools.definitions text = some tree → ∀ d ∈ tree, d.Placed)
    (file_node_id : Dict String String) {node : GraphNode} (hnode : in_tree (tree_inputs tools files) node = true) :
    CitesJoined tools files node (artifact_of_node (tree_inputs tools files) file_node_id node) := by
  have hmem : node.source_file ∈ files.map (·.1) := by simpa [in_tree, tree_inputs] using hnode
  obtain ⟨⟨path, text⟩, hfile, hpath⟩ := List.mem_map.1 hmem
  have htext : (node.source_file, text) ∈ files := by
    rw [← hpath]
    exact hfile
  intro body hbody
  cases hkind : is_file_node node with
  | true =>
    rw [artifact_of_node, if_pos hkind] at hbody
    cases hbody
  | false =>
    have hnot : ¬is_file_node node = true := by rw [hkind]; exact Bool.false_ne_true
    rw [artifact_of_node, if_neg hnot, symbol_artifact, span_of_node_eq hpaths htext] at hbody ⊢
    cases hjoined : joined_definition tools text node with
    | none =>
      rw [hjoined] at hbody
      cases hbody
    | some d =>
      obtain ⟨hdefined, hfits, hline, hown⟩ := joined_mem hjoined
      have hd := placed_of_mem hplaced hdefined
      rw [hjoined, Option.map_some] at hbody
      refine ⟨text, htext, ⟨_, rfl⟩, d, hdefined, hline, hown, (node_span d).1, rfl, rfl, fun hfirst => ?_, ?_⟩
      · rw [hd.span_start, hfirst]
      · rw [← Option.some.inj hbody]
        exact span_text_eq hfits

/-- Every symbol's body is the definition its node is joined to. -/
theorem bodies_cite_joined (tools : GraphifyTools) {files : List (String × String)} (hpaths : (files.map (·.1)).Nodup)
    (hplaced : ∀ text tree, tools.definitions text = some tree → ∀ d ∈ tree, d.Placed) :
    List.Forall₂ (CitesJoined tools files) (kept_nodes (tree_inputs tools files) (tools.extract files))
      (graphify_tree tools files).artifacts := by
  rw [tree_artifacts, List.forall₂_map_right_iff, List.forall₂_same]
  intro node hnode
  exact citesJoined hpaths hplaced _ (List.mem_filter.1 hnode).2

private theorem joins_of_cited (hpaths : (files.map (·.1)).Nodup)
    (hplaced : ∀ text tree, tools.definitions text = some tree → ∀ d ∈ tree, d.Placed)
    (h : List.Forall₂ (CitesOwn tools files) (kept_nodes (tree_inputs tools files) (tools.extract files))
      (graphify_tree tools files).artifacts) :
    ∀ node ∈ kept_nodes (tree_inputs tools files) (tools.extract files), JoinsOwn tools files node := by
  rw [tree_artifacts, List.forall₂_map_right_iff, List.forall₂_same] at h
  intro node hnode
  exact (citesOwn_iff hpaths hplaced _ (List.mem_filter.1 hnode).2).1 (h node hnode)

/-- Every symbol's body is its own definition exactly where every node is joined to its own. -/
theorem bodies_cited_iff (tools : GraphifyTools) {files : List (String × String)} (hpaths : (files.map (·.1)).Nodup)
    (hplaced : ∀ text tree, tools.definitions text = some tree → ∀ d ∈ tree, d.Placed) :
    List.Forall₂ (CitesOwn tools files) (kept_nodes (tree_inputs tools files) (tools.extract files))
        (graphify_tree tools files).artifacts ↔
      ∀ node ∈ kept_nodes (tree_inputs tools files) (tools.extract files), JoinsOwn tools files node := by
  refine ⟨joins_of_cited hpaths hplaced, fun h => ?_⟩
  rw [tree_artifacts, List.forall₂_map_right_iff, List.forall₂_same]
  intro node hnode
  exact (citesOwn_iff hpaths hplaced _ (List.mem_filter.1 hnode).2).2 (h node hnode)

/-- Tools for one file with one decorated definition `top` on line `lineno`, whose decorator has its `@` on the first
line; the extractor reports it under a label. -/
private def tools_of (label : String) (d : Definition) : GraphifyTools where
  unicode := .ascii
  functions _ := none
  definitions _ := some [d]
  extract _ :=
    { nodes := [⟨"m", some "m.py", "m.py", some "L1"⟩, ⟨"m_top", some label, "m.py", some ("L" ++ toString d.lineno)⟩] }

private def straight : Definition := { name := "top", lineno := 2, end_lineno := some 3, decorators := [⟨1, 1, some "cache"⟩] }

private def straight_files : List (String × String) := [("m.py", "@cache\ndef top():\n    return 1\n")]

/-- The decorator's expression stands below its `@`. -/
private def bracketed : Definition := { name := "top", lineno := 4, end_lineno := some 5, decorators := [⟨1, 2, some "cache"⟩] }

private def bracketed_files : List (String × String) := [("m.py", "@(\n    cache\n)\ndef top():\n    return 1\n")]

private theorem placed_of_one {d d' : Definition} {decorator : Decorator} (hd : d.decorators = [decorator])
    (hle : decorator.lineno ≤ d.lineno) (h : d' ∈ [d]) : d'.Placed := by
  rw [List.mem_singleton.1 h]
  refine ⟨?_, ?_⟩
  · rw [hd]
    exact List.pairwise_singleton _ _
  · rw [hd]
    exact List.forall_mem_singleton.2 hle

example : List.Forall₂ (CitesOwn (tools_of "top()" straight) straight_files)
    (kept_nodes (tree_inputs (tools_of "top()" straight) straight_files) ((tools_of "top()" straight).extract straight_files))
    (graphify_tree (tools_of "top()" straight) straight_files).artifacts := by
  apply (bodies_cited_iff (tools_of "top()" straight) (by decide +kernel) _).2
  · have hnodes : kept_nodes (tree_inputs (tools_of "top()" straight) straight_files)
        ((tools_of "top()" straight).extract straight_files) =
        [⟨"m", some "m.py", "m.py", some "L1"⟩, ⟨"m_top", some "top()", "m.py", some "L2"⟩] := by
      decide +kernel
    rw [hnodes]
    intro node hnode hkind text htext d hd
    rcases List.mem_cons.1 hnode with rfl | hnode
    · exact absurd hkind (by decide +kernel)
    · obtain rfl := List.mem_singleton.1 hnode
      obtain ⟨-, rfl⟩ := Prod.mk.inj (List.mem_singleton.1 htext)
      have hdefined := (joined_mem hd).1
      have hall : file_definitions (tools_of "top()" straight) "m.py" "@cache\ndef top():\n    return 1\n" = [straight] := by
        decide +kernel
      rw [hall] at hdefined
      obtain rfl := List.mem_singleton.1 hdefined
      exact ⟨straight, hall ▸ List.mem_cons_self, ⟨by decide +kernel, by decide +kernel⟩, rfl, rfl⟩
  · intro text tree htree d hd
    rw [← Option.some.inj htree] at hd
    exact placed_of_one rfl (by decide) hd

theorem decorated_body_joined : List.Forall₂ (CitesJoined (tools_of "top()" straight) straight_files)
    (kept_nodes (tree_inputs (tools_of "top()" straight) straight_files) ((tools_of "top()" straight).extract straight_files))
    (graphify_tree (tools_of "top()" straight) straight_files).artifacts := by
  apply bodies_cite_joined (tools_of "top()" straight) (by decide +kernel)
  intro text tree htree d hd
  rw [← Option.some.inj htree] at hd
  exact placed_of_one rfl (by decide) hd

private theorem not_cited {label : String} {d : Definition} {files : List (String × String)} {t : String}
    {decorator : Decorator} (hd : d.decorators = [decorator]) (hle : decorator.lineno ≤ d.lineno)
    (hpaths : (files.map (·.1)).Nodup) (htext : ("m.py", t) ∈ files)
    (hnode : ⟨"m_top", some label, "m.py", some ("L" ++ toString d.lineno)⟩ ∈
      kept_nodes (tree_inputs (tools_of label d) files) ((tools_of label d).extract files))
    (hkind : is_file_node ⟨"m_top", some label, "m.py", some ("L" ++ toString d.lineno)⟩ = false)
    (hjoined : joined_definition (tools_of label d) t ⟨"m_top", some label, "m.py", some ("L" ++ toString d.lineno)⟩ = some d)
    (hwrong : label_name .ascii (some label) ≠ some d.name ∨ d.first_line ≠ d.first_reported) :
    ¬List.Forall₂ (CitesOwn (tools_of label d) files)
      (kept_nodes (tree_inputs (tools_of label d) files) ((tools_of label d).extract files))
      (graphify_tree (tools_of label d) files).artifacts := by
  intro h
  have hjoins := joins_of_cited hpaths (fun _ tree htree d' hd' => placed_of_one hd hle (by
    rw [← Option.some.inj htree] at hd'
    exact hd')) h _ hnode
  obtain ⟨own, hown, hnames, hfirst, -⟩ := hjoins hkind t htext d hjoined
  have hsame : own = d := by
    rw [file_definitions] at hown
    split at hown
    · exact List.mem_singleton.1 hown
    · exact absurd hown List.not_mem_nil
  rw [hsame] at hnames hfirst
  rcases hwrong with hname | hline
  · exact hname hnames.name
  · exact hline hfirst

/-- A node of another name takes the body of the only definition on its line; and a span starts below the `@` of a
decorator in brackets. -/
theorem foreign_body_cited :
    (¬List.Forall₂ (CitesOwn (tools_of "other()" straight) straight_files)
      (kept_nodes (tree_inputs (tools_of "other()" straight) straight_files)
        ((tools_of "other()" straight).extract straight_files))
      (graphify_tree (tools_of "other()" straight) straight_files).artifacts) ∧
    ¬List.Forall₂ (CitesOwn (tools_of "top()" bracketed) bracketed_files)
      (kept_nodes (tree_inputs (tools_of "top()" bracketed) bracketed_files)
        ((tools_of "top()" bracketed).extract bracketed_files))
      (graphify_tree (tools_of "top()" bracketed) bracketed_files).artifacts := by
  constructor
  · apply not_cited (t := "@cache\ndef top():\n    return 1\n") rfl (by decide) (by decide +kernel)
      List.mem_cons_self (by decide +kernel) (by decide +kernel) (by decide +kernel)
    exact .inl (by decide +kernel)
  · apply not_cited (t := "@(\n    cache\n)\ndef top():\n    return 1\n") rfl (by decide) (by decide +kernel)
      List.mem_cons_self (by decide +kernel) (by decide +kernel) (by decide +kernel)
    exact .inr (by decide)

end Bodies

end AgenticKb.Graphify
