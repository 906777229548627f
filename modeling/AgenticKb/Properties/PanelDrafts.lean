import AgenticKb.Lib.History
import AgenticKb.Lib.Run
import AgenticKb.ReviewPanel.Panel

open AgenticKb.Lib

namespace AgenticKb.ReviewPanel

/-- The pull request of a key, as it was given or with its diff cut. -/
def OfKey (deps : PanelDependencies) (key : String) (pr : PRContext) : Prop :=
  ∃ pr_in : PRContext, draft_key pr_in.repo pr_in.number pr_in.head_sha = key ∧
    (pr = pr_in ∨ pr = load_pr pr_in deps.max_diff_chars)

/-- A review of a key's pull request that was read off a reply to the prompt of its lens. -/
def Replied (deps : PanelDependencies) (key : String) (panelist : PanelistReview) : Prop :=
  ∃ lens pr kb_context env, OfKey deps key pr ∧ panelist.lens = Lens.text lens ∧
    (complete_with_schema_repair deps env (reviewer_system deps lens) (reviewer_prompt pr kb_context) lens.text).2 =
      .ok panelist.review

/-- Reviews by the whole panel. Attempts that overlap may have added several for a lens. -/
structure Panelled (deps : PanelDependencies) (key : String) (reviews : List PanelistReview) : Prop where
  replies : ∀ panelist ∈ reviews, Replied deps key panelist
  lenses : ∀ lens ∈ PANEL_LENSES, ∃ panelist ∈ reviews, panelist.lens = lens.text

/-- A draft put together from reviews by the whole panel, and a synthesis of just these. -/
def FromPanel (deps : PanelDependencies) (key : String) (draft : ReviewDraft) : Prop :=
  ∃ (pr : PRContext) (kb_context : Option String) (reviews : List PanelistReview) (env : NodeEnv) (synthesis : ReviewFindingsV1),
    OfKey deps key pr ∧ Panelled deps key reviews ∧
    (synthesis_reply deps env { pr, kb_context, panelist_reviews := reviews }).2 = .ok synthesis ∧
    draft = build_draft pr (reconcile deps.parser.unicode reviews) synthesis deps.model_label
      (decide (kb_context.getD "" ≠ "")) env.now

/-- What the table and its readers promise. -/
structure DraftsHold (deps : PanelDependencies) (s : Panel) : Prop where
  /-- A key has one row, and every row is from a panel on the pull request of its key. -/
  rows : (s.drafts.map (·.1)).Nodup ∧ ∀ key row, s.drafts.get? key = some row →
    FromPanel deps key row.draft ∧ row = draft_row row.draft row.created_at
  /-- What a caller is given was read from the table under the key of its pull request. -/
  returned : AtEach (fun before entry => ∀ key source draft, entry = .returned key source draft →
    .read key draft ∈ before ∧ FromPanel deps key draft) s.log
  /-- Until its row is deleted, all who read a draft read the same one. -/
  agree : AtEach (fun before entry => ∀ key draft, entry = .read key draft → ∀ first between draft',
    before = first ++ .read key draft' :: between → .deleted key ∉ between → draft' = draft) s.log

section Values

variable {deps : PanelDependencies} {key : String} {known known' : ReviewDraft → Prop}

theorem truncated_diff_of_long {diff : String} {cap : Nat} (h : ¬diff.length ≤ cap) :
    truncated_diff diff cap = String.ofList (diff.toList.take cap) ++ TRUNCATION_NOTE cap := if_neg h

theorem append_ne_empty (s t : String) {u : String} (hu : u ≠ "") : s ++ t ++ u ≠ "" := by
  intro h
  rw [String.append_eq_empty_iff] at h
  exact hu h.2

theorem truncation_note_ne (cap : Nat) : TRUNCATION_NOTE cap ≠ "" := append_ne_empty _ _ (by decide)

/-- A diff that is cut is cut at the same place again, before the note. -/
theorem truncated_diff_truncated_diff (diff : String) (cap : Nat) :
    truncated_diff (truncated_diff diff cap) cap = truncated_diff diff cap := by
  by_cases hshort : diff.length ≤ cap
  · rw [truncated_diff, truncated_diff, if_pos hshort, if_pos hshort]
  · have htake : (diff.toList.take cap).length = cap := by
      rw [List.length_take, String.length_toList]
      omega
    have hnote : 0 < (TRUNCATION_NOTE cap).length := by
      rw [Nat.pos_iff_ne_zero, ne_eq, String.length_eq_zero_iff]
      exact truncation_note_ne cap
    rw [truncated_diff_of_long hshort, truncated_diff_of_long, String.toList_append, String.toList_ofList,
      List.take_append_of_le_length htake.ge, List.take_take, Nat.min_self]
    rw [String.length_append, String.length_ofList, htake, not_le]
    exact Nat.lt_add_of_pos_right hnote

theorem load_pr_load_pr (pr : PRContext) (max_diff_chars : Nat) :
    load_pr (load_pr pr max_diff_chars) max_diff_chars = load_pr pr max_diff_chars :=
  congrArg (fun diff => { pr with diff }) (truncated_diff_truncated_diff pr.diff max_diff_chars)

theorem OfKey.load_pr {pr : PRContext} (h : OfKey deps key pr) : OfKey deps key (load_pr pr deps.max_diff_chars) := by
  obtain ⟨pr_in, hkey, hpr⟩ := h
  refine ⟨pr_in, hkey, .inr ?_⟩
  cases hpr with
  | inl hgiven => rw [hgiven]
  | inr hcut => rw [hcut, load_pr_load_pr]

theorem OfKey.draft_key {pr : PRContext} (h : OfKey deps key pr) : draft_key pr.repo pr.number pr.head_sha = key := by
  obtain ⟨pr_in, hkey, hpr⟩ := h
  cases hpr with
  | inl hgiven => rw [hgiven, hkey]
  | inr hcut =>
    rw [hcut]
    exact hkey

theorem FromPanel.draft_key {draft : ReviewDraft} (h : FromPanel deps key draft) : draft.draft_key = key := by
  obtain ⟨pr, kb_context, reviews, env, synthesis, hpr, -, -, rfl⟩ := h
  exact hpr.draft_key

/-- The values of a thread, once some nodes have returned. -/
structure Progress (deps : PanelDependencies) (key : String) (known : ReviewDraft → Prop) (done : List PanelNode)
    (v : PanelState) : Prop where
  pr : OfKey deps key v.pr
  replies : ∀ panelist ∈ v.panelist_reviews, Replied deps key panelist
  lenses : ∀ lens, .review lens ∈ done → ∃ panelist ∈ v.panelist_reviews, panelist.lens = lens.text
  draft : ∀ draft, v.draft = some draft → FromPanel deps key draft
  reconciled : .reconcile ∈ done → v.draft.isSome = true
  stored : done.getLast? = some .store_draft → ∃ draft, v.draft = some draft ∧ known draft

/-- What a thread of a key is given. -/
inductive Genuine (deps : PanelDependencies) (key : String) (known : ReviewDraft → Prop) : PanelOffer → Prop
  | input {pr : PRContext} (hkey : draft_key pr.repo pr.number pr.head_sha = key) : Genuine deps key known (.input pr)
  | resume : Genuine deps key known .resume
  | delete : Genuine deps key known .delete
  | loaded {pr : PRContext} (kb_context : String) (hpr : OfKey deps key pr) :
    Genuine deps key known (.update .load_pr { pr := some pr, kb_context := some kb_context })
  | reviewed {lens : Lens} {panelist : PanelistReview} (hlens : panelist.lens = lens.text) (hreply : Replied deps key panelist) :
    Genuine deps key known (.update (.review lens) { panelist_reviews := [panelist] })
  | reconciled {merged : ReconciledReview} {synthesis : ReviewFindingsV1} {draft : ReviewDraft}
    (hpanel : FromPanel deps key draft) :
    Genuine deps key known (.update .reconcile
      { reconciled := some merged, synthesis := some synthesis, draft := some draft })
  | stored {draft : ReviewDraft} (hpanel : FromPanel deps key draft) (hknown : known draft) :
    Genuine deps key known (.update .store_draft { draft := some draft })

theorem Genuine.mono (himp : ∀ draft, known draft → known' draft) {offer : PanelOffer} (h : Genuine deps key known offer) :
    Genuine deps key known' offer := by
  cases h with
  | input hkey => exact .input hkey
  | resume => exact .resume
  | delete => exact .delete
  | loaded kb_context hpr => exact .loaded kb_context hpr
  | reviewed hlens hreply => exact .reviewed hlens hreply
  | reconciled hpanel => exact .reconciled hpanel
  | stored hpanel hknown => exact .stored hpanel (himp _ hknown)

theorem Progress.mono (himp : ∀ draft, known draft → known' draft) {done : List PanelNode} {v : PanelState}
    (h : Progress deps key known done v) : Progress deps key known' done v := by
  refine ⟨h.pr, h.replies, h.lenses, h.draft, h.reconciled, fun hlast => ?_⟩
  obtain ⟨draft, hdraft, hknown⟩ := h.stored hlast
  exact ⟨draft, hdraft, himp draft hknown⟩

theorem progress_started {pr : PRContext} (hkey : draft_key pr.repo pr.number pr.head_sha = key) :
    Progress deps key known [] { pr } := by
  constructor
  case pr => exact ⟨pr, hkey, .inl rfl⟩
  case replies => exact fun panelist hpanelist => absurd hpanelist List.not_mem_nil
  case lenses => exact fun lens hlens => absurd hlens List.not_mem_nil
  case draft => exact fun draft hdraft => by cases hdraft
  case reconciled => exact fun hdone => absurd hdone List.not_mem_nil
  case stored => exact fun hlast => by cases hlast

theorem Progress.accept {done : List PanelNode} {v : PanelState} (h : Progress deps key known done v) {pr : PRContext}
    (hkey : draft_key pr.repo pr.number pr.head_sha = key) : Progress deps key known done { v with pr } :=
  ⟨⟨pr, hkey, .inl rfl⟩, h.replies, h.lenses, h.draft, h.reconciled, h.stored⟩

/-- A node's update is reduced into the values. -/
theorem Progress.reduce {done : List PanelNode} {v : PanelState} (h : Progress deps key known done v) {node : PanelNode}
    {update : PanelUpdate} (hgenuine : Genuine deps key known (.update node update)) :
    Progress deps key known (done ++ [node]) (v.reduce update) := by
  have hlenses : ∀ lens, .review lens ∈ done → ∃ panelist ∈ v.panelist_reviews ++ update.panelist_reviews,
      panelist.lens = lens.text := by
    intro lens hlens
    obtain ⟨panelist, hpanelist, htext⟩ := h.lenses lens hlens
    exact ⟨panelist, List.mem_append_left _ hpanelist, htext⟩
  have hlast : ∀ n : PanelNode, (done ++ [node]).getLast? = some n → node = n := fun n hn => by
    rw [List.getLast?_append, List.getLast?_singleton, Option.some_or] at hn
    exact Option.some.inj hn
  cases hgenuine with
  | loaded kb_context hpr =>
    constructor
    case pr => exact hpr
    case replies => simpa only [PanelState.reduce, List.append_nil] using h.replies
    case lenses => exact fun lens hlens => hlenses lens ((List.mem_append.1 hlens).resolve_right (by simp))
    case draft => exact h.draft
    case reconciled => exact fun hdone => h.reconciled ((List.mem_append.1 hdone).resolve_right (by simp))
    case stored => exact fun hend => by cases hlast _ hend
  | @reviewed lens panelist hlens hreply =>
    constructor
    case pr => exact h.pr
    case replies =>
      intro other hother
      cases List.mem_append.1 hother with
      | inl hold => exact h.replies other hold
      | inr hnew => exact List.mem_singleton.1 hnew ▸ hreply
    case lenses =>
      intro other hother
      cases List.mem_append.1 hother with
      | inl hold => exact hlenses other hold
      | inr hnew =>
        obtain rfl := PanelNode.review.inj (List.mem_singleton.1 hnew)
        exact ⟨panelist, List.mem_append_right _ List.mem_cons_self, hlens⟩
    case draft => exact h.draft
    case reconciled => exact fun hdone => h.reconciled ((List.mem_append.1 hdone).resolve_right (by simp))
    case stored => exact fun hend => by cases hlast _ hend
  | reconciled hpanel =>
    constructor
    case pr => exact h.pr
    case replies => simpa only [PanelState.reduce, List.append_nil] using h.replies
    case lenses => exact fun lens hlens => hlenses lens ((List.mem_append.1 hlens).resolve_right (by simp))
    case draft => exact fun draft hdraft => Option.some.inj hdraft ▸ hpanel
    case reconciled => exact fun _ => rfl
    case stored => exact fun hend => by cases hlast _ hend
  | stored hpanel hknown =>
    constructor
    case pr => exact h.pr
    case replies => simpa only [PanelState.reduce, List.append_nil] using h.replies
    case lenses => exact fun lens hlens => hlenses lens ((List.mem_append.1 hlens).resolve_right (by simp))
    case draft => exact fun draft hdraft => Option.some.inj hdraft ▸ hpanel
    case reconciled => exact fun _ => rfl
    case stored => exact fun _ => ⟨_, rfl, hknown⟩

/-- Whatever values an engine builds of what a thread was given. -/
theorem progress_of_built {offers : List PanelOffer} (hgiven : ∀ offer ∈ offers, Genuine deps key known offer)
    {done : List PanelNode} {v : PanelState} (h : build_panel_graph.Built offers done v) : Progress deps key known done v := by
  induction h with
  | started hinput =>
    cases hgiven _ hinput with
    | input hkey => exact progress_started hkey
  | merged hinput _ ih =>
    cases hgiven _ hinput with
    | input hkey => exact ih.accept hkey
  | reduced hupdate _ ih => exact ih.reduce (hgiven _ hupdate)

theorem except_map_ok {ε α β : Type*} {f : α → β} {x : Except ε α} {b : β} (h : x.map f = .ok b) :
    ∃ a, x = .ok a ∧ f a = b := by
  cases x with
  | error exc => cases h
  | ok a => exact ⟨a, rfl, Except.ok.inj h⟩

/-- `reconcile` waits for the reviewers. -/
theorem reviewers_done {done : List PanelNode} (h : build_panel_graph.Waited .reconcile done) : REVIEWER_NODES ⊆ done := by
  obtain ⟨edge, hedge, hnode, hdone⟩ := h
  have hall : ∀ edge ∈ build_panel_graph.edges, edge.2 = .reconcile → edge.1 = REVIEWER_NODES := by decide
  exact hall edge hedge hnode ▸ hdone

theorem reconcile_done {done : List PanelNode} (h : build_panel_graph.Waited .store_draft done) : .reconcile ∈ done := by
  obtain ⟨edge, hedge, hnode, hdone⟩ := h
  have hall : ∀ edge ∈ build_panel_graph.edges, edge.2 = .store_draft → edge.1 = [.reconcile] := by decide
  exact hdone (hall edge hedge hnode ▸ List.mem_cons_self)

/-- What a node returns, of values that it may be given. -/
theorem genuine_run_node {done : List PanelNode} {v : PanelState} (h : Progress deps key known done v) {node : PanelNode}
    (hwaited : build_panel_graph.Waited node done) {env : NodeEnv} {calls : List Call} {update : PanelUpdate}
    (hrun : run_node deps env node v = some (calls, .ok update)) : Genuine deps key known (.update node update) := by
  cases node with
  | load_pr =>
    have hran : some (([] : List Call), load_pr_node deps env v) = some (calls, .ok update) := hrun
    obtain ⟨-, hresult⟩ := Prod.mk.inj (Option.some.inj hran)
    rw [load_pr_node] at hresult
    obtain ⟨kb_context, -, rfl⟩ := except_map_ok hresult
    exact .loaded kb_context h.pr.load_pr
  | review lens =>
    obtain ⟨review, hreply, rfl⟩ := except_map_ok (congrArg Prod.snd (Option.some.inj hrun))
    exact .reviewed rfl ⟨lens, v.pr, v.kb_context.getD "", env, h.pr, rfl, hreply⟩
  | reconcile =>
    obtain ⟨synthesis, hreply, rfl⟩ := except_map_ok (congrArg Prod.snd (Option.some.inj hrun))
    refine .reconciled ⟨v.pr, v.kb_context, v.panelist_reviews, env, synthesis, h.pr, ⟨h.replies, fun lens hlens => ?_⟩,
      hreply, rfl⟩
    exact h.lenses lens (reviewers_done hwaited (List.mem_map_of_mem hlens))
  | store_draft => cases hrun

/-- `store_draft` is given a draft of the panel. -/
theorem Progress.fromPanel {done : List PanelNode} {v : PanelState} (h : Progress deps key known done v)
    (hwaited : build_panel_graph.Waited .store_draft done) : ∃ draft, v.draft = some draft ∧ FromPanel deps key draft := by
  obtain ⟨draft, hdraft⟩ := Option.isSome_iff_exists.1 (h.reconciled (reconcile_done hwaited))
  exact ⟨draft, hdraft, h.draft draft hdraft⟩

/-- Only `store_draft` has no node after it. -/
theorem last_node {n : PanelNode} (h : build_panel_graph.Last n) : n = .store_draft := by
  have hall : ∀ n ∈ build_panel_graph.nodes, (∀ edge ∈ build_panel_graph.edges, n ∉ edge.1) → n = .store_draft := by decide
  exact hall n h.1 h.2

end Values

section Steps

variable {deps : PanelDependencies} {engine : PanelEngine} {s s' : Panel} {t : ThreadId}

/-- A draft was read from the table under a key. -/
def Panel.known (s : Panel) (key : String) (draft : ReviewDraft) : Prop := .read key draft ∈ s.log

/-- What every step of the panel keeps. -/
structure Sound (deps : PanelDependencies) (s : Panel) : Prop extends DraftsHold deps s where
  given : ∀ t offer, (t, offer) ∈ s.given → Genuine deps t.key (s.known t.key) offer
  tasks : ∀ task ∈ s.tasks, ∃ done, Progress deps task.thread.key (s.known task.thread.key) done task.values ∧
    build_panel_graph.Waited task.node done
  reads : ∀ key draft, s.known key draft → FromPanel deps key draft
  /-- What was read is still there, unless it was deleted. -/
  standing : ∀ before between key draft, s.log = before ++ .read key draft :: between → .deleted key ∉ between →
    ∃ row, s.drafts.get? key = some row ∧ row.draft = draft

theorem sound_new : Sound deps {} := by
  constructor
  case toDraftsHold => exact ⟨⟨List.nodup_nil, fun key row h => by cases h⟩, atEach_nil, atEach_nil⟩
  case given => exact fun t offer h => absurd h List.not_mem_nil
  case tasks => exact fun task h => absurd h List.not_mem_nil
  case reads => exact fun key draft h => absurd h List.not_mem_nil
  case standing => exact fun before between key draft h => absurd h.symm (by simp)

/-- What the attempts come to matters to no draft, and a task may end. -/
theorem Sound.congr (h : Sound deps s) (hdrafts : s'.drafts = s.drafts) (hgiven : s'.given = s.given)
    (hlog : s'.log = s.log) (htasks : s'.tasks ⊆ s.tasks) : Sound deps s' := by
  have hknown : ∀ key, s'.known key = s.known key := fun key => by
    funext draft
    rw [Panel.known, hlog, Panel.known]
  constructor
  case toDraftsHold =>
    exact ⟨by rw [hdrafts]; exact h.rows, by rw [hlog]; exact h.returned, by rw [hlog]; exact h.agree⟩
  case given =>
    intro t offer hoffer
    rw [hgiven] at hoffer
    rw [hknown]
    exact h.given t offer hoffer
  case tasks =>
    intro task htask
    rw [hknown]
    exact h.tasks task (htasks htask)
  case reads =>
    intro key draft
    rw [hknown]
    exact h.reads key draft
  case standing =>
    rw [hlog, hdrafts]
    exact h.standing

theorem Sound.set_stage (h : Sound deps s) (n : Nat) (stage : Stage) : Sound deps (s.set_stage n stage) :=
  h.congr rfl rfl rfl (List.Subset.refl _)

theorem Sound.end_task (h : Sound deps s) (i : Nat) : Sound deps (s.end_task i) :=
  h.congr rfl rfl rfl fun _ htask => List.mem_of_mem_eraseIdx htask

theorem Sound.offer (h : Sound deps s) {offer : PanelOffer} (hgenuine : Genuine deps t.key (s.known t.key) offer) :
    Sound deps (s.offer t offer) := by
  constructor
  case toDraftsHold => exact ⟨h.rows, h.returned, h.agree⟩
  case given =>
    intro t' offer' hoffer
    cases List.mem_append.1 hoffer with
    | inl hold => exact h.given t' offer' hold
    | inr hnew =>
      obtain ⟨rfl, rfl⟩ := Prod.mk.inj (List.mem_singleton.1 hnew)
      exact hgenuine
  case tasks => exact h.tasks
  case reads => exact h.reads
  case standing => exact h.standing

theorem Panel.mem_offers {offer : PanelOffer} : offer ∈ s.offers t ↔ (t, offer) ∈ s.given := by
  rw [Panel.offers, List.mem_filterMap]
  constructor
  · intro h
    obtain ⟨entry, hentry, hoffer⟩ := h
    split at hoffer
    · rename_i ht
      obtain rfl := Option.some.inj hoffer
      exact ht ▸ hentry
    · cases hoffer
  · exact fun h => ⟨(t, offer), h, if_pos rfl⟩

/-- All that an engine may make of a thread. -/
theorem Sound.progress (h : Sound deps s) {done : List PanelNode} {v : PanelState}
    (hbuilt : build_panel_graph.Built (s.offers t) done v) : Progress deps t.key (s.known t.key) done v :=
  progress_of_built (fun offer hoffer => h.given t offer (Panel.mem_offers.1 hoffer)) hbuilt

/-- The log grows by an entry that is no deletion: a row that is there is read, or a draft that was read is returned. -/
theorem Sound.record (h : Sound deps s) {entry : Entry}
    (hread : ∀ key draft, entry = .read key draft → ∃ row, s.drafts.get? key = some row ∧ row.draft = draft)
    (hreturned : ∀ key source draft, entry = .returned key source draft → s.known key draft) :
    Sound deps (s.record [entry]) := by
  have hgrows : ∀ key draft, s.known key draft → (s.record [entry]).known key draft := fun key draft hknown =>
    List.mem_append_left _ hknown
  constructor
  case toDraftsHold =>
    refine ⟨h.rows, atEach_append_singleton.2 ⟨h.returned, ?_⟩, atEach_append_singleton.2 ⟨h.agree, ?_⟩⟩
    · intro key source draft heq
      have hknown := hreturned key source draft heq
      exact ⟨hknown, h.reads key draft hknown⟩
    · intro key draft heq first between draft' hlog hdeleted
      obtain ⟨row, hrow, hdraft⟩ := hread key draft heq
      obtain ⟨row', hrow', hdraft'⟩ := h.standing first between key draft' hlog hdeleted
      obtain rfl := Option.some.inj (hrow.symm.trans hrow')
      rw [← hdraft, ← hdraft']
  case given => exact fun t offer hoffer => (h.given t offer hoffer).mono (hgrows t.key)
  case tasks =>
    intro task htask
    obtain ⟨done, hprogress, hwaited⟩ := h.tasks task htask
    exact ⟨done, hprogress.mono (hgrows task.thread.key), hwaited⟩
  case reads =>
    intro key draft hknown
    cases List.mem_append.1 hknown with
    | inl hold => exact h.reads key draft hold
    | inr hnew =>
      obtain ⟨row, hrow, rfl⟩ := hread key draft (List.mem_singleton.1 hnew).symm
      exact (h.rows.2 key row hrow).1
  case standing =>
    intro before between key draft hlog hdeleted
    cases append_singleton_eq hlog with
    | inl hlast => exact hread key draft hlast.2.2
    | inr hrest =>
      obtain ⟨rest, rfl, hrecord⟩ := hrest
      exact h.standing before rest key draft hrecord fun hmem => hdeleted (List.mem_append_left _ hmem)

theorem Sound.delete (h : Sound deps s) (key : String) :
    Sound deps (({ s with drafts := s.drafts.del key } : Panel).record [.deleted key]) := by
  have hgrows : ∀ key' draft, s.known key' draft →
      (({ s with drafts := s.drafts.del key } : Panel).record [.deleted key]).known key' draft := fun key' draft hknown =>
    List.mem_append_left _ hknown
  have hget : ∀ key' row, (s.drafts.del key).get? key' = some row → s.drafts.get? key' = some row := by
    intro key' row hrow
    rw [Dict.get?_del] at hrow
    split at hrow
    · cases hrow
    · exact hrow
  constructor
  case toDraftsHold =>
    refine ⟨⟨?_, fun key' row hrow => h.rows.2 key' row (hget key' row hrow)⟩,
      atEach_append_singleton.2 ⟨h.returned, ?_⟩, atEach_append_singleton.2 ⟨h.agree, ?_⟩⟩
    · exact h.rows.1.sublist (List.filter_sublist.map _)
    · exact fun key' source draft heq => by cases heq
    · exact fun key' draft heq => by cases heq
  case given => exact fun t offer hoffer => (h.given t offer hoffer).mono (hgrows t.key)
  case tasks =>
    intro task htask
    obtain ⟨done, hprogress, hwaited⟩ := h.tasks task htask
    exact ⟨done, hprogress.mono (hgrows task.thread.key), hwaited⟩
  case reads =>
    intro key' draft hknown
    cases List.mem_append.1 hknown with
    | inl hold => exact h.reads key' draft hold
    | inr hnew => cases List.mem_singleton.1 hnew
  case standing =>
    intro before between key' draft hlog hdeleted
    cases append_singleton_eq hlog with
    | inl hlast => cases hlast.2.2
    | inr hrest =>
      obtain ⟨rest, rfl, hrecord⟩ := hrest
      obtain ⟨row, hrow, hdraft⟩ := h.standing before rest key' draft hrecord fun hmem => hdeleted (List.mem_append_left _ hmem)
      have hne : key' ≠ key := by
        rintro rfl
        exact hdeleted (List.mem_append_right _ List.mem_cons_self)
      exact ⟨row, by rw [← hrow]; exact (Dict.get?_del).trans (if_neg hne), hdraft⟩

/-- A draft from the panel is inserted, where there is none. -/
theorem Sound.insert (h : Sound deps s) {key : String} {draft : ReviewDraft} (hpanel : FromPanel deps key draft) (now : Timestamp) :
    Sound deps { s with drafts := insert_draft s.drafts draft now } := by
  have hkept : ∀ key' row, s.drafts.get? key' = some row → (insert_draft s.drafts draft now).get? key' = some row := by
    intro key' row hrow
    rw [insert_draft, Dict.get?_setdefault]
    split
    · rename_i heq
      rw [← heq, hrow, Option.getD_some]
    · exact hrow
  constructor
  case toDraftsHold =>
    refine ⟨⟨Dict.nodup_setdefault h.rows.1, fun key' row hrow => ?_⟩, h.returned, h.agree⟩
    rw [insert_draft, Dict.get?_setdefault] at hrow
    split at hrow
    · rename_i heq
      cases hold : s.drafts.get? draft.draft_key with
      | none =>
        rw [hold] at hrow
        obtain rfl := Option.some.inj hrow
        exact ⟨by rw [heq, hpanel.draft_key]; exact hpanel, rfl⟩
      | some row' =>
        rw [hold] at hrow
        obtain rfl := Option.some.inj hrow
        exact h.rows.2 key' row' (heq ▸ hold)
    · exact h.rows.2 key' row hrow
  case given => exact h.given
  case tasks => exact h.tasks
  case reads => exact h.reads
  case standing =>
    intro before between key' draft' hlog hdeleted
    obtain ⟨row, hrow, hdraft⟩ := h.standing before between key' draft' hlog hdeleted
    exact ⟨row, hkept key' row hrow, hdraft⟩

theorem Sound.get_stored_draft (h : Sound deps s) (checkpointer : Option Nat) (pr : PRContext) :
    Sound deps (s.get_stored_draft checkpointer pr) := by
  unfold Panel.get_stored_draft
  dsimp only
  split
  · rename_i row hrow
    have hread : Sound deps (s.record [.read (draft_key pr.repo pr.number pr.head_sha) row.draft]) := by
      refine h.record (fun key draft heq => ?_) fun key source draft heq => by cases heq
      obtain ⟨rfl, rfl⟩ := Entry.read.inj heq
      exact ⟨row, hrow, rfl⟩
    refine hread.record (fun key draft heq => by cases heq) fun key source draft heq => ?_
    obtain ⟨rfl, -, rfl⟩ := Entry.returned.inj heq
    exact List.mem_append_right _ List.mem_cons_self
  · exact h.congr rfl rfl rfl (List.Subset.refl _)

theorem Sound.ainvoke (h : Sound deps s) {n : Nat} (hstep : s.ainvoke n = some s') : Sound deps s' := by
  obtain ⟨a, -, hstep⟩ := Option.bind_eq_some_iff.1 hstep
  split at hstep
  · rename_i resuming hstage
    obtain rfl := Option.some.inj hstep
    refine (h.offer ?_).set_stage n _
    cases resuming with
    | true => exact .resume
    | false => exact .input rfl
  · cases hstep

/-- The engine runs a node on values that it may give it. -/
theorem Sound.hand (h : Sound deps s) (hengine : engine.Promises build_panel_graph) {n : Nat} {node : PanelNode}
    {values : PanelState} (hallows : s.Allows engine (.hand n node values)) (hstep : s.hand n node values = some s') :
    Sound deps s' := by
  obtain ⟨a, ha, hstep⟩ := Option.bind_eq_some_iff.1 hstep
  split at hstep
  · obtain rfl := Option.some.inj hstep
    obtain ⟨done, hbuilt, hwaited⟩ := hengine.hands _ _ _ (hallows a ha)
    constructor
    case toDraftsHold => exact ⟨h.rows, h.returned, h.agree⟩
    case given => exact h.given
    case tasks =>
      intro task htask
      cases List.mem_append.1 htask with
      | inl hold => exact h.tasks task hold
      | inr hnew =>
        obtain rfl := List.mem_singleton.1 hnew
        exact ⟨done, h.progress hbuilt, hwaited⟩
    case reads => exact h.reads
    case standing => exact h.standing
  · cases hstep

theorem Sound.run (h : Sound deps s) {i : Nat} {env : NodeEnv} (hstep : s.run deps i env = some s') : Sound deps s' := by
  obtain ⟨task, htask, hstep⟩ := Option.bind_eq_some_iff.1 hstep
  obtain ⟨result, hresult, hstep⟩ := Option.map_eq_some_iff.1 hstep
  subst hstep
  split
  · rename_i update hupdate
    obtain ⟨done, hprogress, hwaited⟩ := h.tasks task (List.mem_of_getElem? htask)
    have hran : run_node deps env task.node task.values = some (result.1, .ok update) := by rw [hresult, ← hupdate]
    exact (h.end_task i).offer (genuine_run_node hprogress hwaited hran)
  · exact (h.end_task i).set_stage _ _

theorem Sound.insert_step (h : Sound deps s) {i : Nat} {now : Timestamp} (hstep : s.insert i now = some s') :
    Sound deps s' := by
  obtain ⟨task, htask, hstep⟩ := Option.bind_eq_some_iff.1 hstep
  split at hstep
  · rename_i hready
    obtain ⟨done, hprogress, hwaited⟩ := h.tasks task (List.mem_of_getElem? htask)
    rw [hready.1] at hwaited
    obtain ⟨draft, hdraft, hpanel⟩ := hprogress.fromPanel hwaited
    rw [hdraft] at hstep
    obtain rfl := Option.some.inj hstep
    have hinserted := h.insert hpanel now
    refine { hinserted with tasks := fun other hother => ?_ }
    cases List.mem_or_eq_of_mem_set hother with
    | inl hold => exact h.tasks other hold
    | inr hnew =>
      rw [hnew]
      exact h.tasks task (List.mem_of_getElem? htask)
  · cases hstep

theorem Sound.fetch (h : Sound deps s) {i : Nat} (hstep : s.fetch i = some s') : Sound deps s' := by
  obtain ⟨task, htask, hstep⟩ := Option.bind_eq_some_iff.1 hstep
  obtain ⟨draft, hdraft, hstep⟩ := Option.bind_eq_some_iff.1 hstep
  split at hstep
  · rename_i hready
    split at hstep
    · obtain rfl := Option.some.inj hstep
      exact (h.end_task i).set_stage _ _
    · rename_i row hrow
      obtain rfl := Option.some.inj hstep
      obtain ⟨done, hprogress, hwaited⟩ := h.tasks task (List.mem_of_getElem? htask)
      have hkey : draft.draft_key = task.thread.key := (hprogress.draft draft hdraft).draft_key
      have hread : Sound deps ((s.end_task i).record [.read draft.draft_key row.draft]) := by
        refine (h.end_task i).record (fun key draft' heq => ?_) fun key source draft' heq => by cases heq
        obtain ⟨rfl, rfl⟩ := Entry.read.inj heq
        exact ⟨row, hrow, rfl⟩
      rw [hready.1] at hwaited
      refine hread.offer (.stored (hkey ▸ (h.rows.2 _ row hrow).1) ?_)
      rw [hkey]
      exact List.mem_append_right _ List.mem_cons_self
  · cases hstep

/-- An attempt ends with a draft that was read. -/
theorem Sound.finish (h : Sound deps s) (hengine : engine.Promises build_panel_graph) {n : Nat} {values : PanelState}
    (hallows : s.Allows engine (.finish n values)) (hstep : s.finish n values = some s') : Sound deps s' := by
  obtain ⟨a, ha, hstep⟩ := Option.bind_eq_some_iff.1 hstep
  split at hstep
  · rename_i resuming draft hstage hdraft
    obtain rfl := Option.some.inj hstep
    refine Sound.set_stage ?_ n _
    refine h.record (fun key draft' heq => by cases heq) fun key source draft' heq => ?_
    obtain ⟨rfl, -, rfl⟩ := Entry.returned.inj heq
    obtain ⟨done, hbuilt, last, hlast, hnode⟩ := hengine.returns _ _ (hallows a ha)
    obtain rfl := last_node hnode
    obtain ⟨draft', hdraft', hknown⟩ := (h.progress hbuilt).stored hlast
    obtain rfl := Option.some.inj (hdraft.symm.trans hdraft')
    exact hknown
  · obtain rfl := Option.some.inj hstep
    exact h.set_stage n _
  · cases hstep

theorem Sound.step (h : Sound deps s) (hengine : engine.Promises build_panel_graph) {e : Event}
    (hallows : s.Allows engine e) (hstep : s.step deps e = some s') : Sound deps s' := by
  cases e with
  | get_stored_draft checkpointer pr => exact Option.some.inj hstep ▸ h.get_stored_draft checkpointer pr
  | aget_state n next has_values =>
    obtain ⟨a, -, hstep⟩ := Option.bind_eq_some_iff.1 hstep
    split at hstep
    · exact Option.some.inj hstep ▸ h.set_stage n _
    · cases hstep
  | adelete_thread n =>
    obtain ⟨a, -, hstep⟩ := Option.bind_eq_some_iff.1 hstep
    split at hstep
    · exact Option.some.inj hstep ▸ (h.offer .delete).set_stage n _
    · cases hstep
  | ainvoke n => exact h.ainvoke hstep
  | hand n node values => exact h.hand hengine hallows hstep
  | run i env => exact h.run hstep
  | insert i now => exact h.insert_step hstep
  | fetch i => exact h.fetch hstep
  | finish n values => exact h.finish hengine hallows hstep
  | stop n => exact Option.some.inj hstep ▸ h.set_stage n _
  | delete key => exact Option.some.inj hstep ▸ h.delete key

/-- A run of the panel with an engine. -/
structure Ran (deps : PanelDependencies) (engine : PanelEngine) (events : List Event) (s : Panel) : Prop where
  steps : events.foldlM (Panel.step deps) {} = some s
  allowed : AlongM (Panel.step deps) (Panel.Allows engine) {} events

theorem sound_run (hengine : engine.Promises build_panel_graph) {events : List Event} (hran : Ran deps engine events s) :
    Sound deps s :=
  hran.allowed.invariant (fun _ _ _ _ h hallows hstep => h.step hengine hallows hstep) sound_new hran.steps

end Steps

section Overlap

/-- A pull request without a diff. -/
def small_pr : PRContext :=
  { repo := "acme/shop", number := 7, head_sha := "0f3c", title := "", body := "", author := "kim", diff := "" }

def approving : String := "\x7b\"verdict\": \"approve\"\x7d"

def finding_one : String := "\x7b\"verdict\": \"request_changes\", \"findings\": [\x7b\"severity\": \"major\", " ++
  "\"finding\": \"Off by one\", \"evidence_ids\": [\"cart.py\"]\x7d]\x7d"

/-- Services that read two replies. -/
def panel_deps : PanelDependencies where
  parser :=
    { unicode := .ascii
      json_loads := fun text =>
        if text = approving then .ok (.obj [("verdict", .str "approve")])
        else if text = finding_one then
          .ok (.obj [("verdict", .str "request_changes"),
            ("findings", .arr [.obj [("severity", .str "major"), ("finding", .str "Off by one"), ("evidence_ids", .arr [.str "cart.py"])]])])
        else .error "Expecting value: line 1 column 1 (char 0)"
      validation_error := fun _ => "Field required" }
  prompts := { reviewers := fun lens => "Review for " ++ lens.text ++ ".", synthesizer := "Sum up." }

/-- A model that always replies the same, and an empty knowledge base. -/
def replying (reply : String) : NodeEnv := { complete := fun _ _ => .ok reply, search := fun _ => .ok "", now := 3 }

def small_key : String := draft_key small_pr.repo small_pr.number small_pr.head_sha

def approval : ReviewFindingsV1 := { verdict := .approve, findings := [], open_questions := [] }

def found_one : ReviewFindingsV1 where
  verdict := .request_changes
  findings := [{ severity := .major, finding := "Off by one", evidence_ids := ["cart.py"] }]
  open_questions := []

/-- The reviews of one round, in the order in which the reviewers reply. -/
def round : List PanelistReview :=
  [{ lens := "security", review := approval }, { lens := "bug", review := found_one },
    { lens := "quality", review := approval }, { lens := "test_coverage", review := approval }]

/-- The values of the thread after so many reviews. -/
def reviewed (reviews : List PanelistReview) : PanelState :=
  { pr := small_pr, kb_context := some "", panelist_reviews := reviews }

def small_draft (reviews : List PanelistReview) : ReviewDraft :=
  build_draft small_pr (reconcile .ascii reviews) approval "unconfigured" false 3

/-- The values of the thread when these reviews are reconciled. -/
def drafted (reviews : List PanelistReview) : PanelState :=
  { reviewed reviews with
    reconciled := some (reconcile .ascii reviews), synthesis := some approval, draft := some (small_draft reviews) }

/-- The reviewers of an attempt, with the reviews that are there before. -/
def review_round (n : Nat) (before : List PanelistReview) : List Event :=
  [.hand n (.review .bug) (reviewed before), .hand n (.review .security) (reviewed before),
    .hand n (.review .quality) (reviewed before), .hand n (.review .test_coverage) (reviewed before),
    .run 1 (replying approving), .run 0 (replying finding_one), .run 0 (replying approving), .run 0 (replying approving)]

/-- Two attempts find no draft and no thread. When the reviewers of the one have replied, the other one's input is merged
into the thread, and the first attempt is killed; the next call is given the draft. -/
def overlapping_run : List Event :=
  [.get_stored_draft (some 0) small_pr, .get_stored_draft (some 0) small_pr, .aget_state 0 [] false, .aget_state 1 [] false,
    .ainvoke 0, .hand 0 .load_pr { pr := small_pr }, .run 0 (replying "")] ++ review_round 0 [] ++
  [.ainvoke 1, .hand 1 .load_pr (reviewed round), .run 0 (replying ""), .stop 0] ++ review_round 1 round ++
  [.hand 1 .reconcile (reviewed (round ++ round)), .run 0 (replying approving),
    .hand 1 .store_draft (drafted (round ++ round)), .insert 0 5, .fetch 0, .finish 1 (drafted (round ++ round)),
    .get_stored_draft (some 0) small_pr]

theorem ran_overlapping : ∃ s row, Ran panel_deps build_panel_graph.in_order overlapping_run s ∧
    s.drafts.get? small_key = some row ∧ row.draft = small_draft (round ++ round) := by
  have hrun : (overlapping_run.foldlM (Panel.step panel_deps) {}).map (fun s => (s.drafts.get? small_key).map (·.draft)) =
      some (some (small_draft (round ++ round))) := by
    decide +kernel
  obtain ⟨s, hs, hget⟩ := Option.map_eq_some_iff.1 hrun
  obtain ⟨row, hrow, hdraft⟩ := Option.map_eq_some_iff.1 hget
  exact ⟨s, row, ⟨hs, by decide +kernel⟩, hrow, hdraft⟩

end Overlap

end AgenticKb.ReviewPanel
