import Mathlib
import AgenticKb.Lib.Ranking
import AgenticKb.Properties.PanelDrafts
import AgenticKb.Properties.PanelReconciliation

open AgenticKb.Lib

namespace AgenticKb.ReviewPanel

/-- A draft holds what the reviews of a panel say, and no finding without its ground. -/
structure Carries (reviews : List PanelistReview) (draft : ReviewDraft) : Prop where
  /-- Every finding of a review is in one of the draft, with all its evidence. -/
  carried : ∀ panelist ∈ reviews, ∀ f ∈ panelist.review.findings, ∃ d ∈ draft.findings,
    panelist.lens ∈ d.lenses ∧ ∀ id ∈ f.evidence_ids, id ∈ d.evidence_ids
  /-- Every finding of the draft has the words of one in a review, evidence, and lenses of the panel. -/
  grounded : ∀ d ∈ draft.findings, (∃ panelist ∈ reviews, ∃ f ∈ panelist.review.findings, f.finding = d.finding) ∧
    d.finding ≠ "" ∧ d.evidence_ids ≠ [] ∧ d.lenses ≠ [] ∧ d.lenses ⊆ PANEL_LENSES.map Lens.text
  questions : draft.open_questions.Nodup ∧ ∀ q, q ∈ draft.open_questions ↔
    (∃ panelist ∈ reviews, q ∈ panelist.review.open_questions) ∨ q ∈ draft.synthesis.open_questions
  /-- A lens has the verdict of its last review. -/
  verdicts : ∀ before panelist after, reviews = before ++ panelist :: after →
    (∀ other ∈ after, other.lens ≠ panelist.lens) → draft.lens_verdicts.get? panelist.lens = some panelist.review.verdict

section Replies

variable {parser : Parser} {deps : PanelDependencies} {env : NodeEnv} {review : ReviewFindingsV1}

/-- A finding that the schema admits. -/
def ReviewFinding.Admitted (f : ReviewFinding) : Prop := f.finding ≠ "" ∧ f.evidence_ids ≠ []

theorem validate_finding_admitted {payload : Payload} {f : ReviewFinding} (h : validate_finding payload = some f) :
    f.Admitted := by
  unfold validate_finding at h
  simp only [Option.bind_eq_bind, Option.bind_eq_some_iff] at h
  obtain ⟨fields, -, _, -, _, -, severity, -, _, -, finding, -, _, -, evidence_ids, -, h⟩ := h
  split at h
  · rename_i hlengths
    obtain rfl := Option.some.inj h
    refine ⟨?_, List.length_pos_iff.1 hlengths.2⟩
    intro hempty
    have hlength := hlengths.1
    rw [show finding = "" from hempty] at hlength
    exact absurd hlength (by decide)
  · cases h

theorem validate_review_admitted {payload : Payload} (h : validate_review payload = some review) :
    ∀ f ∈ review.findings, f.Admitted := by
  unfold validate_review at h
  simp only [Option.bind_eq_bind, Option.bind_eq_some_iff] at h
  obtain ⟨fields, -, version, -, _, -, _, -, verdict, -, findings, hfindings, open_questions, -, h⟩ := h
  split at h
  · obtain rfl := Option.some.inj h
    unfold optional at hfindings
    split at hfindings
    · obtain rfl := Option.some.inj hfindings
      exact fun f hf => absurd hf List.not_mem_nil
    · unfold Payload.as_findings at hfindings
      split at hfindings
      · intro f hf
        obtain ⟨item, -, hitem⟩ := exists_of_mem_mapM hfindings hf
        exact validate_finding_admitted hitem
      · cases hfindings
  · cases h

theorem parse_admitted {raw lens : String} (h : parse_review_findings parser raw lens = .ok review) :
    ∀ f ∈ review.findings, f.Admitted := by
  unfold parse_review_findings at h
  dsimp only at h
  split at h
  · cases h
  · split at h
    · rename_i hvalid
      obtain rfl := Except.ok.inj h
      exact validate_review_admitted hvalid
    · cases h

theorem repair_admitted {system user lens : String}
    (h : (complete_with_schema_repair deps env system user lens).2 = .ok review) : ∀ f ∈ review.findings, f.Admitted := by
  unfold complete_with_schema_repair at h
  split at h
  · cases h
  · split at h
    · rename_i hparse
      obtain rfl := Except.ok.inj h
      exact parse_admitted hparse
    · dsimp only at h
      cases hretry : env.complete system _ with
      | error exc => rw [hretry] at h; cases h
      | ok raw =>
        rw [hretry] at h
        exact parse_admitted h

theorem Panelled.admitted {key : String} {reviews : List PanelistReview} (h : Panelled deps key reviews) :
    ∀ item ∈ reported reviews, item.2.Admitted := by
  intro item hitem
  obtain ⟨panelist, hpanelist, hitem⟩ := List.mem_flatMap.1 hitem
  obtain ⟨f, hf, rfl⟩ := List.mem_map.1 hitem
  obtain ⟨lens, pr, kb_context, env, -, -, hreply⟩ := h.replies panelist hpanelist
  exact repair_admitted hreply f hf

end Replies

section Merged

variable {items : List LensFinding} {group : Group}

/-- What is merged from admitted findings has text, evidence and lenses of theirs. -/
theorem Traces.grounded (h : Traces group items) (hadmitted : ∀ item ∈ items, item.2.Admitted) :
    (∃ item ∈ items, item.2.finding = group.merged.finding) ∧ group.merged.finding ≠ "" ∧ group.merged.evidence_ids ≠ [] ∧
      group.merged.lenses ≠ [] ∧ ∀ lens ∈ group.merged.lenses, ∃ item ∈ items, item.1 = lens := by
  obtain ⟨item, hitem, htext, -⟩ := h.text_spec
  refine ⟨⟨item, hitem, htext⟩, htext ▸ (hadmitted item hitem).1, ?_, ?_, ?_⟩
  · obtain ⟨id, hid⟩ := List.exists_mem_of_ne_nil _ (hadmitted item hitem).2
    have hmem : id ∈ group.merged.evidence_ids := by
      rw [Group.merged, mem_sorted]
      exact h.evidence item hitem id hid
    exact List.ne_nil_of_mem hmem
  · intro hnone
    obtain ⟨severity, hlast⟩ := last_word_isSome hitem
    have hmem : item.1 ∈ group.merged.lenses := by
      rw [Group.merged, mem_sorted, h.severities]
      exact List.mem_map.2 ⟨_, mem_kept_severities.2 hlast, rfl⟩
    rw [hnone] at hmem
    exact List.not_mem_nil hmem
  · intro lens hlens
    rw [Group.merged, mem_sorted, h.severities] at hlens
    obtain ⟨entry, hentry, rfl⟩ := List.mem_map.1 hlens
    obtain ⟨item, hitem, hlens, -⟩ := exists_of_last_word (mem_kept_severities.1 hentry)
    exact ⟨item, hitem, hlens⟩

/-- A finding that is absorbed is among the lenses and the evidence. -/
theorem Traces.carried (h : Traces group items) {item : LensFinding} (hitem : item ∈ items) :
    item.1 ∈ group.merged.lenses ∧ ∀ id ∈ item.2.evidence_ids, id ∈ group.merged.evidence_ids := by
  constructor
  · obtain ⟨severity, hlast⟩ := last_word_isSome hitem
    rw [Group.merged, mem_sorted, h.severities]
    exact List.mem_map.2 ⟨_, mem_kept_severities.2 hlast, rfl⟩
  · intro id hid
    rw [Group.merged, mem_sorted]
    exact h.evidence item hitem id hid

end Merged

section Assembly

theorem mem_panel_lenses (lens : Lens) : lens ∈ PANEL_LENSES := by
  cases lens
  · decide
  · decide
  · decide
  · decide

variable {u : Unicode} {reviews : List PanelistReview}

theorem mem_add_new {questions more : List String} {q : String} :
    q ∈ more.foldl (fun questions q => if questions.contains q then questions else questions ++ [q]) questions ↔
      q ∈ questions ∨ q ∈ more := by
  induction more generalizing questions with
  | nil => exact ⟨.inl, fun h => h.resolve_right List.not_mem_nil⟩
  | cons first more ih =>
    rw [List.foldl_cons, ih, List.mem_cons]
    split
    · rename_i hthere
      have hfirst : first ∈ questions := List.contains_iff_mem.1 hthere
      constructor
      · exact fun h => h.imp_right .inr
      · intro h
        cases h with
        | inl hold => exact .inl hold
        | inr hnew =>
          cases hnew with
          | inl heq => exact .inl (heq ▸ hfirst)
          | inr hmore => exact .inr hmore
    · rw [List.mem_append, List.mem_singleton, or_assoc]

theorem nodup_add_new {questions more : List String} (h : questions.Nodup) :
    (more.foldl (fun questions q => if questions.contains q then questions else questions ++ [q]) questions).Nodup := by
  induction more generalizing questions with
  | nil => exact h
  | cons first more ih =>
    rw [List.foldl_cons]
    split
    · exact ih h
    · rename_i hnew
      apply ih
      rw [List.nodup_append]
      refine ⟨h, List.nodup_singleton first, fun q hq other hother heq => hnew ?_⟩
      rw [List.mem_singleton.1 hother] at heq
      exact List.contains_iff_mem.2 (heq ▸ hq)

theorem reconcile_open_questions : (reconcile u reviews).open_questions =
    (reviews.flatMap fun panelist => panelist.review.open_questions).foldl
      (fun questions q => if questions.contains q then questions else questions ++ [q]) [] := by
  rw [List.foldl_flatMap]
  rfl

theorem reconcile_verdict {before after : List PanelistReview} {panelist : PanelistReview}
    (hreviews : reviews = before ++ panelist :: after) (hlast : ∀ other ∈ after, other.lens ≠ panelist.lens) :
    (reconcile u reviews).lens_verdicts.get? panelist.lens = some panelist.review.verdict := by
  have hkeys : ((reviews.foldl (fun (verdicts : Dict String Verdict) panelist =>
      verdicts.set panelist.lens panelist.review.verdict) []).map (·.1)).Nodup := by
    apply foldl_invariant (I := fun d : Dict String Verdict => (d.map (·.1)).Nodup)
    · exact fun d panelist _ h => Dict.nodup_set h
    · exact List.nodup_nil
  have hlens : (reviews.reverse.find? fun other => other.lens == panelist.lens) = some panelist := by
    rw [hreviews, List.reverse_append, List.reverse_cons, List.append_assoc, List.find?_append, List.find?_eq_none.2,
      Option.none_or, List.singleton_append, List.find?_cons_of_pos (by simp)]
    intro other hother
    simpa using hlast other (List.mem_reverse.1 hother)
  rw [reconcile]
  apply Dict.get?_of_mem (nodup_map_sorted hkeys)
  rw [mem_sorted]
  apply Dict.mem_of_get?
  rw [Dict.get?_foldl_set (fun panelist : PanelistReview => panelist.lens) (fun panelist => panelist.review.verdict), hlens]
  rfl

theorem Panelled.carries {deps : PanelDependencies} {key : String} (h : Panelled deps key reviews) (pr : PRContext)
    (synthesis : ReviewFindingsV1) (model : String) (kb_used : Bool) (now : Timestamp) :
    Carries reviews (build_draft pr (reconcile u reviews) synthesis model kb_used now) := by
  have htraced : ∀ entry ∈ absorption u reviews, ∃ group, Traces group entry.2 ∧ entry.1 = group.merged := by
    intro entry hentry
    obtain ⟨traced, htraced, rfl⟩ := (mem_absorption u reviews).1 hentry
    exact ⟨traced.1, traces_traced_groups u reviews traced htraced, rfl⟩
  have hreported : ∀ entry ∈ absorption u reviews, ∀ item ∈ entry.2, item ∈ reported reviews := fun entry hentry item hitem =>
    (absorption_perm u reviews).subset (List.mem_flatMap.2 ⟨entry, hentry, hitem⟩)
  constructor
  case carried =>
    intro panelist hpanelist f hf
    have hitem : (panelist.lens, f) ∈ reported reviews :=
      List.mem_flatMap.2 ⟨panelist, hpanelist, List.mem_map.2 ⟨f, hf, rfl⟩⟩
    obtain ⟨entry, hentry, habsorbed⟩ := List.mem_flatMap.1 ((absorption_perm u reviews).symm.subset hitem)
    obtain ⟨group, htraces, hmerged⟩ := htraced entry hentry
    have hfinding : entry.1 ∈ (reconcile u reviews).findings := by
      rw [absorption_fst]
      exact List.mem_map_of_mem hentry
    refine ⟨_, List.mem_map_of_mem hfinding, ?_⟩
    dsimp only
    rw [hmerged]
    exact htraces.carried habsorbed
  case grounded =>
    intro d hd
    obtain ⟨finding, hfinding, rfl⟩ := List.mem_map.1 hd
    rw [absorption_fst] at hfinding
    obtain ⟨entry, hentry, rfl⟩ := List.mem_map.1 hfinding
    obtain ⟨group, htraces, hmerged⟩ := htraced entry hentry
    obtain ⟨htext, hne, hevidence, hlenses, hfrom⟩ :=
      htraces.grounded fun item hitem => h.admitted item (hreported entry hentry item hitem)
    have hsource : ∀ item ∈ entry.2, ∃ panelist ∈ reviews, ∃ f ∈ panelist.review.findings, (panelist.lens, f) = item := by
      intro item hitem
      obtain ⟨panelist, hpanelist, hitem⟩ := List.mem_flatMap.1 (hreported entry hentry item hitem)
      obtain ⟨f, hf, heq⟩ := List.mem_map.1 hitem
      exact ⟨panelist, hpanelist, f, hf, heq⟩
    dsimp only
    rw [hmerged]
    refine ⟨?_, hne, hevidence, hlenses, ?_⟩
    · obtain ⟨item, hitem, htext⟩ := htext
      obtain ⟨panelist, hpanelist, f, hf, rfl⟩ := hsource item hitem
      exact ⟨panelist, hpanelist, f, hf, htext⟩
    · intro lens hlens
      obtain ⟨item, hitem, rfl⟩ := hfrom lens hlens
      obtain ⟨panelist, hpanelist, f, hf, rfl⟩ := hsource item hitem
      obtain ⟨lens, -, -, -, -, hlens, -⟩ := h.replies panelist hpanelist
      rw [hlens]
      exact List.mem_map_of_mem (mem_panel_lenses lens)
  case questions =>
    constructor
    · apply nodup_add_new
      rw [reconcile_open_questions]
      exact nodup_add_new List.nodup_nil
    · intro q
      rw [build_draft, all_open_questions, mem_add_new, reconcile_open_questions, mem_add_new, List.mem_flatMap]
      simp only [List.not_mem_nil, false_or]
  case verdicts =>
    intro before panelist after hreviews hlast
    rw [build_draft]
    exact @reconcile_verdict u _ _ _ _ hreviews hlast

end Assembly

section Served

variable {deps : PanelDependencies} {drafts : Dict String DraftRow} {repo repo' : String} {n n' : Int} {sha sha' : String}

/-- Only digits and a sign are in a number. -/
theorem not_mem_number {c : Char} (hdigit : c.isDigit = false) (hsign : c ≠ '-') (n : Int) : c ∉ (toString n).toList := by
  have hnat : ∀ k : Nat, c ∉ (k.repr).toList := by
    intro k hmem
    rw [Nat.repr_eq_ofList_toDigits, String.toList_ofList] at hmem
    have hc := Nat.isDigit_of_mem_toDigits (by decide) (by decide) hmem
    rw [hdigit] at hc
    cases hc
  cases n with
  | ofNat k => exact hnat k
  | negSucc k =>
    intro hmem
    have hmem : c ∈ ("-" ++ (k + 1).repr).toList := hmem
    rw [String.toList_append, List.mem_append] at hmem
    cases hmem with
    | inl hminus => exact hsign (List.mem_singleton.1 hminus)
    | inr hdigits => exact hnat (k + 1) hdigits

theorem draft_key_toList : (draft_key repo n sha).toList =
    repo.toList ++ '#' :: ((toString n).toList ++ '@' :: sha.toList) := by
  simp only [draft_key, String.toList_append, List.append_assoc]
  rfl

/-- The key of a pull request at a commit is that of no other. -/
theorem draft_key_inj (hrepo : '#' ∉ repo.toList) (hsha : '#' ∉ sha.toList)
    (h : draft_key repo n sha = draft_key repo' n' sha') : repo = repo' ∧ n = n' ∧ sha = sha' := by
  have hchars := congrArg String.toList h
  rw [draft_key_toList, draft_key_toList] at hchars
  have hrest : '#' ∉ (toString n).toList ++ '@' :: sha.toList := by
    rw [List.mem_append, List.mem_cons, not_or, not_or]
    exact ⟨not_mem_number (by decide) (by decide) n, by decide, hsha⟩
  obtain ⟨hrepos, -, hrests⟩ := (List.append_cons_inj_of_notMem hrepo hrest).1 hchars
  have hnumbers := congrArg (List.takeWhile (· != '@')) hrests
  have htake : ∀ k : Int, ∀ after, ((toString k).toList ++ '@' :: after).takeWhile (· != '@') = (toString k).toList := by
    intro k after
    rw [List.takeWhile_append_of_pos, List.takeWhile_cons_of_neg, List.append_nil]
    · simp
    · intro c hc
      rw [bne_iff_ne]
      rintro rfl
      exact not_mem_number (by decide) (by decide) k hc
  rw [htake, htake] at hnumbers
  obtain rfl := Int.repr_injective (String.toList_inj.1 hnumbers)
  exact ⟨String.toList_inj.1 hrepos, rfl, String.toList_inj.1 (List.cons.inj (List.append_cancel_left hrests)).2⟩

/-- Rows that carry what their key says. -/
def Keyed (drafts : Dict String DraftRow) : Prop :=
  (drafts.map (·.1)).Nodup ∧ ∀ entry ∈ drafts, entry.1 = draft_key entry.2.repo entry.2.pr_number entry.2.head_sha

theorem Sound.keyed {s : Panel} (h : Sound deps s) : Keyed s.drafts := by
  refine ⟨h.rows.1, fun entry hentry => ?_⟩
  obtain ⟨hpanel, hrow⟩ := h.rows.2 entry.1 entry.2 (Dict.get?_of_mem h.rows.1 hentry)
  have hkey := hpanel.draft_key
  obtain ⟨pr, kb_context, reviews, env, synthesis, -, -, -, hdraft⟩ := hpanel
  rw [hrow, draft_row, ← hkey]
  dsimp only
  rw [hdraft]
  rfl

theorem fetch_exact (hkeyed : Keyed drafts) (hrepo : '#' ∉ repo.toList) (hsha : '#' ∉ sha.toList) :
    fetch_review_draft drafts repo n (some sha) =
      (drafts.get? (draft_key repo n sha)).map fun row => (draft_key repo n sha, row) := by
  have hrows : (drafts.filter fun entry => entry.2.repo == repo && entry.2.pr_number == n &&
      ((some sha).isNone || some sha == some entry.2.head_sha)) = drafts.filter fun entry => entry.1 == draft_key repo n sha := by
    apply List.filter_congr
    intro entry hentry
    rw [Bool.eq_iff_iff]
    simp only [Option.isNone_some, Bool.false_or, Bool.and_eq_true, beq_iff_eq, Option.some.injEq]
    rw [hkeyed.2 entry hentry]
    constructor
    · intro h
      rw [h.1.1, h.1.2, ← h.2]
    · intro h
      obtain ⟨hrepos, hnumbers, hshas⟩ := draft_key_inj hrepo hsha h.symm
      exact ⟨⟨hrepos.symm, hnumbers.symm⟩, hshas⟩
  rw [fetch_review_draft, hrows]
  cases hget : drafts.get? (draft_key repo n sha) with
  | none =>
    rw [List.filter_eq_nil_iff.2]
    · rfl
    · intro entry hentry heq
      have hmem : (entry.1, entry.2) ∈ drafts := hentry
      rw [beq_iff_eq.1 heq] at hmem
      obtain ⟨row, hrow⟩ := Dict.get?_isSome_of_mem hmem
      rw [hget] at hrow
      cases hrow
  | some row =>
    obtain ⟨i, hi⟩ := List.getElem?_of_mem (Dict.mem_of_get? hget)
    have hrow : (drafts.filter fun entry => entry.1 == draft_key repo n sha) = [(draft_key repo n sha, row)] :=
      Dict.filter_key_eq hkeyed.1 hi
    rw [hrow]
    rfl

/-- The rows of a pull request, from the newest one. -/
theorem fetch_newest : ∃ rows : List (String × DraftRow),
    (∀ entry, entry ∈ rows ↔ entry ∈ drafts ∧ entry.2.repo = repo ∧ entry.2.pr_number = n) ∧
    (rows.Pairwise fun a b => b.2.created_at ≤ a.2.created_at) ∧ fetch_review_draft drafts repo n none = rows.head? := by
  refine ⟨_, fun entry => ?_, ?_, rfl⟩
  · rw [mem_sorted, List.mem_filter]
    simp only [Option.isNone_none, Bool.true_or, Bool.and_true, Bool.and_eq_true, beq_iff_eq]
  · have hranked := @pairwise_sorted _ _ _ (fun a b : String × DraftRow => decide (b.2.created_at ≤ a.2.created_at))
      (fun entry => OrderDual.toDual entry.2.created_at) (fun a b => by rw [decide_eq_true_eq, OrderDual.toDual_le_toDual])
    exact (hranked _).imp fun h => OrderDual.toDual_le_toDual.1 h

end Served

/-- Whatever the panel has done, its drafts are served as they are stored: a draft at a commit is the row that a run of
the panel at that commit would be given, and the draft of a pull request is one of its rows, of which none is newer. -/
theorem review_drafts_served (deps : PanelDependencies) (engine : PanelEngine) (hengine : engine.Promises build_panel_graph)
    (events : List Event) (s : Panel) (hran : Ran deps engine events s) (repo : String) (pr_number : Int)
    (hrepo : '#' ∉ repo.toList) :
    (∀ sha, '#' ∉ sha.toList → fetch_review_draft s.drafts repo pr_number (some sha) =
      (s.drafts.get? (draft_key repo pr_number sha)).map fun row => (draft_key repo pr_number sha, row)) ∧
    (∀ key row, fetch_review_draft s.drafts repo pr_number none = some (key, row) →
      s.drafts.get? key = some row ∧ key = draft_key repo pr_number row.head_sha) ∧
    ∀ sha other, s.drafts.get? (draft_key repo pr_number sha) = some other → '#' ∉ sha.toList →
      ∃ key row, fetch_review_draft s.drafts repo pr_number none = some (key, row) ∧ other.created_at ≤ row.created_at := by
  have hkeyed := (sound_run hengine hran).keyed
  obtain ⟨rows, hmem, hnewest, hfetch⟩ := @fetch_newest s.drafts repo pr_number
  refine ⟨fun sha hsha => fetch_exact hkeyed hrepo hsha, fun key row hrow => ?_, fun sha other hother hsha => ?_⟩
  · rw [hfetch] at hrow
    obtain ⟨hentry, hrepos, hnumbers⟩ := (hmem (key, row)).1 (List.mem_of_head? hrow)
    refine ⟨Dict.get?_of_mem hkeyed.1 hentry, ?_⟩
    have hkey := hkeyed.2 (key, row) hentry
    rw [hrepos, hnumbers] at hkey
    exact hkey
  · have hentry := Dict.mem_of_get? hother
    obtain ⟨hrepos, hnumbers, -⟩ := draft_key_inj hrepo hsha (hkeyed.2 _ hentry)
    have hrow : (draft_key repo pr_number sha, other) ∈ rows := (hmem _).2 ⟨hentry, hrepos.symm, hnumbers.symm⟩
    cases rows with
    | nil => exact absurd hrow List.not_mem_nil
    | cons first rest =>
      refine ⟨first.1, first.2, hfetch, ?_⟩
      cases List.mem_cons.1 hrow with
      | inl heq => rw [← heq]
      | inr hrest => exact List.rel_of_pairwise_cons hnewest hrest

theorem review_drafts_served_overlapping : ∃ s row, Ran panel_deps build_panel_graph.in_order overlapping_run s ∧
    s.drafts.get? small_key = some row ∧ '#' ∉ small_pr.head_sha.toList ∧
    (∃ key newest, fetch_review_draft s.drafts small_pr.repo small_pr.number none = some (key, newest)) ∧
    fetch_review_draft s.drafts small_pr.repo small_pr.number (some small_pr.head_sha) = some (small_key, row) := by
  obtain ⟨s, row, hran, hrow, -⟩ := ran_overlapping
  have hsha : '#' ∉ small_pr.head_sha.toList := by decide
  obtain ⟨hexact, -, hnewest⟩ := review_drafts_served panel_deps _ build_panel_graph.promises_in_order _ s hran
    small_pr.repo small_pr.number (by decide)
  obtain ⟨key, newest, hfetch, -⟩ := hnewest small_pr.head_sha row hrow hsha
  have hserved := hexact small_pr.head_sha hsha
  rw [show draft_key small_pr.repo small_pr.number small_pr.head_sha = small_key from rfl, hrow] at hserved
  exact ⟨s, row, hran, hrow, hsha, ⟨key, newest, hfetch⟩, hserved⟩

end AgenticKb.ReviewPanel
