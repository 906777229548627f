import AgenticKb.Effects.CodePass
import AgenticKb.Effects.Completed

open AgenticKb.Lib

namespace AgenticKb

/-! The code graph of a registry, and what a completed build leaves of the one its source loop ends with: the
artifacts its sweeps spare, and the edges between them. -/

/-- A live artifact of a code file. -/
structure LiveCode (place : SourceType × String → String × String) (r : Registry) (a : KnowledgeArtifact) : Prop where
  mem : a ∈ r.artifacts
  live : a.Live
  not_alias : a.artifact_type ≠ .alias_reference
  home : KeyedBy (CodeKey place) r a.source_id

/-- Every live code edge joins live artifacts of code files. -/
def CodeGraphClosed (place : SourceType × String → String × String) (r : Registry) : Prop :=
  ∀ e ∈ code_edges r, e.Live → (∃ a, LiveCode place r a ∧ a.artifact_id = e.from_artifact_id) ∧
    ∃ a, LiveCode place r a ∧ a.artifact_id = e.to_artifact_id

/-- The code graph of `r'` is the part of that of `r` on the artifacts that are `of`. -/
structure CodeRestricts (place : SourceType × String → String × String) (of : KnowledgeArtifact → Prop)
    (r r' : Registry) : Prop where
  homes : ∀ P : SourceType × String → Prop, (∀ key, P key → CodeKey place key) →
    ∀ id, KeyedBy P r' id ↔ KeyedBy P r id
  artifacts_from : ∀ a', LiveCode place r' a' → ∃ a, LiveCode place r a ∧ of a ∧ SameRow a a'
  artifacts_to : ∀ a, LiveCode place r a → of a → ∃ a', LiveCode place r' a' ∧ SameRow a a'
  edges : ∀ e : KnowledgeEdge, e.Live → (e ∈ code_edges r' ↔ e ∈ code_edges r ∧
    ∀ a, LiveCode place r a → touches [a.artifact_id] e = true → of a)

section Restricts

variable {p : Platform} {place : SourceType × String → String × String} {of : KnowledgeArtifact → Prop}
  {r r' r'' : Registry} {a : KnowledgeArtifact} {e : KnowledgeEdge}

theorem touches_singleton {id : Uuid} :
    touches [id] e = true ↔ id = e.from_artifact_id ∨ id = e.to_artifact_id := by
  simp only [touches, Bool.or_eq_true, List.contains_iff_mem, List.mem_singleton]
  exact or_congr eq_comm eq_comm

/-- An artifact that touches a live code edge is one of its ends. -/
theorem CodeGraphClosed.liveCode (h : CodeGraphClosed place r) (hwf : WellFormed p r) (he : e ∈ code_edges r) (hlive : e.Live)
    (ha : a ∈ r.artifacts) (htouches : touches [a.artifact_id] e = true) : LiveCode place r a := by
  obtain ⟨⟨a₁, ha₁, hfrom⟩, a₂, ha₂, hto⟩ := h e he hlive
  cases touches_singleton.1 htouches with
  | inl hid => exact hwf.artifact_eq ha ha₁.mem (hid.trans hfrom.symm) ▸ ha₁
  | inr hid => exact hwf.artifact_eq ha ha₂.mem (hid.trans hto.symm) ▸ ha₂

/-- The ends of the edges stay with them. -/
theorem CodeRestricts.closed (h : CodeRestricts place of r r') (hends : CodeGraphClosed place r) :
    CodeGraphClosed place r' := by
  intro e he hlive
  obtain ⟨hmem, hof⟩ := (h.edges e hlive).1 he
  obtain ⟨⟨a₁, ha₁, hfrom⟩, a₂, ha₂, hto⟩ := hends e hmem hlive
  obtain ⟨a₁', ha₁', hsame₁⟩ := h.artifacts_to a₁ ha₁ (hof a₁ ha₁ (touches_singleton.2 (.inl hfrom)))
  obtain ⟨a₂', ha₂', hsame₂⟩ := h.artifacts_to a₂ ha₂ (hof a₂ ha₂ (touches_singleton.2 (.inr hto)))
  exact ⟨⟨a₁', ha₁', hsame₁.artifact_id.trans hfrom⟩, a₂', ha₂', hsame₂.artifact_id.trans hto⟩

theorem CodeRestricts.imp {of' : KnowledgeArtifact → Prop} (h : CodeRestricts place of r r')
    (himp : ∀ a, LiveCode place r a → (of a ↔ of' a)) : CodeRestricts place of' r r' := by
  refine ⟨h.homes, fun a' ha' => ?_, fun a ha hof => h.artifacts_to a ha ((himp a ha).2 hof), fun e hlive => ?_⟩
  · obtain ⟨a, ha, hof, hsame⟩ := h.artifacts_from a' ha'
    exact ⟨a, ha, (himp a ha).1 hof, hsame⟩
  · rw [h.edges e hlive]
    refine and_congr_right fun _ => forall_congr' fun a => ?_
    exact ⟨fun hof ha htouches => (himp a ha).1 (hof ha htouches),
      fun hof ha htouches => (himp a ha).2 (hof ha htouches)⟩

/-- The whole code graph is the same. -/
abbrev SameCode (place : SourceType × String → String × String) : Registry → Registry → Prop :=
  CodeRestricts place fun _ => True

theorem SameCode.trans (h : SameCode place r r') (h' : SameCode place r' r'') : SameCode place r r'' := by
  refine ⟨fun P hP id => (h'.homes P hP id).trans (h.homes P hP id), fun a'' ha'' => ?_, fun a ha _ => ?_,
    fun e hlive => ?_⟩
  · obtain ⟨a', ha', -, hsame'⟩ := h'.artifacts_from a'' ha''
    obtain ⟨a, ha, -, hsame⟩ := h.artifacts_from a' ha'
    exact ⟨a, ha, trivial, hsame.trans hsame'⟩
  · obtain ⟨a', ha', hsame⟩ := h.artifacts_to a ha trivial
    obtain ⟨a'', ha'', hsame'⟩ := h'.artifacts_to a' ha' trivial
    exact ⟨a'', ha'', hsame.trans hsame'⟩
  · have hsame := h.edges e hlive
    have hsame' := h'.edges e hlive
    simp only [implies_true, and_true] at hsame hsame' ⊢
    exact hsame'.trans hsame

theorem keyedBy_congr {P : SourceType × String → Prop} {id : Uuid} (h : r'.source_items = r.source_items) :
    KeyedBy P r' id ↔ KeyedBy P r id := by
  unfold KeyedBy
  rw [h]

/-- The code graph is read off three tables. -/
theorem CodeRestricts.congr {r₁ : Registry} (h : CodeRestricts place of r r') (hs : r₁.source_items = r.source_items)
    (ha : r₁.artifacts = r.artifacts) (he : r₁.edges = r.edges) : CodeRestricts place of r₁ r' := by
  have hlive : ∀ a, LiveCode place r₁ a ↔ LiveCode place r a := fun a =>
    ⟨fun h => ⟨ha ▸ h.mem, h.live, h.not_alias, (keyedBy_congr hs).1 h.home⟩,
      fun h => ⟨ha ▸ h.mem, h.live, h.not_alias, (keyedBy_congr hs).2 h.home⟩⟩
  refine ⟨fun P hP id => (h.homes P hP id).trans (keyedBy_congr hs).symm, fun a' ha' => ?_, fun a ha hof => ?_,
    fun e helive => ?_⟩
  · obtain ⟨a, ha, hrest⟩ := h.artifacts_from a' ha'
    exact ⟨a, (hlive a).2 ha, hrest⟩
  · exact h.artifacts_to a ((hlive a).1 ha) hof
  · rw [h.edges e helive, code_edges, code_edges, he]
    exact and_congr_right fun _ => forall_congr' fun a => by rw [hlive a]

/-- Sources that are no code files leave the code graph alone. -/
theorem CodeKept.homes (h : CodeKept place r r') (P : SourceType × String → Prop)
    (hP : ∀ key, P key → CodeKey place key) (id : Uuid) : KeyedBy P r' id ↔ KeyedBy P r id := by
  constructor
  · rintro ⟨row', hrow', hid, hkey⟩
    obtain ⟨row, hrow, hk⟩ := h.rows_from row' hrow' (hP _ hkey)
    exact ⟨row, hrow, hk.1.symm.trans hid, hk.2.1 ▸ hkey⟩
  · rintro ⟨row, hrow, hid, hkey⟩
    obtain ⟨row', hrow', hk⟩ := h.rows_to row hrow (hP _ hkey)
    exact ⟨row', hrow', hk.1.trans hid, hk.2.1 ▸ hkey⟩

theorem CodeKept.liveCode_iff (h : CodeKept place r r') (hwf' : WellFormed p r') :
    LiveCode place r' a ↔ LiveCode place r a := by
  obtain ⟨added, hadded, hprose⟩ := h.artifacts
  have hhome := h.homes (CodeKey place) (fun _ hkey => hkey) a.source_id
  constructor
  · rintro ⟨hmem, hlive, hother, hcode⟩
    rw [hadded] at hmem
    cases List.mem_append.1 hmem with
    | inl hold => exact ⟨hold, hlive, hother, hhome.1 hcode⟩
    | inr hnew =>
      obtain ⟨row, hrow, hid, hkey⟩ := hprose a hnew
      obtain ⟨row', hrow', hid', hkey'⟩ := hcode
      exact absurd (hwf'.source_eq hrow' hrow (hid'.trans hid.symm) ▸ hkey') hkey
  · rintro ⟨hmem, hlive, hother, hcode⟩
    exact ⟨hadded ▸ List.mem_append_left _ hmem, hlive, hother, hhome.2 hcode⟩

theorem CodeKept.sameCode (h : CodeKept place r r') (hwf' : WellFormed p r') : SameCode place r r' where
  homes := h.homes
  artifacts_from a ha := ⟨a, (h.liveCode_iff hwf').1 ha, trivial, .refl a⟩
  artifacts_to a ha _ := ⟨a, (h.liveCode_iff hwf').2 ha, .refl a⟩
  edges e _ := by simp [h.edges]

end Restricts

/-- The sweeps of the build leave the artifact alone. -/
def Spared (s : SourceLoop) (started_at : Timestamp) (a : KnowledgeArtifact) : Prop :=
  a.source_id ∉ s.vanished started_at ∧ (a.source_id ∈ s.changed → s.current.build_seq ≤ a.valid_from_seq)

/-- No code file counts as renamed. -/
def NoCodeRename (place : SourceType × String → String × String) (s : SourceLoop) (started_at : Timestamp) : Prop :=
  ∀ rename ∈ s.renames started_at, ¬ KeyedBy (CodeKey place) s.current rename.old_source_id

section Sweep

variable {p : Platform} {place : SourceType × String → String × String} {s : SourceLoop} {started_at : Timestamp}
  {r' : Registry} {a : KnowledgeArtifact}

/-- Where no code file counts as renamed, what leaves of the code graph has vanished or is superseded. -/
theorem LiveCode.swept_iff (ha : LiveCode place s.current a) (hwf : WellFormed p s.current)
    (hrename : NoCodeRename place s started_at) :
    Swept s.current s.current.build_seq (s.vanished started_at) s.changed a ↔ ¬ Spared s started_at a := by
  have hswept : a.source_id ∈ swept_sources s.current s.current.build_seq (s.vanished started_at) ↔
      a.source_id ∈ s.vanished started_at := by
    rw [swept_sources, List.mem_filter]
    refine and_iff_left ?_
    rw [Bool.not_eq_true', List.contains_eq_mem, decide_eq_false_iff_not]
    intro hmem
    obtain ⟨rename, hfound, hold⟩ := List.mem_map.1 hmem
    exact hrename rename hfound (hold ▸ ha.home)
  have hnone : ¬ ∃ rename ∈ detected_renames s.current (s.vanished started_at) s.current.build_seq,
      a.artifact_id = rename.old_artifact_id := by
    rintro ⟨rename, hfound, hold⟩
    obtain ⟨old, hmem, -, hid, hsource⟩ := (isRename_of_mem hfound).old
    rw [hwf.artifact_eq hmem ha.mem (hid.trans hold.symm)] at hsource
    exact hrename rename hfound (hsource ▸ ha.home)
  rw [Swept, hswept, Spared, or_iff_right hnone]
  rw [not_and_or, not_not, Classical.not_imp, not_le]

/-- A completed build leaves of the code graph what its sweeps spare. -/
theorem Completes.codeRestricts (h : Completes s started_at r') (hwf : WellFormed p s.current)
    (hends : CodeGraphClosed place s.current) (hrename : NoCodeRename place s started_at) :
    CodeRestricts place (Spared s started_at) s.current r' := by
  have hhomes : ∀ P : SourceType × String → Prop, ∀ id, KeyedBy P r' id ↔ KeyedBy P s.current id := by
    intro P id
    constructor
    · rintro ⟨row', hrow', hid, hkey⟩
      obtain ⟨row, hrow, hk⟩ := (h.source_items.origin hrow').resolve_right False.elim
      rw [show row' = _ from hk] at hid hkey
      exact ⟨row, hrow, hid, hkey⟩
    · rintro ⟨row, hrow, hid, hkey⟩
      obtain ⟨row', hrow', hk⟩ := h.source_items.successor hrow
      refine ⟨row', hrow', ?_, ?_⟩
      · rw [show row' = _ from hk]
        exact hid
      · rw [show row' = _ from hk]
        exact hkey
  refine ⟨fun P _ => hhomes P, fun a' ha' => ?_, fun a ha hspared => ?_, fun e hlive => ?_⟩
  · obtain ⟨a, hmem, hk⟩ := h.artifacts_from a' ha'.mem ha'.not_alias
    obtain ⟨hlive, hkept⟩ := hk.live_iff.1 ha'.live
    have ha : LiveCode place s.current a :=
      ⟨hmem, hlive, hk.same.artifact_type ▸ ha'.not_alias, (hhomes _ _).1 (hk.same.source_id ▸ ha'.home)⟩
    rw [ha.swept_iff hwf hrename, not_not] at hkept
    exact ⟨a, ha, hkept, hk.same⟩
  · obtain ⟨a', hmem, hk⟩ := h.artifacts_to a ha.mem ha.not_alias
    have hkept : a'.Live := hk.live_iff.2 ⟨ha.live, by rw [ha.swept_iff hwf hrename, not_not]; exact hspared⟩
    exact ⟨a', ⟨hmem, hkept, hk.same.artifact_type.symm ▸ ha.not_alias,
      (hhomes _ _).2 (hk.same.source_id.symm ▸ ha.home)⟩, hk.same⟩
  · constructor
    · intro he
      cases h.edges_from e he hlive with
      | inl hrenamed =>
        obtain ⟨e₀, he₀, hlive₀, rename, hfound, htouches⟩ := hrenamed
        obtain ⟨old, hmem, -, hid, hsource⟩ := (isRename_of_mem hfound).old
        rw [← hid] at htouches
        have hcode := hends.liveCode hwf he₀ hlive₀ hmem htouches
        exact absurd (hsource ▸ hcode.home) (hrename rename hfound)
      | inr hkept =>
        refine ⟨hkept.1, fun a ha htouches => ?_⟩
        have hstays := hkept.2 a ha.mem ha.live htouches
        rwa [ha.swept_iff hwf hrename, not_not] at hstays
    · rintro ⟨he, hspared⟩
      refine h.edges_to e he fun a ha htouches => ?_
      exact hspared a (hends.liveCode hwf he hlive ha htouches) htouches

end Sweep

end AgenticKb
