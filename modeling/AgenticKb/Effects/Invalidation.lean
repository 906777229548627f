import AgenticKb.Effects.Links

open AgenticKb.Lib

namespace AgenticKb

/-- What no pass of the finalisation changes of an artifact that is no alias. -/
structure SameRow (a a' : KnowledgeArtifact) : Prop where
  artifact_id : a'.artifact_id = a.artifact_id
  artifact_type : a'.artifact_type = a.artifact_type
  source_id : a'.source_id = a.source_id
  valid_from_seq : a'.valid_from_seq = a.valid_from_seq
  made_from : a'.made_from = a.made_from
  acl_at_write : a'.acl_at_write = a.acl_at_write
  title : a'.title = a.title
  body_text : a'.body_text = a.body_text

theorem SameRow.refl (a : KnowledgeArtifact) : SameRow a a := ⟨rfl, rfl, rfl, rfl, rfl, rfl, rfl, rfl⟩

theorem SameRow.trans {a b c : KnowledgeArtifact} (hab : SameRow a b) (hbc : SameRow b c) : SameRow a c :=
  ⟨hbc.artifact_id.trans hab.artifact_id, hbc.artifact_type.trans hab.artifact_type,
    hbc.source_id.trans hab.source_id, hbc.valid_from_seq.trans hab.valid_from_seq,
    hbc.made_from.trans hab.made_from, hbc.acl_at_write.trans hab.acl_at_write, hbc.title.trans hab.title,
    hbc.body_text.trans hab.body_text⟩

/-- The live rows that are `out` leave in version `n`; every other row is as it was. -/
structure Leaves (n : Nat) (out : KnowledgeArtifact → Prop) (a a' : KnowledgeArtifact) : Prop where
  same : SameRow a a'
  acl_teams : a'.acl_teams = a.acl_teams
  leaves : a.Live → out a → a'.invalidated_at_seq = some n
  stays : (a.Live → ¬ out a) → a'.invalidated_at_seq = a.invalidated_at_seq

namespace Leaves

variable {n : Nat} {out out' : KnowledgeArtifact → Prop} {a a' a'' : KnowledgeArtifact}

theorem refl (n : Nat) (a : KnowledgeArtifact) : Leaves n (fun _ => False) a a :=
  ⟨.refl a, rfl, fun _ hf => hf.elim, fun _ => rfl⟩

/-- A row is live afterwards exactly when it was live and did not leave. -/
theorem live_iff (h : Leaves n out a a') : a'.Live ↔ a.Live ∧ ¬ out a := by
  unfold Lifespan.Live
  constructor
  · intro hlive
    by_cases hout : a.Live → ¬ out a
    · have ha : a.Live := (h.stays hout).symm.trans hlive
      exact ⟨ha, hout ha⟩
    · obtain ⟨ha, ho⟩ := Classical.not_imp.1 hout
      rw [h.leaves ha (not_not.1 ho)] at hlive
      simp at hlive
  · rintro ⟨hlive, hout⟩
    rw [h.stays fun _ => hout]
    exact hlive

theorem evolves (h : Leaves n out a a') : a.Evolves n a'.toLifespan := by
  by_cases hout : a.Live → ¬ out a
  · have heq : a'.toLifespan = a.toLifespan := by
      rw [Lifespan.mk.injEq]
      exact ⟨h.same.valid_from_seq, h.stays hout⟩
    exact heq ▸ .keep _
  · obtain ⟨ha, ho⟩ := Classical.not_imp.1 hout
    have heq : a'.toLifespan = { a.toLifespan with invalidated_at_seq := some n } := by
      rw [Lifespan.mk.injEq]
      exact ⟨h.same.valid_from_seq, h.leaves ha (not_not.1 ho)⟩
    exact heq ▸ .retire ha

theorem imp (h : Leaves n out a a') (hout : a.Live → (out a ↔ out' a)) : Leaves n out' a a' :=
  ⟨h.same, h.acl_teams, fun hlive ho => h.leaves hlive ((hout hlive).2 ho),
    fun ho => h.stays fun hlive ho' => ho hlive ((hout hlive).1 ho')⟩

/-- Two departures in a row; who leaves second may depend on the row before either. -/
theorem comp (h : Leaves n out a a') (h' : Leaves n out' a' a'') (hout : out' a' ↔ out' a) :
    Leaves n (fun a => out a ∨ out' a) a a'' := by
  refine ⟨h.same.trans h'.same, h'.acl_teams.trans h.acl_teams, ?_, ?_⟩
  · intro hlive ho
    by_cases ho₁ : out a
    · rw [h'.stays fun hlive' => absurd (h.live_iff.1 hlive').2 (not_not.2 ho₁)]
      exact h.leaves hlive ho₁
    · exact h'.leaves (h.live_iff.2 ⟨hlive, ho₁⟩) (hout.2 (ho.resolve_left ho₁))
  · intro ho
    have ho₁ : a.Live → ¬ out a := fun hlive ho' => ho hlive (.inl ho')
    rw [h'.stays fun hlive' => fun ho' => ho (h.live_iff.1 hlive').1 (.inr (hout.1 ho')), h.stays ho₁]

end Leaves

/-- The tombstone of a pass over the source rows. -/
def Tombstoned (ids : List Uuid) (s s' : SourceItem) : Prop :=
  s' = { s with is_deleted := s.is_deleted || ids.contains s.source_id }

/-- A pass that retires artifacts, tombstones sources and rewrites edges. -/
structure Sweep (p : Platform) (out : KnowledgeArtifact → Prop) (ids : List Uuid) (r r' : Registry) :
    Prop where
  artifacts : TableStep (Leaves r.build_seq out) (fun _ => False) r.artifacts r'.artifacts
  source_items : TableStep (Tombstoned ids) (fun _ => False) r.source_items r'.source_items
  build_seq : r'.build_seq = r.build_seq
  wellFormed : WellFormed p r → WellFormed p r'

theorem wellFormed_sweep {p : Platform} {r : Registry} {out : KnowledgeArtifact → Prop}
    {ids : List Uuid} {artifacts : List KnowledgeArtifact} {sources : List SourceItem} (h : WellFormed p r)
    (ha : TableStep (Leaves r.build_seq out) (fun _ => False) r.artifacts artifacts)
    (hs : TableStep (Tombstoned ids) (fun _ => False) r.source_items sources) :
    WellFormed p { r with artifacts, source_items := sources } := by
  have hart := h.set_artifacts (ha.mono (fun a _ a' hk =>
    ⟨hk.same.artifact_id, hk.evolves.restamped⟩) fun _ hf => hf)
  refine hart.set_sources (hs.mono (fun s _ s' hk => ?_) fun _ hf => hf)
  rw [show s' = _ from hk]
  exact ⟨rfl, rfl⟩

theorem tombstoned_nil (s : SourceItem) : Tombstoned [] s s := by
  simp [Tombstoned]

theorem Tombstoned.eq_of_not_mem {ids : List Uuid} {s s' : SourceItem} (h : Tombstoned ids s s')
    (hid : s.source_id ∉ ids) : s' = s := by
  simpa [Tombstoned, hid] using h

/-- A row that is live afterwards was left alone. -/
theorem Tombstoned.live_iff {ids : List Uuid} {s s' : SourceItem} (h : Tombstoned ids s s') :
    s'.is_deleted = false ↔ s.is_deleted = false ∧ s.source_id ∉ ids := by
  rw [show s' = _ from h]
  simp

theorem tableStep_tombstone (r : Registry) (ids : List Uuid) :
    TableStep (Tombstoned ids) (fun _ => False) r.source_items (tombstone_sources r ids).source_items := by
  refine .of_update_where (fun s _ hp => ?_) fun s _ hp => ?_
  · simp only [Tombstoned, hp, Bool.or_true]
  · simp only [Tombstoned, hp, Bool.or_false]

theorem tableStep_retire_artifacts (r : Registry) (ids : List Uuid) (n : Nat) :
    TableStep (Leaves n fun a => a.artifact_id ∈ ids) (fun _ => False) r.artifacts
      (retire_artifacts r ids n).artifacts := by
  refine .of_update_where (fun a _ hp => ?_) fun a _ hp => ?_
  · simp only [Bool.and_eq_true, List.contains_iff_mem, Option.isNone_iff_eq_none] at hp
    exact ⟨⟨rfl, rfl, rfl, rfl, rfl, rfl, rfl, rfl⟩, rfl, fun _ _ => rfl, fun ho => absurd hp.1 (ho hp.2)⟩
  · refine ⟨.refl a, rfl, fun hlive ho => ?_, fun _ => rfl⟩
    simp only [Lifespan.Live] at hlive
    simp [ho, hlive] at hp

section Sweeps

variable {p : Platform} {r r' r'' : Registry} {out out' : KnowledgeArtifact → Prop} {ids ids' : List Uuid}

theorem Sweep.of_onlyEdges (h : OnlyEdges p r r') : Sweep p (fun _ => False) [] r r' := by
  refine ⟨?_, ?_, h.build_seq, h.wellFormed⟩
  · rw [h.artifacts]
    exact .refl fun a _ => .refl _ a
  · rw [h.source_items]
    exact .refl fun s _ => tombstoned_nil s

theorem Sweep.imp (h : Sweep p out ids r r') (hout : ∀ a ∈ r.artifacts, a.Live → (out a ↔ out' a)) :
    Sweep p out' ids r r' :=
  { h with artifacts := h.artifacts.mono (fun a ha _ hk => hk.imp (hout a ha)) fun _ hf => hf }

/-- Two sweeps are one, when who leaves second may be read off the row before either. -/
theorem Sweep.comp (h : Sweep p out ids r r') (h' : Sweep p out' ids' r' r'')
    (hout : ∀ a a', SameRow a a' → (out' a' ↔ out' a)) :
    Sweep p (fun a => out a ∨ out' a) (ids ++ ids') r r'' := by
  obtain ⟨f, added, hf, hkf, haf⟩ := h.artifacts
  obtain ⟨g, added', hg, hkg, hag⟩ := h'.artifacts
  obtain rfl : added = [] := List.eq_nil_iff_forall_not_mem.2 fun a ha => haf a ha
  obtain rfl : added' = [] := List.eq_nil_iff_forall_not_mem.2 fun a ha => hag a ha
  obtain ⟨fs, sadded, hfs, hkfs, hafs⟩ := h.source_items
  obtain ⟨gs, sadded', hgs, hkgs, hags⟩ := h'.source_items
  obtain rfl : sadded = [] := List.eq_nil_iff_forall_not_mem.2 fun a ha => hafs a ha
  obtain rfl : sadded' = [] := List.eq_nil_iff_forall_not_mem.2 fun a ha => hags a ha
  refine ⟨⟨g ∘ f, [], by simp [hg, hf], ?_, by simp⟩, ⟨gs ∘ fs, [], by simp [hgs, hfs], ?_, by simp⟩,
    h'.build_seq.trans h.build_seq, fun hwf => h'.wellFormed (h.wellFormed hwf)⟩
  · intro a ha
    have hmem : f a ∈ r'.artifacts := by
      rw [hf]
      exact List.mem_append_left _ (List.mem_map_of_mem ha)
    have hfa := hkf a ha
    exact hfa.comp (h.build_seq ▸ hkg _ hmem) (hout _ _ hfa.same)
  · intro s hs
    have hmem : fs s ∈ r'.source_items := by
      rw [hfs]
      exact List.mem_append_left _ (List.mem_map_of_mem hs)
    have h₁ : fs s = _ := hkfs s hs
    have h₂ : gs (fs s) = _ := hkgs _ hmem
    rw [h₁] at h₂
    rw [Function.comp_apply, h₁, Tombstoned, h₂]
    simp only [Bool.or_assoc, List.contains_append]

theorem Sweep.liveArtifact (h : Sweep p out ids r r') {id : Uuid} :
    LiveArtifact r' id ↔ ∃ a ∈ r.artifacts, a.artifact_id = id ∧ a.Live ∧ ¬ out a := by
  constructor
  · rintro ⟨a', ha', rfl, hlive⟩
    obtain ⟨a, ha, hk⟩ := (h.artifacts.origin ha').resolve_right False.elim
    exact ⟨a, ha, hk.same.artifact_id.symm, hk.live_iff.1 hlive⟩
  · rintro ⟨a, ha, rfl, hlive⟩
    obtain ⟨a', ha', hk⟩ := h.artifacts.successor ha
    exact ⟨a', ha', hk.same.artifact_id, hk.live_iff.2 hlive⟩

theorem Sweep.of_sameCore (h : Sweep p out ids r r') (hsame : SameCore r' r'') : Sweep p out ids r r'' :=
  ⟨hsame.artifacts ▸ h.artifacts, hsame.source_items ▸ h.source_items,
    hsame.build_seq.trans h.build_seq, fun hwf => (h.wellFormed hwf).of_sameCore hsame⟩

end Sweeps

section Renames

variable {p : Platform} {r r' : Registry} {vanished : List Uuid} {n : Nat}

theorem mem_old_by_hash {hash : String} {id source_id : Uuid}
    (h : (hash, id, source_id) ∈ old_by_hash r vanished) :
    ∃ a ∈ r.artifacts, a.content_hash = some hash ∧ a.Live ∧ a.artifact_id = id ∧
      a.source_id = source_id ∧ source_id ∈ vanished := by
  refine foldl_invariant (I := fun d : Dict String (Uuid × Uuid) => ∀ entry ∈ d, ∃ a ∈ r.artifacts,
    a.content_hash = some entry.1 ∧ a.Live ∧ a.artifact_id = entry.2.1 ∧ a.source_id = entry.2.2 ∧
      entry.2.2 ∈ vanished) ?_ (by simp) (hash, id, source_id) h
  intro d a ha hd
  split
  · rename_i hash hhash
    split
    · rename_i hp
      simp only [Bool.and_eq_true, List.contains_iff_mem, Option.isNone_iff_eq_none] at hp
      intro entry hentry
      rcases Dict.mem_setdefault hentry with hold | rfl
      · exact hd entry hold
      · exact ⟨a, ha, hhash, hp.2, rfl, rfl, hp.1⟩
    · exact hd
  · exact hd

/-- A rename matches a live artifact of a vanished source with an artifact of this build elsewhere. -/
structure IsRename (r : Registry) (gone : List Uuid) (n : Nat) (rename : Rename) : Prop where
  old : ∃ a ∈ r.artifacts, a.Live ∧ a.artifact_id = rename.old_artifact_id ∧
    a.source_id = rename.old_source_id
  vanished : rename.old_source_id ∈ gone
  new : ∃ a ∈ r.artifacts, a.valid_from_seq = n ∧ a.artifact_id = rename.new_artifact_id ∧
    a.source_id ∉ gone

theorem isRename_of_mem {rename : Rename} (h : rename ∈ detected_renames r vanished n) :
    IsRename r vanished n rename := by
  obtain ⟨⟨hash, rename⟩, hentry, rfl⟩ := List.mem_map.1 h
  refine foldl_invariant (I := fun d : Dict String Rename => ∀ entry ∈ d, IsRename r vanished n entry.2)
    ?_ (by simp) _ hentry
  intro d a ha hd
  split
  · rename_i hash' old_artifact_id old_source_id hmatch
    split
    · rename_i hp
      simp only [Bool.and_eq_true, beq_iff_eq, Bool.not_eq_true', List.contains_eq_mem,
        decide_eq_false_iff_not] at hp
      intro entry hentry
      rcases Dict.mem_setdefault hentry with hold | rfl
      · exact hd entry hold
      · simp only [Option.bind_eq_some_iff, Option.map_eq_some_iff, Prod.mk.injEq] at hmatch
        obtain ⟨hash₀, -, entry, hget, rfl, rfl⟩ := hmatch
        obtain ⟨old, hold, -, hlive, hid, hsource, hvanished⟩ := mem_old_by_hash (Dict.mem_of_get? hget)
        exact ⟨⟨old, hold, hlive, hid, hsource⟩, hvanished, ⟨a, ha, hp.1, rfl, hp.2⟩⟩
    · exact hd
  · exact hd

/-- The end of an edge on one side. -/
def KnowledgeEdge.column (from_side : Bool) (e : KnowledgeEdge) : Uuid :=
  if from_side then e.from_artifact_id else e.to_artifact_id

/-- What one pass of `_reattach_edges` does to an edge. -/
inductive Reattached (n : Nat) (old_id new_id : Uuid) (from_side : Bool) :
    KnowledgeEdge → KnowledgeEdge → Prop where
  | kept (e : KnowledgeEdge) (hother : e.Live → e.column from_side ≠ old_id) :
      Reattached n old_id new_id from_side e e
  | loop (e : KnowledgeEdge) (hlive : e.Live) (hold : e.column from_side = old_id)
      (hnew : e.column (!from_side) = new_id) :
      Reattached n old_id new_id from_side e { e with invalidated_at_seq := some n }
  | repointed (e : KnowledgeEdge) (hlive : e.Live) (hold : e.column from_side = old_id)
      (hnew : e.column (!from_side) ≠ new_id) :
      Reattached n old_id new_id from_side e (e.repoint from_side new_id)

/-- One pass of `_reattach_edges`: it rewrites the edge table, and nothing else. -/
theorem reattach_side_spec {old_id new_id : Uuid} {from_side : Bool}
    (h : reattach_side old_id new_id n r from_side = some r') :
    ∃ edges, r' = { r with edges } ∧
      TableStep (Reattached n old_id new_id from_side) (fun _ => False) r.edges edges := by
  unfold reattach_side at h
  dsimp only at h
  rw [Option.ite_none_right_eq_some, Option.some.injEq] at h
  refine ⟨_, h.2.symm, ?_⟩
  dsimp only [AgenticKb.retire_edges, update_where]
  rw [List.map_map]
  refine ⟨_, [], (List.append_nil _).symm, fun e _ => ?_, by simp⟩
  have hcolumn : (if from_side = true then e.from_artifact_id else e.to_artifact_id) = e.column from_side := rfl
  have hother : (if from_side = true then e.to_artifact_id else e.from_artifact_id) =
      e.column (!from_side) := by
    cases from_side <;> rfl
  simp only [Function.comp_apply, hcolumn, hother]
  by_cases hlive : e.Live
  · by_cases hold : e.column from_side = old_id
    · by_cases hnew : e.column (!from_side) = new_id
      · simpa [hold, hnew, show e.invalidated_at_seq = none from hlive] using
          Reattached.loop e hlive hold hnew
      · simpa [hold, hnew, hcolumn, hother, show e.invalidated_at_seq = none from hlive] using
          Reattached.repointed e hlive hold hnew
    · simpa [hold, hcolumn, show e.invalidated_at_seq = none from hlive] using
        Reattached.kept e fun _ => hold
  · have hended : e.invalidated_at_seq ≠ none := hlive
    have hkept : Reattached n old_id new_id from_side e e := .kept e fun hl => absurd hl hlive
    simpa [hended] using hkept

theorem Reattached.restamped {old_id new_id : Uuid} {from_side : Bool} {e e' : KnowledgeEdge}
    (h : Reattached n old_id new_id from_side e e') : e.Restamped n e'.toLifespan := by
  cases h with
  | kept => exact .refl n _
  | loop => exact ⟨rfl, .inr (.inr rfl)⟩
  | repointed =>
    cases from_side <;> exact .refl n _

theorem onlyEdges_reattach_side {old_id new_id : Uuid} {from_side : Bool}
    (h : reattach_side old_id new_id r.build_seq r from_side = some r') : OnlyEdges p r r' := by
  obtain ⟨edges, rfl, hstep⟩ := reattach_side_spec h
  exact ⟨rfl, rfl, rfl, fun hwf => hwf.set_edges
    (hstep.mono (fun _ _ _ hk => hk.restamped) fun _ hf => hf.elim)⟩

theorem onlyEdges_reattach_edges {old_id new_id : Uuid}
    (h : reattach_edges r old_id new_id r.build_seq = some r') : OnlyEdges p r r' := by
  refine foldlM_invariant (I := OnlyEdges p r) ?_ (.refl r) h
  intro mid side r' _ hmid hstep
  exact hmid.trans (onlyEdges_reattach_side (hmid.build_seq.symm ▸ hstep))

/-- The link to the old identity changes no other column. -/
private theorem sweep_link_identity (r : Registry) (rename : Rename) :
    Sweep p (fun _ => False) [] r
      { r with
        artifacts := update_where r.artifacts (fun a => a.artifact_id == rename.new_artifact_id) fun a =>
          { a with prior_identity_id := some rename.old_artifact_id } } := by
  have hart : TableStep (Leaves r.build_seq fun _ => False) (fun _ => False) r.artifacts
      (update_where r.artifacts (fun a => a.artifact_id == rename.new_artifact_id) fun a =>
        { a with prior_identity_id := some rename.old_artifact_id }) :=
    .of_update_where (fun a _ _ => ⟨⟨rfl, rfl, rfl, rfl, rfl, rfl, rfl, rfl⟩, rfl, fun _ hf => hf.elim, fun _ => rfl⟩)
      fun a _ _ => .refl _ a
  have hsrc : TableStep (Tombstoned []) (fun _ => False) r.source_items r.source_items :=
    .refl fun s _ => tombstoned_nil s
  exact ⟨hart, hsrc, rfl, fun hwf => wellFormed_sweep hwf hart hsrc⟩

theorem sweep_retire_tombstone (r : Registry) (artifact_ids source_ids : List Uuid) :
    Sweep p (fun a => a.artifact_id ∈ artifact_ids) source_ids r
      (tombstone_sources (retire_artifacts r artifact_ids r.build_seq) source_ids) := by
  have hart := tableStep_retire_artifacts r artifact_ids r.build_seq
  have hsrc := tableStep_tombstone r source_ids
  exact ⟨hart, hsrc, rfl, fun hwf => (wellFormed_sweep hwf hart hsrc : WellFormed p
    { r with
      artifacts := (retire_artifacts r artifact_ids r.build_seq).artifacts
      source_items := (tombstone_sources r source_ids).source_items })⟩

/-- A rename retires the old artifact and tombstones its source. -/
theorem sweep_apply_rename {rename : Rename} (h : apply_rename r.build_seq r rename = some r') :
    Sweep p (fun a => a.artifact_id = rename.old_artifact_id) [rename.old_source_id] r r' := by
  simp only [apply_rename, Option.bind_eq_bind, Option.bind_eq_some_iff, Option.some.injEq] at h
  obtain ⟨mid, hmid, rfl⟩ := h
  have hedges : OnlyEdges p _ mid := onlyEdges_reattach_edges hmid
  have hlink := (sweep_link_identity (p := p) r rename).comp (.of_onlyEdges hedges) (by simp)
  have hseq : mid.build_seq = r.build_seq := hlink.build_seq
  have hretire := sweep_retire_tombstone (p := p) mid [rename.old_artifact_id] [rename.old_source_id]
  rw [hseq] at hretire
  have hall := hlink.comp hretire fun a a' hsame => by simp [hsame.artifact_id]
  exact hall.imp fun a _ _ => by simp

/-- The renames of a build, by induction on those already applied. -/
theorem sweep_apply_renames {renames : List Rename}
    (h : renames.foldlM (apply_rename r.build_seq) r = some r') :
    Sweep p (fun a => ∃ rename ∈ renames, a.artifact_id = rename.old_artifact_id)
      (renames.map (·.old_source_id)) r r' := by
  induction renames generalizing r with
  | nil =>
    simp only [List.foldlM_nil, Option.pure_def, Option.some.injEq] at h
    subst h
    exact (Sweep.of_onlyEdges (OnlyEdges.refl r)).imp fun a _ _ => by simp
  | cons rename renames ih =>
    simp only [List.foldlM_cons, Option.bind_eq_bind, Option.bind_eq_some_iff] at h
    obtain ⟨mid, hmid, hrest⟩ := h
    have hfirst := sweep_apply_rename (p := p) hmid
    rw [← hfirst.build_seq] at hrest
    have hall := hfirst.comp (ih hrest) fun a a' hsame => by simp [hsame.artifact_id]
    exact hall.imp fun a _ _ => by simp

end Renames

section Passes

variable {p : Platform} {r r' : Registry} {n : Nat}

theorem mem_live_artifact_ids (hwf : WellFormed p r) {source_ids : List Uuid} {a : KnowledgeArtifact}
    (ha : a ∈ r.artifacts) (hlive : a.Live) :
    a.artifact_id ∈ live_artifact_ids r source_ids ↔ a.source_id ∈ source_ids := by
  simp only [live_artifact_ids, List.mem_map, List.mem_filter, Bool.and_eq_true, List.contains_iff_mem,
    Option.isNone_iff_eq_none]
  constructor
  · rintro ⟨a', ⟨ha', hsource, -⟩, hid⟩
    rwa [hwf.artifact_eq ha ha' hid.symm]
  · exact fun hsource => ⟨a, ⟨ha, hsource, hlive⟩, rfl⟩

theorem mem_prior_generation (hwf : WellFormed p r) {changed : List Uuid} {a : KnowledgeArtifact}
    (ha : a ∈ r.artifacts) (hlive : a.Live) :
    a.artifact_id ∈ prior_generation r n changed ↔ a.source_id ∈ changed ∧ a.valid_from_seq < n := by
  simp only [prior_generation, List.mem_map, List.mem_filter, Bool.and_eq_true, List.contains_iff_mem,
    Option.isNone_iff_eq_none, decide_eq_true_eq]
  constructor
  · rintro ⟨a', ⟨ha', hprior, -⟩, hid⟩
    rwa [hwf.artifact_eq ha ha' hid.symm]
  · exact fun hprior => ⟨a, ⟨ha, hprior, hlive⟩, rfl⟩

/-- The live artifacts of the swept sources leave, and the sources are tombstoned. -/
theorem sweep_deletion (hwf : WellFormed p r) (source_ids : List Uuid) :
    Sweep p (fun a => a.source_id ∈ source_ids) source_ids r
      (deletion_sweep r r.build_seq source_ids) := by
  have hretire := sweep_retire_tombstone (p := p) r (live_artifact_ids r source_ids) source_ids
  have hedges := hretire.comp (.of_onlyEdges (onlyEdges_retire_edges p _
    (touches (live_artifact_ids r source_ids)))) (by simp)
  have hcaches : Sweep p _ _ r (deletion_sweep r r.build_seq source_ids) :=
    hedges.of_sameCore ⟨rfl, rfl, rfl, rfl, rfl⟩
  rw [List.append_nil] at hcaches
  exact hcaches.imp fun a ha hlive => by simp [mem_live_artifact_ids hwf ha hlive]

/-- The prior generation of the changed sources leaves. -/
theorem sweep_supersession (hwf : WellFormed p r) (changed : List Uuid) :
    Sweep p (fun a => a.source_id ∈ changed ∧ a.valid_from_seq < r.build_seq) [] r
      (supersession_sweep r r.build_seq changed) := by
  have hart := tableStep_retire_artifacts r (prior_generation r r.build_seq changed) r.build_seq
  have hsrc : TableStep (Tombstoned []) (fun _ => False) r.source_items r.source_items :=
    .refl fun s _ => tombstoned_nil s
  have hretire : Sweep p _ [] r (retire_artifacts r (prior_generation r r.build_seq changed) r.build_seq) :=
    ⟨hart, hsrc, rfl, fun hwf => wellFormed_sweep hwf hart hsrc⟩
  have hedges := hretire.comp (.of_onlyEdges (onlyEdges_retire_edges p _
    (touches (prior_generation r r.build_seq changed)))) (by simp)
  exact hedges.imp fun a ha hlive => by simp [mem_prior_generation hwf ha hlive]

/-- An access list was left alone, or replaced by that of the artifact's own seen source. -/
structure AclPropagated (r : Registry) (seen : List Uuid) (a a' : KnowledgeArtifact) : Prop where
  same : SameRow a a'
  invalidated_at_seq : a'.invalidated_at_seq = a.invalidated_at_seq
  acl : a'.acl_teams = a.acl_teams ∨ a.Live ∧ ∃ s ∈ r.source_items, s.source_id ∈ seen ∧
    s.source_id = a.source_id ∧ a'.acl_teams = s.acl_teams

theorem propagate_acl_spec (r : Registry) (seen : List Uuid) :
    ∃ artifacts, propagate_acl r seen = { r with artifacts } ∧
      TableStep (AclPropagated r seen) (fun _ => False) r.artifacts artifacts := by
  unfold propagate_acl
  refine foldl_invariant (I := fun r' : Registry => ∃ artifacts, r' = { r with artifacts } ∧
    TableStep (AclPropagated r seen) (fun _ => False) r.artifacts artifacts) ?_
    ⟨r.artifacts, rfl, .refl fun a _ => ⟨.refl a, rfl, .inl rfl⟩⟩
  rintro mid s hs ⟨artifacts, rfl, hstep⟩
  refine ⟨_, rfl, hstep.trans ?_ ?_ fun _ _ hf _ => hf⟩
  · simp only [List.mem_filter, List.contains_iff_mem] at hs
    refine .of_update_where (fun a _ hp => ?_) fun a _ _ => ⟨.refl a, rfl, .inl rfl⟩
    simp only [Bool.and_eq_true, beq_iff_eq, Option.isNone_iff_eq_none] at hp
    exact ⟨⟨rfl, rfl, rfl, rfl, rfl, rfl, rfl, rfl⟩, rfl, .inr ⟨hp.1.2, s, hs.1, hs.2, hp.1.1.symm, rfl⟩⟩
  · rintro a b c ⟨hsame, hlife, hacl⟩ ⟨hsame', hlife', hacl'⟩
    refine ⟨hsame.trans hsame', hlife'.trans hlife, ?_⟩
    rcases hacl' with hacl' | ⟨hlive, s, hs, hseen, hid, hacl'⟩
    · rw [hacl']
      exact hacl
    · exact .inr ⟨hlife.symm.trans hlive, s, hs, hseen, hid.trans hsame.source_id, hacl'⟩

end Passes

/-- The sources without a rename: these are swept. -/
def swept_sources (r : Registry) (n : Nat) (vanished : List Uuid) : List Uuid :=
  vanished.filter fun id => !((detected_renames r vanished n).map (·.old_source_id)).contains id

/-- The sources the pass tombstones. -/
def tombstoned_sources (r : Registry) (n : Nat) (vanished : List Uuid) : List Uuid :=
  (detected_renames r vanished n).map (·.old_source_id) ++ swept_sources r n vanished

/-- They are among those that vanished, and were not seen. -/
theorem vanished_of_mem_tombstoned {r : Registry} {n : Nat} {vanished : List Uuid} {id : Uuid}
    (h : id ∈ tombstoned_sources r n vanished) : id ∈ vanished := by
  rcases List.mem_append.1 h with hrename | hswept
  · obtain ⟨rename, hmem, rfl⟩ := List.mem_map.1 hrename
    exact (isRename_of_mem hmem).vanished
  · exact List.mem_of_mem_filter hswept

/-- All of those that vanished are among them. -/
theorem mem_tombstoned_of_vanished {r : Registry} {n : Nat} {vanished : List Uuid} {id : Uuid}
    (h : id ∈ vanished) : id ∈ tombstoned_sources r n vanished := by
  rw [tombstoned_sources, List.mem_append]
  by_cases hrename : id ∈ (detected_renames r vanished n).map (·.old_source_id)
  · exact .inl hrename
  · exact .inr (List.mem_filter.2 ⟨h, by simpa using hrename⟩)

theorem not_seen_of_mem_vanished {r : Registry} {seen : List Uuid} {started_at : Timestamp} {id : Uuid}
    (h : id ∈ vanished_live_sources r seen started_at) : id ∉ seen := by
  simp only [vanished_live_sources, List.mem_map, List.mem_filter, Bool.and_eq_true, Bool.not_eq_true',
    List.contains_eq_mem, decide_eq_false_iff_not] at h
  obtain ⟨s, ⟨-, ⟨-, hunseen⟩, -⟩, rfl⟩ := h
  exact hunseen

/-- The live rows the sweeps retire: those a rename leaves behind, those of a swept source, and the
prior generation of a changed source. -/
def Swept (r : Registry) (n : Nat) (vanished changed : List Uuid) (a : KnowledgeArtifact) : Prop :=
  (∃ rename ∈ detected_renames r vanished n, a.artifact_id = rename.old_artifact_id) ∨
    a.source_id ∈ swept_sources r n vanished ∨ a.source_id ∈ changed ∧ a.valid_from_seq < n

instance (r : Registry) (n : Nat) (vanished changed : List Uuid) (a : KnowledgeArtifact) :
    Decidable (Swept r n vanished changed a) :=
  inferInstanceAs (Decidable ((∃ rename ∈ detected_renames r vanished n, _) ∨ _ ∨ _))

/-- What the invalidation pass does to an artifact. -/
structure InvalidatedRow (r : Registry) (vanished seen changed : List Uuid) (a a' : KnowledgeArtifact) :
    Prop where
  same : SameRow a a'
  evolves : a.Evolves r.build_seq a'.toLifespan
  live_iff : a'.Live ↔ a.Live ∧ ¬ Swept r r.build_seq vanished changed a
  acl : a'.acl_teams = a.acl_teams ∨ a'.Live ∧ ∃ s ∈ r.source_items, s.source_id ∈ seen ∧
    s.source_id = a.source_id ∧ a'.acl_teams = s.acl_teams

/-- The pass as a whole: rows are retired, sources tombstoned, and access lists copied. -/
structure Invalidates (p : Platform) (r : Registry) (vanished seen changed : List Uuid) (r' : Registry) :
    Prop where
  artifacts : TableStep (InvalidatedRow r vanished seen changed) (fun _ => False) r.artifacts r'.artifacts
  source_items : TableStep (Tombstoned (tombstoned_sources r r.build_seq vanished)) (fun _ => False)
    r.source_items r'.source_items
  build_seq : r'.build_seq = r.build_seq
  wellFormed : WellFormed p r'

theorem run_invalidation_pass_spec {p : Platform} {r r' : Registry} (hwf : WellFormed p r)
    {seen changed : List Uuid} {started_at : Timestamp}
    (h : run_invalidation_pass r r.build_seq seen changed started_at = some r') :
    Invalidates p r (vanished_live_sources r seen started_at) seen changed r' := by
  simp only [run_invalidation_pass, Option.bind_eq_bind, Option.bind_eq_some_iff, Option.some.injEq] at h
  obtain ⟨renamed, hrenamed, rfl⟩ := h
  set vanished := vanished_live_sources r seen started_at with hvanished
  have hrenames := sweep_apply_renames (p := p) hrenamed
  have hdeletion := sweep_deletion (hrenames.wellFormed hwf) (swept_sources r r.build_seq vanished)
  rw [hrenames.build_seq] at hdeletion
  have hdeleted := hrenames.comp hdeletion fun a a' hsame => by rw [hsame.source_id]
  have hsupersession := sweep_supersession (hdeleted.wellFormed hwf) changed
  rw [hdeleted.build_seq] at hsupersession
  have hswept := hdeleted.comp hsupersession fun a a' hsame => by
    rw [hsame.source_id, hsame.valid_from_seq]
  rw [List.append_nil] at hswept
  set swept := supersession_sweep (deletion_sweep renamed r.build_seq
    (swept_sources r r.build_seq vanished)) r.build_seq changed with hsweptr
  obtain ⟨artifacts, hprop, hacl⟩ := propagate_acl_spec swept seen
  have hgoal : Invalidates p r vanished seen changed { swept with artifacts } := by
    refine ⟨?_, hswept.source_items, hswept.build_seq, ?_⟩
    · obtain ⟨f, added, hf, hkf, haf⟩ := hswept.artifacts
      obtain ⟨g, added', hg, hkg, hag⟩ := hacl
      obtain rfl : added = [] := List.eq_nil_iff_forall_not_mem.2 fun a ha => haf a ha
      obtain rfl : added' = [] := List.eq_nil_iff_forall_not_mem.2 fun a ha => hag a ha
      refine ⟨g ∘ f, [], by simp [hg, hf], fun a ha => ?_, by simp⟩
      have hfa := hkf a ha
      have hga := hkg (f a) (by rw [hf]; exact List.mem_append_left _ (List.mem_map_of_mem ha))
      have hspan : (g (f a)).toLifespan = (f a).toLifespan := by
        rw [Lifespan.mk.injEq]
        exact ⟨hga.same.valid_from_seq, hga.invalidated_at_seq⟩
      refine ⟨hfa.same.trans hga.same, ?_, ?_, ?_⟩
      · rw [Function.comp_apply, hspan]
        exact hfa.evolves
      · rw [Function.comp_apply, hspan, hfa.live_iff]
        simp only [Swept, or_assoc]
      · rcases hga.acl with heq | ⟨hlive, s, hs, hseen, hid, heq⟩
        · exact .inl (heq.trans hfa.acl_teams)
        · obtain ⟨s₀, hs₀, hk⟩ := (hswept.source_items.origin hs).resolve_right id
          rw [show s = _ from hk] at hseen hid heq
          refine .inr ⟨?_, s₀, hs₀, hseen, hid.trans hfa.same.source_id, heq⟩
          rw [Function.comp_apply, hspan]
          exact hlive
    · have hwf' := hswept.wellFormed hwf
      exact hwf'.set_artifacts (hacl.mono (fun a _ a' hk =>
        ⟨hk.same.artifact_id, hk.same.valid_from_seq, .inl hk.invalidated_at_seq⟩) fun _ hf => hf)
  exact hprop ▸ hgoal

/-- What the invalidation pass leaves of an edge that it retires or repoints. -/
structure SameLink (e e' : KnowledgeEdge) : Prop where
  edge_type : e'.edge_type = e.edge_type
  source : e'.source = e.source
  evidence : e'.evidence = e.evidence

theorem SameLink.refl (e : KnowledgeEdge) : SameLink e e := ⟨rfl, rfl, rfl⟩

theorem SameLink.trans {a b c : KnowledgeEdge} (hab : SameLink a b) (hbc : SameLink b c) : SameLink a c :=
  ⟨hbc.edge_type.trans hab.edge_type, hbc.source.trans hab.source, hbc.evidence.trans hab.evidence⟩

section Links

variable {r r' : Registry} {n : Nat}

/-- The edges of two registries are the same links. -/
def SameLinks (r r' : Registry) : Prop := TableStep SameLink (fun _ => False) r.edges r'.edges

theorem SameLinks.of_eq (h : r'.edges = r.edges) : SameLinks r r' := by
  unfold SameLinks
  rw [h]
  exact .refl fun e _ => .refl e

theorem SameLinks.trans {r'' : Registry} (h : SameLinks r r') (h' : SameLinks r' r'') : SameLinks r r'' :=
  TableStep.trans h h' (fun _ _ _ => .trans) fun _ _ hf => hf.elim

theorem sameLinks_retire_edges (r : Registry) (n : Nat) (stale : KnowledgeEdge → Bool) :
    SameLinks r (retire_edges r n stale) :=
  .of_update_where (fun _ _ _ => ⟨rfl, rfl, rfl⟩) fun e _ _ => .refl e

theorem Reattached.sameLink {old_id new_id : Uuid} {from_side : Bool} {e e' : KnowledgeEdge}
    (h : Reattached n old_id new_id from_side e e') : SameLink e e' := by
  cases h with
  | kept | loop => exact ⟨rfl, rfl, rfl⟩
  | repointed => cases from_side <;> exact ⟨rfl, rfl, rfl⟩

private theorem sameLinks_apply_rename {rename : Rename} (h : apply_rename n r rename = some r') :
    SameLinks r r' := by
  simp only [apply_rename, Option.bind_eq_bind, Option.bind_eq_some_iff, Option.some.injEq] at h
  obtain ⟨mid, hmid, rfl⟩ := h
  have hreattached : SameLinks r mid := by
    refine foldlM_invariant (I := SameLinks r) (fun mid side mid' _ hsame hstep => ?_) ?_ hmid
    · obtain ⟨edges, rfl, hedges⟩ := reattach_side_spec hstep
      exact hsame.trans (hedges.mono (fun _ _ _ hk => hk.sameLink) fun _ hf => hf)
    · exact .of_eq rfl
  exact hreattached.trans (.of_eq rfl)

theorem sameLinks_run_invalidation_pass {seen changed : List Uuid} {started_at : Timestamp}
    (h : run_invalidation_pass r n seen changed started_at = some r') : SameLinks r r' := by
  simp only [run_invalidation_pass, Option.bind_eq_bind, Option.bind_eq_some_iff, Option.some.injEq] at h
  obtain ⟨renamed, hrenamed, rfl⟩ := h
  have hrenames : SameLinks r renamed := foldlM_invariant (I := SameLinks r)
    (fun _ _ _ _ hsame hstep => hsame.trans (sameLinks_apply_rename hstep)) (.of_eq rfl) hrenamed
  have hdeletion : ∀ mid ids, SameLinks mid (deletion_sweep mid n ids) := fun mid ids =>
    sameLinks_retire_edges mid n (touches (live_artifact_ids mid ids))
  have hsupersession : ∀ mid ids, SameLinks mid (supersession_sweep mid n ids) := fun mid ids =>
    sameLinks_retire_edges mid n (touches (prior_generation mid n ids))
  have hacl : ∀ mid, SameLinks mid (propagate_acl mid seen) := by
    intro mid
    obtain ⟨artifacts, hprop, -⟩ := propagate_acl_spec mid seen
    exact .of_eq (by rw [hprop])
  exact ((hrenames.trans (hdeletion _ _)).trans (hsupersession _ _)).trans (hacl _)

end Links

section Spared

variable {r r' : Registry} {n : Nat}

theorem mem_tombstone_sources {ids : List Uuid} {row : SourceItem} (hrow : row ∈ r.source_items)
    (hid : row.source_id ∉ ids) : row ∈ (tombstone_sources r ids).source_items := by
  refine List.mem_map.2 ⟨row, hrow, ?_⟩
  rw [if_neg (by simpa using hid)]

theorem source_items_reattach_edges {old_id new_id : Uuid} (h : reattach_edges r old_id new_id n = some r') :
    r'.source_items = r.source_items := by
  refine foldlM_invariant (I := fun mid : Registry => mid.source_items = r.source_items) ?_ rfl h
  intro mid side r' _ hsame hside
  obtain ⟨edges, rfl, -⟩ := reattach_side_spec hside
  exact hsame

/-- The pass rewrites no source row but those that vanished. -/
theorem mem_source_items_run_invalidation_pass {seen changed : List Uuid} {started_at : Timestamp}
    (h : run_invalidation_pass r n seen changed started_at = some r') {row : SourceItem}
    (hrow : row ∈ r.source_items) (hid : row.source_id ∉ vanished_live_sources r seen started_at) :
    row ∈ r'.source_items := by
  simp only [run_invalidation_pass, Option.bind_eq_bind, Option.bind_eq_some_iff, Option.some.injEq] at h
  obtain ⟨renamed, hrenamed, rfl⟩ := h
  have hrenames : row ∈ renamed.source_items := by
    refine foldlM_invariant (I := fun mid : Registry => row ∈ mid.source_items) ?_ hrow hrenamed
    intro mid rename mid' hrename hmid hstep
    simp only [apply_rename, Option.bind_eq_bind, Option.bind_eq_some_iff, Option.some.injEq] at hstep
    obtain ⟨reattached, hreattached, rfl⟩ := hstep
    apply mem_tombstone_sources
    · exact (source_items_reattach_edges hreattached).symm ▸ hmid
    · intro hmem
      rw [List.mem_singleton.1 hmem] at hid
      exact hid (isRename_of_mem hrename).vanished
  set vanished := vanished_live_sources r seen started_at
  have hdeletion : row ∈ (deletion_sweep renamed n (vanished.filter fun id =>
      !((detected_renames r vanished n).map (·.old_source_id)).contains id)).source_items :=
    mem_tombstone_sources hrenames fun hmem => hid (List.mem_of_mem_filter hmem)
  obtain ⟨artifacts, hprop, -⟩ := propagate_acl_spec (supersession_sweep (deletion_sweep renamed n
    (vanished.filter fun id => !((detected_renames r vanished n).map (·.old_source_id)).contains id)) n changed)
    seen
  rw [hprop]
  exact hdeletion

end Spared

end AgenticKb
