import AgenticKb.Effects.WellFormed

open AgenticKb.Lib

namespace AgenticKb

/-- The unique key of a fetched source. -/
def NormalizedContent.key (fetched : NormalizedContent) : SourceType × String :=
  (fetched.source.source_type, fetched.source.source_uri)

@[simp] theorem same_source_iff {fetched : NormalizedContent} {s : SourceItem} :
    same_source fetched s = true ↔ s.key = fetched.key := by
  simp [same_source, SourceItem.key, NormalizedContent.key]

theorem source_row_eq_some {r : Registry} {fetched : NormalizedContent} {s : SourceItem}
    (h : source_row r fetched = some s) : s ∈ r.source_items ∧ same_source fetched s = true :=
  ⟨List.mem_of_find?_eq_some h, List.find?_some h⟩

/-- The row of a fetched source is the only one of its key. -/
theorem WellFormed.source_row_eq {p : Platform} {r : Registry} (h : WellFormed p r)
    {fetched : NormalizedContent} {s : SourceItem} (hs : s ∈ r.source_items)
    (hsame : same_source fetched s = true) : source_row r fetched = some s := by
  cases hrow : source_row r fetched with
  | none =>
    have hnone := List.find?_eq_none.1 hrow s hs
    exact absurd hsame hnone
  | some s' =>
    obtain ⟨hs', hsame'⟩ := source_row_eq_some hrow
    rw [same_source_iff] at hsame hsame'
    rw [h.source_eq_of_key hs hs' (hsame.trans hsame'.symm)]

/-- A row whose last record and access list alone may have changed. -/
def Touched (s s' : SourceItem) : Prop :=
  s'.source_id = s.source_id ∧ s'.key = s.key ∧ s'.content_hash = s.content_hash ∧
    s'.is_deleted = s.is_deleted

theorem Touched.refl (s : SourceItem) : Touched s s := ⟨rfl, rfl, rfl, rfl⟩

theorem Touched.symm {a b : SourceItem} (h : Touched a b) : Touched b a :=
  ⟨h.1.symm, h.2.1.symm, h.2.2.1.symm, h.2.2.2.symm⟩

theorem Touched.trans {a b c : SourceItem} (hab : Touched a b) (hbc : Touched b c) : Touched a c :=
  ⟨hbc.1.trans hab.1, hbc.2.1.trans hab.2.1, hbc.2.2.1.trans hab.2.2.1, hbc.2.2.2.trans hab.2.2.2⟩

/-- Nothing but the last record and the access lists of source rows differs. -/
structure OnlyTouched (r r' : Registry) : Prop where
  source_items : TableStep Touched (fun _ => False) r.source_items r'.source_items
  artifacts : r'.artifacts = r.artifacts
  edges : r'.edges = r.edges
  build_seq : r'.build_seq = r.build_seq
  uuids : r'.uuids = r.uuids

namespace OnlyTouched

variable {p : Platform} {r r' r'' : Registry}

theorem of_sameCore (h : SameCore r r') : OnlyTouched r r' :=
  ⟨h.source_items ▸ TableStep.refl fun s _ => .refl s, h.artifacts, h.edges, h.build_seq, h.uuids⟩

theorem refl (r : Registry) : OnlyTouched r r := of_sameCore (.refl r)

theorem trans (h : OnlyTouched r r') (h' : OnlyTouched r' r'') : OnlyTouched r r'' :=
  ⟨h.source_items.trans h'.source_items (fun _ _ _ => Touched.trans) (fun _ _ hf _ => hf),
    h'.artifacts.trans h.artifacts, h'.edges.trans h.edges, h'.build_seq.trans h.build_seq,
    h'.uuids.trans h.uuids⟩

theorem wellFormed (h : OnlyTouched r r') (hwf : WellFormed p r) : WellFormed p r' := by
  have hstep := hwf.set_sources (h.source_items.mono (fun _ _ _ hk => ⟨hk.1, hk.2.1⟩) fun _ hf => hf)
  exact hstep.of_sameCore ⟨rfl, h.artifacts, h.edges, h.build_seq, h.uuids⟩

/-- The rows before a touch, seen from the rows after it. -/
theorem origin (h : OnlyTouched r r') {s' : SourceItem} (hs' : s' ∈ r'.source_items) :
    ∃ s ∈ r.source_items, Touched s s' :=
  (h.source_items.origin hs').resolve_right id

theorem persist (h : OnlyTouched r r') :
    ∀ row ∈ r.source_items, ∃ row' ∈ r'.source_items, row'.source_id = row.source_id ∧ row'.key = row.key := by
  intro row hrow
  obtain ⟨row', hrow', hk⟩ := h.source_items.successor hrow
  exact ⟨row', hrow', hk.1, hk.2.1⟩

end OnlyTouched

theorem onlyTouched_touch_last_seen (r : Registry) (fetched : NormalizedContent) :
    OnlyTouched r (touch_last_seen r fetched).1 :=
  ⟨.of_update_where (fun _ _ _ => ⟨rfl, rfl, rfl, rfl⟩) (fun s _ _ => .refl s), rfl, rfl, rfl, rfl⟩

/-- The row of this id has a key of this kind. -/
def KeyedBy (P : SourceType × String → Prop) (r : Registry) (id : Uuid) : Prop :=
  ∃ row ∈ r.source_items, row.source_id = id ∧ P row.key

/-- It stays so while rows keep their ids and keys. -/
theorem KeyedBy.persist {r r' : Registry} {P : SourceType × String → Prop} {id : Uuid} (h : KeyedBy P r id)
    (hpersist : ∀ row ∈ r.source_items, ∃ row' ∈ r'.source_items, row'.source_id = row.source_id ∧ row'.key = row.key) :
    KeyedBy P r' id := by
  obtain ⟨row, hrow, hid, hkey⟩ := h
  obtain ⟨row', hrow', hid', hkey'⟩ := hpersist row hrow
  exact ⟨row', hrow', hid'.trans hid, hkey' ▸ hkey⟩

/-- The row of one source was advanced to the fetched content, and no other row was written. -/
structure Advanced (r r' : Registry) (fetched : NormalizedContent) (id : Uuid) : Prop where
  row : ∃ s ∈ r'.source_items, s.source_id = id ∧ same_source fetched s = true ∧
    s.content_hash = fetched.content_hash ∧ s.is_deleted = false
  others : ∀ s, s.source_id ≠ id → (s ∈ r'.source_items ↔ s ∈ r.source_items)
  prior : ∀ s ∈ r.source_items, same_source fetched s = true → s.source_id = id
  persist : ∀ s ∈ r.source_items, ∃ s' ∈ r'.source_items, s'.source_id = s.source_id ∧ s'.key = s.key

/-- The rest of the registry is as it was, up to random ids drawn. -/
structure OnlySources (r r' : Registry) : Prop where
  artifacts : r'.artifacts = r.artifacts
  edges : r'.edges = r.edges
  build_seq : r'.build_seq = r.build_seq
  uuids : r.uuids ≤ r'.uuids

theorem onlySources_upsert_source_item (p : Platform) (r : Registry) (fetched : NormalizedContent) :
    OnlySources r (upsert_source_item p r fetched).1 := by
  unfold upsert_source_item
  cases source_row r fetched with
  | some existing => exact ⟨rfl, rfl, rfl, le_rfl⟩
  | none => exact ⟨rfl, rfl, rfl, Nat.le_succ _⟩

section Upsert

variable {p : Platform} {r : Registry} {fetched : NormalizedContent}

private theorem wellFormed_upsert_new (h : WellFormed p r)
    (hinj : Function.Injective p.gen_random_uuid) (hrow : source_row r fetched = none) {s : SourceItem}
    (hid : s.source_id = r.fresh p) (hsame : same_source fetched s = true) :
    WellFormed p { r with uuids := r.uuids + 1, source_items := r.source_items ++ [s] } := by
  refine { h.set_uuids (n := r.uuids + 1) (by omega) with
    source_keys := ?_, source_ids := ?_, source_ids_drawn := ?_ }
  · rw [List.map_append, List.nodup_append]
    refine ⟨h.source_keys, by simp, ?_⟩
    intro key hkey key' hkey' heq
    obtain ⟨s₀, hs₀, rfl⟩ := List.mem_map.1 hkey
    simp only [List.map_cons, List.map_nil, List.mem_singleton] at hkey'
    have hnone := List.find?_eq_none.1 hrow s₀ hs₀
    rw [same_source_iff] at hsame hnone
    exact hnone (by rw [heq, hkey', hsame])
  · rw [List.map_append, List.nodup_append]
    refine ⟨h.source_ids, by simp, ?_⟩
    intro id hid₀ id' hid' heq
    obtain ⟨s₀, hs₀, rfl⟩ := List.mem_map.1 hid₀
    simp only [List.map_cons, List.map_nil, List.mem_singleton] at hid'
    exact h.fresh_not_source hinj s₀ hs₀ (by rw [heq, hid', hid])
  · intro s₀ hs₀
    rcases List.mem_append.1 hs₀ with hs₀ | hs₀
    · exact (h.source_ids_drawn s₀ hs₀).mono (Nat.le_succ _)
    · rw [List.mem_singleton.1 hs₀]
      exact ⟨r.uuids, Nat.lt_succ_self _, hid.symm⟩

theorem WellFormed.upsert_source_item (fetched : NormalizedContent) (h : WellFormed p r)
    (hinj : Function.Injective p.gen_random_uuid) :
    WellFormed p (AgenticKb.upsert_source_item p r fetched).1 := by
  unfold AgenticKb.upsert_source_item
  cases hrow : source_row r fetched with
  | some existing =>
    refine h.set_sources (.of_update_where (fun s _ _ => ⟨rfl, rfl⟩) fun s _ _ => ⟨rfl, rfl⟩)
  | none => exact wellFormed_upsert_new h hinj hrow rfl (by simp [SourceItem.key, NormalizedContent.key])

theorem advanced_upsert_source_item (fetched : NormalizedContent) (h : WellFormed p r) :
    Advanced r (upsert_source_item p r fetched).1 fetched (upsert_source_item p r fetched).2 := by
  unfold upsert_source_item
  cases hrow : source_row r fetched with
  | some existing =>
    obtain ⟨hmem, hsame⟩ := source_row_eq_some hrow
    have honly : ∀ s ∈ r.source_items, same_source fetched s = true → s = existing := by
      intro s hs hs'
      rw [same_source_iff] at hsame hs'
      exact h.source_eq_of_key hs hmem (hs'.trans hsame.symm)
    constructor
    · refine ⟨_, List.mem_map_of_mem hmem, ?_⟩
      rw [if_pos hsame]
      exact ⟨rfl, by simpa [SourceItem.key] using same_source_iff.1 hsame, rfl, rfl⟩
    · intro s hs
      simp only [update_where, List.mem_map]
      constructor
      · rintro ⟨s₀, hs₀, rfl⟩
        split at hs
        · rename_i hs₀'
          exact absurd (by rw [honly s₀ hs₀ hs₀']) hs
        · rename_i hs₀'
          rwa [if_neg hs₀']
      · intro hs₀
        refine ⟨s, hs₀, if_neg fun hs' => hs ?_⟩
        rw [honly s hs₀ hs']
    · exact fun s hs hs' => by rw [honly s hs hs']
    · intro s hs
      refine ⟨_, List.mem_map_of_mem hs, ?_⟩
      split <;> exact ⟨rfl, rfl⟩
  | none =>
    have hnone := List.find?_eq_none.1 hrow
    constructor
    · exact ⟨_, List.mem_append_right _ List.mem_cons_self, rfl, by simp [SourceItem.key, NormalizedContent.key], rfl, rfl⟩
    · intro s hs
      simp only [List.mem_append, List.mem_singleton, or_iff_left_iff_imp]
      rintro rfl
      exact absurd rfl hs
    · exact fun s hs hs' => absurd hs' (hnone s hs)
    · exact fun s hs => ⟨s, List.mem_append_left _ hs, rfl, rfl⟩

end Upsert

end AgenticKb
