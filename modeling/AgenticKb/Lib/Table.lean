import Mathlib.Data.List.Nodup
import AgenticKb.Lib.Lifespan

namespace AgenticKb.Lib

section Writes

variable {Row : Type*}

/-- `UPDATE table SET set WHERE p`. -/
def update_where (table : List Row) (p : Row → Bool) (set : Row → Row) : List Row :=
  table.map fun row => if p row then set row else row

/-- What a sequence of writes did to a table: every row is still there, changed as `Keep` allows,
and every row that came in satisfies `Add`. -/
def TableStep (Keep : Row → Row → Prop) (Add : Row → Prop) (table table' : List Row) : Prop :=
  ∃ f added, table' = table.map f ++ added ∧ (∀ row ∈ table, Keep row (f row)) ∧
    ∀ row ∈ added, Add row

namespace TableStep

variable {Keep Keep' : Row → Row → Prop} {Add Add' : Row → Prop} {table table' table'' : List Row}

theorem refl (hrefl : ∀ row ∈ table, Keep row row) : TableStep Keep Add table table :=
  ⟨id, [], by simp, hrefl, by simp⟩

theorem of_update_where {p : Row → Bool} {set : Row → Row}
    (hset : ∀ row ∈ table, p row = true → Keep row (set row))
    (hrefl : ∀ row ∈ table, p row = false → Keep row row) :
    TableStep Keep Add table (update_where table p set) := by
  refine ⟨fun row => if p row then set row else row, [], by simp [update_where], ?_, by simp⟩
  intro row hrow
  cases hp : p row with
  | true => simpa [hp] using hset row hrow hp
  | false => simpa [hp] using hrefl row hrow hp

theorem of_append {added : List Row} (hrefl : ∀ row ∈ table, Keep row row)
    (hadd : ∀ row ∈ added, Add row) : TableStep Keep Add table (table ++ added) :=
  ⟨id, added, by simp, hrefl, hadd⟩

theorem append (h : TableStep Keep Add table table') {rows : List Row} (hadd : ∀ row ∈ rows, Add row) :
    TableStep Keep Add table (table' ++ rows) := by
  obtain ⟨f, added, rfl, hk, ha⟩ := h
  refine ⟨f, added ++ rows, List.append_assoc .., hk, fun row hrow => ?_⟩
  exact (List.mem_append.1 hrow).elim (ha row) (hadd row)

theorem mono (h : TableStep Keep Add table table')
    (hkeep : ∀ row ∈ table, ∀ row', Keep row row' → Keep' row row') (hadd : ∀ row, Add row → Add' row) :
    TableStep Keep' Add' table table' := by
  obtain ⟨f, added, rfl, hk, ha⟩ := h
  exact ⟨f, added, rfl, fun row hrow => hkeep row hrow _ (hk row hrow), fun row hrow => hadd row (ha row hrow)⟩

/-- Where every row of the later table comes from. -/
theorem origin (h : TableStep Keep Add table table') {row' : Row} (hrow' : row' ∈ table') :
    (∃ row ∈ table, Keep row row') ∨ Add row' := by
  obtain ⟨f, added, rfl, hk, ha⟩ := h
  rcases List.mem_append.1 hrow' with hmem | hmem
  · obtain ⟨row, hrow, rfl⟩ := List.mem_map.1 hmem
    exact .inl ⟨row, hrow, hk row hrow⟩
  · exact .inr (ha row' hmem)

/-- What became of every row of the earlier table. -/
theorem successor (h : TableStep Keep Add table table') {row : Row} (hrow : row ∈ table) :
    ∃ row' ∈ table', Keep row row' := by
  obtain ⟨f, added, rfl, hk, -⟩ := h
  exact ⟨f row, List.mem_append_left _ (List.mem_map_of_mem hrow), hk row hrow⟩

/-- Two writes in a row are one, when what they do to a row composes. -/
theorem trans (h : TableStep Keep Add table table') (h' : TableStep Keep Add table' table'')
    (hcomp : ∀ a b c, Keep a b → Keep b c → Keep a c) (hadd : ∀ a b, Add a → Keep a b → Add b) :
    TableStep Keep Add table table'' := by
  obtain ⟨f, added, rfl, hk, ha⟩ := h
  obtain ⟨g, added', rfl, hk', ha'⟩ := h'
  refine ⟨g ∘ f, added.map g ++ added', by simp, ?_, ?_⟩
  · intro row hrow
    exact hcomp _ _ _ (hk row hrow) (hk' _ (List.mem_append_left _ (List.mem_map_of_mem hrow)))
  · intro row hrow
    rcases List.mem_append.1 hrow with hmem | hmem
    · obtain ⟨row₀, hrow₀, rfl⟩ := List.mem_map.1 hmem
      exact hadd _ _ (ha row₀ hrow₀) (hk' _ (List.mem_append_right _ hrow₀))
    · exact ha' row hmem

/-- A property of rows that no write breaks and every new row has holds throughout. -/
theorem forall_mem {P : Row → Prop} (h : TableStep Keep Add table table')
    (hkeep : ∀ row row', P row → Keep row row' → P row') (hadd : ∀ row, Add row → P row)
    (hall : ∀ row ∈ table, P row) : ∀ row' ∈ table', P row' := by
  intro row' hrow'
  rcases h.origin hrow' with ⟨row, hrow, hk⟩ | ha
  · exact hkeep row row' (hall row hrow) hk
  · exact hadd row' ha

/-- The column of a key that no write touches only grows. -/
theorem map_key {Key : Type*} (h : TableStep Keep Add table table') (key : Row → Key)
    (hkey : ∀ row row', Keep row row' → key row' = key row) :
    ∃ added : List Row, table'.map key = table.map key ++ added.map key ∧ ∀ row ∈ added, Add row := by
  obtain ⟨f, added, rfl, hk, ha⟩ := h
  refine ⟨added, ?_, ha⟩
  rw [List.map_append, List.map_map]
  congr 1
  exact List.map_congr_left fun row hrow => hkey row _ (hk row hrow)

/-- A selection of rows that no write touches stays as it was. -/
theorem filter_eq {p : Row → Bool} (h : TableStep Keep Add table table')
    (hkeep : ∀ row row', Keep row row' → p row' = p row ∧ (p row = true → row' = row))
    (hadd : ∀ row, Add row → p row = false) : table'.filter p = table.filter p := by
  obtain ⟨f, added, rfl, hk, ha⟩ := h
  have hnone : added.filter p = [] := List.filter_eq_nil_iff.2 fun row hrow => by simp [hadd row (ha row hrow)]
  rw [List.filter_append, hnone, List.append_nil]
  clear ha hnone
  induction table with
  | nil => rfl
  | cons row table ih =>
    obtain ⟨hp, hsame⟩ := hkeep _ _ (hk row List.mem_cons_self)
    have hrest := ih fun row' hrow' => hk row' (List.mem_cons_of_mem row hrow')
    cases hrow : p row with
    | true => rw [List.map_cons, List.filter_cons_of_pos (hp.trans hrow), List.filter_cons_of_pos hrow, hrest, hsame hrow]
    | false =>
      rw [List.map_cons, List.filter_cons_of_neg (by rw [hp, hrow]; simp),
        List.filter_cons_of_neg (by rw [hrow]; simp), hrest]

/-- Writes of version `n` are invisible at an earlier version `s` when they leave alone the interval
and the payload of the rows `s` serves. -/
theorem published {Payload : Type*} {span : Row → Lifespan} {payload : Row → Payload} {s : Nat}
    (h : TableStep Keep Add table table')
    (hmem : ∀ row row', Keep row row' → ((span row').MemberAt s ↔ (span row).MemberAt s))
    (hpay : ∀ row row', Keep row row' → (span row).MemberAt s → payload row' = payload row)
    (hadd : ∀ row, Add row → s < (span row).valid_from_seq) :
    Lib.published span payload s table' = Lib.published span payload s table := by
  obtain ⟨f, added, rfl, hk, ha⟩ := h
  rw [published_append span payload fun row hrow => hadd row (ha row hrow)]
  exact published_map span payload (fun row hrow => hmem row _ (hk row hrow))
    fun row hrow => hpay row _ (hk row hrow)

end TableStep

end Writes

/-- Two lists have the same members. -/
def SameMembers {Row : Type*} (rows rows' : List Row) : Prop := ∀ row, row ∈ rows ↔ row ∈ rows'

instance {Row : Type*} [DecidableEq Row] (rows rows' : List Row) : Decidable (SameMembers rows rows') :=
  decidable_of_iff ((∀ row ∈ rows, row ∈ rows') ∧ ∀ row ∈ rows', row ∈ rows)
    ⟨fun h row => ⟨h.1 row, h.2 row⟩, fun h => ⟨fun row => (h row).1, fun row => (h row).2⟩⟩

section Filters

variable {Row : Type*}

/-- An update that leaves a selection's membership alone leaves the selection as it was exactly when it changes
none of its rows. -/
theorem filter_map_eq_iff {p : Row → Bool} {f : Row → Row} {table : List Row}
    (hp : ∀ row ∈ table, p (f row) = p row) :
    (table.map f).filter p = table.filter p ↔ ∀ row ∈ table, p row = true → f row = row := by
  induction table with
  | nil => simp
  | cons row table ih =>
    have hrest := ih fun row' hrow' => hp row' (List.mem_cons_of_mem row hrow')
    have hhead := hp row List.mem_cons_self
    cases hrow : p row with
    | true =>
      rw [List.map_cons, List.filter_cons_of_pos (hhead.trans hrow), List.filter_cons_of_pos hrow,
        List.cons.injEq, hrest, List.forall_mem_cons]
      simp [hrow]
    | false =>
      rw [List.map_cons, List.filter_cons_of_neg (by rw [hhead, hrow]; simp),
        List.filter_cons_of_neg (by rw [hrow]; simp), hrest, List.forall_mem_cons]
      simp [hrow]

end Filters

section Keyed

variable {Row Key : Type*} {key : Row → Key} {table : List Row}

/-- Two rows of one key are the same row. -/
theorem eq_of_key_eq (hnodup : (table.map key).Nodup) {row row' : Row} (hrow : row ∈ table)
    (hrow' : row' ∈ table) (hkey : key row = key row') : row = row' :=
  List.inj_on_of_nodup_map hnodup hrow hrow' hkey

end Keyed

end AgenticKb.Lib
