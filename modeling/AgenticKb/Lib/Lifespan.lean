import Mathlib.Data.Set.Basic

namespace AgenticKb.Lib

/-- The interval of versions in which a row is served: the version that introduced it and, once
it has left, the version it left in. -/
structure Lifespan where
  valid_from_seq : Nat
  invalidated_at_seq : Option Nat := none
deriving DecidableEq, Repr

namespace Lifespan

/-- A row no version has retired yet. -/
def Live (l : Lifespan) : Prop := l.invalidated_at_seq = none

instance (l : Lifespan) : Decidable l.Live := inferInstanceAs (Decidable (_ = _))

/-- Interval membership: version `s` serves the row. -/
def MemberAt (s : Nat) (l : Lifespan) : Prop :=
  l.valid_from_seq ≤ s ∧ (l.invalidated_at_seq = none ∨ ∃ k ∈ l.invalidated_at_seq, s < k)

instance (s : Nat) (l : Lifespan) : Decidable (l.MemberAt s) :=
  inferInstanceAs (Decidable (_ ∧ (_ ∨ ∃ k ∈ l.invalidated_at_seq, s < k)))

/-- Every stamp of the interval was made by version `n` or an earlier one. -/
def StampedBy (n : Nat) (l : Lifespan) : Prop :=
  l.valid_from_seq ≤ n ∧ ∀ k ∈ l.invalidated_at_seq, k ≤ n

theorem StampedBy.mono {n m : Nat} {l : Lifespan} (h : l.StampedBy n) (hle : n ≤ m) :
    l.StampedBy m :=
  ⟨h.1.trans hle, fun k hk => (h.2 k hk).trans hle⟩

/-- At the newest version the interval test is the liveness test. -/
theorem StampedBy.memberAt_iff_live {n : Nat} {l : Lifespan} (h : l.StampedBy n) :
    l.MemberAt n ↔ l.Live := by
  constructor
  · rintro ⟨_, hlive | ⟨k, hk, hlt⟩⟩
    · exact hlive
    · have hle := h.2 k hk
      omega
  · exact fun hlive => ⟨h.1, .inl hlive⟩

theorem not_memberAt_of_lt {s : Nat} {l : Lifespan} (h : s < l.valid_from_seq) :
    ¬ l.MemberAt s :=
  fun hmem => absurd hmem.1 (by omega)

/-- What version `n` may do to the interval of a row without touching any earlier version: leave
it, end it, or take back an end that this same version had set. -/
inductive Evolves (n : Nat) : Lifespan → Lifespan → Prop where
  | keep (l : Lifespan) : Evolves n l l
  | retire {l : Lifespan} (hlive : l.Live) : Evolves n l { l with invalidated_at_seq := some n }
  | revive {l : Lifespan} (hend : l.invalidated_at_seq = some n) :
      Evolves n l { l with invalidated_at_seq := none }

/-- No version before `n` notices a step of version `n`. -/
theorem Evolves.memberAt_iff {n s : Nat} {l l' : Lifespan} (h : Evolves n l l') (hs : s < n) :
    l'.MemberAt s ↔ l.MemberAt s := by
  cases h with
  | keep => exact Iff.rfl
  | retire hlive =>
    unfold Live at hlive
    simp [MemberAt, hlive, hs]
  | revive hend => simp [MemberAt, hend, hs]

theorem Evolves.valid_from {n : Nat} {l l' : Lifespan} (h : Evolves n l l') :
    l'.valid_from_seq = l.valid_from_seq := by
  cases h <;> rfl

theorem Evolves.trans {n : Nat} {a b c : Lifespan} (hab : Evolves n a b) (hbc : Evolves n b c) :
    Evolves n a c := by
  cases hab with
  | keep => exact hbc
  | retire hlive =>
    cases hbc with
    | keep => exact .retire hlive
    | retire hlive' => simp [Live] at hlive'
    | revive =>
      have ha : ({ a with invalidated_at_seq := none } : Lifespan) = a := by
        cases a
        simpa [Live] using hlive.symm
      simpa [ha] using Evolves.keep (n := n) a
  | revive hend =>
    cases hbc with
    | keep => exact .revive hend
    | retire =>
      have ha : ({ a with invalidated_at_seq := some n } : Lifespan) = a := by
        cases a
        simpa using hend.symm
      simpa [ha] using Evolves.keep (n := n) a
    | revive hend' => simp at hend'

/-- What a write of version `n` may do to an interval at all: it never moves the start, and sets the
end to `n` or clears it. Unlike `Evolves` it may clear the end of an earlier version. -/
def Restamped (n : Nat) (l l' : Lifespan) : Prop :=
  l'.valid_from_seq = l.valid_from_seq ∧
    (l'.invalidated_at_seq = l.invalidated_at_seq ∨ l'.invalidated_at_seq = none ∨
      l'.invalidated_at_seq = some n)

theorem Restamped.refl (n : Nat) (l : Lifespan) : Restamped n l l := ⟨rfl, .inl rfl⟩

theorem Restamped.trans {n : Nat} {a b c : Lifespan} (hab : Restamped n a b) (hbc : Restamped n b c) :
    Restamped n a c := by
  refine ⟨hbc.1.trans hab.1, ?_⟩
  rcases hbc.2 with h | h | h
  · rw [h]
    exact hab.2
  · exact .inr (.inl h)
  · exact .inr (.inr h)

theorem Evolves.restamped {n : Nat} {l l' : Lifespan} (h : Evolves n l l') : Restamped n l l' := by
  cases h with
  | keep => exact .refl n l
  | retire => exact ⟨rfl, .inr (.inr rfl)⟩
  | revive => exact ⟨rfl, .inr (.inl rfl)⟩

theorem Restamped.stampedBy {n : Nat} {l l' : Lifespan} (h : Restamped n l l') (hl : l.StampedBy n) :
    l'.StampedBy n := by
  refine ⟨h.1 ▸ hl.1, fun k hk => ?_⟩
  rcases h.2 with heq | heq | heq
  · exact hl.2 k (heq ▸ hk)
  · simp [heq] at hk
  · simp only [heq, Option.mem_def, Option.some.injEq] at hk
    omega

/-- A row version `n` introduces. -/
def IntroducedBy (n : Nat) (l : Lifespan) : Prop := l.valid_from_seq = n ∧ l.Live

theorem IntroducedBy.stampedBy {n : Nat} {l : Lifespan} (h : l.IntroducedBy n) : l.StampedBy n :=
  ⟨h.1.le, fun k hk => by simp [show l.invalidated_at_seq = none from h.2] at hk⟩

end Lifespan

section Published

variable {Row Payload : Type*} (span : Row → Lifespan) (payload : Row → Payload)

/-- What a reader pinned to version `s` finds in a table: the payloads of its members at `s`. -/
def published (s : Nat) (table : List Row) : Set Payload :=
  { b | ∃ row ∈ table, (span row).MemberAt s ∧ payload row = b }

instance [DecidableEq Payload] (s : Nat) (table : List Row) (b : Payload) :
    Decidable (b ∈ published span payload s table) :=
  inferInstanceAs (Decidable (∃ row ∈ table, (span row).MemberAt s ∧ payload row = b))

/-- Updating rows in place leaves version `s` alone when no row enters or leaves it and the rows
it serves keep their payload. -/
theorem published_map {s : Nat} {table : List Row} {f : Row → Row}
    (hmem : ∀ row ∈ table, (span (f row)).MemberAt s ↔ (span row).MemberAt s)
    (hpay : ∀ row ∈ table, (span row).MemberAt s → payload (f row) = payload row) :
    published span payload s (table.map f) = published span payload s table := by
  ext b
  constructor
  · rintro ⟨row', hrow', hmember, rfl⟩
    obtain ⟨row, hrow, rfl⟩ := List.mem_map.1 hrow'
    have hmember' := (hmem row hrow).1 hmember
    exact ⟨row, hrow, hmember', (hpay row hrow hmember').symm⟩
  · rintro ⟨row, hrow, hmember, rfl⟩
    exact ⟨f row, List.mem_map_of_mem hrow, (hmem row hrow).2 hmember, hpay row hrow hmember⟩

/-- Rows a later version introduces are invisible at `s`. -/
theorem published_append {s : Nat} {table added : List Row}
    (hnew : ∀ row ∈ added, s < (span row).valid_from_seq) :
    published span payload s (table ++ added) = published span payload s table := by
  ext b
  constructor
  · rintro ⟨row, hrow, hmember, rfl⟩
    rcases List.mem_append.1 hrow with hrow | hrow
    · exact ⟨row, hrow, hmember, rfl⟩
    · exact absurd hmember (Lifespan.not_memberAt_of_lt (hnew row hrow))
  · rintro ⟨row, hrow, hmember, rfl⟩
    exact ⟨row, List.mem_append_left _ hrow, hmember, rfl⟩

end Published

end AgenticKb.Lib
