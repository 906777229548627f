import AgenticKb.Registry

namespace AgenticKb.ContextBroker

/-- The floors a request may name. -/
inductive TrustFloor where
  | EXTRACTED | INFERRED_HIGH | INFERRED_LOW
deriving DecidableEq, Repr

def TrustFloor.trust_class : TrustFloor → TrustClass
  | .EXTRACTED => .EXTRACTED
  | .INFERRED_HIGH => .INFERRED_HIGH
  | .INFERRED_LOW => .INFERRED_LOW

/-- Strictly increasing trust. -/
def trust_rank : TrustClass → Nat
  | .REJECTED => 0
  | .AMBIGUOUS => 1
  | .INFERRED_LOW => 2
  | .INFERRED_HIGH => 3
  | .EXTRACTED => 4

/-- Whether an edge of this class may be surfaced: never an ambiguous or rejected one, an inferred one
only on request and then by its own floor. -/
def admits (trust_class : TrustClass) (trust_floor : TrustFloor) (include_inferred : Bool) : Bool :=
  match trust_class with
  | .REJECTED | .AMBIGUOUS => false
  | .INFERRED_LOW | .INFERRED_HIGH =>
    let floor_for_inferred := match trust_floor with
      | .EXTRACTED => TrustClass.REJECTED
      | floor => floor.trust_class
    include_inferred && decide (trust_rank floor_for_inferred ≤ trust_rank trust_class)
  | .EXTRACTED => decide (trust_rank trust_floor.trust_class ≤ trust_rank trust_class)

/-- Only extracted edges may support a cited claim. -/
def is_claim_supporting (trust_class : TrustClass) : Bool := trust_class == .EXTRACTED

/-- The backbone is walked whatever the floor. -/
@[simp] theorem admits_extracted (trust_floor : TrustFloor) (include_inferred : Bool) :
    admits .EXTRACTED trust_floor include_inferred = true := by
  cases trust_floor <;> rfl

/-- Asking for the inferred tiers takes no edge away. -/
theorem admits_include_inferred {trust_class : TrustClass} {trust_floor : TrustFloor}
    (h : admits trust_class trust_floor false = true) : admits trust_class trust_floor true = true := by
  cases trust_class with
  | EXTRACTED => exact admits_extracted trust_floor true
  | INFERRED_HIGH => simp [admits] at h
  | INFERRED_LOW => simp [admits] at h
  | AMBIGUOUS => simp [admits] at h
  | REJECTED => simp [admits] at h

end AgenticKb.ContextBroker
