import Mathlib.Data.Finset.Dedup
import Mathlib.Data.Multiset.Basic
import AgenticKb.Lib.Ranking
import AgenticKb.Properties.VerifierSoundness

open AgenticKb.Lib

namespace AgenticKb.ContextBroker

section Answers

variable (u : Unicode)

/-- A claim's id, its text with its blanks normalized and the set of its evidence ids. -/
def normal_claim (claim : ClaimInput) : String × String × Finset String :=
  (claim.claim_id, normalize_whitespace u claim.text, claim.evidence_ids.toFinset)

/-- An answer as the hash should see it. -/
def normal_answer (request : VerifyAnswerRequest) : Multiset (String × String × Finset String) :=
  ↑(request.claims.map (normal_claim u))

/-- The same words between other blanks, and the same evidence ids in another order or repeated. -/
structure Reflowed (claim claim' : ClaimInput) : Prop where
  claim_id : claim'.claim_id = claim.claim_id
  words : runs (fun c => !u.is_space c) claim'.text = runs (fun c => !u.is_space c) claim.text
  evidence_ids : ∀ id, id ∈ claim'.evidence_ids ↔ id ∈ claim.evidence_ids

/-- The hash of a request stays when its claims are permuted and each is reflowed, and no request with another answer
has it. -/
structure HashIdentifies (deps : VerifierDeps) (request : VerifyAnswerRequest) : Prop where
  unchanged : ∀ (request' : VerifyAnswerRequest) (claims : List ClaimInput), claims.Perm request.claims →
    List.Forall₂ (Reflowed deps.platform.unicode) claims request'.claims →
      normalized_answer_hash deps request' = normalized_answer_hash deps request
  identifies : ∀ request', normalized_answer_hash deps request' = normalized_answer_hash deps request →
    normal_answer deps.platform.unicode request' = normal_answer deps.platform.unicode request

end Answers

section Canonical

variable {u : Unicode} {claim claim' : ClaimInput}

theorem Reflowed.refl (claim : ClaimInput) : Reflowed u claim claim := ⟨rfl, rfl, fun _ => Iff.rfl⟩

theorem Reflowed.normal_claim_eq (h : Reflowed u claim claim') : normal_claim u claim' = normal_claim u claim := by
  have hevidence : claim'.evidence_ids.toFinset = claim.evidence_ids.toFinset := by
    ext id
    rw [List.mem_toFinset, List.mem_toFinset]
    exact h.evidence_ids id
  rw [normal_claim, normal_claim, normalize_whitespace, normalize_whitespace, h.claim_id, h.words, hevidence]

/-- One claim of the canonical form. -/
def claim_json (u : Unicode) (claim : ClaimInput) : Json :=
  .obj [
    ("claim_id", .str claim.claim_id),
    ("evidence_ids", .arr ((sorted str_le claim.evidence_ids.dedup).map .str)),
    ("text", .str (normalize_whitespace u claim.text))]

/-- Sorted without repetition, the evidence ids show their set and nothing else. -/
theorem sorted_dedup_inj {xs ys : List String} :
    sorted str_le xs.dedup = sorted str_le ys.dedup ↔ xs.toFinset = ys.toFinset := by
  constructor
  · intro h
    ext id
    rw [List.mem_toFinset, List.mem_toFinset, ← List.mem_dedup, ← mem_sorted (x := id), h, mem_sorted, List.mem_dedup]
  · intro h
    apply sorted_str_congr
    apply (List.perm_ext_iff_of_nodup (List.nodup_dedup _) (List.nodup_dedup _)).2
    intro id
    rw [List.mem_dedup, List.mem_dedup, ← List.mem_toFinset, h, List.mem_toFinset]

theorem claim_json_inj : claim_json u claim = claim_json u claim' ↔ normal_claim u claim = normal_claim u claim' := by
  have hstr : Function.Injective Json.str := fun _ _ h => Json.str.inj h
  simp only [claim_json, normal_claim, Json.obj.injEq, List.cons.injEq, Prod.mk.injEq, Json.str.injEq, Json.arr.injEq,
    true_and, and_true, (List.map_injective_iff.2 hstr).eq_iff, sorted_dedup_inj]
  exact and_congr_right' and_comm

end Canonical

section Hash

variable {deps : VerifierDeps} {request request' : VerifyAnswerRequest}

theorem claim_le_iff (u : Unicode) (a b : ClaimInput) :
    str_le a.claim_id b.claim_id = true ↔ (normal_claim u a).1.toList ≤ (normal_claim u b).1.toList :=
  str_le_iff _ _

/-- The claims in the order of the canonical form, as they look in it. -/
def canonical_claims (u : Unicode) (request : VerifyAnswerRequest) : List (String × String × Finset String) :=
  (sorted (fun (a b : ClaimInput) => str_le a.claim_id b.claim_id) request.claims).map (normal_claim u)

theorem canonical_claims_perm (u : Unicode) (request : VerifyAnswerRequest) :
    (canonical_claims u request).Perm (request.claims.map (normal_claim u)) := (sorted_perm _).map _

theorem hash_eq_iff (hsha : Function.Injective deps.platform.content_hash) :
    normalized_answer_hash deps request' = normalized_answer_hash deps request ↔
      canonical_claims deps.platform.unicode request' = canonical_claims deps.platform.unicode request := by
  have hviews : ∀ xs ys : List ClaimInput, xs.map (claim_json deps.platform.unicode) =
      ys.map (claim_json deps.platform.unicode) ↔ xs.map (normal_claim deps.platform.unicode) =
        ys.map (normal_claim deps.platform.unicode) := by
    intro xs ys
    rw [← List.forall₂_eq_eq_eq, ← List.forall₂_eq_eq_eq]
    simp only [List.forall₂_map_left_iff, List.forall₂_map_right_iff, claim_json_inj]
  rw [canonical_claims, canonical_claims, ← hviews]
  constructor
  · intro h
    exact Json.arr.inj (json_dumps_inj (hsha h))
  · intro h
    exact congrArg (fun claims => deps.platform.content_hash (json_dumps (.arr claims))) h

/-- Claims that share an id look alike. -/
def TiesAlike (u : Unicode) (request : VerifyAnswerRequest) : Prop :=
  ∀ a ∈ request.claims, ∀ b ∈ request.claims, a.claim_id = b.claim_id → normal_claim u a = normal_claim u b

instance (u : Unicode) (request : VerifyAnswerRequest) : Decidable (TiesAlike u request) :=
  inferInstanceAs (Decidable (∀ a ∈ request.claims, ∀ b ∈ request.claims, _))

/-- Two claims that share an id and do not look alike have two orders with two hashes. -/
theorem HashIdentifies.tiesAlike (hsha : Function.Injective deps.platform.content_hash)
    (h : HashIdentifies deps request) : TiesAlike deps.platform.unicode request := by
  intro a ha b hb hid
  by_cases heq : a = b
  · rw [heq]
  · have hb' : b ∈ request.claims.erase a := (List.mem_erase_of_ne (Ne.symm heq)).2 hb
    have hfront : request.claims.Perm (a :: b :: (request.claims.erase a).erase b) :=
      (List.perm_cons_erase ha).trans ((List.perm_cons_erase hb').cons a)
    let ordered (claims : List ClaimInput) (hne : claims ≠ []) : VerifyAnswerRequest :=
      { request with claims, claims_ne := hne }
    have hsame : ∀ claims hne, claims.Perm request.claims →
        normalized_answer_hash deps (ordered claims hne) = normalized_answer_hash deps request :=
      fun claims hne hperm => h.unchanged (ordered claims hne) claims hperm (List.forall₂_same.2 fun c _ => .refl c)
    have hone := hsame (a :: b :: (request.claims.erase a).erase b) (List.cons_ne_nil _ _) hfront.symm
    have htwo := hsame (b :: a :: (request.claims.erase a).erase b) (List.cons_ne_nil _ _)
      ((List.Perm.swap a b _).trans hfront.symm)
    have hswap := (hash_eq_iff hsha).1 (hone.trans htwo.symm)
    exact eq_of_map_sorted_swap (g := fun view => view.1.toList) (claim_le_iff deps.platform.unicode)
      (congrArg String.toList hid) hswap

/-- The hash identifies the normalized answer if and only if claims that share an id look alike. -/
theorem hash_identifies_iff (hsha : Function.Injective deps.platform.content_hash) (request : VerifyAnswerRequest) :
    HashIdentifies deps request ↔ TiesAlike deps.platform.unicode request := by
  refine ⟨fun h => h.tiesAlike hsha, fun hties => ⟨?_, ?_⟩⟩
  · intro request' claims hperm hreflow
    apply (hash_eq_iff hsha).2
    symm
    apply map_sorted_congr (g := fun view => view.1.toList) (claim_le_iff deps.platform.unicode)
    · exact fun a ha b hb hkey => hties a ha b hb (String.ext hkey)
    · have hviews : request'.claims.map (normal_claim deps.platform.unicode) =
          claims.map (normal_claim deps.platform.unicode) := by
        rw [← List.forall₂_eq_eq_eq, List.forall₂_map_left_iff, List.forall₂_map_right_iff]
        exact hreflow.flip.imp fun _ _ h => h.normal_claim_eq
      rw [hviews]
      exact (hperm.map _).symm
  · intro request' hhash
    apply Multiset.coe_eq_coe.2
    have hcanonical := (hash_eq_iff hsha).1 hhash
    exact (canonical_claims_perm _ request').symm.trans (hcanonical ▸ canonical_claims_perm _ request)

/-- Two claims of one id that cite the same evidence. -/
private def pair_of_claims (first second : String) : VerifyAnswerRequest where
  answer_id := "answer"
  claims := [{ claim_id := "c1", text := first, evidence_ids := ["9"], evidence_ids_ne := List.cons_ne_nil _ _ },
    { claim_id := "c1", text := second, evidence_ids := ["9"], evidence_ids_ne := List.cons_ne_nil _ _ }]
  verifier_levels := [.L0, .L1]
  claims_ne := List.cons_ne_nil _ _
  verifier_levels_ne := List.cons_ne_nil _ _

theorem reflowed_answer_identified :
    HashIdentifies .plain (pair_of_claims "the cache  is bounded" "the cache is\nbounded") := by
  have hsha : Function.Injective VerifierDeps.plain.platform.content_hash := fun _ _ h => h
  exact (hash_identifies_iff hsha _).2 (by decide +kernel)

/-- The order of two claims of one id with different texts shows in the hash. -/
theorem tied_claims_reordered : ¬HashIdentifies .plain (pair_of_claims "the cache is bounded" "the cache is shared") := by
  intro h
  have hswap := h.unchanged (pair_of_claims "the cache is shared" "the cache is bounded") _ (List.Perm.swap _ _ [])
    (List.forall₂_same.2 fun c _ => .refl c)
  exact absurd hswap (by decide +kernel)

end Hash

end AgenticKb.ContextBroker
