import Mathlib.Data.List.Dedup
import Mathlib.Data.Prod.Lex
import Mathlib.Order.Bounds.Defs
import AgenticKb.Lib.Ranking
import AgenticKb.Linker.Candidates

open AgenticKb.Lib

namespace AgenticKb

section Signals

variable {signals : Dict String Rat} {name other : String} {score : Rat}

theorem get?_offer_signal : (offer_signal signals name score).get? other =
    if other = name ∧ (signals.get? name).getD 0 < score then some score else signals.get? other := by
  unfold offer_signal
  by_cases hbetter : (signals.get? name).getD 0 < score
  · rw [if_pos hbetter, Dict.get?_set]
    simp only [hbetter, and_true]
  · rw [if_neg hbetter]
    simp only [hbetter, and_false, if_false]

theorem nodup_offer_signal (h : (signals.map (·.1)).Nodup) : ((offer_signal signals name score).map (·.1)).Nodup := by
  unfold offer_signal
  split
  · exact Dict.nodup_set h
  · exact h

private theorem foldl_max (scores : List Rat) (first : Rat) :
    first ≤ scores.foldl max first ∧ (∀ x ∈ scores, x ≤ scores.foldl max first) ∧
      (scores.foldl max first = first ∨ scores.foldl max first ∈ scores) := by
  induction scores generalizing first with
  | nil => exact ⟨le_refl first, by simp, .inl rfl⟩
  | cons score scores ih =>
    obtain ⟨hfirst, hall, hmem⟩ := ih (max first score)
    rw [List.foldl_cons]
    refine ⟨le_trans (le_max_left first score) hfirst, fun x hx => ?_, ?_⟩
    · cases List.mem_cons.1 hx with
      | inl heq =>
        rw [heq]
        exact le_trans (le_max_right first score) hfirst
      | inr hrest => exact hall x hrest
    · cases hmem with
      | inl heq =>
        cases max_choice first score with
        | inl hleft => exact .inl (heq.trans hleft)
        | inr hright => exact .inr (List.mem_cons.2 (.inl (heq.trans hright)))
      | inr hrest => exact .inr (List.mem_cons_of_mem _ hrest)

/-- The summary score is that of the strongest signal. -/
theorem isGreatest_signals_score (hne : signals ≠ []) :
    IsGreatest {x | x ∈ signals.map (·.2)} (signals_score signals) := by
  cases signals with
  | nil => exact absurd rfl hne
  | cons signal signals =>
    obtain ⟨hfirst, hall, hmem⟩ := foldl_max (signals.map (·.2)) signal.2
    constructor
    · exact List.mem_cons.2 hmem
    · intro x hx
      cases List.mem_cons.1 hx with
      | inl heq => exact heq ▸ hfirst
      | inr hrest => exact hall x hrest

end Signals

/-- One observation of a signal between an ordered pair. -/
structure Observation where
  pair : Uuid × Uuid
  name : String
  score : Rat

/-- The strongest observation of each signal is kept. -/
def observe (scratch : Scratch) (seen : Observation) : Scratch :=
  scratch.set seen.pair (offer_signal ((scratch.get? seen.pair).getD []) seen.name seen.score)

/-- What a scratch holds after some observations. -/
structure Tallied (scratch : Scratch) (seen : List Observation) : Prop where
  pairs : (scratch.map (·.1)).Nodup
  names : ∀ pair signals, scratch.get? pair = some signals → (signals.map (·.1)).Nodup
  sound : ∀ pair signals name score, scratch.get? pair = some signals → signals.get? name = some score →
    ⟨pair, name, score⟩ ∈ seen
  complete : ∀ o ∈ seen, ∃ signals score, scratch.get? o.pair = some signals ∧ signals.get? o.name = some score ∧
    o.score ≤ score

theorem Tallied.observe {scratch : Scratch} {seen : List Observation} (h : Tallied scratch seen) {o : Observation}
    (hpos : 0 < o.score) : Tallied (observe scratch o) (seen ++ [o]) := by
  have hold : ∀ signals name score, signals = (scratch.get? o.pair).getD [] → signals.get? name = some score →
      scratch.get? o.pair = some signals := by
    intro signals name score heq hget
    cases hpair : scratch.get? o.pair with
    | none =>
      rw [heq, hpair] at hget
      cases hget
    | some old => rw [heq, hpair, Option.getD_some]
  constructor
  case pairs => exact Dict.nodup_set h.pairs
  case names =>
    intro pair signals hget
    rw [AgenticKb.observe, Dict.get?_set] at hget
    split at hget
    · obtain rfl := Option.some.inj hget
      apply nodup_offer_signal
      cases hpair : scratch.get? o.pair with
      | none => exact List.nodup_nil
      | some old => exact h.names _ old hpair
    · exact h.names pair signals hget
  case sound =>
    intro pair signals name score hget hsignal
    rw [AgenticKb.observe, Dict.get?_set] at hget
    split at hget
    case isTrue hpair =>
      obtain rfl := Option.some.inj hget
      rw [get?_offer_signal] at hsignal
      split at hsignal
      case isTrue hnew =>
        apply List.mem_append_right
        rw [List.mem_singleton, hpair, hnew.1, ← Option.some.inj hsignal]
      case isFalse => exact List.mem_append_left _ (hpair ▸ h.sound _ _ name score (hold _ name score rfl hsignal) hsignal)
    case isFalse => exact List.mem_append_left _ (h.sound pair signals name score hget hsignal)
  case complete =>
    intro seen_o hmem
    have hset : (AgenticKb.observe scratch o).get? o.pair =
        some (offer_signal ((scratch.get? o.pair).getD []) o.name o.score) := by
      rw [AgenticKb.observe, Dict.get?_set, if_pos rfl]
    cases List.mem_append.1 hmem with
    | inl hearlier =>
      obtain ⟨signals, score, hget, hsignal, hle⟩ := h.complete seen_o hearlier
      by_cases hpair : seen_o.pair = o.pair
      · rw [hpair] at hget ⊢
        rw [hset, hget, Option.getD_some]
        refine ⟨offer_signal signals o.name o.score, ?_⟩
        by_cases hnew : seen_o.name = o.name ∧ (signals.get? o.name).getD 0 < o.score
        · refine ⟨o.score, rfl, by rw [get?_offer_signal, if_pos hnew], ?_⟩
          have hbelow := hnew.2
          rw [← hnew.1, hsignal, Option.getD_some] at hbelow
          exact hle.trans hbelow.le
        · exact ⟨score, rfl, by rw [get?_offer_signal, if_neg hnew, hsignal], hle⟩
      · refine ⟨signals, score, ?_, hsignal, hle⟩
        rw [AgenticKb.observe, Dict.get?_set, if_neg hpair, hget]
    | inr hlast =>
      rw [List.mem_singleton.1 hlast, hset]
      by_cases hnew : (((scratch.get? o.pair).getD []).get? o.name).getD 0 < o.score
      · exact ⟨_, o.score, rfl, by rw [get?_offer_signal, if_pos ⟨rfl, hnew⟩], le_refl _⟩
      · -- a signal that is not improved was there already, for every score is positive
        cases hsignal : ((scratch.get? o.pair).getD []).get? o.name with
        | none =>
          rw [hsignal, Option.getD_none] at hnew
          exact absurd hpos hnew
        | some score =>
          rw [hsignal, Option.getD_some, not_lt] at hnew
          refine ⟨_, score, rfl, ?_, hnew⟩
          rw [get?_offer_signal, if_neg, hsignal]
          rw [hsignal, Option.getD_some]
          exact fun h => absurd h.2 (not_lt.2 hnew)

theorem tallied_foldl (seen : List Observation) (hpos : ∀ o ∈ seen, 0 < o.score) :
    Tallied (seen.foldl observe []) seen := by
  induction seen using List.reverseRecOn with
  | nil => exact ⟨List.nodup_nil, by simp [Dict.get?], by simp [Dict.get?], by simp⟩
  | append_singleton seen o ih =>
    rw [List.foldl_append, List.foldl_cons, List.foldl_nil]
    have hbefore := ih fun o ho => hpos o (List.mem_append_left _ ho)
    exact hbefore.observe (hpos o (List.mem_append_right _ List.mem_cons_self))

/-- No two entries of a tally share their pair, and the score of one is the best seen of its pair. -/
theorem Tallied.isGreatest {scratch : Scratch} {seen : List Observation} (h : Tallied scratch seen)
    {pair : Uuid × Uuid} {signals : Dict String Rat} (hget : scratch.get? pair = some signals) (hne : signals ≠ [])
    {listed : Dict String Rat} (hlisted : ∀ entry, entry ∈ listed ↔ entry ∈ signals) :
    IsGreatest {x | ∃ name, ⟨pair, name, x⟩ ∈ seen} (signals_score listed) := by
  have hkeyed := h.names pair signals hget
  have hlisted_ne : listed ≠ [] := by
    obtain ⟨entry, hentry⟩ := List.exists_mem_of_ne_nil signals hne
    exact List.ne_nil_of_mem ((hlisted entry).2 hentry)
  have hgreatest := isGreatest_signals_score hlisted_ne
  constructor
  · obtain ⟨⟨name, score⟩, hentry, hscore⟩ := List.mem_map.1 hgreatest.1
    rw [← hscore]
    exact ⟨name, h.sound pair signals name score hget (Dict.get?_of_mem hkeyed ((hlisted _).1 hentry))⟩
  · intro x hx
    obtain ⟨name, hseen⟩ := hx
    obtain ⟨signals', score, hget', hsignal, hle⟩ := h.complete _ hseen
    obtain rfl : signals' = signals := Option.some.inj (hget'.symm.trans hget)
    exact hle.trans (hgreatest.2 (List.mem_map.2 ⟨_, (hlisted _).2 (Dict.mem_of_get? hsignal), rfl⟩))

/-- A step over the scratch that makes the observations of a kind, each at least once, and no others. -/
def Tallies (step : Scratch → Scratch) (P : Observation → Prop) : Prop :=
  ∃ seen : List Observation, (∀ scratch, step scratch = seen.foldl observe scratch) ∧ ∀ o, o ∈ seen ↔ P o

section Tallies

variable {f g : Scratch → Scratch} {P Q : Observation → Prop}

theorem Tallies.congr (h : Tallies f P) (hiff : ∀ o, P o ↔ Q o) : Tallies f Q := by
  obtain ⟨seen, hstep, hseen⟩ := h
  exact ⟨seen, hstep, fun o => (hseen o).trans (hiff o)⟩

theorem tallies_nothing (hnone : ∀ o, ¬ P o) : Tallies (fun scratch => scratch) P :=
  ⟨[], fun _ => rfl, fun o => by simpa using hnone o⟩

theorem tallies_observe (o : Observation) : Tallies (fun scratch => observe scratch o) fun other => other = o :=
  ⟨[o], fun _ => rfl, fun _ => List.mem_singleton⟩

theorem Tallies.andThen (hf : Tallies f P) (hg : Tallies g Q) : Tallies (fun scratch => g (f scratch)) fun o => P o ∨ Q o := by
  obtain ⟨first, hfirst, hP⟩ := hf
  obtain ⟨second, hsecond, hQ⟩ := hg
  refine ⟨first ++ second, fun scratch => ?_, fun o => ?_⟩
  · rw [List.foldl_append, ← hfirst, ← hsecond]
  · rw [List.mem_append, hP, hQ]

theorem Tallies.onlyIf {c : Prop} [Decidable c] (h : Tallies f P) :
    Tallies (fun scratch => if c then f scratch else scratch) fun o => c ∧ P o := by
  by_cases hc : c
  · simp only [if_pos hc]
    exact h.congr fun o => (and_iff_right hc).symm
  · simp only [if_neg hc]
    exact tallies_nothing fun o ho => hc ho.1

theorem tallies_foldl {α : Type*} {xs : List α} {step : Scratch → α → Scratch} {P : α → Observation → Prop}
    (h : ∀ x ∈ xs, Tallies (fun scratch => step scratch x) (P x)) :
    Tallies (fun scratch => xs.foldl step scratch) fun o => ∃ x ∈ xs, P x o := by
  induction xs with
  | nil => exact tallies_nothing fun o => by simp
  | cons x xs ih =>
    have hfirst := h x List.mem_cons_self
    have hrest := ih fun y hy => h y (List.mem_cons_of_mem x hy)
    apply (hfirst.andThen hrest).congr
    intro o
    rw [List.exists_mem_cons_iff]

end Tallies

section Observations

variable (u : Unicode) (artifacts : List LinkableArtifact) (existing_pairs : List (Uuid × Uuid))

/-- A pair that may become a candidate: two artifacts of different domains, not linked either way. -/
structure Joinable (from_a to_a : LinkableArtifact) : Prop where
  apart : from_a.artifact_id ≠ to_a.artifact_id
  unlinked : (from_a.artifact_id, to_a.artifact_id) ∉ existing_pairs ∧ (to_a.artifact_id, from_a.artifact_id) ∉ existing_pairs
  across : artifact_domain from_a ≠ artifact_domain to_a

instance (from_a to_a : LinkableArtifact) : Decidable (Joinable existing_pairs from_a to_a) :=
  decidable_of_iff (from_a.artifact_id ≠ to_a.artifact_id ∧ ((from_a.artifact_id, to_a.artifact_id) ∉ existing_pairs ∧
      (to_a.artifact_id, from_a.artifact_id) ∉ existing_pairs) ∧ artifact_domain from_a ≠ artifact_domain to_a)
    ⟨fun h => ⟨h.1, h.2.1, h.2.2⟩, fun h => ⟨h.apart, h.unlinked, h.across⟩⟩

/-- The signals an ordered pair gives by itself, with the score each has where it fires. -/
inductive PairFires (from_a to_a : LinkableArtifact) : String → Rat → Prop
  | token_overlap {overlap : Rat}
      (hoverlap : overlap = token_overlap (candidate_tokens u [from_a.title, from_a.path, from_a.external_id])
        (candidate_tokens u [to_a.title, to_a.path, to_a.external_id])) (hfloor : TOKEN_OVERLAP_FLOOR ≤ overlap) :
      PairFires from_a to_a "token_overlap" overlap
  | section_proximity {needle body_lower : String}
      (hneedle : needle = u.lower (if to_a.path.getD "" = "" then to_a.title.getD "" else to_a.path.getD ""))
      (hbody : body_lower = u.lower (from_a.body_text.getD "")) (hlong : 4 ≤ needle.length) (hbody_ne : body_lower ≠ "")
      (hnamed : contains body_lower needle = true) :
      PairFires from_a to_a "section_proximity" SECTION_PROXIMITY_SCORE
  | path_colocation {directory : String} (hfrom : dir_prefix from_a.path = some directory)
      (hto : dir_prefix to_a.path = some directory) : PairFires from_a to_a "path_colocation" PATH_COLOCATION_SCORE

/-- These, and the similarity of an embedding neighbour. -/
inductive Fires (similarity : Option SimilarityProvider) (from_a to_a : LinkableArtifact) : String → Rat → Prop
  | embedding_similarity {provider : SimilarityProvider} {candidate : ScoredArtifact} (hprovider : similarity = some provider)
      (hcandidate : candidate ∈ provider from_a.artifact_id EMBEDDING_TOP_K)
      (hto : candidate.artifact_id = to_a.artifact_id) (hfloor : EMBEDDING_SIMILARITY_FLOOR ≤ candidate.similarity) :
      Fires similarity from_a to_a "embedding_similarity" candidate.similarity
  | of_pair {name : String} {score : Rat} (h : PairFires u from_a to_a name score) : Fires similarity from_a to_a name score

theorem offer_eq (scratch : Scratch) (from_a to_a : LinkableArtifact) (name : String) (score : Rat) :
    offer existing_pairs scratch from_a to_a name score =
      if Joinable existing_pairs from_a to_a then observe scratch ⟨(from_a.artifact_id, to_a.artifact_id), name, score⟩
      else scratch := by
  unfold offer
  by_cases hsame : from_a.artifact_id = to_a.artifact_id
  · rw [if_pos (beq_iff_eq.2 hsame), if_neg fun h => h.apart hsame]
  rw [if_neg (mt beq_iff_eq.1 hsame)]
  by_cases hlinked : (from_a.artifact_id, to_a.artifact_id) ∈ existing_pairs ∨
      (to_a.artifact_id, from_a.artifact_id) ∈ existing_pairs
  · rw [if_pos (by simpa using hlinked), if_neg fun h => hlinked.elim h.unlinked.1 h.unlinked.2]
  rw [if_neg (by simpa using hlinked)]
  by_cases hdomain : artifact_domain from_a = artifact_domain to_a
  · rw [if_pos (beq_iff_eq.2 hdomain), if_neg fun h => h.across hdomain]
  rw [if_neg (mt beq_iff_eq.1 hdomain), if_pos ⟨hsame, not_or.1 hlinked, hdomain⟩]
  rfl

theorem tallies_offer (from_a to_a : LinkableArtifact) (name : String) (score : Rat) :
    Tallies (fun scratch => offer existing_pairs scratch from_a to_a name score) fun o =>
      Joinable existing_pairs from_a to_a ∧ o = ⟨(from_a.artifact_id, to_a.artifact_id), name, score⟩ := by
  simp only [offer_eq]
  exact (tallies_observe _).onlyIf

/-- An observation of a signal that fires between two artifacts that may be joined. -/
structure Observed (fires : String → Rat → Prop) (from_a to_a : LinkableArtifact) (o : Observation) : Prop where
  joinable : Joinable existing_pairs from_a to_a
  pair : o.pair = (from_a.artifact_id, to_a.artifact_id)
  fires : fires o.name o.score

theorem tallies_pair_signals (from_a to_a : LinkableArtifact) :
    Tallies (fun scratch => pair_signals u existing_pairs from_a scratch to_a)
      (Observed existing_pairs (PairFires u from_a to_a) from_a to_a) := by
  unfold pair_signals
  by_cases hsame : to_a.artifact_id = from_a.artifact_id
  · simp only [if_pos (beq_iff_eq.2 hsame)]
    exact tallies_nothing fun o ho => ho.joinable.apart hsame.symm
  simp only [if_neg (mt beq_iff_eq.1 hsame)]
  have htokens := (tallies_offer existing_pairs from_a to_a "token_overlap"
    (token_overlap (candidate_tokens u [from_a.title, from_a.path, from_a.external_id])
      (candidate_tokens u [to_a.title, to_a.path, to_a.external_id]))).onlyIf
        (c := TOKEN_OVERLAP_FLOOR ≤ token_overlap (candidate_tokens u [from_a.title, from_a.path, from_a.external_id])
          (candidate_tokens u [to_a.title, to_a.path, to_a.external_id]))
  have hsection := (tallies_offer existing_pairs from_a to_a "section_proximity" SECTION_PROXIMITY_SCORE).onlyIf
    (c := (4 ≤ (u.lower (if to_a.path.getD "" = "" then to_a.title.getD "" else to_a.path.getD "")).length &&
      u.lower (from_a.body_text.getD "") ≠ "" && contains (u.lower (from_a.body_text.getD ""))
        (u.lower (if to_a.path.getD "" = "" then to_a.title.getD "" else to_a.path.getD ""))) = true)
  have hpath := (tallies_offer existing_pairs from_a to_a "path_colocation" PATH_COLOCATION_SCORE).onlyIf
    (c := (( dir_prefix from_a.path).isSome && dir_prefix from_a.path == dir_prefix to_a.path) = true)
  refine Tallies.congr ((htokens.andThen hsection).andThen hpath) ?_
  intro o
  constructor
  · rintro ((⟨hfloor, hjoinable, rfl⟩ | ⟨hnamed, hjoinable, rfl⟩) | ⟨hdir, hjoinable, rfl⟩)
    · have hfires : PairFires u from_a to_a "token_overlap"
          (token_overlap (candidate_tokens u [from_a.title, from_a.path, from_a.external_id])
            (candidate_tokens u [to_a.title, to_a.path, to_a.external_id])) := .token_overlap rfl hfloor
      refine ⟨hjoinable, rfl, ?_⟩
      dsimp only
      exact hfires
    · simp only [Bool.and_eq_true, decide_eq_true_eq] at hnamed
      exact ⟨hjoinable, rfl, .section_proximity rfl rfl hnamed.1.1 hnamed.1.2 hnamed.2⟩
    · rw [Bool.and_eq_true, beq_iff_eq] at hdir
      obtain ⟨directory, hfrom⟩ := Option.isSome_iff_exists.1 hdir.1
      exact ⟨hjoinable, rfl, .path_colocation hfrom (hdir.2 ▸ hfrom)⟩
  · rintro ⟨hjoinable, hpair, hfires⟩
    obtain ⟨pair, name, score⟩ := o
    obtain rfl : pair = _ := hpair
    cases hfires with
    | token_overlap hoverlap hfloor =>
      exact .inl (.inl ⟨hoverlap ▸ hfloor, hjoinable, congrArg (Observation.mk _ _) hoverlap⟩)
    | section_proximity hneedle hbody hlong hbody_ne hnamed =>
      rw [hneedle] at hlong hnamed
      rw [hbody] at hbody_ne hnamed
      refine .inl (.inr ⟨?_, hjoinable, rfl⟩)
      simp only [Bool.and_eq_true, decide_eq_true_eq]
      exact ⟨⟨hlong, hbody_ne⟩, hnamed⟩
    | path_colocation hfrom hto =>
      refine .inr ⟨?_, hjoinable, rfl⟩
      rw [hfrom, hto]
      simp

theorem tallies_embedding_signals (provider : SimilarityProvider) (ordered : List LinkableArtifact) :
    Tallies (embedding_signals artifacts existing_pairs provider ordered) fun o =>
      ∃ from_a ∈ ordered, ∃ candidate ∈ provider from_a.artifact_id EMBEDDING_TOP_K, ∃ to_a,
        (artifacts.find? fun a => a.artifact_id == candidate.artifact_id) = some to_a ∧
          EMBEDDING_SIMILARITY_FLOOR ≤ candidate.similarity ∧ Joinable existing_pairs from_a to_a ∧
          o = ⟨(from_a.artifact_id, to_a.artifact_id), "embedding_similarity", candidate.similarity⟩ := by
  apply tallies_foldl
  intro from_a _
  apply tallies_foldl
  intro candidate _
  cases hfind : artifacts.find? fun a => a.artifact_id == candidate.artifact_id with
  | none => exact tallies_nothing fun o ho => by simp at ho
  | some to_a =>
    have hoffer := tallies_offer existing_pairs from_a to_a "embedding_similarity" candidate.similarity
    by_cases hfloor : candidate.similarity < EMBEDDING_SIMILARITY_FLOOR
    · simp only [if_pos hfloor]
      exact tallies_nothing fun o ⟨_, _, hfloor', _⟩ => absurd hfloor (not_lt.2 hfloor')
    · simp only [if_neg hfloor]
      apply hoffer.congr
      intro o
      constructor
      · exact fun h => ⟨to_a, rfl, not_lt.1 hfloor, h⟩
      · rintro ⟨other, hother, _, h⟩
        obtain rfl := Option.some.inj hother
        exact h

end Observations

section FanOut

/-- Where a draft stands among those of its artifact. -/
def CandidateDraft.rank (draft : CandidateDraft) : Ratᵒᵈ ×ₗ Uuid :=
  toLex (OrderDual.toDual draft.score, draft.to_artifact_id)

def CandidateDraft.pair (draft : CandidateDraft) : Uuid × Uuid := (draft.from_artifact_id, draft.to_artifact_id)

theorem ranks_before_iff (a b : CandidateDraft) : ranks_before a b = true ↔ a.rank ≤ b.rank := by
  unfold ranks_before CandidateDraft.rank
  simp only [Prod.Lex.toLex_le_toLex, Bool.or_eq_true, Bool.and_eq_true, decide_eq_true_eq, beq_iff_eq,
    OrderDual.toDual_lt_toDual, OrderDual.toDual_inj]

/-- The candidates of one artifact that are kept. -/
def best_of (drafts : List CandidateDraft) (from_id : Uuid) : List CandidateDraft :=
  (sorted ranks_before (drafts.filter fun d => d.from_artifact_id == from_id)).take CANDIDATE_FAN_OUT_K

variable {drafts : List CandidateDraft} {d : CandidateDraft} {from_id : Uuid}

theorem mem_of_mem_best_of (h : d ∈ best_of drafts from_id) : d ∈ drafts ∧ d.from_artifact_id = from_id := by
  have hmem := List.mem_filter.1 (mem_sorted.1 (List.mem_of_mem_take h))
  exact ⟨hmem.1, beq_iff_eq.1 hmem.2⟩

theorem mem_bound_fan_out : d ∈ bound_fan_out drafts ↔ d ∈ best_of drafts d.from_artifact_id := by
  unfold bound_fan_out
  simp only [mem_sorted, List.mem_flatMap]
  constructor
  · rintro ⟨from_id, _, hd⟩
    rw [(mem_of_mem_best_of hd).2]
    exact hd
  · intro hd
    exact ⟨d.from_artifact_id, List.mem_dedup.2 (List.mem_map_of_mem (mem_of_mem_best_of hd).1), hd⟩

theorem pairwise_rank (hpairs : (drafts.map CandidateDraft.pair).Nodup) (from_id : Uuid) :
    (sorted ranks_before (drafts.filter fun d => d.from_artifact_id == from_id)).Pairwise fun a b => a.rank < b.rank := by
  apply pairwise_lt_sorted ranks_before_iff
  rw [List.nodup_map_iff_inj_on ((List.Nodup.of_map _ hpairs).filter _)]
  intro a ha b hb hrank
  obtain ⟨ha, hafrom⟩ := List.mem_filter.1 ha
  obtain ⟨hb, hbfrom⟩ := List.mem_filter.1 hb
  have hto : a.to_artifact_id = b.to_artifact_id := congrArg (fun rank => (ofLex rank).2) hrank
  have hfrom : a.from_artifact_id = b.from_artifact_id := (beq_iff_eq.1 hafrom).trans (beq_iff_eq.1 hbfrom).symm
  exact List.inj_on_of_nodup_map hpairs ha hb (Prod.ext hfrom hto)

theorem nodup_best_of (hpairs : (drafts.map CandidateDraft.pair).Nodup) (from_id : Uuid) : (best_of drafts from_id).Nodup :=
  (List.take_sublist _ _).nodup ((pairwise_rank hpairs from_id).imp fun h heq => absurd (heq ▸ h) (lt_irrefl _))

theorem nodup_bound_fan_out (hpairs : (drafts.map CandidateDraft.pair).Nodup) : (bound_fan_out drafts).Nodup := by
  unfold bound_fan_out
  rw [(sorted_perm _).nodup_iff, List.nodup_flatMap]
  refine ⟨fun from_id _ => nodup_best_of hpairs from_id, ?_⟩
  have hids : (sorted (fun a b => decide (a ≤ b)) (drafts.map (·.from_artifact_id)).dedup).Nodup :=
    (sorted_perm _).nodup_iff.2 (List.nodup_dedup _)
  refine hids.imp fun hne d hd hd' => hne ?_
  rw [← (mem_of_mem_best_of hd).2, ← (mem_of_mem_best_of hd').2]

theorem pairs_bound_fan_out (hpairs : (drafts.map CandidateDraft.pair).Nodup) :
    ((bound_fan_out drafts).map CandidateDraft.pair).Nodup := by
  rw [List.nodup_map_iff_inj_on (nodup_bound_fan_out hpairs)]
  intro a ha b hb hpair
  exact List.inj_on_of_nodup_map hpairs (mem_of_mem_best_of (mem_bound_fan_out.1 ha)).1
    (mem_of_mem_best_of (mem_bound_fan_out.1 hb)).1 hpair

theorem filter_bound_fan_out (hpairs : (drafts.map CandidateDraft.pair).Nodup) (from_id : Uuid) :
    ((bound_fan_out drafts).filter fun d => d.from_artifact_id == from_id).Perm (best_of drafts from_id) := by
  rw [List.perm_ext_iff_of_nodup ((nodup_bound_fan_out hpairs).filter _) (nodup_best_of hpairs from_id)]
  intro d
  rw [List.mem_filter, mem_bound_fan_out, beq_iff_eq]
  constructor
  · rintro ⟨hd, hfrom⟩
    exact hfrom ▸ hd
  · intro hd
    have hfrom := (mem_of_mem_best_of hd).2
    exact ⟨hfrom.symm ▸ hd, hfrom⟩

end FanOut

section Generated

variable (u : Unicode) (artifacts : List LinkableArtifact) (existing_pairs : List (Uuid × Uuid))
  (similarity : Option SimilarityProvider)

def firing_scores (from_a to_a : LinkableArtifact) : Set Rat := {score | ∃ name, Fires u similarity from_a to_a name score}

/-- Whether an artifact is a target of another: they may be joined and a signal fires. -/
structure Eligible (from_a to_a : LinkableArtifact) : Prop where
  joinable : Joinable existing_pairs from_a to_a
  fires : (firing_scores u similarity from_a to_a).Nonempty

/-- Some drafts are the best of the eligible targets of every artifact, each scored by its strongest signal. -/
structure TopCandidates (drafts : List CandidateDraft) : Prop where
  once : (drafts.map CandidateDraft.pair).Nodup
  sound : ∀ d ∈ drafts, ∃ from_a ∈ artifacts, ∃ to_a ∈ artifacts, d.pair = (from_a.artifact_id, to_a.artifact_id) ∧
    Eligible u existing_pairs similarity from_a to_a ∧ IsGreatest (firing_scores u similarity from_a to_a) d.score
  few : ∀ from_id, (drafts.filter fun d => d.from_artifact_id == from_id).length ≤ CANDIDATE_FAN_OUT_K
  best : ∀ from_a ∈ artifacts, ∀ to_a ∈ artifacts, Eligible u existing_pairs similarity from_a to_a →
    (∃ d ∈ drafts, d.pair = (from_a.artifact_id, to_a.artifact_id)) ∨
    (drafts.filter fun d => d.from_artifact_id == from_a.artifact_id).length = CANDIDATE_FAN_OUT_K ∧
      ∃ score, IsGreatest (firing_scores u similarity from_a to_a) score ∧
        ∀ d ∈ drafts, d.from_artifact_id = from_a.artifact_id →
          score < d.score ∨ d.score = score ∧ d.to_artifact_id < to_a.artifact_id

variable {u artifacts existing_pairs similarity}

theorem Fires.pos {from_a to_a : LinkableArtifact} {name : String} {score : Rat}
    (h : Fires u similarity from_a to_a name score) : 0 < score := by
  cases h with
  | embedding_similarity _ _ _ hfloor => exact lt_of_lt_of_le (by decide +kernel) hfloor
  | of_pair h =>
    cases h with
    | token_overlap _ hfloor => exact lt_of_lt_of_le (by decide +kernel) hfloor
    | section_proximity => decide +kernel
    | path_colocation => decide +kernel

/-- The sweep over embeddings and pairs. -/
def signal_sweep (u : Unicode) (artifacts : List LinkableArtifact) (existing_pairs : List (Uuid × Uuid))
    (similarity : Option SimilarityProvider) (scratch : Scratch) : Scratch :=
  let ordered := sorted (fun a b => decide (a.artifact_id ≤ b.artifact_id)) artifacts
  let scratch := match similarity with
    | some provider => embedding_signals artifacts existing_pairs provider ordered scratch
    | none => scratch
  ordered.foldl (fun scratch from_a => ordered.foldl (pair_signals u existing_pairs from_a) scratch) scratch

def drafts_of (scratch : Scratch) : List CandidateDraft :=
  (scratch.filter fun entry => !entry.2.isEmpty).map fun ((from_id, to_id), signals) =>
    { from_artifact_id := from_id, to_artifact_id := to_id
      signals := sorted (fun a b => str_le a.1 b.1) signals
      candidate_recall_bucket := candidate_bucket (signals_score signals) }

theorem generate_candidates_eq : generate_candidates u artifacts existing_pairs similarity =
    bound_fan_out (drafts_of (signal_sweep u artifacts existing_pairs similarity [])) := rfl

theorem tallies_signal_sweep (hids : (artifacts.map (·.artifact_id)).Nodup) :
    Tallies (signal_sweep u artifacts existing_pairs similarity) fun o =>
      ∃ from_a ∈ artifacts, ∃ to_a ∈ artifacts,
        Observed existing_pairs (Fires u similarity from_a to_a) from_a to_a o := by
  have hpairs : Tallies (fun scratch =>
      (sorted (fun a b => decide (a.artifact_id ≤ b.artifact_id)) artifacts).foldl (fun scratch from_a =>
        (sorted (fun a b => decide (a.artifact_id ≤ b.artifact_id)) artifacts).foldl (pair_signals u existing_pairs from_a)
          scratch) scratch) _ :=
    tallies_foldl fun from_a _ => tallies_foldl fun to_a _ => tallies_pair_signals u existing_pairs from_a to_a
  cases similarity with
  | none =>
    apply hpairs.congr
    intro o
    simp only [mem_sorted]
    constructor
    · rintro ⟨from_a, hfrom, to_a, hto, h⟩
      exact ⟨from_a, hfrom, to_a, hto, h.joinable, h.pair, .of_pair h.fires⟩
    · rintro ⟨from_a, hfrom, to_a, hto, hjoinable, hpair, hfires⟩
      obtain ⟨pair, name, score⟩ := o
      cases hfires with
      | embedding_similarity hprovider => cases hprovider
      | of_pair h => exact ⟨from_a, hfrom, to_a, hto, hjoinable, hpair, h⟩
  | some provider =>
    have hembedding := tallies_embedding_signals artifacts existing_pairs provider
      (sorted (fun a b => decide (a.artifact_id ≤ b.artifact_id)) artifacts)
    apply (hembedding.andThen hpairs).congr
    intro o
    simp only [mem_sorted, find?_key_iff hids]
    constructor
    · rintro (⟨from_a, hfrom, candidate, hcandidate, to_a, ⟨hto, hid⟩, hfloor, hjoinable, rfl⟩ |
        ⟨from_a, hfrom, to_a, hto, h⟩)
      · exact ⟨from_a, hfrom, to_a, hto, hjoinable, rfl, .embedding_similarity rfl hcandidate hid.symm hfloor⟩
      · exact ⟨from_a, hfrom, to_a, hto, h.joinable, h.pair, .of_pair h.fires⟩
    · rintro ⟨from_a, hfrom, to_a, hto, hjoinable, hpair, hfires⟩
      obtain ⟨pair, name, score⟩ := o
      obtain rfl : pair = _ := hpair
      cases hfires with
      | embedding_similarity hprovider hcandidate hid hfloor =>
        obtain rfl := Option.some.inj hprovider
        exact .inl ⟨from_a, hfrom, _, hcandidate, to_a, ⟨hto, hid.symm⟩, hfloor, hjoinable, rfl⟩
      | of_pair h => exact .inr ⟨from_a, hfrom, to_a, hto, hjoinable, rfl, h⟩

/-- A draft stands for each pair that was observed, scored by what is best of it. -/
theorem drafts_of_tallied {scratch : Scratch} {seen : List Observation} (h : Tallied scratch seen) :
    ((drafts_of scratch).map CandidateDraft.pair).Nodup ∧
      (∀ d ∈ drafts_of scratch, IsGreatest {x | ∃ name, ⟨d.pair, name, x⟩ ∈ seen} d.score) ∧
      ∀ o ∈ seen, ∃ d ∈ drafts_of scratch, d.pair = o.pair := by
  refine ⟨?_, ?_, ?_⟩
  · have hpairs : (drafts_of scratch).map CandidateDraft.pair =
        (scratch.filter fun entry => !entry.2.isEmpty).map (·.1) := by
      rw [drafts_of, List.map_map]
      rfl
    rw [hpairs]
    exact (List.filter_sublist.map _).nodup h.pairs
  · intro d hd
    obtain ⟨⟨pair, signals⟩, hentry, rfl⟩ := List.mem_map.1 hd
    obtain ⟨hmem, hsignals⟩ := List.mem_filter.1 hentry
    have hne : signals ≠ [] := by simpa using hsignals
    exact h.isGreatest (Dict.get?_of_mem h.pairs hmem) hne fun entry => mem_sorted
  · intro o ho
    obtain ⟨signals, score, hget, hsignal, -⟩ := h.complete o ho
    have hne : signals ≠ [] := List.ne_nil_of_mem (Dict.mem_of_get? hsignal)
    refine ⟨_, List.mem_map_of_mem (List.mem_filter.2 ⟨Dict.mem_of_get? hget, ?_⟩), rfl⟩
    simpa using hne

theorem observed_scores (hids : (artifacts.map (·.artifact_id)).Nodup) {seen : List Observation}
    (hseen : ∀ o, o ∈ seen ↔ ∃ from_a ∈ artifacts, ∃ to_a ∈ artifacts,
      Observed existing_pairs (Fires u similarity from_a to_a) from_a to_a o)
    {from_a to_a : LinkableArtifact} (hfrom : from_a ∈ artifacts) (hto : to_a ∈ artifacts)
    (hjoinable : Joinable existing_pairs from_a to_a) :
    {x | ∃ name, ⟨(from_a.artifact_id, to_a.artifact_id), name, x⟩ ∈ seen} = firing_scores u similarity from_a to_a := by
  ext x
  constructor
  · rintro ⟨name, hmem⟩
    obtain ⟨from_a', hfrom', to_a', hto', h⟩ := (hseen _).1 hmem
    have hpair := Prod.mk.inj h.pair
    obtain rfl := List.inj_on_of_nodup_map hids hfrom hfrom' hpair.1
    obtain rfl := List.inj_on_of_nodup_map hids hto hto' hpair.2
    exact ⟨name, h.fires⟩
  · rintro ⟨name, hfires⟩
    exact ⟨name, (hseen _).2 ⟨from_a, hfrom, to_a, hto, hjoinable, rfl, hfires⟩⟩

theorem top_candidates (hids : (artifacts.map (·.artifact_id)).Nodup) :
    TopCandidates u artifacts existing_pairs similarity (generate_candidates u artifacts existing_pairs similarity) := by
  have hsweeps : Tallies (signal_sweep u artifacts existing_pairs similarity) _ := tallies_signal_sweep hids
  obtain ⟨seen, hsweep, hseen⟩ := hsweeps
  rw [generate_candidates_eq, hsweep]
  have htallied : Tallied (seen.foldl observe []) seen := by
    apply tallied_foldl
    intro o ho
    obtain ⟨from_a, -, to_a, -, h⟩ := (hseen o).1 ho
    exact h.fires.pos
  obtain ⟨hpairs, hscored, hdrafted⟩ := drafts_of_tallied htallied
  constructor
  case once => exact pairs_bound_fan_out hpairs
  case sound =>
    intro d hd
    have hgreatest := hscored d (mem_of_mem_best_of (mem_bound_fan_out.1 hd)).1
    obtain ⟨name, hmem⟩ := hgreatest.1
    obtain ⟨from_a, hfrom, to_a, hto, h⟩ := (hseen _).1 hmem
    have hpair : d.pair = (from_a.artifact_id, to_a.artifact_id) := h.pair
    rw [hpair, observed_scores hids hseen hfrom hto h.joinable] at hgreatest
    exact ⟨from_a, hfrom, to_a, hto, hpair, ⟨h.joinable, d.score, name, h.fires⟩, hgreatest⟩
  case few =>
    intro from_id
    rw [(filter_bound_fan_out hpairs from_id).length_eq]
    exact List.length_take_le _ _
  case best =>
    intro from_a hfrom to_a hto helig
    obtain ⟨score, name, hfires⟩ := helig.fires
    obtain ⟨d, hd, hpair⟩ := hdrafted _ ((hseen ⟨(from_a.artifact_id, to_a.artifact_id), name, score⟩).2
      ⟨from_a, hfrom, to_a, hto, helig.joinable, rfl, hfires⟩)
    by_cases hkept : d ∈ bound_fan_out (drafts_of (seen.foldl observe []))
    · exact .inl ⟨d, hkept, hpair⟩
    right
    have hdfrom : d.from_artifact_id = from_a.artifact_id := congrArg Prod.fst hpair
    have hdto : d.to_artifact_id = to_a.artifact_id := congrArg Prod.snd hpair
    have hranked : d ∈ sorted ranks_before ((drafts_of (seen.foldl observe [])).filter fun other =>
        other.from_artifact_id == from_a.artifact_id) :=
      mem_sorted.2 (List.mem_filter.2 ⟨hd, beq_iff_eq.2 hdfrom⟩)
    rw [mem_bound_fan_out, hdfrom] at hkept
    obtain ⟨hfull, hbetter⟩ := take_best (pairwise_rank hpairs from_a.artifact_id) hranked hkept
    refine ⟨(filter_bound_fan_out hpairs from_a.artifact_id).length_eq.trans hfull, d.score, ?_, ?_⟩
    · have hgreatest := hscored d hd
      rw [hpair] at hgreatest
      rwa [observed_scores hids hseen hfrom hto helig.joinable] at hgreatest
    · intro other hother hofrom
      rw [mem_bound_fan_out, hofrom] at hother
      have hlt := hbetter other hother
      unfold CandidateDraft.rank at hlt
      rw [Prod.Lex.toLex_lt_toLex, OrderDual.toDual_lt_toDual, OrderDual.toDual_inj, hdto] at hlt
      exact hlt

theorem generate_candidates_perm (hids : (artifacts.map (·.artifact_id)).Nodup) {artifacts' : List LinkableArtifact}
    (hperm : artifacts.Perm artifacts') :
    generate_candidates u artifacts' existing_pairs similarity = generate_candidates u artifacts existing_pairs similarity := by
  have hordered : sorted (fun a b => decide (a.artifact_id ≤ b.artifact_id)) artifacts =
      sorted (fun a b => decide (a.artifact_id ≤ b.artifact_id)) artifacts' :=
    sorted_congr (fun a b => decide_eq_true_iff) hids hperm
  have hfind := find?_key_congr hids hperm
  unfold generate_candidates embedding_signals
  simp only [hordered, hfind]

/-- Whatever the artifacts, the neighbours reported and the pairs linked already, and in whatever order the artifacts
come, the candidates of an artifact are the best of its eligible targets. -/
theorem generate_candidates_exact (u : Unicode) (artifacts : List LinkableArtifact) (existing_pairs : List (Uuid × Uuid))
    (similarity : Option SimilarityProvider) (hids : (artifacts.map (·.artifact_id)).Nodup) :
    TopCandidates u artifacts existing_pairs similarity (generate_candidates u artifacts existing_pairs similarity) ∧
      ∀ artifacts', artifacts.Perm artifacts' → generate_candidates u artifacts' existing_pairs similarity =
        generate_candidates u artifacts existing_pairs similarity :=
  ⟨top_candidates hids, fun _ hperm => generate_candidates_perm hids hperm⟩

/-- A file and the guide beside it. -/
def colocated_artifacts : List LinkableArtifact :=
  [{ artifact_id := 1, artifact_type := .code_file, title := none, body_text := none, source_type := .github_code
     path := some "a/b" },
   { artifact_id := 2, artifact_type := .chunk, title := none, body_text := none, source_type := .github_doc
     path := some "a/c" }]

theorem generate_candidates_exact_colocated :
    TopCandidates .ascii colocated_artifacts [] none (generate_candidates .ascii colocated_artifacts [] none) ∧
      generate_candidates .ascii colocated_artifacts.reverse [] none = generate_candidates .ascii colocated_artifacts [] none :=
  have h := generate_candidates_exact .ascii colocated_artifacts [] none (by decide)
  ⟨h.1, h.2 _ (List.reverse_perm _).symm⟩

end Generated

end AgenticKb
