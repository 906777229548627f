import Mathlib.Data.List.Induction

namespace AgenticKb.Lib

/-! The scan of one level of a graph search, where some nodes are hidden from the searcher. -/

/-- A node met at the far end of an edge. The edge leads to it if `outward`. -/
structure Hop (V E : Type*) where
  node : V
  edge : E
  outward : Bool
deriving DecidableEq, Repr

section Views

variable {V E : Type*} {shown : V → Bool}

/-- Two scans that differ at most in the hidden nodes they have met. -/
structure SameView (shown : V → Bool) (s t : List V × List (Hop V E)) : Prop where
  visited : ∀ v, shown v = true → (v ∈ s.1 ↔ v ∈ t.1)
  hops : s.2.filter (fun hop => shown hop.node) = t.2.filter fun hop => shown hop.node

theorem SameView.symm {s t : List V × List (Hop V E)} (h : SameView shown s t) : SameView shown t s :=
  ⟨fun v hv => (h.visited v hv).symm, h.hops.symm⟩

theorem SameView.trans {s t u : List V × List (Hop V E)} (hst : SameView shown s t) (htu : SameView shown t u) :
    SameView shown s u :=
  ⟨fun v hv => (hst.visited v hv).trans (htu.visited v hv), hst.hops.trans htu.hops⟩

/-- Both ends of the edge are shown. -/
def between (source target : E → V) (shown : V → Bool) (e : E) : Bool := shown (source e) && shown (target e)

end Views

section Scan

variable {V E : Type*} [DecidableEq V] (source target : E → V) (frontier : List V)

/-- One edge of a scan: the nodes visited so far, and the hops to those that are new. -/
def scan_edge (state : List V × List (Hop V E)) (e : E) : List V × List (Hop V E) :=
  if frontier.contains (source e) && !state.1.contains (target e) then
    (target e :: state.1, state.2 ++ [⟨target e, e, true⟩])
  else if frontier.contains (target e) && !state.1.contains (source e) then
    (source e :: state.1, state.2 ++ [⟨source e, e, false⟩])
  else state

/-- The scan of the edges at a frontier. -/
def scan (visited : List V) (edges : List E) : List V × List (Hop V E) :=
  edges.foldl (scan_edge source target frontier) (visited, [])

/-- What one edge can do to a scan: nothing, or one hop from the frontier to a new node at its other end. -/
theorem scan_edge_cases (state : List V × List (Hop V E)) (e : E) :
    scan_edge source target frontier state e = state ∨
      ∃ hop : Hop V E, hop.edge = e ∧ hop.node ∉ state.1 ∧
        scan_edge source target frontier state e = (hop.node :: state.1, state.2 ++ [hop]) ∧
        ((source e ∈ frontier ∧ hop.node = target e) ∨ (target e ∈ frontier ∧ hop.node = source e)) := by
  unfold scan_edge
  by_cases hout : (frontier.contains (source e) && !state.1.contains (target e)) = true
  · rw [if_pos hout]
    simp only [Bool.and_eq_true, Bool.not_eq_true', List.contains_eq_mem, decide_eq_false_iff_not] at hout
    exact .inr ⟨⟨target e, e, true⟩, rfl, hout.2, rfl, .inl ⟨by simpa using hout.1, rfl⟩⟩
  · rw [if_neg hout]
    by_cases hin : (frontier.contains (target e) && !state.1.contains (source e)) = true
    · rw [if_pos hin]
      simp only [Bool.and_eq_true, Bool.not_eq_true', List.contains_eq_mem, decide_eq_false_iff_not] at hin
      exact .inr ⟨⟨source e, e, false⟩, rfl, hin.2, rfl, .inr ⟨by simpa using hin.1, rfl⟩⟩
    · rw [if_neg hin]
      exact .inl rfl

/-- Every hop takes an edge that was scanned from the frontier to a node that was new. -/
theorem hops_of_scan (visited : List V) (edges : List E) :
    (∀ v ∈ visited, v ∈ (scan source target frontier visited edges).1) ∧
      ∀ hop ∈ (scan source target frontier visited edges).2, hop.edge ∈ edges ∧ hop.node ∉ visited ∧
        hop.node ∈ (scan source target frontier visited edges).1 ∧
        ((source hop.edge ∈ frontier ∧ hop.node = target hop.edge) ∨
          (target hop.edge ∈ frontier ∧ hop.node = source hop.edge)) := by
  unfold scan
  induction edges using List.reverseRecOn with
  | nil => simp
  | append_singleton edges e ih =>
    rw [List.foldl_append, List.foldl_cons, List.foldl_nil]
    generalize edges.foldl (scan_edge source target frontier) (visited, []) = state at ih
    obtain ⟨hvisited, hhops⟩ := ih
    have hedge : ∀ {hop : Hop V E}, hop.edge ∈ edges → hop.edge ∈ edges ++ [e] := List.mem_append_left _
    cases scan_edge_cases source target frontier state e with
    | inl hsame =>
      rw [hsame]
      exact ⟨hvisited, fun hop hhop => ⟨hedge (hhops hop hhop).1, (hhops hop hhop).2⟩⟩
    | inr hnew =>
      obtain ⟨hop, hhop, hfresh, heq, hends⟩ := hnew
      rw [heq]
      refine ⟨fun v hv => List.mem_cons_of_mem _ (hvisited v hv), fun other hother => ?_⟩
      cases List.mem_append.1 hother with
      | inl hold =>
        obtain ⟨hmem, hnot, hseen, hold⟩ := hhops other hold
        exact ⟨hedge hmem, hnot, List.mem_cons_of_mem _ hseen, hold⟩
      | inr hlast =>
        rw [List.mem_singleton.1 hlast]
        subst hhop
        exact ⟨List.mem_append_right _ List.mem_cons_self, fun hv => hfresh (hvisited _ hv), List.mem_cons_self, hends⟩

variable {source target frontier} {shown : V → Bool}

/-- An edge with a hidden end leads the searcher to hidden nodes only. -/
private theorem scan_edge_hidden (hfrontier : ∀ v ∈ frontier, shown v = true) (state : List V × List (Hop V E))
    {e : E} (he : between source target shown e = false) :
    SameView shown (scan_edge source target frontier state e) state := by
  cases scan_edge_cases source target frontier state e with
  | inl hsame =>
    rw [hsame]
    exact ⟨fun _ _ => Iff.rfl, rfl⟩
  | inr hnew =>
    obtain ⟨hop, -, -, heq, hends⟩ := hnew
    rw [heq]
    have hhidden : shown hop.node = false := by
      cases hends with
      | inl hout => simpa [between, hfrontier _ hout.1, hout.2] using he
      | inr hin => simpa [between, hfrontier _ hin.1, hin.2] using he
    constructor
    · intro v hv
      have hne : v ≠ hop.node := by
        intro heq
        rw [heq, hhidden] at hv
        simp at hv
      simp [hne]
    · simp [hhidden]

/-- An edge between shown nodes leads two such scans the same way. -/
private theorem scan_edge_shown {s t : List V × List (Hop V E)} (h : SameView shown s t) {e : E}
    (he : between source target shown e = true) :
    SameView shown (scan_edge source target frontier s e) (scan_edge source target frontier t e) := by
  obtain ⟨hsource, htarget⟩ := Bool.and_eq_true_iff.1 he
  have hs : s.1.contains (source e) = t.1.contains (source e) := by
    rw [Bool.eq_iff_iff, List.contains_iff_mem, List.contains_iff_mem]
    exact h.visited _ hsource
  have ht : s.1.contains (target e) = t.1.contains (target e) := by
    rw [Bool.eq_iff_iff, List.contains_iff_mem, List.contains_iff_mem]
    exact h.visited _ htarget
  have hstep : ∀ hop : Hop V E, SameView shown (hop.node :: s.1, s.2 ++ [hop]) (hop.node :: t.1, t.2 ++ [hop]) := by
    intro hop
    constructor
    · intro v hv
      simp [h.visited v hv]
    · simp [h.hops]
  unfold scan_edge
  rw [hs, ht]
  by_cases hout : (frontier.contains (source e) && !t.1.contains (target e)) = true
  · rw [if_pos hout, if_pos hout]
    exact hstep ⟨target e, e, true⟩
  · rw [if_neg hout, if_neg hout]
    by_cases hin : (frontier.contains (target e) && !t.1.contains (source e)) = true
    · rw [if_pos hin, if_pos hin]
      exact hstep ⟨source e, e, false⟩
    · rw [if_neg hin, if_neg hin]
      exact h

/-- A scan sees of the shown nodes what a scan of the edges between them sees. -/
private theorem scan_shown (hfrontier : ∀ v ∈ frontier, shown v = true) (edges : List E)
    {s t : List V × List (Hop V E)} (h : SameView shown s t) :
    SameView shown (edges.foldl (scan_edge source target frontier) s)
      ((edges.filter (between source target shown)).foldl (scan_edge source target frontier) t) := by
  induction edges generalizing s t with
  | nil => exact h
  | cons e edges ih =>
    cases he : between source target shown e with
    | true =>
      rw [List.filter_cons_of_pos he]
      exact ih (scan_edge_shown h he)
    | false =>
      have hdrop : ¬ between source target shown e = true := by simp [he]
      rw [List.filter_cons_of_neg hdrop]
      exact ih ((scan_edge_hidden hfrontier s he).trans h)

/-- Hidden nodes and the edges at them do not change what a scan sees of the rest. -/
theorem scan_congr (hfrontier : ∀ v ∈ frontier, shown v = true) {edges edges' : List E}
    (hedges : (edges.filter (between source target shown)) =
      edges'.filter (between source target shown))
    {visited visited' : List V} (hvisited : ∀ v, shown v = true → (v ∈ visited ↔ v ∈ visited')) :
    SameView shown (scan source target frontier visited edges) (scan source target frontier visited' edges') := by
  have hstart : SameView shown (visited, ([] : List (Hop V E))) (visited', []) := ⟨hvisited, rfl⟩
  have hleft : SameView shown (scan source target frontier visited edges)
      (scan source target frontier visited' (edges.filter (between source target shown))) :=
    scan_shown hfrontier edges hstart
  have hright : SameView shown (scan source target frontier visited' edges')
      (scan source target frontier visited' (edges'.filter (between source target shown))) :=
    scan_shown hfrontier edges' ⟨fun _ _ => Iff.rfl, rfl⟩
  rw [hedges] at hleft
  exact hleft.trans hright.symm

end Scan

section Coverage

variable {V E : Type*} [DecidableEq V] {source target : E → V} {frontier : List V}

/-- The flag of a hop tells which end of its edge it comes from. -/
def Hop.Oriented (source target : E → V) (hop : Hop V E) (u : V) : Prop :=
  if hop.outward then u = source hop.edge ∧ hop.node = target hop.edge
  else u = target hop.edge ∧ hop.node = source hop.edge

/-- What a scan has visited and met, in full: nobody is met twice, nobody else is visited, and behind every edge scanned
from the frontier both ends are. -/
structure Scanned (source target : E → V) (frontier visited : List V) (edges : List E)
    (state : List V × List (Hop V E)) : Prop where
  nodup : (state.2.map (·.node)).Nodup
  seen : ∀ v, v ∈ state.1 ↔ v ∈ visited ∨ v ∈ state.2.map (·.node)
  fresh : ∀ hop ∈ state.2, hop.node ∉ visited
  oriented : ∀ hop ∈ state.2, hop.edge ∈ edges ∧ ∃ u ∈ frontier, hop.Oriented source target u
  source_covered : ∀ e ∈ edges, source e ∈ frontier → target e ∈ state.1
  target_covered : ∀ e ∈ edges, target e ∈ frontier → source e ∈ state.1

private theorem Scanned.edge {visited : List V} {edges : List E} {state : List V × List (Hop V E)}
    (h : Scanned source target frontier visited edges state) (hsub : ∀ v ∈ frontier, v ∈ visited) (e : E) :
    Scanned source target frontier visited (edges ++ [e]) (scan_edge source target frontier state e) := by
  have hkept : ∀ e' ∈ edges ++ [e], e' ∈ edges ∨ e' = e := fun e' he' => by simpa using he'
  have hfrontier : ∀ v ∈ frontier, v ∈ state.1 := fun v hv => (h.seen v).2 (.inl (hsub v hv))
  -- one hop more
  have hstep : ∀ hop : Hop V E, hop.edge = e → hop.node ∉ state.1 → (∃ u ∈ frontier, hop.Oriented source target u) →
      (source e ∈ frontier → target e ∈ hop.node :: state.1) → (target e ∈ frontier → source e ∈ hop.node :: state.1) →
        Scanned source target frontier visited (edges ++ [e]) (hop.node :: state.1, state.2 ++ [hop]) := by
    intro hop hedge hnew horiented hout hin
    constructor
    case nodup =>
      rw [List.map_append, List.map_singleton]
      refine List.nodup_append.2 ⟨h.nodup, List.pairwise_singleton _ _, fun v hv w hw heq => hnew ?_⟩
      rw [← List.mem_singleton.1 hw, ← heq]
      exact (h.seen v).2 (.inr hv)
    case seen =>
      intro v
      rw [List.mem_cons, h.seen v, List.map_append, List.mem_append, List.map_singleton, List.mem_singleton]
      tauto
    case fresh =>
      intro other hother
      cases List.mem_append.1 hother with
      | inl hold => exact h.fresh other hold
      | inr hlast => exact List.mem_singleton.1 hlast ▸ fun hmem => hnew ((h.seen _).2 (.inl hmem))
    case oriented =>
      intro other hother
      cases List.mem_append.1 hother with
      | inl hold => exact ⟨List.mem_append_left _ (h.oriented other hold).1, (h.oriented other hold).2⟩
      | inr hlast =>
        rw [List.mem_singleton.1 hlast, hedge]
        exact ⟨List.mem_append_right _ List.mem_cons_self, horiented⟩
    case source_covered =>
      intro e' he' hmem
      cases hkept e' he' with
      | inl hold => exact List.mem_cons_of_mem _ (h.source_covered e' hold hmem)
      | inr heq => exact heq ▸ hout (heq ▸ hmem)
    case target_covered =>
      intro e' he' hmem
      cases hkept e' he' with
      | inl hold => exact List.mem_cons_of_mem _ (h.target_covered e' hold hmem)
      | inr heq => exact heq ▸ hin (heq ▸ hmem)
  unfold scan_edge
  by_cases hout : (frontier.contains (source e) && !state.1.contains (target e)) = true
  · rw [if_pos hout]
    simp only [Bool.and_eq_true, Bool.not_eq_true', List.contains_eq_mem, decide_eq_true_eq, decide_eq_false_iff_not] at hout
    refine hstep ⟨target e, e, true⟩ rfl hout.2 ⟨source e, hout.1, rfl, rfl⟩ (fun _ => List.mem_cons_self) fun _ => ?_
    exact List.mem_cons_of_mem _ (hfrontier _ hout.1)
  · rw [if_neg hout]
    simp only [Bool.and_eq_true, Bool.not_eq_true', List.contains_eq_mem, decide_eq_true_eq, decide_eq_false_iff_not,
      not_and, not_not] at hout
    by_cases hin : (frontier.contains (target e) && !state.1.contains (source e)) = true
    · rw [if_pos hin]
      simp only [Bool.and_eq_true, Bool.not_eq_true', List.contains_eq_mem, decide_eq_true_eq,
        decide_eq_false_iff_not] at hin
      refine hstep ⟨source e, e, false⟩ rfl hin.2 ⟨target e, hin.1, rfl, rfl⟩ (fun hmem => ?_) fun _ => List.mem_cons_self
      exact List.mem_cons_of_mem _ (hout hmem)
    · rw [if_neg hin]
      simp only [Bool.and_eq_true, Bool.not_eq_true', List.contains_eq_mem, decide_eq_true_eq, decide_eq_false_iff_not,
        not_and, not_not] at hin
      constructor
      case nodup => exact h.nodup
      case seen => exact h.seen
      case fresh => exact h.fresh
      case oriented =>
        exact fun hop hhop => ⟨List.mem_append_left _ (h.oriented hop hhop).1, (h.oriented hop hhop).2⟩
      case source_covered =>
        intro e' he' hmem
        cases hkept e' he' with
        | inl hold => exact h.source_covered e' hold hmem
        | inr heq => exact heq ▸ hout (heq ▸ hmem)
      case target_covered =>
        intro e' he' hmem
        cases hkept e' he' with
        | inl hold => exact h.target_covered e' hold hmem
        | inr heq => exact heq ▸ hin (heq ▸ hmem)

/-- A scan from nodes that are visited themselves misses nobody next to them. -/
theorem scanned {visited : List V} (hsub : ∀ v ∈ frontier, v ∈ visited) (edges : List E) :
    Scanned source target frontier visited edges (scan source target frontier visited edges) := by
  unfold scan
  induction edges using List.reverseRecOn with
  | nil => exact ⟨List.nodup_nil, by simp, by simp, by simp, by simp, by simp⟩
  | append_singleton edges e ih =>
    rw [List.foldl_append, List.foldl_cons, List.foldl_nil]
    exact ih.edge hsub e

end Coverage

section Levels

variable {V : Type*}

/-- The ends of the walks of so many edges from a root. -/
inductive ReachIn (adj : V → V → Prop) (root : V → Prop) : Nat → V → Prop where
  | root {v : V} (hroot : root v) : ReachIn adj root 0 v
  | step {n : Nat} {u v : V} (hreach : ReachIn adj root n u) (hadj : adj u v) : ReachIn adj root (n + 1) v

/-- The length of a shortest walk. -/
structure AtDistance (adj : V → V → Prop) (root : V → Prop) (n : Nat) (v : V) : Prop where
  reach : ReachIn adj root n v
  shortest : ∀ m, ReachIn adj root m v → n ≤ m

/-- After `n` levels a search has visited what lies within `n` edges, and stands at what lies no nearer than that. -/
structure Leveled (adj : V → V → Prop) (root : V → Prop) (n : Nat) (visited frontier : V → Prop) : Prop where
  visited : ∀ v, visited v ↔ ∃ m ≤ n, ReachIn adj root m v
  frontier : ∀ v, frontier v ↔ AtDistance adj root n v

variable {adj : V → V → Prop} {root : V → Prop} {n : Nat} {visited frontier : V → Prop}

theorem leveled_roots : Leveled adj root 0 root root := by
  have hroot : ∀ v, root v ↔ ReachIn adj root 0 v :=
    fun v => ⟨.root, fun h => by cases h with | root hroot => exact hroot⟩
  constructor
  · intro v
    rw [hroot v]
    constructor
    · exact fun h => ⟨0, Nat.le_refl 0, h⟩
    · rintro ⟨m, hm, h⟩
      exact Nat.le_zero.1 hm ▸ h
  · intro v
    rw [hroot v]
    exact ⟨fun h => ⟨h, fun m _ => Nat.zero_le m⟩, fun h => h.reach⟩

theorem Leveled.congr (h : Leveled adj root n visited frontier) {visited' frontier' : V → Prop}
    (hvisited : ∀ v, visited' v ↔ visited v) (hfrontier : ∀ v, frontier' v ↔ frontier v) :
    Leveled adj root n visited' frontier' :=
  ⟨fun v => (hvisited v).trans (h.visited v), fun v => (hfrontier v).trans (h.frontier v)⟩

/-- What was not visited and lies next to the frontier is the next level. -/
theorem Leveled.fresh_iff (h : Leveled adj root n visited frontier) (v : V) :
    (¬ visited v ∧ ∃ u, frontier u ∧ adj u v) ↔ AtDistance adj root (n + 1) v := by
  constructor
  · rintro ⟨hnew, u, hu, hadj⟩
    refine ⟨.step ((h.frontier u).1 hu).reach hadj, fun m hm => ?_⟩
    by_contra hlt
    exact hnew ((h.visited v).2 ⟨m, by omega, hm⟩)
  · intro hv
    have hnew : ¬ visited v := by
      intro hold
      obtain ⟨m, hm, hreach⟩ := (h.visited v).1 hold
      have hle := hv.shortest m hreach
      omega
    cases hv.reach with
    | step hreach hadj =>
      rename_i u
      refine ⟨hnew, u, (h.frontier u).2 ⟨hreach, fun m hm => ?_⟩, hadj⟩
      have hle := hv.shortest (m + 1) (.step hm hadj)
      omega

theorem Leveled.next (h : Leveled adj root n visited frontier) {fresh : V → Prop}
    (hfresh : ∀ v, fresh v ↔ ¬ visited v ∧ ∃ u, frontier u ∧ adj u v) :
    Leveled adj root (n + 1) (fun v => visited v ∨ fresh v) fresh := by
  have hlevel : ∀ v, fresh v ↔ AtDistance adj root (n + 1) v := fun v => (hfresh v).trans (h.fresh_iff v)
  refine ⟨fun v => ?_, hlevel⟩
  constructor
  · intro hv
    cases hv with
    | inl hold =>
      obtain ⟨m, hm, hreach⟩ := (h.visited v).1 hold
      exact ⟨m, by omega, hreach⟩
    | inr hnew => exact ⟨n + 1, Nat.le_refl _, ((hlevel v).1 hnew).reach⟩
  · rintro ⟨m, hm, hreach⟩
    by_cases hold : visited v
    · exact .inl hold
    · refine .inr ((hlevel v).2 ?_)
      have hfar : ∀ m, ReachIn adj root m v → n + 1 ≤ m := by
        intro m hm
        by_contra hlt
        exact hold ((h.visited v).2 ⟨m, by omega, hm⟩)
      have heq : m = n + 1 := Nat.le_antisymm hm (hfar m hreach)
      exact ⟨heq ▸ hreach, hfar⟩

/-- A search that stands nowhere has visited everything. -/
theorem Leveled.done (h : Leveled adj root n visited frontier) (hempty : ∀ v, ¬ frontier v) {m : Nat} {v : V}
    (hreach : ReachIn adj root m v) : visited v := by
  have hwithin : m ≤ n → visited v := fun hm => (h.visited v).2 ⟨m, hm, hreach⟩
  induction hreach with
  | root hroot => exact hwithin (Nat.zero_le n)
  | step hu hadj ih =>
    rename_i m u v
    have hvisited : visited u := ih fun hm => (h.visited u).2 ⟨m, hm, hu⟩
    by_contra hnew
    -- the node before is at some level up to this one, so this one is at the next
    obtain ⟨l, hl, hul⟩ := (h.visited u).1 hvisited
    by_cases hlast : l = n
    · have hfrontier : ¬ AtDistance adj root n u := fun hat => hempty u ((h.frontier u).2 hat)
      apply hfrontier
      refine ⟨hlast ▸ hul, fun k hk => ?_⟩
      by_contra hlt
      exact hnew ((h.visited v).2 ⟨k + 1, by omega, .step hk hadj⟩)
    · exact hnew ((h.visited v).2 ⟨l + 1, by omega, .step hul hadj⟩)

end Levels

section Measure

variable {V : Type*} [DecidableEq V]

/-- The nodes of `nodes` still to be visited. -/
def unvisited (nodes visited : List V) : Nat := nodes.countP fun v => !visited.contains v

/-- A search that meets a new node has fewer left. -/
theorem unvisited_lt {nodes visited visited' : List V} (hsub : ∀ v ∈ visited, v ∈ visited') {v : V}
    (hmem : v ∈ nodes) (hold : v ∉ visited) (hnew : v ∈ visited') :
    unvisited nodes visited' < unvisited nodes visited := by
  unfold unvisited
  induction nodes with
  | nil => simp at hmem
  | cons w nodes ih =>
    have hle : nodes.countP (fun v => !visited'.contains v) ≤ nodes.countP fun v => !visited.contains v := by
      apply List.countP_mono_left
      intro w _ hw
      simp only [List.contains_eq_mem, Bool.not_eq_true', decide_eq_false_iff_not] at hw ⊢
      exact fun hin => hw (hsub w hin)
    rw [List.countP_cons, List.countP_cons]
    cases List.mem_cons.1 hmem with
    | inl heq =>
      have hseen : ¬ (!visited'.contains w) = true := by simpa [← heq] using hnew
      have hunseen : (!visited.contains w) = true := by simpa [← heq] using hold
      rw [if_neg hseen, if_pos hunseen]
      omega
    | inr hin =>
      have hlt := ih hin
      by_cases hw : (!visited'.contains w) = true
      · have hw' : (!visited.contains w) = true := by
          simp only [List.contains_eq_mem, Bool.not_eq_true', decide_eq_false_iff_not] at hw ⊢
          exact fun h => hw (hsub w h)
        rw [if_pos hw, if_pos hw']
        omega
      · rw [if_neg hw]
        by_cases hw' : (!visited.contains w) = true
        · rw [if_pos hw']
          omega
        · rw [if_neg hw']
          exact hlt

end Measure

end AgenticKb.Lib
