import Mathlib.Algebra.GroupWithZero.Nat
import AgenticKb.Lib.History
import AgenticKb.Properties.AgentFiles

open AgenticKb.Lib AgenticKb.Graphify

namespace AgenticKb.KbAgent

section Record

def Event.is_search : Event → Bool
  | .search _ => true
  | .request .. => false

/-- The tokens that a search brought into the conversation. -/
def Event.kb_tokens : Event → Nat
  | .search (.ok out) => estimate_tokens out
  | _ => 0

/-- The conversation that a request carries. -/
def Event.conversation : Event → Option (List Message)
  | .request _ messages => some messages
  | .search _ => none

def searches (log : List Event) : Nat := log.countP Event.is_search

def kb_tokens (log : List Event) : Nat := (log.map Event.kb_tokens).sum

def conversations (log : List Event) : List (List Message) := log.filterMap Event.conversation

@[simp] theorem searches_append (log log' : List Event) : searches (log ++ log') = searches log + searches log' :=
  List.countP_append

@[simp] theorem kb_tokens_append (log log' : List Event) : kb_tokens (log ++ log') = kb_tokens log + kb_tokens log' := by
  rw [kb_tokens, List.map_append, List.sum_append, kb_tokens, kb_tokens]

@[simp] theorem conversations_append (log log' : List Event) :
    conversations (log ++ log') = conversations log ++ conversations log' :=
  List.filterMap_append

/-- Both caps remain behind what was recorded. -/
def Room (calls tokens : Int) (log : List Event) : Prop := (searches log : Int) < calls ∧ (kb_tokens log : Int) < tokens

/-- A search is made only while both caps remain, and the tool for it is offered while they do. -/
def Budgeted (calls tokens : Int) (before : List Event) : Event → Prop
  | .search _ => Room calls tokens before
  | .request tools _ => (∀ tool ∈ FILE_TOOLS, tool ∈ tools) ∧ (KB_TOOL ∈ tools ↔ Room calls tokens before)

end Record

section Budget

variable {world : World} {build_seq : Nat} {calls tokens : Int} {s : Session}

/-- The caps that are left are those of the start less what the record holds. -/
structure Metered (calls tokens : Int) (s : Session) : Prop where
  searches_left : s.searches_left = calls - searches s.log
  kb_tokens_left : s.kb_tokens_left = tokens - kb_tokens s.log
  kb_calls : s.kb_calls = searches s.log
  budgeted : AtEach (Budgeted calls tokens) s.log

theorem Metered.kb_budget_open_iff (h : Metered calls tokens s) :
    kb_budget_open s.searches_left s.kb_tokens_left = true ↔ Room calls tokens s.log := by
  rw [kb_budget_open, Bool.and_eq_true, decide_eq_true_iff, decide_eq_true_iff, h.searches_left, h.kb_tokens_left, Room]
  omega

theorem kb_tool_not_mem_file_tools : KB_TOOL ∉ FILE_TOOLS := by decide

theorem Metered.offered (h : Metered calls tokens s) (messages : List Message) :
    Budgeted calls tokens s.log (.request (offered_tools s) messages) := by
  refine ⟨fun tool htool => List.mem_append_left _ htool, ?_⟩
  rw [← h.kb_budget_open_iff, offered_tools, List.mem_append]
  cases kb_budget_open s.searches_left s.kb_tokens_left with
  | true => simp
  | false => simpa using kb_tool_not_mem_file_tools

theorem Metered.request (h : Metered calls tokens s) {tools : List Tool} {messages : List Message}
    (hbudgeted : Budgeted calls tokens s.log (.request tools messages)) (messages' : List Message) :
    Metered calls tokens { s with messages := messages', log := s.log ++ [.request tools messages] } := by
  constructor
  case searches_left => simpa [searches, Event.is_search] using h.searches_left
  case kb_tokens_left => simpa [kb_tokens, Event.kb_tokens] using h.kb_tokens_left
  case kb_calls => simpa [searches, Event.is_search] using h.kb_calls
  case budgeted => exact atEach_append_singleton.2 ⟨h.budgeted, hbudgeted⟩

theorem raw_model_step_session (tools : List Tool) :
    (raw_model_step world s tools).1 = { s with log := s.log ++ [.request tools s.messages] } := by
  unfold raw_model_step
  split
  · rfl
  · rfl

theorem Metered.model_step (h : Metered calls tokens s) :
    Metered calls tokens (model_step world s (offered_tools s)).1 := by
  have hfirst : (raw_model_step world s (offered_tools s)).1 =
      { s with log := s.log ++ [.request (offered_tools s) s.messages] } := raw_model_step_session _
  unfold KbAgent.model_step
  split
  · rename_i s' step hraw
    rw [hraw] at hfirst
    dsimp only at hfirst ⊢
    rw [hfirst]
    exact h.request (h.offered _) _
  · rename_i s' exc hraw
    rw [hraw] at hfirst
    dsimp only at hfirst ⊢
    split
    · rw [hfirst]
      exact h.request (h.offered _) _
    · rw [raw_model_step_session, hfirst]
      -- the retry is offered the same tools, and nothing was searched in between
      have hagain := h.request (h.offered s.messages) (s.messages ++ [.user (retry_nudge (offered_tools s) exc)])
      apply hagain.request
      have hroom : Room calls tokens (s.log ++ [.request (offered_tools s) s.messages]) ↔ Room calls tokens s.log := by
        simp [Room, searches, kb_tokens, Event.is_search, Event.kb_tokens]
      refine ⟨(h.offered s.messages).1, ?_⟩
      dsimp only
      rw [hroom]
      exact (h.offered s.messages).2

theorem Metered.charge_search (h : Metered calls tokens s) (hroom : Room calls tokens s.log) (outcome : Except Exc String) :
    Metered calls tokens (charge_search s outcome).1 := by
  have hlog : AtEach (Budgeted calls tokens) (s.log ++ [.search outcome]) :=
    atEach_append_singleton.2 ⟨h.budgeted, hroom⟩
  have hone : (searches (s.log ++ [.search outcome]) : Int) = searches s.log + 1 := by
    rw [searches_append]
    rfl
  have hleft := h.searches_left
  have htokens := h.kb_tokens_left
  have hcalls := h.kb_calls
  cases outcome with
  | error exc =>
    constructor
    case searches_left =>
      unfold KbAgent.charge_search
      dsimp only
      omega
    case kb_tokens_left => simpa [KbAgent.charge_search, kb_tokens, Event.kb_tokens] using htokens
    case kb_calls =>
      unfold KbAgent.charge_search
      dsimp only
      omega
    case budgeted => exact hlog
  | ok out =>
    constructor
    case searches_left =>
      unfold KbAgent.charge_search
      dsimp only
      omega
    case kb_tokens_left =>
      have hout : kb_tokens (s.log ++ [.search (.ok out)]) = kb_tokens s.log + estimate_tokens out := kb_tokens_append _ _
      unfold KbAgent.charge_search
      dsimp only
      omega
    case kb_calls =>
      unfold KbAgent.charge_search
      dsimp only
      omega
    case budgeted => exact hlog

theorem Metered.use_tool (h : Metered calls tokens s) (tu : ToolUse) :
    Metered calls tokens (use_tool world build_seq s tu).1 := by
  unfold KbAgent.use_tool
  split
  · split
    · exact h
    · rename_i hname hopen
      exact h.charge_search (h.kb_budget_open_iff.1 (by simpa using hopen)) _
  · constructor
    case searches_left => exact h.searches_left
    case kb_tokens_left => exact h.kb_tokens_left
    case kb_calls => exact h.kb_calls
    case budgeted => exact h.budgeted

end Budget

section Conversation

variable {world : World} {build_seq : Nat} {provider : String} {opening : List Message} {nudged : Bool} {s : Session}

/-- A conversation in which every tool call of the model is answered at once: its outputs stand right behind it, one for each
call and in their order. Between two replies there is one nudge at most, and that after a 400. -/
inductive Answered (provider : String) (opening : List Message) : Bool → List Message → Prop where
  | started : Answered provider opening false opening
  | nudge {messages : List Message} (tools : List Tool) {error : ModelError} (hstatus : error.status_code = some 400)
      (h : Answered provider opening false messages) :
      Answered provider opening true (messages ++ [.user (retry_nudge tools error)])
  | round {nudged : Bool} {messages : List Message} (text : String) {tool_uses : List ToolUse} {outs : List String}
      (hsome : tool_uses ≠ []) (hlength : outs.length = tool_uses.length) (h : Answered provider opening nudged messages) :
      Answered provider opening false
        (messages ++ .assistant text tool_uses :: tool_result_messages provider (tool_uses.zip outs))

/-- The conversation so far and all that were sent: each is answered, and goes on where the one before it stopped. -/
structure Conversing (provider : String) (opening : List Message) (nudged : Bool) (s : Session) : Prop where
  answered : Answered provider opening nudged s.messages
  sent : ∀ messages ∈ conversations s.log, (∃ nudged, Answered provider opening nudged messages) ∧ messages <+: s.messages
  growing : (conversations s.log).Pairwise (· <+: ·)

theorem Conversing.request (h : Conversing provider opening nudged s) (tools : List Tool) :
    Conversing provider opening nudged { s with log := s.log ++ [.request tools s.messages] } := by
  have hlog : conversations (s.log ++ [.request tools s.messages]) = conversations s.log ++ [s.messages] := conversations_append _ _
  constructor
  case answered => exact h.answered
  case sent =>
    dsimp only
    rw [hlog]
    intro messages hmessages
    cases List.mem_append.1 hmessages with
    | inl hold => exact h.sent messages hold
    | inr hnew =>
      obtain rfl := List.mem_singleton.1 hnew
      exact ⟨⟨nudged, h.answered⟩, List.prefix_rfl⟩
  case growing =>
    dsimp only
    rw [hlog, List.pairwise_append]
    refine ⟨h.growing, List.pairwise_singleton _ _, fun messages hmessages last hlast => ?_⟩
    obtain rfl := List.mem_singleton.1 hlast
    exact (h.sent messages hmessages).2

/-- The conversation goes on. -/
theorem Conversing.extend {nudged' : Bool} (h : Conversing provider opening nudged s) (s' : Session)
    (hlog : conversations s'.log = conversations s.log) (hlead : s.messages <+: s'.messages)
    (hanswered : Answered provider opening nudged' s'.messages) : Conversing provider opening nudged' s' := by
  constructor
  case answered => exact hanswered
  case sent =>
    rw [hlog]
    intro messages hmessages
    obtain ⟨hold, hbefore⟩ := h.sent messages hmessages
    exact ⟨hold, hbefore.trans hlead⟩
  case growing =>
    rw [hlog]
    exact h.growing

theorem Conversing.model_step (h : Conversing provider opening false s) (tools : List Tool) :
    ∃ nudged, Conversing provider opening nudged (model_step world s tools).1 := by
  have hfirst : (raw_model_step world s tools).1 = { s with log := s.log ++ [.request tools s.messages] } :=
    raw_model_step_session _
  unfold KbAgent.model_step
  split
  · rename_i s' step hraw
    rw [hraw] at hfirst
    dsimp only at hfirst ⊢
    rw [hfirst]
    exact ⟨false, h.request tools⟩
  · rename_i s' exc hraw
    rw [hraw] at hfirst
    dsimp only at hfirst ⊢
    split
    · rw [hfirst]
      exact ⟨false, h.request tools⟩
    · rename_i hstatus
      rw [raw_model_step_session, hfirst]
      have hnudged := (h.request tools).extend
        { s with log := s.log ++ [.request tools s.messages], messages := s.messages ++ [.user (retry_nudge tools exc)] } rfl (List.prefix_append _ _) (.nudge tools (not_not.1 hstatus) h.answered)
      exact ⟨true, hnudged.request tools⟩

theorem use_tool_conversation (s : Session) (tu : ToolUse) :
    conversations (use_tool world build_seq s tu).1.log = conversations s.log ∧
      (use_tool world build_seq s tu).1.steps = s.steps := by
  unfold use_tool
  split
  · split
    · exact ⟨rfl, rfl⟩
    · have hlog : ∀ outcome, conversations (s.log ++ [.search outcome]) = conversations s.log := by
        intro outcome
        rw [conversations_append]
        exact List.append_nil _
      cases search_outcome world build_seq s tu with
      | error exc => exact ⟨hlog _, rfl⟩
      | ok out => exact ⟨hlog _, rfl⟩
  · exact ⟨rfl, rfl⟩

theorem use_tools_conversation (s : Session) (tool_uses : List ToolUse) :
    conversations (use_tools world build_seq s tool_uses).1.log = conversations s.log ∧
      (use_tools world build_seq s tool_uses).1.steps = s.steps := by
  apply use_tools_invariant (I := fun s' => conversations s'.log = conversations s.log ∧ s'.steps = s.steps)
  · intro s' tu _ h
    obtain ⟨hlog, hsteps⟩ := @use_tool_conversation world build_seq s' tu
    exact ⟨hlog.trans h.1, hsteps.trans h.2⟩
  · exact ⟨rfl, rfl⟩

/-- Every call has its output, in order. -/
theorem use_tools_pairs (s : Session) (tool_uses : List ToolUse) :
    ∃ outs : List String, outs.length = tool_uses.length ∧ (use_tools world build_seq s tool_uses).2 = tool_uses.zip outs := by
  have hfold : ∀ done : Session × List (ToolUse × String), ∃ outs : List String, outs.length = tool_uses.length ∧
      (tool_uses.foldl (fun (done : Session × List (ToolUse × String)) tu => ((use_tool world build_seq done.1 tu).1,
        done.2 ++ [(tu, (use_tool world build_seq done.1 tu).2)])) done).2 = done.2 ++ tool_uses.zip outs := by
    induction tool_uses with
    | nil => exact fun done => ⟨[], rfl, (List.append_nil _).symm⟩
    | cons tu tool_uses ih =>
      intro done
      obtain ⟨outs, hlength, hpairs⟩ := ih ((use_tool world build_seq done.1 tu).1,
        done.2 ++ [(tu, (use_tool world build_seq done.1 tu).2)])
      refine ⟨(use_tool world build_seq done.1 tu).2 :: outs, by rw [List.length_cons, hlength, List.length_cons], ?_⟩
      rw [List.foldl_cons]
      dsimp only at hpairs ⊢
      rw [hpairs, List.zip_cons_cons, List.append_assoc, List.singleton_append]
  obtain ⟨outs, hlength, hpairs⟩ := hfold (s, [])
  exact ⟨outs, hlength, by rw [use_tools_eq, hpairs, List.nil_append]⟩

theorem Conversing.answer_tools (h : Conversing world.provider opening nudged s) {step : ModelStep} (hsome : step.tool_uses ≠ []) :
    Conversing world.provider opening false (answer_tools world build_seq s step) := by
  have hmessages := @use_tools_messages world build_seq
    { s with messages := s.messages ++ [.assistant step.text step.tool_uses] } step.tool_uses
  obtain ⟨hlog, -⟩ := @use_tools_conversation world build_seq
    { s with messages := s.messages ++ [.assistant step.text step.tool_uses] } step.tool_uses
  obtain ⟨outs, hlength, hpairs⟩ := @use_tools_pairs world build_seq
    { s with messages := s.messages ++ [.assistant step.text step.tool_uses] } step.tool_uses
  have hround : (KbAgent.answer_tools world build_seq s step).messages =
      s.messages ++ .assistant step.text step.tool_uses ::
        tool_result_messages world.provider (step.tool_uses.zip outs) := by
    unfold KbAgent.answer_tools
    dsimp only
    rw [hmessages, hpairs, List.append_assoc, List.singleton_append]
  apply h.extend
  · exact hlog
  · rw [hround]
    exact List.prefix_append _ _
  · rw [hround]
    exact .round step.text hsome hlength h.answered

end Conversation

section Runs

variable {world : World} {build_seq : Nat} {calls tokens : Int} {said : List Message} {s : Session}

theorem conversations_model_step (s : Session) (tools : List Tool) :
    (conversations (model_step world s tools).1.log).length ≤ (conversations s.log).length + 2 ∧
      (model_step world s tools).1.steps = s.steps := by
  have hraw : ∀ s : Session, (conversations (raw_model_step world s tools).1.log).length = (conversations s.log).length + 1 ∧
      (raw_model_step world s tools).1.steps = s.steps := by
    intro s
    have hone : conversations [Event.request tools s.messages] = [s.messages] := rfl
    rw [raw_model_step_session]
    refine ⟨?_, rfl⟩
    dsimp only
    rw [conversations_append, hone, List.length_append, List.length_singleton]
  have hfirst := hraw s
  unfold model_step
  split
  · rename_i s' step hstep
    rw [hstep] at hfirst
    dsimp only at hfirst ⊢
    omega
  · rename_i s' exc hstep
    rw [hstep] at hfirst
    dsimp only at hfirst ⊢
    split
    · dsimp only
      omega
    · have hsecond := hraw { s' with messages := s'.messages ++ [.user (retry_nudge tools exc)] }
      dsimp only at hsecond
      omega

/-- A run that goes by the rules from the start on. -/
structure ByRules (world : World) (calls tokens : Int) (said : List Message) (s : Session) : Prop where
  metered : Metered calls tokens s
  conversing : ∃ nudged, Conversing world.provider said nudged s

/-- One pass of the loop goes by the rules; another one may follow where it ends between two replies. -/
theorem byRules_turn (hmetered : Metered calls tokens s) (hconversing : Conversing world.provider said false s) :
    ByRules world calls tokens said (turn world build_seq s).1 ∧
      ((turn world build_seq s).2 = none → Conversing world.provider said false (turn world build_seq s).1) ∧
        (conversations (turn world build_seq s).1.log).length ≤ (conversations s.log).length + 2 ∧
          (turn world build_seq s).1.steps ≤ s.steps + 1 := by
  have hmodel := @Metered.model_step world calls tokens s hmetered
  obtain ⟨nudged, hconversing'⟩ := @Conversing.model_step world world.provider said s hconversing (offered_tools s)
  have hcount := @conversations_model_step world s (offered_tools s)
  unfold turn
  split
  · rename_i s' exc hstep
    rw [hstep] at hmodel hconversing' hcount
    exact ⟨⟨hmodel, nudged, hconversing'⟩, fun hnone => absurd hnone (by simp), hcount.1, hcount.2.le.trans (Nat.le_succ _)⟩
  · rename_i s' step hstep
    rw [hstep] at hmodel hconversing' hcount
    dsimp only at hmodel hconversing' hcount ⊢
    have hcounted : Metered calls tokens (count_step s' step) := by
      constructor
      case searches_left => exact hmodel.searches_left
      case kb_tokens_left => exact hmodel.kb_tokens_left
      case kb_calls => exact hmodel.kb_calls
      case budgeted => exact hmodel.budgeted
    have hheard : Conversing world.provider said nudged (count_step s' step) :=
      hconversing'.extend (count_step s' step) rfl List.prefix_rfl hconversing'.answered
    have hsteps : (count_step s' step).steps = s'.steps + 1 := rfl
    have hlog : (count_step s' step).log = s'.log := rfl
    split
    · refine ⟨⟨hcounted, nudged, hheard⟩, fun hnone => absurd hnone (by simp), ?_, ?_⟩
      · dsimp only
        rw [hlog]
        exact hcount.1
      · dsimp only
        omega
    · rename_i hempty
      have hsome : step.tool_uses ≠ [] := fun hnil => hempty (by rw [hnil]; rfl)
      have hanswered := @Conversing.answer_tools world build_seq said nudged _ hheard step hsome
      obtain ⟨hsame, hsteps'⟩ := @use_tools_conversation world build_seq
        { count_step s' step with messages := (count_step s' step).messages ++ [.assistant step.text step.tool_uses] }
          step.tool_uses
      have htools : Metered calls tokens (use_tools world build_seq
          { count_step s' step with messages := (count_step s' step).messages ++ [.assistant step.text step.tool_uses] }
            step.tool_uses).1 := by
        apply use_tools_invariant fun s tu _ h => h.use_tool tu
        constructor
        case searches_left => exact hcounted.searches_left
        case kb_tokens_left => exact hcounted.kb_tokens_left
        case kb_calls => exact hcounted.kb_calls
        case budgeted => exact hcounted.budgeted
      have hmetered' : Metered calls tokens (answer_tools world build_seq (count_step s' step) step) := by
        constructor
        case searches_left => exact htools.searches_left
        case kb_tokens_left => exact htools.kb_tokens_left
        case kb_calls => exact htools.kb_calls
        case budgeted => exact htools.budgeted
      refine ⟨⟨hmetered', false, hanswered⟩, fun _ => hanswered, ?_, ?_⟩
      · have hsame' : conversations (answer_tools world build_seq (count_step s' step) step).log = conversations s'.log := hsame
        dsimp only
        rw [hsame']
        exact hcount.1
      · have hsteps'' : (answer_tools world build_seq (count_step s' step) step).steps = (count_step s' step).steps := hsteps'
        dsimp only
        omega

theorem byRules_turns (n : Nat) (hmetered : Metered calls tokens s) (hconversing : Conversing world.provider said false s) :
    ByRules world calls tokens said (turns world build_seq n s).1 ∧
      (conversations (turns world build_seq n s).1.log).length ≤ (conversations s.log).length + 2 * n ∧
        (turns world build_seq n s).1.steps ≤ s.steps + n := by
  induction n generalizing s with
  | zero => exact ⟨⟨hmetered, false, hconversing⟩, Nat.le_refl _, Nat.le_refl _⟩
  | succ n ih =>
    obtain ⟨hrules, hgo, hcount, hsteps⟩ := @byRules_turn world build_seq calls tokens said s hmetered hconversing
    rw [turns]
    split
    · rename_i s' ending hturn
      rw [hturn] at hrules hcount hsteps
      dsimp only at hcount hsteps ⊢
      exact ⟨hrules, by omega, by omega⟩
    · rename_i s' hturn
      rw [hturn] at hrules hgo hcount hsteps
      obtain ⟨hall, hcount', hsteps'⟩ := ih hrules.metered (hgo rfl)
      dsimp only at hall hcount hsteps hcount' hsteps' ⊢
      exact ⟨hall, by omega, by omega⟩

/-- What the caps of a run are. -/
def caps (world : World) (use_kb : Bool) : Int × Int := if use_kb then (world.SEARCH_BUDGET, world.KB_TOKEN_BUDGET) else (0, 0)

/-- Whatever the model says: a search is made, and the tool for it offered, only while fewer searches than the cap were made and
what they returned is below the cap; there are at most two requests for each step, each goes on with the conversation of the one
before it, and in each of them every tool call is answered at once, by one output for each call, in their order; and after a
400, and only then, the model is told so once. -/
structure BoundedRun (world : World) (use_kb : Bool) (task : String) (s : Session) : Prop where
  steps : s.steps ≤ world.MAX_STEPS
  requests : (conversations s.log).length ≤ 2 * world.MAX_STEPS
  counted : s.kb_calls = searches s.log
  capped : (s.kb_calls : Int) ≤ max (caps world use_kb).1 0
  budgeted : AtEach (Budgeted (caps world use_kb).1 (caps world use_kb).2) s.log
  answered : ∀ messages ∈ conversations s.log, ∃ nudged, Answered world.provider (opening world use_kb task) nudged messages
  growing : (conversations s.log).Pairwise (· <+: ·)

def search_call (id query : String) : Block := .tool_use id "kb_search" [("query", .str query)]

/-- A reply that the provider rejects, then five searches at once. -/
def search_script : List (Except ModelError (List Block)) :=
  [.error { type_name := "BadRequestError", text := "unknown tool", status_code := some 400 },
    .ok [search_call "1" "build", search_call "2" "build", search_call "3" "build", search_call "4" "build",
      search_call "5" "build"]]

end Runs

end AgenticKb.KbAgent
