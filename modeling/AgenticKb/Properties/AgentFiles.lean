import Mathlib.Logic.Relation
import AgenticKb.KbAgent.Loop

open AgenticKb.Lib AgenticKb.Graphify

namespace AgenticKb.KbAgent

section Steps

variable (shell : Shell)

/-- One change of the disk: an edit at the one place in the repo where a text stands, a file where there was none or an
empty one, or the directories for it; or what a program that is run makes of the disk. An edit rewrites the file as it was
read, with line feeds only; a lone surrogate empties it instead. -/
inductive DiskStep (lone : Prop) : Disk → Disk → Prop where
  | replaced {disk : Disk} {target : Place} {text : String} {old x y : List Char} (new : List Char)
      (hroot : shell.repo_root <+: target) (hfile : disk.entry target = some (.file text)) (hold : old ≠ [])
      (hfound : universal_newlines text.toList = x ++ (old ++ y))
      (honce : count old (universal_newlines text.toList) = 1) :
      DiskStep lone disk (disk.put target (.file (String.ofList (x ++ (new ++ y)))))
  | emptied {disk : Disk} {target : Place} {text : String} (hlone : lone)
      (hroot : shell.repo_root <+: target) (hfile : disk.entry target = some (.file text)) :
      DiskStep lone disk (disk.put target (.file ""))
  | created {disk : Disk} {target : Place} (text : String) (hroot : shell.repo_root <+: target)
      (hempty : disk.entry target = none ∨ disk.entry target = some (.file "")) :
      DiskStep lone disk ((disk.make_parents target).put target (.file text))
  | made_parents {disk : Disk} {target : Place} (hroot : shell.repo_root <+: target)
      (hempty : disk.entry target = none ∨ disk.entry target = some (.file "")) :
      DiskStep lone disk (disk.make_parents target)
  | tested (disk : Disk) (path : String) : DiskStep lone disk (shell.pytest disk path).1
  | linted {disk : Disk} {target : Place} (hroot : shell.repo_root <+: target) :
      DiskStep lone disk (shell.ruff disk target).1

/-- Nothing is changed, or one step is taken. -/
abbrev AtMostOne (lone : Prop) (disk disk' : Disk) : Prop := Relation.ReflGen (DiskStep shell lone) disk disk'

def Arg.is_surrogates : Arg → Bool
  | .surrogates _ => true
  | _ => false

/-- The call asks for a text with a lone surrogate to be written. -/
def ToolUse.lone (tu : ToolUse) : Bool := tu.args.any fun args => (args.get? "new_str").any Arg.is_surrogates

variable {shell} {lone : Prop} {disk : Disk} {stats : Stats} {target : Place} {text : String}

theorem universal_newlines_eq_nil {cs : List Char} (h : universal_newlines cs = []) : cs = [] := by
  cases cs with
  | nil => rfl
  | cons c cs =>
    rw [universal_newlines.eq_def] at h
    split at h
    · rename_i hnil
      cases hnil
    · cases h
    · cases h

theorem root_of_safe {path : String} (h : safe shell disk path = .ok target) : shell.repo_root <+: target := by
  unfold safe at h
  split at h
  · cases h
  · split at h
    · cases h
    · split at h
      · rename_i found hfound hlead
        obtain rfl := Except.ok.inj h
        exact List.isPrefixOf_iff_prefix.1 hlead
      · cases h

/-- A file that is not there or empty is created, or just its directories. -/
theorem create_step (hroot : shell.repo_root <+: target)
    (hempty : disk.entry target = none ∨ disk.entry target = some (.file "")) (new_str : Arg) :
    DiskStep shell lone disk (write_text shell (disk.make_parents target) target new_str).1 := by
  cases new_str with
  | str new => exact .created new hroot hempty
  | surrogates codes => exact .created "" hroot hempty
  | other truthy => exact .made_parents hroot hempty

/-- A file in which the old text stands once is rewritten, if the new one is a text. -/
theorem replace_step {old : String} {new_str new_text : Arg} (hroot : shell.repo_root <+: target)
    (hfile : disk.entry target = some (.file text)) (hold : old.toList ≠ [])
    (honce : count old.toList (universal_newlines text.toList) = 1) (hlone : new_str.is_surrogates = true → lone)
    (hreplaced : replaced shell old (String.ofList (universal_newlines text.toList)) new_str = .ok new_text) :
    DiskStep shell lone disk (write_text shell disk target new_text).1 := by
  cases new_str with
  | str new =>
    obtain rfl := Except.ok.inj hreplaced
    obtain ⟨x, y, hfound, hreplace⟩ := replace_of_count_one hold honce
    rw [String.toList_ofList, hreplace]
    exact .replaced new.toList hroot hfile hold hfound honce
  | surrogates codes =>
    obtain rfl := Except.ok.inj hreplaced
    exact .emptied (hlone rfl) hroot hfile
  | other truthy => cases hreplaced

theorem edit_body_step {name body : String} {old_str new_str : Arg} (hroot : shell.repo_root <+: target)
    (hlone : new_str.is_surrogates = true → lone)
    (hbody : (∃ text, disk.entry target = some (.file text) ∧ body = String.ofList (universal_newlines text.toList)) ∨
      disk.entry target = none ∧ body = "") :
    AtMostOne shell lone disk (edit_body shell disk target name body old_str new_str).1 := by
  have hempty : body = "" → disk.entry target = none ∨ disk.entry target = some (.file "") := by
    intro hbody_empty
    cases hbody with
    | inl hfile =>
      obtain ⟨text, hentry, htext⟩ := hfile
      have hchars : universal_newlines text.toList = [] := by
        have hlist := congrArg String.toList (htext.symm.trans hbody_empty)
        rwa [String.toList_ofList] at hlist
      have hnil : text = "" := String.ext (universal_newlines_eq_nil hchars)
      exact .inr (hnil ▸ hentry)
    | inr hnone => exact .inl hnone.1
  unfold edit_body
  by_cases hold : old_str.truthy = true
  · rw [if_neg (by simp [hold])]
    cases old_str with
    | other truthy => exact .refl
    | surrogates codes => exact .refl
    | str old =>
      dsimp only
      by_cases hcount : count old.toList body.toList ≠ 1
      · rw [if_pos hcount]
      · rw [if_neg hcount]
        have honce : count old.toList body.toList = 1 := not_not.1 hcount
        have hne : old.toList ≠ [] := by
          intro hnil
          have hold_empty : old = "" := String.ext hnil
          rw [hold_empty] at hold
          exact absurd hold (by decide)
        cases hbody with
        | inl hfile =>
          obtain ⟨text, hentry, rfl⟩ := hfile
          rw [String.toList_ofList] at honce
          cases hreplaced : replaced shell old (String.ofList (universal_newlines text.toList)) new_str with
          | error exc => exact .refl
          | ok new_text => exact .single (replace_step hroot hentry hne honce hlone hreplaced)
        | inr hnone =>
          rw [hnone.2] at honce
          cases honce
  · rw [if_pos (by simpa using hold)]
    by_cases hbody_empty : body = ""
    · rw [if_neg (by simp [hbody_empty])]
      exact .single (create_step hroot (hempty hbody_empty) new_str)
    · rw [if_pos (by simpa using hbody_empty)]

theorem edit_file_step {path old_str new_str : Arg} (hlone : new_str.is_surrogates = true → lone) :
    AtMostOne shell lone disk (edit_file shell disk path old_str new_str).1 := by
  unfold edit_file
  cases hpath : fspath shell "_safe" path with
  | error exc => exact .refl
  | ok name =>
    cases hsafe : safe shell disk name with
    | error exc =>
      simp only [hsafe, bind, Except.bind]
      exact .refl
    | ok target =>
      have hroot := root_of_safe hsafe
      simp only [hsafe, bind, Except.bind, pure, Except.pure]
      cases hentry : disk.entry target with
      | none =>
        rw [Disk.read_text, hentry]
        dsimp only
        by_cases hblocked : disk.blocked target = true
        · rw [if_pos hblocked]
        · rw [if_neg hblocked]
          exact edit_body_step hroot hlone (.inr ⟨hentry, rfl⟩)
      | some entry =>
        rw [Disk.read_text, hentry]
        cases entry with
        | directory => exact .refl
        | binary => exact .refl
        | link goal => exact .refl
        | file text => exact edit_body_step hroot hlone (.inl ⟨text, hentry, rfl⟩)

theorem lint_step (path : Arg) : AtMostOne shell lone disk (lint shell disk path).1 := by
  unfold lint
  cases hpath : fspath shell "_safe" path with
  | error exc => exact .refl
  | ok name =>
    simp only [bind, Except.bind]
    cases hsafe : safe shell disk name with
    | error exc => exact .refl
    | ok target => exact .single (.linted (root_of_safe hsafe))

theorem run_tests_step (path : Arg) : AtMostOne shell lone disk (run_tests shell disk path).1 := by
  unfold run_tests
  cases fspath shell "run_tests" path with
  | error exc => exact .refl
  | ok name => exact .single (.tested disk name)

/-- The new text of an edit is the one that the model sent. -/
theorem new_str_of_bind_args {args : Option (Dict String Arg)} {path old_str new_str : Arg}
    (h : bind_args FileTool.edit_file.params args = some [path, old_str, new_str]) :
    ∃ given ∈ args, given.get? "new_str" = some new_str := by
  cases args with
  | none => cases h
  | some given =>
    refine ⟨given, rfl, ?_⟩
    simp only [bind_args, FileTool.params, List.mapM_cons, List.mapM_nil, Option.bind_eq_bind, Option.bind_eq_some_iff,
      Option.pure_def, Option.some.injEq, Option.or_none, List.cons.injEq] at h
    obtain ⟨_, rfl, -, -, _, -, _, ⟨_, -, _, ⟨new, hnew, _, rfl, rfl⟩, rfl⟩, -, htail⟩ := h
    obtain ⟨-, rfl⟩ : _ ∧ new = new_str := by simpa using htail
    exact hnew

/-- A tool call takes one step at most. -/
theorem call_tool_step (tu : ToolUse) (hlone : tu.lone = true → lone) :
    AtMostOne shell lone disk (call_tool shell disk stats tu).1 := by
  unfold call_tool
  split
  · exact .refl
  · rename_i tool htool
    split
    · exact .refl
    · rename_i args hargs
      unfold FileTool.run
      split
      · exact .refl
      · exact .refl
      · exact .refl
      · refine edit_file_step fun hsurrogates => hlone ?_
        obtain ⟨given, hgiven, hnew⟩ := new_str_of_bind_args hargs
        rw [ToolUse.lone, Option.mem_def.1 hgiven, Option.any_some, hnew, Option.any_some, hsurrogates]
      · exact run_tests_step _
      · exact lint_step _
      · exact .refl

end Steps

section Runs

variable {world : World} {build_seq : Nat} {lone : Prop} {s : Session}

/-- What a run makes of the disk. -/
abbrev DiskRun (shell : Shell) (lone : Prop) (disk disk' : Disk) : Prop :=
  Relation.ReflTransGen (DiskStep shell lone) disk disk'

/-- The tool calls of a conversation. -/
def tool_uses (messages : List Message) : List ToolUse := messages.flatMap fun message => match message with
  | .assistant _ tool_uses => tool_uses
  | _ => []

/-- Somewhere in a conversation a text with a lone surrogate is to be written. -/
def SendsLone (messages : List Message) : Prop := ∃ tu ∈ tool_uses messages, tu.lone = true

instance (messages : List Message) : Decidable (SendsLone messages) :=
  inferInstanceAs (Decidable (∃ tu ∈ tool_uses messages, tu.lone = true))

theorem SendsLone.of_prefix {messages messages' : List Message} (h : SendsLone messages) (hlead : messages <+: messages') :
    SendsLone messages' := by
  obtain ⟨tu, htu, hlone⟩ := h
  obtain ⟨rest, rfl⟩ := hlead
  exact ⟨tu, by rw [tool_uses, List.flatMap_append]; exact List.mem_append_left _ htu, hlone⟩

theorem use_tool_disk (tu : ToolUse) (hlone : tu.lone = true → lone) :
    AtMostOne world.toShell lone s.disk (use_tool world build_seq s tu).1.disk := by
  unfold use_tool
  split
  · split
    · exact .refl
    · cases search_outcome world build_seq s tu with
      | error exc => exact .refl
      | ok out => exact .refl
  · exact call_tool_step tu hlone

theorem use_tool_messages (s : Session) (tu : ToolUse) : (use_tool world build_seq s tu).1.messages = s.messages := by
  unfold use_tool
  split
  · split
    · rfl
    · cases search_outcome world build_seq s tu with
      | error exc => rfl
      | ok out => rfl
  · rfl

theorem use_tools_eq (world : World) (build_seq : Nat) (s : Session) (tool_uses : List ToolUse) :
    use_tools world build_seq s tool_uses = tool_uses.foldl (fun (done : Session × List (ToolUse × String)) tu =>
      ((use_tool world build_seq done.1 tu).1, done.2 ++ [(tu, (use_tool world build_seq done.1 tu).2)])) (s, []) := rfl

/-- What every tool call keeps, the calls of a turn keep. -/
theorem use_tools_invariant {I : Session → Prop} {tool_uses : List ToolUse}
    (hstep : ∀ s, ∀ tu ∈ tool_uses, I s → I (use_tool world build_seq s tu).1) (hinit : I s) :
    I (use_tools world build_seq s tool_uses).1 := by
  rw [use_tools_eq]
  have hfold : ∀ done : Session × List (ToolUse × String), I done.1 →
      I (tool_uses.foldl (fun done tu => ((use_tool world build_seq done.1 tu).1,
        done.2 ++ [(tu, (use_tool world build_seq done.1 tu).2)])) done).1 := by
    induction tool_uses with
    | nil => exact fun done hdone => hdone
    | cons tu tool_uses ih =>
      intro done hdone
      exact ih (fun s tu htu => hstep s tu (List.mem_cons_of_mem _ htu)) _ (hstep done.1 tu (List.mem_cons_self ..) hdone)
  exact hfold (s, []) hinit

theorem use_tools_disk (s : Session) {tool_uses : List ToolUse} (hlone : ∀ tu ∈ tool_uses, tu.lone = true → lone) :
    DiskRun world.toShell lone s.disk (use_tools world build_seq s tool_uses).1.disk := by
  apply use_tools_invariant (I := fun s' => DiskRun world.toShell lone s.disk s'.disk)
  · exact fun s' tu htu hrun => hrun.trans (use_tool_disk tu (hlone tu htu)).to_reflTransGen
  · exact .refl

theorem use_tools_messages (s : Session) (tool_uses : List ToolUse) :
    (use_tools world build_seq s tool_uses).1.messages = s.messages :=
  use_tools_invariant (I := fun s' => s'.messages = s.messages) (fun s' tu _ h => (use_tool_messages s' tu).trans h) rfl

/-- A reply stands in the conversation before its outputs. -/
theorem answer_tools_messages (s : Session) (step : ModelStep) :
    s.messages ++ [.assistant step.text step.tool_uses] <+: (answer_tools world build_seq s step).messages := by
  unfold answer_tools
  dsimp only
  rw [use_tools_messages]
  exact List.prefix_append _ _

theorem answer_tools_disk {s : Session} {step : ModelStep}
    (hlone : SendsLone (answer_tools world build_seq s step).messages → lone) :
    DiskRun world.toShell lone s.disk (answer_tools world build_seq s step).disk := by
  apply use_tools_disk { s with messages := s.messages ++ [.assistant step.text step.tool_uses] }
  intro tu htu hsurrogate
  apply hlone
  apply SendsLone.of_prefix _ (answer_tools_messages s step)
  exact ⟨tu, by rw [tool_uses, List.flatMap_append]; exact List.mem_append_right _ (by simpa using htu), hsurrogate⟩

theorem raw_model_step_disk (tools : List Tool) :
    (raw_model_step world s tools).1.disk = s.disk ∧ (raw_model_step world s tools).1.messages = s.messages := by
  unfold raw_model_step
  split
  · exact ⟨rfl, rfl⟩
  · exact ⟨rfl, rfl⟩

/-- Asking the model changes nothing on the disk, and the conversation goes on. -/
theorem model_step_disk (tools : List Tool) :
    (model_step world s tools).1.disk = s.disk ∧ s.messages <+: (model_step world s tools).1.messages := by
  unfold model_step
  have hfirst := @raw_model_step_disk world s tools
  split
  · rename_i s' step hraw
    rw [hraw] at hfirst
    exact ⟨hfirst.1, hfirst.2 ▸ List.prefix_rfl⟩
  · rename_i s' exc hraw
    rw [hraw] at hfirst
    split
    · exact ⟨hfirst.1, hfirst.2 ▸ List.prefix_rfl⟩
    · obtain ⟨hdisk, hmessages⟩ := @raw_model_step_disk world
        { s' with messages := s'.messages ++ [.user (retry_nudge tools exc)] } tools
      exact ⟨hdisk.trans hfirst.1, hmessages ▸ hfirst.2 ▸ List.prefix_append _ _⟩

theorem turn_messages : s.messages <+: (turn world build_seq s).1.messages := by
  unfold turn
  have hmodel := (@model_step_disk world s (offered_tools s)).2
  split
  · rename_i s' exc hstep
    rw [hstep] at hmodel
    exact hmodel
  · rename_i s' step hstep
    rw [hstep] at hmodel
    dsimp only
    split
    · exact hmodel
    · exact (hmodel.trans (List.prefix_append _ _)).trans (answer_tools_messages (count_step s' step) step)

theorem turns_messages (n : Nat) : s.messages <+: (turns world build_seq n s).1.messages := by
  induction n generalizing s with
  | zero => exact List.prefix_rfl
  | succ n ih =>
    have hturn := @turn_messages world build_seq s
    rw [turns]
    split
    · rename_i s' ending hstep
      rw [hstep] at hturn
      exact hturn
    · rename_i s' hstep
      rw [hstep] at hturn
      exact hturn.trans ih

theorem turn_disk (hlone : SendsLone (turn world build_seq s).1.messages → lone) :
    DiskRun world.toShell lone s.disk (turn world build_seq s).1.disk := by
  unfold turn at hlone ⊢
  have hmodel := (@model_step_disk world s (offered_tools s)).1
  split
  · rename_i s' exc hstep
    rw [hstep] at hmodel
    rw [← hmodel]
  · rename_i s' step hstep
    rw [hstep] at hmodel hlone
    rw [← hmodel]
    dsimp only at hlone ⊢
    split
    · exact .refl
    · rename_i hsome
      rw [if_neg hsome] at hlone
      exact answer_tools_disk (s := count_step s' step) hlone

theorem turns_disk (n : Nat) (hlone : SendsLone (turns world build_seq n s).1.messages → lone) :
    DiskRun world.toShell lone s.disk (turns world build_seq n s).1.disk := by
  induction n generalizing s with
  | zero => exact .refl
  | succ n ih =>
    have hturn := @turn_disk world build_seq lone s
    rw [turns] at hlone ⊢
    split
    · rename_i s' ending hstep
      rw [hstep] at hturn hlone
      exact hturn hlone
    · rename_i s' hstep
      rw [hstep] at hturn hlone
      exact (hturn fun h => hlone (h.of_prefix (turns_messages n))).trans (ih hlone)

end Runs

section Kept

/-- One change of a text: at the one place where another text stands in it, or where it is empty; or a lone surrogate
empties it. -/
inductive Rewrite (lone : Prop) : String → String → Prop where
  | replaced {text : String} {old x y : List Char} (new : List Char) (hold : old ≠ [])
      (hfound : universal_newlines text.toList = x ++ (old ++ y)) (honce : count old (universal_newlines text.toList) = 1) :
      Rewrite lone text (String.ofList (x ++ (new ++ y)))
  | filled (text : String) : Rewrite lone "" text
  | emptied (text : String) (hlone : lone) : Rewrite lone text ""

/-- What may become of what stands at a place: a text is rewritten, and nothing else changes. -/
def KeptEntry (lone : Prop) : Option Entry → Option Entry → Prop
  | none, _ => True
  | some (.file text), after => ∃ text', after = some (.file text') ∧ Relation.ReflTransGen (Rewrite lone) text text'
  | some before, after => after = some before

variable {lone : Prop}

theorem KeptEntry.refl (e : Option Entry) : KeptEntry lone e e := by
  cases e with
  | none => trivial
  | some e =>
    cases e with
    | file text => exact ⟨text, rfl, .refl⟩
    | directory => rfl
    | binary => rfl
    | link goal => rfl

theorem KeptEntry.trans {a b c : Option Entry} (hab : KeptEntry lone a b) (hbc : KeptEntry lone b c) : KeptEntry lone a c := by
  cases a with
  | none => trivial
  | some e =>
    cases e with
    | file text =>
      obtain ⟨text', rfl, hfirst⟩ := hab
      obtain ⟨text'', rfl, hsecond⟩ := hbc
      exact ⟨text'', rfl, hfirst.trans hsecond⟩
    | directory =>
      obtain rfl : b = some .directory := hab
      exact hbc
    | binary =>
      obtain rfl : b = some .binary := hab
      exact hbc
    | link goal =>
      obtain rfl : b = some (.link goal) := hab
      exact hbc

/-- The programs that are run leave a place alone. -/
structure LeavesAlone (shell : Shell) (place : Place) : Prop where
  pytest : ∀ disk path, (shell.pytest disk path).1.entry place = disk.entry place
  ruff : ∀ disk target, (shell.ruff disk target).1.entry place = disk.entry place

/-- A place in the repo, below its root. -/
def Within (root place : Place) : Prop := root <+: place ∧ place ≠ root

variable {shell : Shell} {disk disk' : Disk} {place target : Place}

theorem kept_make_parents : KeptEntry lone (disk.entry place) ((disk.make_parents target).entry place) := by
  rw [Disk.entry_make_parents]
  by_cases hmade : disk.entry place = none ∧ place ∈ parents target
  · rw [hmade.1]
    trivial
  · rw [if_neg hmade]
    exact .refl _

/-- What one step makes of a place that the programs leave alone. -/
theorem DiskStep.kept (h : DiskStep shell lone disk disk') (halone : LeavesAlone shell place) :
    KeptEntry lone (disk.entry place) (disk'.entry place) := by
  cases h with
  | replaced new hroot hfile hold hfound honce =>
    rw [Disk.entry_put]
    split
    · rename_i hhere
      rw [hhere.1, hfile]
      exact ⟨_, rfl, .single (.replaced new hold hfound honce)⟩
    · exact .refl _
  | @emptied target text hlone hroot hfile =>
    rw [Disk.entry_put]
    split
    · rename_i hhere
      rw [hhere.1, hfile]
      exact ⟨"", rfl, .single (.emptied text hlone)⟩
    · exact .refl _
  | @created target text hroot hempty =>
    by_cases hhere : place = target
    · subst hhere
      have htop : place ≠ [] := by
        rintro rfl
        simp at hempty
      rw [Disk.entry_put, if_pos ⟨rfl, htop⟩]
      cases hempty with
      | inl hnone =>
        rw [hnone]
        trivial
      | inr hfile =>
        rw [hfile]
        exact ⟨text, rfl, .single (.filled text)⟩
    · rw [Disk.entry_put, if_neg fun h => hhere h.1]
      exact kept_make_parents
  | made_parents hroot hempty => exact kept_make_parents
  | tested path =>
    rw [halone.pytest]
    exact .refl _
  | linted hroot =>
    rw [halone.ruff]
    exact .refl _

theorem prefix_or_prefix {a b c : Place} (ha : a <+: c) (hb : b <+: c) : a <+: b ∨ b <+: a := by
  cases Nat.le_total a.length b.length with
  | inl hle => exact .inl (List.prefix_of_prefix_length_le ha hb hle)
  | inr hge => exact .inr (List.prefix_of_prefix_length_le hb ha hge)

/-- One step changes nothing but what is in the repo, whose root and its parents are directories. -/
theorem DiskStep.outside (h : DiskStep shell lone disk disk')
    (hroots : ∀ place, place <+: shell.repo_root → disk.entry place = some .directory)
    (hprograms : ∀ place, ¬ Within shell.repo_root place → LeavesAlone shell place) (hout : ¬ Within shell.repo_root place) :
    disk'.entry place = disk.entry place := by
  have hmake : ∀ {target : Place}, shell.repo_root <+: target → (disk.make_parents target).entry place = disk.entry place := by
    intro target hroot
    rw [Disk.entry_make_parents]
    apply if_neg
    intro hmade
    obtain ⟨hnone, hparent⟩ := hmade
    have habove : place <+: shell.repo_root := by
      cases prefix_or_prefix (Disk.mem_parents.1 hparent).1 hroot with
      | inl habove => exact habove
      | inr hbelow =>
        by_cases heq : place = shell.repo_root
        · rw [heq]
        · exact absurd ⟨hbelow, heq⟩ hout
    rw [hroots place habove] at hnone
    cases hnone
  have hput : ∀ {target : Place} {e : Entry} {d : Disk}, shell.repo_root <+: target → target ≠ shell.repo_root →
      (d.put target e).entry place = d.entry place := by
    intro target e d hroot hne
    rw [Disk.entry_put]
    apply if_neg
    intro hhere
    exact hout ⟨hhere.1 ▸ hroot, hhere.1 ▸ hne⟩
  have hroot_dir := hroots _ List.prefix_rfl
  cases h with
  | replaced new hroot hfile hold hfound honce =>
    apply hput hroot
    rintro rfl
    rw [hroot_dir] at hfile
    cases hfile
  | emptied hlone hroot hfile =>
    apply hput hroot
    rintro rfl
    rw [hroot_dir] at hfile
    cases hfile
  | created text hroot hempty =>
    rw [hput hroot, hmake hroot]
    rintro rfl
    rw [hroot_dir] at hempty
    simp at hempty
  | made_parents hroot hempty => exact hmake hroot
  | tested path => exact (hprograms place hout).pytest _ _
  | linted hroot => exact (hprograms place hout).ruff _ _

theorem kept_run (hrun : DiskRun shell lone disk disk') (halone : LeavesAlone shell place) :
    KeptEntry lone (disk.entry place) (disk'.entry place) := by
  induction hrun with
  | refl => exact .refl _
  | tail _ hstep ih => exact ih.trans (hstep.kept halone)

theorem outside_run (hrun : DiskRun shell lone disk disk')
    (hroots : ∀ place, place <+: shell.repo_root → disk.entry place = some .directory)
    (hprograms : ∀ place, ¬ Within shell.repo_root place → LeavesAlone shell place) :
    ∀ place, ¬ Within shell.repo_root place → disk'.entry place = disk.entry place := by
  induction hrun with
  | refl => exact fun _ _ => rfl
  | @tail middle last _ hstep ih =>
    have hmiddle : ∀ place, place <+: shell.repo_root → middle.entry place = some .directory := by
      intro place habove
      rw [ih place, hroots place habove]
      intro hwithin
      exact hwithin.2 (habove.eq_of_length_le hwithin.1.length_le)
    intro place hout
    rw [hstep.outside hmiddle hprograms hout, ih place hout]

end Kept

section Script

/-- How often the provider has been asked. -/
def asked (log : List Event) : Nat := log.countP fun event => match event with
  | .request .. => true
  | .search _ => false

/-- A repo at `/repo`, and a shell whose programs change nothing. -/
def plain_shell : Shell where
  unicode := .ascii
  repo_root := ["repo"]
  compress := true
  links := 40
  parse _ := none
  percent saved total := toString (100 * saved / total)
  repr value := match value with
    | .str text => "'" ++ text ++ "'"
    | _ => "''"
  fsencode _ := .error { type_name := "UnicodeEncodeError", text := "surrogates not allowed" }
  encode_error _ := { type_name := "UnicodeEncodeError", text := "surrogates not allowed" }
  os_error _ place := "/" ++ join "/" place
  decode_error _ := "invalid start byte"
  loop_error path := "Symlink loop from '" ++ path ++ "'"
  null_error := "embedded null byte"
  type_error name := { type_name := "TypeError", text := name }
  pytest disk _ := (disk, .ok ("", ""))
  ruff disk _ := (disk, .ok ("", ""))

/-- A provider that goes through a script, one reply to each request. -/
def scripted (script : List (Except ModelError (List Block))) : World where
  toShell := plain_shell
  provider := "anthropic"
  SEARCH_BUDGET := 4
  KB_TOKEN_BUDGET := 4000
  MAX_STEPS := 20
  SYSTEM_PROMPT := "KNOWLEDGE BASE FIRST"
  BASELINE_PROMPT := "explore"
  platform := .plain
  backend := { fold := Char.toLower, idf := fun _ _ => 1, float := id }
  completions _ := .error { type_name := "NotFoundError", text := "", status_code := some 404 }
  create log := ((script[asked log - 1]?).getD (.ok [])).map fun content => (content, 10, 5)
  json_loads text := .error text
  database _ := .ok { runs := [{ build_id := 0, kb_version := "v1", build_seq := 1, status := .active, started_at := 0 }] }

/-- A file outside of the repo, and one in it. -/
def small_disk : Disk :=
  { entries := [(["etc"], .directory), (["etc", "passwd"], .file "root"), (["repo"], .directory),
      (["repo", "a.py"], .file "one\r\ntwo\n"), (["repo", "out"], .link "../etc/passwd")] }

def edit_call (id path old_str new_str : String) : Block :=
  .tool_use id "edit_file" [("path", .str path), ("old_str", .str old_str), ("new_str", .str new_str)]

/-- An edit, one that would wipe the file, and one through a link that leaves the repo. -/
def edit_script : List (Except ModelError (List Block)) :=
  [.ok [edit_call "1" "a.py" "two" "2", edit_call "2" "a.py" "" "wiped", edit_call "3" "out" "root" "user"]]

/-- A lone surrogate in place of the second line: nothing is left. -/
example : (edit_file plain_shell small_disk (.str "a.py") (.str "two") (.surrogates [0xd800])).1.entry ["repo", "a.py"] =
    some (.file "") := by
  decide +kernel

end Script

end AgenticKb.KbAgent
