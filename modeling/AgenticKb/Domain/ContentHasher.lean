import Mathlib.Data.List.DropRight
import AgenticKb.Lib.Python

open AgenticKb.Lib

namespace AgenticKb

/-- `\r\n` and then `\r` become `\n`. -/
private def unify_line_ends : List Char → List Char
  | [] => []
  | '\r' :: '\n' :: cs => '\n' :: unify_line_ends cs
  | '\r' :: cs => '\n' :: unify_line_ends cs
  | c :: cs => c :: unify_line_ends cs

/-- Source code: line endings only, so that evidence stays an exact snippet. -/
def normalize_code (text : String) : String := String.ofList (unify_line_ends text.toList)

/-- `text.split("\n")`. -/
private def split_newlines : List Char → List (List Char)
  | [] => [[]]
  | c :: cs =>
    if c = '\n' then [] :: split_newlines cs
    else match split_newlines cs with
      | [] => [[c]]
      | line :: lines => (c :: line) :: lines

/-- Text: NFC, `\n` line endings, no trailing blanks, no blank lines around, one newline at the end. -/
def normalize_text (nfc : String → String) (u : Unicode) (text : String) : String :=
  let lines := (split_newlines (unify_line_ends (nfc text).toList)).map (·.rdropWhile u.is_space)
  let body := ((['\n'].intercalate lines).dropWhile (· == '\n')).rdropWhile (· == '\n')
  if body.isEmpty then "" else String.ofList (body ++ ['\n'])

section Tail

private theorem split_newlines_eq (text : List Char) : split_newlines text = text.splitOn '\n' := by
  induction text with
  | nil => rfl
  | cons c text ih =>
    rw [split_newlines, List.splitOn_cons_eq_if_modifyHead, ih]
    by_cases hc : c = '\n'
    · rw [if_pos hc, if_pos (beq_iff_eq.2 hc)]
    · rw [if_neg hc, if_neg (mt beq_iff_eq.1 hc)]
      obtain ⟨line, lines, hlines⟩ := List.exists_cons_of_ne_nil (List.splitOn_ne_nil '\n' text)
      rw [hlines]
      rfl

private theorem unify_line_ends_plain {text : List Char} (h : '\r' ∉ text) : unify_line_ends text = text := by
  induction text with
  | nil => rfl
  | cons c text ih =>
    rw [List.mem_cons, not_or] at h
    rw [unify_line_ends, ih h.2]
    · rintro rest rfl
      exact absurd rfl h.1
    · rintro rfl
      exact absurd rfl h.1

/-- A line feed stays one, whatever the text before it is unified to. -/
private theorem unify_line_ends_append (text rest : List Char) :
    ∃ before, unify_line_ends (text ++ '\n' :: rest) = before ++ '\n' :: unify_line_ends rest := by
  induction text using unify_line_ends.induct with
  | case1 =>
    refine ⟨[], ?_⟩
    rw [List.nil_append, unify_line_ends, List.nil_append]
    · simp
    · simp
  | case2 text ih =>
    obtain ⟨before, hbefore⟩ := ih
    exact ⟨'\n' :: before, by simp [unify_line_ends, hbefore]⟩
  | case3 text hpair ih =>
    cases text with
    | nil => exact ⟨[], by simp [unify_line_ends]⟩
    | cons c text =>
      obtain ⟨before, hbefore⟩ := ih
      refine ⟨'\n' :: before, ?_⟩
      rw [List.cons_append, List.cons_append, unify_line_ends, ← List.cons_append, hbefore, List.cons_append]
      rintro others hothers
      exact hpair text (by rw [(List.cons.inj hothers).1])
  | case4 c text hpair hreturn ih =>
    obtain ⟨before, hbefore⟩ := ih
    refine ⟨c :: before, ?_⟩
    rw [List.cons_append, unify_line_ends, hbefore, List.cons_append]
    · rintro others rfl
      exact absurd rfl hreturn
    · rintro rfl
      exact absurd rfl hreturn

variable {nfc : String → String} {u : Unicode}

/-- A line that normalizing leaves as it is. -/
structure NormalLine (u : Unicode) (line : List Char) : Prop where
  nonempty : line ≠ []
  no_feed : '\n' ∉ line
  no_return : '\r' ∉ line
  stripped : line.rdropWhile u.is_space = line

private theorem terminated_eq_intercalate {lines : List (List Char)} (hne : lines ≠ []) :
    terminated lines = ['\n'].intercalate lines ++ ['\n'] := by
  induction lines with
  | nil => simp at hne
  | cons line lines ih =>
    cases lines with
    | nil => simp
    | cons next lines =>
      rw [terminated_cons, ih (List.cons_ne_nil _ _), List.intercalate_cons_cons]
      simp

private theorem intercalate_append {lines others : List (List Char)} (hne : others ≠ []) :
    ['\n'].intercalate (lines ++ others) = terminated lines ++ ['\n'].intercalate others := by
  induction lines with
  | nil => rfl
  | cons line lines ih =>
    rw [List.cons_append, List.intercalate_cons_of_ne_nil (by simp [hne]), ih, terminated_cons]
    simp

section Block

variable {lines : List (List Char)} (hne : lines ≠ []) (hlines : ∀ line ∈ lines, NormalLine u line)

include hne hlines

private theorem intercalate_first : ∃ c rest, ['\n'].intercalate lines = c :: rest ∧ c ≠ '\n' := by
  obtain ⟨line, others, rfl⟩ := List.exists_cons_of_ne_nil hne
  have hline := hlines line List.mem_cons_self
  obtain ⟨c, rest, rfl⟩ := List.exists_cons_of_ne_nil hline.nonempty
  refine ⟨c, _, List.intercalate_cons_cons_left, ?_⟩
  rintro rfl
  exact hline.no_feed List.mem_cons_self

private theorem intercalate_last : ∃ front c, ['\n'].intercalate lines = front ++ [c] ∧ c ≠ '\n' := by
  have hlast := hlines _ (List.getLast_mem hne)
  obtain ⟨front, c, hc⟩ : ∃ front c, lines.getLast hne = front ++ [c] :=
    ⟨_, _, (List.dropLast_append_getLast hlast.nonempty).symm⟩
  have hwhole : ['\n'].intercalate lines = terminated lines.dropLast ++ (front ++ [c]) := by
    rw [← List.dropLast_append_getLast hne, intercalate_append (List.cons_ne_nil _ _), List.intercalate_singleton, hc]
    simp
  refine ⟨terminated lines.dropLast ++ front, c, by rw [hwhole, List.append_assoc], ?_⟩
  rintro rfl
  exact hlast.no_feed (by simp [hc])

/-- Normal lines at the end of a text stay there, behind whole lines. -/
theorem normalize_text_normal {text : String} {message : List Char} (hnfc : nfc text = text)
    (htext : text.toList = message ++ ['\n'].intercalate lines)
    (hmessage : message = [] ∨ message.getLast? = some '\n') :
    ∃ before, (before = [] ∨ before.getLast? = some '\n') ∧
      normalize_text nfc u text = String.ofList (before ++ terminated lines) := by
  obtain ⟨c, rest, hfirst, hc⟩ := intercalate_first hne hlines
  obtain ⟨front, d, hlast, hd⟩ := intercalate_last hne hlines
  have hplain : unify_line_ends (['\n'].intercalate lines) = ['\n'].intercalate lines := by
    apply unify_line_ends_plain
    intro hreturn
    have hin : '\r' ∈ terminated lines := by
      rw [terminated_eq_intercalate hne]
      exact List.mem_append_left _ hreturn
    obtain ⟨line, hline, hmem⟩ := List.mem_flatMap.1 hin
    rcases List.mem_append.1 hmem with hmem | hmem
    · exact (hlines line hline).no_return hmem
    · simp at hmem
  -- the lines of the message and then the normal ones
  obtain ⟨above, habove⟩ : ∃ above,
      split_newlines (unify_line_ends text.toList) = above ++ lines := by
    have hsplit : (['\n'].intercalate lines).splitOn '\n' = lines :=
      List.splitOn_intercalate '\n' (fun line hline => (hlines line hline).no_feed) hne
    rcases hmessage with rfl | hmessage
    · exact ⟨[], by rw [htext, List.nil_append, hplain, split_newlines_eq, hsplit, List.nil_append]⟩
    · obtain ⟨before, rfl⟩ := List.getLast?_eq_some_iff.1 hmessage
      obtain ⟨unified, hunified⟩ := unify_line_ends_append before (['\n'].intercalate lines)
      refine ⟨unified.splitOn '\n', ?_⟩
      rw [htext, List.append_assoc, List.singleton_append, hunified, hplain, split_newlines_eq,
        List.splitOn_append_cons_self, hsplit]
  have hstripped : (above ++ lines).map (·.rdropWhile u.is_space) =
      above.map (·.rdropWhile u.is_space) ++ lines := by
    rw [List.map_append, List.map_congr_left (g := id) fun line hline => (hlines line hline).stripped, List.map_id]
  have hdrop : (['\n'].intercalate lines).dropWhile (· == '\n') = ['\n'].intercalate lines := by
    rw [hfirst, List.dropWhile_cons_of_neg (by simpa using hc)]
  refine ⟨(terminated (above.map (·.rdropWhile u.is_space))).dropWhile (· == '\n'), ?_, ?_⟩
  · rw [or_iff_not_imp_left]
    intro hnonempty
    obtain ⟨dropped, hdropped⟩ := List.dropWhile_suffix (l := terminated (above.map (·.rdropWhile u.is_space))) (· == '\n')
    have habove : above.map (·.rdropWhile u.is_space) ≠ [] := by
      intro hnil
      simp [hnil] at hnonempty
    rw [← List.getLast?_append_of_ne_nil dropped hnonempty, hdropped, terminated_eq_intercalate habove,
      List.getLast?_concat]
  · have hbody : (['\n'].intercalate ((above ++ lines).map (·.rdropWhile u.is_space))).dropWhile (· == '\n') =
        (terminated (above.map (·.rdropWhile u.is_space))).dropWhile (· == '\n') ++ ['\n'].intercalate lines := by
      rw [hstripped, intercalate_append hne, List.dropWhile_append, hdrop]
      split
      · rename_i hempty
        rw [List.isEmpty_iff.1 hempty, List.nil_append]
      · rfl
    have hwhole : ∀ before : List Char, (before ++ ['\n'].intercalate lines).rdropWhile (· == '\n') =
        before ++ ['\n'].intercalate lines := by
      intro before
      rw [hlast, ← List.append_assoc, List.rdropWhile_concat_neg _ _ _ (by simpa using hd)]
    rw [normalize_text, hnfc, habove, hbody, hwhole, if_neg (by simp [hfirst]), terminated_eq_intercalate hne, List.append_assoc]

end Block

end Tail

example : normalize_text id .ascii "\r\na \r\n\rb\n\n" = "a\n\nb\n" := by decide +kernel

end AgenticKb
