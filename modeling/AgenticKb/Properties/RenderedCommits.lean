import AgenticKb.Connectors.GitMetadata

open AgenticKb.Lib

namespace AgenticKb

/-- A changed file as the connector lists it. -/
structure ListedFile (u : Unicode) (file : String) : Prop where
  nonblank : file ≠ ""
  stripped : strip u file = file
  one_line : ∀ c ∈ file.toList, is_line_break c = false

instance (u : Unicode) (file : String) : Decidable (ListedFile u file) :=
  decidable_of_iff (file ≠ "" ∧ strip u file = file ∧ file.toList.all (fun c => !is_line_break c) = true)
    ⟨fun h => ⟨h.1, h.2.1, by simpa using h.2.2⟩, fun h => ⟨h.nonblank, h.stripped, by simpa using h.one_line⟩⟩

section Render

variable {nfc : String → String} {u : Unicode} {commit : CommitRecord}

/-- Behind the message, on its own lines, stand the header and the changed files. -/
theorem commit_text_toList (commit : CommitRecord) :
    ∃ message, (message = [] ∨ message.getLast? = some '\n') ∧
      (commit_text commit).toList =
        message ++ ['\n'].intercalate ((CHANGED_FILES_HEADER :: commit.changed_files).map String.toList) := by
  have hblock : (files_block commit).toList =
      ['\n'].intercalate ((CHANGED_FILES_HEADER :: commit.changed_files).map String.toList) := by
    rw [files_block, join, String.toList_intercalate]
    rfl
  have hnonempty : files_block commit ≠ "" := by
    intro hempty
    rw [hempty, List.map_cons] at hblock
    have hlength := congrArg List.length hblock
    cases hfiles : commit.changed_files.map String.toList with
    | nil => simp [hfiles, CHANGED_FILES_HEADER] at hlength
    | cons file files => simp [hfiles, CHANGED_FILES_HEADER] at hlength
  obtain ⟨pre, hpre⟩ : ∃ pre : List String, commit_text commit = join "\n\n" (pre ++ [files_block commit]) := by
    refine ⟨([commit.subject] ++ (if commit.body ≠ "" then [commit.body] else [])).filter (· ≠ ""), ?_⟩
    rw [commit_text, List.filter_append, List.filter_cons_of_pos (a := files_block commit) (by simpa using hnonempty),
      List.filter_nil]
  by_cases hnone : pre = []
  · refine ⟨[], .inl rfl, ?_⟩
    rw [hpre, hnone, List.nil_append, join, String.intercalate_singleton, hblock, List.nil_append]
  · refine ⟨(join "\n\n" pre ++ "\n\n").toList, .inr ?_, ?_⟩
    · rw [String.toList_append]
      exact List.getLast?_append_of_ne_nil _ (List.cons_ne_nil _ _)
    · rw [hpre, join, String.intercalate_append_of_ne_nil hnone (List.cons_ne_nil _ _), String.intercalate_singleton,
        String.toList_append, hblock, join]

/-- What stripping leaves alone has no blanks at its end. -/
theorem rdropWhile_of_strip {text : String} (h : strip u text = text) : text.toList.rdropWhile u.is_space = text.toList := by
  have hlist : (text.toList.dropWhile u.is_space).rdropWhile u.is_space = text.toList := by
    rw [List.rdropWhile, ← String.toList_ofList (l := List.reverse _)]
    exact congrArg String.toList h
  have hsuffix := List.dropWhile_suffix (l := text.toList) u.is_space
  have hprefix := List.rdropWhile_prefix u.is_space (l := text.toList.dropWhile u.is_space)
  have hwhole : text.toList.dropWhile u.is_space = text.toList := by
    apply hsuffix.eq_of_length_le
    rw [hlist] at hprefix
    exact hprefix.length_le
  rwa [hwhole] at hlist

theorem strip_header (hdash : u.is_space '-' = false) : strip u CHANGED_FILES_HEADER = CHANGED_FILES_HEADER := by
  have hlist : CHANGED_FILES_HEADER.toList = '-' :: "-- changed files --".toList ++ ['-'] := by decide
  have hnot : ¬u.is_space '-' = true := by simp [hdash]
  rw [strip, hlist, List.cons_append, List.dropWhile_cons_of_neg hnot, ← List.cons_append, List.reverse_concat,
    List.dropWhile_cons_of_neg hnot, ← List.reverse_concat, List.reverse_reverse]
  rfl

theorem normal_line {line : String} (hnonempty : line ≠ "") (hstripped : strip u line = line)
    (hone : ∀ c ∈ line.toList, is_line_break c = false) : NormalLine u line.toList where
  nonempty := by simpa using hnonempty
  no_feed := by
    intro hmem
    have hbreak := hone _ hmem
    revert hbreak
    decide
  no_return := by
    intro hmem
    have hbreak := hone _ hmem
    revert hbreak
    decide
  stripped := rdropWhile_of_strip hstripped

/-- A commit's files are read back from its rendering if and only if none is named like the marker before them. -/
theorem rendered_commit_parses_iff (hnfc : nfc (commit_text commit) = commit_text commit) (hdash : u.is_space '-' = false)
    (hfiles : ∀ file ∈ commit.changed_files, ListedFile u file) :
    parse_changed_files u (render_commit nfc u commit) = commit.changed_files ↔
      CHANGED_FILES_HEADER ∉ commit.changed_files := by
  have hheader := strip_header hdash
  have hone : ∀ line ∈ CHANGED_FILES_HEADER :: commit.changed_files, ∀ c ∈ line.toList, is_line_break c = false := by
    rw [List.forall_mem_cons]
    have hmarker : CHANGED_FILES_HEADER.toList.all (fun c => !is_line_break c) = true := by decide
    exact ⟨by simpa using hmarker, fun file hfile => (hfiles file hfile).one_line⟩
  have hnormal : ∀ line ∈ (CHANGED_FILES_HEADER :: commit.changed_files).map String.toList, NormalLine u line := by
    intro line hline
    obtain ⟨text, htext, rfl⟩ := List.mem_map.1 hline
    rcases List.mem_cons.1 htext with rfl | hfile
    · exact normal_line (by decide) hheader (hone _ htext)
    · exact normal_line (hfiles _ hfile).nonblank (hfiles _ hfile).stripped (hone _ htext)
  obtain ⟨message, hmessage, htext⟩ := commit_text_toList commit
  obtain ⟨before, hbefore, hrendered⟩ := normalize_text_normal (by simp) hnormal hnfc htext hmessage
  have hlines : splitlines (render_commit nfc u commit) =
      splitlines (String.ofList before) ++ CHANGED_FILES_HEADER :: commit.changed_files := by
    rw [render_commit, hrendered, splitlines_append_terminated hbefore, List.map_map]
    · congr 1
      have hid : ∀ line : String, (String.ofList ∘ String.toList) line = line := fun line => String.ofList_toList
      rw [List.map_congr_left fun line _ => hid line, List.map_id']
    · intro line hline
      obtain ⟨text, htext, rfl⟩ := List.mem_map.1 hline
      exact hone text htext
  exact parse_changed_files_iff hlines hheader fun file hfile => ⟨(hfiles file hfile).stripped, (hfiles file hfile).nonblank⟩

end Render

/-- A commit whose message quotes the marker and a list of files. -/
def quoting_commit : CommitRecord where
  sha := "c0ffee"
  subject := "docs: explain the body"
  body := "It ends in\r\n--- changed files ---\nold.py"
  changed_files := ["docs/body.md", "src/a.py"]

/-- A commit that changes a file named like the marker. -/
def marker_commit : CommitRecord where
  sha := "c0ffee"
  subject := "rename"
  body := ""
  changed_files := ["--- changed files ---", "src/a.py"]

theorem quoting_commit_parses :
    parse_changed_files .ascii (render_commit id .ascii quoting_commit) = ["docs/body.md", "src/a.py"] := by
  have hnfc : id (commit_text quoting_commit) = commit_text quoting_commit := rfl
  have hfiles : ∀ file ∈ quoting_commit.changed_files, ListedFile .ascii file := by decide +kernel
  exact (rendered_commit_parses_iff hnfc (by decide) hfiles).2 (by decide)

/-- Its other files are read back without the one that looks like the marker. -/
theorem marker_commit_loses_file :
    (∀ file ∈ marker_commit.changed_files, ListedFile .ascii file) ∧
      parse_changed_files .ascii (render_commit id .ascii marker_commit) = ["src/a.py"] ∧
      ¬(parse_changed_files .ascii (render_commit id .ascii marker_commit) = marker_commit.changed_files) := by
  decide +kernel

end AgenticKb
