import AgenticKb.Domain.ContentHasher

open AgenticKb.Lib

namespace AgenticKb

/-- Delimits the changed-file section of a commit artifact's body. -/
def CHANGED_FILES_HEADER : String := "--- changed files ---"

/-- One parsed commit. -/
structure CommitRecord where
  sha : String
  subject : String
  body : String
  changed_files : List String
deriving DecidableEq, Repr

def files_block (commit : CommitRecord) : String := join "\n" (CHANGED_FILES_HEADER :: commit.changed_files)

/-- The subject, the body and the changed files of a commit, as they stand before normalizing. -/
def commit_text (commit : CommitRecord) : String :=
  let sections := [commit.subject] ++ (if commit.body ≠ "" then [commit.body] else []) ++ [files_block commit]
  join "\n\n" (sections.filter (· ≠ ""))

def render_commit (nfc : String → String) (u : Unicode) (commit : CommitRecord) : String :=
  normalize_text nfc u (commit_text commit)

/-- The lines after the last header line, or nothing when there is no header. -/
private def lines_after_last_header (u : Unicode) : List String → Option (List String)
  | [] => none
  | line :: lines =>
    match lines_after_last_header u lines with
    | some rest => some rest
    | none => if strip u line = CHANGED_FILES_HEADER then some lines else none

/-- The changed-file paths a commit artifact's body encodes. The section is read from the last
header on, so a message that quotes the header cannot add paths. -/
def parse_changed_files (u : Unicode) (body_text : String) : List String :=
  ((lines_after_last_header u (splitlines body_text)).getD []).filterMap fun line =>
    let path := strip u line
    if path = "" then none else some path

section Header

variable {u : Unicode} {header : String} {before files : List String}

private theorem last_header_append {lines rest : List String} (h : lines_after_last_header u lines = some rest) :
    lines_after_last_header u (before ++ lines) = some rest := by
  induction before with
  | nil => exact h
  | cons line before ih => rw [List.cons_append, lines_after_last_header, ih]

private theorem last_header_none (h : ∀ line ∈ files, strip u line ≠ CHANGED_FILES_HEADER) :
    lines_after_last_header u files = none := by
  induction files with
  | nil => rfl
  | cons line files ih =>
    rw [lines_after_last_header, ih fun other hother => h other (List.mem_cons_of_mem _ hother)]
    exact if_neg (h line List.mem_cons_self)

/-- A header among the files leaves fewer of them behind it. -/
private theorem last_header_some (h : ∃ line ∈ files, strip u line = CHANGED_FILES_HEADER) :
    ∃ rest, lines_after_last_header u files = some rest ∧ rest.length < files.length := by
  induction files with
  | nil => simp at h
  | cons line files ih =>
    rw [lines_after_last_header]
    by_cases hlater : ∃ other ∈ files, strip u other = CHANGED_FILES_HEADER
    · obtain ⟨rest, hrest, hlength⟩ := ih hlater
      exact ⟨rest, by rw [hrest], by rw [List.length_cons]; omega⟩
    · have hnone : lines_after_last_header u files = none := last_header_none (by simpa using hlater)
      obtain ⟨other, hother, heq⟩ := h
      rcases List.mem_cons.1 hother with rfl | hother
      · exact ⟨files, by rw [hnone]; exact if_pos heq, by rw [List.length_cons]; omega⟩
      · exact absurd ⟨other, hother, heq⟩ hlater

/-- The files read back from the lines of a body are those behind its header line, up to a header among them. -/
theorem parse_changed_files_iff {body_text : String} (hlines : splitlines body_text = before ++ header :: files)
    (hheader : strip u header = CHANGED_FILES_HEADER) (hfiles : ∀ file ∈ files, strip u file = file ∧ file ≠ "") :
    parse_changed_files u body_text = files ↔ CHANGED_FILES_HEADER ∉ files := by
  have hread : ∀ rest : List String, (∀ file ∈ rest, strip u file = file ∧ file ≠ "") →
      (rest.filterMap fun line => if strip u line = "" then none else some (strip u line)) = rest := by
    intro rest hrest
    conv_rhs => rw [← List.filterMap_some (l := rest)]
    apply List.filterMap_congr
    intro file hfile
    rw [(hrest file hfile).1, if_neg (hrest file hfile).2]
  rw [parse_changed_files, hlines]
  constructor
  · intro hparsed hmem
    obtain ⟨rest, hrest, hlength⟩ := last_header_some ⟨_, hmem, (hfiles _ hmem).1⟩
    have hlater : lines_after_last_header u (header :: files) = some rest := by
      rw [lines_after_last_header, hrest]
    rw [last_header_append hlater, Option.getD_some] at hparsed
    have hshort := List.length_filterMap_le (fun line => if strip u line = "" then none else some (strip u line)) rest
    have hwhole := congrArg List.length hparsed
    dsimp only at hwhole
    omega
  · intro hmem
    have hnone : lines_after_last_header u files = none := by
      apply last_header_none
      intro file hfile heq
      rw [(hfiles file hfile).1] at heq
      exact hmem (heq ▸ hfile)
    have hlater : lines_after_last_header u (header :: files) = some files := by
      rw [lines_after_last_header, hnone]
      exact if_pos hheader
    rw [last_header_append hlater, Option.getD_some]
    exact hread files hfiles

end Header

example : parse_changed_files .ascii "fix\n\n--- changed files ---\nsrc/a.py\n" = ["src/a.py"] := by
  decide

end AgenticKb
