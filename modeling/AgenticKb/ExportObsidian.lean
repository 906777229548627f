import AgenticKb.ContextBroker.Cards

open AgenticKb.Lib

namespace AgenticKb

/-! `export_obsidian`: the members of a build as a vault of linked notes. -/

def TYPE_FOLDERS : Dict String String :=
  [("concept", "concepts"), ("summary", "docs"), ("doc", "docs"), ("code_file", "code"), ("code", "code"),
    ("commit", "commits"), ("work_item", "work-items")]

def SLUG_MAX_LEN : Nat := 80

def PLACEHOLDER_BODY : String := "_(no body text)_"

/-- What the export takes from outside: the platform, Unicode's NFKD normal form, and the collation behind
the two `ORDER BY` clauses. -/
structure ExportDeps where
  platform : Platform
  nfkd : String → String
  artifact_order : KnowledgeArtifact → KnowledgeArtifact → Bool
  edge_order : KnowledgeEdge → KnowledgeEdge → Bool

/-- `re.sub(r"[^a-zA-Z0-9]+", "-", text)`; `inside` a run its hyphen is already there. -/
def hyphenate (inside : Bool) : List Char → List Char
  | [] => []
  | c :: text =>
    if c.isAlphanum then c :: hyphenate false text
    else if inside then hyphenate true text
    else '-' :: hyphenate true text

/-- `text.strip("-")`. -/
def strip_hyphens (text : List Char) : List Char :=
  ((text.dropWhile (· == '-')).reverse.dropWhile (· == '-')).reverse

/-- Deterministic, filesystem-safe slug of a title. -/
def slugify (nfkd : String → String) (value fallback : String) : String :=
  let normalized := nfkd value
  let ascii_only := normalized.toList.filter fun c => c.toNat < 128
  let slug := (strip_hyphens (hyphenate false ascii_only)).map Char.toLower
  let slug := strip_hyphens (slug.take SLUG_MAX_LEN)
  if slug = [] then fallback else String.ofList slug

/-- First hex group of a UUID. -/
def short_id (artifact_id : String) : String := before_first "-" artifact_id

def type_folder (nfkd : String → String) (artifact_type : String) : String :=
  (TYPE_FOLDERS.get? artifact_type).getD (slugify nfkd artifact_type "misc")

/-- Everything needed to render one artifact's note and resolve links to it. -/
structure Note where
  artifact_id : String
  artifact_type : String
  title : String
  slug : String
  folder : String
  body_text : Option String
  kb_version : String
  source_uri : Option String
  acl_teams : List String
  trust : Option String
deriving DecidableEq, Repr

structure ExportResult where
  notes_written : Nat := 0
  by_type : Dict String Nat := []
deriving DecidableEq, Repr

section Notes

variable (deps : ExportDeps)

def artifact_key (artifact : KnowledgeArtifact) : String := deps.platform.str_uuid artifact.artifact_id

/-- The suffix of an artifact's slug, and its title where it has none. -/
def artifact_short (artifact : KnowledgeArtifact) : String := short_id (artifact_key deps artifact)

def note_title (artifact : KnowledgeArtifact) : String :=
  match artifact.title with
  | some title => if title = "" then artifact_short deps artifact else title
  | none => artifact_short deps artifact

def base_slug (artifact : KnowledgeArtifact) : String :=
  slugify deps.nfkd (note_title deps artifact) (artifact_short deps artifact)

def note_folder (artifact : KnowledgeArtifact) : String := type_folder deps.nfkd artifact.artifact_type.text

/-- What `seen` counts. -/
def slug_key (artifact : KnowledgeArtifact) : String × String := (note_folder deps artifact, base_slug deps artifact)

def suffixed_slug (artifact : KnowledgeArtifact) : String :=
  base_slug deps artifact ++ "-" ++ artifact_short deps artifact

/-- The note of an artifact under a slug; source and trust are filled in by the caller. -/
def note_of (slug : String) (artifact : KnowledgeArtifact) : Note where
  artifact_id := artifact_key deps artifact
  artifact_type := artifact.artifact_type.text
  title := note_title deps artifact
  slug := slug
  folder := note_folder deps artifact
  body_text := artifact.body_text.map deps.platform.body_string
  kb_version := artifact.kb_version
  source_uri := none
  acl_teams := artifact.acl_teams
  trust := none

/-- One turn of the loop: a key met before takes the suffix. -/
def assign_slug (state : Dict String Note × Dict (String × String) Nat) (artifact : KnowledgeArtifact) :
    Dict String Note × Dict (String × String) Nat :=
  let (notes, seen) := state
  let key := slug_key deps artifact
  let count := (seen.get? key).getD 0
  let slug := if count ≠ 0 then suffixed_slug deps artifact else base_slug deps artifact
  (notes.set (artifact_key deps artifact) (note_of deps slug artifact), seen.set key (count + 1))

/-- A note per artifact. -/
def assign_slugs (artifacts : List KnowledgeArtifact) : Dict String Note :=
  (artifacts.foldl (assign_slug deps) ([], [])).1

end Notes

/-- `s.rstrip("\n")`. -/
def rstrip_newlines (s : String) : String := String.ofList (s.toList.reverse.dropWhile (· == '\n')).reverse

def escape_char (c : Char) : List Char :=
  if c = '\\' then ['\\', '\\'] else if c = '"' then ['\\', '"'] else [c]

/-- Quote a YAML scalar so titles and uris with colons or special characters stay valid. -/
def yaml_scalar (value : String) : String := "\"" ++ String.ofList (value.toList.flatMap escape_char) ++ "\""

def yaml_list (values : List String) : String :=
  if values.isEmpty then "[]" else "[" ++ join ", " (values.map yaml_scalar) ++ "]"

/-- `_yaml_scalar(value) if value else 'null'`. -/
def yaml_nullable : Option String → String
  | some value => if value = "" then "null" else yaml_scalar value
  | none => "null"

def render_frontmatter (note : Note) : List String :=
  ["---",
    "id: " ++ yaml_scalar note.artifact_id,
    "type: " ++ yaml_scalar note.artifact_type,
    "title: " ++ yaml_scalar note.title,
    "kb_version: " ++ yaml_scalar note.kb_version,
    "source_uri: " ++ yaml_nullable note.source_uri,
    "acl_teams: " ++ yaml_list note.acl_teams,
    "trust: " ++ yaml_nullable note.trust,
    "---"]

/-- The target of the links to a note, relative to the vault. -/
def link_target (note : Note) : String := note.folder ++ "/" ++ note.slug

def wikilink (note : Note) : String := "[[" ++ link_target note ++ "|" ++ note.title ++ "]]"

/-- An edge beside the note at its other end; `none` is an end out of scope. -/
abbrev LinkedEdge := KnowledgeEdge × Option Note

/-- The link to the other end, or the id of an end out of scope. -/
def render_link (other : String) (note : Option Note) : String :=
  match note with
  | some note => wikilink note
  | none => "\x60" ++ other ++ "\x60 (out of scope)"

def edge_label (edge : KnowledgeEdge) : String := edge.edge_type.text ++ " [" ++ edge.trust_class.text ++ "]"

def outgoing_line (p : Platform) (entry : LinkedEdge) : String :=
  "- " ++ edge_label entry.1 ++ " → " ++ render_link (p.str_uuid entry.1.to_artifact_id) entry.2

def incoming_line (p : Platform) (entry : LinkedEdge) : String :=
  "- " ++ render_link (p.str_uuid entry.1.from_artifact_id) entry.2 ++ " " ++ edge_label entry.1 ++ " →"

def note_body : Option String → String
  | some body => if body = "" then PLACEHOLDER_BODY else body
  | none => PLACEHOLDER_BODY

def render_note (p : Platform) (note : Note) (outgoing incoming : List LinkedEdge) : String :=
  let head := render_frontmatter note ++
    ["", "# " ++ note.title, "", rstrip_newlines (note_body note.body_text), "", "## Links", ""]
  let links :=
    if outgoing.isEmpty && incoming.isEmpty then ["_(no links)_"]
    else outgoing.map (outgoing_line p) ++ incoming.map (incoming_line p)
  join "\n" (head ++ links ++ [""]) ++ "\n"

def render_index (nfkd : String → String) (result : ExportResult) (kb_version : String) : String :=
  let head :=
    ["---", "title: KB Map of Content", "kb_version: " ++ yaml_scalar kb_version, "---", "",
      "# Knowledge Base — Map of Content", "",
      "kb_version: \x60" ++ kb_version ++ "\x60 · " ++ toString result.notes_written ++ " notes", "", "## Types", ""]
  let types := (sorted (fun a b => str_le a.1 b.1) result.by_type).map fun entry =>
    "- **" ++ entry.1 ++ "** (" ++ toString entry.2 ++ ") → \x60" ++ type_folder nfkd entry.1 ++ "/\x60"
  join "\n" (head ++ types ++ [""]) ++ "\n"

section Export

variable (deps : ExportDeps) (r : Registry) (build_seq : Nat)

/-- The members of the build, in the order of the query. -/
def load_artifacts : List KnowledgeArtifact :=
  sorted deps.artifact_order (r.artifacts.filter fun artifact => decide (artifact.MemberAt build_seq))

def load_edges : List KnowledgeEdge :=
  sorted deps.edge_order (r.edges.filter fun edge => decide (edge.MemberAt build_seq))

def load_source_uri (source_id : Uuid) : Option String :=
  (r.source_items.find? fun item => item.source_id == source_id).map (·.source_uri)

/-- `notes[key].source_uri = …`. -/
def fill_source_uri (notes : Dict String Note) (artifact : KnowledgeArtifact) : Dict String Note :=
  notes.set_some (artifact_key deps artifact) ((notes.get? (artifact_key deps artifact)).map fun note =>
    { note with source_uri := load_source_uri r artifact.source_id })

def export_notes : Dict String Note :=
  let artifacts := load_artifacts deps r build_seq
  artifacts.foldl (fill_source_uri deps r) (assign_slugs deps artifacts)

/-- The edges out of an artifact, each beside the note it leads to. -/
def outgoing_edges (artifact_id : String) : List LinkedEdge :=
  ((load_edges deps r build_seq).filter fun edge => deps.platform.str_uuid edge.from_artifact_id == artifact_id).map
    fun edge => (edge, (export_notes deps r build_seq).get? (deps.platform.str_uuid edge.to_artifact_id))

def incoming_edges (artifact_id : String) : List LinkedEdge :=
  ((load_edges deps r build_seq).filter fun edge => deps.platform.str_uuid edge.to_artifact_id == artifact_id).map
    fun edge => (edge, (export_notes deps r build_seq).get? (deps.platform.str_uuid edge.from_artifact_id))

def rendered_note (note : Note) : String :=
  render_note deps.platform note (outgoing_edges deps r build_seq note.artifact_id)
    (incoming_edges deps r build_seq note.artifact_id)

/-- The file of a note, relative to the vault. -/
def note_path (note : Note) : String := link_target note ++ ".md"

/-- The notes in the order in which they are written, one for each artifact. -/
def written_notes : List Note :=
  (load_artifacts deps r build_seq).filterMap fun artifact =>
    (export_notes deps r build_seq).get? (artifact_key deps artifact)

/-- The note files of the vault: a path that is written again holds the later text. -/
def note_files : Dict String String :=
  (written_notes deps r build_seq).foldl
    (fun files note => files.set (note_path note) (rendered_note deps r build_seq note)) []

def export_result : ExportResult :=
  let notes := written_notes deps r build_seq
  { notes_written := notes.length
    by_type := notes.foldl (fun by_type note =>
      by_type.set note.artifact_type ((by_type.get? note.artifact_type).getD 0 + 1)) [] }

/-- The files the export leaves in a cleaned directory. -/
def export_obsidian (kb_version : String) : Dict String String :=
  (note_files deps r build_seq).set "index.md" (render_index deps.nfkd (export_result deps r build_seq) kb_version)

end Export

end AgenticKb
