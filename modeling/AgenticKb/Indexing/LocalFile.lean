import AgenticKb.Indexing.Projection

open AgenticKb.Lib

namespace AgenticKb.LocalFile

/-! The search index as a file, for the builds without a search service. -/

/-- What stands in an index file. -/
inductive IndexFile where
  | index (docs : SearchIndex)
  /-- No JSON object, or documents that do not validate: half a file, or one of another schema. -/
  | corrupt
  /-- Reading it raises what is not caught: a JSON object whose `docs` is none itself. -/
  | unloadable
deriving DecidableEq, Repr

/-- The directory of the index: the file at its path, and the temporary one of a write. -/
structure Files where
  index : Option IndexFile
  temp : Option IndexFile := none
deriving DecidableEq, Repr

/-- The documents of the file. A corrupt one counts as empty; `none` is an exception. -/
def load : Option IndexFile → Option SearchIndex
  | none => some []
  | some (.index docs) => some docs
  | some .corrupt => some []
  | some .unloadable => none

/-- The steps of a write: a temporary file is made, it is written, and it takes the place of the other. -/
def write_steps (docs : SearchIndex) : List (Files → Files) :=
  [fun files => { files with temp := some .corrupt },
    fun files => { files with temp := some (.index docs) },
    fun files => { index := files.temp, temp := none }]

/-- How a write ends. An exception takes the temporary file with it; a kill takes the process. -/
inductive Writing where
  | done
  | raised (steps : Nat)
  | killed (steps : Nat)
deriving DecidableEq, Repr

/-- The files, and the documents the running process holds. -/
structure LocalIndex where
  files : Files
  client : Option SearchIndex := none
deriving DecidableEq, Repr

def run_steps (steps : List (Files → Files)) (files : Files) : Files := steps.foldl (fun files step => step files) files

/-- Write through what the process holds now. -/
def persist (s : LocalIndex) (docs : SearchIndex) : Writing → LocalIndex
  | .done => { files := run_steps (write_steps docs) s.files, client := some docs }
  | .raised n => { files := { run_steps ((write_steps docs).take n) s.files with temp := none }, client := some docs }
  | .killed n => { files := run_steps ((write_steps docs).take n) s.files, client := none }

def delete_docs (docs : SearchIndex) (doc_ids : List Uuid) : SearchIndex := doc_ids.foldl Dict.del docs

inductive Event where
  /-- A process starts; if the file does not load, it ends there. -/
  | start
  | upsert (docs : List SearchDoc) (writing : Writing)
  | delete (doc_ids : List Uuid) (writing : Writing)
  | exit
deriving DecidableEq, Repr

def LocalIndex.step (s : LocalIndex) : Event → LocalIndex
  | .start => { s with client := load s.files.index }
  | .upsert docs writing =>
    match s.client with
    | some held => persist s (upsert_docs held docs) writing
    | none => s
  | .delete doc_ids writing =>
    match s.client with
    | some held => persist s (delete_docs held doc_ids) writing
    | none => s
  | .exit => { s with client := none }

def run (files : Files) (events : List Event) : LocalIndex := events.foldl LocalIndex.step { files }

/-- The ids of the documents whose artifact is gone from the registry. -/
def orphaned_ids (r : Registry) (index : SearchIndex) : List Uuid :=
  ((index_state index).filter fun entry => !(load_doc_hashes r).any (·.1 == entry.1)).map (·.1)

/-- What the index stage of a build asks of the client: nothing, where nothing is orphaned or stale. -/
def delete_orphaned (r : Registry) (s : LocalIndex) : LocalIndex :=
  match s.client with
  | some held => if (orphaned_ids r held).isEmpty then s else s.step (.delete (orphaned_ids r held) .done)
  | none => s

def reconcile_missing (p : Platform) (r : Registry) (s : LocalIndex) : LocalIndex :=
  match s.client with
  | some held =>
    if (stale_doc_ids r held).isEmpty then s
    else s.step (.upsert (load_search_docs p r (some (stale_doc_ids r held))) .done)
  | none => s

def reconcile_index (p : Platform) (r : Registry) (s : LocalIndex) : LocalIndex :=
  reconcile_missing p r (delete_orphaned r s)

end AgenticKb.LocalFile
