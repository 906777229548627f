import AgenticKb.Application.BuildRunner

open AgenticKb.Lib

namespace AgenticKb

/-! Two builds on one registry, at the level of their transactions over the source rows: `now()` is the start
of the open transaction, and a statement sees what has been committed and what its own transaction wrote. -/

/-- A write to the source rows. -/
inductive Statement where
  | touch (fetched : NormalizedContent)
  | upsert (fetched : NormalizedContent)
  | tombstone (ids : List Uuid)
deriving DecidableEq, Repr

def Statement.run (p : Platform) (r : Registry) : Statement → Registry
  | .touch fetched => (touch_last_seen r fetched).1
  | .upsert fetched => (upsert_source_item p r fetched).1
  | .tombstone ids => tombstone_sources r ids

/-- The key of the row a statement records. -/
def Statement.recorded : Statement → List (SourceType × String)
  | .touch fetched | .upsert fetched => [(fetched.source.source_type, fetched.source.source_uri)]
  | .tombstone _ => []

/-- An open transaction. `late` is a history variable: the rows recorded after the other build started. -/
structure Transaction where
  began : Timestamp
  statements : List Statement := []
  late : List (SourceType × String) := []
deriving DecidableEq, Repr

/-- What the transaction sees over the committed registry. -/
def Transaction.view (p : Platform) (committed : Registry) (t : Transaction) : Registry :=
  t.statements.foldl (Statement.run p) { committed with now := t.began }

inductive Builder where
  | first | second
deriving DecidableEq, Repr

def Builder.other : Builder → Builder
  | .first => .second
  | .second => .first

/-- One build. `fenced` is a history variable: the rows the other build recorded after this one had started,
and has committed. -/
structure Client where
  started_at : Option Timestamp := none
  transaction : Option Transaction := none
  fenced : List (SourceType × String) := []
deriving DecidableEq, Repr

/-- The database the two builds share. -/
structure Shared where
  clock : Timestamp
  committed : Registry
  first : Client := {}
  second : Client := {}
deriving DecidableEq, Repr

namespace Shared

def client (s : Shared) : Builder → Client
  | .first => s.first
  | .second => s.second

def set_client (s : Shared) (client : Client) : Builder → Shared
  | .first => { s with first := client }
  | .second => { s with second := client }

/-- What a build reads: its open transaction's view, or what is committed. -/
def view (p : Platform) (s : Shared) (b : Builder) : Registry :=
  match (s.client b).transaction with
  | some t => t.view p s.committed
  | none => s.committed

/-- Run a statement in the build's open transaction. -/
def execute (s : Shared) (b : Builder) (statement : Statement) : Shared :=
  match (s.client b).transaction with
  | some t =>
    let late := if (s.client b.other).started_at.isSome then t.late ++ statement.recorded else t.late
    s.set_client { s.client b with
      transaction := some { t with statements := t.statements ++ [statement], late } } b
  | none => s

/-- The open transaction's writes become visible. -/
def commit (p : Platform) (s : Shared) (b : Builder) : Shared :=
  match (s.client b).transaction with
  | some t =>
    let fenced := (s.client b.other).fenced ++ t.late
    let visible := { s with committed := t.view p s.committed }
    (visible.set_client { s.client b with transaction := none } b).set_client
      { s.client b.other with fenced } b.other
  | none => s

end Shared

/-- One event of an interleaving. A build starts with the transaction of its run row, whose start is its
`started_at`; its sweep tombstones what it takes as vanished. -/
inductive Event where
  | tick
  | start (b : Builder)
  | begin (b : Builder)
  | execute (b : Builder) (fetched : NormalizedContent) (changed : Bool)
  | sweep (b : Builder) (seen_source_ids : List Uuid)
  | commit (b : Builder)
  | rollback (b : Builder)
deriving DecidableEq, Repr

/-- The write of one source: a changed one is upserted, any other is touched. -/
def source_statement (fetched : NormalizedContent) (changed : Bool) : Statement :=
  if changed then .upsert fetched else .touch fetched

def Shared.step (p : Platform) (s : Shared) : Event → Shared
  | .tick => { s with clock := s.clock + 1 }
  | .start b =>
    if (s.client b).started_at.isNone then
      s.set_client { s.client b with started_at := some s.clock } b
    else s
  | .begin b =>
    if (s.client b).started_at.isSome && (s.client b).transaction.isNone then
      s.set_client { s.client b with transaction := some { began := s.clock } } b
    else s
  | .execute b fetched changed => s.execute b (source_statement fetched changed)
  | .sweep b seen_source_ids =>
    match (s.client b).started_at with
    | some started_at =>
      s.execute b (.tombstone (vanished_live_sources (s.view p b) seen_source_ids started_at))
    | none => s
  | .commit b => s.commit p b
  | .rollback b => s.set_client { s.client b with transaction := none } b

end AgenticKb
