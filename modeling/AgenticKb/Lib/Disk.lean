import AgenticKb.Lib.Paths

namespace AgenticKb.Lib

/-! A disk: directories, files that have one name each, and symbolic links. -/

inductive Entry where
  | directory
  /-- A file of UTF-8 text. -/
  | file (text : String)
  /-- A file of anything else. -/
  | binary
  | link (target : String)
deriving DecidableEq, Repr

structure Disk where
  entries : Dict Place Entry
deriving DecidableEq, Repr

/-- The places that a place lies in, from the top. -/
def parents (place : Place) : List Place := (List.range place.length).map fun n => place.take n

inductive OsError where
  | not_found | not_a_directory | is_a_directory | link_loop
deriving DecidableEq, Repr

inductive ReadError where
  | os (error : OsError)
  /-- The bytes are not UTF-8. -/
  | decode
deriving DecidableEq, Repr

/-- Universal newlines: a carriage return reads as a line feed, and so does one before a line feed. -/
def universal_newlines : List Char → List Char
  | [] => []
  | '\r' :: '\n' :: cs => '\n' :: universal_newlines cs
  | c :: cs => (if c = '\r' then '\n' else c) :: universal_newlines cs

namespace Disk

variable (disk : Disk)

/-- What stands at a place; the top is a directory. -/
def entry (place : Place) : Option Entry := if place = [] then some .directory else disk.entries.get? place

def put (place : Place) (entry : Entry) : Disk := { entries := disk.entries.set place entry }

/-- The parts of a path one by one, up to the first that is a link: what it points to and the parts after it are
followed. -/
def walk (follow : Place → List String → Option Place) : (here : Place) → (parts : List String) → Option Place
  | here, [] => some here
  | here, part :: parts =>
    if part = ".." then walk follow here.dropLast parts
    else
      match disk.entry (here ++ [part]) with
      | some (.link target) =>
        let path := PurePath.parse target
        follow (if path.is_absolute then [] else here) (path.parts ++ parts)
      | _ => walk follow (here ++ [part]) parts

/-- `os.path.realpath` of the parts below `here`. `none` where the links lead around in a circle, or are more than `links`. -/
def realpath : (links : Nat) → (here : Place) → (parts : List String) → Option Place
  | 0 => disk.walk fun _ _ => none
  | links + 1 => disk.walk (realpath links)

/-- Some parent is a file. -/
def blocked (place : Place) : Bool :=
  (parents place).any fun parent =>
    match disk.entry parent with
    | some (.file _) | some .binary => true
    | _ => false

/-- `path.read_text(encoding="utf-8")` of a resolved path. -/
def read_text (place : Place) : Except ReadError String :=
  match disk.entry place with
  | some (.file text) => .ok (String.ofList (universal_newlines text.toList))
  | some .binary => .error .decode
  | some .directory => .error (.os .is_a_directory)
  | some (.link _) => .error (.os .link_loop)
  | none => .error (.os (if disk.blocked place then .not_a_directory else .not_found))

/-- `parent.mkdir(parents=True, exist_ok=True)`, for the parents of a place that is not blocked. -/
def make_parents (place : Place) : Disk :=
  (parents place).foldl (fun made parent =>
    if (made.entry parent).isNone then made.put parent .directory else made) disk

/-- The names in a directory. -/
def names (place : Place) : List String :=
  (disk.entries.filter fun entry => entry.1 != [] && entry.1.dropLast == place).filterMap fun entry => entry.1.getLast?

section Entries

variable {disk : Disk} {place place' : Place} {e : Entry}

@[simp] theorem entry_top : disk.entry [] = some .directory := if_pos rfl

theorem entry_put : (disk.put place e).entry place' = if place' = place ∧ place ≠ [] then some e else disk.entry place' := by
  unfold entry put
  by_cases htop : place' = []
  · subst htop
    simp only [if_true]
    rw [if_neg]
    rintro ⟨heq, hne⟩
    exact hne heq.symm
  · rw [if_neg htop, if_neg htop, Dict.get?_set]
    by_cases heq : place' = place
    · subst heq
      simp [htop]
    · simp [heq]

theorem mem_parents : place' ∈ parents place ↔ place' <+: place ∧ place' ≠ place := by
  rw [parents, List.mem_map]
  constructor
  · intro h
    obtain ⟨n, hn, rfl⟩ := h
    refine ⟨List.take_prefix _ _, fun heq => ?_⟩
    have hlength := congrArg List.length heq
    have hshort := List.mem_range.1 hn
    rw [List.length_take] at hlength
    omega
  · intro h
    obtain ⟨hlead, hne⟩ := h
    refine ⟨place'.length, List.mem_range.2 ?_, (List.prefix_iff_eq_take.1 hlead).symm⟩
    cases Nat.lt_or_ge place'.length place.length with
    | inl hlt => exact hlt
    | inr hge => exact absurd (hlead.eq_of_length_le hge) hne

/-- Directories come to stand where nothing stood, and nothing else changes. -/
theorem entry_make_parents : (disk.make_parents place).entry place' =
    if disk.entry place' = none ∧ place' ∈ parents place then some .directory else disk.entry place' := by
  unfold make_parents
  generalize parents place = missing
  induction missing generalizing disk with
  | nil => simp
  | cons parent missing ih =>
    rw [List.foldl_cons, ih]
    by_cases hnone : (disk.entry parent).isNone = true
    · have htop : parent ≠ [] := by
        rintro rfl
        simp at hnone
      rw [if_pos hnone]
      by_cases heq : place' = parent
      · subst heq
        have hput : (disk.put place' .directory).entry place' = some .directory := by rw [entry_put, if_pos ⟨rfl, htop⟩]
        simp [hput, Option.isNone_iff_eq_none.1 hnone]
      · have hput : (disk.put parent .directory).entry place' = disk.entry place' := by
          rw [entry_put, if_neg fun h => heq h.1]
        simp [hput, heq]
    · rw [if_neg hnone]
      by_cases heq : place' = parent
      · subst heq
        have hsome : disk.entry place' ≠ none := fun h => hnone (Option.isNone_iff_eq_none.2 h)
        simp [hsome]
      · simp [heq]

end Entries

end Disk

end AgenticKb.Lib
