import AgenticKb.Lib.Python

namespace AgenticKb.Lib

/-! Posix paths, and the places they lead to in a tree of files without links. -/

/-- A path taken apart. A relative one has no root. -/
structure PurePath where
  root : String
  parts : List String
deriving DecidableEq, Repr

namespace PurePath

/-- `Path(text)`: empty parts and single dots go, `..` stays. Exactly two slashes in front are a root of their own. -/
def parse (text : String) : PurePath where
  root :=
    if startswith text "//" && !startswith text "///" then "//"
    else if startswith text "/" then "/"
    else ""
  parts := (split_on '/' text).filter fun part => part != "" && part != "."

def is_absolute (path : PurePath) : Bool := path.root != ""

/-- `str(path)`. -/
def str (path : PurePath) : String :=
  if path.root = "" ∧ path.parts = [] then "." else path.root ++ join "/" path.parts

/-- `base / text`. -/
def joinpath (base : PurePath) (text : String) : PurePath :=
  let path := parse text
  if path.is_absolute then path else { base with parts := base.parts ++ path.parts }

/-- `path.relative_to(base)`, which looks at the parts alone; `none` where it raises. -/
def relative_to (path base : PurePath) : Option PurePath :=
  if path.root = base.root ∧ base.parts <+: path.parts then some ⟨"", path.parts.drop base.parts.length⟩ else none

end PurePath

/-- A place in a tree of files: the names on the way from the top. -/
abbrev Place := List String

/-- One step of a walk; above the top there is nothing. -/
def climb (here : Place) (part : String) : Place := if part = ".." then here.dropLast else here ++ [part]

/-- Where a path leads. -/
def PurePath.place (path : PurePath) : Place := path.parts.foldl climb []

inductive Node where
  | directory
  | file (text : String)
deriving DecidableEq, Repr

/-- A tree of files without links. -/
structure FileTree where
  node : Place → Option Node

namespace FileTree

variable (tree : FileTree)

/-- A walk passes through directories only. -/
def walk : Place → List String → Option Place
  | here, [] => some here
  | here, part :: parts => if tree.node here = some .directory then walk (climb here part) parts else none

/-- `path.read_text()`, where there is a file. -/
def read_text (path : PurePath) : Option String :=
  (tree.walk [] path.parts).bind fun place =>
    match tree.node place with
    | some (.file text) => some text
    | _ => none

def is_file (path : PurePath) : Bool := (tree.read_text path).isSome

end FileTree

section Walks

variable {tree : FileTree} {path base : PurePath} {here place : Place} {parts : List String} {text : String}

theorem FileTree.walk_place (h : tree.walk here parts = some place) : place = parts.foldl climb here := by
  induction parts generalizing here with
  | nil => exact (Option.some.inj h).symm
  | cons part parts ih =>
    rw [FileTree.walk] at h
    split at h
    · exact ih h
    · cases h

/-- What is read is the file at the place of the path. -/
theorem FileTree.node_place (h : tree.read_text path = some text) : tree.node path.place = some (.file text) := by
  obtain ⟨place, hwalk, hnode⟩ := Option.bind_eq_some_iff.1 h
  have hplace : place = path.place := FileTree.walk_place hwalk
  rw [hplace] at hnode
  split at hnode
  · rename_i found heq
    rw [heq, Option.some.inj hnode]
  · cases hnode

theorem PurePath.is_absolute_parse (text : String) : (PurePath.parse text).is_absolute = startswith text "/" := by
  have hshort : startswith text "//" = true → startswith text "/" = true := by
    rw [startswith, startswith, List.isPrefixOf_iff_prefix, List.isPrefixOf_iff_prefix]
    exact fun h => List.IsPrefix.trans (by decide) h
  rw [PurePath.is_absolute, PurePath.parse]
  dsimp only
  by_cases htwo : (startswith text "//" && !startswith text "///") = true
  · rw [if_pos htwo, hshort (Bool.and_eq_true_iff.1 htwo).1]
    decide
  · rw [if_neg htwo]
    cases startswith text "/" with
    | true => decide
    | false => decide

theorem PurePath.place_joinpath (h : (PurePath.parse text).is_absolute = false) :
    (base.joinpath text).place = (PurePath.parse text).parts.foldl climb base.place := by
  rw [PurePath.joinpath, h, PurePath.place, PurePath.place]
  exact List.foldl_append

private theorem startswith_slash_join {part : String} (hpart : part ≠ "") (hslash : '/' ∉ part.toList)
    (parts : List String) : startswith (join "/" (part :: parts)) "/" = false := by
  have hslashes : "/".toList = ['/'] := by decide
  have hne : part.toList ≠ [] := fun h => hpart (String.ext h)
  rw [startswith, join, String.toList_intercalate, hslashes, List.map_cons]
  cases hchars : part.toList with
  | nil => exact absurd hchars hne
  | cons c chars =>
    have hc : ('/' == c) = false := by
      rw [beq_eq_false_iff_ne]
      rintro rfl
      exact hslash (hchars ▸ List.mem_cons_self)
    cases parts with
    | nil => simp [List.isPrefixOf, hc]
    | cons other parts => simp [List.intercalate, List.isPrefixOf, hc]

/-- What `relative_to` leaves is relative, also when it is spelled out and read again. -/
theorem PurePath.not_absolute_of_relative_to {rel : PurePath} (h : (PurePath.parse text).relative_to base = some rel) :
    (PurePath.parse rel.str).is_absolute = false := by
  rw [PurePath.relative_to] at h
  split at h
  · obtain rfl := Option.some.inj h
    have hparts : ∀ part ∈ (PurePath.parse text).parts, part ≠ "" ∧ '/' ∉ part.toList := by
      intro part hpart
      obtain ⟨hsplit, hkept⟩ := List.mem_filter.1 hpart
      refine ⟨?_, not_mem_of_mem_split_on hsplit⟩
      rintro rfl
      exact absurd hkept (by decide)
    rw [PurePath.str]
    cases hdrop : (PurePath.parse text).parts.drop base.parts.length with
    | nil =>
      rw [if_pos ⟨rfl, rfl⟩]
      decide
    | cons part rest =>
      obtain ⟨hne, hslash⟩ := hparts part (List.mem_of_mem_drop (hdrop ▸ List.mem_cons_self))
      have hfirst := startswith_slash_join hne hslash rest
      rw [if_neg (by simp), String.empty_append, PurePath.is_absolute_parse, hfirst]
  · cases h

/-- The levels that a path climbs above its start, and the names through which it then goes down. -/
def net (parts : List String) : Nat × List String :=
  parts.foldl (fun (reached : Nat × List String) part =>
    if part = ".." then
      if reached.2 = [] then (reached.1 + 1, []) else (reached.1, reached.2.dropLast)
    else (reached.1, reached.2 ++ [part])) (0, [])

/-- A walk ends below where it has climbed to. -/
theorem foldl_climb (parts : List String) (base : Place) :
    parts.foldl climb base = base.take (base.length - (net parts).1) ++ (net parts).2 := by
  induction parts using List.reverseRecOn with
  | nil => simp [net]
  | append_singleton parts part ih =>
    have hnet : net (parts ++ [part]) =
        if part = ".." then
          if (net parts).2 = [] then ((net parts).1 + 1, []) else ((net parts).1, (net parts).2.dropLast)
        else ((net parts).1, (net parts).2 ++ [part]) := by
      rw [net, List.foldl_append]
      rfl
    rw [List.foldl_append, ih, hnet, List.foldl_cons, List.foldl_nil, climb]
    by_cases hup : part = ".."
    · rw [if_pos hup, if_pos hup]
      by_cases htop : (net parts).2 = []
      · have hlevel : min (base.length - (net parts).1) base.length - 1 = base.length - ((net parts).1 + 1) := by omega
        rw [if_pos htop, htop, List.append_nil, List.append_nil, List.dropLast_eq_take, List.length_take,
          List.take_take, hlevel]
        congr 1
        omega
      · rw [if_neg htop, List.dropLast_append_of_ne_nil htop]
    · rw [if_neg hup, if_neg hup, List.append_assoc]

/-- A path from `base` that goes down again the way it has climbed. -/
def ReturnsTo (base : Place) (parts : List String) : Prop := base.drop (base.length - (net parts).1) <+: (net parts).2

instance (base : Place) (parts : List String) : Decidable (ReturnsTo base parts) :=
  inferInstanceAs (Decidable (_ <+: _))

/-- A walk from `base` ends under it if and only if it goes down again the way it has climbed. -/
theorem prefix_foldl_climb_iff {base : Place} : base <+: parts.foldl climb base ↔ ReturnsTo base parts := by
  rw [foldl_climb, ReturnsTo]
  generalize base.length - (net parts).1 = kept
  nth_rewrite 1 [← List.take_append_drop kept base]
  exact List.prefix_append_right_inj _

end Walks

end AgenticKb.Lib
