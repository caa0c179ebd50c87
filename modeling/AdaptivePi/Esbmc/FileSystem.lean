import AdaptivePi.Foundation.Lines
import Mathlib.Data.Char
import Mathlib.Data.List.Lex
import Mathlib.Data.List.Infix
import Mathlib.Data.List.Nodup
import Mathlib.Data.List.Sort

/-!
Files and directories as CMake sees them. A path is absolute, and has no
newline and no character that is special to CMake lists or globs. There are no
symbolic links to directories.
-/

namespace AdaptivePi.Esbmc

open Foundation

/-- Characters without a meaning for CMake lists and globs. -/
def isPlain (char : Char) : Bool := !"\n;[]\\*?".toList.contains char

abbrev Path := {text : Text // text.head? = some '/' ∧ ∀ char ∈ text, isPlain char = true}

namespace Path

def ofText (text : Text) (h : (text.head? = some '/' && text.all isPlain) = true) : Path :=
  ⟨text, of_decide_eq_true (Bool.and_eq_true_iff.mp h).1,
    List.all_eq_true.mp (Bool.and_eq_true_iff.mp h).2⟩

/-- Continue a path with a suffix such as `/include`. -/
def extend (path : Path) (suffix : Text) (hsuffix : ∀ char ∈ suffix, isPlain char = true) : Path :=
  ⟨path.val ++ suffix, by
    refine ⟨?_, fun char hchar => ?_⟩
    · rw [List.head?_append, path.property.1]
      rfl
    · rcases List.mem_append.mp hchar with hpath | hmem
      · exact path.property.2 char hpath
      · exact hsuffix char hmem⟩

/-- The path is in the directory or below. -/
def Above (directory path : Path) : Prop := directory.val ++ ['/'] <+: path.val

instance (directory path : Path) : Decidable (directory.Above path) :=
  inferInstanceAs (Decidable (_ <+: _))

theorem not_mem_of_not_isPlain (path : Path) {char : Char} (h : isPlain char = false) :
    char ∉ path.val := by
  intro hmem
  rw [path.property.2 char hmem] at h
  cases h

theorem not_above_self (path : Path) : ¬path.Above path := by
  intro h
  have hlength := h.length_le
  rw [List.length_append, List.length_singleton] at hlength
  omega

theorem not_above_of_top {path : Path} (directory : Path) (htop : '/' ∉ path.val.tail) :
    ¬directory.Above path := by
  rintro ⟨rest, hrest⟩
  have hhead := directory.property.1
  cases hdirectory : directory.val with
  | nil =>
      rw [hdirectory] at hhead
      cases hhead
  | cons first others =>
      rw [← hrest, hdirectory] at htop
      simp at htop

end Path

inductive Node where
  | directory
  | file (contents : Text)
  deriving DecidableEq

structure FileSystem where
  nodes : List (Path × Node)
  distinct : (nodes.map Prod.fst).Nodup
  parents : ∀ path ∈ nodes.map Prod.fst, ∀ parent : Path, parent.Above path →
    (parent, Node.directory) ∈ nodes

namespace FileSystem

def node (files : FileSystem) (path : Path) : Option Node := files.nodes.lookup path

def isDirectory (files : FileSystem) (path : Path) : Bool := files.node path = some .directory

/-- The contents of a path that exists and is not a directory. -/
def read (files : FileSystem) (path : Path) : Option Text :=
  match files.node path with
  | some (.file contents) => some contents
  | _ => none

/-- `file(GLOB_RECURSE ... LIST_DIRECTORIES FALSE)` in a directory, for the
paths that a pattern accepts, and `list(SORT)`. -/
def glob (files : FileSystem) (directory : Path) (accepts : Text → Bool) : List Path :=
  ((files.nodes.map Prod.fst).filter fun path =>
    (files.read path).isSome && decide (directory.Above path) && accepts path.val).insertionSort
      fun path path' => path.val ≤ path'.val

private theorem lookup_of_mem {nodes : List (Path × Node)} {path : Path} {node : Node}
    (hdistinct : (nodes.map Prod.fst).Nodup) (hmem : (path, node) ∈ nodes) :
    nodes.lookup path = some node := by
  induction nodes with
  | nil => cases hmem
  | cons entry nodes ih =>
      obtain ⟨hnew, hrest⟩ := List.nodup_cons.mp hdistinct
      rcases List.mem_cons.mp hmem with rfl | htail
      · exact List.lookup_cons_self
      · have hne : path ≠ entry.1 := by
          rintro rfl
          exact hnew (List.mem_map.mpr ⟨_, htail, rfl⟩)
        rw [List.lookup_cons, beq_eq_false_iff_ne.mpr hne]
        exact ih hrest htail

theorem mem_of_read {files : FileSystem} {path : Path} (h : (files.read path).isSome = true) :
    path ∈ files.nodes.map Prod.fst := by
  cases hnode : files.node path with
  | none => simp [read, hnode] at h
  | some node =>
      obtain ⟨before, after, hnodes, -⟩ := List.lookup_eq_some_iff.mp hnode
      rw [hnodes]
      simp

/-- What a glob finds: files below the directory that the pattern accepts. -/
theorem mem_glob {files : FileSystem} {directory path : Path} {accepts : Text → Bool} :
    path ∈ files.glob directory accepts ↔
      (files.read path).isSome = true ∧ directory.Above path ∧ accepts path.val = true := by
  rw [glob, List.mem_insertionSort, List.mem_filter]
  simp only [Bool.and_eq_true, decide_eq_true_eq]
  constructor
  · rintro ⟨-, ⟨hread, habove⟩, haccepts⟩
    exact ⟨hread, habove, haccepts⟩
  · rintro ⟨hread, habove, haccepts⟩
    exact ⟨mem_of_read hread, ⟨hread, habove⟩, haccepts⟩

/-- What is above a file is a directory. -/
theorem isDirectory_of_above {files : FileSystem} {directory path : Path}
    (habove : directory.Above path) (hread : (files.read path).isSome = true) :
    files.isDirectory directory = true := by
  have hmem := files.parents path (mem_of_read hread) directory habove
  simp [isDirectory, node, lookup_of_mem files.distinct hmem]

theorem read_of_isDirectory {files : FileSystem} {path : Path}
    (h : files.isDirectory path = true) : files.read path = none := by
  have hnode : files.node path = some .directory := by simpa [isDirectory] using h
  simp only [read, hnode]

/-- The path has the same existence and contents in both, and so has every path
below. -/
def SameTree (files files' : FileSystem) (path : Path) : Prop :=
  files.isDirectory path = files'.isDirectory path ∧
    ∀ other, other = path ∨ path.Above other → files.read other = files'.read other

end FileSystem

end AdaptivePi.Esbmc
