import ClassAudit.Files.FileTree

/-!
# The files of a tree

Going through a tree (`FileTree.leaves`) sorts the entries of a directory by paths that
are built on the way down. What comes out is still only what the tree holds
(`FileTree.Holds`), each file under the path that its names make.
-/

namespace ClassAudit

/-- Sorting by keys goes through a map. -/
theorem mergeSort_map {α β : Type} (f : α → β) (key : β → String) (l : List α) :
    ((l.map f).mergeSort fun a b => decide (key a ≤ key b)) =
      (l.mergeSort fun a b => decide (key (f a) ≤ key (f b))).map f := by
  symm
  apply List.map_mergeSort
  intro a _ b _
  rfl

namespace FileTree

/-- Something holds of all trees if it holds of files, and of a directory whenever it
holds of all that the directory lists. -/
@[elab_as_elim]
theorem induction {motive : FileTree → Prop} (file : ∀ content, motive (.file content))
    (directory : ∀ entries, (∀ name child, (name, child) ∈ entries → motive child) →
      motive (.directory entries))
    (tree : FileTree) : motive tree := by
  refine @FileTree.rec motive
    (fun entries => ∀ name child, (name, child) ∈ entries → motive child)
    (fun entry => motive entry.2) file directory ?_ ?_ ?_ tree
  · intro name child hmem
    cases hmem
  · intro entry rest hentry hrest name child hmem
    cases hmem with
    | head => exact hentry
    | tail _ hmem => exact hrest name child hmem
  · intro name child hchild
    exact hchild

/-- The files below an entry of a directory at a path. -/
def childLeaves (path : String) (entry : String × FileTree) :
    List (String × Except FileError ByteArray) :=
  if pathLimit < (Path.join path entry.1).utf8ByteSize then
    [(Path.join path entry.1, .error .nameTooLong)]
  else entry.2.leaves (Path.join path entry.1)

theorem entryLeaves_eq (path : String) (entries : List (String × FileTree)) :
    entryLeaves path entries =
      entries.map fun entry => (Path.join path entry.1, childLeaves path entry) := by
  induction entries with
  | nil => rw [entryLeaves, List.map_nil]
  | cons entry rest ih => rw [entryLeaves, ih, List.map_cons, childLeaves]

/-- The files of a directory are those of its entries, in the order of their paths. -/
theorem leaves_directory (path : String) (entries : List (String × FileTree)) :
    leaves path (.directory entries) =
      (entries.mergeSort fun a b =>
        decide (Path.join path a.1 ≤ Path.join path b.1)).flatMap
        (childLeaves path) := by
  rw [leaves, entryLeaves_eq, mergeSort_map, List.flatMap_map]

/-- A tree holds a file below a list of names. -/
inductive Holds : FileTree → List String → ByteArray → Prop
  | file {content : ByteArray} : Holds (.file content) [] content
  | entry {entries : List (String × FileTree)} {name : String} {child : FileTree}
      {names : List String} {content : ByteArray} (hmem : (name, child) ∈ entries)
      (hchild : Holds child names content) :
      Holds (.directory entries) (name :: names) content

/-- What is found in a tree is held by it, under the path that its names make. -/
theorem holds_of_mem_leaves {tree : FileTree} {path place : String}
    {content : ByteArray} (h : (place, .ok content) ∈ tree.leaves path) :
    ∃ names, tree.Holds names content ∧ place = names.foldl Path.join path := by
  induction tree using FileTree.induction generalizing path with
  | file content' =>
    rw [leaves, List.mem_singleton] at h
    cases h
    exact ⟨[], .file, rfl⟩
  | directory entries ih =>
    rw [leaves_directory, List.mem_flatMap] at h
    obtain ⟨⟨name, child⟩, hmem, h⟩ := h
    rw [List.mem_mergeSort] at hmem
    unfold childLeaves at h
    split at h
    · simp at h
    · obtain ⟨names, hholds, hplace⟩ := ih name child hmem h
      exact ⟨name :: names, .entry hmem hholds, hplace⟩

/-- A path leads to a file, or to a directory that the file is below. -/
def Reaches (tree : FileTree) (root : String) (file : String × ByteArray) : Prop :=
  ∃ found names, tree.get root = .ok found ∧ found.Holds names file.2 ∧
    file.1 = names.foldl Path.join root

end FileTree

end ClassAudit
