import ClassAudit.Proofs.ArchiveOrder
import ClassAudit.Proofs.DecodedBody
import ClassAudit.Proofs.PathNames

/-!
# The order of listings

Directories list their entries in some order, archives store theirs in some order, and
class paths are written in some order. A scan sorts all three, each on its own, but
errors end it halfway. Two trees that differ in such orders only (`Relisted`) are
followed side by side here.

One order shows. All entries of an archive are opened before they are sorted, so of
several that do not open, the one that is stored first is reported
(`stored_order_shows`). Nothing else does: unless an archive has entries that fail to
open for different causes, the outcome is the same down to the error
(`collect_relisted`).
-/

namespace ClassAudit

/-! ## Names in another order -/

/-- Where no name is listed twice, the order does not matter to who looks one up. -/
theorem lookup_eq_of_perm {α : Type} {l l' : List (String × α)} (h : l.Perm l')
    (hnodup : (l.map Prod.fst).Nodup) (name : String) :
    l.lookup name = l'.lookup name := by
  induction h with
  | nil => rfl
  | cons entry _ ih =>
    obtain ⟨key, value⟩ := entry
    rw [List.lookup_cons, List.lookup_cons, ih (List.nodup_cons.1 hnodup).2]
  | swap entry entry' rest =>
    obtain ⟨key, value⟩ := entry
    obtain ⟨key', value'⟩ := entry'
    have hne : key' ≠ key := by
      intro heq
      simp [heq] at hnodup
    simp only [List.lookup_cons]
    cases hkey : name == key with
    | false => rfl
    | true =>
      have hkey' : (name == key') = false := by
        rw [beq_iff_eq.1 hkey]
        simpa using hne.symm
      rw [hkey']
  | trans h _ ih ih' =>
      exact (ih hnodup).trans (ih' ((h.map Prod.fst).nodup_iff.1 hnodup))

theorem lookup_map {α β : Type} (key : α → String) (value : α → β) (l : List α)
    (name : String) : (l.map fun a => (key a, value a)).lookup name =
      (l.find? fun a => name == key a).map value := by
  induction l with
  | nil => rfl
  | cons a rest ih =>
    rw [List.map_cons, List.lookup_cons, List.find?_cons, ih]
    cases name == key a <;> rfl

/-! ## Trees in another order -/

/-- Two trees, of a given name, list the same at each level and store the same in their
archives, in whatever orders. No directory lists a name twice. -/
inductive Relisted (formats : Formats) : String → FileTree → FileTree → Prop
  | file (name : String) (content : ByteArray) :
      Relisted formats name (.file content) (.file content)
  | archive {name : String} {archive archive' : ByteArray}
      (hname : Path.extension? name = some "jar")
      (hsame : formats.SameArchive archive archive') :
      Relisted formats name (.file archive) (.file archive')
  | directory {name : String} {pairs : List (String × FileTree × FileTree)}
      {listing : List (String × FileTree)}
      (hnames : ∀ pair ∈ pairs, Path.IsName pair.1)
      (hnodup : (pairs.map Prod.fst).Nodup)
      (hpairs : ∀ pair ∈ pairs, Relisted formats pair.1 pair.2.1 pair.2.2)
      (hperm : listing.Perm (pairs.map fun pair => (pair.1, pair.2.2))) :
      Relisted formats name (.directory (pairs.map fun pair => (pair.1, pair.2.1)))
        (.directory listing)

/-- Two files at a path are the same, or archives that store the same entries. -/
inductive SameFile (formats : Formats) :
    String × Except FileError ByteArray → String × Except FileError ByteArray → Prop
  | refl (file : String × Except FileError ByteArray) : SameFile formats file file
  | archive {path : String} {archive archive' : ByteArray}
      (hpath : Path.extension? path = some "jar")
      (hsame : formats.SameArchive archive archive') :
      SameFile formats (path, .ok archive) (path, .ok archive')

section Trees

variable {formats : Formats} {name : String} {tree tree' : FileTree}

theorem nodup_listing {pairs : List (String × FileTree × FileTree)}
    {listing : List (String × FileTree)} (hnodup : (pairs.map Prod.fst).Nodup)
    (hperm : listing.Perm (pairs.map fun pair => (pair.1, pair.2.2))) :
    (listing.map Prod.fst).Nodup := by
  rw [(hperm.map Prod.fst).nodup_iff, List.map_map]
  exact hnodup

/-- The files of two trees are the same one by one. -/
theorem Relisted.leaves (h : Relisted formats name tree tree') {path : String}
    (hpath : Path.extension? path = Path.extension? name) :
    List.Forall₂ (SameFile formats) (tree.leaves path) (tree'.leaves path) := by
  induction h generalizing path with
  | file name content =>
    rw [FileTree.leaves]
    exact .cons (.refl _) .nil
  | archive hname hsame =>
    rw [FileTree.leaves, FileTree.leaves]
    exact .cons (.archive (hpath.trans hname) hsame) .nil
  | @directory name pairs listing hnames hnodup hpairs hperm ih =>
    have hkey : ∀ entry ∈ listing, ∀ entry' ∈ listing,
        Path.join path entry.1 = Path.join path entry'.1 → entry = entry' := by
      intro entry hentry entry' hentry' heq
      exact List.inj_on_of_nodup_map (nodup_listing hnodup hperm) hentry hentry'
        (Path.join_injective path heq)
    rw [FileTree.leaves_directory, FileTree.leaves_directory,
      mergeSort_eq_of_perm (fun entry => Path.join path entry.1) hperm hkey,
      mergeSort_map _ fun entry : String × FileTree => Path.join path entry.1,
      mergeSort_map _ fun entry : String × FileTree => Path.join path entry.1,
      List.flatMap_map, List.flatMap_map]
    have hsorted {l : List (String × FileTree × FileTree)}
        (hl : ∀ pair ∈ l, pair ∈ pairs) :
        List.Forall₂ (fun pair pair' => pair = pair' ∧ pair ∈ pairs) l l :=
      List.forall₂_same.2 fun pair hpair => ⟨rfl, hl pair hpair⟩
    apply List.rel_flatMap (hsorted fun pair => List.mem_mergeSort.1)
    rintro pair _ ⟨rfl, hpair⟩
    dsimp only [FileTree.childLeaves]
    split
    · exact .cons (.refl _) .nil
    · exact ih pair hpair (Path.extension?_join path (hnames pair hpair))

/-- A name leads to the same in both orders of a directory. -/
theorem Relisted.lookup {pairs : List (String × FileTree × FileTree)}
    {listing : List (String × FileTree)} (hnodup : (pairs.map Prod.fst).Nodup)
    (hpairs : ∀ pair ∈ pairs, Relisted formats pair.1 pair.2.1 pair.2.2)
    (hperm : listing.Perm (pairs.map fun pair => (pair.1, pair.2.2))) (part : String) :
    ((pairs.map fun pair => (pair.1, pair.2.1)).lookup part = none ∧
      listing.lookup part = none) ∨
    ∃ child child',
      (pairs.map fun pair => (pair.1, pair.2.1)).lookup part = some child ∧
      listing.lookup part = some child' ∧ Relisted formats part child child' ∧
      ∃ pair ∈ pairs, pair.1 = part := by
  rw [lookup_eq_of_perm hperm (nodup_listing hnodup hperm), lookup_map, lookup_map]
  cases hfind : pairs.find? fun pair => part == pair.1 with
  | none => exact .inl ⟨rfl, rfl⟩
  | some pair =>
    have hmem := List.mem_of_find?_eq_some hfind
    obtain rfl : part = pair.1 := by simpa using List.find?_some hfind
    exact .inr ⟨pair.2.1, pair.2.2, rfl, rfl, hpairs pair hmem, pair, hmem, rfl⟩

/-- Names lead to the same in both trees. -/
theorem Relisted.at? (h : Relisted formats name tree tree') (names : List String) :
    (tree.at? names = none ∧ tree'.at? names = none) ∨
    ∃ found found', tree.at? names = some found ∧ tree'.at? names = some found' ∧
      Relisted formats (names.getLastD name) found found' ∧
      ∀ part ∈ names, Path.IsName part := by
  induction names generalizing name tree tree' with
  | nil =>
    rw [FileTree.at?, FileTree.at?]
    exact .inr ⟨tree, tree', rfl, rfl, h, by simp⟩
  | cons part rest ih =>
    cases h with
    | file => exact .inl ⟨rfl, rfl⟩
    | archive => exact .inl ⟨rfl, rfl⟩
    | directory hnames hnodup hpairs hperm =>
      rw [FileTree.at?, FileTree.at?]
      obtain ⟨hnone, hnone'⟩ |
          ⟨child, child', hchild, hchild', hrelisted, pair, hpair, rfl⟩ :=
        Relisted.lookup hnodup hpairs hperm part
      · rw [hnone, hnone']
        exact .inl ⟨rfl, rfl⟩
      · rw [hchild, hchild', List.getLastD_cons]
        obtain hnone | ⟨found, found', hfound, hfound', hsame, hrest⟩ := ih hrelisted
        · exact .inl hnone
        · refine .inr ⟨found, found', hfound, hfound', hsame, ?_⟩
          rw [List.forall_mem_cons]
          exact ⟨hnames pair hpair, hrest⟩

/-- Both trees are followed alike. -/
theorem Relisted.follow (h : Relisted formats name tree tree')
    (names parts : List String) :
    tree.follow names parts = tree'.follow names parts := by
  induction parts generalizing names with
  | nil => rfl
  | cons part rest ih =>
    rw [FileTree.follow, FileTree.follow]
    obtain ⟨hnone, hnone'⟩ | ⟨found, found', hfound, hfound', hsame, -⟩ := h.at? names
    · rw [hnone, hnone']
    · rw [hfound, hfound']
      cases hsame with
      | file => rfl
      | archive => rfl
      | directory hnames hnodup hpairs hperm =>
        dsimp only
        rw [ih names, ih names.dropLast, ih (names ++ [part])]
        obtain ⟨hnone, hnone'⟩ | ⟨child, child', hchild, hchild', -⟩ :=
          Relisted.lookup hnodup hpairs hperm part
        · rw [hnone, hnone']
        · rw [hchild, hchild']
          rfl

theorem FileTree.at?_concat (tree : FileTree) (names : List String) (part : String) :
    tree.at? (names ++ [part]) = match tree.at? names with
      | some (.directory entries) => entries.lookup part
      | _ => none := by
  induction names generalizing tree with
  | nil =>
    cases tree with
    | file content => rfl
    | directory entries =>
      rw [List.nil_append, FileTree.at?, FileTree.at?]
      dsimp only
      cases entries.lookup part <;> rfl
  | cons first rest ih =>
    cases tree with
    | file content => rfl
    | directory entries =>
      rw [List.cons_append, FileTree.at?, FileTree.at?]
      cases entries.lookup first with
      | none => rfl
      | some child => exact ih child

/-- A file is the last that a path goes to, and goes to by its name. -/
theorem FileTree.getLast?_of_follow {names parts names' : List String}
    {content : ByteArray} (h : tree.follow names parts = .ok names')
    (hfile : tree.at? names' = some (.file content)) :
    (parts = [] ∧ names' = names) ∨
      ∃ part, parts.getLast? = some part ∧ part ≠ "." ∧
        names'.getLast? = some part := by
  induction parts generalizing names with
  | nil =>
    cases h
    exact .inl ⟨rfl, rfl⟩
  | cons part rest ih =>
    -- unless it is the last step, what counts is the rest
    have hlater (hrest : ∃ part, rest.getLast? = some part ∧ part ≠ "." ∧
        names'.getLast? = some part) :
        ∃ other, (part :: rest).getLast? = some other ∧ other ≠ "." ∧
          names'.getLast? = some other := by
      obtain ⟨other, hother, hboth⟩ := hrest
      exact ⟨other, by rw [List.getLast?_cons, hother]; rfl, hboth⟩
    right
    rw [FileTree.follow] at h
    split at h
    · rename_i entries hdirectory
      split at h
      · obtain ⟨rfl, rfl⟩ | hrest := ih h
        · simp [hfile] at hdirectory
        · exact hlater hrest
      split at h
      · obtain ⟨rfl, rfl⟩ | hrest := ih h
        · -- above a directory there are only directories
          obtain rfl | ⟨front, last, rfl⟩ := List.eq_nil_or_concat' names
          · rw [List.dropLast_nil] at hfile
            simp [hfile] at hdirectory
          · rw [List.dropLast_concat] at hfile
            simp [FileTree.at?_concat, hfile] at hdirectory
        · exact hlater hrest
      split at h
      · cases h
      split at h
      · rename_i hdot _ _ _
        obtain ⟨rfl, rfl⟩ | hrest := ih h
        · exact ⟨part, rfl, hdot, List.getLast?_concat⟩
        · exact hlater hrest
      · cases h
    · cases h

/-- A path that leads to a file ends with the name of the file. -/
theorem FileTree.getLast?_pieces {path : String} {names : List String}
    {content : ByteArray} (h : tree.locate path = .ok names)
    (hfile : tree.at? names = some (.file content)) :
    names = [] ∨ ∃ part, (Path.pieces path).getLast? = some part ∧
      names.getLast? = some part := by
  obtain ⟨-, -, hfollow⟩ := bind_eq_ok.1 h
  obtain ⟨-, hnames⟩ | ⟨part, hpart, hdot, hlast⟩ := getLast?_of_follow hfollow hfile
  · exact .inl hnames
  · refine .inr ⟨part, ?_, hlast⟩
    unfold Path.parts at hpart
    split at hpart
    · rw [List.getLast?_concat] at hpart
      exact absurd (Option.some.inj hpart).symm hdot
    · exact hpart

theorem FileTree.get_eq (tree : FileTree) (path : String) : tree.get path =
    match tree.locate path with
    | .error cause => .error cause
    | .ok names => match tree.at? names with
      | some found => .ok found
      | none => .error .notFound := by
  unfold FileTree.get
  cases tree.locate path with
  | error cause => rfl
  | ok names =>
    dsimp only [bind, Except.bind]
    cases tree.at? names <;> rfl

/-- A path leads to the same in both trees. -/
theorem Relisted.get (h : Relisted formats "" tree tree') (path : String) :
    (∃ cause, tree.get path = .error cause ∧ tree'.get path = .error cause) ∨
    (∃ content content', tree.get path = .ok (.file content) ∧
      tree'.get path = .ok (.file content') ∧
      SameFile formats (path, .ok content) (path, .ok content')) ∨
    ∃ entries entries', tree.get path = .ok (.directory entries) ∧
      tree'.get path = .ok (.directory entries') ∧
      Relisted formats path (.directory entries) (.directory entries') := by
  have hlocate : tree.locate path = tree'.locate path := by
    unfold FileTree.locate
    rw [h.follow]
  rw [FileTree.get_eq, FileTree.get_eq, ← hlocate]
  cases hnames : tree.locate path with
  | error cause => exact .inl ⟨cause, rfl, rfl⟩
  | ok names =>
    dsimp only
    obtain ⟨hnone, hnone'⟩ | ⟨found, found', hfound, hfound', hsame, hparts⟩ :=
      h.at? names
    · rw [hnone, hnone']
      exact .inl ⟨.notFound, rfl, rfl⟩
    · rw [hfound, hfound']
      cases hsame with
      | file => exact .inr (.inl ⟨_, _, rfl, rfl, .refl _⟩)
      | archive hname hsame =>
        refine .inr (.inl ⟨_, _, rfl, rfl, .archive ?_ hsame⟩)
        obtain rfl | ⟨part, hpieces, hlast⟩ := FileTree.getLast?_pieces hnames hfound
        · -- the tree itself has no name
          exact absurd hname (by decide)
        · rw [List.getLastD_eq_getLast?, hlast] at hname
          have hpart := hparts part (List.mem_of_getLast? hlast)
          exact (Path.extension?_of_getLast? hpart hpieces).trans hname
      | directory hnames hnodup hpairs hperm =>
        exact .inr (.inr ⟨_, _, rfl, rfl, .directory hnames hnodup hpairs hperm⟩)

/-- Files that are the same are scanned alike. -/
theorem SameFile.agree {file file' : String × Except FileError ByteArray}
    (h : SameFile formats file file') (role : ScanRole) (direct : Bool) (scan : Scan) :
    Agree formats (fun found => file = (found.1, .ok found.2))
      (Scan.addFile formats role direct scan file)
      (Scan.addFile formats role direct scan file') := by
  cases h with
  | refl => exact .inl rfl
  | archive hpath hsame =>
    unfold Scan.addFile
    simp only [hpath]
    apply hsame.agree.mono
    rintro _ rfl
    rfl

/-- What a path leads to is scanned alike in both trees. -/
theorem Relisted.agree (h : Relisted formats "" tree tree') (role : ScanRole)
    (scan : Scan) (path : String) :
    Agree formats (tree.Reaches path) (Scan.addPath formats tree role scan path)
      (Scan.addPath formats tree' role scan path) := by
  unfold Scan.addPath
  obtain ⟨cause, hget, hget'⟩ | ⟨content, content', hget, hget', hsame⟩ |
    ⟨entries, entries', hget, hget', hsame⟩ := h.get path
  · rw [hget, hget']
    exact .inl rfl
  · rw [hget, hget']
    apply (hsame.agree role true scan).mono
    rintro ⟨place, archive⟩ hfile
    cases hfile
    exact ⟨_, [], hget, .file, rfl⟩
  · rw [hget, hget']
    apply Agree.foldlM (hsame.leaves rfl)
    intro scan file hfile file' hsame
    apply (hsame.agree role false scan).mono
    rintro ⟨place, archive⟩ rfl
    obtain ⟨names, hholds, hplace⟩ := FileTree.holds_of_mem_leaves hfile
    exact ⟨_, names, hget, hholds, hplace⟩

end Trees

/-- The order of listings shows in one case only. Of two trees that list and store the
same in whatever orders, and two class paths of the same paths, scans have the same
outcome, artifacts, classes and errors alike; or both fail at an archive that some path
leads to and that has entries which fail to open for different causes, and differ in
which of the causes they report. -/
theorem collect_relisted {formats : Formats} {tree tree' : FileTree} {input : String}
    {classpath classpath' : List String} (htree : Relisted formats "" tree tree')
    (hclasspath : classpath.Perm classpath') :
    Scan.collect formats tree input classpath =
      Scan.collect formats tree' input classpath' ∨
    ∃ path archive cause cause',
      (∃ root ∈ input :: classpath, tree.Reaches root (path, archive)) ∧
      formats.Ambiguous archive cause cause' ∧
      Scan.collect formats tree input classpath = .error (.badArchive path cause) ∧
      Scan.collect formats tree' input classpath' =
        .error (.badArchive path cause') := by
  have hsorted : (classpath.mergeSort fun a b => decide (a ≤ b)) =
      classpath'.mergeSort fun a b => decide (a ≤ b) :=
    mergeSort_eq_of_perm id hclasspath fun _ _ _ _ heq => heq
  change Agree formats
    (fun file => ∃ root ∈ input :: classpath, tree.Reaches root file) _ _
  unfold Scan.collect
  rw [← hsorted]
  apply ((htree.agree .input .empty input).mono _).bind
  · intro scan
    apply Agree.foldlM (List.forall₂_same.2 fun _ _ => rfl)
    rintro scan path hpath _ rfl
    apply (htree.agree .library scan path).mono
    intro file hreaches
    exact ⟨path, List.mem_cons_of_mem _ (List.mem_mergeSort.1 hpath), hreaches⟩
  · intro file hreaches
    exact ⟨input, List.mem_cons_self, hreaches⟩

/-! An archive of two entries that do not open. The header of `A.class` is not marked
as one, and that of `B.class` would be beyond the end. -/

def exampleStored : ByteArray := ⟨#[
  81, 75, 3, 4, 20, 0, 0, 0, 0, 0, 0, 0, 33, 0, 0, 0, 0, 0, 0, 0, 0, 0, 0, 0, 0, 0, 7,
  0, 0, 0, 65, 46, 99, 108, 97, 115, 115, 80, 75, 1, 2, 20, 3, 20, 0, 0, 0, 0, 0, 0,
  0, 33, 0, 0, 0, 0, 0, 0, 0, 0, 0, 0, 0, 0, 0, 7, 0, 0, 0, 0, 0, 0, 0, 0, 0, 0, 0,
  164, 1, 0, 0, 0, 0, 65, 46, 99, 108, 97, 115, 115, 80, 75, 1, 2, 20, 3, 20, 0, 0, 0,
  0, 0, 0, 0, 33, 0, 0, 0, 0, 0, 0, 0, 0, 0, 0, 0, 0, 0, 7, 0, 0, 0, 0, 0, 0, 0, 0, 0,
  0, 0, 164, 1, 15, 39, 0, 0, 66, 46, 99, 108, 97, 115, 115, 80, 75, 5, 6, 0, 0, 0, 0,
  2, 0, 2, 0, 106, 0, 0, 0, 37, 0, 0, 0, 0, 0]⟩

/-- The archive with its entries the other way round. -/
def exampleRestored : ByteArray := ⟨#[
  81, 75, 3, 4, 20, 0, 0, 0, 0, 0, 0, 0, 33, 0, 0, 0, 0, 0, 0, 0, 0, 0, 0, 0, 0, 0, 7,
  0, 0, 0, 65, 46, 99, 108, 97, 115, 115, 80, 75, 1, 2, 20, 3, 20, 0, 0, 0, 0, 0, 0,
  0, 33, 0, 0, 0, 0, 0, 0, 0, 0, 0, 0, 0, 0, 0, 7, 0, 0, 0, 0, 0, 0, 0, 0, 0, 0, 0,
  164, 1, 15, 39, 0, 0, 66, 46, 99, 108, 97, 115, 115, 80, 75, 1, 2, 20, 3, 20, 0, 0,
  0, 0, 0, 0, 0, 33, 0, 0, 0, 0, 0, 0, 0, 0, 0, 0, 0, 0, 0, 7, 0, 0, 0, 0, 0, 0, 0, 0,
  0, 0, 0, 164, 1, 0, 0, 0, 0, 65, 46, 99, 108, 97, 115, 115, 80, 75, 5, 6, 0, 0, 0,
  0, 2, 0, 2, 0, 106, 0, 0, 0, 37, 0, 0, 0, 0, 0]⟩

theorem views_exampleStored : Formats.standard.views exampleStored = .ok
    ([("A.class", .wrongMark .fileHeader), ("B.class", .cutBlock .fileHeader)].map
      unopenedView) :=
  views_of_unopened (by decide +kernel)

theorem views_exampleRestored : Formats.standard.views exampleRestored = .ok
    ([("B.class", .cutBlock .fileHeader), ("A.class", .wrongMark .fileHeader)].map
      unopenedView) :=
  views_of_unopened (by decide +kernel)

theorem sameArchive_example :
    Formats.standard.SameArchive exampleStored exampleRestored where
  size_eq := rfl
  views_perm := ⟨_, _, views_exampleStored, views_exampleRestored, .swap .., by decide⟩

/-- A directory that lists the archive and another directory, both ways round. -/
theorem relisted_example :
    Relisted .standard ""
      (.directory [("j.jar", .file exampleStored), ("lib", .directory [])])
      (.directory [("lib", .directory []), ("j.jar", .file exampleRestored)]) := by
  apply @Relisted.directory _ _ [("j.jar", .file exampleStored, .file exampleRestored),
    ("lib", .directory [], .directory [])]
  · decide
  · decide
  · intro pair hpair
    rw [List.mem_cons, List.mem_singleton] at hpair
    obtain rfl | rfl := hpair
    · exact .archive (by decide) sameArchive_example
    · exact @Relisted.directory _ _ [] [] (by simp) (by simp) (by simp) (.refl _)
  · exact .swap ..

theorem collect_relisted_both_ways :
    Relisted .standard ""
      (.directory [("j.jar", .file exampleStored), ("lib", .directory [])])
      (.directory [("lib", .directory []), ("j.jar", .file exampleRestored)]) ∧
    ["j.jar", "."].Perm [".", "j.jar"] ∧
    Agree .standard
      (fun file => ∃ root ∈ ["lib", "j.jar", "."],
        (FileTree.directory
          [("j.jar", .file exampleStored), ("lib", .directory [])]).Reaches
          root file)
      (Scan.ofPaths
        (.directory [("j.jar", .file exampleStored), ("lib", .directory [])])
        "lib" ["j.jar", "."])
      (Scan.ofPaths
        (.directory [("lib", .directory []), ("j.jar", .file exampleRestored)])
        "lib" [".", "j.jar"]) :=
  ⟨relisted_example, .swap .., collect_relisted relisted_example (.swap ..)⟩

/-- A tree that has nothing but an archive. -/
def archiveTree (archive : ByteArray) : FileTree :=
  .directory [("j.jar", .file archive)]

theorem relisted_archiveTree :
    Relisted .standard "" (archiveTree exampleStored)
      (archiveTree exampleRestored) := by
  apply @Relisted.directory _ _ [("j.jar", .file exampleStored, .file exampleRestored)]
  · decide
  · decide
  · intro pair hpair
    rw [List.mem_singleton] at hpair
    subst hpair
    exact .archive (by decide) sameArchive_example
  · exact .refl _

theorem ofPaths_archiveTree {archive : ByteArray} {views : List EntryView}
    {cause : ArchiveError} (hviews : Formats.standard.views archive = .ok views)
    (hopened : views.forM EntryView.opened = .error cause) :
    Scan.ofPaths (archiveTree archive) "j.jar" [] =
      .error (.badArchive "j.jar" cause) := by
  have hlocate : (archiveTree archive).locate "j.jar" = .ok ["j.jar"] := by
    have hcheck : FileTree.checkPath "j.jar" = .ok () := by decide
    have hparts : Path.parts "j.jar" = ["j.jar"] := by decide
    unfold FileTree.locate
    rw [hcheck, hparts]
    rfl
  have hget : (archiveTree archive).get "j.jar" = .ok (.file archive) := by
    rw [FileTree.get_eq, hlocate]
    rfl
  have hextension : Path.extension? "j.jar" = some "jar" := by decide
  unfold Scan.ofPaths Scan.collect Scan.addPath
  rw [hget]
  unfold Scan.addFile
  simp only [hextension]
  rw [addArchive_eq hviews, hopened]
  rfl

/-- The order in which an archive stores its entries shows in the error. -/
theorem stored_order_shows :
    Relisted .standard "" (archiveTree exampleStored) (archiveTree exampleRestored) ∧
    Scan.ofPaths (archiveTree exampleStored) "j.jar" [] =
      .error (.badArchive "j.jar" (.wrongMark .fileHeader)) ∧
    Scan.ofPaths (archiveTree exampleRestored) "j.jar" [] =
      .error (.badArchive "j.jar" (.cutBlock .fileHeader)) :=
  ⟨relisted_archiveTree, ofPaths_archiveTree views_exampleStored rfl,
    ofPaths_archiveTree views_exampleRestored rfl⟩

end ClassAudit
