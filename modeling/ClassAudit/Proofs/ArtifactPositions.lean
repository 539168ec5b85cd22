import ClassAudit.Scan
import ClassAudit.Proofs.DecodedBody
import ClassAudit.Proofs.TreeFiles
import Mathlib.Data.List.Forall2

/-!
# Classes and their artifacts

A class remembers the position of an artifact, and an entry of an archive the position
of another one. Both are numbers that were the length of a list when they were noted
down, while the list went on growing, so nothing but the order of the additions makes
them right.

What artifacts are made for are origins: class files, archives, and entries of
archives. The origins that a scan meets are known without a scan (`scannedOrigins`),
from the tree and from what the archives list, in the order in which the scan goes
through them. A scan keeps up with them: whatever it adds, its artifacts, its classes
and its parents are those of the origins so far (`Collected`). Positions are never
mentioned on the way; that they are increasing, and that none is used twice, is a fact
about the list of origins alone.
-/

namespace ClassAudit

/-! ## Origins -/

/-- What an artifact is made for. -/
inductive Origin
  | classFile (path : String) (content : ByteArray)
  | archive (path : String) (content : ByteArray)
  | entry (path : String) (content : ByteArray) (listed : Archive.Entry)

namespace Origin

def isArchive : Origin → Bool
  | .archive .. => true
  | _ => false

def isEntry : Origin → Bool
  | .entry .. => true
  | _ => false

/-- The file that an origin is, or is in. -/
def file : Origin → String × ByteArray
  | .classFile path content | .archive path content | .entry path content _ =>
    (path, content)

def uri : Origin → String
  | .classFile path _ | .archive path _ => path
  | .entry path _ listed => "jar:" ++ path ++ "!/" ++ listed.name

def length : Origin → Nat
  | .classFile _ content | .archive _ content => content.size
  | .entry _ _ listed => listed.size

/-- An artifact is made for an origin. Only an entry has a parent. -/
structure Describes (origin : Origin) (artifact : Artifact) : Prop where
  uri : artifact.uri = origin.uri
  length : artifact.length = origin.length
  parent : artifact.parent.isSome = origin.isEntry

/-- The bytes of an origin hold a class. -/
def Yields (formats : Formats) (model : ClassModel) : Origin → Prop
  | .classFile _ content => formats.readClass content = .ok model
  | .archive .. => False
  | .entry _ content listed => ∃ bytes, formats.content content listed = .ok bytes ∧
    formats.readClass bytes = .ok model

end Origin

/-- The origins in a file: a class file itself, and an archive with its class
entries. -/
def fileOrigins (formats : Formats) (file : String × Except FileError ByteArray) :
    List Origin :=
  match Path.extension? file.1, file.2 with
  | some "class", .ok content => [.classFile file.1 content]
  | some "jar", .ok content =>
    .archive file.1 content ::
      (Scan.classEntries ((formats.entries content).toOption.getD [])).map
        (.entry file.1 content)
  | _, _ => []

/-- The origins below a path. -/
def pathOrigins (formats : Formats) (tree : FileTree) (path : String) : List Origin :=
  match tree.get path with
  | .ok found => (found.leaves path).flatMap (fileOrigins formats)
  | .error _ => []

/-- The paths that a scan goes through for a role. -/
def ScanRole.roots (input : String) (classpath : List String) : ScanRole → List String
  | .input => [input]
  | .library => classpath.mergeSort fun a b => decide (a ≤ b)

/-- The origins that a scan meets for a role. -/
def roleOrigins (formats : Formats) (tree : FileTree) (input : String)
    (classpath : List String) (role : ScanRole) : List (ScanRole × Origin) :=
  ((role.roots input classpath).flatMap (pathOrigins formats tree)).map (role, ·)

/-- The origins that a scan meets, each with what it is scanned for. -/
def scannedOrigins (formats : Formats) (tree : FileTree) (input : String)
    (classpath : List String) : List (ScanRole × Origin) :=
  roleOrigins formats tree input classpath .input ++
    roleOrigins formats tree input classpath .library

/-! ## Collecting origins -/

/-- The classes that a scan has collected for a role. -/
def Scan.models (scan : Scan) : ScanRole → Array ClassModel
  | .input => scan.classes
  | .library => scan.libraries

@[simp] theorem Scan.artifacts_addClass (scan : Scan) (role : ScanRole)
    (model : ClassModel) : (scan.addClass role model).artifacts = scan.artifacts := by
  cases role <;> rfl

@[simp] theorem Scan.models_addArtifact (scan : Scan) (artifact : Artifact)
    (role : ScanRole) :
    (scan.addArtifact artifact).models role = scan.models role := by
  cases role <;> rfl

theorem Scan.models_addClass (scan : Scan) (role other : ScanRole)
    (model : ClassModel) : (scan.addClass role model).models other =
      if other = role then (scan.models other).push model else scan.models other := by
  cases role <;> cases other <;> rfl

/-- The origins among some that classes are read from for a role, with their
positions. -/
def classPlaces (role : ScanRole) (origins : List (ScanRole × Origin)) :
    List ((ScanRole × Origin) × Nat) :=
  origins.zipIdx.filter fun place => place.1.1 == role && !place.1.2.isArchive

/-- A class was read from an origin and remembers its position. -/
def ReadAt (formats : Formats) (place : (ScanRole × Origin) × Nat)
    (model : ClassModel) : Prop :=
  ∃ read, place.1.2.Yields formats read ∧ model = { read with artifact := place.2 }

/-- An archive stands at a position among origins, and from there on up to another
position only entries of it. -/
structure Encloses (origins : List (ScanRole × Origin)) (parent i : Nat)
    (role : ScanRole) (path : String) (content : ByteArray) : Prop where
  before : parent < i
  opening : origins[parent]? = some (role, .archive path content)
  between : ∀ j, parent < j → j < i →
    ∃ listed, origins[j]? = some (role, .entry path content listed)

/-- A scan has collected origins. -/
structure Collected (formats : Formats) (origins : List (ScanRole × Origin))
    (scan : Scan) : Prop where
  artifacts :
    List.Forall₂ Origin.Describes (origins.map Prod.snd) scan.artifacts.toList
  models : ∀ role, List.Forall₂ (ReadAt formats) (classPlaces role origins)
    (scan.models role).toList
  parents : ∀ {i role path content listed},
    origins[i]? = some (role, .entry path content listed) →
    ∃ parent artifact, scan.artifacts[i]? = some artifact ∧
      artifact.parent = some parent ∧ Encloses origins parent i role path content

section Steps

variable {formats : Formats} {origins : List (ScanRole × Origin)} {scan scan' : Scan}
  {role : ScanRole} {origin : Origin} {artifact : Artifact}

theorem classPlaces_append (other : ScanRole) :
    classPlaces other (origins ++ [(role, origin)]) =
      classPlaces other origins ++
        if role = other ∧ origin.isArchive = false then
          [((role, origin), origins.length)]
        else [] := by
  rw [classPlaces, List.zipIdx_append, List.filter_append, ← classPlaces]
  congr 1
  simp only [List.zipIdx_cons, List.zipIdx_nil, Nat.zero_add, List.filter_cons,
    List.filter_nil]
  cases origin.isArchive <;> simp

theorem Encloses.append {parent i : Nat} {path : String} {content : ByteArray}
    (h : Encloses origins parent i role path content) (hi : i ≤ origins.length)
    (more : List (ScanRole × Origin)) :
    Encloses (origins ++ more) parent i role path content where
  before := h.before
  opening := by
    have hbefore := h.before
    rw [List.getElem?_append_left (by omega)]
    exact h.opening
  between := by
    intro j hj hji
    rw [List.getElem?_append_left (by omega)]
    exact h.between j hj hji

theorem Collected.length_eq (h : Collected formats origins scan) :
    origins.length = scan.artifacts.size := by
  have hlength := h.artifacts.length_eq
  rwa [List.length_map, Array.length_toList] at hlength

/-- One more artifact, for one more origin. An entry has the archive it is in as its
parent. -/
theorem Collected.add (h : Collected formats origins scan)
    (hdescribes : origin.Describes artifact)
    (hartifacts : scan'.artifacts = scan.artifacts.push artifact)
    (hmodels : ∀ other, List.Forall₂ (ReadAt formats)
      (classPlaces other (origins ++ [(role, origin)])) (scan'.models other).toList)
    (hparent : ∀ {path content listed}, origin = .entry path content listed →
      ∃ parent, artifact.parent = some parent ∧
        Encloses origins parent origins.length role path content) :
    Collected formats (origins ++ [(role, origin)]) scan' where
  artifacts := by
    rw [hartifacts, Array.toList_push, List.map_append]
    exact List.rel_append h.artifacts (.cons hdescribes .nil)
  models := hmodels
  parents := by
    intro i other path content listed hi
    have hlength := h.length_eq
    rw [hartifacts, Array.getElem?_push]
    by_cases hlt : i < origins.length
    · rw [List.getElem?_append_left hlt] at hi
      obtain ⟨parent, found, hfound, hparent, hencloses⟩ := h.parents hi
      refine ⟨parent, found, ?_, hparent, hencloses.append (by omega) _⟩
      rw [if_neg (by omega)]
      exact hfound
    · rw [List.getElem?_append_right (by omega), List.getElem?_singleton] at hi
      split at hi
      · -- the new origin itself
        have hlast : i = origins.length := by omega
        obtain ⟨rfl, rfl⟩ := Prod.mk.inj (Option.some.inj hi)
        obtain ⟨parent, hparent, hencloses⟩ := hparent rfl
        refine ⟨parent, artifact, if_pos (by omega), hparent, ?_⟩
        rw [hlast]
        exact hencloses.append (by omega) _
      · simp at hi

theorem Collected.addArchive (h : Collected formats origins scan) (path : String)
    (content : ByteArray) (isTarget : Bool) :
    Collected formats (origins ++ [(role, .archive path content)])
      (scan.addArtifact ⟨path, content.size, none, isTarget⟩) := by
  apply h.add ⟨rfl, rfl, rfl⟩ rfl
  · intro other
    rw [classPlaces_append, if_neg (by simp [Origin.isArchive]), List.append_nil,
      Scan.models_addArtifact]
    exact h.models other
  · intro path content listed hentry
    simp at hentry

theorem Origin.Yields.not_archive {model : ClassModel}
    (h : origin.Yields formats model) : origin.isArchive = false := by
  cases origin with
  | archive => exact h.elim
  | classFile | entry => rfl

theorem Collected.load {place : String} {content : ByteArray}
    (h : Collected formats origins scan)
    (hload : scan.load formats role artifact place content = .ok scan')
    (hdescribes : origin.Describes artifact)
    (hyields : ∀ {model}, formats.readClass content = .ok model →
      origin.Yields formats model)
    (hparent : ∀ {path content listed}, origin = .entry path content listed →
      ∃ parent, artifact.parent = some parent ∧
        Encloses origins parent origins.length role path content) :
    Collected formats (origins ++ [(role, origin)]) scan' := by
  unfold Scan.load at hload
  split at hload
  · cases hload
  · rename_i model hread
    cases hload
    apply h.add hdescribes (by simp [Scan.addArtifact]) _ hparent
    intro other
    rw [classPlaces_append, Scan.models_addClass, Scan.models_addArtifact]
    by_cases hother : other = role
    · -- the class goes where its role says, with the position of its artifact
      rw [if_pos ⟨hother.symm, (hyields hread).not_archive⟩, if_pos hother,
        Array.toList_push]
      refine List.rel_append (h.models other) (.cons ⟨model, hyields hread, ?_⟩ .nil)
      rw [h.length_eq]
    · rw [if_neg (fun hrole => hother hrole.1.symm), if_neg hother, List.append_nil]
      exact h.models other

theorem Encloses.step {parent : Nat} {path : String} {content : ByteArray}
    (h : Encloses origins parent origins.length role path content)
    (listed : Archive.Entry) :
    Encloses (origins ++ [(role, .entry path content listed)]) parent
      (origins ++ [(role, Origin.entry path content listed)]).length
      role path content where
  before := by
    have hbefore := h.before
    rw [List.length_append]
    omega
  opening := (h.append (Nat.le_refl _) _).opening
  between := by
    intro j hj hji
    rw [List.length_append, List.length_singleton] at hji
    by_cases hlt : j < origins.length
    · exact (h.append (Nat.le_refl _) _).between j hj hlt
    · have hlast : j = origins.length := by omega
      exact ⟨listed, by rw [hlast, List.getElem?_concat_length]⟩

theorem mapError_eq_ok {ε ε' α : Type} {m : Except ε α} {f : ε → ε'} {a : α} :
    m.mapError f = .ok a ↔ m = .ok a := by
  cases m <;> simp [Except.mapError]

/-- Entry after entry is added while the archive before them encloses them all. -/
theorem Collected.addEntries {path : String} {content : ByteArray} {parent : Nat}
    {entries : List Archive.Entry}
    (hfold :
      entries.foldlM (Scan.addEntry formats role path content parent) scan = .ok scan')
    (h : Collected formats origins scan)
    (hencloses : Encloses origins parent origins.length role path content) :
    Collected formats
      (origins ++ (entries.map (Origin.entry path content)).map (role, ·)) scan' := by
  induction entries generalizing origins scan with
  | nil =>
    cases hfold
    simpa using h
  | cons entry rest ih =>
    rw [List.foldlM_cons] at hfold
    obtain ⟨next, hentry, hrest⟩ := bind_eq_ok.1 hfold
    obtain ⟨bytes, hbytes, hload⟩ := bind_eq_ok.1 hentry
    have hnext :
        Collected formats (origins ++ [(role, .entry path content entry)]) next := by
      apply h.load hload ⟨rfl, rfl, rfl⟩
      · intro model hread
        exact ⟨bytes, mapError_eq_ok.1 hbytes, hread⟩
      · intro path' content' listed hentry
        cases hentry
        exact ⟨parent, rfl, hencloses⟩
    have hdone := ih hrest hnext (hencloses.step entry)
    simpa [List.append_assoc] using hdone

/-- A file adds the origins in it. -/
theorem Collected.addFile {direct : Bool} {file : String × Except FileError ByteArray}
    (h : Collected formats origins scan)
    (hadd : Scan.addFile formats role direct scan file = .ok scan') :
    Collected formats (origins ++ (fileOrigins formats file).map (role, ·)) scan' := by
  obtain ⟨path, found⟩ := file
  unfold Scan.addFile at hadd
  unfold fileOrigins
  dsimp only at hadd ⊢
  split at hadd
  · -- a class file
    rename_i content hextension
    simp only [hextension]
    apply h.load hadd ⟨rfl, rfl, rfl⟩
    · exact fun hread => hread
    · intro path content listed hentry
      simp at hentry
  · cases hadd
  · -- an archive, which encloses nothing at first
    rename_i content hextension
    obtain ⟨entries, hentries, hfold⟩ := bind_eq_ok.1 hadd
    simp only [hextension, mapError_eq_ok.1 hentries]
    have hencloses : Encloses (origins ++ [(role, .archive path content)])
        scan.artifacts.size (origins ++ [(role, Origin.archive path content)]).length
        role path content := by
      rw [List.length_append, List.length_singleton, h.length_eq]
      refine ⟨by omega, ?_, by omega⟩
      rw [← h.length_eq, List.getElem?_concat_length]
    have hdone := Collected.addEntries hfold (h.addArchive path content _) hencloses
    simpa [List.append_assoc, Except.toOption] using hdone
  · cases hadd
  · -- nothing of use
    rename_i hclass _ hjar _
    split at hadd
    · cases hadd
    · cases hadd
      split
      · exact (hclass _ ‹_› rfl).elim
      · exact (hjar _ ‹_› rfl).elim
      · simpa using h

/-- What each step collects, a run of steps collects one after the other. -/
theorem Collected.foldlM {α : Type} {step : Scan → α → Except ScanError Scan}
    (found : α → List (ScanRole × Origin))
    (hstep : ∀ {origins scan scan' item}, Collected formats origins scan →
      step scan item = .ok scan' → Collected formats (origins ++ found item) scan')
    {items : List α} (h : Collected formats origins scan)
    (hfold : items.foldlM step scan = .ok scan') :
    Collected formats (origins ++ items.flatMap found) scan' := by
  induction items generalizing origins scan with
  | nil =>
    cases hfold
    simpa using h
  | cons item rest ih =>
    rw [List.foldlM_cons] at hfold
    obtain ⟨next, hitem, hrest⟩ := bind_eq_ok.1 hfold
    have hdone := ih (hstep h hitem) hrest
    rwa [List.append_assoc, ← List.flatMap_cons] at hdone

theorem fileOrigins_error (path : String) (cause : FileError) :
    fileOrigins formats (path, .error cause) = [] := by
  unfold fileOrigins
  split <;> simp_all

/-- A path adds the origins below it. -/
theorem Collected.addPath {tree : FileTree} {path : String}
    (h : Collected formats origins scan)
    (hadd : Scan.addPath formats tree role scan path = .ok scan') :
    Collected formats (origins ++ (pathOrigins formats tree path).map (role, ·))
      scan' := by
  unfold Scan.addPath at hadd
  unfold pathOrigins
  split at hadd
  · rename_i content hget
    have hdone := h.addFile hadd
    simpa [hget, FileTree.leaves] using hdone
  · rename_i directory hnot hget
    have hdone := h.foldlM (fun file => (fileOrigins formats file).map (role, ·))
      (fun h hadd => h.addFile hadd) hadd
    simpa [hget, List.map_flatMap] using hdone
  · rename_i cause hget
    have hdone := h.addFile hadd
    simpa [hget, fileOrigins_error] using hdone

theorem collected_empty : Collected formats [] .empty where
  artifacts := .nil
  models role := by cases role <;> exact .nil
  parents hi := by simp at hi

end Steps

/-- A scan collects what it meets. -/
theorem collected_of_collect {formats : Formats} {tree : FileTree} {input : String}
    {classpath : List String} {scan : Scan}
    (h : Scan.collect formats tree input classpath = .ok scan) :
    Collected formats (scannedOrigins formats tree input classpath) scan := by
  obtain ⟨scan', hinput, hclasspath⟩ := bind_eq_ok.1 h
  have hdone := (collected_empty.addPath hinput).foldlM
    (fun path => (pathOrigins formats tree path).map (ScanRole.library, ·))
    (fun h hadd => h.addPath hadd) hclasspath
  simpa [scannedOrigins, roleOrigins, ScanRole.roots, List.map_flatMap] using hdone

/-! ## Where origins come from -/

/-- An origin is what its names say, and an entry is one that its archive lists. -/
def Origin.Genuine (formats : Formats) : Origin → Prop
  | .classFile path _ => Path.extension? path = some "class"
  | .archive path _ => Path.extension? path = some "jar"
  | .entry path content listed => Path.extension? path = some "jar" ∧
    Scan.isClassEntry listed.name ∧
    ∃ entries, formats.entries content = .ok entries ∧ listed ∈ entries

theorem mem_classEntries {entries : List Archive.Entry} {entry : Archive.Entry} :
    entry ∈ Scan.classEntries entries ↔
      entry ∈ entries ∧ Scan.isClassEntry entry.name = true := by
  rw [Scan.classEntries, List.mem_mergeSort, List.mem_filter]

theorem mem_fileOrigins {formats : Formats}
    {file : String × Except FileError ByteArray} {origin : Origin}
    (h : origin ∈ fileOrigins formats file) :
    file = (origin.file.1, .ok origin.file.2) ∧ origin.Genuine formats := by
  obtain ⟨path, found⟩ := file
  unfold fileOrigins at h
  split at h
  · rename_i content hextension hfound
    rw [List.mem_singleton] at h
    subst h
    exact ⟨Prod.ext rfl hfound, hextension⟩
  · rename_i content hextension hfound
    rw [List.mem_cons, List.mem_map] at h
    obtain rfl | ⟨entry, hentry, rfl⟩ := h
    · exact ⟨Prod.ext rfl hfound, hextension⟩
    · refine ⟨Prod.ext rfl hfound, hextension, (mem_classEntries.1 hentry).2, ?_⟩
      cases hentries : formats.entries content with
      | error cause => simp [hentries, Except.toOption, Scan.classEntries] at hentry
      | ok entries =>
        rw [hentries] at hentry
        exact ⟨entries, rfl, (mem_classEntries.1 hentry).1⟩
  · simp at h

theorem mem_pathOrigins {formats : Formats} {tree : FileTree} {path : String}
    {origin : Origin} (h : origin ∈ pathOrigins formats tree path) :
    tree.Reaches path origin.file ∧ origin.Genuine formats := by
  unfold pathOrigins at h
  split at h
  · rename_i found hget
    obtain ⟨file, hfile, horigin⟩ := List.mem_flatMap.1 h
    obtain ⟨rfl, hgenuine⟩ := mem_fileOrigins horigin
    obtain ⟨names, hholds, hpath⟩ := FileTree.holds_of_mem_leaves hfile
    exact ⟨⟨found, names, hget, hholds, hpath⟩, hgenuine⟩
  · simp at h

theorem mem_roleOrigins {formats : Formats} {tree : FileTree} {input : String}
    {classpath : List String} {role other : ScanRole} {origin : Origin}
    (h : (other, origin) ∈ roleOrigins formats tree input classpath role) :
    other = role ∧
      (∃ root ∈ role.roots input classpath, tree.Reaches root origin.file) ∧
      origin.Genuine formats := by
  obtain ⟨found, hfound, heq⟩ := List.mem_map.1 h
  obtain ⟨rfl, rfl⟩ := Prod.mk.inj heq
  obtain ⟨root, hroot, horigin⟩ := List.mem_flatMap.1 hfound
  obtain ⟨hreaches, hgenuine⟩ := mem_pathOrigins horigin
  exact ⟨rfl, ⟨root, hroot, hreaches⟩, hgenuine⟩

theorem mem_scannedOrigins {formats : Formats} {tree : FileTree} {input : String}
    {classpath : List String} {role : ScanRole} {origin : Origin}
    (h : (role, origin) ∈ scannedOrigins formats tree input classpath) :
    (∃ root ∈ role.roots input classpath, tree.Reaches root origin.file) ∧
      origin.Genuine formats := by
  obtain h | h := List.mem_append.1 h <;>
  · obtain ⟨rfl, hfound⟩ := mem_roleOrigins h
    exact hfound

/-! ## Positions -/

theorem filter_zipIdx_of_ne (role : ScanRole) (origins : List (ScanRole × Origin))
    (n : Nat) (h : ∀ place ∈ origins, place.1 ≠ role) :
    ((origins.zipIdx n).filter fun place =>
      place.1.1 == role && !place.1.2.isArchive) =
      [] := by
  rw [List.filter_eq_nil_iff]
  intro place hplace
  have hne := h place.1 (List.fst_mem_of_mem_zipIdx hplace)
  simp [hne]

/-- Where the origins of the input come before the others, so do their classes. -/
theorem classPlaces_sublist {inputs libraries : List (ScanRole × Origin)}
    (hinputs : ∀ place ∈ inputs, place.1 = .input)
    (hlibraries : ∀ place ∈ libraries, place.1 = .library) :
    (classPlaces .input (inputs ++ libraries) ++
      classPlaces .library (inputs ++ libraries)).Sublist
        (inputs ++ libraries).zipIdx := by
  have hnone := filter_zipIdx_of_ne .input libraries (0 + inputs.length)
    fun place hplace => by simp [hlibraries place hplace]
  have hnone' := filter_zipIdx_of_ne .library inputs 0
    fun place hplace => by simp [hinputs place hplace]
  unfold classPlaces
  rw [List.zipIdx_append, List.filter_append, List.filter_append, hnone, hnone',
    List.append_nil, List.nil_append]
  exact List.filter_sublist.append List.filter_sublist

theorem length_classPlaces (role : ScanRole) (origins : List (ScanRole × Origin)) :
    (classPlaces role origins).length =
      origins.countP fun place => place.1 == role && !place.2.isArchive := by
  rw [classPlaces, ← List.countP_eq_length_filter]
  conv_rhs => rw [← List.zipIdx_map_fst 0 origins, List.countP_map]
  rfl

theorem length_eq_classPlaces (origins : List (ScanRole × Origin)) :
    origins.length = (classPlaces .input origins).length +
      (classPlaces .library origins).length +
        origins.countP fun place => place.2.isArchive := by
  rw [length_classPlaces, length_classPlaces]
  induction origins with
  | nil => rfl
  | cons place rest ih =>
    obtain ⟨role, origin⟩ := place
    rw [List.length_cons, List.countP_cons, List.countP_cons, List.countP_cons, ih]
    cases role <;> cases origin.isArchive <;> simp <;> omega

theorem ReadAt.exists_place {formats : Formats}
    {places : List ((ScanRole × Origin) × Nat)} {models : List ClassModel}
    {model : ClassModel} (h : List.Forall₂ (ReadAt formats) places models)
    (hmodel : model ∈ models) :
    ∃ place ∈ places, ReadAt formats place model := by
  induction h with
  | nil => cases hmodel
  | cons hread _ ih =>
    obtain _ | ⟨_, hmodel⟩ := hmodel
    · exact ⟨_, List.mem_cons_self, hread⟩
    · obtain ⟨place, hplace, hread⟩ := ih hmodel
      exact ⟨place, List.mem_cons_of_mem _ hplace, hread⟩

theorem ReadAt.artifact {formats : Formats} {places : List ((ScanRole × Origin) × Nat)}
    {models : List ClassModel} (h : List.Forall₂ (ReadAt formats) places models) :
    models.map ClassModel.artifact = places.map fun place => (place.2 : Int) := by
  induction h with
  | nil => rfl
  | cons hread _ ih =>
    obtain ⟨read, _, rfl⟩ := hread
    rw [List.map_cons, List.map_cons, ih]

/-- A class has the position of the origin it was read from. -/
theorem Collected.exists_origin {formats : Formats}
    {origins : List (ScanRole × Origin)} {scan : Scan} {role : ScanRole}
    {model : ClassModel} (h : Collected formats origins scan)
    (hmodel : model ∈ scan.models role) :
    ∃ (i : Nat) (origin : Origin) (read : ClassModel),
      origins[i]? = some (role, origin) ∧
      origin.Yields formats read ∧ model = { read with artifact := i } := by
  obtain ⟨⟨⟨other, origin⟩, i⟩, hplace, read, hyields, rfl⟩ :=
    ReadAt.exists_place (h.models role) (Array.mem_toList_iff.2 hmodel)
  rw [classPlaces, List.mem_filter, List.mk_mem_zipIdx_iff_getElem?, Bool.and_eq_true,
    beq_iff_eq] at hplace
  obtain ⟨hget, rfl, -⟩ := hplace
  exact ⟨i, origin, read, hget, hyields, rfl⟩

theorem scannedOrigins_classPlaces_sublist (formats : Formats) (tree : FileTree)
    (input : String) (classpath : List String) :
    (classPlaces .input (scannedOrigins formats tree input classpath) ++
      classPlaces .library (scannedOrigins formats tree input classpath)).Sublist
        (scannedOrigins formats tree input classpath).zipIdx :=
  classPlaces_sublist (fun _ hplace => (mem_roleOrigins hplace).1)
    (fun _ hplace => (mem_roleOrigins hplace).1)

/-- Positions increase along classes whose origins do. -/
theorem Collected.pairwise_artifact {formats : Formats}
    {origins : List (ScanRole × Origin)} {scan : Scan}
    (h : Collected formats origins scan)
    (hsublist : (classPlaces .input origins ++ classPlaces .library origins).Sublist
      origins.zipIdx) :
    ((scan.classes ++ scan.libraries).toList.map ClassModel.artifact).Pairwise
      (· < ·) := by
  have hartifact : (scan.classes ++ scan.libraries).toList.map ClassModel.artifact =
      ((classPlaces .input origins ++ classPlaces .library origins).map Prod.snd).map
        Int.ofNat := by
    have hclasses := ReadAt.artifact (h.models .input)
    have hlibraries := ReadAt.artifact (h.models .library)
    rw [Array.toList_append, List.map_append, List.map_append, List.map_append,
      List.map_map, List.map_map]
    exact congrArg₂ _ hclasses hlibraries
  have hincreasing : (origins.zipIdx.map Prod.snd).Pairwise (· < ·) := by
    rw [List.zipIdx_map_snd]
    exact List.pairwise_lt_range'
  rw [hartifact, List.pairwise_map]
  exact (hincreasing.sublist (hsublist.map Prod.snd)).imp Int.ofNat_lt.2

/-- Classes point at their own artifacts.

The origins that a scan meets are files that its paths lead to, and entries that
archives among them list. The artifacts are those of the origins, one each. A class has
the position of the origin that it was read from. Positions increase, from the first
class of the input to the last one of the class path. The parent of an entry is the
position of the archive that it is listed in, with nothing but other entries of it in
between. And there are as many artifacts as classes and archives. -/
theorem classes_point_at_artifacts {formats : Formats} {tree : FileTree}
    {input : String} {classpath : List String} {scan : Scan}
    (h : Scan.collect formats tree input classpath = .ok scan) :
    let origins := scannedOrigins formats tree input classpath
    (∀ role origin, (role, origin) ∈ origins →
      (∃ root ∈ role.roots input classpath, tree.Reaches root origin.file) ∧
        origin.Genuine formats) ∧
    List.Forall₂ Origin.Describes (origins.map Prod.snd) scan.artifacts.toList ∧
    (∀ role, ∀ model ∈ scan.models role,
      ∃ (i : Nat) (origin : Origin) (read : ClassModel),
        origins[i]? = some (role, origin) ∧ origin.Yields formats read ∧
        model = { read with artifact := i }) ∧
    ((scan.classes ++ scan.libraries).toList.map ClassModel.artifact).Pairwise
      (· < ·) ∧
    (∀ i role path content listed,
      origins[i]? = some (role, .entry path content listed) →
      ∃ parent artifact, scan.artifacts[i]? = some artifact ∧
        artifact.parent = some parent ∧ Encloses origins parent i role path content) ∧
    scan.artifacts.size = scan.classes.size + scan.libraries.size +
      origins.countP fun place => place.2.isArchive := by
  intro origins
  have hcollected : Collected formats origins scan := collected_of_collect h
  refine ⟨fun role origin => mem_scannedOrigins, hcollected.artifacts,
    fun role model => hcollected.exists_origin,
    hcollected.pairwise_artifact (scannedOrigins_classPlaces_sublist ..),
    fun i role path content listed => hcollected.parents, ?_⟩
  rw [← hcollected.length_eq, length_eq_classPlaces origins,
    (hcollected.models .input).length_eq, (hcollected.models .library).length_eq]
  rfl

/-- Formats in which every archive lists a class and a text. -/
def exampleFormats : Formats where
  readClass _ := .ok ⟨"A", none, [], false, ⟨#[]⟩, [], -1⟩
  list _ :=
    .ok [⟨"notes.txt", false, 0, 0, 4, 4, 0⟩, ⟨"b/B.class", false, 0, 0, 7, 7, 43⟩]
  openEntry _ _ := .ok ()
  content _ _ := .ok .empty

/-- Directories with a class below them, and an archive beside them. -/
def exampleTree : FileTree :=
  .directory
    [("in", .directory [("sub", .directory [("A.class", .file .empty)])]),
      ("lib.jar", .file .empty)]

theorem classes_point_at_artifacts_beside_archive :
    ∃ scan, Scan.collect exampleFormats exampleTree "in" ["lib.jar"] = .ok scan ∧
      scan.artifacts.toList.map (fun artifact => (artifact.uri, artifact.parent)) =
        [("in/sub/A.class", none), ("lib.jar", none),
          ("jar:lib.jar!/b/B.class", some 1)] ∧
      (scan.classes ++ scan.libraries).toList.map ClassModel.artifact = [0, 2] ∧
      ((scan.classes ++ scan.libraries).toList.map ClassModel.artifact).Pairwise
        (· < ·) ∧
      scan.artifacts.size = scan.classes.size + scan.libraries.size +
        (scannedOrigins exampleFormats exampleTree "in" ["lib.jar"]).countP
          (fun place => place.2.isArchive) := by
  have heval : (Scan.collect exampleFormats exampleTree "in" ["lib.jar"]).toOption.map
      (fun scan =>
        (scan.artifacts.toList.map (fun artifact => (artifact.uri, artifact.parent)),
          (scan.classes ++ scan.libraries).toList.map ClassModel.artifact)) =
      some
        ([("in/sub/A.class", none), ("lib.jar", none),
          ("jar:lib.jar!/b/B.class", some 1)],
        [0, 2]) := by
    decide +kernel
  cases hscan : Scan.collect exampleFormats exampleTree "in" ["lib.jar"] with
  | error cause => simp [hscan, Except.toOption] at heval
  | ok scan =>
    rw [hscan] at heval
    obtain ⟨hartifacts, hpositions⟩ := Prod.mk.inj (Option.some.inj heval)
    obtain ⟨-, -, -, hincreasing, -, hcount⟩ := classes_point_at_artifacts hscan
    exact ⟨scan, rfl, hartifacts, hpositions, hincreasing, hcount⟩

end ClassAudit
