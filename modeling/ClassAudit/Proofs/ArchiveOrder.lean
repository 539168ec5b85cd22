import ClassAudit.Scan
import ClassAudit.Proofs.TreeFiles
import Mathlib.Data.List.Forall2
import Mathlib.Data.List.Nodup

/-!
# Archives in another order

What a scan makes of an archive depends on what can be told of its entries
(`Formats.views`), not on where they are stored. Classes are read in the order of the
names, so the order of the entries does not matter to them.

It matters to what is blamed. All entries are opened before any is read, in the order
in which they are stored, so of several that do not open the first is reported
(`Formats.Ambiguous`). Outcomes that differ in this only are said to agree (`Agree`),
and agreement is carried through runs of steps.
-/

namespace ClassAudit

/-- What is sorted by keys that tell all apart comes out in one order. -/
theorem mergeSort_eq_of_perm {α : Type} (key : α → String) {l l' : List α}
    (h : l.Perm l') (hkey : ∀ a ∈ l, ∀ b ∈ l, key a = key b → a = b) :
    (l.mergeSort fun a b => decide (key a ≤ key b)) =
      l'.mergeSort fun a b => decide (key a ≤ key b) := by
  have hsorted (l : List α) :
      (l.mergeSort fun a b => decide (key a ≤ key b)).Pairwise
        fun a b => decide (key a ≤ key b) = true := by
    apply List.pairwise_mergeSort
    · intro a b c hab hbc
      rw [decide_eq_true_eq] at hab hbc ⊢
      exact String.le_trans hab hbc
    · intro a b
      simpa using String.le_total (key a) (key b)
  refine List.Perm.eq_of_pairwise ?_ (hsorted l) (hsorted l') ?_
  · intro a b ha hb hab hba
    rw [List.mem_mergeSort] at ha hb
    rw [decide_eq_true_eq] at hab hba
    exact hkey a ha b (h.mem_iff.2 hb) (String.le_antisymm hab hba)
  · exact (List.mergeSort_perm l _).trans (h.trans (List.mergeSort_perm l' _).symm)

/-! ## What can be told of an archive -/

/-- What a scan can tell of an entry of an archive. Where it is stored is not part of
that. -/
structure EntryView where
  name : String
  size : Nat
  opened : Except ArchiveError Unit
  content : Except ArchiveError ByteArray

namespace Formats

variable (formats : Formats)

def view (archive : ByteArray) (entry : Archive.Entry) : EntryView where
  name := entry.name
  size := entry.size
  opened := formats.openEntry archive entry
  content := formats.content archive entry

/-- What a scan can tell of an archive. -/
def views (archive : ByteArray) : Except ArchiveError (List EntryView) :=
  (formats.list archive).map fun entries => entries.map (formats.view archive)

/-- Two archives store the same entries, in whatever orders. -/
structure SameArchive (archive archive' : ByteArray) : Prop where
  size_eq : archive.size = archive'.size
  views_perm : ∃ views views', formats.views archive = .ok views ∧
    formats.views archive' = .ok views' ∧ views.Perm views' ∧
    (views.map EntryView.name).Nodup

/-- An archive has entries that fail to open for different causes. -/
def Ambiguous (archive : ByteArray) (cause cause' : ArchiveError) : Prop :=
  cause ≠ cause' ∧ ∃ entries, formats.list archive = .ok entries ∧
    (∃ entry ∈ entries, formats.openEntry archive entry = .error cause) ∧
    ∃ entry ∈ entries, formats.openEntry archive entry = .error cause'

end Formats

/-! ## Agreement -/

/-- Two outcomes of a scan are the same, or they blame an archive that has been come
across for one and another of the causes that its entries fail to open for. -/
def Agree (formats : Formats) (reached : String × ByteArray → Prop)
    (outcome outcome' : Except ScanError Scan) : Prop :=
  outcome = outcome' ∨ ∃ path archive cause cause', reached (path, archive) ∧
    formats.Ambiguous archive cause cause' ∧
    outcome = .error (.badArchive path cause) ∧
      outcome' = .error (.badArchive path cause')

section Agreement

variable {formats : Formats} {reached : String × ByteArray → Prop}

theorem Agree.mono {reached' : String × ByteArray → Prop}
    {outcome outcome' : Except ScanError Scan}
    (h : Agree formats reached outcome outcome')
    (hreached : ∀ file, reached file → reached' file) :
    Agree formats reached' outcome outcome' := by
  obtain rfl | ⟨path, archive, cause, cause', hfile, hrest⟩ := h
  · exact .inl rfl
  · exact .inr ⟨path, archive, cause, cause', hreached _ hfile, hrest⟩

theorem Agree.bind {outcome outcome' : Except ScanError Scan}
    {next next' : Scan → Except ScanError Scan}
    (h : Agree formats reached outcome outcome')
    (hnext : ∀ scan, Agree formats reached (next scan) (next' scan)) :
    Agree formats reached (outcome >>= next) (outcome' >>= next') := by
  obtain rfl | ⟨path, archive, cause, cause', hreached, hambiguous, rfl, rfl⟩ := h
  · cases outcome with
    | error cause => exact .inl rfl
    | ok scan => exact hnext scan
  · exact .inr ⟨path, archive, cause, cause', hreached, hambiguous, rfl, rfl⟩

/-- Runs over lists agree where their steps do. -/
theorem Agree.foldlM {α : Type} {same : α → α → Prop}
    {step step' : Scan → α → Except ScanError Scan} {items items' : List α}
    (hitems : List.Forall₂ same items items')
    (hstep : ∀ scan, ∀ item ∈ items, ∀ item', same item item' →
      Agree formats reached (step scan item) (step' scan item')) (scan : Scan) :
    Agree formats reached (items.foldlM step scan) (items'.foldlM step' scan) := by
  induction hitems generalizing scan with
  | nil => exact .inl rfl
  | cons hsame _ ih =>
    rw [List.foldlM_cons, List.foldlM_cons]
    apply (hstep scan _ List.mem_cons_self _ hsame).bind
    intro next
    exact ih
      (fun scan item hitem => hstep scan item (List.mem_cons_of_mem _ hitem)) next

end Agreement

/-! ## Scanning an archive -/

section Archives

variable {formats : Formats}

/-- Adds the class of an entry, going by what can be told of it. -/
def addView (formats : Formats) (role : ScanRole) (path : String) (parent : Nat)
    (scan : Scan) (view : EntryView) : Except ScanError Scan := do
  let content ← view.content.mapError (.badEntry path view.name)
  scan.load formats role
    ⟨"jar:" ++ path ++ "!/" ++ view.name, view.size, some parent, false⟩
    (path ++ ":" ++ view.name) content

/-- The entries that hold classes, in the order of their names. -/
def classViews (views : List EntryView) : List EntryView :=
  (views.filter fun view => Scan.isClassEntry view.name).mergeSort
    fun a b => decide (a.name ≤ b.name)

theorem classViews_map (archive : ByteArray) (entries : List Archive.Entry) :
    classViews (entries.map (formats.view archive)) =
      (Scan.classEntries entries).map (formats.view archive) := by
  rw [classViews, List.filter_map, mergeSort_map, Scan.classEntries]
  rfl

theorem forM_map_view (archive : ByteArray) (entries : List Archive.Entry) :
    (entries.map (formats.view archive)).forM EntryView.opened =
      entries.forM (formats.openEntry archive) := by
  induction entries with
  | nil => rfl
  | cons entry rest ih =>
    rw [List.map_cons, List.forM, List.forM, ih]
    rfl

theorem views_eq_ok {archive : ByteArray} {views : List EntryView}
    (h : formats.views archive = .ok views) :
    ∃ entries, formats.list archive = .ok entries ∧
      views = entries.map (formats.view archive) := by
  unfold Formats.views at h
  cases hlist : formats.list archive with
  | error cause => simp [hlist, Except.map] at h
  | ok entries =>
    rw [hlist] at h
    exact ⟨entries, rfl, (Except.ok.inj h).symm⟩

/-- An archive is scanned by what can be told of it. -/
theorem addArchive_eq {scan : Scan} {role : ScanRole} {isTarget : Bool} {path : String}
    {content : ByteArray} {views : List EntryView}
    (h : formats.views content = .ok views) :
    scan.addArchive formats role isTarget path content = (do
      (views.forM EntryView.opened).mapError (ScanError.badArchive path)
      (classViews views).foldlM (addView formats role path scan.artifacts.size)
        (scan.addArtifact ⟨path, content.size, none, isTarget⟩)) := by
  obtain ⟨entries, hlist, rfl⟩ := views_eq_ok h
  rw [forM_map_view, classViews_map, List.foldlM_map]
  unfold Scan.addArchive Formats.entries
  rw [hlist]
  change ((entries.forM (formats.openEntry content)
      >>= fun _ => pure entries).mapError _ >>=
    _) = _
  cases entries.forM (formats.openEntry content) <;> rfl

theorem exists_of_forM_opened {views : List EntryView} {cause : ArchiveError}
    (h : views.forM EntryView.opened = .error cause) :
    ∃ view ∈ views, view.opened = .error cause := by
  induction views with
  | nil => cases h
  | cons view rest ih =>
    rw [List.forM] at h
    cases hopened : view.opened with
    | error cause' =>
      rw [hopened] at h
      cases h
      exact ⟨view, List.mem_cons_self, hopened⟩
    | ok =>
      rw [hopened] at h
      obtain ⟨view, hview, hcause⟩ := ih h
      exact ⟨view, List.mem_cons_of_mem _ hview, hcause⟩

theorem opened_of_forM {views : List EntryView}
    (h : views.forM EntryView.opened = .ok ()) :
    ∀ view ∈ views, view.opened = .ok () := by
  induction views with
  | nil => simp
  | cons view rest ih =>
    rw [List.forM] at h
    cases hopened : view.opened with
    | error cause =>
      rw [hopened] at h
      cases h
    | ok =>
      rw [hopened] at h
      intro other hother
      obtain _ | ⟨_, hother⟩ := hother
      · exact hopened
      · exact ih h other hother

/-- In another order all entries open as well, or another one may be the first that
does not. -/
theorem forM_opened_of_perm {views views' : List EntryView} (h : views.Perm views') :
    views.forM EntryView.opened = views'.forM EntryView.opened ∨
      ∃ cause cause', cause ≠ cause' ∧ views.forM EntryView.opened = .error cause ∧
        views'.forM EntryView.opened = .error cause' := by
  have hok {views views' : List EntryView} (h : views.Perm views')
      {cause : ArchiveError} (hviews : views.forM EntryView.opened = .ok ()) :
      views'.forM EntryView.opened ≠ .error cause := by
    intro herror
    obtain ⟨view, hview, hcause⟩ := exists_of_forM_opened herror
    rw [opened_of_forM hviews view (h.mem_iff.2 hview)] at hcause
    cases hcause
  cases hviews : views.forM EntryView.opened with
  | ok =>
    cases hviews' : views'.forM EntryView.opened with
    | ok => exact .inl rfl
    | error cause => exact absurd hviews' (hok h hviews)
  | error cause =>
    cases hviews' : views'.forM EntryView.opened with
    | ok => exact absurd hviews (hok h.symm hviews')
    | error cause' =>
      by_cases hcause : cause = cause'
      · exact .inl (by rw [hcause])
      · exact .inr ⟨cause, cause', hcause, rfl, rfl⟩

theorem classViews_eq_of_perm {views views' : List EntryView} (h : views.Perm views')
    (hnodup : (views.map EntryView.name).Nodup) :
    classViews views = classViews views' := by
  apply mergeSort_eq_of_perm EntryView.name (h.filter _)
  intro view hview other hother
  exact List.inj_on_of_nodup_map hnodup (List.mem_of_mem_filter hview)
    (List.mem_of_mem_filter hother)

/-- Archives that store the same entries are scanned alike, unless an entry does not
open. -/
theorem Formats.SameArchive.agree {archive archive' : ByteArray} {scan : Scan}
    {role : ScanRole} {isTarget : Bool} {path : String}
    (h : formats.SameArchive archive archive') :
    Agree formats (· = (path, archive))
      (scan.addArchive formats role isTarget path archive)
      (scan.addArchive formats role isTarget path archive') := by
  obtain ⟨views, views', hviews, hviews', hperm, hnodup⟩ := h.views_perm
  rw [addArchive_eq hviews, addArchive_eq hviews', h.size_eq,
    classViews_eq_of_perm hperm hnodup]
  obtain heq | ⟨cause, cause', hne, hcause, hcause'⟩ := forM_opened_of_perm hperm
  · rw [heq]
    exact .inl rfl
  · rw [hcause, hcause']
    refine .inr ⟨path, archive, cause, cause', rfl, ⟨hne, ?_⟩, rfl, rfl⟩
    obtain ⟨view, hview, hopened⟩ := exists_of_forM_opened hcause
    obtain ⟨view', hview', hopened'⟩ := exists_of_forM_opened hcause'
    obtain ⟨entries, hlist, rfl⟩ := views_eq_ok hviews
    obtain ⟨entry, hentry, rfl⟩ := List.mem_map.1 hview
    obtain ⟨entry', hentry', rfl⟩ := List.mem_map.1 (hperm.mem_iff.2 hview')
    exact ⟨entries, hlist, ⟨entry, hentry, hopened⟩, entry', hentry', hopened'⟩

end Archives

/-! ## Entries that do not open -/

/-- What does not open has no content. -/
theorem Archive.content_of_openEntry {archive : ByteArray} {entry : Archive.Entry}
    {cause : ArchiveError} (h : Archive.openEntry archive entry = .error cause) :
    Archive.content archive entry = .error cause := by
  unfold Archive.openEntry at h
  unfold Archive.content
  cases hstart : Archive.contentStart archive entry with
  | error cause' =>
    rw [hstart] at h
    cases h
    rfl
  | ok start =>
    rw [hstart] at h
    cases h

/-- An empty entry that does not open. -/
def unopenedView (entry : String × ArchiveError) : EntryView :=
  ⟨entry.1, 0, .error entry.2, .error entry.2⟩

theorem map_view_of_unopened {archive : ByteArray} {listed : List Archive.Entry}
    {entries : List (String × ArchiveError)}
    (h : listed.map
      (fun entry => (entry.name, entry.size, Archive.openEntry archive entry)) =
      entries.map fun entry => (entry.1, 0, .error entry.2)) :
    listed.map (Formats.standard.view archive) = entries.map unopenedView := by
  induction listed generalizing entries with
  | nil =>
    cases entries with
    | nil => rfl
    | cons entry rest => cases h
  | cons entry rest ih =>
    cases entries with
    | nil => cases h
    | cons entry' rest' =>
      rw [List.map_cons, List.map_cons, List.cons.injEq, Prod.mk.injEq,
        Prod.mk.injEq] at h
      obtain ⟨⟨hname, hsize, hopened⟩, hrest⟩ := h
      rw [List.map_cons, List.map_cons, ih hrest, List.cons.injEq]
      refine ⟨?_, rfl⟩
      unfold Formats.view unopenedView
      rw [EntryView.mk.injEq]
      exact ⟨hname, hsize, hopened, Archive.content_of_openEntry hopened⟩

theorem views_of_unopened {archive : ByteArray}
    {entries : List (String × ArchiveError)}
    (h : (Archive.list archive).map (fun listed => listed.map fun entry =>
        (entry.name, entry.size, Archive.openEntry archive entry)) =
      .ok (entries.map fun entry => (entry.1, 0, .error entry.2))) :
    Formats.standard.views archive = .ok (entries.map unopenedView) := by
  unfold Formats.views
  change (Archive.list archive).map _ = _
  cases hlist : Archive.list archive with
  | error cause =>
    rw [hlist] at h
    cases h
  | ok listed =>
    rw [hlist] at h
    exact congrArg Except.ok (map_view_of_unopened (Except.ok.inj h))

end ClassAudit
