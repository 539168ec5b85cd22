import ClassAudit.Files.Path

/-!
# Names and paths

A name stands between two slashes of a path. The path of an entry ends with the name of
the entry, whatever the directory is called, so the kind of a file is decided by its
name alone; and entries with different names have different paths.
-/

namespace ClassAudit.Path

/-- A name that an entry of a directory can have. -/
def IsName (name : String) : Prop :=
  name ≠ "" ∧ name ≠ "." ∧ name ≠ ".." ∧ '/' ∉ name.toList

instance : DecidablePred IsName := fun _ => inferInstanceAs (Decidable (_ ∧ _))

/-- What stands between the slashes of text, without the nothings. -/
theorem pieces_eq_append {path : String} {front : List Char} {back : String}
    (h : path.toList = front ++ '/' :: back.toList) :
    pieces path = pieces (String.ofList front) ++ pieces back := by
  unfold pieces
  rw [h, List.splitOn_append_cons_self, List.map_append, List.filter_append,
    String.toList_ofList]

theorem pieces_of_isName {name : String} (h : IsName name) : pieces name = [name] := by
  unfold pieces
  rw [List.splitOn_eq_singleton h.2.2.2, List.map_singleton, String.ofList_toList]
  simp [h.1]

theorem pieces_join (directory : String) {name : String} (h : IsName name) :
    pieces (join directory name) = pieces directory ++ [name] := by
  unfold join
  split
  · rename_i hslash
    -- the slash at the end of the directory is the one between it and the name
    obtain ⟨front, hfront⟩ := List.getLast?_eq_some_iff.1 hslash
    have hdirectory : pieces directory = pieces (String.ofList front) ++ pieces "" :=
      pieces_eq_append hfront
    have hpath : (directory ++ name).toList = front ++ '/' :: name.toList := by
      rw [String.toList_append, hfront, List.append_assoc, List.singleton_append]
    rw [pieces_eq_append hpath, hdirectory, pieces_of_isName h]
    simp [pieces]
  · have hpath : (directory ++ "/" ++ name).toList = directory.toList
        ++ '/' :: name.toList := by
      simp [String.toList_append]
    rw [pieces_eq_append hpath, String.ofList_toList, pieces_of_isName h]

/-- The last piece of a path is its file name if it is a name. -/
theorem fileName?_of_getLast? {path name : String} (h : IsName name)
    (hlast : (pieces path).getLast? = some name) : fileName? path = some name := by
  have hcomparable : (comparable path).getLast? = some name := by
    unfold comparable
    obtain ⟨front, hfront⟩ := List.getLast?_eq_some_iff.1 hlast
    cases front with
    | nil => simp [hfront]
    | cons first rest =>
      have hkept : [name].filter (· != ".") = [name] := by simp [h.2.1]
      rw [hfront, List.cons_append]
      dsimp only
      rw [List.filter_append, hkept, ← List.cons_append, List.getLast?_concat]
  unfold fileName?
  rw [hcomparable]
  split
  · rename_i hdot
    exact absurd (Option.some.inj hdot) h.2.1
  · rename_i hdots
    exact absurd (Option.some.inj hdots) h.2.2.1
  · rfl

/-- The last piece of a path decides on its extension. -/
theorem extension?_of_getLast? {path name : String} (h : IsName name)
    (hlast : (pieces path).getLast? = some name) :
    extension? path = extension? name := by
  have hname : fileName? name = some name :=
    fileName?_of_getLast? h (by rw [pieces_of_isName h]; rfl)
  unfold extension?
  rw [fileName?_of_getLast? h hlast, hname]

theorem extension?_join (directory : String) {name : String} (h : IsName name) :
    extension? (join directory name) = extension? name :=
  extension?_of_getLast? h (by rw [pieces_join directory h, List.getLast?_concat])

theorem join_injective (directory : String) : Function.Injective (join directory) := by
  intro name name' h
  unfold join at h
  rw [← String.toList_inj] at h ⊢
  split at h <;> simpa using h

end ClassAudit.Path
