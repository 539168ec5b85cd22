import ClassAudit.Proofs.Flyweight

/-!
# What a failed resolution leaves behind

An array is placed in several steps: its class is held and placed, arrays over the
types above are held, and edges to them are added. If the class turns out to be
missing, none of that may be left half done, since an array with some of its edges
would later be searched like one with all of them.

Two facts make it so. The class of an array is held as long as the array is, so
holding it once more changes nothing, and it is placed before any edge is added. What a
failure does to a repository is therefore a sequence of marks (`Marks.trans`), one on
the class and one on the array, and a mark is put only where nothing was tried before.
-/

namespace ClassAudit

namespace TypeRepository

variable {cause : ClassNotFound} {may : TypeId → Prop} {r r' r'' : TypeRepository}
  {id : TypeId}

/-- The second repository has the types of the first with all that is known of them,
except that some which `may` be marked, and for which nothing was tried, have
failed. -/
structure Marks (cause : ClassNotFound) (may : TypeId → Prop)
    (r r' : TypeRepository) : Prop where
  size : r'.size = r.size
  nodes : ∀ j node, r.node? j = some node →
    r'.node? j = some node ∨
      may j ∧ node.resolution = .unresolved ∧
        r'.node? j = some { node with resolution := .failed cause }

theorem Marks.refl (cause : ClassNotFound) (may : TypeId → Prop)
    (r : TypeRepository) : Marks cause may r r :=
  ⟨rfl, fun _ _ h => .inl h⟩

/-- Nothing is marked twice, since a mark says that something was tried. -/
theorem Marks.trans (h : Marks cause may r r') (h' : Marks cause may r' r'') :
    Marks cause may r r'' where
  size := h'.size.trans h.size
  nodes := by
    intro j node hnode
    rcases h.nodes j node hnode with hsame | ⟨hmay, hresolution, hmarked⟩
    · exact h'.nodes j node hsame
    · rcases h'.nodes j _ hmarked with hsame | ⟨_, hagain, _⟩
      · exact .inr ⟨hmay, hresolution, hsame⟩
      · cases hagain

theorem Marks.mono {may' : TypeId → Prop} (h : Marks cause may r r')
    (himp : ∀ j, may j → may' j) : Marks cause may' r r' where
  size := h.size
  nodes := fun j node hnode =>
    (h.nodes j node hnode).imp_right fun ⟨hmay, hmarked⟩ => ⟨himp j hmay, hmarked⟩

theorem size_update (r : TypeRepository) (id : TypeId) (change : TypeNode → TypeNode) :
    (r.update id change).size = r.size := by
  simp [size, update]

theorem marks_setResolution {node : TypeNode} (hmay : may id)
    (hnode : r.node? id = some node) (hresolution : node.resolution = .unresolved) :
    Marks cause may r (r.setResolution id (.failed cause)) where
  size := size_update r id _
  nodes := by
    intro j other hother
    rw [setResolution, node?_update]
    split
    · next hid =>
        subst hid
        obtain rfl : node = other := Option.some.inj (hnode.symm.trans hother)
        exact .inr ⟨hmay, hresolution, by rw [hnode, Option.map_some]⟩
    · exact .inl hother

/-- Holding a type that is held changes nothing. -/
theorem hold_of_type? {type : JavaType} (h : r.type? id = some type) :
    ∃ j, r.hold type = (j, r) ∧ r.type? j = some type := by
  unfold hold
  split
  · next j hj => exact ⟨j, rfl, find?_eq_some hj⟩
  · next hnone => exact absurd h (find?_eq_none hnone id)

/-- The class of the array at the second position is at the first one. -/
def ElementAt (r : TypeRepository) (j id : TypeId) : Prop :=
  ∃ dimensions name, dimensions ≠ 0 ∧ r.type? id = some ⟨dimensions, .named name⟩ ∧
    r.type? j = some (.named name)

/-- The difference that a failure at a position makes. -/
structure Failed (cause : ClassNotFound) (id : TypeId) (r r' : TypeRepository) :
    Prop where
  /-- The type has failed, and perhaps its class with it. All else is as before. -/
  marks : Marks cause (fun j => j = id ∨ r.ElementAt j id) r r'
  failed : ∃ node, r'.node? id = some node ∧ node.resolution = .failed cause

end TypeRepository

open Relation TypeRepository

namespace TypeContext

variable {σ : Type} {c c' : TypeContext σ} {id : TypeId} {cause : ClassNotFound}

/-- An outcome that is an error is kept as that error, and nothing else is noted. -/
theorem settle_eq_error {type : JavaType} {outcome : Except ClassNotFound Unit}
    (h : c.settle id type outcome = (.error cause, c')) :
    outcome = .error cause ∧
      c'.repository = c.repository.setResolution id (.failed cause) := by
  cases outcome with
  | ok => cases h
  | error =>
      cases h
      exact ⟨rfl, rfl⟩

theorem node?_settle_error {type : JavaType} {outcome : Except ClassNotFound Unit}
    {node : TypeNode} (hnode : c.repository.node? id = some node)
    (h : c.settle id type outcome = (.error cause, c')) :
    ∃ node, c'.repository.node? id = some node ∧ node.resolution = .failed cause := by
  rw [(settle_eq_error h).2, setResolution, node?_update, if_pos rfl, hnode]
  exact ⟨_, rfl, rfl⟩

theorem eq_error_of_map {α : Type} {f : Unit → α}
    {answer : Except ClassNotFound Unit × TypeContext σ}
    (h : (answer.1.map f, answer.2) = (.error cause, c')) :
    answer = (.error cause, c') := by
  obtain ⟨outcome, after⟩ := answer
  cases outcome with
  | ok => cases h
  | error =>
      cases h
      rfl

variable [ClassSource σ]

theorem askClass_eq_error {name : String}
    (h : c.askClass id name = (.error cause, c')) : c'.repository = c.repository := by
  unfold askClass at h
  split at h
  · cases h
  · cases h
    rfl

/-- A class that cannot be placed is marked, unless it was before. -/
theorem resolveClass_marks {name : String} {node : TypeNode}
    (hnode : c.repository.node? id = some node)
    (h : c.resolveClass id name = (.error cause, c')) :
    Marks cause (· = id) c.repository c'.repository ∧
      ∃ node, c'.repository.node? id = some node ∧
        node.resolution = .failed cause := by
  unfold resolveClass at h
  rw [hnode, Option.map_some] at h
  split at h
  · cases h
  · cases h
  · next hfailed =>
      cases h
      exact ⟨.refl _ _ _, node, hnode, Option.some.inj hfailed⟩
  · next hunresolved =>
      cases hask : c.askClass id name with
      | mk outcome asked =>
          rw [hask] at h
          obtain ⟨rfl, hsettled⟩ := settle_eq_error h
          have hasked := askClass_eq_error hask
          refine ⟨?_, node?_settle_error (hasked ▸ hnode) h⟩
          rw [hsettled, hasked]
          exact marks_setResolution rfl hnode (Option.some.inj hunresolved)

/-- A failure to place an array over a class is one to place the class. The array is
as it was. -/
theorem deriveArray_marks {dimensions : Nat} {name : String} {element : TypeId}
    (helement : c.repository.type? element = some (.named name))
    (h : c.deriveArray id dimensions name = (.error cause, c')) :
    Marks cause (fun j => c.repository.type? j = some (.named name))
      c.repository c'.repository := by
  -- The class is held already, so holding it is no change.
  obtain ⟨j, hheld, hj⟩ := hold_of_type? helement
  have hintern : c.intern (.named name) = (j, c) := by
    rw [intern, TypeRepository.intern, if_pos (by rfl), hheld]
  obtain ⟨node, hnode, _⟩ := type?_eq_some.1 hj
  rw [deriveArray, hintern] at h
  dsimp only at h
  split at h
  · next hclass =>
      cases h
      refine (resolveClass_marks hnode hclass).1.mono ?_
      rintro _ rfl
      exact hj
  · split at h <;> cases h

theorem resolveArray_marks {type : JavaType} {element : TypeId}
    (helement : c.repository.type? element = some ⟨0, type.element⟩)
    (h : c.resolveArray id type = (.error cause, c')) :
    ∃ name, type.element = .named name ∧
      Marks cause (fun j => c.repository.type? j = some (.named name))
        c.repository c'.repository := by
  unfold resolveArray at h
  dsimp only at h
  split at h
  · cases h
  · next name hname =>
      rw [hname] at helement
      split at h
      · cases h
      · exact ⟨name, hname, deriveArray_marks helement h⟩

/-- An array whose class cannot be placed is marked after its class. -/
theorem settle_array_failed {node : TypeNode} {outcome : Except ClassNotFound Unit}
    {d : TypeContext σ} (hc : c.repository.Kept)
    (hnode : c.repository.node? id = some node)
    (hdimensions : node.type.dimensions ≠ 0)
    (hresolution : node.resolution = .unresolved)
    (harray : c.resolveArray id node.type = (outcome, d))
    (h : d.settle id node.type outcome = (.error cause, c')) :
    Failed cause id c.repository c'.repository := by
  obtain ⟨rfl, hsettled⟩ := settle_eq_error h
  have htype := type?_of_node? hnode
  obtain ⟨element, _, helement⟩ := hc.elements id node.type htype hdimensions
  obtain ⟨name, hname, hmarks⟩ := resolveArray_marks helement harray
  have hsame : d.repository.node? id = some node := by
    rcases hmarks.nodes id node hnode with hsame | ⟨hclass, _⟩
    · exact hsame
    · rw [node_type hclass hnode] at hdimensions
      exact absurd rfl hdimensions
  refine ⟨?_, node?_settle_error hsame h⟩
  rw [hsettled]
  refine (hmarks.mono ?_).trans (marks_setResolution (.inl rfl) hsame hresolution)
  intro j hj
  exact .inr ⟨node.type.dimensions, name, hdimensions, by rw [htype, ← hname], hj⟩

theorem resolve_failed (hc : c.repository.Kept)
    (h : c.resolve id = (.error cause, c')) :
    Failed cause id c.repository c'.repository := by
  unfold resolve at h
  split at h
  · cases h
  · next node hnode =>
      split at h
      · cases h
      · next hfailed =>
          cases h
          exact ⟨.refl _ _ _, node, hnode, hfailed⟩
      · next hresolution =>
          split at h
          · cases h
          · obtain ⟨hmarks, hfailed⟩ := resolveClass_marks hnode h
            exact ⟨hmarks.mono fun _ => .inl, hfailed⟩
          · next hdimensions =>
              have hpositive : node.type.dimensions ≠ 0 := by
                rw [hdimensions]
                exact Nat.succ_ne_zero _
              exact settle_array_failed hc hnode hpositive hresolution rfl h

/-- A question about the place of a type in the hierarchy that ends in an error, and
the context that it leaves. -/
inductive Fails (c : TypeContext σ) (id : TypeId) (cause : ClassNotFound) :
    TypeContext σ → Prop
  | resolve {c' : TypeContext σ} (h : c.resolve id = (.error cause, c')) :
      Fails c id cause c'
  | superclass {c' : TypeContext σ} (h : c.superclass? id = (.error cause, c')) :
      Fails c id cause c'
  | interfaces {c' : TypeContext σ} (h : c.interfaces id = (.error cause, c')) :
      Fails c id cause c'
  | directSupertypes {c' : TypeContext σ}
      (h : c.directSupertypes id = (.error cause, c')) : Fails c id cause c'

/-- All questions fail because resolving fails. -/
theorem Fails.resolve_eq (h : Fails c id cause c') :
    c.resolve id = (.error cause, c') := by
  cases h with
  | resolve h => exact h
  | superclass h | interfaces h | directSupertypes h => exact eq_error_of_map h

end TypeContext

/-- Whatever was done with a repository, and whoever is asked: a question about the
place of a type that ends in an error leaves all types where they are, and all that is
known of them, edges, ancestors and flags, as it is. Only the type itself, and its
class if it is an array, can have been marked as failed with that very error, and only
if nothing was tried for them before. -/
theorem failed_resolution_marks {σ τ : Type} [ClassSource σ] [ClassSource τ]
    {source : σ} {c : TypeContext σ} (hc : TypeContext.Run (.ofSource source) c)
    (asked : τ) (log : Array Event) {id : TypeId} {cause : ClassNotFound}
    {c' : TypeContext τ}
    (h : TypeContext.Fails ⟨c.repository, asked, log⟩ id cause c') :
    Failed cause id c.repository c'.repository := by
  have hkept : c.repository.Kept := TypeContext.Run.kept hc
  exact TypeContext.resolve_failed (c := ⟨c.repository, asked, log⟩) hkept h.resolve_eq

/-- A source that knows no class, and calls the same one missing whatever it is
asked. -/
structure Scapegoat where
  blamed : ClassNotFound

instance : ClassSource Scapegoat where
  ask source _ := (none, source)
  mentions _ := 0
  blames source _ := source.blamed

/-- Arrays of arrays of ferrets are held, and it is stated that ferrets are no
interface. -/
def ferrets : TypeContext Classpath :=
  let context := TypeContext.ofSource Classpath.core
  let context := (context.request (.signature "[[LFerret;")).2
  context.withRepository (·.markInterface 1 false)

/-- The superclass of the arrays is asked for where a weasel is blamed: ferrets have
failed with their arrays, for want of a weasel. -/
theorem failed_resolution_marks_ferrets :
    let c : TypeContext Scapegoat := ⟨ferrets.repository, ⟨⟨"Weasel"⟩⟩, #[]⟩
    let c' := (c.superclass? 2).2
    TypeContext.Run (.ofSource Classpath.core) ferrets ∧ c.Fails 2 ⟨"Weasel"⟩ c' ∧
      Failed ⟨"Weasel"⟩ 2 ferrets.repository c'.repository ∧
      ∃ node, ferrets.repository.node? 1 = some node ∧
        node.interfaceFlag = some false ∧
        c'.repository.node? 1 =
          some { node with resolution := .failed ⟨"Weasel"⟩ } := by
  intro c c'
  have hrun : TypeContext.Run (.ofSource Classpath.core) ferrets :=
    (ReflTransGen.single (.perform (.request _) trivial)).tail
      (.perform (.markInterface 1 false) trivial)
  have herror : (c.superclass? 2).1 = .error ⟨"Weasel"⟩ := by decide +kernel
  have hfails : c.Fails 2 ⟨"Weasel"⟩ c' := .superclass (Prod.ext herror rfl)
  have hfailed := failed_resolution_marks hrun (Scapegoat.mk ⟨"Weasel"⟩) #[] hfails
  refine ⟨hrun, hfails, hfailed, ?_⟩
  have hchanged : (c'.repository.node? 1).map TypeNode.resolution ≠
      (ferrets.repository.node? 1).map TypeNode.resolution := by decide +kernel
  have hflag : (ferrets.repository.node? 1).map TypeNode.interfaceFlag =
      some (some false) := by decide +kernel
  obtain ⟨node, hnode, hnone⟩ := Option.map_eq_some_iff.1 hflag
  rcases hfailed.marks.nodes 1 node hnode with hsame | ⟨_, _, hmarked⟩
  · exact absurd (by rw [hsame, hnode]) hchanged
  · exact ⟨node, hnode, hnone, hmarked⟩

end ClassAudit
