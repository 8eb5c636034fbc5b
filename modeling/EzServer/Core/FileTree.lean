import Mathlib.Data.List.AList
import Mathlib.Order.Basic

/-!
# File trees

A tree of directories and files over arbitrary names and contents. A path lists the names from the
root; an entry can only be there if the path above it is a directory, which every tree carries as a
field. Trees are compared by their entries: `t ≤ t'` if `t'` has all entries of `t` unchanged.
-/

namespace EzServer.Core

universe u v

/-- What is found at a path. -/
inductive Node (κ : Type v) where
  | directory
  | file (content : κ)
  deriving DecidableEq, Repr

/-- A finite tree; the root has the empty path. -/
structure FileTree (ν : Type u) (κ : Type v) [DecidableEq ν] where
  entries : AList fun _ : List ν => Node κ
  parents : ∀ path ∈ entries, path ≠ [] → entries.lookup path.dropLast = some .directory

namespace FileTree

variable {ν : Type u} {κ : Type v} [DecidableEq ν]

/-- What is at a path, `none` if nothing is. -/
def lookup (tree : FileTree ν κ) (path : List ν) : Option (Node κ) := tree.entries.lookup path

lemma mem_entries_of_lookup {tree : FileTree ν κ} {path : List ν} {node : Node κ}
    (h : tree.lookup path = some node) : path ∈ tree.entries :=
  AList.lookup_isSome.mp (Option.isSome_iff_exists.mpr ⟨node, h⟩)

/-- An entry is in a directory. -/
lemma lookup_parent {tree : FileTree ν κ} {path : List ν} {name : ν} {node : Node κ}
    (h : tree.lookup (path ++ [name]) = some node) : tree.lookup path = some .directory := by
  have hparent := tree.parents _ (mem_entries_of_lookup h) (by simp)
  rw [List.dropLast_concat] at hparent
  exact hparent

/-! ### Listing a directory -/

/-- The paths directly under a path. -/
def children (tree : FileTree ν κ) (path : List ν) : List (List ν) :=
  tree.entries.keys.filter fun p => p ≠ [] ∧ p.dropLast = path

/-! ### Growing -/

instance preorder : Preorder (FileTree ν κ) where
  le tree tree' := ∀ path node, tree.lookup path = some node → tree'.lookup path = some node
  le_refl _ _ _ h := h
  le_trans _ _ _ h h' path node hnode := h' path node (h path node hnode)

lemma lookup_of_le {tree tree' : FileTree ν κ} (h : tree ≤ tree') {path : List ν} {node : Node κ}
    (hnode : tree.lookup path = some node) : tree'.lookup path = some node :=
  h path node hnode

/-- An empty directory at a path, if nothing is there yet and the path above is a directory. -/
def makeDirectory (tree : FileTree ν κ) (path : List ν) : Option (FileTree ν κ) :=
  match hpath : tree.lookup path, habove : tree.lookup path.dropLast with
  | none, some .directory =>
    some {
      entries := tree.entries.insert path .directory
      parents := fun p hp hne => by
        have hparent : tree.lookup p.dropLast = some .directory := by
          rcases (AList.mem_insert _).mp hp with rfl | hp
          · exact habove
          · exact tree.parents p hp hne
        have hother : p.dropLast ≠ path := fun heq => by
          rw [heq, hpath] at hparent
          cases hparent
        rw [AList.lookup_insert_ne hother]
        exact hparent }
  | _, _ => none

/-- When a directory can be made, and what is at each path afterwards. -/
lemma makeDirectory_eq_some {tree tree' : FileTree ν κ} {path : List ν}
    (h : tree.makeDirectory path = some tree') :
    (tree.lookup path = none ∧ tree.lookup path.dropLast = some .directory) ∧
      ∀ p, tree'.lookup p = if p = path then some .directory else tree.lookup p := by
  rw [makeDirectory] at h
  split at h
  · next hpath habove =>
    refine ⟨⟨hpath, habove⟩, fun p => ?_⟩
    rw [← Option.some.inj h, lookup]
    split_ifs with heq
    · rw [heq]
      exact AList.lookup_insert _
    · exact AList.lookup_insert_ne heq
  · cases h

lemma exists_makeDirectory {tree : FileTree ν κ} {path : List ν} (hpath : tree.lookup path = none)
    (habove : tree.lookup path.dropLast = some .directory) :
    ∃ tree', tree.makeDirectory path = some tree' := by
  rw [makeDirectory]
  split
  · exact ⟨_, rfl⟩
  · next hno => exact (hno hpath habove).elim

/-- A new directory leaves all other entries as they are. -/
lemma le_makeDirectory {tree tree' : FileTree ν κ} {path : List ν}
    (h : tree.makeDirectory path = some tree') : tree ≤ tree' := by
  obtain ⟨⟨hpath, -⟩, hlookup⟩ := makeDirectory_eq_some h
  intro p node hnode
  have hother : p ≠ path := by
    rintro rfl
    rw [hpath] at hnode
    cases hnode
  rw [hlookup, if_neg hother]
  exact hnode

/-! ### Contents -/

/-- Replace the content of the file at a path; nothing else is changed. -/
def setContent (tree : FileTree ν κ) (path : List ν) (content : κ) : FileTree ν κ :=
  match h : tree.lookup path with
  | some (.file _) =>
    { entries := tree.entries.insert path (.file content)
      parents := fun p hp hne => by
        have hmem : p ∈ tree.entries := by
          rcases (AList.mem_insert _).mp hp with rfl | hp
          · exact mem_entries_of_lookup h
          · exact hp
        have hparent : tree.lookup p.dropLast = some .directory := tree.parents p hmem hne
        have hother : p.dropLast ≠ path := fun heq => by
          rw [heq, h] at hparent
          cases hparent
        rw [AList.lookup_insert_ne hother]
        exact hparent }
  | _ => tree

lemma lookup_setContent {tree : FileTree ν κ} {path : List ν} {content : κ}
    (h : tree.lookup path = some (.file content)) (new : κ) (p : List ν) :
    (tree.setContent path new).lookup p =
      if p = path then some (.file new) else tree.lookup p := by
  rw [setContent]
  split
  · rw [lookup]
    split_ifs with heq
    · rw [heq]
      exact AList.lookup_insert _
    · exact AList.lookup_insert_ne heq
  · next hno => exact absurd h (hno content)

end FileTree

end EzServer.Core
