import EzServer.Core.FileTree
import Mathlib.Data.List.Infix

/-!
# Removing and moving

An entry without anything below it can be removed, and a subtree can be moved to a place where
nothing is in the way. Both leave a tree whose entries were all there before, if under other paths;
`Descends` says so of two trees, and composes.
-/

namespace EzServer.Core

universe u v

namespace Node

variable {κ : Type v}

def isDirectory : Node κ → Bool
  | .directory => true
  | .file _ => false

end Node

namespace FileTree

variable {ν : Type u} {κ : Type v} [DecidableEq ν] {tree tree' : FileTree ν κ}

/-! ### What is below a path -/

lemma mem_children {above p : List ν} :
    p ∈ tree.children above ↔ p ∈ tree.entries ∧ p ≠ [] ∧ p.dropLast = above := by
  rw [children, List.mem_filter, AList.mem_keys]
  simp

/-- Everything above an entry is a directory. -/
lemma lookup_of_lookup_append {path rest : List ν} {node : Node κ}
    (h : tree.lookup (path ++ rest) = some node) (hrest : rest ≠ []) :
    tree.lookup path = some .directory := by
  induction rest using List.reverseRecOn generalizing node with
  | nil => exact absurd rfl hrest
  | append_singleton rest name ih =>
    rw [← List.append_assoc] at h
    have habove := lookup_parent h
    by_cases hnil : rest = []
    · rwa [hnil, List.append_nil] at habove
    · exact ih habove hnil

/-- Nothing is below a path where nothing is. -/
lemma lookup_eq_none_of_isPrefix {path p : List ν} (h : tree.lookup path = none)
    (hp : path <+: p) : tree.lookup p = none := by
  obtain ⟨rest, rfl⟩ := hp
  by_cases hrest : rest = []
  · rwa [hrest, List.append_nil]
  · rw [Option.eq_none_iff_forall_ne_some]
    intro node hnode
    rw [lookup_of_lookup_append hnode hrest] at h
    cases h

/-- A path without children has nothing below it. -/
lemma eq_of_isPrefix {path p : List ν} {node : Node κ} (hleaf : tree.children path = [])
    (h : tree.lookup p = some node) (hp : path <+: p) : p = path := by
  obtain ⟨rest, rfl⟩ := hp
  cases rest with
  | nil => rw [List.append_nil]
  | cons name rest =>
    have hchild : ∃ node', tree.lookup (path ++ [name]) = some node' := by
      by_cases hrest : rest = []
      · rw [hrest] at h
        exact ⟨node, h⟩
      · rw [← List.singleton_append, ← List.append_assoc] at h
        exact ⟨_, lookup_of_lookup_append h hrest⟩
    obtain ⟨node', hnode'⟩ := hchild
    have hmem : path ++ [name] ∈ tree.children path :=
      mem_children.mpr ⟨mem_entries_of_lookup hnode', by simp, by simp⟩
    rw [hleaf] at hmem
    cases hmem

/-! ### Removing -/

/-- Take away an entry that has no children. -/
def remove (tree : FileTree ν κ) (path : List ν) : Option (FileTree ν κ) :=
  if h : path ≠ [] ∧ tree.children path = [] then
    some {
      entries := tree.entries.erase path
      parents := fun p hp hne => by
        obtain ⟨-, hmem⟩ := AList.mem_erase.mp hp
        have hother : p.dropLast ≠ path := fun heq => by
          have hchild : p ∈ tree.children path := mem_children.mpr ⟨hmem, hne, heq⟩
          rw [h.2] at hchild
          cases hchild
        rw [AList.lookup_erase_ne hother]
        exact tree.parents p hmem hne }
  else none

lemma remove_eq_some {path : List ν} (h : tree.remove path = some tree') :
    (path ≠ [] ∧ tree.children path = []) ∧
      ∀ p, tree'.lookup p = if p = path then none else tree.lookup p := by
  rw [remove] at h
  split_ifs at h with hcan
  refine ⟨hcan, fun p => ?_⟩
  rw [← Option.some.inj h, lookup]
  split_ifs with heq
  · rw [heq]
    exact AList.lookup_erase _ _
  · exact AList.lookup_erase_ne heq

lemma remove_le {path : List ν} (h : tree.remove path = some tree') : tree' ≤ tree := by
  obtain ⟨-, hlookup⟩ := remove_eq_some h
  intro p node hnode
  rw [hlookup] at hnode
  split_ifs at hnode
  exact hnode

/-! ### Moving -/

/-- Where a path is when `old` has become `new`. -/
def moved (old new p : List ν) : List ν := if old <+: p then new ++ p.drop old.length else p

lemma moved_append (old new rest : List ν) : moved old new (old ++ rest) = new ++ rest := by
  rw [moved, if_pos (List.prefix_append _ _), List.drop_left]

lemma moved_of_not_isPrefix {old p : List ν} (new : List ν) (h : ¬ old <+: p) :
    moved old new p = p := if_neg h

/-- There is a directory at the path. -/
def isDirectoryAt (tree : FileTree ν κ) (path : List ν) : Bool :=
  (tree.lookup path).any Node.isDirectory

lemma isDirectoryAt_iff {path : List ν} :
    tree.isDirectoryAt path = true ↔ tree.lookup path = some .directory := by
  rw [isDirectoryAt]
  cases tree.lookup path with
  | none => simp
  | some node => cases node <;> simp [Node.isDirectory]

/-- A place to which what is at `old` can be moved. -/
def IsVacant (tree : FileTree ν κ) (old new : List ν) : Prop :=
  tree.isDirectoryAt new.dropLast = true ∧ ¬ old <+: new ∧ tree.children new = []

instance decidableIsVacant (tree : FileTree ν κ) (old new : List ν) :
    Decidable (tree.IsVacant old new) :=
  inferInstanceAs (Decidable (_ ∧ _ ∧ _))

/-- Nothing that is left is at the new place or below it. -/
lemma IsVacant.ne_append {old new p : List ν} (hvacant : tree.IsVacant old new) {node : Node κ}
    (hne : p ≠ new) (hp : tree.lookup p = some node) (rest : List ν) : p ≠ new ++ rest := by
  rintro rfl
  exact hne (eq_of_isPrefix hvacant.2.2 hp (List.prefix_append _ _))

/-- Of two entries that are left only one can end up at a path. -/
lemma IsVacant.moved_injective {old new p q : List ν} (hvacant : tree.IsVacant old new)
    {node node' : Node κ} (hp : p ≠ new) (hq : q ≠ new) (hnode : tree.lookup p = some node)
    (hnode' : tree.lookup q = some node') (h : moved old new p = moved old new q) : p = q := by
  by_cases hold : old <+: p
  · obtain ⟨rest, rfl⟩ := hold
    rw [moved_append] at h
    by_cases hold' : old <+: q
    · obtain ⟨rest', rfl⟩ := hold'
      rw [moved_append] at h
      rw [List.append_cancel_left h]
    · rw [moved_of_not_isPrefix new hold'] at h
      exact absurd h.symm (hvacant.ne_append hq hnode' rest)
  · rw [moved_of_not_isPrefix new hold] at h
    by_cases hold' : old <+: q
    · obtain ⟨rest', rfl⟩ := hold'
      rw [moved_append] at h
      exact absurd h (hvacant.ne_append hp hnode rest')
    · rwa [moved_of_not_isPrefix new hold'] at h

lemma mem_erase_iff {new p : List ν} {node : Node κ} :
    (⟨p, node⟩ : Sigma fun _ : List ν => Node κ) ∈ (tree.entries.erase new).entries ↔
      p ≠ new ∧ tree.lookup p = some node := by
  rw [← AList.mem_lookup_iff, Option.mem_def, lookup]
  by_cases hp : p = new
  · rw [hp, AList.lookup_erase]
    simp
  · rw [AList.lookup_erase_ne hp]
    simp [hp]

/-- The entries after the move. -/
def movedEntries (tree : FileTree ν κ) (old new : List ν) (hvacant : tree.IsVacant old new) :
    AList fun _ : List ν => Node κ where
  entries := (tree.entries.erase new).entries.map fun e => ⟨moved old new e.1, e.2⟩
  nodupKeys := by
    rw [List.NodupKeys, List.keys, List.map_map]
    show (((tree.entries.erase new).entries.map (moved old new ∘ Sigma.fst))).Nodup
    rw [← List.map_map]
    apply List.Nodup.map_on _ (tree.entries.erase new).nodupKeys
    intro p hp q hq h
    obtain ⟨⟨_, node⟩, hmem, rfl⟩ := List.mem_map.mp hp
    obtain ⟨⟨_, node'⟩, hmem', rfl⟩ := List.mem_map.mp hq
    obtain ⟨hne, hnode⟩ := mem_erase_iff.mp hmem
    obtain ⟨hne', hnode'⟩ := mem_erase_iff.mp hmem'
    exact hvacant.moved_injective hne hne' hnode hnode' h

lemma lookup_movedEntries {old new : List ν} (hvacant : tree.IsVacant old new) (p : List ν)
    (node : Node κ) : (tree.movedEntries old new hvacant).lookup p = some node ↔
      ∃ q, q ≠ new ∧ tree.lookup q = some node ∧ moved old new q = p := by
  rw [← Option.mem_def, AList.mem_lookup_iff, movedEntries, List.mem_map]
  constructor
  · rintro ⟨⟨q, node'⟩, hmem, heq⟩
    cases heq
    obtain ⟨hne, hnode⟩ := mem_erase_iff.mp hmem
    exact ⟨q, hne, hnode, rfl⟩
  · rintro ⟨q, hne, hnode, rfl⟩
    exact ⟨⟨q, node⟩, mem_erase_iff.mpr ⟨hne, hnode⟩, rfl⟩

/-- What is above an entry goes with it, or is where it was. -/
lemma exists_above_moved {old new q : List ν} (hvacant : tree.IsVacant old new) {node : Node κ}
    (hne : q ≠ new) (hnode : tree.lookup q = some node) (hroot : moved old new q ≠ []) :
    ∃ q', q' ≠ new ∧ tree.lookup q' = some .directory ∧
      moved old new q' = (moved old new q).dropLast := by
  obtain ⟨habove, hapart, hleaf⟩ := hvacant
  by_cases hold : old <+: q
  · obtain ⟨rest, rfl⟩ := hold
    rw [moved_append] at hroot ⊢
    by_cases hrest : rest = []
    · -- the moved entry itself
      rw [hrest, List.append_nil] at hroot ⊢
      refine ⟨new.dropLast, ?_, isDirectoryAt_iff.mp habove, ?_⟩
      · intro heq
        have hlength := congrArg List.length heq
        rw [List.length_dropLast] at hlength
        exact hroot (List.length_eq_zero_iff.mp (by omega))
      · apply moved_of_not_isPrefix
        exact fun h => hapart (h.trans (List.dropLast_prefix new))
    · refine ⟨old ++ rest.dropLast, ?_, ?_, ?_⟩
      · rintro rfl
        exact hapart (List.prefix_append _ _)
      · have hparent := tree.parents _ (mem_entries_of_lookup hnode) (by simp [hrest])
        rwa [List.dropLast_append_of_ne_nil hrest] at hparent
      · rw [moved_append, List.dropLast_append_of_ne_nil hrest]
  · rw [moved_of_not_isPrefix new hold] at hroot ⊢
    refine ⟨q.dropLast, ?_, ?_, ?_⟩
    · rintro rfl
      exact hne (eq_of_isPrefix hleaf hnode (List.dropLast_prefix q))
    · exact tree.parents _ (mem_entries_of_lookup hnode) hroot
    · apply moved_of_not_isPrefix
      exact fun h => hold (h.trans (List.dropLast_prefix q))

/-- Put what is at `old` and below in the place `new`, over the one entry that may be there. -/
def move (tree : FileTree ν κ) (old new : List ν) : Option (FileTree ν κ) :=
  if h : tree.IsVacant old new then
    some {
      entries := tree.movedEntries old new h
      parents := fun p hp hroot => by
        obtain ⟨node, hnode⟩ := Option.isSome_iff_exists.mp (AList.lookup_isSome.mpr hp)
        obtain ⟨q, hne, hq, rfl⟩ := (lookup_movedEntries h p node).mp hnode
        exact (lookup_movedEntries h _ _).mpr (exists_above_moved h hne hq hroot) }
  else none

/-- Where the entries are after a move. -/
lemma move_eq_some {old new : List ν} (h : tree.move old new = some tree') :
    tree.IsVacant old new ∧ ∀ p, tree'.lookup p =
      if new <+: p then tree.lookup (old ++ p.drop new.length)
      else if old <+: p then none else tree.lookup p := by
  rw [move] at h
  split_ifs at h with hvacant
  refine ⟨hvacant, fun p => Option.ext fun node => ?_⟩
  rw [← Option.some.inj h, lookup, lookup_movedEntries]
  by_cases hnew : new <+: p
  · obtain ⟨rest, rfl⟩ := hnew
    rw [if_pos (List.prefix_append _ _), List.drop_left]
    constructor
    · rintro ⟨q, hne, hq, hmoved⟩
      by_cases hold : old <+: q
      · obtain ⟨rest', rfl⟩ := hold
        rw [moved_append] at hmoved
        rwa [← List.append_cancel_left hmoved]
      · rw [moved_of_not_isPrefix new hold] at hmoved
        exact absurd hmoved (hvacant.ne_append hne hq rest)
    · intro hnode
      refine ⟨old ++ rest, ?_, hnode, moved_append old new rest⟩
      rintro rfl
      exact hvacant.2.1 (List.prefix_append _ _)
  · rw [if_neg hnew]
    have hmoved : ∀ q, moved old new q = p → ¬ old <+: q ∧ q = p := by
      intro q hq
      by_cases hold : old <+: q
      · obtain ⟨rest, rfl⟩ := hold
        rw [moved_append] at hq
        exact absurd ⟨rest, hq⟩ hnew
      · rw [moved_of_not_isPrefix new hold] at hq
        exact ⟨hold, hq⟩
    constructor
    · rintro ⟨q, -, hq, heq⟩
      obtain ⟨hold, rfl⟩ := hmoved q heq
      rwa [if_neg hold]
    · intro hnode
      split_ifs at hnode with hold
      refine ⟨p, ?_, hnode, moved_of_not_isPrefix new hold⟩
      rintro rfl
      exact hnew (List.prefix_refl _)

/-- The place that a moved entry has left is free. -/
lemma isVacant_of_move {old new : List ν} {node : Node κ} (h : tree.move old new = some tree')
    (hold : tree.lookup old = some node) (hnew : tree.lookup new = none) :
    tree'.IsVacant new old := by
  obtain ⟨⟨-, hapart, -⟩, hlookup⟩ := move_eq_some h
  have hroot : old ≠ [] := by
    rintro rfl
    exact hapart List.nil_prefix
  have hapart' : ¬ new <+: old := by
    intro hpre
    cases hold.symm.trans (lookup_eq_none_of_isPrefix hnew hpre)
  have habove : tree'.lookup old.dropLast = some .directory := by
    have hshorter : ¬ old <+: old.dropLast := by
      intro hpre
      have hlength := hpre.length_le
      rw [List.length_dropLast] at hlength
      exact hroot (List.length_eq_zero_iff.mp (by omega))
    rw [hlookup, if_neg fun hpre => hapart' (hpre.trans (List.dropLast_prefix old)),
      if_neg hshorter]
    exact tree.parents old (mem_entries_of_lookup hold) hroot
  refine ⟨isDirectoryAt_iff.mpr habove, hapart', ?_⟩
  rw [List.eq_nil_iff_forall_not_mem]
  intro p hp
  obtain ⟨hmem, hne, rfl⟩ := mem_children.mp hp
  obtain ⟨node', hnode'⟩ := Option.isSome_iff_exists.mp (AList.lookup_isSome.mpr hmem)
  -- what was below `old` is below `new` now, and `new` is not below `old`
  have hbelow : ¬ new <+: p := by
    intro hpre
    rcases List.prefix_concat_iff.mp
      (show new <+: p.dropLast ++ [p.getLast hne] by rwa [List.dropLast_concat_getLast])
      with heq | hpre
    · rw [List.dropLast_concat_getLast] at heq
      exact hapart (heq ▸ List.dropLast_prefix p)
    · exact hapart' hpre
  have hgone := hlookup p
  rw [if_neg hbelow, if_pos (List.dropLast_prefix p)] at hgone
  cases hgone.symm.trans hnode'

/-- An entry that was moved to a free place can be moved back, and everything is as it was. -/
lemma exists_move_back {old new : List ν} {node : Node κ} (h : tree.move old new = some tree')
    (hold : tree.lookup old = some node) (hnew : tree.lookup new = none) :
    ∃ tree'', tree'.move new old = some tree'' ∧ ∀ p, tree''.lookup p = tree.lookup p := by
  obtain ⟨-, hlookup⟩ := move_eq_some h
  obtain ⟨tree'', hback⟩ : ∃ tree'', tree'.move new old = some tree'' := by
    rw [move, dif_pos (isVacant_of_move h hold hnew)]
    exact ⟨_, rfl⟩
  refine ⟨tree'', hback, fun p => ?_⟩
  rw [(move_eq_some hback).2]
  by_cases hp : old <+: p
  · obtain ⟨rest, rfl⟩ := hp
    rw [if_pos (List.prefix_append _ _), List.drop_left, hlookup,
      if_pos (List.prefix_append _ _), List.drop_left]
  · rw [if_neg hp]
    by_cases hp' : new <+: p
    · rw [if_pos hp']
      exact (lookup_eq_none_of_isPrefix hnew hp').symm
    · rw [if_neg hp', hlookup, if_neg hp', if_neg hp]

/-! ### Descent -/

/-- Every entry of the second tree was one of the first, under the path that `origin` tells. -/
structure Origins (tree tree' : FileTree ν κ) (origin : List ν → List ν) : Prop where
  kept : ∀ p node, tree'.lookup p = some node →
    ∃ node', tree.lookup (origin p) = some node' ∧ node'.isDirectory = node.isDirectory
  injective : ∀ p q, tree'.lookup p ≠ none → tree'.lookup q ≠ none → origin p = origin q → p = q

/-- The second tree comes from the first by moving and removing entries. -/
def Descends (tree tree' : FileTree ν κ) : Prop := ∃ origin, Origins tree tree' origin

namespace Descends

variable {tree'' : FileTree ν κ}

lemma refl (tree : FileTree ν κ) : Descends tree tree :=
  ⟨id, fun _ node h => ⟨node, h, rfl⟩, fun _ _ _ _ h => h⟩

lemma trans (h : Descends tree tree') (h' : Descends tree' tree'') : Descends tree tree'' := by
  obtain ⟨origin, hkept, hinjective⟩ := h
  obtain ⟨origin', hkept', hinjective'⟩ := h'
  have hthere : ∀ p, tree''.lookup p ≠ none → tree'.lookup (origin' p) ≠ none := by
    intro p hp
    obtain ⟨node, hnode⟩ := Option.ne_none_iff_exists'.mp hp
    obtain ⟨node', hnode', -⟩ := hkept' p node hnode
    simp [hnode']
  refine ⟨origin ∘ origin', fun p node hnode => ?_, fun p q hp hq h => ?_⟩
  · obtain ⟨node', hnode', hkind⟩ := hkept' p node hnode
    obtain ⟨node₀, hnode₀, hkind₀⟩ := hkept _ node' hnode'
    exact ⟨node₀, hnode₀, hkind₀.trans hkind⟩
  · exact hinjective' p q hp hq (hinjective _ _ (hthere p hp) (hthere q hq) h)

lemma of_le (h : tree' ≤ tree) : Descends tree tree' :=
  ⟨id, fun p node hnode => ⟨node, h p node hnode, rfl⟩, fun _ _ _ _ heq => heq⟩

lemma of_move {old new : List ν} (h : tree.move old new = some tree') : Descends tree tree' := by
  obtain ⟨-, hlookup⟩ := move_eq_some h
  refine ⟨fun p => if new <+: p then old ++ p.drop new.length else p, fun p node hnode => ?_,
    fun p q hp hq heq => ?_⟩
  · rw [hlookup] at hnode
    split_ifs at hnode ⊢
    · exact ⟨node, hnode, rfl⟩
    · exact ⟨node, hnode, rfl⟩
  · rw [hlookup] at hp hq
    -- nothing is left below `old` but what has been moved there
    by_cases hnew : new <+: p
    · obtain ⟨rest, rfl⟩ := hnew
      by_cases hnew' : new <+: q
      · obtain ⟨rest', rfl⟩ := hnew'
        simpa using heq
      · rw [if_pos (List.prefix_append _ _), if_neg hnew', List.drop_left] at heq
        rw [if_neg hnew', if_pos (heq ▸ List.prefix_append _ _)] at hq
        exact absurd rfl hq
    · by_cases hnew' : new <+: q
      · obtain ⟨rest', rfl⟩ := hnew'
        rw [if_neg hnew, if_pos (List.prefix_append _ _), List.drop_left] at heq
        rw [if_neg hnew, if_pos (heq ▸ List.prefix_append _ _)] at hp
        exact absurd rfl hp
      · rwa [if_neg hnew, if_neg hnew'] at heq

lemma of_setContent {path : List ν} {content : κ} (h : tree.lookup path = some (.file content))
    (new : κ) : Descends tree (tree.setContent path new) := by
  refine ⟨id, fun p node hnode => ?_, fun _ _ _ _ heq => heq⟩
  rw [lookup_setContent h] at hnode
  split_ifs at hnode with hp
  · rw [hp]
    exact ⟨_, h, by rw [← Option.some.inj hnode]; rfl⟩
  · exact ⟨node, hnode, rfl⟩

/-- Nothing has been added. -/
lemma length_le (h : Descends tree tree') :
    tree'.entries.keys.length ≤ tree.entries.keys.length := by
  obtain ⟨origin, hkept, hinjective⟩ := h
  have hthere : ∀ p ∈ tree'.entries.keys, ∃ node, tree'.lookup p = some node := fun p hp =>
    Option.isSome_iff_exists.mp (AList.lookup_isSome.mpr (AList.mem_keys.mp hp))
  have hnodup : (tree'.entries.keys.map origin).Nodup := by
    apply List.Nodup.map_on _ tree'.entries.keys_nodup
    intro p hp q hq heq
    obtain ⟨node, hnode⟩ := hthere p hp
    obtain ⟨node', hnode'⟩ := hthere q hq
    exact hinjective p q (by simp [hnode]) (by simp [hnode']) heq
  have hsub : tree'.entries.keys.map origin ⊆ tree.entries.keys := by
    intro q hq
    obtain ⟨p, hp, rfl⟩ := List.mem_map.mp hq
    obtain ⟨node, hnode⟩ := hthere p hp
    obtain ⟨node', hnode', -⟩ := hkept p node hnode
    exact AList.mem_keys.mpr (mem_entries_of_lookup hnode')
  have hle := (List.subperm_of_subset hnodup hsub).length_le
  rwa [List.length_map] at hle

end Descends

end FileTree

end EzServer.Core
