import EzServer.Services.Resolution

/-!
# Deleting and renaming files

`DeleteFile` and `RenameFile` over a tree of files.
-/

namespace EzServer.Services

open EzServer.Core

/-! ### boost::filesystem -/

/-- What the operating system permits. -/
structure Permissions where
  /-- The directories on the way can be searched. -/
  searches : List String → Bool
  removes : Path → Bool
  renames : Path → Path → Bool

/-- `boost::filesystem::remove`; `none` for an exception. -/
def remove (permissions : Permissions) (tree : Tree) (names : List String) :
    Option (Bool × Tree) :=
  if !permissions.searches names then none
  else
    match resolve tree [] names with
    | none => some (false, tree)
    | some path =>
      match tree.lookup path with
      | none => some (false, tree)
      | some _ =>
        if endsInDots names || !permissions.removes path then none
        else (tree.remove path).map fun tree => (true, tree)

/-- A file cannot take the place of a directory, nor the other way round. -/
def canReplace : Node (List UInt8) → Option (Node (List UInt8)) → Bool
  | _, none => true
  | node, some other => node.isDirectory == other.isDirectory

/-- `boost::filesystem::rename`; `none` for an exception. -/
def rename (permissions : Permissions) (tree : Tree) (oldNames newNames : List String) :
    Option Tree :=
  match resolve tree [] oldNames, resolve tree [] newNames with
  | some old, some new =>
    match tree.lookup old with
    | none => none
    | some node =>
      if endsInDots oldNames || endsInDots newNames || !permissions.renames old new then none
      -- a file is renamed to itself
      else if old = new then some tree
      else if canReplace node (tree.lookup new) then tree.move old new
      else none
  | _, _ => none

/-! ### The service -/

namespace Filesystem

/-- `DeleteFile` -/
def deleteFile (fs : Filesystem) (permissions : Permissions) (tree : Tree)
    (cd : CommonDirectories) (filename : List String) : Bool × Tree :=
  match remove permissions tree (fs.getPath cd ++ filename) with
  -- the result of `remove` is ignored
  | some (_, tree) => (true, tree)
  | none => (false, tree)

/-- `RenameFile` -/
def renameFile (fs : Filesystem) (permissions : Permissions) (tree : Tree)
    (cd : CommonDirectories) (oldName newName : List String) : Bool × Tree :=
  match rename permissions tree (fs.getPath cd ++ oldName) (fs.getPath cd ++ newName) with
  | some tree => (true, tree)
  | none => (false, tree)

end Filesystem

/-! ### Single calls -/

section Calls

variable {tree tree' : Tree} {permissions : Permissions}

/-- What `remove` does when it does not throw. -/
lemma remove_eq_some {names : List String} {removed : Bool}
    (h : remove permissions tree names = some (removed, tree')) :
    permissions.searches names = true ∧ (find tree names = none ∧ tree' = tree ∨
      ∃ path, resolve tree [] names = some path ∧ tree.remove path = some tree') := by
  rw [remove] at h
  split_ifs at h with hsearch
  refine ⟨by simpa using hsearch, ?_⟩
  cases hresolve : resolve tree [] names with
  | none =>
    rw [hresolve] at h
    obtain ⟨-, rfl⟩ := Prod.mk.inj (Option.some.inj h)
    exact Or.inl ⟨by rw [find, hresolve]; rfl, rfl⟩
  | some path =>
    rw [hresolve] at h
    dsimp only at h
    cases hpath : tree.lookup path with
    | none =>
      rw [hpath] at h
      obtain ⟨-, rfl⟩ := Prod.mk.inj (Option.some.inj h)
      exact Or.inl ⟨by rw [find, hresolve]; exact hpath, rfl⟩
    | some node =>
      rw [hpath] at h
      dsimp only at h
      split_ifs at h
      obtain ⟨now, hremove, heq⟩ := Option.map_eq_some_iff.mp h
      obtain ⟨-, rfl⟩ := Prod.mk.inj heq
      exact Or.inr ⟨path, rfl, hremove⟩

/-- It only throws if something is there, or nobody may look. -/
lemma find_of_remove {names : List String} (h : remove permissions tree names = none)
    (hsearch : permissions.searches names = true) : find tree names ≠ none := by
  rw [remove, if_neg (by simp [hsearch])] at h
  cases hresolve : resolve tree [] names with
  | none =>
    rw [hresolve] at h
    cases h
  | some path =>
    rw [hresolve] at h
    dsimp only at h
    cases hpath : tree.lookup path with
    | none =>
      rw [hpath] at h
      cases h
    | some node =>
      rw [find, hresolve]
      show tree.lookup path ≠ none
      simp [hpath]

/-- What `rename` does when it does not throw. -/
lemma rename_eq_some {oldNames newNames : List String}
    (h : rename permissions tree oldNames newNames = some tree') :
    ∃ old new node, resolve tree [] oldNames = some old ∧ resolve tree [] newNames = some new ∧
      tree.lookup old = some node ∧
      (old = new ∧ tree' = tree ∨ old ≠ new ∧ tree.move old new = some tree') := by
  rw [rename] at h
  split at h
  · next old new hold hnew =>
    cases hnode : tree.lookup old with
    | none =>
      rw [hnode] at h
      cases h
    | some node =>
      rw [hnode] at h
      dsimp only at h
      refine ⟨old, new, node, hold, hnew, hnode, ?_⟩
      split_ifs at h with hrefused hsame hreplace
      · exact Or.inl ⟨hsame, (Option.some.inj h).symm⟩
      · exact Or.inr ⟨hsame, h⟩
  · cases h

/-- Ordinary names lead where they led, if nothing on the way has been moved. -/
lemma resolve_of_move {old new : Path} (hmove : tree.move old new = some tree')
    (hfree : tree.lookup new = none) {names : List String} (hnames : IsOrdinary names)
    (hresolve : resolve tree [] names = some names)
    (hway : ∀ l r, names = l ++ r → r ≠ [] → ¬ old <+: l) :
    resolve tree' [] names = some names := by
  obtain ⟨-, hdirs⟩ := (resolve_eq_some_iff hnames).mp hresolve
  refine (resolve_eq_some_iff hnames).mpr ⟨rfl, fun l r hsplit hr => ?_⟩
  have hdir := hdirs l r hsplit hr
  rw [List.nil_append] at hdir ⊢
  rw [FileTree.isDirectoryAt_iff] at hdir ⊢
  rw [(FileTree.move_eq_some hmove).2, if_neg, if_neg (hway l r hsplit hr)]
  · exact hdir
  · intro hpre
    cases hdir.symm.trans (FileTree.lookup_eq_none_of_isPrefix hfree hpre)

/-- Renaming undoes renaming to a free name. -/
lemma rename_back {permissions' : Permissions} {oldNames newNames : List String}
    (hold : IsOrdinary oldNames) (hnew : IsOrdinary newNames)
    (hrename : rename permissions tree oldNames newNames = some tree')
    (hfree : find tree newNames = none)
    (hpermitted : permissions'.renames newNames oldNames = true) :
    ∃ tree'', rename permissions' tree' newNames oldNames = some tree'' ∧
      ∀ p, tree''.lookup p = tree.lookup p := by
  obtain ⟨old, new, node, hresolveOld, hresolveNew, hnode, hcases⟩ := rename_eq_some hrename
  obtain rfl : old = oldNames := ((resolve_eq_some_iff hold).mp hresolveOld).1
  obtain rfl : new = newNames := ((resolve_eq_some_iff hnew).mp hresolveNew).1
  have hfree' : tree.lookup new = none := by rwa [find, hresolveNew] at hfree
  have hapart : old ≠ new := by
    rintro rfl
    cases hfree'.symm.trans hnode
  obtain ⟨-, hmove⟩ := hcases.resolve_left fun h => hapart h.1
  obtain ⟨tree'', hback, hlookup⟩ := FileTree.exists_move_back hmove hnode hfree'
  refine ⟨tree'', ?_, hlookup⟩
  obtain ⟨⟨-, hbelow, -⟩, hmoved⟩ := FileTree.move_eq_some hmove
  have hresolveNew' : resolve tree' [] new = some new := by
    apply resolve_of_move hmove hfree' hnew hresolveNew
    rintro l r rfl - hpre
    exact hbelow (hpre.trans (List.prefix_append _ _))
  have hresolveOld' : resolve tree' [] old = some old := by
    apply resolve_of_move hmove hfree' hold hresolveOld
    rintro l r hsplit hr hpre
    have hlength := hpre.length_le
    rw [hsplit, List.length_append] at hlength
    exact hr (List.length_eq_zero_iff.mp (by omega))
  have hnow : tree'.lookup new = some node := by
    rw [hmoved, if_pos (List.prefix_refl _), List.drop_length, List.append_nil]
    exact hnode
  have hgone : tree'.lookup old = none := by
    rw [hmoved, if_neg fun hpre => ?_, if_pos (List.prefix_refl _)]
    cases hnode.symm.trans (FileTree.lookup_eq_none_of_isPrefix hfree' hpre)
  rw [rename, hresolveNew', hresolveOld']
  dsimp only
  rw [hnow]
  dsimp only
  rw [if_neg (by simp [hold.endsInDots_eq, hnew.endsInDots_eq, hpermitted]),
    if_neg hapart.symm, hgone, if_pos (show canReplace node none = true from rfl)]
  exact hback

end Calls

end EzServer.Services
