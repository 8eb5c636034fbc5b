import EzServer.Services.FileOperations
import EzServer.Services.OpenFile

/-!
# What becomes of the files

The service over whole histories of calls: whatever calls are made, no entry comes to be that was not
there before, and without `..` nothing outside of the application's directory is touched. What single
calls report, and how a call is undone, is at the end.
-/

namespace EzServer.Services

open EzServer.Core

/-! ### Histories -/

namespace Filesystem

/-- What changes the files: calls of the service, and writes through streams that are open. -/
inductive FileCall where
  | deleteFile (permissions : Permissions) (cd : CommonDirectories) (filename : List String)
  | renameFile (permissions : Permissions) (cd : CommonDirectories)
      (oldName newName : List String)
  | openFile (access : Access) (cd : CommonDirectories) (path : List String) (mode : FileMode)
  /-- The file that is at the path by then gets a new content. -/
  | write (path : Path) (content : List UInt8)

def FileCall.apply (fs : Filesystem) (tree : Tree) : FileCall → Tree
  | .deleteFile permissions cd filename => (fs.deleteFile permissions tree cd filename).2
  | .renameFile permissions cd oldName newName =>
    (fs.renameFile permissions tree cd oldName newName).2
  | .openFile access cd path mode => (fs.openFile access tree cd path mode).2
  | .write path content => tree.setContent path content

/-- The tree after some calls. -/
def afterCalls (fs : Filesystem) (tree : Tree) (calls : List FileCall) : Tree :=
  calls.foldl (FileCall.apply fs) tree

variable {fs : Filesystem} {tree tree' : Tree} {permissions : Permissions}
  {cd : CommonDirectories}

lemma deleteFile_cases (filename : List String) :
    (fs.deleteFile permissions tree cd filename).2 = tree ∨
      ∃ path, resolve tree [] (fs.getPath cd ++ filename) = some path ∧
        tree.remove path = some (fs.deleteFile permissions tree cd filename).2 := by
  rw [deleteFile]
  cases hremove : remove permissions tree (fs.getPath cd ++ filename) with
  | none => exact Or.inl rfl
  | some out => exact (remove_eq_some hremove).2.imp_left And.right

lemma renameFile_cases (oldName newName : List String) :
    (fs.renameFile permissions tree cd oldName newName).2 = tree ∨
      ∃ old new, resolve tree [] (fs.getPath cd ++ oldName) = some old ∧
        resolve tree [] (fs.getPath cd ++ newName) = some new ∧
        tree.move old new = some (fs.renameFile permissions tree cd oldName newName).2 := by
  rw [renameFile]
  cases hrename : rename permissions tree (fs.getPath cd ++ oldName)
      (fs.getPath cd ++ newName) with
  | none => exact Or.inl rfl
  | some now =>
    obtain ⟨old, new, node, hold, hnew, -, ⟨-, hsame⟩ | ⟨-, hmove⟩⟩ := rename_eq_some hrename
    · exact Or.inl hsame
    · exact Or.inr ⟨old, new, hold, hnew, hmove⟩

lemma setContent_cases (tree : Tree) (path : Path) (content : List UInt8) :
    tree.setContent path content = tree ∨
      ∃ before, tree.lookup path = some (.file before) := by
  rw [FileTree.setContent]
  split
  · next before h => exact Or.inr ⟨before, h⟩
  · exact Or.inl rfl

lemma descends_apply (fs : Filesystem) (tree : Tree) (call : FileCall) :
    FileTree.Descends tree (call.apply fs tree) := by
  cases call with
  | deleteFile permissions cd filename =>
    rcases @deleteFile_cases fs tree permissions cd filename with hsame | ⟨path, -, hremove⟩
    · rw [FileCall.apply, hsame]
      exact .refl tree
    · exact .of_le (FileTree.remove_le hremove)
  | renameFile permissions cd oldName newName =>
    rcases @renameFile_cases fs tree permissions cd oldName newName with
      hsame | ⟨old, new, -, -, hmove⟩
    · rw [FileCall.apply, hsame]
      exact .refl tree
    · exact .of_move hmove
  | openFile access cd path mode => exact .refl tree
  | write path content =>
    rcases setContent_cases tree path content with hsame | ⟨before, hfile⟩
    · rw [FileCall.apply, hsame]
      exact .refl tree
    · exact .of_setContent hfile content

/-- The service creates nothing: after any calls, succeeding or failing, and any writes in between,
every entry was there before, under another path perhaps but of the same kind, no two entries were
the same one, and there are not more of them. -/
theorem nothing_created (fs : Filesystem) (tree : Tree) (calls : List FileCall) :
    FileTree.Descends tree (fs.afterCalls tree calls) ∧
      (fs.afterCalls tree calls).entries.keys.length ≤ tree.entries.keys.length := by
  have hdescends : FileTree.Descends tree (fs.afterCalls tree calls) := by
    rw [afterCalls]
    induction calls generalizing tree with
    | nil => exact .refl tree
    | cons call calls ih => exact (descends_apply fs tree call).trans (ih _)
  exact ⟨hdescends, hdescends.length_le⟩

/-! ### Confinement -/

/-- The call is given no name `..`, and writes go to files of the application. -/
def FileCall.StaysInside (fs : Filesystem) : FileCall → Prop
  | .deleteFile _ _ filename => ".." ∉ filename
  | .renameFile _ _ oldName newName => ".." ∉ oldName ∧ ".." ∉ newName
  | .openFile _ _ _ _ => True
  | .write path _ => fs.appMainDir <+: path

lemma exists_getPath_eq (fs : Filesystem) (cd : CommonDirectories) :
    ∃ rest, fs.getPath cd = fs.appMainDir ++ rest ∧ ".." ∉ rest := by
  cases cd with
  | appDirectory => exact ⟨[], by rw [List.append_nil]; rfl, by simp⟩
  | plugins => exact ⟨["plugins"], rfl, by simp⟩
  | data => exact ⟨["data"], rfl, by simp⟩

lemma isPrefix_of_resolve_getPath (hmain : IsOrdinary fs.appMainDir) {names : List String}
    (hnames : ".." ∉ names) {path : Path}
    (h : resolve tree [] (fs.getPath cd ++ names) = some path) : fs.appMainDir <+: path := by
  obtain ⟨rest, hrest, hordinary⟩ := fs.exists_getPath_eq cd
  rw [hrest, List.append_assoc, resolve_append] at h
  obtain ⟨main, hresolve, h⟩ := Option.bind_eq_some_iff.mp h
  obtain ⟨rfl, -⟩ := (resolve_eq_some_iff hmain).mp hresolve
  exact isPrefix_of_resolve (by simp [hordinary, hnames]) h

lemma lookup_apply_of_outside (hmain : IsOrdinary fs.appMainDir) {call : FileCall}
    (hcall : call.StaysInside fs) {p : Path} (hp : ¬ fs.appMainDir <+: p) :
    (call.apply fs tree).lookup p = tree.lookup p := by
  cases call with
  | deleteFile permissions cd filename =>
    rcases @deleteFile_cases fs tree permissions cd filename with
      hsame | ⟨path, hresolve, hremove⟩
    · rw [FileCall.apply, hsame]
    · have hinside := isPrefix_of_resolve_getPath hmain hcall hresolve
      rw [FileCall.apply, (FileTree.remove_eq_some hremove).2, if_neg]
      rintro rfl
      exact hp hinside
  | renameFile permissions cd oldName newName =>
    rcases @renameFile_cases fs tree permissions cd oldName newName with
      hsame | ⟨old, new, hold, hnew, hmove⟩
    · rw [FileCall.apply, hsame]
    · have hold' := isPrefix_of_resolve_getPath hmain hcall.1 hold
      have hnew' := isPrefix_of_resolve_getPath hmain hcall.2 hnew
      rw [FileCall.apply, (FileTree.move_eq_some hmove).2,
        if_neg fun h => hp (hnew'.trans h), if_neg fun h => hp (hold'.trans h)]
  | openFile access cd path mode => rfl
  | write path content =>
    rcases setContent_cases tree path content with hsame | ⟨before, hfile⟩
    · rw [FileCall.apply, hsame]
    · rw [FileCall.apply, FileTree.lookup_setContent hfile, if_neg]
      rintro rfl
      exact hp hcall

/-- As long as no call is given a name `..`, nothing outside of the directory of the application is
changed, whatever is called and written, in a tree without links. -/
theorem outside_unchanged {fs : Filesystem} {calls : List FileCall}
    (hmain : IsOrdinary fs.appMainDir) (hcalls : ∀ call ∈ calls, call.StaysInside fs)
    (tree : Tree) {p : Path} (hp : ¬ fs.appMainDir <+: p) :
    (fs.afterCalls tree calls).lookup p = tree.lookup p := by
  rw [afterCalls]
  induction calls generalizing tree with
  | nil => rfl
  | cons call calls ih =>
    obtain ⟨hcall, hrest⟩ := List.forall_mem_cons.mp hcalls
    rw [List.foldl_cons, ih hrest, lookup_apply_of_outside hmain hcall hp]

/-- Everything is permitted. -/
def permitAll : Permissions := ⟨fun _ => true, fun _ => true, fun _ _ => true⟩

/-- A file is renamed, written and deleted. -/
theorem outside_unchanged_threeCalls :
    (afterCalls ⟨["app"]⟩ usersFile [.renameFile permitAll .data ["users"] [".", "people"],
      .write ["app", "data", "people"] [0x42], .deleteFile permitAll .data ["people"]]).lookup
        ["etc"] = usersFile.lookup ["etc"] := by
  apply outside_unchanged (by unfold IsOrdinary; decide) _ usersFile (by decide)
  intro call hcall
  simp only [List.mem_cons, List.not_mem_nil, or_false] at hcall
  rcases hcall with rfl | rfl | rfl
  · exact ⟨by decide, by decide⟩
  · show ["app"] <+: ["app", "data", "people"]
    decide
  · show ".." ∉ ["people"]
    decide

-- `..` leads out of the directory
example : ((⟨["app"]⟩ : Filesystem).renameFile permitAll usersFile .data ["users"]
    ["..", "..", "users"]).2.lookup ["users"] = some (.file [0x41]) := by decide

/-! ### What the results say -/

/-- `DeleteFile` returns true iff it could look and nothing is found under the name afterwards, and
else it has changed nothing. -/
theorem deleteFile_tells (fs : Filesystem) (permissions : Permissions) (tree : Tree)
    (cd : CommonDirectories) (filename : List String) :
    ((fs.deleteFile permissions tree cd filename).1 = true ↔
      permissions.searches (fs.getPath cd ++ filename) = true ∧
        find (fs.deleteFile permissions tree cd filename).2 (fs.getPath cd ++ filename) = none) ∧
    ((fs.deleteFile permissions tree cd filename).1 = false →
      (fs.deleteFile permissions tree cd filename).2 = tree) := by
  rw [deleteFile]
  cases hremove : remove permissions tree (fs.getPath cd ++ filename) with
  | none =>
    refine ⟨iff_of_false (by simp) ?_, fun _ => rfl⟩
    rintro ⟨hsearch, hfound⟩
    exact find_of_remove hremove hsearch hfound
  | some out =>
    obtain ⟨removed, now⟩ := out
    obtain ⟨hsearch, hcases⟩ := remove_eq_some hremove
    refine ⟨iff_of_true rfl ⟨hsearch, ?_⟩, fun h => by cases h⟩
    rcases hcases with ⟨hnone, rfl⟩ | ⟨path, hresolve, hremoved⟩
    · exact hnone
    · show (resolve now [] _).bind now.lookup = none
      cases hresolve' : resolve now [] (fs.getPath cd ++ filename) with
      | none => rfl
      | some path' =>
        have hsame := resolve_of_le (FileTree.remove_le hremoved) hresolve'
        obtain rfl := Option.some.inj (hresolve.symm.trans hsame)
        show now.lookup path = none
        rw [(FileTree.remove_eq_some hremoved).2, if_pos rfl]

/-! ### Renaming back -/

lemma isOrdinary_getPath (hmain : IsOrdinary fs.appMainDir) (cd : CommonDirectories) :
    IsOrdinary (fs.getPath cd) := by
  cases cd with
  | appDirectory => exact hmain
  | plugins => exact hmain.append (by simp [IsOrdinary])
  | data => exact hmain.append (by simp [IsOrdinary])

lemma eq_some_of_renameFile {oldName newName : List String}
    (h : (fs.renameFile permissions tree cd oldName newName).1 = true) :
    rename permissions tree (fs.getPath cd ++ oldName) (fs.getPath cd ++ newName) =
      some (fs.renameFile permissions tree cd oldName newName).2 := by
  rw [renameFile] at h ⊢
  cases hrename : rename permissions tree (fs.getPath cd ++ oldName) (fs.getPath cd ++ newName) with
  | none =>
    rw [hrename] at h
    cases h
  | some now => rfl

/-- In a tree without symbolic links, a file or directory that was renamed to a free name can be
renamed back, and everything is as it was. -/
theorem renameFile_back {oldName newName : List String} {permissions' : Permissions}
    (hmain : IsOrdinary fs.appMainDir) (hold : IsOrdinary oldName) (hnew : IsOrdinary newName)
    (hrenamed : (fs.renameFile permissions tree cd oldName newName).1 = true)
    (hfree : find tree (fs.getPath cd ++ newName) = none)
    (hpermitted :
      permissions'.renames (fs.getPath cd ++ newName) (fs.getPath cd ++ oldName) = true) :
    let tree' := (fs.renameFile permissions tree cd oldName newName).2
    (fs.renameFile permissions' tree' cd newName oldName).1 = true ∧
      ∀ p, (fs.renameFile permissions' tree' cd newName oldName).2.lookup p = tree.lookup p := by
  intro tree'
  have hrename := eq_some_of_renameFile hrenamed
  obtain ⟨tree'', hback, hlookup⟩ := rename_back ((isOrdinary_getPath hmain cd).append hold)
    ((isOrdinary_getPath hmain cd).append hnew) hrename hfree hpermitted
  rw [renameFile, hback]
  exact ⟨rfl, hlookup⟩

/-- The directory `data` is renamed, with the file in it. -/
theorem renameFile_back_data :
    let tree' := ((⟨["app"]⟩ : Filesystem).renameFile permitAll usersFile .appDirectory ["data"]
      ["store"]).2
    tree'.lookup ["app", "store", "users"] = some (.file [0x41]) ∧
      ((⟨["app"]⟩ : Filesystem).renameFile permitAll tree' .appDirectory ["store"] ["data"]).1 =
        true := by
  refine ⟨by decide, ?_⟩
  apply And.left
  exact renameFile_back (by unfold IsOrdinary; decide) (by unfold IsOrdinary; decide)
    (by unfold IsOrdinary; decide) (by decide) (by decide) rfl

end Filesystem

end EzServer.Services
