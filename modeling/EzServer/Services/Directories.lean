import EzServer.Services.Filesystem

/-!
# The directories of the application

`create_dir` only asks whether its path exists. Under `HOME` that makes sure of the two directories
on the way, since something is to be created in them, but a file may take the place of the last two.
-/

namespace EzServer.Services

open EzServer.Core

variable {answers : Path → Creation} {tree tree' : Tree} {path : Path}

/-! ### One directory -/

lemma createDirectory_eq_true_iff : createDirectory answers tree path = some (true, tree') ↔
    answers path = .created ∧ tree.makeDirectory path = some tree' := by
  rw [createDirectory]
  constructor
  · intro h
    split at h
    · next made hanswer hmade =>
      cases h
      exact ⟨hanswer, hmade⟩
    · cases h
    · cases h
  · rintro ⟨hanswer, hmade⟩
    rw [hanswer, hmade]

/-- The ways in which `create_dir` succeeds. -/
lemma createDir_eq_ok_iff : createDir answers tree path = .ok tree' ↔
    (tree.lookup path ≠ none ∧ tree' = tree) ∨
      (tree.lookup path = none ∧ answers path = .created ∧
        tree.makeDirectory path = some tree') := by
  rw [createDir]
  cases hpath : tree.lookup path with
  | some node =>
    constructor
    · intro h
      exact Or.inl ⟨by simp, (Except.ok.inj h).symm⟩
    · rintro (⟨-, rfl⟩ | ⟨hnone, -⟩)
      · rfl
      · cases hnone
  | none =>
    constructor
    · intro h
      refine Or.inr ⟨rfl, ?_⟩
      apply createDirectory_eq_true_iff.mp
      dsimp only at h
      split at h
      · cases h
      · cases h
      · next made hcreated =>
        cases h
        exact hcreated
    · rintro (⟨hsome, -⟩ | ⟨-, hcreated⟩)
      · exact absurd rfl hsome
      · rw [createDirectory_eq_true_iff.mpr hcreated]

/-- What is there when `create_dir` is called is not touched. -/
lemma createDir_of_exists (answers : Path → Creation) {node : Node (List UInt8)}
    (h : tree.lookup path = some node) : createDir answers tree path = .ok tree := by
  rw [createDir, h]

lemma exists_createDir (habove : tree.lookup path.dropLast = some .directory)
    (h : tree.lookup path ≠ none ∨ answers path = .created) :
    ∃ tree', createDir answers tree path = .ok tree' := by
  cases hpath : tree.lookup path with
  | some node => exact ⟨tree, createDir_of_exists answers hpath⟩
  | none =>
    obtain ⟨tree', hmade⟩ := FileTree.exists_makeDirectory hpath habove
    exact ⟨tree', createDir_eq_ok_iff.mpr
      (Or.inr ⟨hpath, h.resolve_left fun hne => hne hpath, hmade⟩)⟩

lemma le_createDir (h : createDir answers tree path = .ok tree') : tree ≤ tree' := by
  rcases createDir_eq_ok_iff.mp h with ⟨-, rfl⟩ | ⟨-, -, hmade⟩
  · exact le_refl _
  · exact FileTree.le_makeDirectory hmade

lemma lookup_createDir_of_ne (h : createDir answers tree path = .ok tree') {p : Path}
    (hp : p ≠ path) : tree'.lookup p = tree.lookup p := by
  rcases createDir_eq_ok_iff.mp h with ⟨-, rfl⟩ | ⟨-, -, hmade⟩
  · rfl
  · rw [(FileTree.makeDirectory_eq_some hmade).2, if_neg hp]

/-- Afterwards the path is a directory, unless a file was there before. -/
lemma lookup_createDir (h : createDir answers tree path = .ok tree') :
    tree'.lookup path = some .directory ∨
      ∃ content, tree.lookup path = some (.file content) := by
  rcases createDir_eq_ok_iff.mp h with ⟨hsome, rfl⟩ | ⟨-, -, hmade⟩
  · obtain ⟨node, hnode⟩ := Option.ne_none_iff_exists'.mp hsome
    cases node with
    | directory => exact Or.inl hnode
    | file content => exact Or.inr ⟨content, hnode⟩
  · left
    rw [(FileTree.makeDirectory_eq_some hmade).2, if_pos rfl]

lemma createDirs_cons_eq_ok_iff {paths : List Path} :
    createDirs answers tree (path :: paths) = (.ok (), tree') ↔
      ∃ now, createDir answers tree path = .ok now ∧
        createDirs answers now paths = (.ok (), tree') := by
  rw [createDirs]
  cases hdir : createDir answers tree path with
  | error e => simp
  | ok now => simp

/-! ### A whole call -/

namespace Filesystem

variable {fs fs' : Filesystem} {home : Path}

/-- The directory of the application. -/
def mainDir (home : Path) : Path := home ++ ["ezTech"] ++ ["ezServer"]

/-- `Initialize` returns true iff all four calls of `create_dir` succeed. -/
lemma initializeDirectories_eq_true_iff :
    fs.initializeDirectories home answers tree = (.ok true, fs', tree') ↔
      fs' = ⟨mainDir home⟩ ∧ ∃ t₁ t₂ t₃, createDir answers tree (home ++ ["ezTech"]) = .ok t₁ ∧
        createDir answers t₁ (mainDir home) = .ok t₂ ∧
        createDir answers t₂ (mainDir home ++ ["plugins"]) = .ok t₃ ∧
        createDir answers t₃ (mainDir home ++ ["data"]) = .ok tree' := by
  rw [initializeDirectories]
  dsimp only
  cases htech : createDir answers tree (home ++ ["ezTech"]) with
  | error e => simp
  | ok t₁ =>
    dsimp only
    rw [show home ++ ["ezTech"] ++ ["ezServer"] = mainDir home from rfl]
    cases hserver : createDir answers t₁ (mainDir home) with
    | error e => simp [hserver]
    | ok t₂ =>
      dsimp only
      constructor
      · intro h
        split at h
        · cases h
        · next now hsubs =>
          obtain ⟨t₃, hplugins, hrest⟩ := createDirs_cons_eq_ok_iff.mp hsubs
          obtain ⟨t₄, hdata, hdone⟩ := createDirs_cons_eq_ok_iff.mp hrest
          cases hdone
          cases h
          exact ⟨rfl, t₁, t₂, t₃, rfl, hserver, hplugins, hdata⟩
      · rintro ⟨rfl, s₁, s₂, t₃, hs₁, hs₂, hplugins, hdata⟩
        cases hs₁
        cases hserver.symm.trans hs₂
        have hsubs : createDirs answers t₂
            (requiredDirectories.map fun dir => mainDir home ++ [dir]) = (.ok (), tree') :=
          createDirs_cons_eq_ok_iff.mpr
            ⟨t₃, hplugins, createDirs_cons_eq_ok_iff.mpr ⟨tree', hdata, rfl⟩⟩
        rw [hsubs]

/-- Where both sub directories exist, `Initialize` changes nothing. -/
lemma initializeDirectories_of_exists (fs : Filesystem) (answers : Path → Creation)
    {plugins data : Node (List UInt8)}
    (hplugins : tree.lookup (mainDir home ++ ["plugins"]) = some plugins)
    (hdata : tree.lookup (mainDir home ++ ["data"]) = some data) :
    fs.initializeDirectories home answers tree = (.ok true, ⟨mainDir home⟩, tree) := by
  have hserver := FileTree.lookup_parent hplugins
  have htech := FileTree.lookup_parent hserver
  rw [initializeDirectories_eq_true_iff]
  refine ⟨rfl, tree, tree, tree, ?_, ?_, ?_, ?_⟩
  · exact createDir_of_exists answers htech
  · exact createDir_of_exists answers hserver
  · exact createDir_of_exists answers hplugins
  · exact createDir_of_exists answers hdata

lemma le_initializeDirectories
    (h : fs.initializeDirectories home answers tree = (.ok true, fs', tree')) : tree ≤ tree' := by
  obtain ⟨-, t₁, t₂, t₃, htech, hserver, hplugins, hdata⟩ :=
    initializeDirectories_eq_true_iff.mp h
  exact ((le_createDir htech).trans (le_createDir hserver)).trans
    ((le_createDir hplugins).trans (le_createDir hdata))

/-- What a successful call leaves where the sub directories should be. -/
lemma lookup_initializeDirectories
    (h : fs.initializeDirectories home answers tree = (.ok true, fs', tree'))
    {dir : String} (hdir : dir ∈ requiredDirectories) :
    (tree.lookup (mainDir home ++ [dir]) ≠ none ∨ answers (mainDir home ++ [dir]) = .created) ∧
      (tree'.lookup (mainDir home ++ [dir]) = some .directory ∨
        ∃ content, tree.lookup (mainDir home ++ [dir]) = some (.file content)) := by
  obtain ⟨-, t₁, t₂, t₃, htech, hserver, hplugins, hdata⟩ :=
    initializeDirectories_eq_true_iff.mp h
  have hbefore : ∀ d, t₂.lookup (mainDir home ++ [d]) = tree.lookup (mainDir home ++ [d]) := by
    intro d
    rw [lookup_createDir_of_ne hserver (by simp), lookup_createDir_of_ne htech (by simp [mainDir])]
  -- the call for one of the two, the other one being elsewhere
  obtain ⟨s, s', hcall, hin, hout⟩ : ∃ s s', createDir answers s (mainDir home ++ [dir]) = .ok s' ∧
      s.lookup (mainDir home ++ [dir]) = tree.lookup (mainDir home ++ [dir]) ∧
      tree'.lookup (mainDir home ++ [dir]) = s'.lookup (mainDir home ++ [dir]) := by
    rcases List.mem_pair.mp hdir with rfl | rfl
    · exact ⟨t₂, t₃, hplugins, hbefore _, lookup_createDir_of_ne hdata (by simp)⟩
    · refine ⟨t₃, tree', hdata, ?_, rfl⟩
      rw [lookup_createDir_of_ne hplugins (by simp), hbefore]
  rw [hout, ← hin]
  constructor
  · rcases createDir_eq_ok_iff.mp hcall with ⟨hsome, -⟩ | ⟨-, hanswer, -⟩
    · exact Or.inl hsome
    · exact Or.inr hanswer
  · exact lookup_createDir hcall

/-- A file in the place of a sub directory does not keep `Initialize` from returning true, if the
other sub directory can be had. -/
lemma initializeDirectories_of_file (fs : Filesystem) {dir other : String} {content : List UInt8}
    (hdirs : (dir, other) ∈ [("plugins", "data"), ("data", "plugins")])
    (hfile : tree.lookup (mainDir home ++ [dir]) = some (.file content))
    (hother : tree.lookup (mainDir home ++ [other]) ≠ none ∨
      answers (mainDir home ++ [other]) = .created) :
    ∃ tree', fs.initializeDirectories home answers tree = (.ok true, ⟨mainDir home⟩, tree') ∧
      tree'.lookup (mainDir home ++ [dir]) = some (.file content) := by
  have hserver := FileTree.lookup_parent hfile
  have htech := FileTree.lookup_parent hserver
  obtain ⟨tree', hcall⟩ := exists_createDir
    (show tree.lookup (mainDir home ++ [other]).dropLast = some .directory by
      rw [List.dropLast_concat]; exact hserver) hother
  have hkept := FileTree.lookup_of_le (le_createDir hcall) hfile
  refine ⟨tree', initializeDirectories_eq_true_iff.mpr ⟨rfl, tree, tree, ?_⟩, hkept⟩
  rcases List.mem_pair.mp hdirs with heq | heq
  · cases heq
    exact ⟨tree, createDir_of_exists answers htech, createDir_of_exists answers hserver,
      createDir_of_exists answers hfile, hcall⟩
  · cases heq
    exact ⟨tree', createDir_of_exists answers htech, createDir_of_exists answers hserver,
      hcall, createDir_of_exists answers hkept⟩

/-- If `Initialize` returns true, all paths are directories, no entry has changed and calling it
again changes nothing. -/
def ProvidesDirectories (fs : Filesystem) (home : Path) (answers : Path → Creation)
    (tree : Tree) : Prop :=
  ∀ fs' tree', fs.initializeDirectories home answers tree = (.ok true, fs', tree') →
    (∀ cd, tree'.lookup (fs'.getPath cd) = some .directory ∧ fs'.listDirectory tree' cd ≠ none) ∧
      tree ≤ tree' ∧
      ∀ answers', fs'.initializeDirectories home answers' tree' = (.ok true, fs', tree')

/-- A path that is no file, unless the other one is neither there nor to be had. -/
def Usable (answers : Path → Creation) (tree : Tree) (path other : Path) : Prop :=
  ∀ content, tree.lookup path = some (.file content) →
    tree.lookup other = none ∧ answers other ≠ .created

/-- After a successful call a usable sub directory is one. -/
lemma Usable.lookup_eq {dir other : String}
    (hdirs : (dir, other) ∈ [("plugins", "data"), ("data", "plugins")])
    (husable : Usable answers tree (mainDir home ++ [dir]) (mainDir home ++ [other]))
    (h : fs.initializeDirectories home answers tree = (.ok true, fs', tree')) :
    tree'.lookup (mainDir home ++ [dir]) = some .directory := by
  obtain ⟨hdir, hother⟩ : dir ∈ requiredDirectories ∧ other ∈ requiredDirectories := by
    rcases List.mem_pair.mp hdirs with heq | heq <;> cases heq <;> decide
  rcases (lookup_initializeDirectories h hdir).2 with hdirectory | ⟨content, hfile⟩
  · exact hdirectory
  · obtain ⟨hnone, hrefused⟩ := husable content hfile
    rcases (lookup_initializeDirectories h hother).1 with hsome | hcreated
    · exact absurd hnone hsome
    · exact absurd hcreated hrefused

lemma providesDirectories_of_usable
    (hplugins : Usable answers tree (mainDir home ++ ["plugins"]) (mainDir home ++ ["data"]))
    (hdata : Usable answers tree (mainDir home ++ ["data"]) (mainDir home ++ ["plugins"])) :
    fs.ProvidesDirectories home answers tree := by
  intro fs' tree' h
  obtain ⟨rfl, -⟩ := initializeDirectories_eq_true_iff.mp h
  have hplugins' := hplugins.lookup_eq (by simp) h
  have hdata' := hdata.lookup_eq (by simp) h
  have hpath : ∀ cd, tree'.lookup (getPath ⟨mainDir home⟩ cd) = some .directory := by
    intro cd
    cases cd with
    | appDirectory => exact FileTree.lookup_parent hplugins'
    | plugins => exact hplugins'
    | data => exact hdata'
  refine ⟨fun cd => ⟨hpath cd, ?_⟩, le_initializeDirectories h, fun answers' => ?_⟩
  · rw [listDirectory, hpath cd]
    simp
  · exact initializeDirectories_of_exists _ answers' hplugins' hdata'

lemma usable_of_providesDirectories {dir other : String}
    (hdirs : (dir, other) ∈ [("plugins", "data"), ("data", "plugins")])
    (h : fs.ProvidesDirectories home answers tree) :
    Usable answers tree (mainDir home ++ [dir]) (mainDir home ++ [other]) := by
  intro content hfile
  by_contra hnot
  have hother : tree.lookup (mainDir home ++ [other]) ≠ none ∨
      answers (mainDir home ++ [other]) = .created := by
    by_contra hneither
    obtain ⟨hnone, hrefused⟩ := not_or.mp hneither
    exact hnot ⟨not_not.mp hnone, hrefused⟩
  obtain ⟨tree', hinitialize, hkept⟩ := initializeDirectories_of_file fs hdirs hfile hother
  have hpath := (h _ _ hinitialize).1
  rcases List.mem_pair.mp hdirs with heq | heq
  · cases heq
    exact absurd (hkept.symm.trans (hpath .plugins).1) (by simp)
  · cases heq
    exact absurd (hkept.symm.trans (hpath .data).1) (by simp)

/-- `Initialize` provides the directories unless one of `plugins` and `data` is a file and the other
one exists or can be created. -/
theorem providesDirectories_iff (fs : Filesystem) (home : Path) (answers : Path → Creation)
    (tree : Tree) :
    fs.ProvidesDirectories home answers tree ↔
      Usable answers tree (mainDir home ++ ["plugins"]) (mainDir home ++ ["data"]) ∧
        Usable answers tree (mainDir home ++ ["data"]) (mainDir home ++ ["plugins"]) := by
  constructor
  · intro h
    exact ⟨usable_of_providesDirectories (by simp) h, usable_of_providesDirectories (by simp) h⟩
  · rintro ⟨hplugins, hdata⟩
    exact providesDirectories_of_usable hplugins hdata

/-- A tree with a file `plugins` in the directory of the application. -/
def pluginsFile : Tree where
  entries := ⟨[⟨["home", "ezTech", "ezServer", "plugins"], .file []⟩,
    ⟨["home", "ezTech", "ezServer"], .directory⟩, ⟨["home", "ezTech"], .directory⟩,
    ⟨["home"], .directory⟩, ⟨[], .directory⟩], by unfold List.NodupKeys; decide⟩
  parents := by
    show ∀ path ∈ List.keys _, path ≠ [] → _
    decide

/-- `Initialize` is content with the file, although every directory could be created. -/
theorem not_providesDirectories_pluginsFile :
    ¬ ProvidesDirectories ⟨[]⟩ ["home"] (fun _ => .created) pluginsFile := by
  intro h
  have husable := usable_of_providesDirectories
    (show ("plugins", "data") ∈ [("plugins", "data"), ("data", "plugins")] by simp) h
  exact (husable [] (by decide)).2 rfl

end Filesystem

end EzServer.Services
