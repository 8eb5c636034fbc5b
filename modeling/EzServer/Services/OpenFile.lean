import EzServer.Services.Resolution

/-!
# Opening files

`OpenFile` hands every path to the constructor of a `std::fstream`, whatever the mode. That opens a
file for reading and writing, from its start; it creates none and reports a failure only through the
state of the stream.
-/

namespace EzServer.Services

open EzServer.Core

/-! ### Streams -/

/-- What the operating system permits under names. -/
structure Access where
  /-- The file may be opened for reading and writing. -/
  opens : List String → Bool
  /-- Files may be created in the directory. -/
  writable : List String → Bool

/-- A `std::fstream`. -/
structure FStream where
  /-- The file it is connected to, `none` if it is not open. -/
  file : Option Path
  /-- Where the next write starts. -/
  position : Nat
  deriving DecidableEq, Repr

/-- Put bytes at a position, over what is there and on past the end. -/
def overwrite (content : List UInt8) (position : Nat) (bytes : List UInt8) : List UInt8 :=
  content.take position ++ bytes ++ content.drop (position + bytes.length)

namespace FStream

/-- `std::fstream(path)`, that is in the mode `in | out`. -/
def ofPath (access : Access) (tree : Tree) (names : List String) : FStream :=
  match resolve tree [] names with
  | none => ⟨none, 0⟩
  | some path =>
    match tree.lookup path with
    | some (.file _) => if access.opens names then ⟨some path, 0⟩ else ⟨none, 0⟩
    | _ => ⟨none, 0⟩

/-- `is_open` -/
def isOpen (s : FStream) : Bool := s.file.isSome

/-- Write bytes through a stream; nothing happens if it is not open. -/
def write (s : FStream) (tree : Tree) (bytes : List UInt8) : FStream × Tree :=
  match s.file with
  | none => (s, tree)
  | some path =>
    match tree.lookup path with
    | some (.file content) =>
      ({ s with position := s.position + bytes.length },
        tree.setContent path (overwrite content s.position bytes))
    | _ => (s, tree)

/-- One write after the other. -/
def writeAll (s : FStream) (tree : Tree) : List (List UInt8) → FStream × Tree
  | [] => (s, tree)
  | bytes :: writes => (s.write tree bytes).1.writeAll (s.write tree bytes).2 writes

end FStream

/-- `OpenFile`, with the tree it leaves behind. -/
def Filesystem.openFile (fs : Filesystem) (access : Access) (tree : Tree)
    (cd : CommonDirectories) (path : List String) (_mode : FileMode) :
    Except Exception FStream × Tree :=
  (.ok (.ofPath access tree (fs.getPath cd ++ path)), tree)

/-! ### What is written -/

/-- After some bytes the next ones follow them. -/
lemma overwrite_written (content written bytes : List UInt8) :
    overwrite (written ++ content.drop written.length) written.length bytes =
      written ++ bytes ++ content.drop (written ++ bytes).length := by
  rw [overwrite, List.take_left, List.drop_length_add_append, List.drop_drop, List.length_append]

namespace FStream

variable {access : Access} {tree : Tree} {path : Path} {names : List String}

lemma ofPath_of_file {content : List UInt8} (hresolve : resolve tree [] names = some path)
    (h : tree.lookup path = some (.file content)) :
    ofPath access tree names = if access.opens names then ⟨some path, 0⟩ else ⟨none, 0⟩ := by
  rw [ofPath, hresolve]
  dsimp only
  rw [h]

/-- An open stream is connected to a file. -/
lemma isOpen_ofPath_iff : (ofPath access tree names).isOpen = true ↔
    (∃ content, find tree names = some (.file content)) ∧ access.opens names = true := by
  rw [ofPath, find]
  cases resolve tree [] names with
  | none => simp [isOpen]
  | some path =>
    rw [Option.bind_some]
    dsimp only
    cases tree.lookup path with
    | none => simp [isOpen]
    | some node =>
      cases node with
      | directory => simp [isOpen]
      | file content => cases access.opens names <;> simp [isOpen]

/-- All writes together replace the first bytes of the file. -/
lemma lookup_writeAll {content written : List UInt8}
    (h : tree.lookup path = some (.file (written ++ content.drop written.length)))
    (writes : List (List UInt8)) :
    (writeAll ⟨some path, written.length⟩ tree writes).2.lookup path =
      some (.file (written ++ writes.flatten ++
        content.drop (written ++ writes.flatten).length)) := by
  induction writes generalizing tree written with
  | nil => simpa [writeAll] using h
  | cons bytes writes ih =>
    have hwrite : write ⟨some path, written.length⟩ tree bytes =
        (⟨some path, (written ++ bytes).length⟩,
          tree.setContent path (written ++ bytes ++ content.drop (written ++ bytes).length)) := by
      simp only [write, h, overwrite_written, List.length_append]
    rw [writeAll, hwrite, List.flatten_cons, ← List.append_assoc]
    apply ih
    rw [FileTree.lookup_setContent h, if_pos rfl]

end FStream

/-! ### The contract -/

namespace Filesystem

/-- What `OpenFile` is documented to do: it opens the file or throws, it creates the file in the two
modes that say so, and in the two modes that append no write takes anything from the file. -/
structure HonoursContract (fs : Filesystem) (access : Access) (tree : Tree)
    (cd : CommonDirectories) (path : List String) (mode : FileMode) : Prop where
  opens_or_throws : (∃ e, (fs.openFile access tree cd path mode).1 = .error e) ∨
    ∃ s : FStream, (fs.openFile access tree cd path mode).1 = .ok s ∧ s.isOpen = true
  creates : mode = .create ∨ mode = .createOrAppend →
    find tree (fs.getPath cd ++ path) = none →
    find tree (fs.getPath cd ++ path).dropLast = some .directory →
    access.writable (fs.getPath cd ++ path).dropLast = true →
    ∃ content, find (fs.openFile access tree cd path mode).2 (fs.getPath cd ++ path) =
      some (.file content)
  appends : mode = .createOrAppend ∨ mode = .append →
    ∀ (s : FStream) (file : Path) (content : List UInt8) (writes : List (List UInt8)),
      (fs.openFile access tree cd path mode).1 = .ok s →
      resolve tree [] (fs.getPath cd ++ path) = some file →
      tree.lookup file = some (.file content) →
      ∃ now, content <+: now ∧
        (s.writeAll (fs.openFile access tree cd path mode).2 writes).2.lookup file =
          some (.file now)

variable {fs : Filesystem} {access : Access} {tree : Tree} {cd : CommonDirectories}
  {path : List String} {mode : FileMode}

/-- Nothing is thrown, so the stream has to be open. -/
lemma HonoursContract.file (h : fs.HonoursContract access tree cd path mode) :
    (∃ content, find tree (fs.getPath cd ++ path) = some (.file content)) ∧
      access.opens (fs.getPath cd ++ path) = true := by
  rcases h.opens_or_throws with ⟨e, hthrows⟩ | ⟨s, hs, hopen⟩
  · cases hthrows
  · cases hs
    exact FStream.isOpen_ofPath_iff.mp hopen

/-- In a mode that appends, the first write replaces the first byte. -/
lemma HonoursContract.eq_nil (h : fs.HonoursContract access tree cd path mode)
    (hmode : mode = .createOrAppend ∨ mode = .append) {content : List UInt8}
    (hfile : find tree (fs.getPath cd ++ path) = some (.file content)) : content = [] := by
  obtain ⟨file, hresolve, hlookup⟩ := find_eq_some_iff.mp hfile
  cases content with
  | nil => rfl
  | cons byte content =>
    have hopens := h.file.2
    have : Nontrivial UInt8 := ⟨0, 1, by decide⟩
    obtain ⟨other, hother⟩ := exists_ne byte
    obtain ⟨now, hprefix, hnow⟩ := h.appends hmode _ _ _ [[other]] rfl hresolve hlookup
    rw [FStream.ofPath_of_file hresolve hlookup, if_pos hopens] at hnow
    have hwritten := @FStream.lookup_writeAll _ _ (byte :: content) [] hlookup [[other]]
    cases hnow.symm.trans hwritten
    simp [hother.symm] at hprefix

/-- `OpenFile` does what it is documented to do iff the file is there and may be opened, and nothing
is to be appended to a file that is not empty. -/
theorem honoursContract_iff :
    fs.HonoursContract access tree cd path mode ↔
      access.opens (fs.getPath cd ++ path) = true ∧
        ∃ content, find tree (fs.getPath cd ++ path) = some (.file content) ∧
          (mode = .create ∨ content = []) := by
  constructor
  · intro h
    obtain ⟨⟨content, hfile⟩, hopens⟩ := h.file
    refine ⟨hopens, content, hfile, ?_⟩
    cases mode with
    | create => exact Or.inl rfl
    | createOrAppend => exact Or.inr (h.eq_nil (Or.inl rfl) hfile)
    | append => exact Or.inr (h.eq_nil (Or.inr rfl) hfile)
  · rintro ⟨hopens, content, hfile, hmode⟩
    constructor
    · right
      exact ⟨_, rfl, FStream.isOpen_ofPath_iff.mpr ⟨⟨content, hfile⟩, hopens⟩⟩
    · intro hcreates habsent
      rw [hfile] at habsent
      cases habsent
    · intro happends s file content' writes hs hresolve hlookup
      cases hs
      cases hfile.symm.trans (find_eq_some_iff.mpr ⟨file, hresolve, hlookup⟩)
      rcases hmode with rfl | rfl
      · rcases happends with hmode | hmode <;> cases hmode
      · rw [FStream.ofPath_of_file hresolve hlookup, if_pos hopens]
        exact ⟨_, List.nil_prefix, @FStream.lookup_writeAll _ _ [] [] hlookup writes⟩

/-- A directory `data` with the file `users`, which holds one byte. -/
def usersFile : Tree where
  entries := ⟨[⟨["app", "data", "users"], .file [0x41]⟩, ⟨["app", "data"], .directory⟩,
    ⟨["app"], .directory⟩, ⟨[], .directory⟩], by unfold List.NodupKeys; decide⟩
  parents := by
    show ∀ path ∈ List.keys _, path ≠ [] → _
    decide

-- the operating system follows `.`
example : (FStream.ofPath ⟨fun _ => true, fun _ => true⟩ usersFile
    ["app", "data", ".", "users"]).file = some ["app", "data", "users"] := by decide

/-- In the default mode an absent file is neither created nor reported, and what is written to an
existing one does not follow its content. -/
theorem not_honoursContract_createOrAppend :
    ¬ HonoursContract ⟨["app"]⟩ ⟨fun _ => true, fun _ => true⟩ usersFile .data ["log"]
        .createOrAppend ∧
      ¬ HonoursContract ⟨["app"]⟩ ⟨fun _ => true, fun _ => true⟩ usersFile .data ["users"]
        .createOrAppend := by
  constructor
  · intro h
    obtain ⟨content, hfile⟩ := h.file.1
    have habsent : find usersFile ["app", "data", "log"] = none := by decide
    cases habsent.symm.trans hfile
  · intro h
    have hfile : find usersFile ["app", "data", "users"] = some (.file [0x41]) := by decide
    cases h.eq_nil (Or.inl rfl) hfile

end Filesystem

end EzServer.Services
