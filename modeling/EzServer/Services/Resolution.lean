import EzServer.Core.FileMoves
import EzServer.Services.Filesystem

/-!
# Names and paths

The service appends the names that it is given to the path of a directory as they are, and it is the
operating system that follows `.` and `..`. There are no symbolic links to follow.
-/

namespace EzServer.Services

open EzServer.Core

/-- Where a name leads from a directory. -/
def follow (path : Path) (name : String) : Path :=
  if name = "." then path else if name = ".." then path.dropLast else path ++ [name]

/-- Where names lead, if there is a directory in front of each of them. -/
def resolve (tree : Tree) : Path → List String → Option Path
  | path, [] => some path
  | path, name :: names =>
    if tree.isDirectoryAt path then resolve tree (follow path name) names else none

/-- Entries cannot be removed or renamed under such names. -/
def endsInDots (names : List String) : Bool :=
  names.getLast?.any fun name => name = "." || name = ".."

/-- What is found under names. -/
def find (tree : Tree) (names : List String) : Option (Node (List UInt8)) :=
  (resolve tree [] names).bind tree.lookup

lemma find_eq_some_iff {tree : Tree} {names : List String} {node : Node (List UInt8)} :
    find tree names = some node ↔
      ∃ path, resolve tree [] names = some path ∧ tree.lookup path = some node :=
  Option.bind_eq_some_iff

/-! ### Resolving -/

section Resolving

variable {tree tree' : Tree}

lemma resolve_append (path : Path) (names more : List String) :
    resolve tree path (names ++ more) =
      (resolve tree path names).bind fun path => resolve tree path more := by
  induction names generalizing path with
  | nil => rfl
  | cons name names ih =>
    rw [List.cons_append, resolve, resolve]
    split_ifs
    · exact ih _
    · rfl

lemma isDirectoryAt_of_le (h : tree' ≤ tree) {path : Path}
    (hdir : tree'.isDirectoryAt path = true) : tree.isDirectoryAt path = true :=
  FileTree.isDirectoryAt_iff.mpr (h path _ (FileTree.isDirectoryAt_iff.mp hdir))

/-- With fewer entries names lead to the same path or nowhere. -/
lemma resolve_of_le (h : tree' ≤ tree) {path result : Path} {names : List String}
    (hresolve : resolve tree' path names = some result) :
    resolve tree path names = some result := by
  induction names generalizing path with
  | nil => exact hresolve
  | cons name names ih =>
    rw [resolve] at hresolve ⊢
    split_ifs at hresolve with hdir
    rw [if_pos (isDirectoryAt_of_le h hdir)]
    exact ih hresolve

/-- Neither `.` nor `..`. -/
def IsOrdinary (names : List String) : Prop := ∀ name ∈ names, name ≠ "." ∧ name ≠ ".."

lemma IsOrdinary.append {names more : List String} (h : IsOrdinary names)
    (h' : IsOrdinary more) : IsOrdinary (names ++ more) := by
  intro name hname
  rcases List.mem_append.mp hname with hname | hname
  · exact h name hname
  · exact h' name hname

lemma IsOrdinary.endsInDots_eq {names : List String} (h : IsOrdinary names) :
    endsInDots names = false := by
  rw [endsInDots]
  cases hlast : names.getLast? with
  | none => rfl
  | some name =>
    have hname := h name (List.mem_of_getLast? hlast)
    simp [hname]

/-- Ordinary names lead to the path that they make up. -/
lemma resolve_eq_some_iff {path result : Path} {names : List String} (h : IsOrdinary names) :
    resolve tree path names = some result ↔ result = path ++ names ∧
      ∀ l r, names = l ++ r → r ≠ [] → tree.isDirectoryAt (path ++ l) = true := by
  induction names generalizing path with
  | nil =>
    rw [resolve, List.append_nil]
    constructor
    · intro heq
      refine ⟨(Option.some.inj heq).symm, fun l r hsplit hr => ?_⟩
      exact absurd (List.append_eq_nil_iff.mp hsplit.symm).2 hr
    · rintro ⟨rfl, -⟩
      rfl
  | cons name names ih =>
    obtain ⟨hname, hnames⟩ := List.forall_mem_cons.mp h
    have hfollow : follow path name = path ++ [name] := by
      rw [follow, if_neg hname.1, if_neg hname.2]
    rw [resolve, hfollow]
    constructor
    · intro hresolve
      split_ifs at hresolve with hdir
      obtain ⟨rfl, hdirs⟩ := (ih hnames).mp hresolve
      refine ⟨by simp, fun l r hsplit hr => ?_⟩
      cases l with
      | nil => rwa [List.append_nil]
      | cons first l =>
        have hl := hdirs l r (List.cons.inj hsplit).2 hr
        rw [(List.cons.inj hsplit).1] at hl
        rwa [List.append_assoc] at hl
    · rintro ⟨rfl, hdirs⟩
      rw [if_pos (by simpa using hdirs [] (name :: names) rfl (by simp)), ih hnames]
      refine ⟨by simp, fun l r hsplit hr => ?_⟩
      rw [List.append_assoc]
      exact hdirs (name :: l) r (by rw [hsplit]; rfl) hr

/-- Without `..` names do not lead out of a directory. -/
lemma isPrefix_of_resolve {path result : Path} {names : List String} (h : ".." ∉ names)
    (hresolve : resolve tree path names = some result) : path <+: result := by
  induction names generalizing path with
  | nil => rw [Option.some.inj hresolve]
  | cons name names ih =>
    rw [resolve] at hresolve
    split_ifs at hresolve
    rw [List.mem_cons, not_or] at h
    obtain ⟨hname, hnames⟩ := h
    have hstep : path <+: follow path name := by
      rw [follow]
      split_ifs with hdot hdots
      · exact List.prefix_refl _
      · exact absurd hdots.symm hname
      · exact List.prefix_append _ _
    exact hstep.trans (ih hnames hresolve)

end Resolving

end EzServer.Services
