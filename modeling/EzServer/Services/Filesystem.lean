import EzServer.Core.FileTree

/-!
# The file system service

`Filesystem` over a tree of files. What the operating system answers when a directory is to be
created is a parameter. The tree knows no links and no permissions, and paths are those of a POSIX
system.
-/

namespace EzServer.Services

open EzServer.Core

/-- The names from the root of the file system on. -/
abbrev Path := List String

abbrev Tree := FileTree String (List UInt8)

/-- `path::string` -/
def Path.string (path : Path) : String := String.join (path.map ("/" ++ ·))

inductive CommonDirectories where
  | appDirectory
  | plugins
  | data
  deriving DecidableEq, Repr

inductive FileMode where
  | create
  | createOrAppend
  | append
  deriving DecidableEq, Repr

inductive Exception where
  | runtimeError (what : String)
  | filesystemError
  deriving DecidableEq, Repr

/-- How the operating system answers a request for a new directory. -/
inductive Creation where
  | created
  /-- `create_directory` returns false. -/
  | refused
  | threw
  deriving DecidableEq, Repr

structure Filesystem where
  /-- `app_main_dir_` -/
  appMainDir : Path
  deriving DecidableEq, Repr

/-- `boost::filesystem::create_directory` for a path where nothing is; `none` for an exception,
which there always is if the path above is no directory. -/
def createDirectory (answers : Path → Creation) (tree : Tree) (path : Path) :
    Option (Bool × Tree) :=
  match answers path, tree.makeDirectory path with
  | .created, some tree => some (true, tree)
  | .refused, some _ => some (false, tree)
  | _, _ => none

/-- `create_dir` -/
def createDir (answers : Path → Creation) (tree : Tree) (path : Path) : Except Exception Tree :=
  match tree.lookup path with
  | some _ => .ok tree
  | none =>
    match createDirectory answers tree path with
    | none => .error .filesystemError
    | some (false, _) => .error (.runtimeError ("Could not create " ++ path.string))
    | some (true, tree) => .ok tree

/-- The loop over the sub directories; an exception leaves those that are there by then. -/
def createDirs (answers : Path → Creation) (tree : Tree) : List Path → Except Exception Unit × Tree
  | [] => (.ok (), tree)
  | path :: paths =>
    match createDir answers tree path with
    | .error e => (.error e, tree)
    | .ok tree => createDirs answers tree paths

/-- `required_directories` -/
def requiredDirectories : List String := ["plugins", "data"]

namespace Filesystem

/-- `Initialize`, with the directory that `HOME` names. -/
def initializeDirectories (fs : Filesystem) (home : Path) (answers : Path → Creation)
    (tree : Tree) : Except Exception Bool × Filesystem × Tree :=
  let fs := { fs with appMainDir := home ++ ["ezTech"] }
  match createDir answers tree fs.appMainDir with
  | .error e => (.error e, fs, tree)
  | .ok tree =>
    -- the member is assigned again before this call
    let fs := { fs with appMainDir := fs.appMainDir ++ ["ezServer"] }
    match createDir answers tree fs.appMainDir with
    | .error e => (.error e, fs, tree)
    | .ok tree =>
      match createDirs answers tree (requiredDirectories.map fun dir => fs.appMainDir ++ [dir]) with
      | (.error e, tree) => (.error e, fs, tree)
      | (.ok (), tree) => (.ok true, fs, tree)

/-- `GetPath` -/
def getPath (fs : Filesystem) : CommonDirectories → Path
  | .data => fs.appMainDir ++ ["data"]
  | .plugins => fs.appMainDir ++ ["plugins"]
  | .appDirectory => fs.appMainDir

/-- `ListDirectory`; `none` for an exception. -/
def listDirectory (fs : Filesystem) (tree : Tree) (cd : CommonDirectories) : Option (List Path) :=
  match tree.lookup (fs.getPath cd) with
  | none => some []
  | some .directory => some (tree.children (fs.getPath cd))
  | some (.file _) => none

end Filesystem

end EzServer.Services
