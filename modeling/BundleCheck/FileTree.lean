import BundleCheck.FilePath

/-! # File trees

A file tree is a snapshot of directories and files. -/

namespace BundleCheck

open Text

inductive FileEntry
  | file (bytes : List UInt8)
  | directory (entries : List (FilePath × FileEntry))
  deriving Inhabited

inductive FileError
  | notFound
  | notDirectory
  | isDirectory
  | notText
  deriving DecidableEq

def FileError.message : FileError → String
  | .notFound => "No such file or directory (os error 2)"
  | .notDirectory => "Not a directory (os error 20)"
  | .isDirectory => "Is a directory (os error 21)"
  | .notText => "stream did not contain valid UTF-8"

/-- The entries of the top directory, and the names that lead from it to the working one. -/
structure FileTree where
  top : List (FilePath × FileEntry)
  workingDirectory : List FilePath

/-! ## Building -/

def FileEntry.put (name : FilePath) (entry : FileEntry) (entries : List (FilePath × FileEntry)) :
    List (FilePath × FileEntry) :=
  entries.filter (fun e => e.1 != name) ++ [(name, entry)]

/-- Puts an entry where names lead. Missing directories are made; an empty directory leaves one
that is there as it is. -/
def FileEntry.add (entry : FileEntry) :
    List FilePath → List (FilePath × FileEntry) → List (FilePath × FileEntry)
  | [], entries => entries
  | [name], entries =>
      match entry, entries.lookup name with
      | .directory [], some (.directory _) => entries
      | _, _ => FileEntry.put name entry entries
  | name :: rest, entries =>
      let inner :=
        match entries.lookup name with
        | some (.directory inner) => inner
        | _ => []
      FileEntry.put name (.directory (add entry rest inner)) entries

namespace FileTree

def addFile (workingDirectory : List FilePath) (entries : List (FilePath × FileEntry))
    (file : FilePath × FileEntry) : List (FilePath × FileEntry) :=
  let places := FilePath.trail workingDirectory file.1
  file.2.add (places.headD [])
    (places.tail.reverse.foldl (fun entries place => FileEntry.add (.directory []) place entries)
      entries)

def ofFiles (workingDirectory : List FilePath) (files : List (FilePath × FileEntry)) :
    FileTree where
  top := files.foldl (addFile workingDirectory) (FileEntry.add (.directory []) workingDirectory [])
  workingDirectory

/-! ## Looking up -/

/-- Goes one step from a directory; `trail` holds it and the directories above it. -/
def step (trail : List FileEntry) (part : FilePath) : Except FileError (List FileEntry) :=
  match trail with
  | .directory entries :: above =>
      if part.bytes.isEmpty || part == FilePath.here then .ok trail
      else if part == FilePath.above then .ok (if above.isEmpty then trail else above)
      else
        match entries.lookup part with
        | some entry => .ok (entry :: trail)
        | none => .error .notFound
  | _ => .error .notDirectory

def lookup (tree : FileTree) (path : FilePath) : Except FileError FileEntry :=
  if path.bytes.isEmpty then .error .notFound
  else do
    let start := if path.isAbsolute then [] else tree.workingDirectory
    let trail ← (start ++ path.parts).foldlM step [.directory tree.top]
    match trail with
    | entry :: _ => .ok entry
    | [] => .error .notFound

def contains (tree : FileTree) (path : FilePath) : Bool :=
  (tree.lookup path).isOk

def isDirectory (tree : FileTree) (path : FilePath) : Bool :=
  match tree.lookup path with
  | .ok (.directory _) => true
  | _ => false

def isFile (tree : FileTree) (path : FilePath) : Bool :=
  match tree.lookup path with
  | .ok (.file _) => true
  | _ => false

/-! ## Reading -/

def readBytes (tree : FileTree) (path : FilePath) : Except FileError (List UInt8) := do
  match ← tree.lookup path with
  | .file bytes => .ok bytes
  | .directory _ => .error .isDirectory

def readText (tree : FileTree) (path : FilePath) : Except FileError String := do
  match ofUtf8? (← tree.readBytes path) with
  | some text => .ok text
  | none => .error .notText

/-- The entries of a directory; none if the path names no directory. -/
def entriesOf (tree : FileTree) (path : FilePath) : List (FilePath × FileEntry) :=
  match tree.lookup path with
  | .ok (.directory entries) => entries
  | _ => []

end FileTree

/-! ## Walking -/

mutual

/-- The files below a directory's entry, each with the names that lead to it, without the
entries that `skips` names. -/
def FileEntry.files (skips : FilePath → FileEntry → Bool) (name : FilePath) :
    FileEntry → List (List FilePath)
  | .file _ => [[name]]
  | .directory entries => (filesOf skips entries).map (name :: ·)

def FileEntry.filesOf (skips : FilePath → FileEntry → Bool) :
    List (FilePath × FileEntry) → List (List FilePath)
  | [] => []
  | (name, entry) :: rest =>
      (if skips name entry then [] else entry.files skips name) ++ filesOf skips rest

end

end BundleCheck
