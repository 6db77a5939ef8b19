import BundleCheck.Text.Split
import BundleCheck.Text.Utf8

/-! # Paths

Paths and the names of files are bytes. Most of them are texts, but none has to be. A relative path
starts at the working directory. -/

namespace BundleCheck

open Text

/-- A path, or a name on it. -/
@[ext]
structure FilePath where
  bytes : List UInt8
  deriving DecidableEq, Inhabited

namespace FilePath

def ofText (text : String) : FilePath where
  bytes := utf8 text

instance : Coe String FilePath :=
  ⟨ofText⟩

instance : Coe (List String) (List FilePath) :=
  ⟨List.map ofText⟩

/-- The text that the bytes encode, if they encode one. -/
def text? (path : FilePath) : Option String :=
  ofUtf8? path.bytes

def display (path : FilePath) : String :=
  ofUtf8Lossy path.bytes

instance : LT FilePath :=
  ⟨fun p q => p.bytes < q.bytes⟩

instance (p q : FilePath) : Decidable (p < q) :=
  inferInstanceAs (Decidable (p.bytes < q.bytes))

/-! ## Parts -/

def slash : UInt8 := 0x2F

def point : UInt8 := 0x2E

/-- The name of a directory in itself. -/
def here : FilePath := "."

/-- The name of the directory above. -/
def above : FilePath := ".."

def isAbsolute (path : FilePath) : Bool :=
  path.bytes.head? == some slash

/-- The pieces between the slashes of a path, empty ones included. -/
def parts (path : FilePath) : List FilePath :=
  (pieces (· == slash) path.bytes).map mk

/-- The path of `target` as seen from the directory `base`. -/
def join (base target : FilePath) : FilePath :=
  if isAbsolute target then target
  else if base.bytes.isEmpty || base.bytes.getLast? == some slash then
    ⟨base.bytes ++ target.bytes⟩
  else ⟨base.bytes ++ slash :: target.bytes⟩

/-- Drops slashes, and points between slashes, from the end of a path in reverse. -/
def dropSlashes : List UInt8 → List UInt8
  | 0x2F :: rest => dropSlashes rest
  | 0x2E :: 0x2F :: rest => dropSlashes rest
  | bytes => bytes

/-- The directory of a path: the path without its last name, or the working directory if that
leaves nothing. -/
def directory (path : FilePath) : FilePath :=
  let front := dropSlashes ((dropSlashes path.bytes.reverse).dropWhile (· != slash))
  if front.isEmpty then (if isAbsolute path then ⟨[slash]⟩ else here) else ⟨front.reverse⟩

/-- What follows the last point of a name, unless the name begins with that point. -/
def extension? (name : FilePath) : Option FilePath :=
  match cutLast point name.bytes with
  | some (stem, extension) => if stem.isEmpty then none else some ⟨extension⟩
  | none => none

/-! ## Places -/

/-- One step along a path from a directory, which the names lead to from the top. -/
def enter (names : List FilePath) (part : FilePath) : List FilePath :=
  if part.bytes.isEmpty || part == here then names
  else if part == above then names.dropLast
  else names ++ [part]

/-- The places that a path passes through, as seen from a directory, the last one first. -/
def trail (directory : List FilePath) (path : FilePath) : List (List FilePath) :=
  (parts path).foldl (fun places part => enter (places.headD []) part :: places)
    [if isAbsolute path then [] else directory]

/-- The names that lead from the top to a path, as seen from a directory. -/
def resolve (directory : List FilePath) (path : FilePath) : List FilePath :=
  (trail directory path).headD []

end FilePath

end BundleCheck
