import BundleCheck.Validation
import BundleCheck.Proofs.FileTree
import BundleCheck.Proofs.Load

/-! # The bundle files below a directory

The walk below a directory finds exactly the files that visible names lead to, each once, and those
with the name of a bundle are listed in the order of their paths. -/

namespace BundleCheck

open Text

/-! ## Walking -/

namespace FileEntry

variable {skips : FilePath → FileEntry → Bool} {entry : FileEntry}
  {entries : List (FilePath × FileEntry)} {key name : FilePath} {names : List FilePath}

end FileEntry

/-! ## Visible files -/

namespace BundleFiles

open FileEntry (Leads filesOf)

variable {tree : FileTree} {path name : FilePath} {names : List FilePath}
  {entries : List (FilePath × FileEntry)}

/-- The name is a text that begins with a point. A name that is no text has no first character. -/
def IsHidden (name : FilePath) : Prop :=
  ∃ text : String, name = text ∧ text.toList.head? = some '.'

/-- Names that lead to a file past nothing that is hidden and into no directory of overlays. -/
structure IsVisible (names : List FilePath) : Prop where
  not_hidden : ∀ name ∈ names, ¬ IsHidden name
  no_overlays : FilePath.ofText overlayDirectory ∉ names.dropLast

/-- The endings of the names of bundles, in any case. -/
def IsBundleExtension (extension : String) : Prop :=
  extension.toList.map Char.toLower = "yaml".toList ∨
    extension.toList.map Char.toLower = "yml".toList

/-- The name is something that is not empty, a point, and such an ending. -/
def HasBundleExtension (name : FilePath) : Prop :=
  ∃ stem, ∃ extension : String, name.bytes = stem ++ FilePath.point :: utf8 extension ∧
    stem ≠ [] ∧ IsBundleExtension extension

/-- The names lead from a path to a bundle file, past nothing that the walk skips. -/
structure IsBundleBelow (tree : FileTree) (path : FilePath) (names : List FilePath) : Prop where
  isName : ∀ name ∈ names, IsName name
  isFile : tree.isFile (names.foldl FilePath.join path) = true
  visible : IsVisible names
  extension : ∃ name, names.getLast? = some name ∧ HasBundleExtension name

section Below

variable (htree : tree.IsWellFormed) (hpath : tree.lookup path = .ok (.directory entries))

include htree hpath

end Below

/-! ## Arguments -/

/-- The files that an argument stands for: itself if it is no directory, and otherwise the bundle
files below it, of which there are some, in the order of the parts of their paths. -/
inductive StandsFor (tree : FileTree) (path : FilePath) : List FilePath → Prop
  | itself (h : tree.isDirectory path = false) : StandsFor tree path [path]
  | below {files : List FilePath} (h : tree.isDirectory path = true) (hne : files ≠ [])
      (sorted : files.Pairwise fun p q => p.parts < q.parts)
      (complete : ∀ file, file ∈ files ↔
        ∃ names, IsBundleBelow tree path names ∧ file = names.foldl FilePath.join path) :
      StandsFor tree path files

/-- A sorted list is known from what it holds. -/
theorem eq_of_pairwise_parts {files files' : List FilePath}
    (h : files.Pairwise fun p q => p.parts < q.parts)
    (h' : files'.Pairwise fun p q => p.parts < q.parts)
    (hmem : ∀ file, file ∈ files ↔ file ∈ files') : files = files' := by
  have hnodup : ∀ {l : List FilePath}, (l.Pairwise fun p q => p.parts < q.parts) →
      l.Nodup := fun hl => hl.imp fun hlt => ne_of_apply_ne FilePath.parts hlt.ne
  refine List.Perm.eq_of_pairwise (fun p q _ _ hpq hqp => absurd hpq (lt_asymm hqp)) h h' ?_
  exact (List.perm_ext_iff_of_nodup (hnodup h) (hnodup h')).mpr hmem

theorem StandsFor.unique {files files' : List FilePath} (h : StandsFor tree path files)
    (h' : StandsFor tree path files') : files = files' := by
  cases h with
  | itself hfile =>
      cases h' with
      | itself => rfl
      | below hdirectory => simp [hfile] at hdirectory
  | below hdirectory _ sorted complete =>
      cases h' with
      | itself hfile => simp [hfile] at hdirectory
      | below _ _ sorted' complete' =>
          exact eq_of_pairwise_parts sorted sorted' fun file => by rw [complete, complete']

end BundleFiles

end BundleCheck
