import BundleCheck.FileTree
import BundleCheck.Proofs.Except
import BundleCheck.Proofs.FilePath

/-! # Laws of file trees

In a tree whose directories give each entry a name of its own, a path that is made by joining names
to a directory leads to what the names lead to, entry by entry. Every tree that is made of files
under their paths is of this kind. -/

namespace BundleCheck

open Text

/-! ## Well-formed trees -/

/-- Every directory gives each of its entries a name of its own. -/
inductive FileEntry.IsWellFormed : FileEntry → Prop
  | file (bytes : List UInt8) : IsWellFormed (.file bytes)
  | directory {entries : List (FilePath × FileEntry)} (distinct : (entries.map Prod.fst).Nodup)
      (names : ∀ e ∈ entries, IsName e.1) (inner : ∀ e ∈ entries, IsWellFormed e.2) :
      IsWellFormed (.directory entries)

theorem FileEntry.isWellFormed_directory_iff {entries : List (FilePath × FileEntry)} :
    (directory entries).IsWellFormed ↔
      (entries.map Prod.fst).Nodup ∧ ∀ e ∈ entries, IsName e.1 ∧ e.2.IsWellFormed := by
  constructor
  · rintro (_ | ⟨distinct, names, inner⟩)
    exact ⟨distinct, fun e he => ⟨names e he, inner e he⟩⟩
  · rintro ⟨distinct, h⟩
    exact .directory distinct (fun e he => (h e he).1) fun e he => (h e he).2

def FileTree.IsWellFormed (tree : FileTree) : Prop :=
  (FileEntry.directory tree.top).IsWellFormed

/-- The names lead from an entry to another one, each of them to an entry of the directory that
was reached before. -/
inductive FileEntry.Leads : FileEntry → List FilePath → FileEntry → Prop
  | here (entry : FileEntry) : Leads entry [] entry
  | through {entries : List (FilePath × FileEntry)} {name : FilePath} {names : List FilePath}
      {inner target : FileEntry} (hentry : (name, inner) ∈ entries)
      (hrest : Leads inner names target) : Leads (.directory entries) (name :: names) target

namespace FileEntry

variable {entry target : FileEntry} {entries : List (FilePath × FileEntry)} {name : FilePath}
  {names : List FilePath}

theorem Leads.isName (h : Leads entry names target) (hentry : entry.IsWellFormed) :
    ∀ name ∈ names, IsName name := by
  induction h with
  | here => exact nofun
  | through hmem _ ih =>
      obtain ⟨-, hentries⟩ := isWellFormed_directory_iff.mp hentry
      obtain ⟨hname, hinner⟩ := hentries _ hmem
      exact List.forall_mem_cons.mpr ⟨hname, ih hinner⟩

end FileEntry

/-! ## Looking up -/

/-- Where each entry has a name of its own, it is found under it. -/
theorem lookup_eq_some_iff_mem {entries : List (FilePath × FileEntry)}
    (h : (entries.map Prod.fst).Nodup) {name : FilePath} {entry : FileEntry} :
    entries.lookup name = some entry ↔ (name, entry) ∈ entries := by
  induction entries with
  | nil => simp
  | cons e es ih =>
      obtain ⟨key, value⟩ := e
      obtain ⟨hkey, hes⟩ := List.nodup_cons.mp h
      rw [List.lookup_cons, List.mem_cons, Prod.mk.injEq]
      by_cases hname : name = key
      · subst hname
        have hrest : (name, entry) ∉ es := fun hmem =>
          hkey (List.mem_map.mpr ⟨_, hmem, rfl⟩)
        simp [hrest, eq_comm]
      · have hbeq : (name == key) = false := by simpa using hname
        simp [hbeq, hname, ih hes]

theorem FileEntry.IsWellFormed.of_lookup {entries : List (FilePath × FileEntry)}
    (hentries : (FileEntry.directory entries).IsWellFormed) {name : FilePath} {entry : FileEntry}
    (h : entries.lookup name = some entry) : entry.IsWellFormed := by
  obtain ⟨distinct, hinner⟩ := isWellFormed_directory_iff.mp hentries
  exact (hinner _ ((lookup_eq_some_iff_mem distinct).mp h)).2

namespace FileTree

open FileEntry (Leads)

variable {tree : FileTree} {path name : FilePath} {names : List FilePath}
  {entry target : FileEntry} {entries : List (FilePath × FileEntry)}

end FileTree

/-! ## Building -/

namespace FileEntry

variable {entries : List (FilePath × FileEntry)} {entry : FileEntry} {name : FilePath}
  {names : List FilePath}

theorem isWellFormed_empty : (directory []).IsWellFormed :=
  .directory .nil nofun nofun

theorem isWellFormed_put (hname : IsName name) (hentry : entry.IsWellFormed)
    (hentries : (directory entries).IsWellFormed) :
    (directory (put name entry entries)).IsWellFormed := by
  cases hentries with
  | directory distinct isNames inner =>
      refine .directory ?_ ?_ ?_
      · have hkept : ((entries.filter fun e => e.1 != name).map Prod.fst).Nodup :=
          distinct.sublist (List.filter_sublist.map Prod.fst)
        have hname : name ∉ (entries.filter fun e => e.1 != name).map Prod.fst := by simp
        rw [put, List.map_append, List.map_singleton]
        exact (List.perm_append_singleton _ _).nodup_iff.mpr (hkept.cons hname)
      · exact List.forall_mem_append.mpr
          ⟨fun e he => isNames e (List.mem_of_mem_filter he), List.forall_mem_singleton.mpr hname⟩
      · exact List.forall_mem_append.mpr
          ⟨fun e he => inner e (List.mem_of_mem_filter he), List.forall_mem_singleton.mpr hentry⟩

theorem isWellFormed_add (hentry : entry.IsWellFormed) (hnames : ∀ name ∈ names, IsName name)
    (hentries : (directory entries).IsWellFormed) :
    (directory (entry.add names entries)).IsWellFormed := by
  induction names generalizing entries with
  | nil => exact hentries
  | cons name rest ih =>
      obtain ⟨hname, hrest⟩ := List.forall_mem_cons.mp hnames
      cases rest with
      | nil =>
          unfold add
          split
          · exact hentries
          · exact isWellFormed_put hname hentry hentries
      | cons next rest =>
          refine isWellFormed_put hname (ih hrest ?_) hentries
          split
          next inner hlookup => exact hentries.of_lookup hlookup
          next => exact isWellFormed_empty

end FileEntry

namespace FilePath

variable {path part : FilePath} {names directory : List FilePath}

theorem isName_of_mem_enter (hnames : ∀ name ∈ names, IsName name) (hpart : slash ∉ part.bytes) :
    ∀ name ∈ enter names part, IsName name := by
  unfold enter
  split
  next => exact hnames
  next hkept =>
    obtain ⟨hempty, hhere⟩ : part.bytes ≠ [] ∧ part ≠ here := by simpa using hkept
    split
    next => exact fun name hname => hnames name (List.dropLast_subset _ hname)
    next habove =>
      have hname : IsName part := ⟨hempty, hhere, by simpa using habove, hpart⟩
      exact List.forall_mem_append.mpr ⟨hnames, List.forall_mem_singleton.mpr hname⟩

theorem slash_not_mem_of_mem_parts (h : part ∈ parts path) : slash ∉ part.bytes := by
  obtain ⟨piece, hpiece, rfl⟩ := List.mem_map.mp h
  intro hslash
  simpa using eq_false_of_mem_pieces hpiece slash hslash

theorem isName_of_mem_trail (hdirectory : ∀ name ∈ directory, IsName name) (path : FilePath) :
    ∀ place ∈ trail directory path, ∀ name ∈ place, IsName name := by
  refine List.foldlRecOn (motive := fun places : List (List FilePath) =>
    ∀ place ∈ places, ∀ name ∈ place, IsName name) _ _ ?_ fun places hplaces part hpart => ?_
  · refine List.forall_mem_singleton.mpr ?_
    split
    · exact nofun
    · exact hdirectory
  · refine List.forall_mem_cons.mpr ⟨isName_of_mem_enter ?_ ?_, hplaces⟩
    · cases places with
      | nil => exact nofun
      | cons place _ => exact hplaces place (by simp)
    · exact slash_not_mem_of_mem_parts hpart

end FilePath

namespace FileTree

variable {workingDirectory : List FilePath} {entries : List (FilePath × FileEntry)}

theorem isWellFormed_addFile {file : FilePath × FileEntry}
    (hdirectory : ∀ name ∈ workingDirectory, IsName name) (hfile : file.2.IsWellFormed)
    (hentries : (FileEntry.directory entries).IsWellFormed) :
    (FileEntry.directory (addFile workingDirectory entries file)).IsWellFormed := by
  have hplaces := FilePath.isName_of_mem_trail hdirectory file.1
  refine FileEntry.isWellFormed_add hfile ?_ ?_
  · cases htrail : FilePath.trail workingDirectory file.1 with
    | nil => exact nofun
    | cons place _ => exact hplaces place (htrail ▸ by simp)
  · refine List.foldlRecOn (motive := fun entries : List (FilePath × FileEntry) =>
      (FileEntry.directory entries).IsWellFormed) _ _ hentries fun entries hentries place h => ?_
    refine FileEntry.isWellFormed_add FileEntry.isWellFormed_empty (hplaces place ?_) hentries
    exact List.mem_of_mem_tail (List.mem_reverse.mp h)

/-- Files that are put under their paths make a well-formed tree. -/
theorem isWellFormed_ofFiles {files : List (FilePath × FileEntry)}
    (hdirectory : ∀ name ∈ workingDirectory, IsName name)
    (hfiles : ∀ file ∈ files, file.2.IsWellFormed) :
    (ofFiles workingDirectory files).IsWellFormed := by
  refine List.foldlRecOn (motive := fun entries : List (FilePath × FileEntry) =>
    (FileEntry.directory entries).IsWellFormed) _ _ ?_ fun entries hentries file hfile => ?_
  · exact FileEntry.isWellFormed_add FileEntry.isWellFormed_empty hdirectory
      FileEntry.isWellFormed_empty
  · exact isWellFormed_addFile hdirectory (hfiles file hfile) hentries

end FileTree

end BundleCheck
