import PatternRename.Proofs.Run.Listings

/-!
# What a listing is determined by

The tree alone determines which files a listing of a directory shows, and in which order: the files
directly inside the directory whose name is text and does not begin with a dot, in ascending order
of their names. The order in which the entries are found leaves no trace in it. Only files whose
path is too long are passed over.

## Main definitions

- `FileTree.IsListed` — the files that a listing shows

## Main results

- `Listing.mem_files_iff` — the files that are listed among some entries
- `FileTree.WellFormed.mem_files_iff` — the files that are listed in a directory
- `FileTree.WellFormed.ascending_files` — the order of listed files
- `Listing.eq_of_ascending` — files in ascending order are determined by which they are
- `RunState.listDirectory_outcome` — what a listing answers
- `RunState.listDirectory_omits_long_path` — a file that is passed over
-/

namespace PatternRename

/-! ### Files among some entries -/

theorem isHiddenName_octets (text : String) :
    isHiddenName (Text.Utf8.octets text) = false ↔ text.toList.head? ≠ some '.' := by
  rw [isHiddenName, Text.Utf8.decode?_octets]
  exact beq_eq_false_iff_ne

/-- The file at a path to an entry of a directory has the name of the entry, which must be text. -/
theorem ListedFile.ofPath_join_eq_ok_iff {directory : Path} {name : Name} {file : ListedFile}
    (h : Name.IsProper name) :
    ofPath (directory.join ⟨name⟩) = .ok file ↔
      Text.Utf8.octets file.name = name ∧ file.path = directory.join ⟨name⟩ := by
  rw [ofPath, Path.fileName?_join directory h]
  dsimp only
  constructor
  · intro hfile
    split at hfile
    · simp at hfile
    · rename_i text htext
      obtain rfl := Except.ok.inj hfile
      exact ⟨Text.Utf8.octets_of_decode? htext, rfl⟩
  · rintro ⟨rfl, hpath⟩
    rw [Text.Utf8.decode?_octets]
    exact congrArg Except.ok (congrArg (ListedFile.mk · file.name) hpath.symm)

namespace Listing

theorem mem_candidates_iff {directory path : Path} {entries : List (Name × EntryKind)} :
    path ∈ candidates directory entries ↔
      ∃ name, (name, .file) ∈ entries ∧ isHiddenName name = false ∧
        path = directory.join ⟨name⟩ ∧ FileTree.pathFault? path = none := by
  rw [candidates, List.mem_filter, List.mem_map, Option.isNone_iff_eq_none]
  constructor
  · rintro ⟨⟨⟨name, kind⟩, hmem, rfl⟩, hfault⟩
    obtain ⟨hentry, hkept⟩ := List.mem_filter.mp hmem
    simp only [Bool.and_eq_true, decide_eq_true_eq, Bool.not_eq_true'] at hkept
    obtain ⟨rfl, hhidden⟩ := hkept
    exact ⟨name, hentry, hhidden, rfl, hfault⟩
  · rintro ⟨name, hentry, hhidden, rfl, hfault⟩
    exact ⟨⟨(name, .file), List.mem_filter.mpr ⟨hentry, by simp [hhidden]⟩, rfl⟩, hfault⟩

/-- The files that are listed among some entries. -/
theorem mem_files_iff {directory : Path} {entries : List (Name × EntryKind)} {file : ListedFile}
    (h : ∀ entry ∈ entries, Name.IsProper entry.1) :
    file ∈ (ofEntries directory entries).files ↔
      (Text.Utf8.octets file.name, .file) ∈ entries ∧
        file.path = directory.join (.ofText file.name) ∧ file.name.toList.head? ≠ some '.' ∧
        FileTree.pathFault? file.path = none := by
  rw [ofEntries, (List.mergeSort_perm _ _).mem_iff, List.filterMap_map, List.mem_filterMap,
    ← isHiddenName_octets]
  simp only [Function.comp_apply, toOption_eq_some_iff, mem_candidates_iff]
  constructor
  · rintro ⟨path, ⟨name, hentry, hhidden, rfl, hfault⟩, hfile⟩
    obtain ⟨rfl, hpath⟩ := (ListedFile.ofPath_join_eq_ok_iff (h _ hentry)).mp hfile
    exact ⟨hentry, hpath, hhidden, hpath ▸ hfault⟩
  · rintro ⟨hentry, hpath, hhidden, hfault⟩
    exact ⟨file.path, ⟨_, hentry, hhidden, hpath, hfault⟩,
      hpath ▸ (ListedFile.ofPath_join_eq_ok_iff (h _ hentry)).mpr ⟨rfl, hpath⟩⟩

/-- Files in ascending order of their names are determined by which files they are. -/
theorem eq_of_ascending {files others : List ListedFile}
    (hfiles : files.Pairwise fun a b => octetsLt a.name b.name)
    (hothers : others.Pairwise fun a b => octetsLt a.name b.name)
    (h : ∀ file, file ∈ files ↔ file ∈ others) : files = others := by
  have hnodup : ∀ {found : List ListedFile},
      found.Pairwise (fun a b => octetsLt a.name b.name) → found.Nodup := by
    intro found hfound
    refine hfound.imp ?_
    rintro a _ hlt rfl
    exact List.lt_irrefl _ hlt
  refine List.Perm.eq_of_pairwise (fun a b _ _ hab hba => ?_) hfiles hothers
    ((List.perm_ext_iff_of_nodup (hnodup hfiles) (hnodup hothers)).mpr h)
  exact absurd (octetsLt_trans hab hba) (List.lt_irrefl _)

end Listing

namespace FileTree

/-! ### Files in a directory -/

/-- The files that a listing of a directory shows: they are directly inside the directory, under a
name that is text and does not begin with a dot, and their path is not too long. -/
structure IsListed (tree : FileTree) (directory : Path) (file : ListedFile) : Prop where
  path_eq : file.path = directory.join (.ofText file.name)
  is_file : ∃ content,
    tree.get? (tree.placeOf directory ++ [Text.Utf8.octets file.name]) = some (.file content)
  not_hidden : file.name.toList.head? ≠ some '.'
  no_fault : pathFault? file.path = none

theorem isListed_congr {tree other : FileTree} (hhere : other.here = tree.here)
    (hget : other.get? = tree.get?) {directory : Path} {file : ListedFile} :
    other.IsListed directory file ↔ tree.IsListed directory file := by
  have hplace := placeOf_congr hhere directory
  constructor
  · rintro ⟨hpath, hfile, hdot, hfault⟩
    rw [hplace, hget] at hfile
    exact ⟨hpath, hfile, hdot, hfault⟩
  · rintro ⟨hpath, hfile, hdot, hfault⟩
    rw [← hplace, ← hget] at hfile
    exact ⟨hpath, hfile, hdot, hfault⟩

namespace WellFormed

variable {tree : FileTree} (h : tree.WellFormed)

include h

theorem file_mem_children_iff {place : Location} {name : Name} :
    (name, .file) ∈ tree.children place ↔
      ∃ content, tree.get? (place ++ [name]) = some (.file content) := by
  constructor
  · intro hchild
    obtain ⟨-, -, entry, hentry, hkind⟩ := h.of_mem_children hchild
    cases entry with
    | file content => exact ⟨content, hentry⟩
    | directory => exact EntryKind.noConfusion hkind
  · rintro ⟨content, hcontent⟩
    exact mem_children_iff.mpr ⟨_, mem_rows_of_get? hcontent (by simp), rfl⟩

/-- The files that are listed in a directory. -/
theorem mem_files_iff {directory : Path} {file : ListedFile} :
    file ∈ (Listing.ofEntries directory (tree.children (tree.placeOf directory))).files ↔
      tree.IsListed directory file := by
  rw [Listing.mem_files_iff fun entry hentry => (h.of_mem_children hentry).1,
    h.file_mem_children_iff]
  exact ⟨fun ⟨hfile, hpath, hdot, hfault⟩ => ⟨hpath, hfile, hdot, hfault⟩,
    fun ⟨hpath, hfile, hdot, hfault⟩ => ⟨hfile, hpath, hdot, hfault⟩⟩

/-- The entries of a directory have different names. -/
theorem pairwise_children (place : Location) :
    (tree.children place).Pairwise fun a b => a.1 ≠ b.1 := by
  rw [children_eq_filterMap, List.pairwise_filterMap]
  refine (List.pairwise_map.mp h.nodup).imp fun hne a ha b hb heq => hne ?_
  rw [(childOf?_eq_some_iff.mp ha).1, (childOf?_eq_some_iff.mp hb).1, heq]

theorem nodup_names (directory : Path) (place : Location) :
    (Listing.ofEntries directory (tree.children place)).names.Nodup := by
  rw [(Listing.names_perm directory _).nodup_iff, List.Nodup, List.pairwise_filterMap]
  refine (h.pairwise_children place).imp_of_mem fun ha hb hne text htext other hother heq => hne ?_
  have hfirst := (Listing.of_name?_eq_some (h.of_mem_children ha).1 htext).2.1
  have hsecond := (Listing.of_name?_eq_some (h.of_mem_children hb).1 hother).2.1
  rw [← hfirst, ← hsecond, heq]

/-- Listed files are in ascending order of their names, none of which comes twice. -/
theorem ascending_files (directory : Path) (place : Location) :
    (Listing.ofEntries directory (tree.children place)).files.Pairwise
      fun a b => octetsLt a.name b.name := by
  have hsorted := Listing.pairwise_names directory (tree.children place)
  have hlt := hsorted.imp₂ (fun a b hle hne => octetsLt_of_not_lt_of_ne hle (Ne.symm hne))
    (h.nodup_names directory place)
  exact List.pairwise_map.mp hlt

end WellFormed

end FileTree

namespace RunState

/-- A listing fails exactly if there is no directory, for this reason. Otherwise it shows the files
directly inside the directory whose name is text and does not begin with a dot, unless their path is
too long, in ascending order of their names. In whatever order the entries are found in the same
tree, it shows the same files. -/
theorem listDirectory_outcome {state : RunState} (h : state.files.WellFormed) (directory : Path) :
    ((state.perform (listDirectory directory)).1 = .error (.directoryNotFound directory) ↔
      state.files.kind? directory ≠ some .directory) ∧
    (state.files.kind? directory = some .directory →
      ∃ listing, (state.perform (listDirectory directory)).1 = .ok listing ∧
        (∀ file, file ∈ listing.files ↔ state.files.IsListed directory file) ∧
        (listing.files.Pairwise fun a b => octetsLt a.name b.name) ∧
        ∀ other : RunState, other.files.WellFormed → other.files.here = state.files.here →
          other.files.get? = state.files.get? →
          ∃ again, (other.perform (listDirectory directory)).1 = .ok again ∧
            again.files = listing.files) := by
  simp only [outcome_listDirectory]
  constructor
  · constructor
    · intro herror hkind
      rw [FileTree.listing_of_kind? hkind] at herror
      simp at herror
    · intro hkind
      rw [FileTree.listing, if_pos hkind]
  · intro hkind
    refine ⟨_, FileTree.listing_of_kind? hkind, fun file => h.mem_files_iff,
      h.ascending_files directory _, fun other hother hhere hget => ?_⟩
    have hsame : FileTree.SameBut (fun _ => False) other.files state.files :=
      ⟨hhere, fun place => by rw [hget], fun place _ => by rw [hget]⟩
    refine ⟨_, FileTree.listing_of_kind? ((hsame.kind?_eq directory).trans hkind), ?_⟩
    apply Listing.eq_of_ascending (hother.ascending_files directory _)
      (h.ascending_files directory _)
    intro file
    rw [hother.mem_files_iff, h.mem_files_iff, FileTree.isListed_congr hhere hget]

/-- A directory with two files, one of them hidden, and a directory. -/
def mixedDirectory : RunState where
  files := ⟨[([Text.Utf8.octets "in"], .directory),
    ([Text.Utf8.octets "in", Text.Utf8.octets "2.tif"], .file []),
    ([Text.Utf8.octets "in", Text.Utf8.octets ".1.tif"], .file []),
    ([Text.Utf8.octets "in", Text.Utf8.octets "sub"], .directory),
    ([Text.Utf8.octets "in", Text.Utf8.octets "1.tif"], .file [])], []⟩

theorem listDirectory_outcome_mixedDirectory :
    mixedDirectory.files.WellFormed ∧
      (mixedDirectory.perform (listDirectory (.ofText "in/1.tif"))).1 =
        .error (.directoryNotFound (.ofText "in/1.tif")) ∧
      ∃ listing, (mixedDirectory.perform (listDirectory (.ofText "in"))).1 = .ok listing ∧
        ⟨.ofText "in/1.tif", "1.tif"⟩ ∈ listing.files ∧
        ⟨.ofText "in/.1.tif", ".1.tif"⟩ ∉ listing.files ∧
        ⟨.ofText "in/sub", "sub"⟩ ∉ listing.files := by
  have hformed : mixedDirectory.files.WellFormed := by decide +kernel
  have hmissing := (listDirectory_outcome hformed (.ofText "in/1.tif")).1.mpr (by decide +kernel)
  obtain ⟨listing, hlisting, hfiles, -, -⟩ :=
    (listDirectory_outcome hformed (.ofText "in")).2 (by decide +kernel)
  refine ⟨hformed, hmissing, listing, hlisting, ?_, ?_, ?_⟩
  · exact (hfiles _).mpr ⟨by decide +kernel, ⟨[], by decide +kernel⟩, by decide, by decide +kernel⟩
  · exact fun hmem => ((hfiles _).mp hmem).not_hidden rfl
  · intro hmem
    obtain ⟨content, hcontent⟩ := ((hfiles _).mp hmem).is_file
    have hdirectory : mixedDirectory.files.get? [Text.Utf8.octets "in", Text.Utf8.octets "sub"] =
        some .directory := by decide +kernel
    exact Entry.noConfusion (Option.some.inj (hdirectory.symm.trans hcontent))

/-! ### Paths that are too long -/

/-- The directory `d` under a path with many slashes. -/
def longDirectory : Path :=
  ⟨Text.Utf8.octets "d" ++ List.replicate 3899 Path.slash⟩

/-- A name of so many letters. -/
def letters (n : Nat) : String :=
  String.ofList (List.replicate n 'a')

theorem octets_letters (n : Nat) : Text.Utf8.octets (letters n) = List.replicate n 0x61 := by
  have hletter : String.utf8EncodeChar 'a' = [0x61] := by decide
  rw [letters, Text.Utf8.octets_eq_flatMap, String.toList_ofList, List.flatMap_replicate, hletter,
    List.flatten_replicate_singleton]

theorem head?_letters_ne (n : Nat) : (letters n).toList.head? ≠ some '.' := by
  rw [letters, String.toList_ofList, List.head?_replicate]
  split <;> simp

/-- A directory with a file whose name is long, but not too long. -/
def longNameInDirectory : RunState where
  files := ⟨[([Text.Utf8.octets "d"], .directory),
    ([Text.Utf8.octets "d", List.replicate 250 0x61], .file (Text.Utf8.octets "x"))], []⟩

/-- A file is passed over without a word if the path to it is too long, even though the path to its
directory is not. -/
theorem listDirectory_omits_long_path :
    longNameInDirectory.files.WellFormed ∧
      longNameInDirectory.files.kind? longDirectory = some .directory ∧
      longNameInDirectory.files.get?
        (longNameInDirectory.files.placeOf longDirectory ++ [Text.Utf8.octets (letters 250)]) =
          some (.file (Text.Utf8.octets "x")) ∧
      (letters 250).toList.head? ≠ some '.' ∧
      ∃ listing, (longNameInDirectory.perform (listDirectory longDirectory)).1 = .ok listing ∧
        ∀ file ∈ listing.files, file.name ≠ letters 250 := by
  have hformed : longNameInDirectory.files.WellFormed := by decide +kernel
  have hkind : longNameInDirectory.files.kind? longDirectory = some .directory := by
    decide +kernel
  have hfile : ∀ name, name = List.replicate 250 0x61 → longNameInDirectory.files.get?
      (longNameInDirectory.files.placeOf longDirectory ++ [name]) =
        some (.file (Text.Utf8.octets "x")) := by
    rintro name rfl
    decide +kernel
  refine ⟨hformed, hkind, hfile _ (octets_letters 250), head?_letters_ne 250, _,
    (outcome_listDirectory _ _).trans (FileTree.listing_of_kind? hkind), ?_⟩
  intro file hmem hname
  have hlisted := hformed.mem_files_iff.mp hmem
  have hpath : FileTree.pathFault? (longDirectory.join (.ofText (letters 250))) =
      some .nameTooLong := by
    rw [Path.ofText, octets_letters]
    decide +kernel
  rw [← hname, ← hlisted.path_eq, hlisted.no_fault] at hpath
  simp at hpath

end RunState

end PatternRename
