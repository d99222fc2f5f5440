import PatternRename.Proofs.Files.Growth
import PatternRename.Proofs.Files.Places
import PatternRename.Proofs.Run.Steps
import PatternRename.Proofs.Text.Octets

/-!
# Listed files

The rows of a file tree are a table, and not every table is a tree: a location has one row, an entry
is in a directory, and names are names. In a well-formed tree the files that a listing finds are
files of the directory, which can be read. What is listed stays the same as long as no file is added
to the directory, whatever directories are made and whatever the files hold.

## Main definitions

- `FileTree.WellFormed` — tables that are trees
- `FileTree.childFiles` — the files directly inside a directory
- `FileTree.SameFilesIn` — trees with the same files directly inside a directory

## Main results

- `FileTree.WellFormed.closed` — every entry of a well-formed tree is in a directory
- `FileTree.WellFormed.of_mem_names` — listed files can be read
- `FileTree.SameFilesIn.listing_eq` — what is listed depends on the files of the directory
-/

namespace PatternRename

namespace FileTree

/-! ### Tables that are trees -/

/-- Each location has one row, its names are names that entries can have, and its entry is in a
directory. -/
structure WellFormed (tree : FileTree) : Prop where
  nodup : (tree.rows.map Prod.fst).Nodup
  proper : ∀ row ∈ tree.rows, ∀ name ∈ row.1, Name.IsProper name ∧ name.length ≤ maxName
  parent : ∀ row ∈ tree.rows, tree.get? row.1.dropLast = some .directory

instance (tree : FileTree) : Decidable tree.WellFormed :=
  decidable_of_iff ((tree.rows.map Prod.fst).Nodup ∧
    (∀ row ∈ tree.rows, ∀ name ∈ row.1, Name.IsProper name ∧ name.length ≤ maxName) ∧
      ∀ row ∈ tree.rows, tree.get? row.1.dropLast = some .directory)
    ⟨fun ⟨hnodup, hproper, hparent⟩ => ⟨hnodup, hproper, hparent⟩,
      fun h => ⟨h.nodup, h.proper, h.parent⟩⟩

theorem mem_rows_of_get? {tree : FileTree} {place : Location} {entry : Entry}
    (h : tree.get? place = some entry) (hne : place ≠ []) : (place, entry) ∈ tree.rows := by
  rw [get?, if_neg hne] at h
  obtain ⟨front, back, hrows, -⟩ := List.lookup_eq_some_iff.mp h
  rw [hrows]
  exact List.mem_append_right front List.mem_cons_self

namespace WellFormed

variable {tree : FileTree}

theorem closed (h : tree.WellFormed) : tree.Closed := by
  intro place hplace
  obtain ⟨entry, hentry⟩ := Option.isSome_iff_exists.mp hplace
  by_cases hne : place = []
  · subst hne
    rfl
  · exact h.parent _ (mem_rows_of_get? hentry hne)

/-- A row tells what is at its location. -/
theorem get?_of_mem (h : tree.WellFormed) {place : Location} {entry : Entry}
    (hrow : (place, entry) ∈ tree.rows) (hne : place ≠ []) : tree.get? place = some entry := by
  rw [get?, if_neg hne, List.lookup_eq_some_iff]
  obtain ⟨front, back, hrows⟩ := List.append_of_mem hrow
  refine ⟨front, back, hrows, ?_⟩
  -- an earlier row of the location would be a second one
  have hnodup := h.nodup
  rw [hrows, List.map_append, List.map_cons, List.nodup_append] at hnodup
  intro row hmem
  rw [bne_iff_ne]
  exact (hnodup.2.2 _ (List.mem_map_of_mem hmem) place List.mem_cons_self).symm

end WellFormed

theorem childOf?_eq_some_iff {place spot : Location} {entry : Entry} {name : Name}
    {kind : EntryKind} :
    childOf? place (spot, entry) = some (name, kind) ↔
      spot = place ++ [name] ∧ entry.kind = kind := by
  rw [childOf?, Option.bind_eq_some_iff]
  constructor
  · rintro ⟨last, hlast, h⟩
    obtain ⟨front, rfl⟩ := List.getLast?_eq_some_iff.mp hlast
    rw [List.dropLast_concat, Option.ite_none_right_eq_some] at h
    obtain ⟨rfl, heq⟩ := h
    obtain ⟨rfl, rfl⟩ := Prod.mk.inj (Option.some.inj heq)
    exact ⟨rfl, rfl⟩
  · rintro ⟨rfl, rfl⟩
    exact ⟨name, List.getLast?_concat, if_pos List.dropLast_concat⟩

theorem mem_children_iff {tree : FileTree} {place : Location} {name : Name} {kind : EntryKind} :
    (name, kind) ∈ tree.children place ↔
      ∃ entry, (place ++ [name], entry) ∈ tree.rows ∧ entry.kind = kind := by
  rw [children_eq_filterMap, List.mem_filterMap]
  constructor
  · rintro ⟨⟨spot, entry⟩, hrow, h⟩
    obtain ⟨rfl, hkind⟩ := childOf?_eq_some_iff.mp h
    exact ⟨entry, hrow, hkind⟩
  · rintro ⟨entry, hrow, hkind⟩
    exact ⟨_, hrow, childOf?_eq_some_iff.mpr ⟨rfl, hkind⟩⟩

/-- An entry of a directory has a name and can be found. -/
theorem WellFormed.of_mem_children {tree : FileTree} (h : tree.WellFormed) {place : Location}
    {name : Name} {kind : EntryKind} (hchild : (name, kind) ∈ tree.children place) :
    Name.IsProper name ∧ name.length ≤ maxName ∧
      ∃ entry, tree.get? (place ++ [name]) = some entry ∧ entry.kind = kind := by
  obtain ⟨entry, hrow, hkind⟩ := mem_children_iff.mp hchild
  obtain ⟨hproper, hshort⟩ := h.proper _ hrow name (List.mem_append_right place List.mem_cons_self)
  exact ⟨hproper, hshort, entry, h.get?_of_mem hrow (by simp), hkind⟩

end FileTree

/-! ### What a listing finds -/

namespace Listing

/-- The name that an entry of a directory is listed under, if it is listed. -/
def name? (directory : Path) (entry : Name × EntryKind) : Option String :=
  if entry.2 = .file ∧ isHiddenName entry.1 = false ∧
      FileTree.pathFault? (directory.join ⟨entry.1⟩) = none then
    (ListedFile.ofPath (directory.join ⟨entry.1⟩)).toOption.map ListedFile.name
  else none

/-- A name that is listed stands for itself. -/
theorem of_name?_eq_some {directory : Path} {name : Name} {kind : EntryKind} {text : String}
    (hname : Name.IsProper name) (h : name? directory (name, kind) = some text) :
    kind = .file ∧ Text.Utf8.octets text = name ∧
      FileTree.pathFault? (directory.join ⟨name⟩) = none := by
  rw [name?] at h
  split at h
  · rename_i hlisted
    refine ⟨hlisted.1, ?_, hlisted.2.2⟩
    obtain ⟨file, hfile, rfl⟩ := Option.map_eq_some_iff.mp h
    rw [toOption_eq_some_iff, ListedFile.ofPath, Path.fileName?_join directory hname] at hfile
    dsimp only at hfile
    split at hfile
    · simp at hfile
    · rename_i text htext
      obtain rfl := Except.ok.inj hfile
      exact Text.Utf8.octets_of_decode? htext
  · simp at h

theorem map_name_filterMap_candidates (directory : Path) (entries : List (Name × EntryKind)) :
    (((candidates directory entries).map ListedFile.ofPath).filterMap Except.toOption).map
      ListedFile.name = entries.filterMap (name? directory) := by
  rw [candidates, List.filter_map, List.filter_filter, List.map_map, List.filterMap_map,
    List.map_filterMap, List.filterMap_filter]
  congr 1
  funext entry
  rw [name?]
  congr 1
  simp only [Function.comp_apply, Bool.and_eq_true, decide_eq_true_eq, Bool.not_eq_true',
    Option.isNone_iff_eq_none, eq_iff_iff]
  tauto

/-- The names that are listed are those of the entries, in some order. -/
theorem names_perm (directory : Path) (entries : List (Name × EntryKind)) :
    (ofEntries directory entries).names.Perm (entries.filterMap (name? directory)) := by
  rw [← map_name_filterMap_candidates]
  exact (List.mergeSort_perm _ _).map _

theorem pairwise_names (directory : Path) (entries : List (Name × EntryKind)) :
    (ofEntries directory entries).names.Pairwise fun a b =>
      Text.Utf8.octets a ≤ Text.Utf8.octets b := by
  rw [names, List.pairwise_map]
  refine (List.pairwise_mergeSort ?_ ?_ _).imp fun h => of_decide_eq_true h
  · intro a b c hab hbc
    exact decide_eq_true (List.le_trans (of_decide_eq_true hab) (of_decide_eq_true hbc))
  · intro a b
    rw [Bool.or_eq_true]
    exact (List.le_total _ _).imp (fun h => decide_eq_true h) fun h => decide_eq_true h

/-- If the same names are kept of the entries of two directories, the same are kept of those that
are listed, in the same order. -/
theorem filter_names_eq {directory : Path} {entries others : List (Name × EntryKind)}
    {kept : String → Bool} (h : (entries.filterMap (name? directory)).filter kept =
      (others.filterMap (name? directory)).filter kept) :
    (ofEntries directory entries).names.filter kept =
      (ofEntries directory others).names.filter kept := by
  refine List.Perm.eq_of_pairwise ?_ ((pairwise_names directory entries).filter kept)
    ((pairwise_names directory others).filter kept) ?_
  · intro a b _ _ hab hba
    exact Text.Utf8.octets_injective (List.le_antisymm hab hba)
  · have hperm := (names_perm directory entries).filter kept
    rw [h] at hperm
    exact hperm.trans ((names_perm directory others).filter kept).symm

end Listing

/-- Only the files among some entries are listed. -/
theorem Listing.ofEntries_files (directory : Path) (entries : List (Name × EntryKind)) :
    ofEntries directory (entries.filter fun child => child.2 = .file) =
      ofEntries directory entries := by
  have hcandidates : candidates directory (entries.filter fun child => child.2 = .file) =
      candidates directory entries := by
    rw [candidates, candidates, List.filter_filter]
    congr 2
    apply List.filter_congr
    rintro ⟨name, kind⟩ -
    cases kind <;> simp
  rw [ofEntries, ofEntries, hcandidates]

namespace FileTree

theorem of_listing {tree : FileTree} {directory : Path} {listing : Listing}
    (h : tree.listing directory = .ok listing) :
    ∃ place, tree.locate directory = .ok place ∧ tree.get? place = some .directory ∧
      listing = Listing.ofEntries directory (tree.children place) := by
  rw [FileTree.listing] at h
  split at h
  · simp at h
  · split at h
    · simp at h
    · rename_i entries hentries
      rw [list] at hentries
      split at hentries
      · simp at hentries
      · rename_i place hplace
        split at hentries
        · rename_i hdirectory
          obtain rfl := Except.ok.inj hentries
          exact ⟨place, hplace, hdirectory, (Except.ok.inj h).symm⟩
        · simp at hentries
        · simp at hentries

/-- A directory that is there can be listed. -/
theorem listing_of_kind? {tree : FileTree} {directory : Path}
    (h : tree.kind? directory = some .directory) :
    tree.listing directory =
      .ok (Listing.ofEntries directory (tree.children (tree.placeOf directory))) := by
  rw [listing, h, if_neg (by simp), list]
  rw [kind?] at h
  split at h
  · rename_i place hplace
    rw [hplace, ← eq_placeOf_of_locate hplace]
    dsimp only
    rw [map_kind_eq_directory_iff.mp h]
  · simp at h

/-- What is listed of the entries at a place are files there. -/
theorem WellFormed.of_mem_names_ofEntries {tree : FileTree} (h : tree.WellFormed)
    {directory : Path} {place : Location} {name : String}
    (hname : name ∈ (Listing.ofEntries directory (tree.children place)).names) :
    Name.IsProper (Text.Utf8.octets name) ∧ (Text.Utf8.octets name).length ≤ maxName ∧
      pathFault? (directory.join (.ofText name)) = none ∧
      ∃ content, tree.get? (place ++ [Text.Utf8.octets name]) = some (.file content) := by
  rw [(Listing.names_perm directory _).mem_iff, List.mem_filterMap] at hname
  obtain ⟨⟨found, kind⟩, hchild, hlisted⟩ := hname
  obtain ⟨hproper, hshort, entry, hentry, hkind⟩ := h.of_mem_children hchild
  obtain ⟨rfl, rfl, hfault⟩ := Listing.of_name?_eq_some hproper hlisted
  refine ⟨hproper, hshort, hfault, ?_⟩
  cases entry with
  | directory => exact EntryKind.noConfusion hkind
  | file content => exact ⟨content, hentry⟩

/-- A listed file is a file of the directory, and it can be read. -/
theorem WellFormed.of_mem_names {tree : FileTree} (h : tree.WellFormed) {directory : Path}
    {listing : Listing} (hlisting : tree.listing directory = .ok listing) {name : String}
    (hname : name ∈ listing.names) :
    Name.IsProper (Text.Utf8.octets name) ∧
      ∃ content, tree.read (directory.join (.ofText name)) = .ok content := by
  obtain ⟨place, hplace, hdirectory, rfl⟩ := of_listing hlisting
  obtain ⟨hproper, hshort, hfault, content, hcontent⟩ := h.of_mem_names_ofEntries hname
  refine ⟨hproper, content, read_eq_ok_iff.mpr ⟨_, ?_, hcontent⟩⟩
  exact locate_join hplace hdirectory hproper hshort hfault (hcontent ▸ rfl)

/-! ### The files of a directory -/

/-- The files directly inside a location, as `children` finds them. -/
def childFiles (tree : FileTree) (place : Location) : List (Name × EntryKind) :=
  (tree.children place).filter fun child => child.2 = .file

/-- A row that is set changes nothing for a function that passes over what was there and what is
set. -/
theorem filterMap_putRow {β : Type} {f : Location × Entry → Option β} {place : Location}
    {entry : Entry} {rows : List (Location × Entry)} (hnew : f (place, entry) = none)
    (hold : ∀ old, rows.lookup place = some old → f (place, old) = none) :
    (putRow place entry rows).filterMap f = rows.filterMap f := by
  induction rows with
  | nil => rw [putRow, List.filterMap_cons_none hnew]
  | cons row rest ih =>
    obtain ⟨spot, old⟩ := row
    by_cases hspot : spot = place
    · subst hspot
      have hpassed := hold old (by simp)
      rw [putRow, if_pos rfl, List.filterMap_cons_none hnew, List.filterMap_cons_none hpassed]
    · have hne : (place == spot) = false := by simpa using Ne.symm hspot
      rw [List.lookup_cons, hne] at hold
      rw [putRow, if_neg hspot, List.filterMap_cons, List.filterMap_cons, ih hold]

/-- The same files are directly inside a directory, in the same order. -/
structure SameFilesIn (place : Location) (tree later : FileTree) : Prop where
  here_eq : later.here = tree.here
  childFiles_eq : later.childFiles place = tree.childFiles place

namespace SameFilesIn

variable {place : Location} {tree mid later : FileTree}

theorem refl (place : Location) (tree : FileTree) : SameFilesIn place tree tree :=
  ⟨rfl, rfl⟩

theorem trans (h : SameFilesIn place tree mid) (h' : SameFilesIn place mid later) :
    SameFilesIn place tree later :=
  ⟨h'.here_eq.trans h.here_eq, h'.childFiles_eq.trans h.childFiles_eq⟩

theorem placeOf_eq (h : SameFilesIn place tree later) (p : Path) :
    later.placeOf p = tree.placeOf p :=
  placeOf_congr h.here_eq p

end SameFilesIn

/-- What is listed depends on the files of the directory, as long as the directory is there. -/
theorem SameFilesIn.listing_eq {tree later : FileTree} {directory : Path} {listing : Listing}
    (h : SameFilesIn (tree.placeOf directory) tree later)
    (hlisting : tree.listing directory = .ok listing)
    (hkind : later.kind? directory = some .directory) :
    later.listing directory = .ok listing := by
  obtain ⟨place, hplace, -, rfl⟩ := of_listing hlisting
  rw [listing_of_kind? hkind, h.placeOf_eq, eq_placeOf_of_locate hplace,
    ← Listing.ofEntries_files directory (later.children _),
    ← Listing.ofEntries_files directory (tree.children _)]
  exact congrArg (fun entries => Except.ok (Listing.ofEntries directory entries)) h.childFiles_eq

end FileTree

end PatternRename
