import PatternRename.Application
import PatternRename.Proofs.Files.Ways
import PatternRename.Proofs.Run.Listings

/-!
# What logging needs

Before a run begins it makes the directory of the program, unless it logs locally, and opens its log
file. Directories are made where nothing was, and the log file is the only file that changes. So two
runs that log in different ways begin with trees that differ at their log files, and in directories
that only one of them has made.

## Main definitions

- `FileTree.Prepared` — a tree in which directories were made and some files written
- `FileTree.MadeInOne` — directories that one of two trees lacks

## Main results

- `RunState.prepared_of_perform` — what changes when logging is started
- `FileTree.sameOff_of_prepared` — two trees that are prepared from one
- `FileTree.Prepared.filter_names_eq` — the listed names that are no files of these
-/

namespace PatternRename

namespace FileTree

/-! ### Trees that are prepared -/

/-- Nothing has changed in a tree, but that directories were made where nothing was, at some places,
and that files were written, at others. -/
structure Prepared (files made : Location → Prop) (tree later : FileTree) : Prop where
  here_eq : later.here = tree.here
  get?_cases : ∀ place, later.get? place = tree.get? place ∨
    (made place ∧ tree.get? place = none ∧ later.get? place = some .directory) ∨
    (files place ∧ tree.get? place ≠ some .directory ∧ later.get? place ≠ none ∧
      later.get? place ≠ some .directory)
  closed : tree.Closed → later.Closed
  /-- Rows that tell of neither are the same. -/
  filterMap_eq : ∀ {β : Type} (f : Location × Entry → Option β),
    (∀ place, f (place, .directory) = none) →
    (∀ place name entry, files (place ++ [name]) → Name.IsProper name →
      f (place ++ [name], entry) = none) →
    later.rows.filterMap f = tree.rows.filterMap f

namespace Prepared

variable {files made : Location → Prop} {tree mid later : FileTree}

theorem refl (files made : Location → Prop) (tree : FileTree) : Prepared files made tree tree :=
  ⟨rfl, fun _ => Or.inl rfl, id, fun _ _ _ => rfl⟩

theorem trans (h : Prepared files made tree mid) (h' : Prepared files made mid later) :
    Prepared files made tree later := by
  refine ⟨h'.here_eq.trans h.here_eq, fun place => ?_, h'.closed ∘ h.closed,
    fun f hdirectory hfile =>
      (h'.filterMap_eq f hdirectory hfile).trans (h.filterMap_eq f hdirectory hfile)⟩
  rcases h.get?_cases place with heq | ⟨hplace, hnone, hmade⟩ | ⟨hplace, hfree, hsome, hfile⟩
  · rw [← heq]
    exact h'.get?_cases place
  · -- a directory that was made stays one
    rcases h'.get?_cases place with heq' | ⟨-, hnone', -⟩ | ⟨-, hfree', -⟩
    · exact Or.inr (Or.inl ⟨hplace, hnone, heq'.trans hmade⟩)
    · simp [hmade] at hnone'
    · exact absurd hmade hfree'
  · rcases h'.get?_cases place with heq' | ⟨-, hnone', -⟩ | ⟨-, -, hfile'⟩
    · rw [heq']
      exact Or.inr (Or.inr ⟨hplace, hfree, hsome, hfile⟩)
    · exact absurd hnone' hsome
    · exact Or.inr (Or.inr ⟨hplace, hfree, hfile'⟩)

theorem mono {others makes : Location → Prop} (h : Prepared files made tree later)
    (hfiles : ∀ place, files place → others place) (hmade : ∀ place, made place → makes place) :
    Prepared others makes tree later :=
  ⟨h.here_eq, fun place => (h.get?_cases place).imp_right
      (Or.imp (And.imp_left (hmade place)) (And.imp_left (hfiles place))), h.closed,
    fun f hdirectory hfile => h.filterMap_eq f hdirectory fun place name entry hplace =>
      hfile place name entry (hfiles _ hplace)⟩

end Prepared

theorem prepared_put_directory {files made : Location → Prop} {tree : FileTree} {place : Location}
    {name : Name} (hmade : made (place ++ [name])) (hplace : tree.get? place = some .directory)
    (h : tree.get? (place ++ [name]) = none) :
    Prepared files made tree (tree.put (place ++ [name]) .directory) := by
  refine ⟨rfl, fun spot => ?_, (grows_put_directory hplace h).closed, fun f hdirectory _ => ?_⟩
  · rw [get?_put]
    split
    · rename_i hat
      rw [hat.1]
      exact Or.inr (Or.inl ⟨hmade, h, rfl⟩)
    · exact Or.inl rfl
  · refine filterMap_putRow (hdirectory _) fun old hold => ?_
    rw [get?, if_neg (by simp), hold] at h
    simp at h

theorem prepared_put_file {files : Location → Prop} (made : Location → Prop) {tree : FileTree}
    {place : Location} {name : Name} (hplace : files (place ++ [name])) (hname : Name.IsProper name)
    (hfree : tree.get? (place ++ [name]) ≠ some .directory) {content : List UInt8}
    (hclosed : tree.Closed → (tree.put (place ++ [name]) (.file content)).Closed) :
    Prepared files made tree (tree.put (place ++ [name]) (.file content)) := by
  refine ⟨rfl, fun spot => ?_, hclosed, fun f _ hfile => ?_⟩
  · rw [get?_put]
    split
    · rename_i hat
      rw [hat.1]
      exact Or.inr (Or.inr ⟨hplace, hfree, by simp, by simp⟩)
    · exact Or.inl rfl
  · exact filterMap_putRow (hfile place name _ hplace hname) fun old _ =>
      hfile place name old hplace hname

theorem prepared_makeAlong (files : Location → Prop) {made : Location → Prop} (tree : FileTree)
    {place : Location} {steps : List Path.Step}
    (hmade : ∀ spot ∈ Path.Step.places place steps, made spot) :
    Prepared files made tree (tree.makeAlong place steps).1 := by
  induction steps generalizing tree place with
  | nil => exact Prepared.refl files made tree
  | cons s rest ih =>
    obtain ⟨-, hrest⟩ := List.forall_mem_cons.mp hmade
    rcases step_cases tree place s with ⟨next, hstep⟩ | ⟨name, rfl, hstep⟩ | ⟨fault, hstep, hs⟩
    · rw [makeAlong_of_ok hstep]
      obtain rfl := (step_eq_ok_iff.mp hstep).2.1
      split
      · exact Prepared.refl files made tree
      · exact ih tree hrest
    · rw [makeAlong_of_missing hstep]
      split
      · rename_i hplace
        have hnext := hrest _ (Path.Step.start_mem_places _ rest)
        have hput : Prepared files made tree (tree.put (place ++ [name]) .directory) :=
          prepared_put_directory hnext hplace (of_step_missing hstep hplace).2
        exact hput.trans (ih _ hrest)
      · exact Prepared.refl files made tree
    · rw [makeAlong_of_fault hstep hs]
      exact Prepared.refl files made tree

/-- Directories are made on the way of a path. -/
theorem prepared_makeDirectories (files : Location → Prop) (tree : FileTree) (p : Path) :
    Prepared files (· ∈ tree.way p) tree (tree.makeDirectories p).1 := by
  rw [makeDirectories]
  split
  · exact Prepared.refl _ _ tree
  · exact prepared_makeAlong files tree fun spot => mem_way_of_mem_places

theorem prepared_appendAt {files : Location → Prop} (made : Location → Prop) (tree : FileTree)
    {place : Location} {name : Name} (hplace : files (place ++ [name])) (hname : Name.IsProper name)
    (more : List UInt8) : Prepared files made tree (tree.appendAt (place ++ [name]) more) := by
  rw [appendAt]
  split
  · rename_i content hcontent
    refine prepared_put_file made hplace hname (by simp [hcontent]) fun hclosed => ?_
    have hparent := hclosed (place ++ [name]) (hcontent ▸ rfl)
    rw [List.dropLast_concat] at hparent
    refine (grows_put hparent fun old hold => ?_).closed hclosed
    rw [Option.some.inj (hold.symm.trans hcontent)]
    exact ⟨rfl, rfl⟩
  · exact Prepared.refl files made tree

/-- A file that is opened has a name that an entry can have, and only it is written. -/
theorem of_openForAppending {tree opened : FileTree} {p : Path} {place : Location}
    (h : tree.openForAppending p = .ok (opened, place)) :
    ∃ parent name, place = parent ++ [name] ∧ Name.IsProper name ∧
      ∀ made, Prepared (· = place) made tree opened := by
  rw [openForAppending] at h
  split at h
  · rename_i spot hspot
    obtain ⟨-, -, parent, name, hlast, -, -, -, hfree, rfl⟩ := locateForWriting_eq_ok_iff.mp hspot
    have hname := Path.isProper_of_mem_namedSteps (List.mem_of_getLast? hlast)
    split at h
    · obtain ⟨rfl, rfl⟩ := Prod.mk.inj (Except.ok.inj h)
      exact ⟨parent, name, rfl, hname, fun made => Prepared.refl _ made tree⟩
    · obtain ⟨rfl, rfl⟩ := Prod.mk.inj (Except.ok.inj h)
      refine ⟨parent, name, rfl, hname, fun made => ?_⟩
      exact @prepared_put_file (· = parent ++ [name]) made tree parent name rfl hname hfree []
        (grows_put_file hspot []).closed
  · simp at h

/-! ### Two trees that are prepared from one -/

/-- A directory that is in one of two trees only. -/
def MadeInOne (tree other : FileTree) (place : Location) : Prop :=
  ¬ (tree.get? place = some .directory ↔ other.get? place = some .directory)

instance (tree other : FileTree) (place : Location) : Decidable (MadeInOne tree other place) :=
  inferInstanceAs (Decidable (¬ _))

theorem Prepared.ne_file_of_none {files made : Location → Prop} {tree later : FileTree}
    (h : Prepared files made tree later) {place : Location} (hplace : ¬ files place)
    (hnone : tree.get? place = none) (content : List UInt8) :
    later.get? place ≠ some (.file content) := by
  rcases h.get?_cases place with heq | ⟨-, -, hdirectory⟩ | ⟨hbad, -⟩
  · simp [heq, hnone]
  · simp [hdirectory]
  · exact absurd hbad hplace

/-- A directory that only one tree has was made for it. -/
theorem Prepared.of_directory {files files' made made' : Location → Prop}
    {tree one other : FileTree} (hone : Prepared files made tree one)
    (hother : Prepared files' made' tree other) {place : Location}
    (hthere : one.get? place = some .directory) (hnot : other.get? place ≠ some .directory) :
    made place ∧ tree.get? place = none := by
  rcases hone.get?_cases place with heq | ⟨hmade, hnone, -⟩ | ⟨-, -, -, hfile⟩
  · rw [hthere] at heq
    rcases hother.get?_cases place with heq' | ⟨-, -, hdirectory⟩ | ⟨-, hfree, -⟩
    · exact absurd (heq'.trans heq.symm) hnot
    · exact absurd hdirectory hnot
    · exact absurd heq.symm hfree
  · exact ⟨hmade, hnone⟩
  · exact absurd hthere hfile

theorem Prepared.of_madeInOne {files files' made made' : Location → Prop}
    {tree one other : FileTree} (hone : Prepared files made tree one)
    (hother : Prepared files' made' tree other) {place : Location} (h : MadeInOne one other place) :
    (made place ∨ made' place) ∧ tree.get? place = none := by
  by_cases hthere : one.get? place = some .directory
  · have hnot : other.get? place ≠ some .directory := fun hother => h (iff_of_true hthere hother)
    exact (hone.of_directory hother hthere hnot).imp_left Or.inl
  · have hother' : other.get? place = some .directory := by
      by_contra hnot
      exact h (iff_of_false hthere hnot)
    exact (hother.of_directory hone hother' hthere).imp_left Or.inr

/-- Away from their files, and from directories that only one of them has, two trees that are
prepared from one are the same. -/
theorem sameOff_of_prepared {files made made' : Location → Prop} {tree one other : FileTree}
    (hclosed : tree.Closed) (hone : Prepared files made tree one)
    (hother : Prepared files made' tree other) :
    SameOff files (MadeInOne one other) one other := by
  refine ⟨hone.here_eq.trans hother.here_eq.symm, fun place hmade => not_not.mp hmade,
    fun place hfile hmade => ?_, fun place hmade hfile content => ?_,
    hone.closed hclosed, hother.closed hclosed⟩
  · have hiff := not_not.mp hmade
    rcases hone.get?_cases place with heq | ⟨-, -, hdirectory⟩ | ⟨hbad, -⟩
    · rcases hother.get?_cases place with heq' | ⟨-, -, hdirectory'⟩ | ⟨hbad, -⟩
      · rw [heq, heq']
      · rw [hdirectory', hiff.mpr hdirectory']
      · exact absurd hbad hfile
    · rw [hdirectory, hiff.mp hdirectory]
    · exact absurd hbad hfile
  · have hnone := (hone.of_madeInOne hother hmade).2
    exact ⟨hone.ne_file_of_none hfile hnone content, hother.ne_file_of_none hfile hnone content⟩

/-! ### Listings of prepared trees -/

/-- Of the names that are listed, the ones that are no written files are those that would have been
listed before. -/
theorem Prepared.filter_names_eq {files made : Location → Prop} {tree later : FileTree}
    (h : Prepared files made tree later) {directory : Path} {kept : String → Bool}
    (hkept : ∀ name, files (tree.placeOf (directory.join (.ofText name))) → kept name = false) :
    (Listing.ofEntries directory (later.children (tree.placeOf directory))).names.filter kept =
      (Listing.ofEntries directory (tree.children (tree.placeOf directory))).names.filter kept := by
  apply Listing.filter_names_eq
  rw [children_eq_filterMap, children_eq_filterMap, List.filterMap_filterMap,
    List.filterMap_filterMap, List.filter_filterMap, List.filter_filterMap]
  apply h.filterMap_eq
  · intro place
    rw [Option.filter_eq_none_iff]
    intro text htext
    obtain ⟨⟨name, kind⟩, hchild, hlisted⟩ := Option.bind_eq_some_iff.mp htext
    obtain ⟨-, rfl⟩ := childOf?_eq_some_iff.mp hchild
    simp [Listing.name?, Entry.kind] at hlisted
  · intro place name entry hfile hname
    rw [Option.filter_eq_none_iff]
    intro text htext
    obtain ⟨⟨found, kind⟩, hchild, hlisted⟩ := Option.bind_eq_some_iff.mp htext
    obtain ⟨hplace, -⟩ := childOf?_eq_some_iff.mp hchild
    obtain ⟨rfl, hfound⟩ := List.append_inj' hplace rfl
    obtain rfl := List.singleton_inj.mp hfound
    obtain ⟨-, rfl, -⟩ := Listing.of_name?_eq_some hname hlisted
    rw [hkept text (placeOf_join tree directory hname ▸ hfile)]
    exact Bool.false_ne_true

end FileTree

namespace RunState

/-! ### The start of a run -/

variable {state after : RunState}

theorem prepared_report (made : Location → Prop) {place : Location} {name : Name}
    (hlog : state.LogsTo (place ++ [name])) (hname : Name.IsProper name) (event : Event) :
    FileTree.Prepared state.LogsTo made state.files (state.report event).files := by
  rw [report]
  split
  · exact FileTree.Prepared.refl _ _ _
  · rename_i logging hlogging
    split
    · simp only
      split
      · exact FileTree.Prepared.refl _ _ _
      · rename_i spot hspot
        obtain ⟨logging', hlogging', hfile⟩ := hlog
        obtain rfl := Option.some.inj (hlogging.symm.trans hlogging')
        obtain rfl := Option.some.inj (hspot.symm.trans hfile)
        exact FileTree.prepared_appendAt made _ ⟨logging, hlogging, hspot⟩ hname _
    · exact FileTree.Prepared.refl _ _ _

theorem prepared_makeOwnDirectory (files : Location → Prop) (state : RunState) (directory : Path) :
    FileTree.Prepared files (· ∈ state.files.way directory) state.files
      (state.perform (makeOwnDirectory directory)).2.files := by
  rw [makeOwnDirectory, perform_lift_bind, look_apply]
  split
  · rw [perform_lift_bind]
    have hrun : (Host.makeDirectories directory : StateM RunState (Option Fault)) state =
      ((state.files.makeDirectories directory).2,
        state.withFiles (state.files.makeDirectories directory).1) := rfl
    rw [hrun]
    have hmade := FileTree.prepared_makeDirectories files state.files directory
    cases (state.files.makeDirectories directory).2 <;> exact hmade
  · exact FileTree.Prepared.refl _ _ state.files

/-- The places of the directories that a run makes for its log file: those on the way to the
directory of the program, unless it logs locally. -/
def MakesForLog (state : RunState) (surroundings : Surroundings) (options : Options)
    (place : Location) : Prop :=
  options.logLocally = false ∧ place ∈ state.files.way surroundings.ownDirectory

theorem prepared_logPath (files : Location → Prop) (state : RunState) (surroundings : Surroundings)
    (options : Options) :
    FileTree.Prepared files (state.MakesForLog surroundings options) state.files
      (state.perform (logPath surroundings options)).2.files := by
  rw [logPath]
  split
  · exact FileTree.Prepared.refl _ _ state.files
  · rename_i hlocally
    rw [perform_bind]
    have hmade : FileTree.Prepared files (state.MakesForLog surroundings options) state.files
        (state.perform (makeOwnDirectory surroundings.ownDirectory)).2.files :=
      (prepared_makeOwnDirectory files state surroundings.ownDirectory).mono (fun _ => id)
        fun place hplace => ⟨eq_false_of_ne_true hlocally, hplace⟩
    generalize state.perform (makeOwnDirectory surroundings.ownDirectory) = done at hmade
    obtain ⟨outcome, mid⟩ := done
    cases outcome <;> exact hmade

/-- Logging begins with a report, if nothing prevents it. -/
theorem perform_startLog (state : RunState) (verbosity : Verbosity) (path : Path) :
    state.perform (startLog verbosity path) =
      match state.startLogging verbosity.level
          (if path.octets.isEmpty then none else some path) with
      | (some fault, mid) => (.error (.system fault), mid)
      | (none, mid) => (.ok (), mid.report (.loggerReady verbosity)) := by
  have hrun : ∀ file, (Host.startLogging verbosity.level file : StateM RunState (Option Fault))
      state = state.startLogging verbosity.level file := fun _ => rfl
  rw [startLog, perform_lift_bind, hrun]
  generalize state.startLogging verbosity.level _ = started
  obtain ⟨fault, mid⟩ := started
  cases fault <;> rfl

theorem prepared_startLog (made : Location → Prop) {verbosity : Verbosity} {path : Path}
    (h : state.perform (startLog verbosity path) = (.ok (), after)) :
    FileTree.Prepared after.LogsTo made state.files after.files := by
  rw [perform_startLog] at h
  split at h
  · simp at h
  · rename_i mid hstarted
    obtain ⟨-, rfl⟩ := Prod.mk.inj h
    have hreport := OnlyReports.report mid (.loggerReady verbosity)
    rw [hreport.logsTo_eq]
    rw [startLogging.eq_def] at hstarted
    split at hstarted
    · -- no log file
      obtain ⟨-, rfl⟩ := Prod.mk.inj hstarted
      rw [files_report]
      · exact FileTree.Prepared.refl _ _ _
      · intro logging hlogging
        obtain rfl := Option.some.inj hlogging
        rfl
    · split at hstarted
      · simp at hstarted
      · rename_i opened place hopened
        obtain ⟨-, rfl⟩ := Prod.mk.inj hstarted
        obtain ⟨parent, name, rfl, hname, hprepared⟩ := FileTree.of_openForAppending hopened
        have hlog : ∀ spot, spot = parent ++ [name] →
            RunState.LogsTo { state with
              files := opened
              logging := some ⟨verbosity.level, some (parent ++ [name])⟩ } spot := by
          rintro _ rfl
          exact ⟨_, rfl, rfl⟩
        exact ((hprepared made).mono hlog fun _ => id).trans
          (prepared_report made (hlog _ rfl) hname _)

variable {surroundings : Surroundings} {options : Options}

theorem exists_startLog_of_perform
    (h : state.perform (logPath surroundings options >>= startLog options.verbosity) =
      (.ok (), after)) :
    ∃ path, (state.perform (logPath surroundings options)).2.perform
      (startLog options.verbosity path) = (.ok (), after) := by
  rw [perform_bind] at h
  generalize state.perform (logPath surroundings options) = done at h
  obtain ⟨outcome, mid⟩ := done
  cases outcome with
  | error failure => simp at h
  | ok path => exact ⟨path, h⟩

/-- To start logging, a run makes directories where nothing is and writes its log file. -/
theorem prepared_of_perform
    (h : state.perform (logPath surroundings options >>= startLog options.verbosity) =
      (.ok (), after)) :
    FileTree.Prepared after.LogsTo (state.MakesForLog surroundings options) state.files
      after.files := by
  obtain ⟨path, hstart⟩ := exists_startLog_of_perform h
  exact (prepared_logPath _ state surroundings options).trans (prepared_startLog _ hstart)

/-- A directory that only one of two runs has, once both have started logging, is on the way to the
directory of the program, and one of them logs locally. -/
theorem of_madeInOne {others : Options} {one other : RunState}
    (hone : state.perform (logPath surroundings options >>= startLog options.verbosity) =
      (.ok (), one))
    (hother : state.perform (logPath surroundings others >>= startLog others.verbosity) =
      (.ok (), other)) {place : Location} (h : FileTree.MadeInOne one.files other.files place) :
    options.logLocally ≠ others.logLocally ∧ place ∈ state.files.way surroundings.ownDirectory ∧
      state.files.get? place = none := by
  obtain ⟨hmade, hnone⟩ :=
    (prepared_of_perform hone).of_madeInOne (prepared_of_perform hother) h
  refine ⟨fun hsame => ?_, hmade.elim And.right And.right, hnone⟩
  -- both make the same directories before they open their log files
  have hmid : (state.perform (logPath surroundings options)).2 =
      (state.perform (logPath surroundings others)).2 := by
    rw [logPath, logPath, hsame]
    split
    · rfl
    · rw [perform_bind, perform_bind]
      generalize state.perform (makeOwnDirectory surroundings.ownDirectory) = done
      obtain ⟨outcome, mid⟩ := done
      cases outcome <;> rfl
  obtain ⟨path, hstart⟩ := exists_startLog_of_perform hone
  obtain ⟨path', hstart'⟩ := exists_startLog_of_perform hother
  rw [← hmid] at hstart'
  obtain ⟨hno, -⟩ := (prepared_startLog (fun _ => False) hstart).of_madeInOne
    (prepared_startLog (fun _ => False) hstart') h
  exact hno.elim id id

end RunState

end PatternRename
