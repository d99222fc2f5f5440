import PatternRename.Proofs.Run.HiddenFiles
import PatternRename.Proofs.Settings.Texts

/-!
# Where options come from

An option can be given on the command line or in a settings file. What a run does depends on the
texts that count, and not on where they come from: two runs whose options have the same texts have
the same settings, and from then on they do the same. This holds for all readers: what a document or
a command line says is what they answer.

## Main definitions

- `FileTree.Gives` — the texts that come from a settings file, if there is one
- `Options.textsOver` — the texts that count
- `RunState.begun` — the state in which settings are read
- `FileTree.Reached` — where files may differ after runs that began with different files

## Main results

- `FileTree.settingsFor_eq_ok_iff` — the settings of a run, from the texts that count
- `RunState.agrees_of_settingsFor` — two runs with the same settings, from there on
- `runArguments_of_same_texts` — two runs whose options have the same texts
-/

namespace PatternRename

/-! ### The texts that count -/

/-- What comes from a settings file: the texts that it gives, or none if there is no such file. -/
inductive FileTree.Gives [Readers] (tree : FileTree) (home : String) :
    Option String → OptionTexts → Prop
  | none : tree.Gives home none fun _ => none
  | file {file : String} {content : List UInt8} {texts : OptionTexts}
    (hread : tree.read (Readers.expandHome home file) = .ok content)
    (h : Settings.FileGives content texts) : tree.Gives home (some file) texts

/-- The texts that count: those of the command line, and where it gives none, others. -/
def Options.textsOver (options : Options) (below : OptionTexts) : OptionTexts :=
  fun option => options.text? option <|> below option

/-- The options of a command line without texts, and without a file that may have some. -/
def Options.withoutTexts (options : Options) : Options :=
  { options with
    inputDirectory := none
    outputDirectory := none
    inputPattern := none
    outputPattern := none
    settingsFile := none }

namespace FileTree

variable {tree : FileTree} {home : String} {options : Options} {settings : Settings}

theorem settingsIn_eq_ok_iff [Readers] {path : Path} :
    tree.settingsIn home path = .ok settings ↔ ∃ content texts,
      tree.read path = .ok content ∧ Settings.FileGives content texts ∧
        settings = Settings.ofTexts home texts := by
  rw [settingsIn]
  cases tree.read path with
  | error fault => simp
  | ok content => simp [Settings.ofFile_eq_ok_iff]

/-- A run has settings exactly if its settings file gives texts. Then they are what the texts of the
command line stand for, and where it gives none, those of the file. -/
theorem settingsFor_eq_ok_iff [Readers] :
    tree.settingsFor home options = .ok settings ↔ ∃ texts,
      tree.Gives home options.settingsFile texts ∧
        settings = Settings.ofTexts home (options.textsOver texts) := by
  have hover : ∀ texts, (Settings.ofTexts home texts).merge (options.settings home) =
      Settings.ofTexts home (options.textsOver texts) := fun texts => by
    rw [Options.settings_eq_ofTexts, Settings.merge_ofTexts]
    rfl
  rw [settingsFor]
  cases options.settingsFile with
  | none =>
    constructor
    · intro h
      exact ⟨_, .none, (Except.ok.inj h).symm.trans (hover fun _ => none)⟩
    · rintro ⟨texts, h, rfl⟩
      cases h
      exact congrArg Except.ok (hover fun _ => none)
  | some file =>
    rw [bind_eq_ok_iff]
    constructor
    · rintro ⟨base, hbase, h⟩
      obtain ⟨content, texts, hread, hgives, rfl⟩ := settingsIn_eq_ok_iff.mp hbase
      exact ⟨texts, .file hread hgives, (Except.ok.inj h).symm.trans (hover texts)⟩
    · rintro ⟨texts, h, rfl⟩
      cases h with
      | file hread hgives =>
        have hbase : tree.settingsIn home (Readers.expandHome home file) =
            .ok (Settings.ofTexts home texts) :=
          settingsIn_eq_ok_iff.mpr ⟨_, texts, hread, hgives, rfl⟩
        exact ⟨_, hbase, congrArg Except.ok (hover texts)⟩

end FileTree

/-! ### Reading settings in two runs -/

namespace RunState

variable {hidden : Location → Prop} {here : Location} {state other : RunState} {home : String}

/-- A settings file, if there is one, was read. -/
def reportSettings [Readers] (state : RunState) (home : String) : Option String → RunState
  | none => state
  | some file => state.report (.settingsLoaded (Readers.expandHome home file))

theorem afterGathering_of_ok [Readers] {options : Options} {settings : Settings}
    (h : state.files.settingsFor home options = .ok settings) :
    state.afterGathering home options.settingsFile =
      state.reportSettings home options.settingsFile := by
  rw [FileTree.settingsFor] at h
  cases hfile : options.settingsFile with
  | none => rfl
  | some file =>
    rw [hfile] at h
    obtain ⟨base, hbase, -⟩ := bind_eq_ok_iff.mp h
    rw [afterGathering, afterReading, hbase]
    rfl

/-- It does not matter which settings file was read, if a log file that tells of it is hidden. -/
theorem Alike.reportSettings [Readers] (h : Alike hidden here state other) (home : String)
    (file file' : Option String)
    (hlog : file = file' ∨ ∀ place, state.LogsSettingsTo place → hidden place) :
    Alike hidden here (state.reportSettings home file) (other.reportSettings home file') := by
  rcases hlog with rfl | hlog
  · cases file with
    | none => exact h
    | some file => exact h.report _
  · have hstays : ∀ (state : RunState) (file : Option String),
        (∀ place, state.LogsSettingsTo place → hidden place) →
        Alike hidden state.files.here (state.reportSettings home file) state := by
      intro state file hlog
      cases file with
      | none => exact refl hidden state
      | some file => exact report_settingsLoaded _ hlog
    have hother : ∀ place, other.LogsSettingsTo place → hidden place := by
      rintro place ⟨logging, hlogging, hplace⟩
      exact hlog place ⟨logging, h.logging_eq.trans hlogging, hplace⟩
    have hleft := hstays state file hlog
    have hright := hstays other file' hother
    rw [h.here_eq] at hleft
    rw [h.symm.here_eq] at hright
    exact (hleft.trans h).trans hright.symm

/-- Two runs with the same settings do the same from there on, whichever files they have them
from. -/
theorem agrees_of_settingsFor [Readers] (h : Alike hidden here state other)
    {options others : Options} {settings : Settings} {dryRun : Bool}
    (hsettings : state.files.settingsFor home options = .ok settings)
    (hsettings' : other.files.settingsFor home others = .ok settings)
    (hlog : options.settingsFile = others.settingsFile ∨
      ∀ place, state.LogsSettingsTo place → hidden place)
    (hcopies : dryRun = false → ∀ plan, state.files.plan settings = .ok plan →
      ∀ copy ∈ plan.copies, HidesCopy hidden here copy) :
    Agrees hidden here
      (state.perform (gatherSettings home options >>= fun settings =>
        process settings dryRun >>= fun summary =>
          liftM (Host.report (.runEnds summary.tally) : StateM RunState Unit)))
      (other.perform (gatherSettings home others >>= fun settings =>
        process settings dryRun >>= fun summary =>
          liftM (Host.report (.runEnds summary.tally) : StateM RunState Unit))) := by
  have halike := h.reportSettings home options.settingsFile others.settingsFile hlog
  have hquiet := (reported_afterGathering state home options.settingsFile).onlyReports
  rw [← afterGathering_of_ok hsettings, ← afterGathering_of_ok hsettings'] at halike
  rw [perform_bind, perform_gatherSettings, hsettings, perform_bind, perform_gatherSettings,
    hsettings']
  dsimp only
  have hprocess := agrees_process halike fun hreal plan hplan => by
    rw [hquiet.sameBut.plan_eq hquiet.children_eq] at hplan
    exact hcopies hreal plan hplan
  exact hprocess.perform_bind fun summary last last' _ _ hlast => ⟨rfl, hlast.report _⟩

/-- The state in which settings are read: logging has been started. -/
def begun (state : RunState) (surroundings : Surroundings) (options : Options) : RunState :=
  (state.perform (logPath surroundings options >>= startLog options.verbosity)).2

end RunState

/-! ### Two runs -/

open RunState

/-- Two runs with the same settings, from the start of logging to their ends. -/
theorem agrees_runArguments_of_settingsFor [Readers] {hidden : Location → Prop} {here : Location}
    {state other : RunState} {surroundings : Surroundings} {first second : List String}
    {options others : Options} {settings : Settings} (h : Alike hidden here state other)
    (hfirst : Readers.readArguments first = .ok options)
    (hsecond : Readers.readArguments second = .ok others)
    (hrest : options.withoutTexts = others.withoutTexts)
    (hsettings : (state.begun surroundings options).files.settingsFor surroundings.home options =
      .ok settings)
    (hsettings' : (other.begun surroundings others).files.settingsFor surroundings.home others =
      .ok settings)
    (hlog : options.settingsFile = others.settingsFile ∨
      ∀ place, (state.begun surroundings options).LogsSettingsTo place → hidden place)
    (hcopies : options.dryRun = false → ∀ plan,
      (state.begun surroundings options).files.planFor surroundings.home options = .ok plan →
        ∀ copy ∈ plan.copies, HidesCopy hidden here copy) :
    Agrees hidden here (runArguments (m := StateM RunState) surroundings first state)
      (runArguments (m := StateM RunState) surroundings second other) := by
  refine agrees_runArguments hfirst hsecond ?_
  -- both start logging in one way
  have hways : ∀ options : Options,
      (logPath surroundings options >>= startLog options.verbosity :
          ExceptT Failure (StateM RunState) Unit) =
        logPath surroundings options.withoutTexts >>= startLog options.withoutTexts.verbosity :=
    fun _ => rfl
  have hway := (hways options).trans (hrest ▸ (hways others).symm)
  have hdry : options.dryRun = others.dryRun := by
    change options.withoutTexts.dryRun = others.withoutTexts.dryRun
    rw [hrest]
  rw [runOptions_eq, runOptions_eq, ← hway, ← hdry]
  have hstart := agrees_begin h surroundings options
  refine hstart.perform_bind fun _ mid mid' hmid hmid' halike => ?_
  obtain rfl : state.begun surroundings options = mid := congrArg Prod.snd hmid
  obtain rfl : other.begun surroundings others = mid' := by
    rw [begun, ← hway, hmid']
  refine agrees_of_settingsFor halike hsettings hsettings' hlog fun hreal plan hplan =>
    hcopies hreal plan ?_
  rw [FileTree.planFor, hsettings, ok_bind, hplan]

/-- The places where files may differ after a run if they differed at some places before: these, and
those that files are copied to from such places. A dry run copies none. -/
inductive FileTree.Reached [Readers] (tree : FileTree) (home : String) (options : Options)
    (differs : Location → Prop) : Location → Prop
  | start {place : Location} (h : differs place) : Reached tree home options differs place
  | copied {plan : Plan} {copy : PlannedCopy} (hreal : options.dryRun = false)
    (hplan : tree.planFor home options = .ok plan) (hcopy : copy ∈ plan.copies)
    (h : Reached tree home options differs (tree.placeOf copy.source)) :
    Reached tree home options differs (tree.placeOf copy.target)

/-- If no file that differs is copied, no more files differ. -/
theorem FileTree.Reached.of_not_copied [Readers] {tree : FileTree} {home : String}
    {options : Options} {differs : Location → Prop} {place : Location}
    (h : tree.Reached home options differs place)
    (hfree : ∀ plan, tree.planFor home options = .ok plan →
      ∀ copy ∈ plan.copies, ¬ differs (tree.placeOf copy.source)) : differs place := by
  induction h with
  | start h => exact h
  | copied _ hplan hcopy _ ih => exact absurd ih (hfree _ hplan _ hcopy)

/-- Two runs whose options have the same texts have the same settings, wherever each text comes
from: what the text of the command line stands for, or that of the settings file where the command
line gives none. From then on the runs do the same. They begin with files that differ only at some
places, such as settings files from which a text was taken, and they leave files that differ only at
these, where they are copied to, and in the log file if it tells of different settings files. What
the readers of documents, command lines and tildes answer does not matter for this. -/
theorem runArguments_of_same_texts [Readers] {differs : Location → Prop} {here : Location}
    {state other : RunState} {surroundings : Surroundings} {first second : List String}
    {options others : Options} {texts texts' : OptionTexts}
    (halike : Alike differs here state other)
    (hfirst : Readers.readArguments first = .ok options)
    (hsecond : Readers.readArguments second = .ok others)
    (hrest : options.withoutTexts = others.withoutTexts)
    (hgives : (state.begun surroundings options).files.Gives surroundings.home
      options.settingsFile texts)
    (hgives' : (other.begun surroundings others).files.Gives surroundings.home
      others.settingsFile texts')
    (hsame : options.textsOver texts = others.textsOver texts') :
    ((state.begun surroundings options).perform
        (gatherSettings surroundings.home options)).1 =
      .ok (Settings.ofTexts surroundings.home (options.textsOver texts)) ∧
    ((other.begun surroundings others).perform
        (gatherSettings surroundings.home others)).1 =
      .ok (Settings.ofTexts surroundings.home (options.textsOver texts)) ∧
    Agrees
      ((state.begun surroundings options).files.Reached surroundings.home options fun place =>
        differs place ∨ options.settingsFile ≠ others.settingsFile ∧
          (state.begun surroundings options).LogsSettingsTo place)
      here (runArguments (m := StateM RunState) surroundings first state)
      (runArguments (m := StateM RunState) surroundings second other) := by
  have hsettings := FileTree.settingsFor_eq_ok_iff.mpr ⟨texts, hgives, rfl⟩
  have hsettings' := FileTree.settingsFor_eq_ok_iff.mpr ⟨texts', hgives', congrArg _ hsame⟩
  refine ⟨?_, ?_, ?_⟩
  · rw [perform_gatherSettings, hsettings]
  · rw [perform_gatherSettings, hsettings']
  have hbegun : (state.begun surroundings options).files.here = here :=
    (agrees_begin halike surroundings options).2.here_eq
  refine agrees_runArguments_of_settingsFor (halike.mono fun place h => .start (Or.inl h)) hfirst
    hsecond hrest hsettings hsettings' ?_ fun hreal plan hplan copy hcopy tree htree => ?_
  · by_cases hfile : options.settingsFile = others.settingsFile
    · exact Or.inl hfile
    · exact Or.inr fun place hlog => .start (Or.inr ⟨hfile, hlog⟩)
  · have hplaces := FileTree.placeOf_congr (htree.trans hbegun.symm)
    rw [hplaces, hplaces]
    exact .copied hreal hplan hcopy

/-! ### An option that moves -/

/-- A home directory with one picture and a settings file. -/
def onePicture (settings : String) : RunState where
  files := ⟨[(["home"].map Text.Utf8.octets, .directory),
    (["home", "config"].map Text.Utf8.octets, .directory),
    (["home", "pics"].map Text.Utf8.octets, .directory),
    (["home", "pics", "a7.tif"].map Text.Utf8.octets, .file (Text.Utf8.octets "data")),
    (["home", "s.yaml"].map Text.Utf8.octets, .file (Text.Utf8.octets settings))], []⟩

def pictureUser : Surroundings where
  home := "/home"
  configDirectory := .ofText "/home/config"

/-- A settings file with one option that counts, one that does not, and one without a text. -/
def firstFile : String :=
  "# pictures\ninpDir: \"~/pics\"\nout_dir: elsewhere\nfile_pattern: ~\nauthors: [me, you]\n"

def firstTexts : OptionTexts
  | .inputDirectory => some "~/pics"
  | .outputDirectory => some "elsewhere"
  | .inputPattern | .outputPattern => none

def firstArguments : List String :=
  ["-c", "~/s.yaml", "--out-dir=~/out", "-f", "a{n:d}.tif", "-p", "b{n:dd}.tif"]

def firstOptions : Options where
  outputDirectory := some "~/out"
  inputPattern := some "a{n:d}.tif"
  outputPattern := some "b{n:dd}.tif"
  settingsFile := some "~/s.yaml"

/-- The same options, each from the other source. -/
def secondFile : String :=
  "outFilePattern: \"b{n:dd}.tif\"\nout_dir: '~/out'\nfilePattern: a{n:d}.tif\n"

def secondTexts : OptionTexts
  | .inputDirectory => none
  | .outputDirectory => some "~/out"
  | .inputPattern => some "a{n:d}.tif"
  | .outputPattern => some "b{n:dd}.tif"

def secondArguments : List String :=
  ["--inp-dir", "~/pics", "-c~/s.yaml"]

def secondOptions : Options where
  inputDirectory := some "~/pics"
  settingsFile := some "~/s.yaml"

/-- The first run has its input directory from the settings file, and the rest from the command
line. In the second run each comes from the other source. -/
theorem runArguments_of_same_texts_moved :
    (((onePicture firstFile).begun pictureUser firstOptions).perform
        (gatherSettings pictureUser.home firstOptions)).1 =
      .ok ⟨some (.ofText "/home/pics"), some (.ofText "/home/out"), some "a{n:d}.tif",
        some "b{n:dd}.tif"⟩ ∧
    (runArguments (m := StateM RunState) pictureUser firstArguments (onePicture firstFile)).1 =
      (runArguments (m := StateM RunState) pictureUser secondArguments (onePicture secondFile)).1 ∧
    ∀ place, place ≠ ["home", "s.yaml"].map Text.Utf8.octets →
      (runArguments (m := StateM RunState) pictureUser firstArguments
          (onePicture firstFile)).2.files.get? place =
        (runArguments (m := StateM RunState) pictureUser secondArguments
          (onePicture secondFile)).2.files.get? place := by
  have hedited : (onePicture firstFile).files.put (["home", "s.yaml"].map Text.Utf8.octets)
      (.file (Text.Utf8.octets secondFile)) = (onePicture secondFile).files := by decide +kernel
  have hfiles := hedited ▸ @FileTree.Alike.put_hidden
    (· = ["home", "s.yaml"].map Text.Utf8.octets) _ _ (Text.Utf8.octets firstFile)
    (by decide +kernel) rfl (Text.Utf8.octets secondFile)
  have hread : ((onePicture firstFile).begun pictureUser firstOptions).files.read
      (Path.expandHome pictureUser.home "~/s.yaml") = .ok (Text.Utf8.octets firstFile) := by
    decide +kernel
  have hread' : ((onePicture secondFile).begun pictureUser secondOptions).files.read
      (Path.expandHome pictureUser.home "~/s.yaml") = .ok (Text.Utf8.octets secondFile) := by
    decide +kernel
  have hcopies : (((onePicture firstFile).begun pictureUser firstOptions).files.planFor
      pictureUser.home firstOptions).map Plan.copies =
        .ok [⟨.ofText "/home/pics/a7.tif", .ofText "/home/out/b07.tif"⟩] := by decide +kernel
  obtain ⟨hsettings, -, hexit, hend⟩ := @runArguments_of_same_texts _
    (· = ["home", "s.yaml"].map Text.Utf8.octets) [] (onePicture firstFile) (onePicture secondFile)
    pictureUser firstArguments secondArguments firstOptions secondOptions firstTexts secondTexts
    ⟨rfl, rfl, rfl, rfl, rfl, rfl, rfl, hfiles⟩ (by decide +kernel) (by decide +kernel) rfl
    (.file hread (by decide +kernel)) (.file hread' (by decide +kernel))
    (by funext option; cases option <;> rfl)
  refine ⟨?_, hexit, fun place hplace => hend.files.get?_eq place fun hreached => ?_⟩
  · rw [hsettings]
    decide +kernel
  · -- the settings file is not copied, and no other one is read
    refine hplace ((hreached.of_not_copied fun plan hplan copy hcopy h => ?_).resolve_right
      fun hlog => hlog.1 rfl)
    rw [hplan] at hcopies
    rw [show plan.copies = _ from Except.ok.inj hcopies, List.mem_singleton] at hcopy
    subst hcopy
    exact absurd (h.resolve_right fun hlog => hlog.1 rfl) (by decide +kernel)

end PatternRename
