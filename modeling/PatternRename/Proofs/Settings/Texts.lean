import Mathlib.Logic.Function.Basic
import PatternRename.CommandLine.Options
import PatternRename.Proofs.Outcomes
import PatternRename.Settings.Reader

/-!
# The texts of options

A settings file and a command line give options their texts. In a settings file a text is the value
of a key that names the option, in either spelling. What a text means does not depend on where it
comes from: in directories a leading tilde stands for the home directory, and patterns are taken as
they are. The document of a text and the meaning of a tilde are what the readers answer.

## Main definitions

- `OptionTexts` — the texts that are given for options
- `Settings.ofTexts` — what the texts mean
- `Settings.GivenBy` — the texts that the pairs of a map give
- `Settings.FileGives` — the texts that a settings file gives

## Main results

- `Settings.givenBy_pairsOf` — a map can give any texts
- `Settings.ofPairs?_eq_some_iff` — the settings in the pairs of a map
- `Settings.ofFile_eq_ok_iff` — the settings in a file
- `Settings.merge_ofTexts` — settings over other settings
-/

namespace PatternRename

/-- The texts that are given for options. An option may have none. -/
abbrev OptionTexts := RequiredOption → Option String

/-! ### What texts mean -/

namespace Settings

/-- The settings that texts stand for. In directories a leading tilde stands for the home
directory. -/
def ofTexts [Readers] (home : String) (texts : OptionTexts) : Settings where
  inputDirectory := (texts .inputDirectory).map (Readers.expandHome home)
  outputDirectory := (texts .outputDirectory).map (Readers.expandHome home)
  inputPattern := texts .inputPattern
  outputPattern := texts .outputPattern

theorem set_ofTexts [Readers] (home : String) (texts : OptionTexts) (option : RequiredOption)
    (text : String) :
    (ofTexts home texts).set home option text =
      ofTexts home (Function.update texts option (some text)) := by
  cases option <;> simp [set, ofTexts]

/-- What a text means does not depend on whether it covers another one. -/
theorem merge_ofTexts [Readers] (home : String) (below above : OptionTexts) :
    (ofTexts home below).merge (ofTexts home above) =
      ofTexts home fun option => above option <|> below option := by
  simp only [merge, ofTexts]
  congr 1
  · cases above .inputDirectory <;> rfl
  · cases above .outputDirectory <;> rfl

end Settings

/-- The text that a command line gives for an option. -/
def Options.text? (options : Options) : OptionTexts
  | .inputDirectory => options.inputDirectory
  | .outputDirectory => options.outputDirectory
  | .inputPattern => options.inputPattern
  | .outputPattern => options.outputPattern

theorem Options.settings_eq_ofTexts [Readers] (home : String) (options : Options) :
    options.settings home = Settings.ofTexts home options.text? := rfl

/-! ### Keys and values -/

theorem RequiredOption.mem_all (option : RequiredOption) : option ∈ all := by
  cases option <;> decide

instance (p : RequiredOption → Prop) [DecidablePred p] : Decidable (∀ option, p option) :=
  decidable_of_iff (∀ option ∈ RequiredOption.all, p option)
    ⟨fun h option => h option option.mem_all, fun h option _ => h option⟩

/-- A key names an option in either spelling. -/
def RequiredOption.IsNamed (option : RequiredOption) (key : String) : Prop :=
  key = option.key ∨ key = option.otherKey

instance (option : RequiredOption) (key : String) : Decidable (option.IsNamed key) :=
  inferInstanceAs (Decidable (_ ∨ _))

theorem RequiredOption.ofKey?_eq_some_iff {key : String} {option : RequiredOption} :
    ofKey? key = some option ↔ option.IsNamed key := by
  constructor
  · intro h
    have hfound := List.find?_some h
    rwa [Bool.or_eq_true, beq_iff_eq, beq_iff_eq] at hfound
  · rintro (rfl | rfl) <;> cases option <;> rfl

/-- A key names no option that another spelling does not name. -/
theorem RequiredOption.IsNamed.unique {option other : RequiredOption} {key : String}
    (h : option.IsNamed key) (h' : other.IsNamed key) : option = other :=
  Option.some.inj ((ofKey?_eq_some_iff.mpr h).symm.trans (ofKey?_eq_some_iff.mpr h'))

namespace Yaml.Node

def IsScalar (node : Node) : Prop :=
  ∃ plain text, node = .scalar plain text

instance : (node : Node) → Decidable node.IsScalar
  | .scalar plain text => isTrue ⟨plain, text, rfl⟩
  | .list _ => isFalse (by rintro ⟨_, _, h⟩; cases h)
  | .map _ => isFalse (by rintro ⟨_, _, h⟩; cases h)

/-- A node is a key that names an option. -/
def Names (node : Node) (option : RequiredOption) : Prop :=
  ∃ plain key, node = .scalar plain key ∧ option.IsNamed key

/-- What a value says about an option: a null says nothing, and any other scalar is its text. -/
inductive Says : Node → Option String → Prop
  | null {node : Node} (h : node.isNull = true) : Says node none
  | text {plain : Bool} {text : String} (h : isNull (.scalar plain text) = false) :
    Says (.scalar plain text) (some text)

theorem names_scalar_iff {plain : Bool} {key : String} {option : RequiredOption} :
    Names (.scalar plain key) option ↔ option.IsNamed key := by
  constructor
  · rintro ⟨plain', key', heq, h⟩
    obtain ⟨-, rfl⟩ := Node.scalar.inj heq
    exact h
  · exact fun h => ⟨plain, key, rfl, h⟩

instance : (node : Node) → (option : RequiredOption) → Decidable (node.Names option)
  | .scalar _ _, _ => decidable_of_iff _ names_scalar_iff.symm
  | .list _, _ => isFalse (by rintro ⟨_, _, h, -⟩; cases h)
  | .map _, _ => isFalse (by rintro ⟨_, _, h, -⟩; cases h)

theorem Names.unique {node : Node} {option other : RequiredOption} (h : node.Names option)
    (h' : node.Names other) : option = other := by
  obtain ⟨plain, key, rfl, hkey⟩ := h
  exact hkey.unique (names_scalar_iff.mp h')

theorem Says.unique {node : Node} {said said' : Option String} (h : node.Says said)
    (h' : node.Says said') : said = said' := by
  cases h with
  | null h =>
    cases h' with
    | null => rfl
    | text h' => simp [h] at h'
  | text h =>
    cases h' with
    | null h' => simp [h] at h'
    | text => rfl

/-- A value that is not null says something only if it is a scalar. -/
theorem Says.isScalar_of_not_null {node : Node} {said : Option String} (h : node.Says said)
    (hnull : node.isNull = false) : node.IsScalar := by
  cases h with
  | null h => simp [hnull] at h
  | text => exact ⟨_, _, rfl⟩

theorem says_scalar_iff {plain : Bool} {text : String} {said : Option String} :
    Says (.scalar plain text) said ↔
      said = if isNull (.scalar plain text) then none else some text := by
  cases hnull : isNull (.scalar plain text) with
  | true => exact ⟨fun h => h.unique (.null hnull), fun h => h ▸ .null hnull⟩
  | false => exact ⟨fun h => h.unique (.text hnull), fun h => h ▸ .text hnull⟩

instance : (node : Node) → (said : Option String) → Decidable (node.Says said)
  | .scalar _ _, _ => decidable_of_iff _ says_scalar_iff.symm
  | .list _, _ => isFalse (by rintro ⟨⟨⟩⟩)
  | .map _, _ => isFalse (by rintro ⟨⟨⟩⟩)

end Yaml.Node

/-! ### The pairs of a map -/

namespace Settings

/-- The pairs of a map give some texts: every key is a scalar, no two keys name one option, and what
the value of an option says is its text. An option that no key names has none. -/
structure GivenBy (pairs : List (Yaml.Node × Yaml.Node)) (texts : OptionTexts) : Prop where
  keys : ∀ pair ∈ pairs, pair.1.IsScalar
  once : pairs.Pairwise fun pair later => ∀ option, pair.1.Names option → ¬ later.1.Names option
  values : ∀ pair ∈ pairs, ∀ option, pair.1.Names option → pair.2.Says (texts option)
  unnamed : ∀ option, (∀ pair ∈ pairs, ¬ pair.1.Names option) → texts option = none

instance (pairs : List (Yaml.Node × Yaml.Node)) (texts : OptionTexts) :
    Decidable (GivenBy pairs texts) :=
  decidable_of_iff (_ ∧ _ ∧ _ ∧ _)
    ⟨fun ⟨keys, once, values, unnamed⟩ => ⟨keys, once, values, unnamed⟩,
      fun h => ⟨h.keys, h.once, h.values, h.unnamed⟩⟩

namespace GivenBy

variable {pairs front rest : List (Yaml.Node × Yaml.Node)} {pair : Yaml.Node × Yaml.Node}
  {texts texts' : OptionTexts} {option : RequiredOption} {said : Option String}

theorem nil : GivenBy [] fun _ => none :=
  ⟨by simp, List.Pairwise.nil, by simp, fun _ _ => rfl⟩

theorem unique (h : GivenBy pairs texts) (h' : GivenBy pairs texts') : texts = texts' := by
  funext option
  by_cases hnamed : ∃ pair ∈ pairs, pair.1.Names option
  · obtain ⟨pair, hpair, hnames⟩ := hnamed
    exact (h.values pair hpair option hnames).unique (h'.values pair hpair option hnames)
  · have hnone : ∀ pair ∈ pairs, ¬ pair.1.Names option :=
      fun pair hpair hnames => hnamed ⟨pair, hpair, hnames⟩
    rw [h.unnamed option hnone, h'.unnamed option hnone]

/-- A key that names no option changes nothing. -/
theorem concat_other (h : GivenBy front texts) (hkey : pair.1.IsScalar)
    (hother : ∀ option, ¬ pair.1.Names option) : GivenBy (front ++ [pair]) texts := by
  refine ⟨?_, ?_, ?_, fun option hnone => h.unnamed option fun before hbefore => ?_⟩
  · exact List.forall_mem_append.mpr ⟨h.keys, List.forall_mem_singleton.mpr hkey⟩
  · refine List.pairwise_append.mpr ⟨h.once, List.pairwise_singleton _ _, ?_⟩
    intro before _ last hlast option _
    rw [List.mem_singleton.mp hlast]
    exact hother option
  · refine List.forall_mem_append.mpr ⟨h.values, List.forall_mem_singleton.mpr ?_⟩
    exact fun option hnames => absurd hnames (hother option)
  · exact hnone before (List.mem_append_left _ hbefore)

/-- A key that names a new option gives it what its value says. -/
theorem concat_option (h : GivenBy front texts) (hnew : ∀ before ∈ front, ¬ before.1.Names option)
    (hnames : pair.1.Names option) (hsaid : pair.2.Says said) :
    GivenBy (front ++ [pair]) (Function.update texts option said) := by
  refine ⟨?_, ?_, ?_, fun other hnone => ?_⟩
  · refine List.forall_mem_append.mpr ⟨h.keys, List.forall_mem_singleton.mpr ?_⟩
    obtain ⟨plain, key, hkey, -⟩ := hnames
    exact ⟨plain, key, hkey⟩
  · refine List.pairwise_append.mpr ⟨h.once, List.pairwise_singleton _ _, ?_⟩
    intro before hbefore last hlast other hother hlater
    rw [List.mem_singleton.mp hlast] at hlater
    rw [hlater.unique hnames] at hother
    exact hnew before hbefore hother
  · refine List.forall_mem_append.mpr ⟨fun before hbefore other hother => ?_,
      List.forall_mem_singleton.mpr fun other hother => ?_⟩
    · have hne : other ≠ option := by
        rintro rfl
        exact hnew before hbefore hother
      rw [Function.update_of_ne hne]
      exact h.values before hbefore other hother
    · rw [hother.unique hnames, Function.update_self]
      exact hsaid
  · obtain ⟨hfront, hlast⟩ := List.forall_mem_append.mp hnone
    have hne : other ≠ option := by
      rintro rfl
      exact hlast pair List.mem_cons_self hnames
    rw [Function.update_of_ne hne]
    exact h.unnamed other hfront

/-- A pair among others names no option that one before it names. -/
theorem not_names_of_append (h : GivenBy (front ++ pair :: rest) texts)
    (hnames : pair.1.Names option) : ∀ before ∈ front, ¬ before.1.Names option := by
  intro before hbefore hbeforeNames
  obtain ⟨-, -, honce⟩ := List.pairwise_append.mp h.once
  exact honce before hbefore pair List.mem_cons_self option hbeforeNames hnames

theorem says_of_append (h : GivenBy (front ++ pair :: rest) texts) (hnames : pair.1.Names option) :
    pair.2.Says (texts option) :=
  h.values pair (List.mem_append_right front List.mem_cons_self) option hnames

end GivenBy

/-- A map with the given texts, each between quotes and under its key. -/
def pairsOf (key : RequiredOption → String) (texts : OptionTexts) :
    List (Yaml.Node × Yaml.Node) :=
  RequiredOption.all.filterMap fun option => (texts option).map fun text =>
    (.scalar true (key option), .scalar false text)

/-- Whatever the texts and whatever the spellings of the keys, a map can give them. -/
theorem givenBy_pairsOf {key : RequiredOption → String}
    (hkey : ∀ option : RequiredOption, option.IsNamed (key option)) (texts : OptionTexts) :
    GivenBy (pairsOf key texts) texts := by
  have hmem : ∀ {pair}, pair ∈ pairsOf key texts → ∃ option text, texts option = some text ∧
      (.scalar true (key option), .scalar false text) = pair := by
    intro pair hpair
    obtain ⟨option, -, h⟩ := List.mem_filterMap.mp hpair
    obtain ⟨text, htext, heq⟩ := Option.map_eq_some_iff.mp h
    exact ⟨option, text, htext, heq⟩
  have hnames : ∀ {option other}, (Yaml.Node.scalar true (key option)).Names other →
      option = other :=
    fun h => (hkey _).unique (Yaml.Node.names_scalar_iff.mp h)
  refine ⟨fun pair hpair => ?_, ?_, fun pair hpair other hother => ?_, fun option hnone => ?_⟩
  · obtain ⟨option, text, -, rfl⟩ := hmem hpair
    exact ⟨true, key option, rfl⟩
  · -- no option comes twice
    refine List.Pairwise.filterMap _ ?_ (by decide : RequiredOption.all.Nodup)
    intro option later hne pair hpair pair' hpair' other hother hlater
    obtain ⟨text, -, rfl⟩ := Option.map_eq_some_iff.mp hpair
    obtain ⟨text', -, rfl⟩ := Option.map_eq_some_iff.mp hpair'
    exact hne ((hnames hother).trans (hnames hlater).symm)
  · obtain ⟨option, text, htext, rfl⟩ := hmem hpair
    obtain rfl := hnames hother
    rw [htext]
    exact .text rfl
  · by_contra hsome
    obtain ⟨text, htext⟩ := Option.ne_none_iff_exists'.mp hsome
    have hpair : (.scalar true (key option), .scalar false text) ∈ pairsOf key texts :=
      List.mem_filterMap.mpr ⟨option, option.mem_all, by rw [htext]; rfl⟩
    exact hnone _ hpair (Yaml.Node.names_scalar_iff.mpr (hkey option))

/-- The options that have come, with that of one more pair. -/
theorem mem_cons_iff_named {front : List (Yaml.Node × Yaml.Node)} {seen : List RequiredOption}
    {key : Yaml.Node} {option : RequiredOption}
    (hseen : ∀ other, other ∈ seen ↔ ∃ pair ∈ front, pair.1.Names other)
    (hnames : key.Names option) (value : Yaml.Node) (other : RequiredOption) :
    other ∈ option :: seen ↔ ∃ pair ∈ front ++ [(key, value)], pair.1.Names other := by
  have hlast : key.Names other ↔ other = option := ⟨fun h => h.unique hnames, fun h => h ▸ hnames⟩
  simp [hseen, or_and_right, exists_or, hlast, or_comm]

/-- Reading on behind some pairs that give texts, of whose options it is known that they have come,
gives what all pairs together give. -/
theorem ofPairs?_append_eq_some_iff [Readers] {home : String}
    {front rest : List (Yaml.Node × Yaml.Node)} {texts : OptionTexts} {seen : List RequiredOption}
    {settings : Settings}
    (hfront : GivenBy front texts)
    (hseen : ∀ option, option ∈ seen ↔ ∃ pair ∈ front, pair.1.Names option) :
    ofPairs? home (ofTexts home texts) seen rest = some settings ↔
      ∃ given, GivenBy (front ++ rest) given ∧ settings = ofTexts home given := by
  induction rest generalizing front texts seen with
  | nil =>
    rw [ofPairs?, List.append_nil, Option.some.injEq]
    constructor
    · exact fun h => ⟨texts, hfront, h.symm⟩
    · rintro ⟨given, hgiven, rfl⟩
      rw [hfront.unique hgiven]
  | cons pair rest ih =>
    obtain ⟨node, value⟩ := pair
    have hcons : front ++ (node, value) :: rest = (front ++ [(node, value)]) ++ rest := by simp
    cases node with
    | list _ | map _ =>
      refine iff_of_false (by simp [ofPairs?]) ?_
      rintro ⟨given, hgiven, -⟩
      obtain ⟨plain, key, hkey⟩ := hgiven.keys _ (List.mem_append_right front List.mem_cons_self)
      simp at hkey
    | scalar plain key =>
      rw [ofPairs?]
      cases hkey : RequiredOption.ofKey? key with
      | none =>
        have hother : ∀ option, ¬ (Yaml.Node.scalar plain key).Names option := by
          intro option hnames
          rw [RequiredOption.ofKey?_eq_some_iff.mpr (Yaml.Node.names_scalar_iff.mp hnames)] at hkey
          simp at hkey
        rw [hcons]
        refine ih (hfront.concat_other ⟨plain, key, rfl⟩ hother) fun option => ?_
        simp [hseen, hother]
      | some option =>
        have hnames : (Yaml.Node.scalar plain key).Names option :=
          Yaml.Node.names_scalar_iff.mpr (RequiredOption.ofKey?_eq_some_iff.mp hkey)
        have hcome := mem_cons_iff_named hseen hnames value
        dsimp only
        by_cases hmember : option ∈ seen
        · -- the option comes a second time
          rw [if_pos (List.contains_iff_mem.mpr hmember)]
          refine iff_of_false (by simp) ?_
          rintro ⟨given, hgiven, -⟩
          obtain ⟨before, hbefore, hold⟩ := (hseen option).mp hmember
          exact hgiven.not_names_of_append hnames before hbefore hold
        · rw [if_neg (mt List.contains_iff_mem.mp hmember)]
          have hnew : ∀ before ∈ front, ¬ before.1.Names option :=
            fun before hbefore hold => hmember ((hseen option).mpr ⟨before, hbefore, hold⟩)
          cases hnull : value.isNull with
          | true =>
            have hnone : Function.update texts option none = texts := by
              rw [← hfront.unnamed option hnew, Function.update_eq_self]
            have hsaid : value.Says none := .null hnull
            have hnext : GivenBy (front ++ [(.scalar plain key, value)])
              (Function.update texts option none) := hfront.concat_option hnew hnames hsaid
            rw [hnone] at hnext
            rw [if_pos rfl, hcons]
            exact ih hnext hcome
          | false =>
            rw [if_neg Bool.false_ne_true]
            cases value with
            | list _ | map _ =>
              refine iff_of_false (by simp) ?_
              rintro ⟨given, hgiven, -⟩
              obtain ⟨plain, text, htext⟩ :=
                (hgiven.says_of_append hnames).isScalar_of_not_null hnull
              simp at htext
            | scalar plain' text =>
              dsimp only
              rw [set_ofTexts, hcons]
              exact ih (hfront.concat_option hnew hnames (.text hnull)) hcome

/-- The pairs of a map are read as settings exactly if they give texts, and then the settings are
what the texts stand for. -/
theorem ofPairs?_eq_some_iff [Readers] {home : String} {pairs : List (Yaml.Node × Yaml.Node)}
    {settings : Settings} :
    ofPairs? home {} [] pairs = some settings ↔
      ∃ texts, GivenBy pairs texts ∧ settings = ofTexts home texts :=
  ofPairs?_append_eq_some_iff GivenBy.nil (by simp)

/-! ### Settings files -/

/-- A document gives texts if it is a map whose pairs do. A document that is missing or an empty
scalar gives none. -/
inductive DocumentGives : Yaml.Document → OptionTexts → Prop
  | none : DocumentGives .none fun _ => none
  | empty (plain : Bool) : DocumentGives (.one (.scalar plain "")) fun _ => none
  | map {pairs : List (Yaml.Node × Yaml.Node)} {texts : OptionTexts} (h : GivenBy pairs texts) :
    DocumentGives (.one (.map pairs)) texts

instance : (document : Yaml.Document) → (texts : OptionTexts) →
    Decidable (DocumentGives document texts)
  | .none, texts =>
    decidable_of_iff (∀ option, texts option = none)
      ⟨fun h => (funext h : texts = fun _ => none) ▸ .none, by rintro ⟨⟩; exact fun _ => rfl⟩
  | .one (.scalar plain text), texts =>
    decidable_of_iff (text = "" ∧ ∀ option, texts option = none)
      ⟨fun ⟨hempty, h⟩ => (funext h : texts = fun _ => none) ▸ hempty ▸ .empty plain,
        by rintro ⟨⟩; exact ⟨rfl, fun _ => rfl⟩⟩
  | .one (.map pairs), texts =>
    decidable_of_iff (GivenBy pairs texts) ⟨.map, fun | .map h => h⟩
  | .one (.list _), _ => isFalse (by rintro ⟨⟩)

/-- A settings file gives texts if its octets are a text with a document that does. -/
def FileGives [Readers] (content : List UInt8) (texts : OptionTexts) : Prop :=
  ∃ text document, Text.Utf8.decode? content = some text ∧
    Readers.readDocument text = some document ∧ DocumentGives document texts

instance [Readers] (content : List UInt8) (texts : OptionTexts) :
    Decidable (FileGives content texts) :=
  match htext : Text.Utf8.decode? content with
  | none => isFalse (by rintro ⟨text, document, h, -⟩; simp [htext] at h)
  | some text =>
    match hdocument : Readers.readDocument text with
    | none => isFalse (by rintro ⟨text', document, h, h', -⟩; simp_all)
    | some document =>
      decidable_of_iff (DocumentGives document texts)
        ⟨fun h => ⟨text, document, htext, hdocument, h⟩, by
          rintro ⟨text', document', h, h', hgives⟩
          simp_all⟩

theorem ofNode?_eq_some_iff [Readers] {home : String} {root : Yaml.Node} {settings : Settings} :
    ofNode? home root = some settings ↔
      ∃ texts, DocumentGives (.one root) texts ∧ settings = ofTexts home texts := by
  cases root with
  | list items =>
    refine iff_of_false (by simp [ofNode?]) ?_
    rintro ⟨texts, h, -⟩
    cases h
  | map pairs =>
    rw [ofNode?, ofPairs?_eq_some_iff]
    refine exists_congr fun texts => and_congr_left fun _ => ⟨.map, fun h => ?_⟩
    cases h with
    | map h => exact h
  | scalar plain text =>
    rw [ofNode?]
    split
    · rename_i hempty
      obtain rfl := String.isEmpty_iff.mp hempty
      constructor
      · intro h
        exact ⟨_, .empty plain, (Option.some.inj h).symm⟩
      · rintro ⟨texts, h, rfl⟩
        cases h
        rfl
    · rename_i hempty
      refine iff_of_false (by simp) ?_
      rintro ⟨texts, h, -⟩
      cases h
      exact hempty rfl

theorem ofText?_eq_some_iff [Readers] {home text : String} {settings : Settings} :
    ofText? home text = some settings ↔ ∃ document texts,
      Readers.readDocument text = some document ∧ DocumentGives document texts ∧
        settings = ofTexts home texts := by
  rw [ofText?]
  cases Readers.readDocument text with
  | none => simp
  | some document =>
    cases document with
    | one root => simp [ofNode?_eq_some_iff]
    | none =>
      constructor
      · intro h
        exact ⟨.none, _, rfl, .none, (Option.some.inj h).symm⟩
      · rintro ⟨document, texts, heq, h, rfl⟩
        obtain rfl := Option.some.inj heq
        cases h
        rfl

/-- A file is read as settings exactly if it gives texts, and then the settings are what the texts
stand for. -/
theorem ofFile_eq_ok_iff [Readers] {home : String} {path : Path} {content : List UInt8}
    {settings : Settings} :
    ofFile home path content = .ok settings ↔
      ∃ texts, FileGives content texts ∧ settings = ofTexts home texts := by
  rw [ofFile]
  simp only [FileGives]
  cases Text.Utf8.decode? content with
  | none => simp
  | some text =>
    dsimp only
    constructor
    · intro h
      cases hsettings : ofText? home text with
      | none => simp [hsettings] at h
      | some found =>
        rw [hsettings] at h
        obtain ⟨document, texts, hread, hgives, heq⟩ := ofText?_eq_some_iff.mp hsettings
        exact ⟨texts, ⟨text, document, rfl, hread, hgives⟩, Except.ok.inj h ▸ heq⟩
    · rintro ⟨texts, ⟨text', document, heq, hread, hgives⟩, rfl⟩
      obtain rfl := Option.some.inj heq
      rw [ofText?_eq_some_iff.mpr ⟨document, texts, hread, hgives, rfl⟩]

end Settings

end PatternRename
