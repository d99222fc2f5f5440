import PatternRename.Proofs.Matching.Backtracking
import PatternRename.Proofs.Pattern.Expressions

/-!
# Reading expressions

What an expression means is settled by how it is written. A reader goes through its characters: a
backslash takes the meaning from the sign behind it, brackets hold a class, braces say how often a
class comes, and parentheses hold a group, which may have a name. It does not know how patterns are
written, and gives nothing where it sees a sign that patterns have no use for. What it reads in the
expression of a pattern matches in the same ways, in the same order, as the expression that the
search for the pattern goes by.

## Main definitions

- `Regex.Reading`, `Regex.Reading.step` — what is read so far, and the next character
- `Regex.read` — the expression that is written in a text
- `Regex.ReadsBack` — an expression that is read in what is written for it

## Main results

- `Regex.reads_escapeChar` — a literal character is read as such
- `Pattern.readsBack_regex` — the expression of a pattern is read back
- `Pattern.find_preferred_decomposition` — what the matcher finds, and when it finds nothing
-/

namespace PatternRename

/-! ### The reader -/

/-- The class of the characters and ranges that brackets hold. -/
def CharClass.ofText? : String → Option CharClass
  | "0-9" => some .digits
  | "a-zA-Z" => some .letters
  | "+-" => some .signs
  | "." => some .point
  | _ => none

namespace Regex

/-- Expressions one behind the other. -/
def seqAll (items : List Regex) : Regex :=
  items.foldr .seq .empty

/-- What stands between two signs and is read as a whole. -/
inductive Enclosed where
  /-- In brackets. -/
  | charClass
  /-- In braces. -/
  | count
  /-- Behind the question mark at the beginning of a group. -/
  | groupName

def Enclosed.closing : Enclosed → Char
  | .charClass => ']'
  | .count => '}'
  | .groupName => '>'

/-- Where a reader stands. -/
inductive Place where
  | between
  /-- Behind a backslash. -/
  | escape
  /-- Inside of something enclosed, behind these characters of it, the last one first. -/
  | inside (what : Enclosed) (taken : List Char)

/-- What is read so far: the items of the innermost group, the last one first, and the groups
around it, each with its name and the items before it. -/
structure Reading where
  items : List Regex
  outer : List (Option String × List Regex)
  place : Place

/-- Signs and other marks may stand behind a backslash. With a letter or a digit it has a meaning
of its own, and so it has with angle brackets. -/
def mayBeEscaped (c : Char) : Bool :=
  c.val < 128 && !c.isAlphanum && c != '<' && c != '>'

/-- Expressions that a question mark may follow. Behind a repetition it has another meaning. -/
def mayBeOptional : Regex → Bool
  | .text _ | .one _ | .group _ | .named _ _ => true
  | _ => false

/-- Letters and digits, of which the first is a letter. -/
def isGroupName (name : List Char) : Bool :=
  name.head?.any Char.isAlpha && name.all Char.isAlphanum

namespace Reading

def add (r : Reading) (item : Regex) : Reading :=
  { r with items := item :: r.items, place := .between }

/-- The class that was read last, repeated. -/
def repeatLast (r : Reading) (times : CharClass → Regex) : Option Reading :=
  match r.items with
  | .one c :: before => some ⟨times c :: before, r.outer, .between⟩
  | _ => none

/-- A question mark: the beginning of a name at the beginning of a group, and otherwise the last
item may be left out. -/
def question (r : Reading) : Option Reading :=
  match r.items, r.outer with
  | [], (none, _) :: _ => some { r with place := .inside .groupName [] }
  | item :: before, _ =>
    if mayBeOptional item then some ⟨.optional item :: before, r.outer, .between⟩ else none
  | _, _ => none

def endGroup (r : Reading) : Option Reading :=
  match r.outer with
  | (none, before) :: outer => some ⟨.group (seqAll r.items.reverse) :: before, outer, .between⟩
  | (some name, before) :: outer =>
    some ⟨.named name (seqAll r.items.reverse) :: before, outer, .between⟩
  | [] => none

/-- A name is given to the innermost group, which begins. -/
def nameGroup (r : Reading) : List Char → Option Reading
  | 'P' :: '<' :: name =>
    match r.outer with
    | (_, before) :: outer =>
      if isGroupName name then some ⟨[], (some (String.ofList name), before) :: outer, .between⟩
      else none
    | [] => none
  | _ => none

/-- The end of what is enclosed. -/
def close (r : Reading) (taken : List Char) : Enclosed → Option Reading
  | .charClass => (CharClass.ofText? (String.ofList taken)).map fun c => r.add (.one c)
  | .count =>
    if Text.isDigitRun taken then r.repeatLast (.exactly · (Nat.ofDigitChars 10 taken 0)) else none
  | .groupName => r.nameGroup taken

/-- A character between items. -/
def next (r : Reading) : Char → Option Reading
  | '\\' => some { r with place := .escape }
  | '[' => some { r with place := .inside .charClass [] }
  | '{' => some { r with place := .inside .count [] }
  | '(' => some ⟨[], (none, r.items) :: r.outer, .between⟩
  | ')' => r.endGroup
  | '*' => r.repeatLast .many
  | '+' => r.repeatLast .many1
  | '?' => r.question
  | '.' | '|' | '^' | '$' => none
  | c => some (r.add (.text (String.singleton c)))

/-- The next character. -/
def step (r : Reading) (c : Char) : Option Reading :=
  match r.place with
  | .between => r.next c
  | .escape => if mayBeEscaped c then some (r.add (.text (String.singleton c))) else none
  | .inside what taken =>
    if c = what.closing then r.close taken.reverse what
    else some { r with place := .inside what (c :: taken) }

theorem step_inside (items : List Regex) (outer : List (Option String × List Regex))
    (what : Enclosed) (taken : List Char) (c : Char) :
    step ⟨items, outer, .inside what taken⟩ c =
      if c = what.closing then close ⟨items, outer, .inside what taken⟩ taken.reverse what
      else some ⟨items, outer, .inside what (c :: taken)⟩ :=
  rfl

end Reading

/-- The expression that is written in a text, if it is one of those that patterns are made of. -/
def read (text : String) : Option Regex :=
  match text.toList.foldlM Reading.step ⟨[], [], .between⟩ with
  | some ⟨items, [], .between⟩ => some (seqAll items.reverse)
  | _ => none

/-! ### What is read in characters -/

/-- Characters in which these items are read, whatever stands before and around them. -/
def Reads (chars : List Char) (items : List Regex) : Prop :=
  ∀ before outer, chars.foldlM Reading.step ⟨before, outer, .between⟩ =
    some ⟨items.reverse ++ before, outer, .between⟩

theorem Reads.nil : Reads [] [] :=
  fun _ _ => rfl

theorem Reads.append {front back : List Char} {first later : List Regex}
    (hfirst : Reads front first) (hlater : Reads back later) :
    Reads (front ++ back) (first ++ later) := by
  intro before outer
  rw [List.foldlM_append, hfirst, List.reverse_append, List.append_assoc]
  exact hlater _ _

/-- One character behind others in which items are read. -/
theorem Reads.foldlM_concat {chars : List Char} {items : List Regex} (h : Reads chars items)
    (c : Char) (before : List Regex) (outer : List (Option String × List Regex)) :
    (chars ++ [c]).foldlM Reading.step ⟨before, outer, .between⟩ =
      Reading.step ⟨items.reverse ++ before, outer, .between⟩ c := by
  rw [List.foldlM_append, h]
  exact bind_pure (Reading.step ⟨items.reverse ++ before, outer, .between⟩ c)

/-- What is enclosed is taken up to the sign that closes it. -/
theorem foldlM_inside {what : Enclosed} {chars : List Char} (h : what.closing ∉ chars)
    (items : List Regex) (outer : List (Option String × List Regex)) (taken : List Char) :
    chars.foldlM Reading.step ⟨items, outer, .inside what taken⟩ =
      some ⟨items, outer, .inside what (chars.reverse ++ taken)⟩ := by
  induction chars generalizing taken with
  | nil => rfl
  | cons c chars ih =>
    obtain ⟨hne, hrest⟩ := List.ne_and_not_mem_of_not_mem_cons h
    rw [List.foldlM_cons, Reading.step_inside, if_neg (Ne.symm hne), Option.bind_eq_bind,
      Option.bind_some, ih hrest, List.reverse_cons, List.append_assoc]
    rfl

/-- What is enclosed is read as a whole. -/
theorem foldlM_enclosed {what : Enclosed} {chars : List Char} (h : what.closing ∉ chars)
    (items : List Regex) (outer : List (Option String × List Regex)) :
    (chars ++ [what.closing]).foldlM Reading.step ⟨items, outer, .inside what []⟩ =
      Reading.close ⟨items, outer, .inside what chars.reverse⟩ chars what := by
  have hstep : Reading.step ⟨items, outer, .inside what chars.reverse⟩ what.closing =
      Reading.close ⟨items, outer, .inside what chars.reverse⟩ chars what := by
    rw [Reading.step_inside, if_pos rfl, List.reverse_reverse]
  rw [List.foldlM_append, foldlM_inside h, List.append_nil, ← hstep]
  exact bind_pure (Reading.step ⟨items, outer, .inside what chars.reverse⟩ what.closing)

theorem mayBeEscaped_of_isExpressionSign {c : Char} (h : isExpressionSign c = true) :
    mayBeEscaped c = true := by
  rw [isExpressionSign, List.contains_iff_mem] at h
  refine List.all_eq_true.mp ?_ c h
  decide

/-- A character is read from what is written for it: as it is, or behind a backslash. -/
theorem reads_escapeChar (c : Char) : Reads (escapeChar c) [.text (String.singleton c)] := by
  intro before outer
  rcases escapeChar_cases c with ⟨hsign, hc⟩ | ⟨hsign, hc⟩
  · have hstep : Reading.step ⟨before, outer, .escape⟩ c =
        some ⟨.text (String.singleton c) :: before, outer, .between⟩ :=
      if_pos (mayBeEscaped_of_isExpressionSign hsign)
    rw [hc]
    exact congrArg (· >>= pure) hstep
  · have hnext : Reading.next ⟨before, outer, .between⟩ c =
        some ⟨.text (String.singleton c) :: before, outer, .between⟩ := by
      -- a character with a meaning in expressions is a sign
      unfold Reading.next
      split <;> first | exact absurd hsign (by decide) | rfl
    rw [hc, List.foldlM_cons, Reading.step, hnext]
    rfl

theorem reads_escapeChars (chars : List Char) :
    Reads (chars.flatMap escapeChar) (chars.map fun c => .text (String.singleton c)) := by
  induction chars with
  | nil => exact .nil
  | cons c chars ih => exact (reads_escapeChar c).append ih

theorem reads_written (c : CharClass) : Reads c.written.toList [.one c] := by
  intro before outer
  cases c <;> rfl

/-- A class is read as often as what is written behind it says. -/
theorem reads_classPrimitive (c : CharClass) (w : Width) :
    Reads (classPrimitive c.written w).toList [w.regex c] := by
  intro before outer
  rw [toList_classPrimitive]
  cases w with
  | unbounded => exact (reads_written c).foldlM_concat '*' before outer
  | fixed n =>
    have hclosing : Enclosed.count.closing ∉ Text.digits n := fun hmem =>
      absurd (Text.isDigit_of_mem_digits hmem) (by decide)
    have hrun : Text.isDigitRun (Text.digits n) = true :=
      Text.isDigitRun_iff.mpr ⟨Nat.toDigits_ne_nil, fun _ => Text.isDigit_of_mem_digits⟩
    rw [List.foldlM_append, reads_written]
    refine (foldlM_enclosed hclosing _ _).trans ?_
    rw [Reading.close, if_pos hrun, Text.ofDigitChars_digits]
    rfl

theorem reads_many1 (c : CharClass) : Reads (many1 c).written.toList [.many1 c] := by
  intro before outer
  rw [written, String.toList_append]
  exact (reads_written c).foldlM_concat '+' before outer

theorem Reads.optional {chars : List Char} {item : Regex} (h : Reads chars [item])
    (hitem : mayBeOptional item = true) : Reads (chars ++ ['?']) [.optional item] := by
  intro before outer
  rw [h.foldlM_concat]
  exact if_pos hitem

/-- The items of a group are read up to its end. -/
theorem Reads.foldlM_endGroup {chars : List Char} {items : List Regex} (h : Reads chars items)
    (outer : List (Option String × List Regex)) :
    (chars ++ [')']).foldlM Reading.step ⟨[], outer, .between⟩ =
      Reading.endGroup ⟨items.reverse, outer, .between⟩ := by
  rw [h.foldlM_concat, List.append_nil]
  rfl

theorem Reads.group {chars : List Char} {items : List Regex} (h : Reads chars items) :
    Reads ('(' :: (chars ++ [')'])) [.group (seqAll items)] := by
  intro before outer
  refine (h.foldlM_endGroup ((none, before) :: outer)).trans ?_
  rw [Reading.endGroup, List.reverse_reverse]
  rfl

theorem Reads.named {chars : List Char} {items : List Regex} {name : List Char}
    (h : Reads chars items) (hname : isGroupName name = true) :
    Reads ('(' :: '?' :: ('P' :: '<' :: name ++ ['>']) ++ (chars ++ [')']))
      [.named (String.ofList name) (seqAll items)] := by
  intro before outer
  have hclosing : Enclosed.groupName.closing ∉ 'P' :: '<' :: name := by
    have hname := List.all_eq_true.mp (Bool.and_eq_true_iff.mp hname).2
    simp only [List.mem_cons, not_or]
    exact ⟨by decide, by decide, fun hmem => absurd (hname _ hmem) (by decide)⟩
  have hbegin : ('(' :: '?' :: ('P' :: '<' :: name ++ ['>'])).foldlM Reading.step
      ⟨before, outer, .between⟩ =
      some ⟨[], (some (String.ofList name), before) :: outer, .between⟩ := by
    refine (foldlM_enclosed hclosing [] ((none, before) :: outer)).trans ?_
    rw [Reading.close, Reading.nameGroup]
    exact if_pos hname
  rw [List.foldlM_append, hbegin]
  refine (h.foldlM_endGroup _).trans ?_
  rw [Reading.endGroup, List.reverse_reverse]
  rfl

/-! ### Expressions that match alike -/

theorem ways_seq_congr {e e' f f' : Regex} (he : e.ways = e'.ways) (hf : f.ways = f'.ways) :
    (seq e f).ways = (seq e' f').ways := by
  funext t
  rw [ways, ways, he, hf]

theorem ways_seq_empty (e : Regex) : (seq e empty).ways = e.ways := by
  funext t
  simp [ways, Way.plain]

theorem ways_empty_seq (e : Regex) : (seq empty e).ways = e.ways := by
  funext t
  simp [ways, Way.plain]

theorem ways_seq_assoc (e f g : Regex) : (seq (seq e f) g).ways = (seq e (seq f g)).ways := by
  funext t
  simp [ways, List.flatMap_assoc, List.map_flatMap, List.flatMap_map, List.drop_drop,
    Nat.add_assoc, Function.comp_def]

theorem ways_seqAll_append (first later : List Regex) :
    (seqAll (first ++ later)).ways = (seq (seqAll first) (seqAll later)).ways := by
  induction first with
  | nil => exact (ways_empty_seq _).symm
  | cons item first ih =>
    calc (seqAll (item :: (first ++ later))).ways
        = (seq item (seq (seqAll first) (seqAll later))).ways := ways_seq_congr rfl ih
      _ = (seq (seqAll (item :: first)) (seqAll later)).ways := (ways_seq_assoc _ _ _).symm

/-- A text matches where its characters match one behind the other. -/
theorem ways_seqAll_chars (chars t : List Char) :
    (seqAll (chars.map fun c => .text (String.singleton c))).ways t =
      if chars.isPrefixOf t then [.plain chars.length] else [] := by
  induction chars generalizing t with
  | nil => rfl
  | cons c chars ih =>
    rw [List.map_cons, seqAll, List.foldr_cons, ways, ways, String.toList_singleton]
    cases t with
    | nil => rfl
    | cons d t =>
      rw [List.isPrefixOf_cons_cons, List.isPrefixOf_cons_cons]
      by_cases hc : c = d
      · have hrest := ih t
        rw [seqAll] at hrest
        by_cases hprefix : chars.isPrefixOf t <;>
          simp [hc, Way.plain, hrest, hprefix, Nat.add_comm 1]
      · simp [hc]

/-! ### Expressions that are read back -/

/-- An expression in the written form of which one reads items that match in the same ways. -/
def ReadsBack (e : Regex) : Prop :=
  ∃ items, Reads e.written.toList items ∧ (seqAll items).ways = e.ways

namespace ReadsBack

theorem of_reads {e item : Regex} (h : Reads e.written.toList [item]) (hways : item.ways = e.ways) :
    ReadsBack e :=
  ⟨[item], h, (ways_seq_empty item).trans hways⟩

theorem empty : ReadsBack .empty :=
  ⟨[], .nil, rfl⟩

theorem text (word : String) : ReadsBack (.text word) := by
  refine ⟨word.toList.map fun c => .text (String.singleton c), ?_, ?_⟩
  · rw [written, toList_escapeExpression]
    exact reads_escapeChars word.toList
  · funext t
    exact ways_seqAll_chars word.toList t

theorem seq {e f : Regex} (he : ReadsBack e) (hf : ReadsBack f) : ReadsBack (.seq e f) := by
  obtain ⟨first, hfirst, hways⟩ := he
  obtain ⟨later, hlater, hways'⟩ := hf
  refine ⟨first ++ later, ?_, (ways_seqAll_append first later).trans (ways_seq_congr hways hways')⟩
  rw [written, String.toList_append]
  exact hfirst.append hlater

theorem optional_one (c : CharClass) : ReadsBack (.optional (.one c)) := by
  refine of_reads ?_ rfl
  rw [written, String.toList_append]
  exact (reads_written c).optional rfl

theorem optional_group {e : Regex} (h : ReadsBack e) : ReadsBack (.optional (.group e)) := by
  obtain ⟨items, hreads, hways⟩ := h
  have hitem : Reads (Regex.optional (.group e)).written.toList
      [.optional (.group (seqAll items))] := by
    simp only [written, String.toList_append]
    exact hreads.group.optional rfl
  apply of_reads hitem
  funext t
  simp only [ways, hways]

theorem named {e : Regex} {name : String} (h : ReadsBack e)
    (hname : isGroupName name.toList = true) : ReadsBack (.named name e) := by
  obtain ⟨items, hreads, hways⟩ := h
  have hitem : Reads (Regex.named name e).written.toList [.named name (seqAll items)] := by
    have hnamed := hreads.named hname
    rw [String.ofList_toList] at hnamed
    simpa [written, String.toList_append] using hnamed
  apply of_reads hitem
  funext t
  simp only [ways, hways]

end ReadsBack

/-- An expression that is read back is read by itself. -/
theorem ReadsBack.exists_read {e : Regex} (h : ReadsBack e) :
    ∃ f, read e.written = some f ∧ f.ways = e.ways := by
  obtain ⟨items, hreads, hways⟩ := h
  refine ⟨seqAll items, ?_, hways⟩
  rw [read, hreads, List.append_nil]
  exact congrArg (fun inner => some (seqAll inner)) items.reverse_reverse

/-- A point is a literal only behind a backslash. -/
example : (read "1\\.tif").isSome = true ∧ read "1.tif" = none :=
  ⟨rfl, rfl⟩

end Regex

/-! ### The expression of a pattern -/

theorem Width.readsBack_regex (c : CharClass) (w : Width) : (w.regex c).ReadsBack := by
  refine .of_reads ?_ rfl
  rw [w.written_regex]
  exact Regex.reads_classPrimitive c w

theorem FieldKind.readsBack_regex (kind : FieldKind) : kind.regex.ReadsBack := by
  cases kind with
  | digit w => exact w.readsBack_regex .digits
  | integer w => exact w.readsBack_regex .digits
  | character w => exact w.readsBack_regex .letters
  | float =>
    have hwhole : (Regex.seq (.many .digits) (.one .point)).ReadsBack :=
      .seq (Width.readsBack_regex .digits .unbounded) (.of_reads (Regex.reads_written .point) rfl)
    exact .seq (.optional_one .signs)
      (.seq (.optional_group hwhole) (.of_reads (Regex.reads_many1 .digits) rfl))

theorem isGroupName_groupName (index : Nat) :
    Regex.isGroupName (groupName index).toList = true := by
  have hdigits : ∀ x ∈ Text.digits index, x.isAlphanum = true := fun x hx => by
    rw [Char.isAlphanum, Text.isDigit_of_mem_digits hx, Bool.or_true]
  simpa [groupName, Regex.isGroupName, Text.digits] using hdigits

namespace Pattern

theorem readsBack_regexFrom (index : Nat) (tokens : List Token) :
    (regexFrom index tokens).ReadsBack := by
  induction tokens generalizing index with
  | nil => exact .empty
  | cons token tokens ih =>
    cases token with
    | literal word => exact .seq (.text word) (ih index)
    | field f =>
      exact .seq (.named f.kind.readsBack_regex (isGroupName_groupName index)) (ih (index + 1))

/-- The expression of a pattern is read back from how it is written. -/
theorem readsBack_regex (p : Pattern) : p.regex.ReadsBack :=
  readsBack_regexFrom 0 p.tokens

/-- The expression that a reader finds in the expression of a pattern matches in the same ways as
the one that the search goes by. -/
theorem exists_read_expression (p : Pattern) :
    ∃ e, Regex.read p.expression = some e ∧ e.ways = p.regex.ways := by
  rw [← p.written_regex]
  exact p.readsBack_regex.exists_read

/-- A pattern finds in a name what a search for its expression finds, and a reader of the written
expression finds one that matches in the same ways. There is no match exactly if the name has no
decomposition, and otherwise the match is the decomposition that is no worse than any other: it
begins first and, among those, has the lexicographically greatest lengths. -/
theorem find_preferred_decomposition (p : Pattern) (filename : String) :
    p.regex.written = p.expression ∧
    (∃ e, Regex.read p.expression = some e ∧ e.ways = p.regex.ways) ∧
    p.find? filename = p.readOff filename ∧
    (p.find filename = .error (.noMatch p.render filename) ↔
      ∀ m, ¬ p.Decomposes filename m) ∧
    (∀ m, p.find filename = .ok m ↔
      p.Decomposes filename m ∧ ∀ other, p.Decomposes filename other → m.NoWorseThan other) ∧
    (p.isMatch filename = true ↔ ∃ m, p.Decomposes filename m) ∧
    p.captures filename = (p.find filename).map Match.values := by
  refine ⟨p.written_regex, p.exists_read_expression, p.find?_eq_readOff filename, ?_, ?_, ?_, rfl⟩
  · rw [find_eq_error_iff, find?_eq_none_iff]
    exact and_iff_left rfl
  · intro m
    rw [find_eq_ok_iff, find?_eq_some_iff]
  · rw [isMatch_iff]
    constructor
    · rintro ⟨m, hm⟩
      exact ⟨m, Decomposes.of_find? (find_eq_ok_iff.mp hm)⟩
    · rintro ⟨m, hm⟩
      obtain ⟨best, hbest, -⟩ := hm.exists_find?
      exact ⟨best, find_eq_ok_iff.mpr hbest⟩

end Pattern

end PatternRename
