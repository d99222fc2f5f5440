import PatternRename.Failure
import PatternRename.Pattern.Basic

/-!
# Matching file names

A token matches a stretch of a name. A match of a pattern takes one stretch after the other, as
far left in the name as it can begin; where a field could take stretches of several lengths, the
first field takes the longest one with which the rest still matches, then the second, and so on.

## Main definitions

- `Token.lengths` — the lengths of the stretches that a token could take, the longest first
- `Pattern.matchAt` — the lengths that the tokens take at the start of a text
- `Pattern.matchTable` — the same for every place of a text at once
- `Pattern.find?` — the match of a pattern in a name
- `Pattern.find`, `Pattern.captures` — the match and its values, for a name that must fit
-/

namespace PatternRename

/-- The numbers from `high` down to `low`. -/
def countdown (high low : Nat) : List Nat :=
  (List.range' low (high + 1 - low)).reverse

/-- How many characters at the start of a text are of a class. -/
def runLength (charClass : Char → Bool) (text : List Char) : Nat :=
  (text.takeWhile charClass).length

def Width.lengths (run : Nat) : Width → List Nat
  | .fixed n => if n ≤ run then [n] else []
  | .unbounded => countdown run 0

def signLength : List Char → Nat
  | '+' :: _ => 1
  | '-' :: _ => 1
  | _ => 0

/-- The lengths of the decimal numbers at the start of a text. A number with a fraction is longer
than one without. -/
def numberLengths (text : List Char) : List Nat :=
  let sign := signLength text
  let whole := runLength Char.isDigit (text.drop sign)
  let fractions :=
    match text.drop (sign + whole) with
    | '.' :: rest =>
      countdown (sign + whole + 1 + runLength Char.isDigit rest) (sign + whole + 2)
    | _ => []
  fractions ++ countdown (sign + whole) (sign + 1)

/-- The lengths of the values of a kind at the start of a text, the longest first. -/
def FieldKind.lengths (kind : FieldKind) (text : List Char) : List Nat :=
  match kind with
  | .digit w => w.lengths (runLength Char.isDigit text)
  | .integer w => w.lengths (runLength Char.isDigit text)
  | .character w => w.lengths (runLength Char.isAlpha text)
  | .float => numberLengths text

def Token.lengths (token : Token) (text : List Char) : List Nat :=
  match token with
  | .literal word => if word.toList.isPrefixOf text then [word.length] else []
  | .field f => f.kind.lengths text

theorem Token.le_length_of_mem_lengths {token : Token} {text : List Char} {n : Nat}
    (h : n ∈ token.lengths text) : n ≤ text.length := by
  have hrun : ∀ (p : Char → Bool) (l : List Char), runLength p l ≤ l.length := fun p l => by
    simpa [runLength] using (List.takeWhile_prefix p (l := l)).length_le
  have hcount : ∀ high low m : Nat, m ∈ countdown high low → m ≤ high := by
    intro high low m hm
    simp only [countdown, List.mem_reverse, List.mem_range'_1] at hm
    omega
  have hwidth : ∀ (w : Width) (run : Nat), n ∈ w.lengths run → n ≤ run := by
    intro w run hn
    cases w with
    | fixed k =>
      by_cases hk : k ≤ run
      · simp_all [Width.lengths]
      · simp_all [Width.lengths]
    | unbounded => exact hcount _ _ _ hn
  cases token with
  | literal word =>
    simp only [Token.lengths] at h
    split at h
    · rename_i hpre
      have hlen := (List.isPrefixOf_iff_prefix.mp hpre).length_le
      simp only [List.mem_singleton] at h
      rw [h, ← String.length_toList]
      exact hlen
    · simp at h
  | field f =>
    simp only [Token.lengths, FieldKind.lengths] at h
    split at h
    · exact Nat.le_trans (hwidth _ _ h) (hrun _ _)
    · exact Nat.le_trans (hwidth _ _ h) (hrun _ _)
    · exact Nat.le_trans (hwidth _ _ h) (hrun _ _)
    · have hsign : signLength text ≤ text.length := by
        unfold signLength; split <;> simp
      have hwhole := hrun Char.isDigit (text.drop (signLength text))
      rw [List.length_drop] at hwhole
      simp only [numberLengths, List.mem_append] at h
      rcases h with h | h
      · split at h
        · rename_i rest hrest
          have := congrArg List.length hrest
          have hfrac := hrun Char.isDigit rest
          have hle := hcount _ _ _ h
          simp only [List.length_drop, List.length_cons] at this
          omega
        · simp at h
      · have hle := hcount _ _ _ h
        omega

namespace Pattern

/-- The lengths that tokens take at the start of a text: the first token takes the longest stretch
with which the rest still match. -/
def matchAt : List Token → List Char → Option (List Nat)
  | [], _ => some []
  | token :: rest, text =>
    (token.lengths text).findSome? fun n => (matchAt rest (text.drop n)).map (n :: ·)

def suffixes : List Char → List (List Char)
  | [] => [[]]
  | c :: rest => (c :: rest) :: suffixes rest

/-- What some tokens make of every place of a text: the lengths that they take there. -/
abbrev Table := List (Option (List Nat))

def lengthen : List Nat → List Nat
  | [] => []
  | n :: rest => (n + 1) :: rest

/-- What a run of any length makes of every place. A run goes on with the next character if the
later tokens match behind the longer run. -/
def runTable (charClass : Char → Bool) : List Char → Table → Table
  | c :: text, entry :: later =>
    let table := runTable charClass text later
    let longer := if charClass c then table.head?.join.map lengthen else none
    longer.or (entry.map (0 :: ·)) :: table
  | _, later => later.map (·.map (0 :: ·))

def runLengths (charClass : Char → Bool) : List Char → List Nat
  | [] => [0]
  | c :: text =>
    let lengths := runLengths charClass text
    (if charClass c then lengths.headD 0 + 1 else 0) :: lengths

/-- The entries `n` places ahead, and none where the text ends before. -/
def ahead (n : Nat) (table : Table) : Table :=
  table.drop n ++ List.replicate n none

/-- What a stretch of `n` characters makes of every place, where `fits` says at which places it
stands. -/
def stretchTable (n : Nat) (fits : List Bool) (later : Table) : Table :=
  List.zipWith (fun fit entry => if fit then entry.map (n :: ·) else none) fits (ahead n later)

def widthTable (charClass : Char → Bool) (text : List Char) (later : Table) : Width → Table
  | .fixed n => stretchTable n ((runLengths charClass text).map fun run => decide (n ≤ run)) later
  | .unbounded => runTable charClass text later

def numberEntry (later : Array (Option (List Nat))) (i : Nat) (text : List Char) :
    Option (List Nat) :=
  (numberLengths text).findSome? fun n => (later[i + n]?.join).map (n :: ·)

/-- What a token makes of every place, when a table says what the later tokens make of it. -/
def tokenTable (text : List Char) (later : Table) : Token → Table
  | .literal word =>
    stretchTable word.length ((suffixes text).map fun left => word.toList.isPrefixOf left) later
  | .field f =>
    match f.kind with
    | .digit w => widthTable Char.isDigit text later w
    | .integer w => widthTable Char.isDigit text later w
    | .character w => widthTable Char.isAlpha text later w
    | .float =>
      let entries := later.toArray
      (suffixes text).mapIdx fun i left => numberEntry entries i left

/-- What tokens make of every place of a text. The tokens are entered from the last to the first,
so that each place is looked at once for each token. -/
def matchTable (text : List Char) : List Token → Table
  | [] => (suffixes text).map fun _ => some []
  | token :: rest => tokenTable text (matchTable text rest) token

/-! ### The table agrees with the matches -/

/-- What a token makes of a text, when `later` says what the later tokens make of what is left. -/
def entryOf (token : Token) (later : List Char → Option (List Nat)) (text : List Char) :
    Option (List Nat) :=
  (token.lengths text).findSome? fun n => (later (text.drop n)).map (n :: ·)

theorem length_suffixes (text : List Char) : (suffixes text).length = text.length + 1 := by
  induction text with
  | nil => rfl
  | cons c rest ih => simp [suffixes, ih]

theorem getElem?_suffixes (text : List Char) (i : Nat) :
    (suffixes text)[i]? = if i ≤ text.length then some (text.drop i) else none := by
  induction text generalizing i with
  | nil => cases i <;> simp [suffixes]
  | cons c rest ih =>
    cases i with
    | zero => simp [suffixes]
    | succ i => simp [suffixes, ih]

theorem head?_suffixes (text : List Char) : (suffixes text).head? = some text := by
  cases text <;> rfl

theorem findSome?_congr_of_mem {candidates : List Nat} {f g : Nat → Option (List Nat)}
    (h : ∀ n ∈ candidates, f n = g n) : candidates.findSome? f = candidates.findSome? g := by
  induction candidates with
  | nil => rfl
  | cons n rest ih =>
    simp only [List.findSome?_cons, h n (by simp)]
    rw [ih fun m hm => h m (by simp [hm])]

theorem runLength_cons (charClass : Char → Bool) (c : Char) (text : List Char) :
    runLength charClass (c :: text) = if charClass c then runLength charClass text + 1 else 0 := by
  by_cases h : charClass c <;> simp [runLength, h]

theorem countdown_succ_zero (n : Nat) :
    countdown (n + 1) 0 = (countdown n 0).map (· + 1) ++ [0] := by
  have h : List.range' 0 (n + 2) = 0 :: (List.range' 0 (n + 1)).map (· + 1) := by
    simp only [Nat.add_comm _ 1, List.map_add_range']
    rw [Nat.add_comm 1 (1 + n), List.range'_succ]
  simp [countdown, h, ← List.map_reverse]

theorem map_lengthen_findSome? (candidates : List Nat) (later : Nat → Option (List Nat)) :
    (candidates.findSome? fun n => (later n).map (n :: ·)).map lengthen =
      candidates.findSome? fun n => (later n).map ((n + 1) :: ·) := by
  induction candidates with
  | nil => rfl
  | cons n rest ih =>
    cases h : later n with
    | none => simpa [List.findSome?_cons, h] using ih
    | some lengths => simp [h, lengthen]

theorem runTable_map_suffixes (charClass : Char → Bool) (text : List Char)
    (later : List Char → Option (List Nat)) :
    runTable charClass text ((suffixes text).map later) =
      (suffixes text).map fun left =>
        (countdown (runLength charClass left) 0).findSome? fun n =>
          (later (left.drop n)).map (n :: ·) := by
  induction text with
  | nil => cases h : later [] <;> simp [suffixes, runTable, runLength, countdown, h]
  | cons c rest ih =>
    simp only [suffixes, List.map_cons, runTable, ih, runLength_cons]
    congr 1
    by_cases hc : charClass c
    · simp only [hc, if_true, List.head?_map, head?_suffixes, Option.map_some, Option.join_some,
        map_lengthen_findSome?, countdown_succ_zero, List.findSome?_append, List.findSome?_map,
        Function.comp_def, List.drop_succ_cons]
      cases h : later (c :: rest) <;> simp [h]
    · cases h : later (c :: rest) <;> simp [hc, countdown, h]

theorem runLengths_eq (charClass : Char → Bool) (text : List Char) :
    runLengths charClass text = (suffixes text).map (runLength charClass) := by
  induction text with
  | nil => simp [runLengths, suffixes, runLength]
  | cons c rest ih =>
    simp only [runLengths, suffixes, List.map_cons, ih, runLength_cons]
    simp [List.headD_eq_head?_getD, head?_suffixes]

theorem getElem?_ahead (n i : Nat) (text : List Char) (later : List Char → Option (List Nat))
    (h : i ≤ text.length) :
    (ahead n ((suffixes text).map later))[i]? =
      some (if i + n ≤ text.length then later (text.drop (i + n)) else none) := by
  by_cases hn : i + n ≤ text.length
  · rw [ahead, List.getElem?_append_left
      (by simp only [List.length_drop, List.length_map, length_suffixes]; omega)]
    simp [List.getElem?_map, getElem?_suffixes, Nat.add_comm n i, hn]
  · rw [ahead, List.getElem?_append_right
      (by simp only [List.length_drop, List.length_map, length_suffixes]; omega)]
    simp only [List.length_drop, List.length_map, length_suffixes, List.getElem?_replicate, hn,
      if_false]
    rw [if_pos (by omega)]

theorem stretchTable_map_suffixes (n : Nat) (fits : List Char → Bool) (text : List Char)
    (later : List Char → Option (List Nat)) (hfits : ∀ left, fits left = true → n ≤ left.length) :
    stretchTable n ((suffixes text).map fits) ((suffixes text).map later) =
      (suffixes text).map fun left =>
        if fits left then (later (left.drop n)).map (n :: ·) else none := by
  refine List.ext_getElem? fun i => ?_
  simp only [stretchTable, List.getElem?_zipWith, List.getElem?_map, getElem?_suffixes]
  by_cases hi : i ≤ text.length
  · simp only [hi, if_true, Option.map_some, getElem?_ahead n i text later hi, List.drop_drop]
    by_cases hfit : fits (text.drop i) = true
    · have hlen := hfits _ hfit
      rw [List.length_drop] at hlen
      simp [hfit, show i + n ≤ text.length by omega]
    · simp [hfit]
  · simp [hi]

theorem widthTable_map_suffixes (charClass : Char → Bool) (text : List Char)
    (later : List Char → Option (List Nat)) (w : Width) :
    widthTable charClass text ((suffixes text).map later) w =
      (suffixes text).map fun left =>
        (w.lengths (runLength charClass left)).findSome? fun n =>
          (later (left.drop n)).map (n :: ·) := by
  cases w with
  | fixed n =>
    have hrun : ∀ left : List Char, runLength charClass left ≤ left.length := fun left => by
      simpa [runLength] using (List.takeWhile_prefix charClass (l := left)).length_le
    rw [widthTable, runLengths_eq, List.map_map]
    refine (stretchTable_map_suffixes n _ text later fun left h => ?_).trans ?_
    · exact Nat.le_trans (by simpa using h) (hrun left)
    · refine List.map_congr_left fun left _ => ?_
      by_cases h : n ≤ runLength charClass left
      · cases hlater : later (left.drop n) <;> simp [Width.lengths, h, hlater]
      · simp [Width.lengths, h]
  | unbounded => exact runTable_map_suffixes charClass text later

/-- The table of a token has for every place what the token makes of the text from there on. -/
theorem tokenTable_map_suffixes (token : Token) (text : List Char)
    (later : List Char → Option (List Nat)) :
    tokenTable text ((suffixes text).map later) token =
      (suffixes text).map (entryOf token later) := by
  cases token with
  | literal word =>
    refine (stretchTable_map_suffixes word.length _ text later fun left h => ?_).trans ?_
    · have hlen := (List.isPrefixOf_iff_prefix.mp h).length_le
      rwa [String.length_toList] at hlen
    · refine List.map_congr_left fun left _ => ?_
      by_cases h : word.toList.isPrefixOf left
      · cases hlater : later (left.drop word.length) <;>
          simp [entryOf, Token.lengths, h, hlater]
      · simp [entryOf, Token.lengths, h]
  | field f =>
    obtain ⟨name, kind⟩ := f
    cases kind with
    | digit w => exact widthTable_map_suffixes Char.isDigit text later w
    | integer w => exact widthTable_map_suffixes Char.isDigit text later w
    | character w => exact widthTable_map_suffixes Char.isAlpha text later w
    | float =>
      refine List.ext_getElem? fun i => ?_
      simp only [tokenTable, List.getElem?_mapIdx, List.getElem?_map, getElem?_suffixes]
      by_cases hi : i ≤ text.length
      · simp only [hi, if_true, Option.map_some, Option.some.injEq, numberEntry]
        refine findSome?_congr_of_mem fun n hn => ?_
        have hlen := @Token.le_length_of_mem_lengths (.field ⟨name, .float⟩) _ _ hn
        rw [List.length_drop] at hlen
        simp [getElem?_suffixes, List.drop_drop, show i + n ≤ text.length by omega]
      · simp [hi]

/-- The table has for every place what the tokens make of the text from there on. -/
theorem matchTable_eq (text : List Char) (tokens : List Token) :
    matchTable text tokens = (suffixes text).map (matchAt tokens) := by
  induction tokens with
  | nil => rfl
  | cons token rest ih =>
    rw [matchTable, ih, tokenTable_map_suffixes]
    rfl

def firstEntry (place : Nat) : List (Option (List Nat)) → Option (Nat × List Nat)
  | [] => none
  | some lengths :: _ => some (place, lengths)
  | none :: rest => firstEntry (place + 1) rest

/-- Where tokens match in a text, and the lengths that they take. -/
def locate? (tokens : List Token) (text : List Char) : Option (Nat × List Nat) :=
  firstEntry 0 (matchTable text tokens)

/-- The stretches that the fields among tokens take from a text. -/
def fieldValues : List Token → List Nat → List Char → List String
  | token :: rest, n :: lengths, text =>
    let later := fieldValues rest lengths (text.drop n)
    match token with
    | .literal _ => later
    | .field _ => String.ofList (text.take n) :: later
  | _, _, _ => []

/-- What stretches of some lengths leave of a text. -/
def remainder (lengths : List Nat) (text : List Char) : List Char :=
  lengths.foldl (fun rest n => rest.drop n) text

end Pattern

/-- A match of a pattern in a name. -/
structure Match where
  before : String
  values : List String
  after : String
  deriving DecidableEq, Repr

/-- The match of a pattern in a name. -/
def Pattern.find? (p : Pattern) (filename : String) : Option Match :=
  let text := filename.toList
  match Pattern.locate? p.tokens text with
  | none => none
  | some (start, lengths) =>
    let tail := text.drop start
    some {
      before := String.ofList (text.take start)
      values := Pattern.fieldValues p.tokens lengths tail
      after := String.ofList (Pattern.remainder lengths tail) }

/-- The match of a pattern in a name, which must have one. -/
def Pattern.find (p : Pattern) (filename : String) : Except Failure Match :=
  match p.find? filename with
  | none => .error (.noMatch p.render filename)
  | some found => .ok found

def Pattern.captures (p : Pattern) (filename : String) : Except Failure (List String) :=
  (p.find filename).map Match.values

def Pattern.isMatch (p : Pattern) (filename : String) : Bool :=
  (p.find? filename).isSome

end PatternRename
