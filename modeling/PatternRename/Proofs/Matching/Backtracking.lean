import Mathlib.Algebra.Ring.Nat
import PatternRename.Pattern.Expression
import PatternRename.Proofs.Matching.Decomposition

/-!
# Expressions and backtracking

The expression of a pattern has a meaning of its own: a search for it tries the places of a text
from the left, and at each place the ways to match in the order in which backtracking finds them,
the greedy choice first. The match of a pattern is the one that this search finds for its
expression, with the values read off the named groups.

## Main definitions

- `CharClass`, `Regex`, `Regex.written` — expressions and how they are written
- `Way`, `Regex.ways` — the ways in which an expression matches at the start of a text
- `Regex.search` — the first way at the first place
- `Pattern.regex` — the expression of a pattern
- `Pattern.readOff` — the match that a search for the expression gives

## Main results

- `Pattern.written_regex` — the expression is written as the pattern shows it
- `Pattern.find?_eq_readOff` — the match of a pattern is the one that the search finds
-/

namespace PatternRename

/-! ### Expressions -/

/-- The classes of characters in the expressions of patterns. -/
inductive CharClass where
  | digits
  | letters
  | signs
  | point

namespace CharClass

def has : CharClass → Char → Bool
  | .digits, c => c.isDigit
  | .letters, c => c.isAlpha
  | .signs, c => c == '+' || c == '-'
  | .point, c => c == '.'

def written : CharClass → String
  | .digits => "[0-9]"
  | .letters => "[a-zA-Z]"
  | .signs => "[+-]"
  | .point => "[.]"

end CharClass

/-- The expressions that patterns are made of. -/
inductive Regex where
  | text (word : String)
  | one (c : CharClass)
  /-- So many characters of a class. -/
  | exactly (c : CharClass) (n : Nat)
  | many (c : CharClass)
  | many1 (c : CharClass)
  /-- An expression that may be left out, which is tried last. -/
  | optional (e : Regex)
  | group (e : Regex)
  | named (name : String) (e : Regex)
  | empty
  | seq (e f : Regex)

/-- A way in which an expression matches at the start of a text: how much of the text it takes and
what its named groups take. -/
structure Way where
  length : Nat
  groups : List (String × String)
  deriving DecidableEq, Repr

def Way.plain (n : Nat) : Way := ⟨n, []⟩

namespace Regex

def written : Regex → String
  | .text word => escapeExpression word
  | .one c => c.written
  | .exactly c n => c.written ++ "\x7b" ++ toString n ++ "\x7d"
  | .many c => c.written ++ "*"
  | .many1 c => c.written ++ "+"
  | .optional e => e.written ++ "?"
  | .group e => "(" ++ e.written ++ ")"
  | .named name e => "(?P<" ++ name ++ ">" ++ e.written ++ ")"
  | .empty => ""
  | .seq e f => e.written ++ f.written

/-- The numbers of characters that a greedy loop takes, in the order in which it tries them: it
goes on as long as it can, and gives one character back at a time. -/
def loop (c : CharClass) : List Char → List Nat
  | [] => [0]
  | x :: rest => if c.has x then (loop c rest).map (· + 1) ++ [0] else [0]

/-- Whether a text begins with so many characters of a class. -/
def startsWith (c : CharClass) : Nat → List Char → Bool
  | 0, _ => true
  | _ + 1, [] => false
  | n + 1, x :: rest => c.has x && startsWith c n rest

/-- The ways in which an expression matches at the start of a text, in the order in which
backtracking tries them. -/
def ways : Regex → List Char → List Way
  | .text word, t => if word.toList.isPrefixOf t then [.plain word.toList.length] else []
  | .one c, t => if startsWith c 1 t then [.plain 1] else []
  | .exactly c n, t => if startsWith c n t then [.plain n] else []
  | .many c, t => (loop c t).map .plain
  | .many1 c, t => if startsWith c 1 t then (loop c t.tail).map fun n => .plain (1 + n) else []
  | .optional e, t => e.ways t ++ [.plain 0]
  | .group e, t => e.ways t
  | .named name e, t =>
    (e.ways t).map fun w => ⟨w.length, (name, String.ofList (t.take w.length)) :: w.groups⟩
  | .empty, _ => [.plain 0]
  | .seq e f, t => (e.ways t).flatMap fun w =>
      (f.ways (t.drop w.length)).map fun v => ⟨w.length + v.length, w.groups ++ v.groups⟩

/-- The first way at the first place of a text at which there is one, with this place. -/
def search (e : Regex) : List Char → Option (Nat × Way)
  | [] => (e.ways []).head?.map fun way => (0, way)
  | c :: rest =>
    match (e.ways (c :: rest)).head? with
    | some way => some (0, way)
    | none => (search e rest).map fun (place, way) => (place + 1, way)

end Regex

/-! ### The expression of a pattern -/

def Width.regex (c : CharClass) : Width → Regex
  | .fixed n => .exactly c n
  | .unbounded => .many c

def FieldKind.regex : FieldKind → Regex
  | .digit w => w.regex .digits
  | .integer w => w.regex .digits
  | .character w => w.regex .letters
  | .float => .seq (.optional (.one .signs))
      (.seq (.optional (.group (.seq (.many .digits) (.one .point)))) (.many1 .digits))

def groupName (index : Nat) : String :=
  "field" ++ toString index

namespace Pattern

def regexFrom (index : Nat) : List Token → Regex
  | [] => .empty
  | .literal text :: rest => .seq (.text text) (regexFrom index rest)
  | .field f :: rest =>
    .seq (.named (groupName index) f.kind.regex) (regexFrom (index + 1) rest)

def regex (p : Pattern) : Regex :=
  regexFrom 0 p.tokens

/-- The match that a search for the expression gives: each value is what the group of its field
takes. -/
def readOff (p : Pattern) (filename : String) : Option Match := do
  let (start, way) ← p.regex.search filename.toList
  let values ← (List.range p.fieldCount).mapM fun index => way.groups.lookup (groupName index)
  let tail := filename.toList.drop start
  return ⟨String.ofList (filename.toList.take start), values, String.ofList (tail.drop way.length)⟩

end Pattern

/-! ### How the expression is written -/

theorem Width.written_regex (c : CharClass) (w : Width) :
    (w.regex c).written = classPrimitive c.written w := by
  cases w <;> rfl

theorem FieldKind.written_regex (kind : FieldKind) : kind.regex.written = kind.primitive := by
  cases kind with
  | digit w => exact w.written_regex .digits
  | integer w => exact w.written_regex .digits
  | character w => exact w.written_regex .letters
  | float => decide

theorem Pattern.written_regexFrom (index : Nat) (tokens : List Token) :
    (regexFrom index tokens).written = String.join (expressionFrom index tokens) := by
  induction tokens generalizing index with
  | nil => rw [regexFrom, expressionFrom, String.join_nil]; rfl
  | cons token tokens ih =>
    cases token with
    | literal word => rw [regexFrom, Regex.written, ih, expressionFrom, String.join_cons]; rfl
    | field f =>
      rw [regexFrom, Regex.written, ih, expressionFrom, String.join_cons, Regex.written,
        f.kind.written_regex, groupName, ← String.append_assoc]
      rfl

/-- The expression of a pattern is written as the pattern shows it. -/
theorem Pattern.written_regex (p : Pattern) : p.regex.written = p.expression :=
  written_regexFrom 0 p.tokens

/-! ### The ways of the values of a kind -/

theorem countdown_map_add (k high low : Nat) :
    (countdown high low).map (k + ·) = countdown (k + high) (k + low) := by
  rw [countdown, countdown, List.map_reverse, List.map_add_range']
  congr 2
  omega

/-- From the largest number on, a countdown goes through smaller numbers. -/
theorem exists_countdown_eq_cons (high : Nat) :
    ∃ later, countdown high 0 = high :: later ∧ ∀ n ∈ later, n < high := by
  have hsorted := pairwise_countdown high 0
  obtain ⟨first, later, heq⟩ : ∃ first later, countdown high 0 = first :: later := by
    refine List.exists_cons_of_ne_nil (List.ne_nil_of_mem (a := high) ?_)
    exact mem_countdown.mpr ⟨Nat.zero_le _, le_rfl⟩
  rw [heq] at hsorted
  have hlater := (List.pairwise_cons.mp hsorted).1
  have hhigh : high ∈ first :: later := heq ▸ mem_countdown.mpr ⟨Nat.zero_le _, le_rfl⟩
  have hfirst : first ≤ high := (mem_countdown.mp (heq ▸ List.mem_cons_self)).2
  obtain rfl : first = high := by
    rcases List.mem_cons.mp hhigh with rfl | hmem
    · rfl
    · exact absurd (hlater high hmem) (Nat.not_lt.mpr hfirst)
  exact ⟨later, heq, hlater⟩

namespace Regex

theorem loop_eq_countdown (c : CharClass) (t : List Char) :
    loop c t = countdown (runLength c.has t) 0 := by
  induction t with
  | nil => rfl
  | cons x rest ih =>
    rw [loop, Pattern.runLength_cons]
    split
    · rw [ih, Pattern.countdown_succ_zero]
    · rfl

theorem startsWith_iff (c : CharClass) (n : Nat) (t : List Char) :
    startsWith c n t = true ↔ n ≤ runLength c.has t := by
  induction n generalizing t with
  | zero => simp [startsWith]
  | succ n ih =>
    cases t with
    | nil => simp [startsWith, runLength]
    | cons x rest =>
      rw [startsWith, Pattern.runLength_cons, Bool.and_eq_true, ih]
      by_cases hx : c.has x <;> simp [hx]

theorem ways_seq_plain {e f : Regex} {t : List Char} (ns : List Nat) (ms : Nat → List Nat)
    (he : e.ways t = ns.map .plain) (hf : ∀ n, f.ways (t.drop n) = (ms n).map .plain) :
    (seq e f).ways t = (ns.flatMap fun n => (ms n).map (n + ·)).map .plain := by
  rw [ways, he, List.flatMap_map, List.map_flatMap]
  congr 1
  funext n
  rw [show (Way.plain n).length = n from rfl, hf, List.map_map, List.map_map]
  rfl

theorem ways_many1 (c : CharClass) (t : List Char) :
    (many1 c).ways t = (countdown (runLength c.has t) 1).map .plain := by
  cases t with
  | nil => rfl
  | cons x rest =>
    rw [ways, Pattern.runLength_cons, startsWith, startsWith]
    by_cases hx : c.has x
    · have := countdown_map_add 1 (runLength c.has rest) 0
      rw [Nat.add_comm 1, Nat.add_zero] at this
      rw [if_pos hx, ← this, List.tail_cons, loop_eq_countdown]
      simp [hx]
    · simp [hx, countdown]

theorem ways_width (c : CharClass) (w : Width) (t : List Char) :
    (w.regex c).ways t = (w.lengths (runLength c.has t)).map .plain := by
  cases w with
  | fixed n =>
    rw [Width.regex, ways, Width.lengths]
    by_cases hn : n ≤ runLength c.has t
    · rw [if_pos ((startsWith_iff c n t).mpr hn), if_pos hn]
      rfl
    · rw [if_neg (mt (startsWith_iff c n t).mp hn), if_neg hn]
      rfl
  | unbounded => rw [Width.regex, ways, loop_eq_countdown, Width.lengths]

end Regex

/-- Where the whole part of a number ends, with the point: a digit run gives nothing back, because
the character behind fewer digits is a digit and no point. -/
def pointEnds (t : List Char) : List Nat :=
  match t.drop (runLength Char.isDigit t) with
  | '.' :: _ => [runLength Char.isDigit t + 1]
  | _ => []

def unsignedLengths (t : List Char) : List Nat :=
  (match t.drop (runLength Char.isDigit t) with
    | '.' :: rest => countdown (runLength Char.isDigit t + 1 + runLength Char.isDigit rest)
        (runLength Char.isDigit t + 2)
    | _ => []) ++ countdown (runLength Char.isDigit t) 1

namespace Regex

/-- Only the longest digit run can be followed by a point. -/
theorem startsWith_point_drop {t : List Char} {n : Nat} (h : n < runLength Char.isDigit t) :
    startsWith .point 1 (t.drop n) = false := by
  have hdrop : (t.drop n).head? = t[n]? := List.head?_drop
  cases hrest : t.drop n with
  | nil => rfl
  | cons x rest =>
    rw [hrest, List.head?_cons] at hdrop
    have hmem : x ∈ t.take (runLength Char.isDigit t) := by
      refine List.mem_of_getElem? (i := n) ?_
      rw [List.getElem?_take, if_pos h, ← hdrop]
    have hdigit := of_mem_take_runLength hmem
    have hx : x ≠ '.' := by
      rintro rfl
      exact absurd hdigit (by decide)
    simp [startsWith, CharClass.has, hx]

theorem ways_whole (t : List Char) :
    (seq (many .digits) (one .point)).ways t = (pointEnds t).map .plain := by
  have hseq := ways_seq_plain (e := many .digits) (f := one .point) (t := t)
    (countdown (runLength Char.isDigit t) 0)
    (fun n => if startsWith .point 1 (t.drop n) then [1] else [])
    (by rw [ways, loop_eq_countdown]; rfl)
    (fun n => by rw [ways]; split <;> rfl)
  rw [hseq]
  -- a run that gives digits back is followed by a digit, so only the first number counts
  obtain ⟨later, heq, hlater⟩ := exists_countdown_eq_cons (runLength Char.isDigit t)
  have hnone : (later.flatMap fun n =>
      (if startsWith .point 1 (t.drop n) then [1] else []).map (n + ·)) = [] := by
    rw [List.flatMap_eq_nil_iff]
    intro n hn
    rw [startsWith_point_drop (hlater n hn)]
    rfl
  rw [heq, List.flatMap_cons, hnone, List.append_nil, pointEnds]
  congr 1
  cases t.drop (runLength Char.isDigit t) with
  | nil => rfl
  | cons x rest =>
    by_cases hx : x = '.'
    · rw [hx]
      rfl
    · simp [startsWith, CharClass.has, hx]

theorem ways_unsigned (t : List Char) :
    (seq (optional (group (seq (many .digits) (one .point)))) (many1 .digits)).ways t =
      (unsignedLengths t).map .plain := by
  have hseq := ways_seq_plain (t := t)
    (e := optional (group (seq (many .digits) (one .point)))) (f := many1 .digits)
    (pointEnds t ++ [0]) (fun n => countdown (runLength Char.isDigit (t.drop n)) 1)
    (by rw [ways, ways, ways_whole, List.map_append]; rfl)
    (fun n => ways_many1 .digits (t.drop n))
  rw [hseq, List.flatMap_append, unsignedLengths]
  -- with the whole part first, and then without it
  congr 2
  · rw [pointEnds]
    split
    · rename_i rest hrest
      have hbehind : t.drop (runLength Char.isDigit t + 1) = rest := by
        rw [← List.drop_drop, hrest]
        rfl
      rw [List.flatMap_singleton, hbehind, countdown_map_add]
    · rfl
  · rw [List.flatMap_singleton, List.drop_zero, countdown_map_add, Nat.zero_add, Nat.zero_add]

end Regex

/-- A text that begins with a sign is no number without a sign. -/
theorem unsignedLengths_eq_nil {c : Char} (hdigit : c.isDigit = false) (hpoint : c ≠ '.')
    (rest : List Char) : unsignedLengths (c :: rest) = [] := by
  have hrun : runLength Char.isDigit (c :: rest) = 0 := by
    rw [Pattern.runLength_cons, hdigit]
    rfl
  rw [unsignedLengths, hrun, List.drop_zero]
  split
  · rename_i heq
    exact absurd (List.cons.inj heq).1 hpoint
  · rfl

theorem numberLengths_eq_map_unsignedLengths (t : List Char) :
    numberLengths t = (unsignedLengths (t.drop (signLength t))).map (signLength t + ·) := by
  rw [numberLengths, unsignedLengths, List.map_append, countdown_map_add]
  congr 1
  rw [← List.drop_drop]
  cases (t.drop (signLength t)).drop (runLength Char.isDigit (t.drop (signLength t))) with
  | nil => rfl
  | cons x rest =>
    by_cases hx : x = '.'
    · rw [hx]
      simp only [countdown_map_add]
      congr 1
      omega
    · simp [hx]

namespace Regex

theorem ways_float (t : List Char) :
    FieldKind.float.regex.ways t = (numberLengths t).map .plain := by
  have hseq := fun (ns : List Nat) (h : (optional (one .signs)).ways t = ns.map Way.plain) =>
    ways_seq_plain ns (fun n => unsignedLengths (t.drop n)) h
      (fun n => ways_unsigned (t.drop n))
  rw [FieldKind.regex, numberLengths_eq_map_unsignedLengths]
  -- where there is a sign, nothing matches without it
  unfold signLength
  split
  · rw [hseq [1, 0] rfl, List.flatMap_cons, List.flatMap_singleton, List.drop_zero,
      unsignedLengths_eq_nil (by decide) (by decide), List.map_nil, List.append_nil]
  · rw [hseq [1, 0] rfl, List.flatMap_cons, List.flatMap_singleton, List.drop_zero,
      unsignedLengths_eq_nil (by decide) (by decide), List.map_nil, List.append_nil]
  · rename_i hplus hminus
    rw [hseq [0] ?_, List.flatMap_singleton]
    rw [ways, ways, if_neg]
    · rfl
    · cases t with
      | nil => decide
      | cons c rest =>
        have hp : c ≠ '+' := fun h => hplus rest (by rw [h])
        have hm : c ≠ '-' := fun h => hminus rest (by rw [h])
        simp [startsWith, CharClass.has, hp, hm]

end Regex

/-- The ways of the expression of a kind are the lengths of its values, in the same order. -/
theorem FieldKind.ways_regex (kind : FieldKind) (t : List Char) :
    kind.regex.ways t = (kind.lengths t).map .plain := by
  cases kind with
  | digit w => exact Regex.ways_width .digits w t
  | integer w => exact Regex.ways_width .digits w t
  | character w => exact Regex.ways_width .letters w t
  | float => exact Regex.ways_float t

/-! ### The named groups -/

theorem groupName_injective : Function.Injective groupName := by
  intro i j h
  have hdigits := congrArg String.toList h
  rw [groupName, groupName, String.toList_append, String.toList_append,
    List.append_cancel_left_eq] at hdigits
  have hnumber := congrArg (fun ds => Nat.ofDigitChars 10 ds 0) hdigits
  simpa [Nat.toString_eq_ofList_toDigits] using hnumber

def nameGroups (index : Nat) : List String → List (String × String)
  | [] => []
  | value :: values => (groupName index, value) :: nameGroups (index + 1) values

/-- The group of a field holds its value, and no other group has its name. -/
theorem lookup_nameGroups (index k : Nat) (values : List String) :
    (nameGroups index values).lookup (groupName (index + k)) = values[k]? := by
  induction values generalizing index k with
  | nil => rfl
  | cons value values ih =>
    rw [nameGroups, List.lookup_cons]
    cases k with
    | zero => simp
    | succ k =>
      have hne : (groupName (index + (k + 1)) == groupName index) = false := by
        rw [beq_eq_false_iff_ne]
        intro h
        have := groupName_injective h
        omega
      rw [hne, show index + (k + 1) = index + 1 + k by omega]
      exact ih (index + 1) k

theorem mapM_range'_eq_some {index : Nat} {values : List String} {find : Nat → Option String}
    (h : ∀ k, k < values.length → find (index + k) = values[k]?) :
    (List.range' index values.length).mapM find = some values := by
  induction values generalizing index with
  | nil => rfl
  | cons value values ih =>
    have hfirst : find index = some value := h 0 (Nat.succ_pos _)
    have hrest : (List.range' (index + 1) values.length).mapM find = some values := by
      refine ih fun k hk => ?_
      rw [show index + 1 + k = index + (k + 1) by omega]
      exact h (k + 1) (Nat.succ_lt_succ hk)
    rw [List.length_cons, List.range'_succ, List.mapM_cons, hfirst, hrest]
    rfl

/-! ### The search for the expression of a pattern -/

namespace Pattern

/-- The first way of an expression behind another whose ways are known. -/
theorem head?_ways_seq {e f : Regex} {t : List Char} {ns : List Nat}
    {groups : Nat → List (String × String)} (he : e.ways t = ns.map fun n => ⟨n, groups n⟩) :
    ((Regex.seq e f).ways t).head? = ns.findSome? fun n =>
      (f.ways (t.drop n)).head?.map fun v => ⟨n + v.length, groups n ++ v.groups⟩ := by
  rw [Regex.ways, he, List.head?_flatMap, List.findSome?_map]
  congr 1
  funext n
  exact List.head?_map

/-- The first way of the expression for tokens takes what the tokens take, and its groups hold
the values of the fields. -/
theorem head?_ways_regexFrom (index : Nat) (tokens : List Token) (t : List Char) :
    ((regexFrom index tokens).ways t).head? = (matchAt tokens t).map fun lengths =>
      ⟨lengths.sum, nameGroups index (fieldValues tokens lengths t)⟩ := by
  induction tokens generalizing index t with
  | nil => rfl
  | cons token tokens ih =>
    rw [matchAt, List.map_findSome?]
    cases token with
    | literal word =>
      have hways : (Regex.text word).ways t =
          ((Token.literal word).lengths t).map fun n => ⟨n, []⟩ := by
        rw [Regex.ways, Token.lengths, String.length_toList]
        split <;> rfl
      rw [regexFrom, head?_ways_seq hways]
      congr 1
      funext n
      rw [ih, Function.comp_apply, Option.map_map, Option.map_map]
      rfl
    | field f =>
      have hways : (Regex.named (groupName index) f.kind.regex).ways t =
          (f.kind.lengths t).map fun n =>
            ⟨n, [(groupName index, String.ofList (t.take n))]⟩ := by
        rw [Regex.ways, f.kind.ways_regex, List.map_map]
        rfl
      rw [regexFrom, head?_ways_seq hways]
      congr 1
      funext n
      rw [ih, Function.comp_apply, Option.map_map, Option.map_map]
      rfl

theorem firstEntry_succ (place : Nat) (table : Table) :
    firstEntry (place + 1) table =
      (firstEntry place table).map fun (start, lengths) => (start + 1, lengths) := by
  induction table generalizing place with
  | nil => rfl
  | cons entry table ih =>
    cases entry with
    | some lengths => rfl
    | none => exact ih (place + 1)

/-- A search stops at the first place at which the tokens match. -/
theorem search_regexFrom (tokens : List Token) (t : List Char) :
    (regexFrom 0 tokens).search t = (locate? tokens t).map fun (start, lengths) =>
      (start, ⟨lengths.sum, nameGroups 0 (fieldValues tokens lengths (t.drop start))⟩) := by
  rw [locate?, matchTable_eq]
  induction t with
  | nil =>
    rw [Regex.search, head?_ways_regexFrom, suffixes, List.map_singleton]
    cases matchAt tokens [] <;> rfl
  | cons c rest ih =>
    rw [Regex.search, head?_ways_regexFrom, suffixes, List.map_cons]
    cases matchAt tokens (c :: rest) with
    | some lengths => rfl
    | none =>
      rw [firstEntry, firstEntry_succ, Option.map_none, ih, Option.map_map, Option.map_map]
      rfl

theorem remainder_eq_drop (lengths : List Nat) (t : List Char) :
    remainder lengths t = t.drop lengths.sum := by
  induction lengths generalizing t with
  | nil => rfl
  | cons n lengths ih =>
    rw [List.sum_cons, ← List.drop_drop]
    exact ih (t.drop n)

/-- The match of a pattern is the one that a search for its expression finds. -/
theorem find?_eq_readOff (p : Pattern) (filename : String) :
    p.find? filename = p.readOff filename := by
  rw [readOff, regex, search_regexFrom, find?]
  cases hlocate : locate? p.tokens filename.toList with
  | none => rfl
  | some found =>
    obtain ⟨start, lengths⟩ := found
    obtain ⟨-, hmatch, -⟩ := locate?_eq_some_iff.mp hlocate
    have hcount : p.fieldCount =
        (fieldValues p.tokens lengths (filename.toList.drop start)).length :=
      (Takes.of_matchAt hmatch).fits.length_eq
    have hvalues : (List.range p.fieldCount).mapM (fun index =>
        (nameGroups 0 (fieldValues p.tokens lengths (filename.toList.drop start))).lookup
          (groupName index)) =
        some (fieldValues p.tokens lengths (filename.toList.drop start)) := by
      -- the groups are found by name, whatever groups stand between them
      rw [List.range_eq_range', hcount]
      refine mapM_range'_eq_some ?_
      intro k _
      exact lookup_nameGroups 0 k _
    simp only [Option.map_some, Option.bind_eq_bind, Option.bind_some, hvalues, remainder_eq_drop]
    rfl

end Pattern

end PatternRename
