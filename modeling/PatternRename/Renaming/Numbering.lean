import PatternRename.Failure
import PatternRename.Renaming.PendingName
import PatternRename.Text.Decimal

/-!
# Numbering the values of a collection

All values that wait for a number share one numbering: the different values in the order of their
octets, counted from one. The numbering does not depend on the order in which values come.

## Main definitions

- `octetsLt` — the order of values
- `Numbering`, `Numbering.ofValues` — the values of a collection in order
- `Numbering.number?` — the number of a value
- `Numbering.check`, `Numbering.finish` — whether all numbers fit, and a name with its numbers
-/

namespace PatternRename

/-- Whether the octets of one text come before those of another. -/
def octetsLt (a b : String) : Prop :=
  Text.Utf8.octets a < Text.Utf8.octets b

instance (a b : String) : Decidable (octetsLt a b) :=
  inferInstanceAs (Decidable (Text.Utf8.octets a < Text.Utf8.octets b))

theorem octetsLt_trans {a b c : String} (hab : octetsLt a b) (hbc : octetsLt b c) :
    octetsLt a c :=
  List.lt_trans hab hbc

theorem octetsLt_of_not_lt_of_ne {a b : String} (h : ¬ octetsLt a b) (hne : a ≠ b) :
    octetsLt b a := by
  rcases Classical.em (octetsLt b a) with hba | hba
  · exact hba
  · exact absurd (Text.Utf8.octets_injective (List.le_antisymm hba h)) hne

/-- A sorted list of values with one more value in its place, unless it is there already. -/
def insertValue (value : String) : List String → List String
  | [] => [value]
  | first :: rest =>
    if octetsLt value first then value :: first :: rest
    else if value = first then first :: rest
    else first :: insertValue value rest

theorem mem_insertValue {value other : String} {values : List String} :
    other ∈ insertValue value values ↔ other = value ∨ other ∈ values := by
  induction values with
  | nil => simp [insertValue]
  | cons first rest ih =>
    unfold insertValue
    split
    · simp
    · split
      · rename_i h; subst h; simp
      · simp only [List.mem_cons, ih]
        constructor
        · rintro (h | h | h) <;> simp [h]
        · rintro (h | h | h) <;> simp [h]

theorem pairwise_insertValue (value : String) {values : List String}
    (h : values.Pairwise octetsLt) : (insertValue value values).Pairwise octetsLt := by
  induction values with
  | nil => simp [insertValue]
  | cons first rest ih =>
    obtain ⟨hfirst, hrest⟩ := List.pairwise_cons.mp h
    unfold insertValue
    split
    · rename_i hlt
      refine List.pairwise_cons.mpr ⟨fun other hother => ?_, h⟩
      rcases List.mem_cons.mp hother with rfl | hmem
      · exact hlt
      · exact octetsLt_trans hlt (hfirst _ hmem)
    · split
      · exact h
      · rename_i hlt hne
        refine List.pairwise_cons.mpr ⟨fun other hother => ?_, ih hrest⟩
        rcases mem_insertValue.mp hother with rfl | hmem
        · exact octetsLt_of_not_lt_of_ne hlt hne
        · exact hfirst _ hmem

/-- The different values of a collection. The number of a value is its position, counted from
one. -/
structure Numbering where
  values : List String
  sorted : values.Pairwise octetsLt := by simp

namespace Numbering

instance : DecidableEq Numbering := fun a b =>
  decidable_of_iff (a.values = b.values) ⟨fun h => by cases a; cases b; simp_all, fun h => h ▸ rfl⟩

def empty : Numbering := ⟨[], List.Pairwise.nil⟩

def insert (numbering : Numbering) (value : String) : Numbering :=
  ⟨insertValue value numbering.values, pairwise_insertValue value numbering.sorted⟩

/-- The numbering of values that come in any order and any number of times. -/
def ofValues (values : List String) : Numbering :=
  values.foldl insert empty

def ofNames (names : List PendingName) : Numbering :=
  ofValues ((PendingName.allDeferred names).map Deferred.raw)

def size (numbering : Numbering) : Nat :=
  numbering.values.length

def number? (numbering : Numbering) (value : String) : Option Nat :=
  (numbering.values.idxOf? value).map (· + 1)

def entries (numbering : Numbering) : List (String × Nat) :=
  numbering.values.zipIdx 1

/-- The number of a value, which must have one. -/
def number (numbering : Numbering) (value : String) : Except Failure Nat :=
  match numbering.number? value with
  | some n => .ok n
  | none => .error (.unnumberedValue value)

/-- A number that has more digits than its field. -/
structure Overflow where
  number : Nat
  value : String
  width : Nat
  deriving DecidableEq, Repr

/-- Looks for the lowest number with more digits than its field. `lowest` is the lowest one so
far; of equal numbers the first one stays. -/
def lowestOverflow (numbering : Numbering) (lowest : Option Overflow) :
    List Deferred → Except Failure (Option Overflow)
  | [] => .ok lowest
  | value :: rest =>
    match value.width with
    | .unbounded => lowestOverflow numbering lowest rest
    | .fixed width =>
      match numbering.number value.raw with
      | .error failure => .error failure
      | .ok n =>
        let isLower := match lowest with
          | none => true
          | some overflow => n < overflow.number
        if width < Text.digitCount n && isLower then
          lowestOverflow numbering (some ⟨n, value.raw, width⟩) rest
        else lowestOverflow numbering lowest rest

/-- Checks that the numbers of all waiting values fit into their fields. The lowest number that
does not is named. -/
def check (numbering : Numbering) (names : List PendingName) : Except Failure Unit :=
  match numbering.lowestOverflow none (PendingName.allDeferred names) with
  | .error failure => .error failure
  | .ok none => .ok ()
  | .ok (some overflow) => .error (.widthOverflow overflow.value overflow.number overflow.width)

/-- A number in a width: zeros in front up to a fixed width, which it may not exceed. -/
def writeNumber (value : String) (n : Nat) : Width → Except Failure String
  | .unbounded => .ok (String.ofList (Text.digits n))
  | .fixed width =>
    if width < Text.digitCount n then .error (.widthOverflow value n width)
    else if Text.maxPadding < width then .error .paddingTooWide
    else .ok (String.ofList (Text.zeroPad width (Text.digits n)))

def segmentText (numbering : Numbering) : Segment → Except Failure String
  | .text text => .ok text
  | .deferred value =>
    match numbering.number value.raw with
    | .error failure => .error failure
    | .ok n => writeNumber value.raw n value.width

def segmentTexts (numbering : Numbering) : List Segment → Except Failure (List String)
  | [] => .ok []
  | segment :: rest =>
    match numbering.segmentText segment with
    | .error failure => .error failure
    | .ok text => (segmentTexts numbering rest).map (text :: ·)

/-- A name with its numbers in place. -/
def finish (numbering : Numbering) (name : PendingName) : Except Failure String :=
  (numbering.segmentTexts name.segments).map String.join

end Numbering

end PatternRename
