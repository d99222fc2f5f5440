/-!
# UTF-8

File names and file contents are octets; patterns and messages are characters. This file goes
between the two: the octets of a string, the string of some octets when they have one, the place
where octets stop being UTF-8, and the text shown for octets that are not.

## Main definitions

- `octets` — the UTF-8 octets of a string
- `decode?` — the string that some octets encode
- `Step.next` — the first character of some octets, or the ill-formed run they begin with
- `decodeLossy` — the characters of some octets, each ill-formed run shown as U+FFFD
- `flaw?` — where octets stop being UTF-8
-/

namespace PatternRename.Text.Utf8

def octets (s : String) : List UInt8 :=
  s.toByteArray.data.toList

theorem octets_injective {s t : String} (h : octets s = octets t) : s = t := by
  rw [← String.toByteArray_inj]
  exact ByteArray.ext (Array.toList_inj.mp h)

/-- The string that some octets encode, if they are UTF-8. -/
def decode? (octets : List UInt8) : Option String :=
  String.fromUTF8? ⟨octets.toArray⟩

/-- What some octets begin with. -/
inductive Step where
  | done
  | char (c : Char) (rest : List UInt8)
  /-- A run of `size` octets that begins no character, and the octets after it. The run is
  `truncated` when only the end of the input keeps it from going on. -/
  | illFormed (size : Nat) (truncated : Bool) (rest : List UInt8)

/-- How many octets follow the first octet of a character, the range of the second octet, and the
bits that the first octet gives to the character. -/
def opening (b : UInt8) : Option (Nat × UInt8 × UInt8 × Nat) :=
  if b < 0x80 then some (0, 0x80, 0xBF, b.toNat)
  else if b < 0xC2 then none
  else if b < 0xE0 then some (1, 0x80, 0xBF, b.toNat - 0xC0)
  else if b = 0xE0 then some (2, 0xA0, 0xBF, 0)
  else if b = 0xED then some (2, 0x80, 0x9F, 0xD)
  else if b < 0xF0 then some (2, 0x80, 0xBF, b.toNat - 0xE0)
  else if b = 0xF0 then some (3, 0x90, 0xBF, 0)
  else if b < 0xF4 then some (3, 0x80, 0xBF, b.toNat - 0xF0)
  else if b = 0xF4 then some (3, 0x80, 0x8F, 4)
  else none

/-- Reads the octets owed by a character of which `size` octets and the leading bits `code` are
known. The next octet lies between `low` and `high`, later ones between `0x80` and `0xBF`. -/
def continuation : (owed size code : Nat) → (low high : UInt8) → List UInt8 → Step
  | 0, _, code, _, _, rest => .char (Char.ofNat code) rest
  | _ + 1, size, _, _, _, [] => .illFormed size true []
  | owed + 1, size, code, low, high, b :: rest =>
    if low ≤ b && b ≤ high then
      continuation owed (size + 1) (code * 64 + (b.toNat - 0x80)) 0x80 0xBF rest
    else
      .illFormed size false (b :: rest)

/-- The first character of some octets, or the longest run that begins no character. -/
def Step.next : List UInt8 → Step
  | [] => .done
  | b :: rest =>
    match opening b with
    | some (owed, low, high, code) => continuation owed 1 code low high rest
    | none => .illFormed 1 false rest

def Step.rest : Step → List UInt8
  | .done => []
  | .char _ rest => rest
  | .illFormed _ _ rest => rest

theorem length_rest_continuation_le (owed size code : Nat) (low high : UInt8) (bs : List UInt8) :
    (continuation owed size code low high bs).rest.length ≤ bs.length := by
  induction owed generalizing size code low high bs with
  | zero => simp [continuation, Step.rest]
  | succ owed ih =>
    cases bs with
    | nil => simp [continuation, Step.rest]
    | cons b rest =>
      rw [continuation]
      split
      · exact Nat.le_trans (ih ..) (by simp)
      · simp [Step.rest]

/-- A step from a nonempty input consumes an octet. -/
theorem Step.length_rest_next_lt (b : UInt8) (bs : List UInt8) :
    (Step.next (b :: bs)).rest.length < (b :: bs).length := by
  simp only [Step.next]
  split
  · exact Nat.lt_succ_of_le (length_rest_continuation_le ..)
  · simp [Step.rest]

/-- The characters of some octets, with U+FFFD in the place of each ill-formed run. `acc` holds
the characters found so far, the last one first. -/
def lossyChars (acc : List Char) (bs : List UInt8) : List Char :=
  match bs with
  | [] => acc.reverse
  | b :: rest =>
    match _h : Step.next (b :: rest) with
    | .done => acc.reverse
    | .char c left => lossyChars (c :: acc) left
    | .illFormed _ _ left => lossyChars ('\uFFFD' :: acc) left
termination_by bs.length
decreasing_by
  all_goals
    have := Step.length_rest_next_lt b rest
    simp only [_h, Step.rest] at this
    exact this

def decodeLossy (octets : List UInt8) : String :=
  String.ofList (lossyChars [] octets)

/-- Where octets stop being UTF-8. -/
structure Flaw where
  validUpTo : Nat
  /-- The length of the ill-formed run, or `none` if the input ends inside a character. -/
  size : Option Nat
  deriving DecidableEq, Repr

/-- The first flaw of some octets, of which `before` octets have been read. -/
def flawFrom (before : Nat) (bs : List UInt8) : Option Flaw :=
  match bs with
  | [] => none
  | b :: rest =>
    match h : Step.next (b :: rest) with
    | .done => none
    | .char _ left => flawFrom (before + (rest.length + 1 - left.length)) left
    | .illFormed size truncated _ => some ⟨before, if truncated then none else some size⟩
termination_by bs.length
decreasing_by
  have := Step.length_rest_next_lt b rest
  simp only [h, Step.rest] at this
  exact this

def flaw? (octets : List UInt8) : Option Flaw :=
  flawFrom 0 octets

def Flaw.message (flaw : Flaw) : String :=
  match flaw.size with
  | some size => s!"invalid utf-8 sequence of {size} bytes from index {flaw.validUpTo}"
  | none => s!"incomplete utf-8 byte sequence from index {flaw.validUpTo}"

end PatternRename.Text.Utf8
