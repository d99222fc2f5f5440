import PatternRename.Pattern.Flaw

/-!
# Fragments of a pattern

Braces cut a pattern into literal text and placeholders. Blanks around a fragment do not count,
and a blank fragment is left out.

## Main definitions

- `Text.isBlank` — the characters with the Unicode property `White_Space`
- `Text.trim` — a text without the blanks at its ends
- `Fragment` — literal text or the inside of a placeholder
- `Fragment.ofText` — the fragments of a text, or the first brace that is out of place
-/

namespace PatternRename

namespace Text

/-- The characters with the Unicode property `White_Space`. -/
def isBlank (c : Char) : Bool :=
  let n := c.toNat
  (9 ≤ n && n ≤ 13) || n == 0x20 || n == 0x85 || n == 0xA0 || n == 0x1680 ||
    (0x2000 ≤ n && n ≤ 0x200A) || n == 0x2028 || n == 0x2029 || n == 0x202F ||
    n == 0x205F || n == 0x3000

def trimEnd (cs : List Char) : List Char :=
  (cs.reverse.dropWhile isBlank).reverse

def trim (cs : List Char) : List Char :=
  trimEnd (cs.dropWhile isBlank)

@[simp]
theorem trim_nil : trim [] = [] := rfl

end Text

/-- A piece of a pattern before its placeholders are read. -/
inductive Fragment where
  | literal (text : String)
  | placeholder (text : String)
  deriving DecidableEq, Repr

namespace Fragment

/-- The fragment that a piece of text gives, unless the piece is blank. The piece comes with its
last character first. -/
def ofPiece? (insideBraces : Bool) (piece : List Char) : Option Fragment :=
  match Text.trim piece.reverse with
  | [] => none
  | c :: rest =>
    let text := String.ofList (c :: rest)
    some (if insideBraces then .placeholder text else .literal text)

/-- Reads fragments from the characters at an octet offset. `opened` is the offset of the brace
that is open, `piece` the characters since the last brace and `found` the fragments so far, each
with the last one first. -/
def scan (offset : Nat) (opened : Option Nat) (piece : List Char) (found : List Fragment) :
    List Char → Except PatternFlaw (List Fragment)
  | [] =>
    match opened with
    | some start => .error (.unclosedBrace start)
    | none => .ok ((ofPiece? false piece).toList ++ found).reverse
  | c :: rest =>
    if c = '{' then
      match opened with
      | some start => .error (.nestedBrace offset start)
      | none =>
        scan (offset + c.utf8Size) (some offset) [] ((ofPiece? false piece).toList ++ found) rest
    else if c = '}' then
      match opened with
      | none => .error (.unmatchedBrace offset)
      | some _ =>
        scan (offset + c.utf8Size) none [] ((ofPiece? true piece).toList ++ found) rest
    else
      scan (offset + c.utf8Size) opened (c :: piece) found rest

def ofText (text : String) : Except PatternFlaw (List Fragment) :=
  scan 0 none [] [] text.toList

end Fragment

end PatternRename
