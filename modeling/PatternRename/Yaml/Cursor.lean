/-!
# A place in a YAML text

Indentation means something in YAML, so a place in a text comes with its line and column, and with
whether a key may begin there.

## Main definitions

- `Cursor` — what is left of a text, and where it is
- `normalize` — a text with one kind of line break, if it has no forbidden character
- `Cursor.skip` — the place of the next character that is no blank, break or comment
-/

namespace PatternRename.Yaml

/-- Whether a character ends a line, once line breaks are normalized. -/
def isBreak (c : Char) : Bool :=
  c == '\n' || c == '\u2028' || c == '\u2029'

def isSpace (c : Char) : Bool :=
  c == ' ' || c == '\t'

/-- Whether a text is at its end or begins with a space, a tab or a line break. -/
def isGap : List Char → Bool
  | [] => true
  | c :: _ => isSpace c || isBreak c

/-- The characters that a YAML text may hold. -/
def isAllowed (c : Char) : Bool :=
  let n := c.toNat
  n == 0x09 || n == 0x0A || n == 0x0D || (0x20 ≤ n && n ≤ 0x7E) || n == 0x85 ||
    (0xA0 ≤ n && n ≤ 0xD7FF) || (0xE000 ≤ n && n ≤ 0xFFFD && n != 0xFEFF) || 0x10000 ≤ n

/-- Writes every line break as a line feed. `acc` holds what is done, the last character first. -/
def joinBreaks (acc : List Char) : List Char → List Char
  | [] => acc.reverse
  | '\r' :: '\n' :: rest => joinBreaks ('\n' :: acc) rest
  | '\r' :: rest => joinBreaks ('\n' :: acc) rest
  | '\u0085' :: rest => joinBreaks ('\n' :: acc) rest
  | c :: rest => joinBreaks (c :: acc) rest

/-- A text without its byte order mark and with line feeds for all line breaks, unless it holds a
character that it may not. -/
def normalize (text : List Char) : Option (List Char) :=
  let body := match text with
    | '\uFEFF' :: rest => rest
    | _ => text
  if body.all isAllowed then some (joinBreaks [] body) else none

/-- A place in a text. -/
structure Cursor where
  rest : List Char
  column : Nat
  line : Nat
  /-- Whether a key or an entry of a list may begin here. -/
  fresh : Bool
  deriving Repr

namespace Cursor

def start (text : List Char) : Cursor := ⟨text, 0, 0, true⟩

def atEnd (cursor : Cursor) : Bool :=
  cursor.rest.isEmpty

/-- The place behind some characters of the same line, where no key may begin. -/
def advance (cursor : Cursor) (n : Nat) : Cursor :=
  ⟨cursor.rest.drop n, cursor.column + n, cursor.line, false⟩

/-- The place behind the next character, which may end a line. -/
def behind (cursor : Cursor) (c : Char) (rest : List Char) : Cursor :=
  if isBreak c then ⟨rest, 0, cursor.line + 1, cursor.fresh⟩
  else ⟨rest, cursor.column + 1, cursor.line, cursor.fresh⟩

/-- Whether a line of three marks and a gap begins here. -/
def atMarker (cursor : Cursor) (mark : Char) : Bool :=
  cursor.column == 0 && [mark, mark, mark].isPrefixOf cursor.rest && isGap (cursor.rest.drop 3)

/-- Whether a document begins or ends here, or the text does. -/
def atBoundary (cursor : Cursor) : Bool :=
  cursor.atEnd || cursor.atMarker '-' || cursor.atMarker '.'

/-- Goes over blanks, breaks and comments. Outside of brackets a line break lets a key begin, and
where one may begin a tab is not a blank. -/
def skipFrom (inBrackets inComment : Bool) (column line : Nat) (fresh : Bool) :
    List Char → Cursor
  | [] => ⟨[], column, line, fresh⟩
  | c :: rest =>
    if isBreak c then skipFrom inBrackets false 0 (line + 1) (fresh || !inBrackets) rest
    else if inComment || c == ' ' || (c == '\t' && (inBrackets || !fresh)) then
      skipFrom inBrackets inComment (column + 1) line fresh rest
    else if c == '#' then skipFrom inBrackets true (column + 1) line fresh rest
    else ⟨c :: rest, column, line, fresh⟩

def skip (inBrackets : Bool) (cursor : Cursor) : Cursor :=
  skipFrom inBrackets false cursor.column cursor.line cursor.fresh cursor.rest

/-- The place behind a colon that follows on the same line and has a gap behind it: the end of a
key. -/
def behindKey? (cursor : Cursor) : Option Cursor :=
  let next := (cursor.rest.dropWhile isSpace)
  match next with
  | ':' :: rest =>
    if isGap rest then
      some ⟨rest, cursor.column + (cursor.rest.length - rest.length), cursor.line, false⟩
    else none
  | _ => none

end Cursor

end PatternRename.Yaml
