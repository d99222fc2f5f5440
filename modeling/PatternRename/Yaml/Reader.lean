import PatternRename.Yaml.Scalar

/-!
# Reading YAML documents

A text holds at most one document. Its nodes are written in blocks, by indentation, or in
brackets. Anchors, tags, directives, block scalars and keys marked by a question mark are not
read.

## Main definitions

- `Node`, `Node.isNull` — a scalar, a list or a map, and whether it stands for no value
- `readBracketed` — a scalar, or a list or map in brackets, inside brackets
- `readBlock` — a node in a block
- `readDocument` — the document of a text
-/

namespace PatternRename.Yaml

inductive Node where
  /-- A text. It is `plain` when it is written without quotes. -/
  | scalar (plain : Bool) (text : String)
  | list (items : List Node)
  | map (entries : List (Node × Node))
  deriving Repr, Inhabited

namespace Node

/-- The node of a value that is left out. -/
def absent : Node := .scalar true ""

/-- The plain scalars that stand for no value. -/
def nullWords : List String := ["", "~", "null", "Null", "NULL"]

def isNull : Node → Bool
  | .scalar true text => nullWords.contains text
  | _ => false

end Node

/-- The characters that mean something at the beginning of a node. -/
def nodeSigns : List Char :=
  ['[', ']', '{', '}', ',', '#', '&', '*', '!', '|', '>', '\'', '"', '%', '@', '`']

def beginsPlain (inBrackets : Bool) : List Char → Bool
  | [] => false
  | c :: rest =>
    if c == '-' then !isGap rest
    else if c == '?' || c == ':' then !inBrackets && !isGap rest
    else !isGap (c :: rest) && !nodeSigns.contains c

def atDash (cursor : Cursor) : Bool :=
  match cursor.rest with
  | '-' :: rest => isGap rest
  | _ => false

def readScalar (inBrackets : Bool) (indent : Nat) (cursor : Cursor) : Option (Node × Cursor) :=
  match cursor.rest with
  | '\'' :: _ => (singleQuoted (cursor.advance 1)).map fun (text, next) => (.scalar false text, next)
  | '"' :: _ => (doubleQuoted (cursor.advance 1)).map fun (text, next) => (.scalar false text, next)
  | rest =>
    if beginsPlain inBrackets rest then
      (plainScalar inBrackets indent cursor).map fun (text, next) => (.scalar true text, next)
    else none

mutual

/-- Reads a node inside brackets. Each level and each entry takes one unit of `fuel`. -/
def readBracketed (fuel : Nat) (indent : Nat) (cursor : Cursor) : Option (Node × Cursor) :=
  match fuel with
  | 0 => none
  | fuel + 1 =>
    match cursor.rest with
    | '[' :: _ => readItems fuel indent [] (cursor.advance 1)
    | '{' :: _ => readPairs fuel indent [] (cursor.advance 1)
    | _ => readScalar true indent cursor

/-- Reads the value behind the colon of a pair inside brackets. It may be left out. -/
def readPairValue (fuel : Nat) (indent : Nat) (cursor : Cursor) : Option (Node × Cursor) :=
  match fuel with
  | 0 => none
  | fuel + 1 =>
    let next := cursor.skip true
    match next.rest with
    | ',' :: _ | ']' :: _ | '}' :: _ => some (.absent, next)
    | _ => readBracketed fuel indent next

/-- Reads the entries of a list in brackets. `found` holds the entries so far, the last one
first. -/
def readItems (fuel : Nat) (indent : Nat) (found : List Node) (cursor : Cursor) :
    Option (Node × Cursor) :=
  match fuel with
  | 0 => none
  | fuel + 1 =>
    let next := cursor.skip true
    match next.rest with
    | ']' :: _ => some (.list found.reverse, next.advance 1)
    | _ =>
      match readBracketed fuel indent next with
      | none => none
      | some (node, behind) =>
        let after := behind.skip true
        let item : Option (Node × Cursor) :=
          match after.rest with
          | ':' :: _ =>
            (readPairValue fuel indent (after.advance 1)).map fun (value, left) =>
              (.map [(node, value)], left.skip true)
          | _ => some (node, after)
        match item with
        | none => none
        | some (node, left) =>
          match left.rest with
          | ',' :: _ => readItems fuel indent (node :: found) (left.advance 1)
          | ']' :: _ => some (.list (node :: found).reverse, left.advance 1)
          | _ => none

/-- Reads the pairs of a map in brackets. `found` holds the pairs so far, the last one first. -/
def readPairs (fuel : Nat) (indent : Nat) (found : List (Node × Node)) (cursor : Cursor) :
    Option (Node × Cursor) :=
  match fuel with
  | 0 => none
  | fuel + 1 =>
    let next := cursor.skip true
    match next.rest with
    | '}' :: _ => some (.map found.reverse, next.advance 1)
    | _ =>
      match readBracketed fuel indent next with
      | none => none
      | some (key, behind) =>
        let after := behind.skip true
        let value : Option (Node × Cursor) :=
          match after.rest with
          | ':' :: _ =>
            if after.line = next.line then
              (readPairValue fuel indent (after.advance 1)).map fun (value, left) =>
                (value, left.skip true)
            else none
          | _ => some (.absent, after)
        match value with
        | none => none
        | some (value, left) =>
          match left.rest with
          | ',' :: _ => readPairs fuel indent ((key, value) :: found) (left.advance 1)
          | '}' :: _ => some (.map ((key, value) :: found).reverse, left.advance 1)
          | _ => none

end

def readInline (fuel : Nat) (indent : Nat) (cursor : Cursor) : Option (Node × Cursor) :=
  match cursor.rest with
  | '[' :: _ | '{' :: _ => readBracketed fuel indent cursor
  | _ => readScalar false indent cursor

/-- Reads a key and its colon, which must be on one line. -/
def readKey (fuel : Nat) (indent : Nat) (cursor : Cursor) : Option (Node × Cursor) :=
  match readInline fuel indent cursor with
  | none => none
  | some (key, behind) =>
    if behind.line = cursor.line then behind.behindKey?.map (key, ·) else none

mutual

/-- Reads a node in a block. It must be indented by `indent` columns at least; the entries of a
list that is the value of a key may be indented by one column less. Each level and each entry
takes one unit of `fuel`. -/
def readBlock (fuel : Nat) (indent : Nat) (isValue : Bool) (cursor : Cursor) :
    Option (Node × Cursor) :=
  match fuel with
  | 0 => none
  | fuel + 1 =>
    let here := cursor.skip false
    if here.atBoundary then some (.absent, here)
    else if here.column < indent then
      if isValue && here.column + 1 = indent && here.fresh && atDash here then
        readEntries fuel here.column true [] here
      else some (.absent, here)
    else if atDash here then
      if here.fresh then readEntries fuel here.column false [] here else none
    else
      match readInline fuel indent here with
      | none => none
      | some (node, behind) =>
        if here.fresh && behind.line = here.line then
          match behind.behindKey? with
          | some next => readFields fuel here.column [] node next
          | none => some (node, behind)
        else some (node, behind)

/-- Reads the value of a key of a block map at a column, and the later keys. `found` holds the
pairs so far, the last one first. -/
def readFields (fuel : Nat) (column : Nat) (found : List (Node × Node)) (key : Node)
    (cursor : Cursor) : Option (Node × Cursor) :=
  match fuel with
  | 0 => none
  | fuel + 1 =>
    match readBlock fuel (column + 1) true cursor with
    | none => none
    | some (value, behind) =>
      let next := behind.skip false
      let found := (key, value) :: found
      if next.atBoundary then some (.map found.reverse, next)
      else if !next.fresh then none
      else if next.column < column then some (.map found.reverse, next)
      else if column < next.column then none
      else
        match readKey fuel (column + 1) next with
        | none => none
        | some (key, next) => readFields fuel column found key next

/-- Reads the entries of a block list whose dashes are at a column. `found` holds the entries so
far, the last one first. A list that is the value of a key at the same column ends where the next
key begins. -/
def readEntries (fuel : Nat) (column : Nat) (isValue : Bool) (found : List Node)
    (cursor : Cursor) : Option (Node × Cursor) :=
  match fuel with
  | 0 => none
  | fuel + 1 =>
    match readBlock fuel (column + 1) false { cursor.advance 1 with fresh := true } with
    | none => none
    | some (item, behind) =>
      let next := behind.skip false
      let found := item :: found
      if next.atBoundary then some (.list found.reverse, next)
      else if !next.fresh then none
      else if next.column < column then some (.list found.reverse, next)
      else if column < next.column then none
      else if atDash next then readEntries fuel column isValue found next
      else if isValue then some (.list found.reverse, next)
      else none

end

/-- Whether a text ends behind the document that it holds: after any number of end markers,
nothing is left. -/
def endsAfterDocument (fuel : Nat) (cursor : Cursor) : Bool :=
  match fuel with
  | 0 => false
  | fuel + 1 =>
    let next := cursor.skip false
    next.atEnd || (next.atMarker '.' && endsAfterDocument fuel (next.advance 3))

inductive Document where
  | none
  | one (root : Node)
  deriving Repr

/-- The document of a text, or nothing if the text is not well formed. -/
def readDocument (text : String) : Option Document :=
  match normalize text.toList with
  | .none => .none
  | some chars =>
    let fuel := 4 * chars.length + 16
    let first := (Cursor.start chars).skip false
    if first.atEnd then some .none
    else if first.atMarker '.' || (first.column == 0 && first.rest.head? == some '%') then .none
    else
      let body := if first.atMarker '-' then first.advance 3 else first
      match readBlock fuel 0 false body with
      | .none => .none
      | some (root, behind) => if endsAfterDocument fuel behind then some (.one root) else .none

end PatternRename.Yaml
