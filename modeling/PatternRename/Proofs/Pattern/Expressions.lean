import PatternRename.Proofs.Renaming.Rendered

/-!
# What an expression tells about its pattern

Every character of a literal and every field is written into the expression of a pattern in such a
way that it can be read off again, whatever comes behind it: a character that has a meaning in
expressions stands behind a backslash, and any other opening parenthesis begins a field. So the
expression tells all about a pattern but three things: where its literals are cut, the names of its
fields, and which fields of digits are for integers.

## Main definitions

- `Token.anonymous` — a token without the name of its field, and with digits for integers
- `Mark`, `Token.marks` — the characters and fields that tokens consist of
- `Mark.writeAll` — their expression

## Main results

- `FieldKind.primitive_append_inj` — a field can be read off
- `escapeChar_append_inj`, `escapeChar_append_ne` — a character can be read off
- `Mark.writeAll_inj` — marks can be read off
- `Pattern.expression_eq_iff` — patterns with the same expression
-/

namespace PatternRename

/-! ### Kinds of fields -/

/-- A kind of field, with digits for integers, which match the same. -/
def FieldKind.plain : FieldKind → FieldKind
  | .integer w => .digit w
  | kind => kind

/-- How often a class of characters is repeated for a width. -/
def Width.quantifier : Width → List Char
  | .fixed n => '{' :: (Text.digits n ++ ['}'])
  | .unbounded => ['*']

/-- The quantifier of a width can be read off: its digits end at a brace. -/
theorem Width.quantifier_append_inj {v w : Width} {s t : List Char}
    (h : v.quantifier ++ s = w.quantifier ++ t) : v = w ∧ s = t := by
  have hrun : ∀ (n : Nat) (rest : List Char),
      (Text.digits n ++ '}' :: rest).takeWhile Char.isDigit = Text.digits n := by
    intro n rest
    have hdigits : ∀ c ∈ Text.digits n, c.isDigit = true := fun _ => Text.isDigit_of_mem_digits
    rw [List.takeWhile_append_of_pos hdigits, List.takeWhile_cons_of_neg (by decide),
      List.append_nil]
  cases v with
  | fixed m =>
    cases w with
    | fixed n =>
      simp only [quantifier, List.cons_append, List.append_assoc, List.nil_append,
        List.cons.injEq, true_and] at h
      have hnumber : m = n := by
        have hdigits := congrArg (List.takeWhile Char.isDigit) h
        rw [hrun, hrun] at hdigits
        exact Text.eq_of_digits_eq hdigits
      subst hnumber
      exact ⟨rfl, (List.cons.inj (List.append_cancel_left h)).2⟩
    | unbounded => simp [quantifier] at h
  | unbounded =>
    cases w with
    | fixed n => simp [quantifier] at h
    | unbounded => exact ⟨rfl, List.append_cancel_left h⟩

theorem toList_classPrimitive (charClass : String) (w : Width) :
    (classPrimitive charClass w).toList = charClass.toList ++ w.quantifier := by
  cases w with
  | fixed n =>
    simp [classPrimitive, Width.quantifier, Text.digits, String.toList_append]
  | unbounded => simp [classPrimitive, Width.quantifier, String.toList_append]

namespace FieldKind

theorem primitive_plain (kind : FieldKind) : kind.plain.primitive = kind.primitive := by
  cases kind <;> rfl

theorem plain_cases (kind : FieldKind) :
    (∃ w, kind.plain = .digit w) ∨ (∃ w, kind.plain = .character w) ∨ kind.plain = .float := by
  cases kind with
  | digit w | integer w => exact .inl ⟨w, rfl⟩
  | character w => exact .inr (.inl ⟨w, rfl⟩)
  | float => exact .inr (.inr rfl)

/-- The expression of a kind can be read off. Two kinds differ in its second character, which tells
the class, or in its quantifier, if they are not integers and digits. -/
theorem primitive_append_inj {a b : FieldKind} {s t : List Char}
    (h : a.primitive.toList ++ s = b.primitive.toList ++ t) : a.plain = b.plain ∧ s = t := by
  have hsecond := congrArg (fun cs => cs[1]?) h
  rw [← primitive_plain a, ← primitive_plain b] at h hsecond
  rcases plain_cases a with ⟨v, ha⟩ | ⟨v, ha⟩ | ha <;>
    rcases plain_cases b with ⟨w, hb⟩ | ⟨w, hb⟩ | hb <;>
    simp only [ha, hb, primitive, toList_classPrimitive, List.append_assoc] at h hsecond ⊢
  case inl.inl | inr.inl.inr.inl =>
    obtain ⟨rfl, hrest⟩ := Width.quantifier_append_inj (List.append_cancel_left h)
    exact ⟨rfl, hrest⟩
  case inr.inr.inr.inr => exact ⟨trivial, List.append_cancel_left h⟩
  -- the kinds are of different classes
  all_goals simp at hsecond

end FieldKind

/-! ### Characters -/

/-- A character as an expression that matches it and nothing else. -/
def escapeChar (c : Char) : List Char :=
  if isExpressionSign c then ['\\', c] else [c]

theorem toList_escapeExpression (text : String) :
    (escapeExpression text).toList = text.toList.flatMap escapeChar :=
  String.toList_ofList

/-- A character is either a sign, which stands behind a backslash, or stands for itself. -/
theorem escapeChar_cases (c : Char) :
    (isExpressionSign c = true ∧ escapeChar c = ['\\', c]) ∨
      (isExpressionSign c = false ∧ escapeChar c = [c]) := by
  cases hsign : isExpressionSign c with
  | true => exact .inl ⟨rfl, if_pos hsign⟩
  | false => exact .inr ⟨rfl, by rw [escapeChar, hsign]; rfl⟩

/-- The expression of a character can be read off, for the backslash is a sign itself. -/
theorem escapeChar_append_inj {c d : Char} {s t : List Char}
    (h : escapeChar c ++ s = escapeChar d ++ t) : c = d ∧ s = t := by
  have hbackslash : isExpressionSign '\\' = true := rfl
  rcases escapeChar_cases c with ⟨-, hc⟩ | ⟨hc', hc⟩ <;>
    rcases escapeChar_cases d with ⟨-, hd⟩ | ⟨hd', hd⟩ <;>
    simp only [hc, hd, List.cons_append, List.nil_append, List.cons.injEq, true_and] at h
  · exact h
  · rw [← h.1, hbackslash] at hd'
    exact absurd hd' (by decide)
  · rw [h.1, hbackslash] at hc'
    exact absurd hc' (by decide)
  · exact h

/-- No literal begins with an opening parenthesis, which is a sign. -/
theorem escapeChar_append_ne (c : Char) (s t : List Char) : escapeChar c ++ s ≠ '(' :: t := by
  intro h
  rcases escapeChar_cases c with ⟨-, hc⟩ | ⟨hc', hc⟩ <;>
    simp only [hc, List.cons_append, List.nil_append, List.cons.injEq] at h
  · exact absurd h.1 (by decide)
  · rw [h.1] at hc'
    exact absurd hc' (by decide)

/-! ### Marks -/

/-- A part of a pattern that an expression shows: a character of a literal, or a kind of field. -/
inductive Mark where
  | char (c : Char)
  | field (kind : FieldKind)
  deriving DecidableEq, Repr

namespace Mark

/-- A mark as a token of its own, as far as an expression shows it. -/
def token : Mark → Token
  | .char c => .literal (String.singleton c)
  | .field kind => .field ⟨"", kind.plain⟩

/-- The expression of a field behind so many others, from its parenthesis on. -/
def group (index : Nat) (kind : FieldKind) : List Char :=
  '(' :: (s!"?P<field{index}>".toList ++ (kind.primitive.toList ++ [')']))

/-- The expression of marks, the first of which stand behind so many fields. -/
def writeAll (index : Nat) : List Mark → List Char
  | [] => []
  | .char c :: rest => escapeChar c ++ writeAll index rest
  | .field kind :: rest => group index kind ++ writeAll (index + 1) rest

theorem writeAll_chars (index : Nat) (cs : List Char) (rest : List Mark) :
    writeAll index (cs.map .char ++ rest) = cs.flatMap escapeChar ++ writeAll index rest := by
  induction cs with
  | nil => rfl
  | cons c cs ih =>
    rw [List.map_cons, List.cons_append, writeAll, ih, List.flatMap_cons, List.append_assoc]

theorem group_append_inj {index : Nat} {a b : FieldKind} {s t : List Char}
    (h : group index a ++ s = group index b ++ t) : a.plain = b.plain ∧ s = t := by
  simp only [group, List.cons_append, List.append_assoc, List.cons.injEq, true_and] at h
  obtain ⟨hkind, hrest⟩ := FieldKind.primitive_append_inj (List.append_cancel_left h)
  exact ⟨hkind, (List.cons.inj hrest).2⟩

theorem writeAll_cons_ne_nil (index : Nat) (mark : Mark) (marks : List Mark) :
    writeAll index (mark :: marks) ≠ [] := by
  cases mark with
  | char c =>
    rcases escapeChar_cases c with ⟨-, hc⟩ | ⟨-, hc⟩ <;> simp [writeAll, hc]
  | field kind => simp [writeAll, group]

/-- Marks can be read off their expression, except for what their tokens leave out. -/
theorem writeAll_inj {index : Nat} {marks others : List Mark}
    (h : writeAll index marks = writeAll index others) : marks.map token = others.map token := by
  induction marks generalizing index others with
  | nil =>
    cases others with
    | nil => rfl
    | cons other others => exact absurd h.symm (writeAll_cons_ne_nil index other others)
  | cons mark marks ih =>
    cases others with
    | nil => exact absurd h (writeAll_cons_ne_nil index mark marks)
    | cons other others =>
      -- the first character tells whether a field begins here
      cases mark with
      | char c =>
        cases other with
        | char d =>
          obtain ⟨rfl, hrest⟩ := escapeChar_append_inj h
          rw [List.map_cons, List.map_cons, ih hrest]
        | field kind => exact absurd h (escapeChar_append_ne c _ _)
      | field kind =>
        cases other with
        | char d => exact absurd h.symm (escapeChar_append_ne d _ _)
        | field kind' =>
          obtain ⟨hkind, hrest⟩ := group_append_inj h
          rw [List.map_cons, List.map_cons, ih hrest, token, token, hkind]

end Mark

/-! ### Tokens -/

namespace Token

/-- The characters and fields of a token. -/
def marks : Token → List Mark
  | .literal text => text.toList.map .char
  | .field f => [.field f.kind]

/-- A token as far as an expression shows it: without the name of its field, and with digits for
integers. -/
def anonymous : Token → Token
  | .literal text => .literal text
  | .field f => .field ⟨"", f.kind.plain⟩

theorem map_anonymous_joinOnto (token : Token) (tokens : List Token) :
    (joinOnto token tokens).map anonymous = joinOnto token.anonymous (tokens.map anonymous) := by
  rcases token with front | f <;> rcases tokens with _ | ⟨back | g, rest⟩ <;> rfl

theorem joinOnto_joinOnto (front back : String) (tokens : List Token) :
    joinOnto (.literal front) (joinOnto (.literal back) tokens) =
      joinOnto (.literal (front ++ back)) tokens := by
  rcases tokens with _ | ⟨next | f, rest⟩
  · rfl
  · simp only [joinOnto, String.append_assoc]
  · rfl

/-- The characters of a text that is not empty are joined to the text again. -/
theorem foldr_joinOnto_chars {cs : List Char} (hne : cs ≠ []) (tokens : List Token) :
    ((cs.map Mark.char).map Mark.token).foldr joinOnto tokens =
      joinOnto (.literal (String.ofList cs)) tokens := by
  induction cs with
  | nil => exact absurd rfl hne
  | cons c cs ih =>
    rcases cs with _ | ⟨d, cs⟩
    · rfl
    · rw [List.map_cons, List.map_cons, List.foldr_cons, ih (by simp), Mark.token,
        joinOnto_joinOnto, ← String.ofList_cons]

/-- The marks of tokens, joined where they are characters, are the joined tokens. -/
theorem joinLiterals_marks {tokens : List Token} (h : ∀ text, .literal text ∈ tokens → text ≠ "") :
    joinLiterals ((tokens.flatMap marks).map Mark.token) = (joinLiterals tokens).map anonymous := by
  induction tokens with
  | nil => rfl
  | cons token tokens ih =>
    rw [joinLiterals_cons, map_anonymous_joinOnto, ← ih fun text htext => h text (.tail _ htext),
      List.flatMap_cons, List.map_append, joinLiterals, List.foldr_append]
    cases token with
    | literal text =>
      have hne : text.toList ≠ [] := by
        intro hnil
        exact h text (.head _) (String.toList_eq_nil_iff.mp hnil)
      rw [marks, foldr_joinOnto_chars hne, String.ofList_toList]
      rfl
    | field f => rfl

/-- The expression of tokens is the expression of their marks. -/
theorem toList_join_expressionFrom (index : Nat) (tokens : List Token) :
    (String.join (Pattern.expressionFrom index tokens)).toList =
      Mark.writeAll index (tokens.flatMap marks) := by
  induction tokens generalizing index with
  | nil => rfl
  | cons token tokens ih =>
    cases token with
    | literal text =>
      rw [Pattern.expressionFrom, String.join_cons, String.toList_append, ih,
        toList_escapeExpression, List.flatMap_cons, marks, Mark.writeAll_chars]
    | field f =>
      have hgroup : (s!"(?P<field{index}>{f.kind.primitive})").toList =
          Mark.group index f.kind := by
        simp only [Mark.group, String.toList_append, List.append_assoc]
        rfl
      rw [Pattern.expressionFrom, String.join_cons, String.toList_append, ih, hgroup,
        List.flatMap_cons]
      rfl

theorem expressionFrom_map_anonymous (index : Nat) (tokens : List Token) :
    Pattern.expressionFrom index (tokens.map anonymous) = Pattern.expressionFrom index tokens := by
  induction tokens generalizing index with
  | nil => rfl
  | cons token tokens ih =>
    cases token with
    | literal text => rw [List.map_cons, anonymous, Pattern.expressionFrom, ih]; rfl
    | field f =>
      rw [List.map_cons, anonymous, Pattern.expressionFrom, ih, FieldKind.primitive_plain]
      rfl

end Token

namespace Pattern

theorem literal_ne_empty_of_parse {text literal : String} {p : Pattern} (h : parse text = .ok p)
    (hmem : .literal literal ∈ p.tokens) : literal ≠ "" := by
  have hpiece : IsPiece literal.toList := isReadable_of_parse h _ hmem
  rintro rfl
  exact hpiece.word.ne_nil rfl

/-- Two patterns have the same expression exactly if they have the same tokens, as far as adjacent
literals are joined, names of fields are left out and integers count as digits. -/
theorem expression_eq_iff {a b : String} {p q : Pattern} (hp : parse a = .ok p)
    (hq : parse b = .ok q) :
    p.expression = q.expression ↔
      (Token.joinLiterals p.tokens).map Token.anonymous =
        (Token.joinLiterals q.tokens).map Token.anonymous := by
  constructor
  · intro h
    have hmarks : Mark.writeAll 0 (p.tokens.flatMap Token.marks) =
        Mark.writeAll 0 (q.tokens.flatMap Token.marks) := by
      rw [← Token.toList_join_expressionFrom, ← Token.toList_join_expressionFrom]
      exact congrArg String.toList h
    rw [← Token.joinLiterals_marks fun _ => literal_ne_empty_of_parse hp,
      ← Token.joinLiterals_marks fun _ => literal_ne_empty_of_parse hq, Mark.writeAll_inj hmarks]
  · intro h
    rw [← expression_joined p, ← expression_joined q, expression, expression,
      ← Token.expressionFrom_map_anonymous, ← Token.expressionFrom_map_anonymous 0 q.joined.tokens]
    exact congrArg (fun tokens => String.join (expressionFrom 0 tokens)) h

theorem expression_eq_iff_plate :
    (∃ p q, parse "_{}s{f:d+}" = .ok p ∧ parse "_s{site:i+}" = .ok q ∧ p ≠ q ∧
      p.expression = q.expression) ∧
    ∃ p q, parse "{f:d+}" = .ok p ∧ parse "(?P<field0>[0-9]*)" = .ok q ∧
      p.expression ≠ q.expression := by
  have hcut : parse "_{}s{f:d+}" =
      .ok ⟨[.literal "_", .literal "s", .field ⟨"f", .digit .unbounded⟩]⟩ := by
    decide +kernel
  have hwhole : parse "_s{site:i+}" =
      .ok ⟨[.literal "_s", .field ⟨"site", .integer .unbounded⟩]⟩ := by
    decide +kernel
  have hfield : parse "{f:d+}" = .ok ⟨[.field ⟨"f", .digit .unbounded⟩]⟩ := by
    decide +kernel
  have hliteral : parse "(?P<field0>[0-9]*)" = .ok ⟨[.literal "(?P<field0>[0-9]*)"]⟩ := by
    decide +kernel
  exact ⟨⟨_, _, hcut, hwhole, by decide, (expression_eq_iff hcut hwhole).mpr (by decide)⟩,
    _, _, hfield, hliteral, mt (expression_eq_iff hfield hliteral).mp (by decide)⟩

end Pattern

end PatternRename
