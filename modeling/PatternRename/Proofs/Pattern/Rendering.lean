import PatternRename.Pattern.Expression
import PatternRename.Proofs.Pattern.Fragments
import PatternRename.Proofs.Pattern.Parsing

/-!
# Patterns that are written and read again

The tokens of a pattern are the fragments of its written form, but for literals that stand side by
side: nothing parts these, so they are read as one literal. A pattern that was read can be written
and read again. It comes back with such literals joined, and as it was exactly if it has none.

## Main definitions

- `Token.fragment` — the fragment that a token is written as
- `Token.IsReadable` — the tokens that fragments are read as
- `Token.Apart`, `Pattern.LiteralsApart` — no two literals stand side by side
- `Token.joinLiterals` — tokens with adjacent literals joined

## Main results

- `Pattern.parse_render` — what a pattern is read as when it has been written
- `Pattern.reparse_eq_iff_literalsApart` — which patterns come back as they were
- `Pattern.reparse_joins_literals` — a pattern that does not
-/

namespace PatternRename

/-! ### Specifiers -/

/-- A kind is read from its specifier, which has a letter at least. -/
theorem FieldKind.ofSpec?_spec {kind : FieldKind} (h : ∀ n, kind.width = .fixed n → 0 < n) :
    ofSpec? kind.spec = some kind := by
  cases kind with
  | float => rfl
  | digit w | integer w | character w =>
    cases w with
    | unbounded => rfl
    | fixed n =>
      have hn : n ≠ 0 := Nat.ne_of_gt (h n rfl)
      rw [spec, specOf, ofSpec?_of_plus_not_mem]
      · simp only [String.toList_ofList, List.all_replicate, if_neg hn, List.length_replicate]
        rfl
      · simpa using hn
      · simp

/-- The characters that specifiers are made of. -/
theorem FieldKind.mem_spec {kind : FieldKind} {c : Char} (h : c ∈ kind.spec.toList) :
    c ∈ ['d', 'i', 'c', 'f', '+'] := by
  cases kind with
  | float =>
    have hchars : FieldKind.float.spec.toList = ['f', '+'] := rfl
    rw [hchars] at h
    simp only [List.mem_cons, List.not_mem_nil] at h ⊢
    tauto
  | digit w | integer w | character w =>
    cases w with
    | unbounded =>
      simp only [spec, specOf, String.toList_ofList, List.mem_cons, List.not_mem_nil] at h ⊢
      tauto
    | fixed n =>
      simp only [spec, specOf, String.toList_ofList] at h
      rw [(List.mem_replicate.mp h).2]
      decide

/-- A specifier has no blank at its ends, and no brace cuts it. -/
theorem FieldKind.isPiece_spec {kind : FieldKind} (h : ofSpec? kind.spec = some kind) :
    IsPiece kind.spec.toList := by
  have hne : kind.spec.toList ≠ [] := by
    intro hnil
    simp [ofSpec?, hnil] at h
  have hblank : ∀ c ∈ kind.spec.toList, Text.isBlank c = false := by
    intro c hc
    have hletters : ['d', 'i', 'c', 'f', '+'].all (fun d => !Text.isBlank d) = true := by decide
    simpa using List.all_eq_true.mp hletters c (mem_spec hc)
  refine ⟨⟨?_, ?_⟩, fun hopen => ?_, fun hclose => ?_⟩
  · exact ⟨_, List.head?_eq_some_head hne, hblank _ (List.head_mem hne)⟩
  · exact ⟨_, List.getLast?_eq_some_getLast hne, hblank _ (List.getLast_mem hne)⟩
  · exact absurd (mem_spec hopen) (by decide)
  · exact absurd (mem_spec hclose) (by decide)

/-! ### Tokens and their fragments -/

namespace Token

/-- The fragment that a token is written as. -/
def fragment : Token → Fragment
  | .literal text => .literal text
  | .field f => .placeholder (f.name ++ ":" ++ f.kind.spec)

/-- The tokens that fragments are read as: literals and names of fields are words without braces,
and a name has no colon. -/
def IsReadable : Token → Prop
  | .literal text => IsPiece text.toList
  | .field f => IsPiece f.name.toList ∧ ':' ∉ f.name.toList ∧
      FieldKind.ofSpec? f.kind.spec = some f.kind

theorem toList_render (token : Token) : token.render.toList = token.fragment.render := by
  cases token with
  | literal text => rfl
  | field f => simp [render, Field.render, fragment, Fragment.render, String.toList_append]

theorem toList_fragment_field (f : Field) :
    (Token.field f).fragment.chars = f.name.toList ++ ':' :: f.kind.spec.toList := by
  simp only [fragment, Fragment.chars, String.toList_append]
  rw [List.append_assoc]
  rfl

/-- A token that is read is written as a word without braces. -/
theorem isPiece_fragment {token : Token} (h : token.IsReadable) : IsPiece token.fragment.chars := by
  cases token with
  | literal text => exact h
  | field f =>
    obtain ⟨hname, -, hspec⟩ := h
    have hpiece := FieldKind.isPiece_spec hspec
    rw [toList_fragment_field]
    refine ⟨?_, ?_, ?_⟩
    · apply Text.IsWord.append_of hname.word.head
      rw [List.getLast?_cons_of_ne_nil hpiece.word.ne_nil]
      exact hpiece.word.last
    · simp [hname.no_open, hpiece.no_open]
    · simp [hname.no_close, hpiece.no_close]

/-- A token that is read is read again from its fragment. -/
theorem ofFragment_fragment {token : Token} (h : token.IsReadable) (pattern : String) :
    ofFragment pattern token.fragment = .ok token := by
  cases token with
  | literal text => rfl
  | field f =>
    obtain ⟨hname, hcolon, hspec⟩ := h
    refine ofFragment_eq_ok_iff.mpr (.field
      ⟨f.name.toList, f.kind.spec.toList, toList_fragment_field f, hcolon, ?_, ?_, ?_⟩)
    · rw [hname.word.trim_eq]
      exact hname.word.ne_nil
    · rw [hname.word.trim_eq, String.ofList_toList]
    · rw [(FieldKind.isPiece_spec hspec).word.trim_eq]
      exact FieldKind.spelled_of_ofSpec? hspec

/-- Words without braces are read as such tokens. -/
theorem isReadable_of_ofFragment {pattern : String} {fragment : Fragment} {token : Token}
    (hpiece : IsPiece fragment.chars) (h : ofFragment pattern fragment = .ok token) :
    token.IsReadable := by
  cases ofFragment_eq_ok_iff.mp h with
  | literal text => exact hpiece
  | @field inside f hreads =>
    obtain ⟨front, back, hinside, hcolon, hne, hname, hspec⟩ := hreads
    have htrim : f.name.toList = Text.trim front := by rw [hname, String.toList_ofList]
    have hmem : ∀ c ∈ Text.trim front, c ∈ inside.toList := by
      intro c hc
      rw [hinside]
      exact List.mem_append_left _ (Text.mem_of_mem_trim hc)
    rw [IsReadable, htrim]
    refine ⟨⟨Text.isWord_trim hne, fun hopen => hpiece.no_open (hmem _ hopen),
      fun hclose => hpiece.no_close (hmem _ hclose)⟩, mt Text.mem_of_mem_trim hcolon, ?_⟩
    exact FieldKind.ofSpec?_spec fun n => hspec.width_pos

/-! ### Literals side by side -/

/-- At most one of two tokens is a literal. -/
def Apart : Token → Token → Prop
  | .literal _, .literal _ => False
  | _, _ => True

/-- A token in front of others, joined to the first of them if both are literals. -/
def joinOnto : Token → List Token → List Token
  | .literal front, .literal back :: rest => .literal (front ++ back) :: rest
  | token, rest => token :: rest

/-- The tokens with literals that stand side by side joined. -/
def joinLiterals (tokens : List Token) : List Token :=
  tokens.foldr joinOnto []

theorem joinLiterals_cons (token : Token) (tokens : List Token) :
    joinLiterals (token :: tokens) = joinOnto token (joinLiterals tokens) := rfl

/-- How a token is put in front of others. -/
theorem joinOnto_cases (token : Token) (tokens : List Token) :
    (∃ front back rest, token = .literal front ∧ tokens = .literal back :: rest ∧
      joinOnto token tokens = .literal (front ++ back) :: rest) ∨
    ((∀ next ∈ tokens.head?, token.Apart next) ∧ joinOnto token tokens = token :: tokens) := by
  cases token with
  | field f => exact Or.inr ⟨fun next _ => trivial, rfl⟩
  | literal front =>
    cases tokens with
    | nil => exact Or.inr ⟨by simp, rfl⟩
    | cons next rest =>
      cases next with
      | field f =>
        refine Or.inr ⟨fun other hother => ?_, rfl⟩
        obtain rfl := Option.some.inj hother
        trivial
      | literal back => exact Or.inl ⟨front, back, rest, rfl, rfl, rfl⟩

theorem flatMap_render_joinLiterals (tokens : List Token) :
    (joinLiterals tokens).flatMap (fun token => token.render.toList) =
      tokens.flatMap fun token => token.render.toList := by
  induction tokens with
  | nil => rfl
  | cons token tokens ih =>
    rw [joinLiterals_cons, List.flatMap_cons, ← ih]
    rcases joinOnto_cases token (joinLiterals tokens) with
      ⟨front, back, rest, rfl, hrest, hjoin⟩ | ⟨-, hjoin⟩
    · rw [hjoin, hrest, List.flatMap_cons, List.flatMap_cons, render, render, render,
        String.toList_append, List.append_assoc]
    · rw [hjoin, List.flatMap_cons]

theorem isReadable_joinLiterals {tokens : List Token} (h : ∀ token ∈ tokens, token.IsReadable) :
    ∀ token ∈ joinLiterals tokens, token.IsReadable := by
  induction tokens with
  | nil => exact h
  | cons token tokens ih =>
    rw [List.forall_mem_cons] at h
    have hrest := ih h.2
    rw [joinLiterals_cons]
    rcases joinOnto_cases token (joinLiterals tokens) with
      ⟨front, back, rest, rfl, hback, hjoin⟩ | ⟨-, hjoin⟩
    · rw [hback, List.forall_mem_cons] at hrest
      rw [hjoin, List.forall_mem_cons]
      refine ⟨?_, hrest.2⟩
      rw [IsReadable, String.toList_append]
      exact h.1.append hrest.1
    · rw [hjoin, List.forall_mem_cons]
      exact ⟨h.1, hrest⟩

theorem isChain_joinLiterals (tokens : List Token) : (joinLiterals tokens).IsChain Apart := by
  induction tokens with
  | nil => exact .nil
  | cons token tokens ih =>
    rw [joinLiterals_cons]
    rcases joinOnto_cases token (joinLiterals tokens) with
      ⟨front, back, rest, rfl, hback, hjoin⟩ | ⟨hnext, hjoin⟩
    · rw [hback, List.isChain_cons] at ih
      rw [hjoin, List.isChain_cons]
      -- that a literal stands in front counts, not which
      refine ⟨fun next hnext => ?_, ih.2⟩
      cases next with
      | literal text => exact ih.1 _ hnext
      | field f => trivial
    · rw [hjoin, List.isChain_cons]
      exact ⟨hnext, ih⟩

theorem length_joinLiterals_le (tokens : List Token) :
    (joinLiterals tokens).length ≤ tokens.length := by
  induction tokens with
  | nil => exact Nat.le_refl _
  | cons token tokens ih =>
    rw [joinLiterals_cons]
    rcases joinOnto_cases token (joinLiterals tokens) with
      ⟨front, back, rest, -, hback, hjoin⟩ | ⟨-, hjoin⟩
    · rw [hback, List.length_cons] at ih
      rw [hjoin, List.length_cons, List.length_cons]
      omega
    · rw [hjoin, List.length_cons, List.length_cons]
      omega

/-- Tokens are as many as before only if none of them was joined. -/
theorem joinLiterals_eq_self_of_length {tokens : List Token}
    (h : (joinLiterals tokens).length = tokens.length) : joinLiterals tokens = tokens := by
  induction tokens with
  | nil => rfl
  | cons token tokens ih =>
    have hle := length_joinLiterals_le tokens
    rw [joinLiterals_cons] at h ⊢
    rcases joinOnto_cases token (joinLiterals tokens) with
      ⟨front, back, rest, -, hback, hjoin⟩ | ⟨-, hjoin⟩
    · rw [hback, List.length_cons] at hle
      rw [hjoin, List.length_cons, List.length_cons] at h
      omega
    · rw [hjoin, List.length_cons, List.length_cons, Nat.add_right_cancel_iff] at h
      rw [hjoin, ih h]

theorem joinLiterals_eq_self {tokens : List Token} (h : tokens.IsChain Apart) :
    joinLiterals tokens = tokens := by
  induction tokens with
  | nil => rfl
  | cons token tokens ih =>
    rw [List.isChain_cons] at h
    rw [joinLiterals_cons, ih h.2]
    rcases joinOnto_cases token tokens with ⟨front, back, rest, rfl, rfl, -⟩ | ⟨-, hjoin⟩
    · exact absurd (h.1 _ rfl) id
    · exact hjoin

end Token

/-! ### Patterns -/

namespace Pattern

/-- No two literals of a pattern stand side by side. -/
def LiteralsApart (p : Pattern) : Prop :=
  p.tokens.IsChain Token.Apart

theorem toList_render (p : Pattern) :
    p.render.toList = p.tokens.flatMap fun token => token.render.toList := by
  rw [render, String.toList_join, List.flatMap_map]

theorem isReadable_of_parse {text : String} {p : Pattern} (h : parse text = .ok p) :
    ∀ token ∈ p.tokens, token.IsReadable := by
  obtain ⟨fragments, hfragments, htokens⟩ := parse_eq_ok_iff.mp h
  intro token htoken
  obtain ⟨fragment, hmem, hfragment⟩ := (mem_iff_of_mapM_eq_ok htokens).mp htoken
  have hpiece := Fragment.isPiece_of_ofText hfragments fragment hmem
  exact Token.isReadable_of_ofFragment hpiece hfragment

theorem mapM_ofFragment {tokens : List Token} (h : ∀ token ∈ tokens, token.IsReadable)
    (pattern : String) :
    (tokens.map Token.fragment).mapM (Token.ofFragment pattern) = .ok tokens := by
  induction tokens with
  | nil => rfl
  | cons token tokens ih =>
    rw [List.forall_mem_cons] at h
    rw [List.map_cons, List.mapM_cons, Token.ofFragment_fragment h.1, ih h.2]
    rfl

/-- A pattern of tokens that can be read is read, when it is written, with its adjacent literals
joined. -/
theorem parse_render_of_isReadable {p : Pattern} (h : ∀ token ∈ p.tokens, token.IsReadable) :
    parse p.render = .ok ⟨Token.joinLiterals p.tokens⟩ := by
  have hreadable := Token.isReadable_joinLiterals h
  have happart : ((Token.joinLiterals p.tokens).map Token.fragment).IsChain Fragment.Apart := by
    rw [List.isChain_map]
    apply (Token.isChain_joinLiterals p.tokens).imp
    intro token next hapart
    cases token with
    | field f => exact fun hliteral => hliteral.elim
    | literal front =>
      cases next with
      | field f => exact fun _ hliteral => hliteral
      | literal back => exact hapart.elim
  refine parse_eq_ok_iff.mpr ⟨(Token.joinLiterals p.tokens).map Token.fragment, ?_,
    mapM_ofFragment hreadable _⟩
  apply Fragment.ofText_render _ happart
  · rw [toList_render, ← Token.flatMap_render_joinLiterals, List.flatMap_map]
    simp only [Token.toList_render]
  · intro fragment hfragment
    obtain ⟨token, htoken, rfl⟩ := List.mem_map.mp hfragment
    exact Token.isPiece_fragment (hreadable token htoken)

/-- A pattern that was read can be written and read again. -/
theorem parse_render {text : String} {p : Pattern} (h : parse text = .ok p) :
    parse p.render = .ok ⟨Token.joinLiterals p.tokens⟩ :=
  parse_render_of_isReadable (isReadable_of_parse h)

/-- Writing a pattern and reading it again keeps all of its tokens exactly if no two of its
literals stand side by side, and so it does with their expressions. -/
theorem reparse_eq_iff_literalsApart {text : String} {p : Pattern} (h : parse text = .ok p) :
    ∃ q, parse p.render = .ok q ∧ q.tokens = Token.joinLiterals p.tokens ∧
      (q.tokens = p.tokens ↔ p.LiteralsApart) ∧ (q.primitives = p.primitives ↔ p.LiteralsApart) := by
  have hself : Token.joinLiterals p.tokens = p.tokens ↔ p.LiteralsApart := by
    constructor
    · intro heq
      rw [LiteralsApart, ← heq]
      exact Token.isChain_joinLiterals p.tokens
    · exact Token.joinLiterals_eq_self
  refine ⟨_, parse_render h, rfl, hself, ?_⟩
  rw [← hself]
  constructor
  · intro hprimitives
    have hlength := congrArg List.length hprimitives
    rw [primitives, primitives, List.length_map, List.length_map] at hlength
    exact Token.joinLiterals_eq_self_of_length hlength
  · intro heq
    rw [primitives, heq, primitives]

theorem reparse_eq_iff_literalsApart_plate :
    parse " p{ row : di }_ { } s{f:c+}" =
        .ok ⟨[.literal "p", .field ⟨"row", .digit (.fixed 2)⟩, .literal "_", .literal "s",
          .field ⟨"f", .character .unbounded⟩]⟩ ∧
      ∃ q, parse "p{row:dd}_s{f:c+}" = .ok q ∧
        q.tokens = [.literal "p", .field ⟨"row", .digit (.fixed 2)⟩, .literal "_s",
          .field ⟨"f", .character .unbounded⟩] := by
  have h : parse " p{ row : di }_ { } s{f:c+}" =
      .ok ⟨[.literal "p", .field ⟨"row", .digit (.fixed 2)⟩, .literal "_", .literal "s",
        .field ⟨"f", .character .unbounded⟩]⟩ := by
    decide +kernel
  obtain ⟨q, hparse, htokens, -, -⟩ := reparse_eq_iff_literalsApart h
  have hrender : render ⟨[.literal "p", .field ⟨"row", .digit (.fixed 2)⟩, .literal "_",
      .literal "s", .field ⟨"f", .character .unbounded⟩]⟩ = "p{row:dd}_s{f:c+}" := by
    decide +kernel
  rw [hrender] at hparse
  exact ⟨h, q, hparse, htokens⟩

/-- A blank placeholder parts two literals, which are one when the pattern has been written. -/
theorem reparse_joins_literals :
    ∃ p q, parse "a{}b" = .ok p ∧ p.render = "ab" ∧ parse p.render = .ok q ∧
      p.tokens = [.literal "a", .literal "b"] ∧ q.tokens = [.literal "ab"] ∧
      p.primitives = ["a", "b"] ∧ q.primitives = ["ab"] :=
  ⟨⟨[.literal "a", .literal "b"]⟩, ⟨[.literal "ab"]⟩, by decide +kernel⟩

end Pattern

end PatternRename
