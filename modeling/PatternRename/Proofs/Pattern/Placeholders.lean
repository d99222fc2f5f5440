import Mathlib.Data.List.TakeWhile
import PatternRename.Pattern.Parser
import PatternRename.Proofs.Outcomes

/-!
# Placeholders

A placeholder is a name, a colon and a specifier. Of one that does not fit, the missing colon counts
first, then the missing name, then the specifier.

## Main definitions

- `FieldKind.IsSpecifier`, `FieldKind.Spelled` — the specifiers, and the kind of each
- `IsPlaceholder`, `Field.Reads` — the placeholders, and the field of each
- `PlaceholderFault` — what is wrong with a placeholder
- `Token.Reads` — the token that a fragment stands for

## Main results

- `FieldKind.ofSpec?_eq_some_iff` — a kind is read from its specifiers and from nothing else
- `Field.parse_eq_ok_iff`, `Field.parse_eq_error_iff` — the outcome for every placeholder
- `Token.ofFragment_eq_ok_iff`, `Token.ofFragment_eq_error_iff` — the outcome for every fragment
-/

namespace PatternRename

/-! ### Specifiers -/

namespace FieldKind

/-- A letter and a plus, or a word of `d` and `i` or one of `c`. -/
def IsSpecifier (word : List Char) : Prop :=
  word ∈ [['d', '+'], ['i', '+'], ['c', '+'], ['f', '+']] ∨
    word ≠ [] ∧ ((∀ c ∈ word, c = 'd' ∨ c = 'i') ∨ ∀ c ∈ word, c = 'c')

/-- The kind that a specifier stands for. -/
inductive Spelled : List Char → FieldKind → Prop where
  | digits : Spelled ['d', '+'] (.digit .unbounded)
  | integers : Spelled ['i', '+'] (.integer .unbounded)
  | characters : Spelled ['c', '+'] (.character .unbounded)
  | float : Spelled ['f', '+'] .float
  | integerWord {word : List Char} (hne : word ≠ []) (h : ∀ c ∈ word, c = 'i') :
      Spelled word (.integer (.fixed word.length))
  | digitWord {word : List Char} (h : ∀ c ∈ word, c = 'd' ∨ c = 'i') (hdigit : 'd' ∈ word) :
      Spelled word (.digit (.fixed word.length))
  | characterWord {word : List Char} (hne : word ≠ []) (h : ∀ c ∈ word, c = 'c') :
      Spelled word (.character (.fixed word.length))

theorem isSpecifier_iff {word : List Char} : IsSpecifier word ↔ ∃ kind, Spelled word kind := by
  constructor
  · rintro (hplus | ⟨hne, hword | hword⟩)
    · simp only [List.mem_cons, List.not_mem_nil, or_false] at hplus
      rcases hplus with rfl | rfl | rfl | rfl
      · exact ⟨_, .digits⟩
      · exact ⟨_, .integers⟩
      · exact ⟨_, .characters⟩
      · exact ⟨_, .float⟩
    · by_cases hdigit : 'd' ∈ word
      · exact ⟨_, .digitWord hword hdigit⟩
      · refine ⟨_, .integerWord hne fun c hc => (hword c hc).resolve_left ?_⟩
        rintro rfl
        exact hdigit hc
    · exact ⟨_, .characterWord hne hword⟩
  · rintro ⟨kind, h⟩
    cases h with
    | digits | integers | characters | float => exact Or.inl (by simp)
    | integerWord hne h => exact Or.inr ⟨hne, Or.inl fun c hc => Or.inr (h c hc)⟩
    | digitWord h hdigit => exact Or.inr ⟨List.ne_nil_of_mem hdigit, Or.inl h⟩
    | characterWord hne h => exact Or.inr ⟨hne, Or.inr h⟩

theorem spelled_of_ofSpec? {spec : String} {kind : FieldKind} (h : ofSpec? spec = some kind) :
    Spelled spec.toList kind := by
  rw [ofSpec?] at h
  split at h
  · simp at h
  · rename_i hword
    exact Option.some.inj h ▸ hword ▸ .digits
  · rename_i hword
    exact Option.some.inj h ▸ hword ▸ .integers
  · rename_i hword
    exact Option.some.inj h ▸ hword ▸ .characters
  · rename_i hword
    exact Option.some.inj h ▸ hword ▸ .float
  · rename_i hne _ _ _ _
    simp only [List.all_eq_true, beq_iff_eq, Bool.or_eq_true] at h
    split at h
    · rename_i hall
      exact Option.some.inj h ▸ .integerWord hne hall
    · rename_i hnot
      split at h
      · rename_i hall
        -- a word that is not of `i` alone has a `d`
        have hdigit : 'd' ∈ spec.toList := by
          by_contra hnone
          refine hnot fun c hc => (hall c hc).resolve_left ?_
          rintro rfl
          exact hnone hc
        exact Option.some.inj h ▸ .digitWord hall hdigit
      · split at h
        · rename_i hall
          exact Option.some.inj h ▸ .characterWord hne hall
        · simp at h

/-- A specifier without a plus is read letter by letter. -/
theorem ofSpec?_of_plus_not_mem {spec : String} (hne : spec.toList ≠ [])
    (hplus : '+' ∉ spec.toList) :
    ofSpec? spec =
      if spec.toList.all (· == 'i') then some (.integer (.fixed spec.toList.length))
      else if spec.toList.all (fun c => c == 'd' || c == 'i') then
        some (.digit (.fixed spec.toList.length))
      else if spec.toList.all (· == 'c') then some (.character (.fixed spec.toList.length))
      else none := by
  rw [ofSpec?]
  split
  case h_1 hnil => exact absurd hnil hne
  case h_6 => rfl
  all_goals
    rename_i hword
    rw [hword] at hplus
    simp at hplus

theorem ofSpec?_of_spelled {spec : String} {kind : FieldKind} (h : Spelled spec.toList kind) :
    ofSpec? spec = some kind := by
  generalize hword : spec.toList = word at h
  have hplus : (∀ c ∈ word, c = 'd' ∨ c = 'i' ∨ c = 'c') → '+' ∉ spec.toList := by
    intro hletters hmem
    rw [hword] at hmem
    exact absurd (hletters _ hmem) (by decide)
  cases h with
  | digits | integers | characters | float =>
    rw [ofSpec?, hword]
    rfl
  | integerWord hne h =>
    rw [ofSpec?_of_plus_not_mem (hword ▸ hne) (hplus fun c hc => .inr (.inl (h c hc))), hword,
      if_pos (by simpa using h)]
  | digitWord h hdigit =>
    have hmixed : ¬ word.all (· == 'i') = true := by
      intro hall
      exact absurd (List.all_eq_true.mp hall _ hdigit) (by decide)
    rw [ofSpec?_of_plus_not_mem (hword ▸ List.ne_nil_of_mem hdigit)
      (hplus fun c hc => (h c hc).imp_right .inl), hword, if_neg hmixed,
      if_pos (by simpa using h)]
  | characterWord hne h =>
    obtain ⟨c, rest, rfl⟩ := List.exists_cons_of_ne_nil hne
    obtain rfl := h c List.mem_cons_self
    rw [ofSpec?_of_plus_not_mem (hword ▸ hne) (hplus fun c hc => .inr (.inr (h c hc))), hword,
      if_neg (by simp), if_neg (by simp), if_pos (by simpa using h)]

/-- A kind is read from its specifiers and from nothing else. -/
theorem ofSpec?_eq_some_iff {spec : String} {kind : FieldKind} :
    ofSpec? spec = some kind ↔ Spelled spec.toList kind :=
  ⟨spelled_of_ofSpec?, ofSpec?_of_spelled⟩

theorem ofSpec?_eq_none_iff {spec : String} :
    ofSpec? spec = none ↔ ¬ IsSpecifier spec.toList := by
  rw [isSpecifier_iff, not_exists, Option.eq_none_iff_forall_not_mem]
  exact forall_congr' fun kind => not_congr ofSpec?_eq_some_iff

/-- A specifier has a letter for each character of a fixed width. -/
theorem Spelled.width_pos {word : List Char} {kind : FieldKind} (h : Spelled word kind) {n : Nat}
    (hwidth : kind.width = .fixed n) : 0 < n := by
  cases h with
  | digits | integers | characters | float => exact Width.noConfusion hwidth
  | integerWord hne | characterWord hne =>
    exact Width.fixed.inj hwidth ▸ List.length_pos_iff.mpr hne
  | digitWord _ hdigit => exact Width.fixed.inj hwidth ▸ List.length_pos_of_mem hdigit

end FieldKind

/-! ### Placeholders -/

/-- The inside of a placeholder: a name, the first colon and a specifier, with blanks around the
name and the specifier. -/
def IsPlaceholder (inside : List Char) : Prop :=
  ∃ name spec, inside = name ++ ':' :: spec ∧ ':' ∉ name ∧ Text.trim name ≠ [] ∧
    FieldKind.IsSpecifier (Text.trim spec)

/-- The field that the inside of a placeholder stands for. -/
def Field.Reads (f : Field) (inside : List Char) : Prop :=
  ∃ name spec, inside = name ++ ':' :: spec ∧ ':' ∉ name ∧ Text.trim name ≠ [] ∧
    f.name = String.ofList (Text.trim name) ∧ FieldKind.Spelled (Text.trim spec) f.kind

/-- What is wrong with a placeholder of a pattern. -/
inductive PlaceholderFault (pattern inside : String) : Failure → Prop where
  | missingSeparator (h : ':' ∉ inside.toList) :
      PlaceholderFault pattern inside (.malformedPattern pattern (.missingSeparator inside))
  | missingName {name spec : List Char} (hinside : inside.toList = name ++ ':' :: spec)
      (hcolon : ':' ∉ name) (hname : Text.trim name = []) :
      PlaceholderFault pattern inside (.malformedPattern pattern (.missingName inside))
  | unsupported {name spec : List Char} (hinside : inside.toList = name ++ ':' :: spec)
      (hcolon : ':' ∉ name) (hname : Text.trim name ≠ [])
      (hspec : ¬ FieldKind.IsSpecifier (Text.trim spec)) :
      PlaceholderFault pattern inside
        (.unsupportedFieldType (String.ofList (Text.trim name)) (String.ofList (Text.trim spec)))

theorem isPlaceholder_iff {inside : List Char} :
    IsPlaceholder inside ↔ ∃ f, Field.Reads f inside := by
  constructor
  · rintro ⟨name, spec, hinside, hcolon, hname, hspec⟩
    obtain ⟨kind, hkind⟩ := FieldKind.isSpecifier_iff.mp hspec
    exact ⟨⟨String.ofList (Text.trim name), kind⟩, name, spec, hinside, hcolon, hname, rfl, hkind⟩
  · rintro ⟨f, name, spec, hinside, hcolon, hname, -, hspec⟩
    exact ⟨name, spec, hinside, hcolon, hname, FieldKind.isSpecifier_iff.mpr ⟨_, hspec⟩⟩

theorem splitAtColon?_append {name : List Char} (h : ':' ∉ name) (spec : List Char) :
    splitAtColon? (name ++ ':' :: spec) = some (name, spec) := by
  have hname : ∀ c ∈ name, (c != ':') = true := by
    intro c hc
    rw [bne_iff_ne]
    rintro rfl
    exact h hc
  rw [splitAtColon?, List.dropWhile_append_of_pos hname, List.takeWhile_append_of_pos hname]
  simp

namespace Field

variable {pattern inside : String}

theorem parse_of_colon_not_mem (h : ':' ∉ inside.toList) :
    parse pattern inside = .error (.malformedPattern pattern (.missingSeparator inside)) := by
  have hall : ∀ c ∈ inside.toList, (c != ':') = true := by
    intro c hc
    rw [bne_iff_ne]
    rintro rfl
    exact h hc
  rw [parse, splitAtColon?, List.dropWhile_eq_nil_iff.mpr hall]

/-- The outcome for a placeholder with a colon, by what stands in front of it and behind it. -/
theorem parse_of_colon {name spec : List Char} (hinside : inside.toList = name ++ ':' :: spec)
    (hcolon : ':' ∉ name) :
    parse pattern inside =
      if Text.trim name = [] then .error (.malformedPattern pattern (.missingName inside))
      else (FieldKind.parse (String.ofList (Text.trim name)) (String.ofList (Text.trim spec))).map
        fun kind => ⟨String.ofList (Text.trim name), kind⟩ := by
  rw [parse, hinside, splitAtColon?_append hcolon]
  dsimp only
  cases Text.trim name with
  | nil => rfl
  | cons c rest =>
    rw [if_neg (List.cons_ne_nil c rest)]
    dsimp only
    cases FieldKind.parse (String.ofList (c :: rest)) (String.ofList (Text.trim spec)) <;> rfl

/-- A placeholder has no colon, or a first one. -/
theorem colon_cases (inside : List Char) :
    ':' ∉ inside ∨ ∃ name spec, inside = name ++ ':' :: spec ∧ ':' ∉ name := by
  by_cases h : ':' ∈ inside
  · exact Or.inr (List.eq_append_cons_of_mem h)
  · exact Or.inl h

theorem parse_eq_ok_of_reads {f : Field} (h : f.Reads inside.toList) :
    parse pattern inside = .ok f := by
  obtain ⟨name, spec, hinside, hcolon, hname, hfield, hspec⟩ := h
  rw [← String.toList_ofList (l := Text.trim spec)] at hspec
  rw [parse_of_colon hinside hcolon, if_neg hname, FieldKind.parse,
    FieldKind.ofSpec?_of_spelled hspec, ← hfield]
  rfl

theorem parse_eq_error_of_fault {failure : Failure} (h : PlaceholderFault pattern inside failure) :
    parse pattern inside = .error failure := by
  cases h with
  | missingSeparator h => exact parse_of_colon_not_mem h
  | missingName hinside hcolon hname => rw [parse_of_colon hinside hcolon, if_pos hname]
  | @unsupported name spec hinside hcolon hname hspec =>
    rw [← String.toList_ofList (l := Text.trim spec), ← FieldKind.ofSpec?_eq_none_iff] at hspec
    rw [parse_of_colon hinside hcolon, if_neg hname, FieldKind.parse, hspec]
    rfl

/-- The inside of every placeholder stands for a field, or something is wrong with it. -/
theorem exists_reads_or_fault (pattern inside : String) :
    (∃ f : Field, f.Reads inside.toList) ∨
      ∃ failure, PlaceholderFault pattern inside failure := by
  rcases colon_cases inside.toList with hnone | ⟨name, spec, hinside, hcolon⟩
  · exact Or.inr ⟨_, .missingSeparator hnone⟩
  · by_cases hname : Text.trim name = []
    · exact Or.inr ⟨_, .missingName hinside hcolon hname⟩
    · by_cases hspec : FieldKind.IsSpecifier (Text.trim spec)
      · exact Or.inl (isPlaceholder_iff.mp ⟨name, spec, hinside, hcolon, hname, hspec⟩)
      · exact Or.inr ⟨_, .unsupported hinside hcolon hname hspec⟩

theorem parse_eq_ok_iff {f : Field} : parse pattern inside = .ok f ↔ f.Reads inside.toList := by
  refine ⟨fun h => ?_, parse_eq_ok_of_reads⟩
  rcases exists_reads_or_fault pattern inside with ⟨g, hg⟩ | ⟨failure, hfault⟩
  · obtain rfl : g = f := Except.ok.inj ((parse_eq_ok_of_reads hg).symm.trans h)
    exact hg
  · exact absurd ((parse_eq_error_of_fault hfault).symm.trans h) (by simp)

theorem parse_eq_error_iff {failure : Failure} :
    parse pattern inside = .error failure ↔ PlaceholderFault pattern inside failure := by
  refine ⟨fun h => ?_, parse_eq_error_of_fault⟩
  rcases exists_reads_or_fault pattern inside with ⟨f, hf⟩ | ⟨other, hfault⟩
  · exact absurd ((parse_eq_ok_of_reads hf).symm.trans h) (by simp)
  · obtain rfl : other = failure :=
      Except.error.inj ((parse_eq_error_of_fault hfault).symm.trans h)
    exact hfault

end Field

/-! ### Fragments -/

/-- The token that a fragment stands for. -/
inductive Token.Reads : Fragment → Token → Prop where
  | literal (text : String) : Reads (.literal text) (.literal text)
  | field {inside : String} {f : Field} (h : f.Reads inside.toList) :
      Reads (.placeholder inside) (.field f)

theorem Token.ofFragment_eq_ok_iff {pattern : String} {fragment : Fragment} {token : Token} :
    ofFragment pattern fragment = .ok token ↔ Token.Reads fragment token := by
  cases fragment with
  | literal text =>
    rw [ofFragment, Except.ok.injEq]
    constructor
    · rintro rfl
      exact .literal text
    · rintro ⟨⟩
      rfl
  | placeholder inside =>
    simp only [ofFragment, map_eq_ok_iff, Field.parse_eq_ok_iff]
    constructor
    · rintro ⟨f, hf, rfl⟩
      exact .field hf
    · rintro (_ | ⟨hf⟩)
      exact ⟨_, hf, rfl⟩

/-- A fragment that stands for a token: a literal, or a placeholder that fits the grammar. -/
theorem Token.exists_ofFragment_iff {pattern : String} {fragment : Fragment} :
    (∃ token, ofFragment pattern fragment = .ok token) ↔
      ∀ inside, fragment = .placeholder inside → IsPlaceholder inside.toList := by
  cases fragment with
  | literal text => simp [ofFragment]
  | placeholder inside =>
    simp only [ofFragment, map_eq_ok_iff, Field.parse_eq_ok_iff, Fragment.placeholder.injEq,
      forall_eq', isPlaceholder_iff]
    constructor
    · rintro ⟨-, f, hf, rfl⟩
      exact ⟨f, hf⟩
    · rintro ⟨f, hf⟩
      exact ⟨_, f, hf, rfl⟩

theorem Token.ofFragment_eq_error_iff {pattern : String} {fragment : Fragment}
    {failure : Failure} :
    ofFragment pattern fragment = .error failure ↔
      ∃ inside, fragment = .placeholder inside ∧ PlaceholderFault pattern inside failure := by
  cases fragment with
  | literal text => simp [ofFragment]
  | placeholder inside => simp [ofFragment, map_eq_error_iff, Field.parse_eq_error_iff]

end PatternRename
