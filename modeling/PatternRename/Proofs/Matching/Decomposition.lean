import Mathlib.Data.List.Forall2
import PatternRename.Proofs.Matching.Language

/-!
# Decompositions of a name

A decomposition of a name is a text before, one value for each field of a pattern with the
literals in their places, and a text behind. The match of a pattern in a name is the decomposition
that begins first and, among those, gives the first field as much as it can have, then the second,
and so on.

## Main definitions

- `Pattern.fill` — the text of tokens with values in the places of the fields
- `Pattern.Decomposes` — the ways in which a name can be read with a pattern
- `Match.NoWorseThan` — the order of preference among them
- `Pattern.Takes` — the lengths that tokens may take one after the other

## Main results

- `Pattern.Decomposes.of_find?` — a match is a decomposition
- `Pattern.Decomposes.exists_find?` — every decomposition is no better than the match
- `Pattern.find?_eq_some_iff`, `Pattern.find?_eq_none_iff` — the match in terms of decompositions
- `Pattern.find?_fill_append` — a name that a pattern of fixed width makes is read as it was made
-/

namespace PatternRename

namespace Pattern

/-! ### Reading a name with a pattern -/

/-- The text of tokens, with values in the places of the fields. -/
def fill : List Token → List String → String
  | [], _ => ""
  | .literal text :: tokens, values => text ++ fill tokens values
  | .field _ :: tokens, value :: values => value ++ fill tokens values
  | .field _ :: tokens, [] => fill tokens []

/-- One value for each field among tokens, of the kind of this field. -/
def Fits (tokens : List Token) (values : List String) : Prop :=
  List.Forall₂ (fun (f : Field) (value : String) => f.kind.Admits value.toList)
    (tokens.filterMap Token.field?) values

/-- A reading of a name with a pattern: a text before, a value for each field and a text behind,
which make up the name. -/
structure Decomposes (p : Pattern) (filename : String) (m : Match) : Prop where
  fits : Fits p.tokens m.values
  text_eq : filename = m.before ++ fill p.tokens m.values ++ m.after

end Pattern

/-- A reading that begins before another, or that begins at the same place and gives the first
field on which they differ more characters, or the same reading. -/
def Match.NoWorseThan (m other : Match) : Prop :=
  m.before.length < other.before.length ∨
    m.before.length = other.before.length ∧
      other.values.map String.length ≤ m.values.map String.length

theorem cons_le_cons_iff {n m : Nat} {ns ms : List Nat} :
    n :: ns ≤ m :: ms ↔ n < m ∨ n = m ∧ ns ≤ ms := by
  rw [← not_lt, ← not_lt (a := ms), List.cons_lt_cons_iff]
  by_cases hlt : m < n
  · simp [hlt, Nat.not_lt.mpr hlt.le, hlt.ne']
  · by_cases heq : n = m
    · simp [heq]
    · simp [hlt, heq, Ne.symm heq]
      omega

namespace Pattern

theorem fits_nil_iff {values : List String} : Fits [] values ↔ values = [] := by
  rw [Fits, List.filterMap_nil, List.forall₂_nil_left_iff]

theorem fits_literal_iff {word : String} {tokens : List Token} {values : List String} :
    Fits (.literal word :: tokens) values ↔ Fits tokens values := by
  rw [Fits, List.filterMap_cons_none rfl, Fits]

theorem fits_field_iff {f : Field} {tokens : List Token} {values : List String} :
    Fits (.field f :: tokens) values ↔
      ∃ value later, values = value :: later ∧ f.kind.Admits value.toList ∧ Fits tokens later := by
  have hfield : (Token.field f).field? = some f := rfl
  rw [Fits, List.filterMap_cons_some hfield, List.forall₂_cons_left_iff]
  constructor
  · rintro ⟨value, later, hadmits, hlater, rfl⟩
    exact ⟨value, later, rfl, hadmits, hlater⟩
  · rintro ⟨value, later, rfl, hadmits, hlater⟩
    exact ⟨value, later, hadmits, hlater, rfl⟩

/-! ### Lengths one after the other -/

/-- The lengths that tokens may take one after the other at the start of a text. -/
inductive Takes : List Token → List Nat → List Char → Prop
  | nil (text : List Char) : Takes [] [] text
  | cons {token : Token} {tokens : List Token} {n : Nat} {lengths : List Nat} {text : List Char} :
    n ∈ token.lengths text → Takes tokens lengths (text.drop n) →
      Takes (token :: tokens) (n :: lengths) text

theorem Takes.of_matchAt {tokens : List Token} {lengths : List Nat} {text : List Char}
    (h : matchAt tokens text = some lengths) : Takes tokens lengths text := by
  induction tokens generalizing lengths text with
  | nil =>
    obtain rfl : [] = lengths := by simpa [matchAt] using h
    exact Takes.nil text
  | cons token tokens ih =>
    rw [matchAt] at h
    obtain ⟨n, hn, hmap⟩ := List.exists_of_findSome?_eq_some h
    obtain ⟨later, hlater, rfl⟩ := Option.map_eq_some_iff.mp hmap
    exact Takes.cons hn (ih hlater)

/-- Among candidates that come largest first, a search stops no later than at one that succeeds. -/
theorem exists_findSome?_of_mem {candidates : List Nat} {f : Nat → Option (List Nat)}
    (hsorted : candidates.Pairwise (· > ·)) {m : Nat} (hm : m ∈ candidates)
    {answer : List Nat} (hf : f m = some answer) :
    ∃ n found, candidates.findSome? f = some found ∧ f n = some found ∧ m ≤ n := by
  induction candidates with
  | nil => simp at hm
  | cons n rest ih =>
    obtain ⟨hfirst, hrest⟩ := List.pairwise_cons.mp hsorted
    rw [List.findSome?_cons]
    cases hn : f n with
    | some found =>
      refine ⟨n, found, rfl, hn, ?_⟩
      rcases List.mem_cons.mp hm with rfl | hmem
      · exact le_rfl
      · exact le_of_lt (hfirst m hmem)
    | none =>
      rcases List.mem_cons.mp hm with rfl | hmem
      · rw [hn] at hf
        exact absurd hf (by simp)
      · exact ih hrest hmem

/-- Whatever tokens may take, they match, and the match takes no less. -/
theorem Takes.exists_matchAt {tokens : List Token} {lengths : List Nat} {text : List Char}
    (h : Takes tokens lengths text) : ∃ best, matchAt tokens text = some best ∧ lengths ≤ best := by
  induction h with
  | nil text => exact ⟨[], rfl, le_rfl⟩
  | @cons token tokens m lengths text hm _ ih =>
    obtain ⟨best, hbest, hle⟩ := ih
    obtain ⟨n, found, hfound, hn, hmn⟩ :=
      exists_findSome?_of_mem (f := fun n => (matchAt tokens (text.drop n)).map (n :: ·))
        (token.pairwise_lengths text) hm (by rw [hbest]; rfl)
    obtain ⟨later, hlater, rfl⟩ := Option.map_eq_some_iff.mp hn
    refine ⟨n :: later, hfound, ?_⟩
    -- a longer first stretch decides, and behind an equal one the rest does
    rcases lt_or_eq_of_le hmn with hlt | rfl
    · exact cons_le_cons_iff.mpr (Or.inl hlt)
    · obtain rfl : best = later := Option.some.inj (hbest.symm.trans hlater)
      exact cons_le_cons_iff.mpr (Or.inr ⟨rfl, hle⟩)

/-! ### Lengths and values -/

def spans : List Token → List String → List Nat
  | [], _ => []
  | .literal text :: tokens, values => text.length :: spans tokens values
  | .field _ :: tokens, value :: values => value.length :: spans tokens values
  | .field _ :: tokens, [] => 0 :: spans tokens []

/-- Values that fit can be taken from the text that they make. -/
theorem Fits.takes_spans {tokens : List Token} {values : List String} (h : Fits tokens values)
    (rest : List Char) :
    Takes tokens (spans tokens values) ((fill tokens values).toList ++ rest) := by
  induction tokens generalizing values with
  | nil => exact Takes.nil _
  | cons token tokens ih =>
    cases token with
    | literal word =>
      rw [fits_literal_iff] at h
      rw [spans, fill, String.toList_append, List.append_assoc, ← String.length_toList]
      refine Takes.cons ?_ ?_
      · exact (Token.mem_lengths_literal_iff word _ _).mpr ⟨rfl, _, rfl⟩
      · rw [List.drop_left]
        exact ih h
    | field f =>
      obtain ⟨value, later, rfl, hadmits, hlater⟩ := fits_field_iff.mp h
      rw [spans, fill, String.toList_append, List.append_assoc, ← String.length_toList]
      refine Takes.cons ?_ ?_
      · refine (f.kind.mem_lengths_iff _ _).mpr ⟨by simp, ?_⟩
        rwa [List.take_left]
      · rw [List.drop_left]
        exact ih hlater

/-- Values that fit are read back from the text that they make. -/
theorem Fits.fieldValues_spans {tokens : List Token} {values : List String}
    (h : Fits tokens values) (rest : List Char) :
    fieldValues tokens (spans tokens values) ((fill tokens values).toList ++ rest) = values := by
  induction tokens generalizing values with
  | nil =>
    rw [fits_nil_iff] at h
    rw [h]
    rfl
  | cons token tokens ih =>
    cases token with
    | literal word =>
      rw [fits_literal_iff] at h
      rw [spans, fill, String.toList_append, List.append_assoc, ← String.length_toList, fieldValues,
        List.drop_left]
      exact ih h
    | field f =>
      obtain ⟨value, later, rfl, -, hlater⟩ := fits_field_iff.mp h
      rw [spans, fill, String.toList_append, List.append_assoc, ← String.length_toList, fieldValues,
        List.drop_left, List.take_left, String.ofList_toList]
      exact congrArg (value :: ·) (ih hlater)

theorem Takes.fits {tokens : List Token} {lengths : List Nat} {text : List Char}
    (h : Takes tokens lengths text) : Fits tokens (fieldValues tokens lengths text) := by
  induction h with
  | nil text => exact fits_nil_iff.mpr rfl
  | @cons token tokens n lengths text hn _ ih =>
    cases token with
    | literal word => exact fits_literal_iff.mpr ih
    | field f =>
      refine fits_field_iff.mpr ⟨String.ofList (text.take n), _, rfl, ?_, ih⟩
      rw [String.toList_ofList]
      exact ((f.kind.mem_lengths_iff _ _).mp hn).2

/-- What tokens take has the lengths that they take. -/
theorem Takes.spans_fieldValues {tokens : List Token} {lengths : List Nat} {text : List Char}
    (h : Takes tokens lengths text) : spans tokens (fieldValues tokens lengths text) = lengths := by
  induction h with
  | nil text => rfl
  | @cons token tokens n lengths text hn _ ih =>
    cases token with
    | literal word =>
      obtain ⟨rfl, -⟩ := (Token.mem_lengths_literal_iff word _ _).mp hn
      rw [fieldValues, spans, ih, String.length_toList]
    | field f =>
      have hle := ((f.kind.mem_lengths_iff _ _).mp hn).1
      rw [fieldValues, spans, ih, String.length_ofList, List.length_take, Nat.min_eq_left hle]

/-- What tokens take, with the literals in their places, is the start of the text. -/
theorem Takes.fill_append_drop {tokens : List Token} {lengths : List Nat} {text : List Char}
    (h : Takes tokens lengths text) :
    (fill tokens (fieldValues tokens lengths text)).toList ++
      remainder lengths text = text := by
  induction h with
  | nil text => rfl
  | @cons token tokens n lengths text hn _ ih =>
    rw [remainder, List.foldl_cons, ← remainder]
    cases token with
    | literal word =>
      obtain ⟨rfl, rest, rfl⟩ := (Token.mem_lengths_literal_iff word _ _).mp hn
      rw [fieldValues, fill, String.toList_append, List.append_assoc, ih, List.drop_left]
    | field f =>
      rw [fieldValues, fill, String.toList_append, List.append_assoc, ih, String.toList_ofList,
        List.take_append_drop]

/-- Lengths of tokens compare as the lengths of the values do. -/
theorem Fits.spans_le_spans_iff {tokens : List Token} {values others : List String}
    (h : Fits tokens values) (hothers : Fits tokens others) :
    spans tokens values ≤ spans tokens others ↔
      values.map String.length ≤ others.map String.length := by
  induction tokens generalizing values others with
  | nil =>
    rw [fits_nil_iff] at h hothers
    rw [h, hothers]
    rfl
  | cons token tokens ih =>
    cases token with
    | literal word =>
      rw [fits_literal_iff] at h hothers
      rw [spans, spans, cons_le_cons_iff, ← ih h hothers]
      simp
    | field f =>
      obtain ⟨value, later, rfl, -, hlater⟩ := fits_field_iff.mp h
      obtain ⟨other, laterOthers, rfl, -, hlaterOthers⟩ := fits_field_iff.mp hothers
      rw [spans, spans, List.map_cons, List.map_cons, cons_le_cons_iff, cons_le_cons_iff,
        ih hlater hlaterOthers]

/-- Values of the same lengths that are taken from the same text are the same. -/
theorem Fits.eq_of_map_length_eq {tokens : List Token} {values others : List String}
    (h : Fits tokens values) (hothers : Fits tokens others)
    (hlength : values.map String.length = others.map String.length) {rest restOthers : List Char}
    (htext : (fill tokens values).toList ++ rest = (fill tokens others).toList ++ restOthers) :
    values = others := by
  have hspans : spans tokens values = spans tokens others :=
    le_antisymm ((h.spans_le_spans_iff hothers).mpr hlength.le)
      ((hothers.spans_le_spans_iff h).mpr hlength.ge)
  rw [← h.fieldValues_spans rest, htext, hspans, hothers.fieldValues_spans]

/-! ### The first place of a match -/

theorem firstEntry_eq_some_iff {place start : Nat} {table : Table} {lengths : List Nat} :
    firstEntry place table = some (start, lengths) ↔
      ∃ i, start = place + i ∧ table[i]? = some (some lengths) ∧
        ∀ k < i, table[k]? = some none := by
  induction table generalizing place with
  | nil => simp [firstEntry]
  | cons entry table ih =>
    cases entry with
    | some found =>
      rw [firstEntry, Option.some.injEq, Prod.mk.injEq]
      constructor
      · rintro ⟨rfl, rfl⟩
        exact ⟨0, rfl, rfl, fun k hk => absurd hk (Nat.not_lt_zero k)⟩
      · rintro ⟨i, rfl, hi, hbefore⟩
        cases i with
        | zero => exact ⟨rfl, by simpa using hi⟩
        | succ i => simpa using hbefore 0 (Nat.succ_pos i)
    | none =>
      rw [firstEntry, ih]
      constructor
      · rintro ⟨i, rfl, hi, hbefore⟩
        refine ⟨i + 1, by omega, hi, ?_⟩
        intro k hk
        cases k with
        | zero => rfl
        | succ k => exact hbefore k (by omega)
      · rintro ⟨i, rfl, hi, hbefore⟩
        cases i with
        | zero => simp at hi
        | succ i => exact ⟨i, by omega, hi, fun k hk => hbefore (k + 1) (by omega)⟩

theorem firstEntry_eq_none_iff {place : Nat} {table : Table} :
    firstEntry place table = none ↔ ∀ entry ∈ table, entry = none := by
  induction table generalizing place with
  | nil => simp [firstEntry]
  | cons entry table ih => cases entry <;> simp [firstEntry, ih]

/-- The place of a match is the first one at which the tokens match. -/
theorem locate?_eq_some_iff {tokens : List Token} {text : List Char} {start : Nat}
    {lengths : List Nat} :
    locate? tokens text = some (start, lengths) ↔
      start ≤ text.length ∧ matchAt tokens (text.drop start) = some lengths ∧
        ∀ k < start, matchAt tokens (text.drop k) = none := by
  have hentry : ∀ i, (matchTable text tokens)[i]? =
      if i ≤ text.length then some (matchAt tokens (text.drop i)) else none := by
    intro i
    rw [matchTable_eq, List.getElem?_map, getElem?_suffixes]
    split <;> rfl
  rw [locate?, firstEntry_eq_some_iff]
  constructor
  · rintro ⟨i, rfl, hi, hbefore⟩
    rw [Nat.zero_add]
    rw [hentry] at hi
    by_cases hle : i ≤ text.length
    · rw [if_pos hle, Option.some.injEq] at hi
      refine ⟨hle, hi, ?_⟩
      intro k hk
      have := hbefore k hk
      rwa [hentry, if_pos (by omega), Option.some.injEq] at this
    · rw [if_neg hle] at hi
      exact absurd hi (by simp)
  · rintro ⟨hle, hmatch, hbefore⟩
    refine ⟨start, (Nat.zero_add start).symm, ?_, ?_⟩
    · rw [hentry, if_pos hle, hmatch]
    · intro k hk
      rw [hentry, if_pos (by omega), hbefore k hk]

theorem locate?_eq_none_iff {tokens : List Token} {text : List Char} :
    locate? tokens text = none ↔ ∀ k ≤ text.length, matchAt tokens (text.drop k) = none := by
  rw [locate?, firstEntry_eq_none_iff, matchTable_eq, List.forall_mem_map]
  constructor
  · intro h k hk
    refine h (text.drop k) (List.mem_of_getElem? (i := k) ?_)
    rw [getElem?_suffixes, if_pos hk]
  · intro h left hleft
    obtain ⟨k, hk⟩ := List.mem_iff_getElem?.mp hleft
    rw [getElem?_suffixes] at hk
    split at hk
    · rename_i hle
      obtain rfl := Option.some.inj hk
      exact h k hle
    · exact absurd hk (by simp)

/-! ### Matches and readings -/

/-- A match is a reading of the name. -/
theorem Decomposes.of_find? {p : Pattern} {filename : String} {m : Match}
    (h : p.find? filename = some m) : p.Decomposes filename m := by
  rw [find?] at h
  split at h
  · exact absurd h (by simp)
  · rename_i start lengths hlocate
    obtain ⟨-, hmatch, -⟩ := locate?_eq_some_iff.mp hlocate
    have htakes := Takes.of_matchAt hmatch
    obtain rfl := Option.some.inj h
    refine ⟨htakes.fits, ?_⟩
    rw [← String.toList_inj, String.toList_append, String.toList_append, String.toList_ofList,
      String.toList_ofList, List.append_assoc, htakes.fill_append_drop, List.take_append_drop]

theorem Decomposes.toList_eq {p : Pattern} {filename : String} {m : Match}
    (h : p.Decomposes filename m) :
    filename.toList = m.before.toList ++ ((fill p.tokens m.values).toList ++ m.after.toList) := by
  rw [h.text_eq, String.toList_append, String.toList_append, List.append_assoc]

/-- The tokens match where a reading begins, and they take no less there. -/
theorem Decomposes.exists_matchAt {p : Pattern} {filename : String} {m : Match}
    (h : p.Decomposes filename m) :
    m.before.length ≤ filename.toList.length ∧
      ∃ best, matchAt p.tokens (filename.toList.drop m.before.length) = some best ∧
        spans p.tokens m.values ≤ best := by
  rw [h.toList_eq, ← String.length_toList, List.drop_left]
  exact ⟨by simp, (h.fits.takes_spans m.after.toList).exists_matchAt⟩

/-- A name that can be read with a pattern has a match, and the match is no worse than the
reading. -/
theorem Decomposes.exists_find? {p : Pattern} {filename : String} {other : Match}
    (h : p.Decomposes filename other) :
    ∃ m, p.find? filename = some m ∧ m.NoWorseThan other := by
  obtain ⟨hle, best, hbest, hspans⟩ := h.exists_matchAt
  cases hlocate : locate? p.tokens filename.toList with
  | none =>
    -- the tokens match where the reading begins
    have := locate?_eq_none_iff.mp hlocate _ hle
    rw [this] at hbest
    exact absurd hbest (by simp)
  | some found =>
    obtain ⟨start, lengths⟩ := found
    obtain ⟨hstart, hmatch, hbefore⟩ := locate?_eq_some_iff.mp hlocate
    have htakes := Takes.of_matchAt hmatch
    rw [find?, hlocate]
    refine ⟨_, rfl, ?_⟩
    simp only [Match.NoWorseThan, String.length_ofList, List.length_take, Nat.min_eq_left hstart]
    rcases Nat.lt_trichotomy start other.before.length with hlt | rfl | hgt
    · exact Or.inl hlt
    · -- both begin at the same place, so the lengths decide
      refine Or.inr ⟨rfl, ?_⟩
      rw [hmatch, Option.some.injEq] at hbest
      rw [← h.fits.spans_le_spans_iff htakes.fits, htakes.spans_fieldValues, hbest]
      exact hspans
    · -- the match would not be the first one
      rw [hbefore _ hgt] at hbest
      exact absurd hbest (by simp)

/-- Two readings that are no worse than each other are the same. -/
theorem Decomposes.eq_of_noWorseThan {p : Pattern} {filename : String} {m other : Match}
    (h : p.Decomposes filename m) (hother : p.Decomposes filename other)
    (hm : m.NoWorseThan other) (ho : other.NoWorseThan m) : m = other := by
  have hstart : m.before.toList.length = other.before.toList.length := by
    simp only [Match.NoWorseThan] at hm ho
    rw [String.length_toList, String.length_toList]
    omega
  have hlengths : m.values.map String.length = other.values.map String.length := by
    simp only [Match.NoWorseThan] at hm ho
    rw [String.length_toList, String.length_toList] at hstart
    refine le_antisymm ?_ ?_
    · rcases ho with ho | ho
      · omega
      · exact ho.2
    · rcases hm with hm | hm
      · omega
      · exact hm.2
  -- texts of equal lengths that make up the same name are equal
  obtain ⟨hbefore, hrest⟩ := List.append_inj (h.toList_eq.symm.trans hother.toList_eq) hstart
  have hvalues := h.fits.eq_of_map_length_eq hother.fits hlengths hrest
  rw [hvalues] at hrest
  have hafter := List.append_cancel_left hrest
  cases m
  cases other
  simp only [Match.mk.injEq]
  exact ⟨String.toList_inj.mp hbefore, hvalues, String.toList_inj.mp hafter⟩

/-- The match of a pattern in a name is the reading that is no worse than any other. -/
theorem find?_eq_some_iff {p : Pattern} {filename : String} {m : Match} :
    p.find? filename = some m ↔
      p.Decomposes filename m ∧ ∀ other, p.Decomposes filename other → m.NoWorseThan other := by
  constructor
  · intro h
    refine ⟨Decomposes.of_find? h, ?_⟩
    intro other hother
    obtain ⟨found, hfound, hbetter⟩ := hother.exists_find?
    obtain rfl := Option.some.inj (hfound.symm.trans h)
    exact hbetter
  · rintro ⟨h, hbest⟩
    obtain ⟨found, hfound, hbetter⟩ := h.exists_find?
    have hdecomposes := Decomposes.of_find? hfound
    rw [hfound, hdecomposes.eq_of_noWorseThan h hbetter (hbest found hdecomposes)]

/-- A name has no match exactly if it cannot be read with the pattern. -/
theorem find?_eq_none_iff {p : Pattern} {filename : String} :
    p.find? filename = none ↔ ∀ m, ¬ p.Decomposes filename m := by
  constructor
  · intro h m hm
    obtain ⟨found, hfound, -⟩ := hm.exists_find?
    rw [h] at hfound
    exact absurd hfound (by simp)
  · intro h
    cases hfound : p.find? filename with
    | none => rfl
    | some m => exact absurd (Decomposes.of_find? hfound) (h m)

/-! ### Patterns of fixed width -/

/-- Where all fields are of fixed width, all values of a field have the same length. -/
theorem Fits.map_length_eq {tokens : List Token}
    (hfixed : ∀ f ∈ tokens.filterMap Token.field?, ∃ n, f.kind.width = .fixed n)
    {values others : List String} (h : Fits tokens values) (hothers : Fits tokens others) :
    values.map String.length = others.map String.length := by
  rw [Fits] at h hothers
  generalize tokens.filterMap Token.field? = fields at hfixed h hothers
  induction h generalizing others with
  | nil =>
    rw [List.forall₂_nil_left_iff] at hothers
    rw [hothers]
  | @cons f value fields values hvalue _ ih =>
    obtain ⟨other, later, hother, hlater, rfl⟩ := List.forall₂_cons_left_iff.mp hothers
    obtain ⟨n, hn⟩ := hfixed f List.mem_cons_self
    have hlength := FieldKind.length_of_admits hn hvalue
    have hlengthOther := FieldKind.length_of_admits hn hother
    rw [String.length_toList] at hlength hlengthOther
    rw [List.map_cons, List.map_cons, hlength, hlengthOther,
      ih (fun g hg => hfixed g (List.mem_cons_of_mem f hg)) hlater]

/-- A name that begins with a pattern of fixed width is matched there, with the values that it is
made of, whatever stands behind. -/
theorem find?_fill_append {p : Pattern} (hfixed : ∀ f ∈ p.fields, ∃ n, f.kind.width = .fixed n)
    {values : List String} (h : Fits p.tokens values) (after : String) :
    p.find? (fill p.tokens values ++ after) = some ⟨"", values, after⟩ := by
  rw [find?_eq_some_iff]
  refine ⟨⟨h, by rw [String.empty_append]⟩, ?_⟩
  intro other hother
  by_cases hstart : other.before.length = 0
  · exact Or.inr ⟨hstart.symm, (Fits.map_length_eq hfixed hother.fits h).le⟩
  · exact Or.inl (Nat.pos_of_ne_zero hstart)

/-! ### The matcher -/

theorem find_eq_ok_iff {p : Pattern} {filename : String} {m : Match} :
    p.find filename = .ok m ↔ p.find? filename = some m := by
  rw [find]
  cases p.find? filename <;> simp

/-- A match is a reading of the name. -/
theorem Decomposes.of_find {p : Pattern} {filename : String} {m : Match}
    (h : p.find filename = .ok m) : p.Decomposes filename m :=
  Decomposes.of_find? (find_eq_ok_iff.mp h)

theorem find_eq_error_iff {p : Pattern} {filename : String} {failure : Failure} :
    p.find filename = .error failure ↔
      p.find? filename = none ∧ failure = .noMatch p.render filename := by
  rw [find]
  cases p.find? filename <;> simp [eq_comm]

theorem isMatch_iff {p : Pattern} {filename : String} :
    p.isMatch filename = true ↔ ∃ m, p.find filename = .ok m := by
  rw [isMatch, Option.isSome_iff_exists]
  exact exists_congr fun m => find_eq_ok_iff.symm

end Pattern

end PatternRename
