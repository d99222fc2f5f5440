import PatternRename.Proofs.Matching.Decomposition
import PatternRename.Proofs.Renaming.Ranks
import PatternRename.Renaming.Renamer

/-!
# The segments of a new name

A new name consists of the text before the match, the literals and rewritten values of the output
pattern, and the text behind the match. Filling the waiting values in gives the output pattern
with one text for each field.

## Main definitions

- `isNumbered` — whether a pair of fields takes text into a number
- `Renamer.demands` — the values of a name that are to be numbered, with the widths of the numbers

## Main results

- `Renamer.pend_eq_ok_iff` — how a new name is made
- `Renamer.deferred_of_pend` — what waits in a new name is what its old name demands
- `Renamer.concernsOneFile_of_pend` — a name that cannot be made concerns its file only
-/

namespace PatternRename

/-! ### Pairs of fields -/

def isNumbered (pair : Field × Field) : Bool :=
  pair.1.kind.isTextual && pair.2.kind.isNumeric

/-- The value of a text field waits for its number if it goes into a number field. -/
theorem reencode_of_isNumbered {index : Nat} {input output : Field} {raw : String}
    {segment : Segment} (hpair : isNumbered (input, output) = true)
    (h : reencode index input output raw = .ok segment) :
    segment = .deferred ⟨index, raw, output.kind.width⟩ := by
  obtain ⟨hinput, houtput⟩ := Bool.and_eq_true_iff.mp hpair
  rw [reencode, if_pos hinput] at h
  cases hkind : output.kind with
  | character w =>
    rw [hkind] at houtput
    exact absurd houtput Bool.false_ne_true
  | digit w | integer w | float =>
    rw [hkind] at h
    simp only at h
    split at h
    · simp at h
    · exact (Except.ok.inj h).symm

/-- Any other value is written at once. -/
theorem reencode_of_not_isNumbered {index : Nat} {input output : Field} {raw : String}
    {segment : Segment} (hpair : isNumbered (input, output) = false)
    (h : reencode index input output raw = .ok segment) : ∃ text, segment = .text text := by
  have hmap : ∀ {written : Except Failure String}, written.map Segment.text = .ok segment →
      ∃ text, segment = .text text := by
    intro written hwritten
    obtain ⟨text, -, htext⟩ := map_eq_ok_iff.mp hwritten
    exact ⟨text, htext.symm⟩
  rw [reencode] at h
  split at h
  · rename_i hinput
    rw [isNumbered, hinput, Bool.true_and] at hpair
    cases hkind : output.kind with
    | character w =>
      rw [hkind] at h
      exact hmap h
    | digit w | integer w | float =>
      rw [hkind] at hpair
      exact absurd hpair (by simp [FieldKind.isNumeric, FieldKind.isTextual])
  · cases hkind : output.kind with
    | float =>
      rw [hkind] at h
      exact ⟨raw, (Except.ok.inj h).symm⟩
    | digit w | integer w | character w =>
      rw [hkind] at h
      exact hmap h

/-! ### Rewriting all values -/

theorem reencodeAll_nil (index : Nat) (values : List String) :
    reencodeAll index [] values = .ok [] := by
  simp [reencodeAll]

theorem reencodeAll_cons_nil (index : Nat) (pair : Field × Field) (pairs : List (Field × Field)) :
    reencodeAll index (pair :: pairs) [] = .ok [] := by
  simp [reencodeAll]

theorem reencodeAll_cons_eq_ok_iff {index : Nat} {pair : Field × Field} {raw : String}
    {pairs : List (Field × Field)} {values : List String} {segments : List Segment} :
    reencodeAll index (pair :: pairs) (raw :: values) = .ok segments ↔
      ∃ segment later, reencode index pair.1 pair.2 raw = .ok segment ∧
        reencodeAll (index + 1) pairs values = .ok later ∧ segments = segment :: later := by
  obtain ⟨input, output⟩ := pair
  rw [reencodeAll]
  cases reencode index input output raw with
  | error failure => simp
  | ok segment => simp [map_eq_ok_iff, eq_comm (a := segments)]

theorem length_reencodeAll {index : Nat} {pairs : List (Field × Field)} {values : List String}
    {segments : List Segment} (h : reencodeAll index pairs values = .ok segments)
    (hlength : pairs.length = values.length) : segments.length = values.length := by
  induction pairs generalizing index values segments with
  | nil =>
    rw [reencodeAll_nil, Except.ok.injEq] at h
    rw [← hlength, ← h]
    rfl
  | cons pair pairs ih =>
    cases values with
    | nil => simp at hlength
    | cons raw values =>
      obtain ⟨segment, later, -, hlater, rfl⟩ := reencodeAll_cons_eq_ok_iff.mp h
      rw [List.length_cons, List.length_cons, ih hlater (Nat.succ.inj hlength)]

/-- The segment at a position is the rewritten value at this position. -/
theorem reencode_of_getElem?_reencodeAll {index k : Nat} {pairs : List (Field × Field)}
    {values : List String} {segments : List Segment}
    (h : reencodeAll index pairs values = .ok segments) {pair : Field × Field} {raw : String}
    {segment : Segment} (hpair : pairs[k]? = some pair) (hraw : values[k]? = some raw)
    (hsegment : segments[k]? = some segment) :
    reencode (index + k) pair.1 pair.2 raw = .ok segment := by
  induction pairs generalizing index k values segments with
  | nil => simp at hpair
  | cons first pairs ih =>
    cases values with
    | nil => simp at hraw
    | cons value values =>
      obtain ⟨found, later, hfound, hlater, rfl⟩ := reencodeAll_cons_eq_ok_iff.mp h
      cases k with
      | zero =>
        simp only [List.getElem?_cons_zero, Option.some.injEq] at hpair hraw hsegment
        rw [← hpair, ← hraw, ← hsegment]
        exact hfound
      | succ k =>
        rw [List.getElem?_cons_succ] at hpair hraw hsegment
        have := ih hlater hpair hraw hsegment
        rwa [Nat.add_assoc, Nat.add_comm 1] at this

/-! ### Values that are to be numbered -/

def Deferred.demand (d : Deferred) : String × Width :=
  (d.raw, d.width)

/-- What a value of a pair of fields asks of its number, if it goes into a number. -/
def demand? : (Field × Field) × String → Option (String × Width)
  | (pair, raw) => if isNumbered pair then some (raw, pair.2.kind.width) else none

/-- The values that go from text fields into number fields, with the widths of the numbers. -/
def demandsOf (pairs : List (Field × Field)) (values : List String) : List (String × Width) :=
  (pairs.zip values).filterMap demand?

theorem demand_reencodeAll {index : Nat} {pairs : List (Field × Field)} {values : List String}
    {segments : List Segment} (h : reencodeAll index pairs values = .ok segments) :
    (segments.filterMap Segment.deferred?).map Deferred.demand = demandsOf pairs values := by
  induction pairs generalizing index values segments with
  | nil =>
    rw [reencodeAll_nil, Except.ok.injEq] at h
    rw [← h]
    rfl
  | cons pair pairs ih =>
    cases values with
    | nil =>
      rw [reencodeAll_cons_nil, Except.ok.injEq] at h
      rw [← h]
      rfl
    | cons raw values =>
      obtain ⟨segment, later, hsegment, hlater, rfl⟩ := reencodeAll_cons_eq_ok_iff.mp h
      have hrest := ih hlater
      rw [demandsOf] at hrest
      rw [demandsOf, List.zip_cons_cons]
      cases hpair : isNumbered pair with
      | true =>
        have hdeferred : segment.deferred? = some ⟨index, raw, pair.2.kind.width⟩ := by
          rw [reencode_of_isNumbered hpair hsegment]
          rfl
        rw [List.filterMap_cons_some hdeferred, List.map_cons, hrest, List.filterMap_cons_some]
        rw [demand?, if_pos hpair]
        rfl
      | false =>
        obtain ⟨text, rfl⟩ := reencode_of_not_isNumbered hpair hsegment
        rw [List.filterMap_cons_none rfl, hrest, List.filterMap_cons_none]
        rw [demand?, hpair, if_neg Bool.false_ne_true]

/-! ### Segments along the output pattern -/

theorem deferred?_layOut {tokens : List Token} {segments : List Segment}
    (hlength : segments.length = (tokens.filterMap Token.field?).length) :
    (layOut tokens segments).filterMap Segment.deferred? =
      segments.filterMap Segment.deferred? := by
  induction tokens generalizing segments with
  | nil =>
    rw [List.length_eq_zero_iff.mp hlength]
    rfl
  | cons token tokens ih =>
    cases token with
    | literal word =>
      rw [layOut, List.filterMap_cons_none rfl]
      exact ih hlength
    | field f =>
      have hfield : (Token.field f).field? = some f := rfl
      rw [List.filterMap_cons_some hfield, List.length_cons] at hlength
      obtain ⟨segment, later, rfl⟩ := List.exists_cons_of_length_eq_add_one hlength
      rw [layOut, List.filterMap_cons, List.filterMap_cons, ih (Nat.succ.inj hlength)]

/-- The texts of segments along a pattern make up the pattern with a text for each field. -/
theorem exists_fill_of_layOut {numbering : Numbering} {tokens : List Token}
    {segments : List Segment} {outs : List String}
    (hlength : segments.length = (tokens.filterMap Token.field?).length)
    (h : List.Forall₂ numbering.Gives (layOut tokens segments) outs) :
    ∃ texts, List.Forall₂ numbering.Gives segments texts ∧
      String.join outs = Pattern.fill tokens texts := by
  induction tokens generalizing segments outs with
  | nil =>
    rw [layOut, List.forall₂_nil_left_iff] at h
    rw [List.length_eq_zero_iff.mp hlength, h]
    exact ⟨[], List.Forall₂.nil, rfl⟩
  | cons token tokens ih =>
    cases token with
    | literal word =>
      rw [layOut, List.forall₂_cons_left_iff] at h
      obtain ⟨text, later, htext, hlater, rfl⟩ := h
      obtain ⟨texts, htexts, hjoin⟩ := ih hlength hlater
      refine ⟨texts, htexts, ?_⟩
      rw [String.join_cons, hjoin, Pattern.fill, ← Except.ok.inj htext]
    | field f =>
      have hfield : (Token.field f).field? = some f := rfl
      rw [List.filterMap_cons_some hfield, List.length_cons] at hlength
      obtain ⟨segment, rest, rfl⟩ := List.exists_cons_of_length_eq_add_one hlength
      rw [layOut, List.forall₂_cons_left_iff] at h
      obtain ⟨text, later, htext, hlater, rfl⟩ := h
      obtain ⟨texts, htexts, hjoin⟩ := ih (Nat.succ.inj hlength) hlater
      refine ⟨text :: texts, List.Forall₂.cons htext htexts, ?_⟩
      rw [String.join_cons, hjoin, Pattern.fill]

theorem join_of_surroundings {numbering : Numbering} {text : String} {outs : List String}
    (h : List.Forall₂ numbering.Gives (surroundings text) outs) : String.join outs = text := by
  rw [surroundings] at h
  split at h
  · rename_i hempty
    rw [List.forall₂_nil_left_iff] at h
    rw [h, String.isEmpty_iff.mp hempty]
    rfl
  · rw [List.forall₂_cons_left_iff] at h
    obtain ⟨out, later, hout, hlater, rfl⟩ := h
    rw [List.forall₂_nil_left_iff] at hlater
    rw [hlater, String.join_cons, String.join_nil, String.append_empty]
    exact (Except.ok.inj hout).symm

theorem deferred?_surroundings (text : String) :
    (surroundings text).filterMap Segment.deferred? = [] := by
  rw [surroundings]
  split <;> rfl

/-! ### The new name for a name -/

namespace Renamer

def demands (r : Renamer) (filename : String) : List (String × Width) :=
  match r.input.find? filename with
  | none => []
  | some m => demandsOf r.pairs m.values

theorem map_fst_pairs (r : Renamer) : r.pairs.map Prod.fst = r.input.fields :=
  List.map_fst_zip r.fieldCount_eq.le

theorem map_snd_pairs (r : Renamer) : r.pairs.map Prod.snd = r.output.fields :=
  List.map_snd_zip r.fieldCount_eq.ge

theorem length_pairs (r : Renamer) : r.pairs.length = r.output.fieldCount := by
  rw [Pattern.fieldCount, ← map_snd_pairs, List.length_map]

theorem length_values_of_find {r : Renamer} {filename : String} {m : Match}
    (h : r.input.find filename = .ok m) : r.pairs.length = m.values.length := by
  have hfits := (Pattern.Decomposes.of_find h).fits
  rw [length_pairs, ← r.fieldCount_eq]
  exact hfits.length_eq

theorem pend_eq_ok_iff {r : Renamer} {filename : String} {name : PendingName} :
    r.pend filename = .ok name ↔
      ∃ m segments, r.input.find filename = .ok m ∧
        reencodeAll 0 r.pairs m.values = .ok segments ∧
        name = ⟨filename, surroundings m.before ++ layOut r.output.tokens segments ++
          surroundings m.after⟩ := by
  rw [pend]
  cases r.input.find filename with
  | error failure => simp
  | ok m => simp [reencodeMatch, map_eq_ok_iff, eq_comm (a := name)]

theorem source_of_pend {r : Renamer} {filename : String} {name : PendingName}
    (h : r.pend filename = .ok name) : name.source = filename := by
  obtain ⟨m, segments, -, -, rfl⟩ := pend_eq_ok_iff.mp h
  rfl

/-- What waits in a new name is what its old name demands. -/
theorem deferred_of_pend {r : Renamer} {filename : String} {name : PendingName}
    (h : r.pend filename = .ok name) :
    name.deferred.map Deferred.demand = r.demands filename := by
  obtain ⟨m, segments, hfind, hsegments, rfl⟩ := pend_eq_ok_iff.mp h
  have hvalues := length_values_of_find hfind
  have hlength : segments.length = (r.output.tokens.filterMap Token.field?).length := by
    rw [length_reencodeAll hsegments hvalues, ← hvalues, length_pairs]
    rfl
  -- literals and the text around the match wait for nothing
  rw [PendingName.deferred, List.filterMap_append, List.filterMap_append,
    deferred?_surroundings, deferred?_surroundings, List.nil_append, List.append_nil,
    deferred?_layOut hlength, demand_reencodeAll hsegments, demands,
    Pattern.find_eq_ok_iff.mp hfind]

end Renamer

/-! ### Names that cannot be made

A value that is not written is a value that its field does not take, which concerns its file only,
or the field is wider than any text can be padded to. -/

/-- Texts can be padded to the width, if it is a fixed one. -/
def Width.Paddable (w : Width) : Prop :=
  ∀ width, w = .fixed width → width ≤ Text.maxPadding

/-- The fixed widths of a pattern are such that texts can be padded to them. -/
def Pattern.Paddable (p : Pattern) : Prop :=
  ∀ f ∈ p.fields, ∀ width, f.kind.width = .fixed width → width ≤ Text.maxPadding

instance (w : Width) : Decidable w.Paddable :=
  match w with
  | .fixed n =>
    decidable_of_iff (n ≤ Text.maxPadding)
      ⟨fun h _ hwidth => Width.fixed.inj hwidth ▸ h, fun h => h n rfl⟩
  | .unbounded => isTrue fun _ hwidth => Width.noConfusion hwidth

instance (p : Pattern) : Decidable p.Paddable :=
  inferInstanceAs (Decidable (∀ f ∈ p.fields, f.kind.width.Paddable))

theorem Width.not_paddable_of_lt {width : Nat} (h : Text.maxPadding < width) :
    ¬ (Width.fixed width).Paddable := by
  intro hw
  have := hw width rfl
  omega

theorem tooWide_of_justify {raw : String} {w : Width} {failure : Failure}
    (h : justify raw w = .error failure) : failure = .paddingTooWide ∧ ¬ w.Paddable := by
  cases w with
  | unbounded => simp [justify] at h
  | fixed width =>
    rw [justify] at h
    split at h
    · rename_i hwide
      exact ⟨(Except.error.inj h).symm, Width.not_paddable_of_lt hwide⟩
    · simp at h

theorem concernsOneFile_or_tooWide_of_padNumber {field raw : String} {w : Width} {failure : Failure}
    (h : padNumber field raw w = .error failure) :
    failure.concernsOneFile = true ∨ failure = .paddingTooWide ∧ ¬ w.Paddable := by
  cases w with
  | unbounded => simp [padNumber] at h
  | fixed width =>
    rw [padNumber] at h
    split at h
    · rw [← Except.error.inj h]
      exact Or.inl rfl
    · rename_i number _
      split at h
      · rename_i hwide
        -- a minus takes one character of the width
        have hle : number.digitWidth width ≤ width := Nat.sub_le width _
        exact Or.inr ⟨(Except.error.inj h).symm, Width.not_paddable_of_lt (by omega)⟩
      · simp at h

theorem concernsOneFile_or_tooWide_of_reencode {index : Nat} {input output : Field} {raw : String}
    {failure : Failure} (h : reencode index input output raw = .error failure) :
    failure.concernsOneFile = true ∨
      failure = .paddingTooWide ∧ ¬ output.kind.width.Paddable := by
  rw [reencode] at h
  split at h
  · cases hkind : output.kind with
    | character w =>
      rw [hkind] at h
      exact Or.inr (tooWide_of_justify (map_eq_error_iff.mp h))
    | digit w | integer w | float =>
      rw [hkind] at h
      simp only at h
      split at h
      · rw [← Except.error.inj h]
        exact Or.inl rfl
      · simp at h
  · cases hkind : output.kind with
    | float =>
      rw [hkind] at h
      simp at h
    | digit w | integer w | character w =>
      rw [hkind] at h
      exact concernsOneFile_or_tooWide_of_padNumber (map_eq_error_iff.mp h)

theorem concernsOneFile_or_tooWide_of_reencodeAll {index : Nat} {pairs : List (Field × Field)}
    {values : List String} {failure : Failure}
    (h : reencodeAll index pairs values = .error failure) :
    failure.concernsOneFile = true ∨
      failure = .paddingTooWide ∧ ∃ pair ∈ pairs, ¬ pair.2.kind.width.Paddable := by
  induction pairs generalizing index values with
  | nil => simp [reencodeAll] at h
  | cons pair pairs ih =>
    cases values with
    | nil => simp [reencodeAll] at h
    | cons raw values =>
      obtain ⟨input, output⟩ := pair
      rw [reencodeAll] at h
      split at h
      · rename_i other hother
        rw [← Except.error.inj h]
        rcases concernsOneFile_or_tooWide_of_reencode hother with hone | ⟨hwide, hw⟩
        · exact Or.inl hone
        · exact Or.inr ⟨hwide, _, List.mem_cons_self, hw⟩
      · rcases ih (map_eq_error_iff.mp h) with hone | ⟨hwide, pair, hpair, hw⟩
        · exact Or.inl hone
        · exact Or.inr ⟨hwide, pair, List.mem_cons_of_mem _ hpair, hw⟩

/-- A name that cannot be made concerns its file only, unless a field is too wide. -/
theorem Renamer.concernsOneFile_or_tooWide_of_pend {r : Renamer} {filename : String}
    {failure : Failure} (h : r.pend filename = .error failure) :
    failure.concernsOneFile = true ∨ failure = .paddingTooWide ∧ ¬ r.output.Paddable := by
  rw [pend] at h
  split at h
  · rename_i other hfind
    rw [← Except.error.inj h, (Pattern.find_eq_error_iff.mp hfind).2]
    exact Or.inl rfl
  · rcases concernsOneFile_or_tooWide_of_reencodeAll (map_eq_error_iff.mp h) with
      hone | ⟨hwide, pair, hpair, hnot⟩
    · exact Or.inl hone
    · refine Or.inr ⟨hwide, fun hw => hnot ?_⟩
      exact hw pair.2 (List.of_mem_zip hpair).2

/-- A name that cannot be made concerns its file only. -/
theorem Renamer.concernsOneFile_of_pend {r : Renamer} (hw : r.output.Paddable)
    {filename : String} {failure : Failure} (h : r.pend filename = .error failure) :
    failure.concernsOneFile = true := by
  rcases concernsOneFile_or_tooWide_of_pend h with hone | ⟨-, hnot⟩
  · exact hone
  · exact absurd hw hnot

end PatternRename
