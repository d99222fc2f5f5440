import PatternRename.Proofs.Pattern.Fragments
import PatternRename.Proofs.Renaming.RoundTrip

/-!
# The characters of new names

A new name is made of text of its old name, of literals of the output pattern, and of what padding
and numbering add. So it has no characters but those of its old name, those that the output pattern
is written with, digits and spaces.

## Main definitions

- `Text.IsFiller` — the characters that padding and numbering add

## Main results

- `Pattern.mem_of_literal` — the characters of literals
- `Numbering.Renders.mem` — the characters of a value in an output field
- `Renamer.mem_target_of_literals`, `Renamer.mem_target` — the characters of a new name
-/

namespace PatternRename

/-! ### Padding -/

namespace Text

/-- What padding and numbering add to a text. -/
def IsFiller (c : Char) : Prop :=
  c.isDigit = true ∨ c = ' '

theorem mem_of_mem_stripZeros {ds : List Char} {c : Char} (h : c ∈ stripZeros ds) :
    c ∈ ds ∨ IsFiller c := by
  rw [stripZeros] at h
  split at h
  · rw [List.mem_singleton.mp h]
    exact Or.inr (Or.inl rfl)
  · rename_i d rest hdrop
    rw [← hdrop] at h
    exact Or.inl ((List.dropWhile_sublist _).mem h)

theorem mem_of_mem_zeroPad {width : Nat} {ds : List Char} {c : Char} (h : c ∈ zeroPad width ds) :
    c ∈ ds ∨ IsFiller c := by
  rw [zeroPad, List.mem_append, List.mem_replicate] at h
  rcases h with ⟨-, rfl⟩ | h
  · exact Or.inr (Or.inl rfl)
  · exact Or.inl h

theorem mem_of_mem_padEnd {width : Nat} {cs : List Char} {c : Char} (h : c ∈ padEnd width cs) :
    c ∈ cs ∨ IsFiller c := by
  rw [padEnd, List.mem_append, List.mem_replicate] at h
  rcases h with h | ⟨-, rfl⟩
  · exact Or.inl h
  · exact Or.inr (Or.inr rfl)

theorem isFiller_of_mem_digits {n : Nat} {c : Char} (h : c ∈ digits n) : IsFiller c :=
  Or.inl (isDigit_of_mem_digits h)

/-- A sign and the digits behind it are read from the text. -/
theorem SignedDigits.mem_of_read? {cs : List Char} {s : SignedDigits} (h : read? cs = some s)
    {c : Char} (hc : c ∈ s.sign ++ s.run) : c ∈ cs := by
  simp only [read?, Option.ite_none_right_eq_some, Option.some.injEq] at h
  obtain ⟨-, rfl⟩ := h
  split at hc
  · exact hc
  · exact List.mem_cons_of_mem _ hc
  · exact hc

theorem SignedDigits.mem_of_mem_write {cs : List Char} {s : SignedDigits} (h : read? cs = some s)
    {width : Nat} {c : Char} (hc : c ∈ s.write width) : c ∈ cs ∨ IsFiller c := by
  rw [write, List.mem_append] at hc
  rcases hc with hsign | hrun
  · exact Or.inl (mem_of_read? h (List.mem_append_left _ hsign))
  · rcases mem_of_mem_zeroPad hrun with hrun | hfill
    · rcases mem_of_mem_stripZeros hrun with hrun | hfill
      · exact Or.inl (mem_of_read? h (List.mem_append_right _ hrun))
      · exact Or.inr hfill
    · exact Or.inr hfill

end Text

/-! ### Values -/

theorem mem_of_justify {raw text : String} {w : Width} (h : justify raw w = .ok text) {c : Char}
    (hc : c ∈ text.toList) : c ∈ raw.toList ∨ Text.IsFiller c := by
  cases w with
  | unbounded =>
    obtain rfl := Except.ok.inj h
    exact Or.inl hc
  | fixed width =>
    obtain ⟨-, rfl⟩ := justify_fixed_eq_ok_iff.mp h
    rw [String.toList_ofList] at hc
    exact Text.mem_of_mem_padEnd hc

theorem mem_of_padNumber {field raw text : String} {w : Width} (h : padNumber field raw w = .ok text)
    {c : Char} (hc : c ∈ text.toList) : c ∈ raw.toList ∨ Text.IsFiller c := by
  cases w with
  | unbounded =>
    obtain rfl := Except.ok.inj h
    split at hc
    · rw [String.toList_ofList] at hc
      exact Text.mem_of_mem_stripZeros hc
    · exact Or.inl hc
  | fixed width =>
    rw [padNumber] at h
    split at h
    · simp at h
    · rename_i number hread
      split at h
      · simp at h
      · rw [← Except.ok.inj h, String.toList_ofList] at hc
        exact Text.SignedDigits.mem_of_mem_write hread hc

theorem Numbering.isFiller_of_writeNumber {value text : String} {n : Nat} {w : Width}
    (h : writeNumber value n w = .ok text) {c : Char} (hc : c ∈ text.toList) :
    Text.IsFiller c := by
  cases w with
  | unbounded =>
    rw [← Except.ok.inj h, String.toList_ofList] at hc
    exact Text.isFiller_of_mem_digits hc
  | fixed width =>
    obtain ⟨-, -, rfl⟩ := Numbering.writeNumber_fixed_eq_ok_iff.mp h
    rw [String.toList_ofList] at hc
    rcases Text.mem_of_mem_zeroPad hc with hdigit | hfill
    · exact Text.isFiller_of_mem_digits hdigit
    · exact hfill

theorem mem_of_reencode {index : Nat} {input output : Field} {raw written : String}
    (h : reencode index input output raw = .ok (.text written)) {c : Char}
    (hc : c ∈ written.toList) : c ∈ raw.toList ∨ Text.IsFiller c := by
  rw [reencode] at h
  split at h
  · cases hkind : output.kind with
    | character w =>
      rw [hkind] at h
      obtain ⟨text, htext, heq⟩ := map_eq_ok_iff.mp h
      obtain rfl := Segment.text.inj heq
      exact mem_of_justify htext hc
    | digit w | integer w | float =>
      rw [hkind] at h
      simp only at h
      split at h <;> simp at h
  · cases hkind : output.kind with
    | float =>
      rw [hkind] at h
      obtain rfl := Segment.text.inj (Except.ok.inj h)
      exact Or.inl hc
    | digit w | integer w | character w =>
      rw [hkind] at h
      obtain ⟨text, htext, heq⟩ := map_eq_ok_iff.mp h
      obtain rfl := Segment.text.inj heq
      exact mem_of_padNumber htext hc

/-- A value is written with its own characters and with what padding and numbering add. -/
theorem Numbering.Renders.mem {numbering : Numbering} {pair : Field × Field} {raw text : String}
    (h : numbering.Renders pair raw text) {c : Char} (hc : c ∈ text.toList) :
    c ∈ raw.toList ∨ Text.IsFiller c := by
  obtain ⟨index, segment, hsegment, htext⟩ := h
  rw [Numbering.Gives] at htext
  cases segment with
  | text written =>
    obtain rfl := Except.ok.inj htext
    exact mem_of_reencode hsegment hc
  | deferred value =>
    rw [Numbering.segmentText] at htext
    split at htext
    · simp at htext
    · exact Or.inr (Numbering.isFiller_of_writeNumber htext hc)

/-! ### Names -/

namespace Pattern

theorem mem_of_mem_fill {tokens : List Token} {texts : List String} {c : Char}
    (h : c ∈ (fill tokens texts).toList) :
    (∃ word, .literal word ∈ tokens ∧ c ∈ word.toList) ∨ ∃ text ∈ texts, c ∈ text.toList := by
  induction tokens generalizing texts with
  | nil => simp [fill] at h
  | cons token tokens ih =>
    -- what is found in the rest is found in all tokens
    have hlater : ∀ {later : List String}, later ⊆ texts → c ∈ (fill tokens later).toList →
        (∃ word, .literal word ∈ token :: tokens ∧ c ∈ word.toList) ∨
          ∃ text ∈ texts, c ∈ text.toList := by
      intro later hsubset hmem
      rcases ih hmem with ⟨word, hword, hc⟩ | ⟨text, htext, hc⟩
      · exact Or.inl ⟨word, List.mem_cons_of_mem token hword, hc⟩
      · exact Or.inr ⟨text, hsubset htext, hc⟩
    cases token with
    | literal word =>
      rw [fill, String.toList_append, List.mem_append] at h
      rcases h with hword | hrest
      · exact Or.inl ⟨word, List.mem_cons_self, hword⟩
      · exact hlater (List.Subset.refl texts) hrest
    | field f =>
      cases texts with
      | nil => exact hlater (List.Subset.refl []) h
      | cons text later =>
        rw [fill, String.toList_append, List.mem_append] at h
        rcases h with htext | hrest
        · exact Or.inr ⟨text, List.mem_cons_self, htext⟩
        · exact hlater (List.subset_cons_self text later) hrest

/-- Values that fit stand in the text that they make up. -/
theorem Fits.mem_fill {tokens : List Token} {values : List String} (h : Fits tokens values)
    {value : String} (hvalue : value ∈ values) {c : Char} (hc : c ∈ value.toList) :
    c ∈ (fill tokens values).toList := by
  induction tokens generalizing values with
  | nil =>
    rw [fits_nil_iff.mp h] at hvalue
    exact absurd hvalue List.not_mem_nil
  | cons token tokens ih =>
    cases token with
    | literal word =>
      rw [fill, String.toList_append]
      exact List.mem_append_right _ (ih (fits_literal_iff.mp h) hvalue)
    | field f =>
      obtain ⟨first, later, rfl, -, hlater⟩ := fits_field_iff.mp h
      rw [fill, String.toList_append]
      rcases List.mem_cons.mp hvalue with rfl | hmem
      · exact List.mem_append_left _ hc
      · exact List.mem_append_right _ (ih hlater hmem)

/-- Literals have no characters but those that their pattern is written with. -/
theorem mem_of_literal {text : String} {p : Pattern} (h : parse text = .ok p) {word : String}
    (hword : .literal word ∈ p.tokens) {c : Char} (hc : c ∈ word.toList) : c ∈ text.toList := by
  obtain ⟨fragments, hfragments, htokens⟩ := parse_eq_ok_iff.mp h
  obtain ⟨fragment, hmem, hfragment⟩ := (mem_iff_of_mapM_eq_ok htokens).mp hword
  cases Token.ofFragment_eq_ok_iff.mp hfragment
  exact Fragment.mem_of_ofText hfragments _ hmem c hc

end Pattern

/-- The characters of a match stand in the name. -/
theorem Pattern.Decomposes.mem {p : Pattern} {filename : String} {m : Match}
    (h : p.Decomposes filename m) {c : Char}
    (hc : c ∈ m.before.toList ∨ (∃ value ∈ m.values, c ∈ value.toList) ∨ c ∈ m.after.toList) :
    c ∈ filename.toList := by
  rw [h.text_eq, String.toList_append, String.toList_append, List.mem_append, List.mem_append]
  rcases hc with hbefore | ⟨value, hvalue, hc⟩ | hafter
  · exact Or.inl (Or.inl hbefore)
  · exact Or.inl (Or.inr (h.fits.mem_fill hvalue hc))
  · exact Or.inr hafter

/-- A new name has no characters but those of its old name, those of literals of the output pattern,
digits and spaces. -/
theorem Renamer.mem_target_of_literals {r : Renamer} {filenames : List String} {report : Report}
    (h : r.rename filenames = .ok report) {file : RenamedFile} (hfile : file ∈ report.renamed)
    {c : Char} (hc : c ∈ file.target.toList) :
    c ∈ file.source.toList ∨ (∃ word, .literal word ∈ r.output.tokens ∧ c ∈ word.toList) ∨
      Text.IsFiller c := by
  obtain ⟨-, name, hpend, -⟩ := (mem_renamed_iff h).mp hfile
  obtain ⟨m, -, hm, -, -⟩ := pend_eq_ok_iff.mp hpend
  have hdecomposes := Pattern.Decomposes.of_find hm
  obtain ⟨texts, -, htexts, htarget⟩ := exists_renders_of_mem_renamed h hfile hm
  rw [htarget, String.toList_append, String.toList_append, List.mem_append, List.mem_append] at hc
  rcases hc with (hbefore | hfill) | hafter
  · exact Or.inl (hdecomposes.mem (Or.inl hbefore))
  · rcases Pattern.mem_of_mem_fill hfill with hliteral | ⟨written, hwritten, hc⟩
    · exact Or.inr (Or.inl hliteral)
    · -- the text is the one of some value
      obtain ⟨i, hi, rfl⟩ := List.mem_iff_getElem.mp hwritten
      have hi' : i < (r.pairs.zip m.values).length := htexts.length_eq ▸ hi
      rcases (htexts.get hi' hi).mem hc with hraw | hfiller
      · have hmem := (List.of_mem_zip (List.getElem_mem hi')).2
        exact Or.inl (hdecomposes.mem (Or.inr (Or.inl ⟨_, hmem, hraw⟩)))
      · exact Or.inr (Or.inr hfiller)
  · exact Or.inl (hdecomposes.mem (Or.inr (Or.inr hafter)))

/-- A new name has no characters but those of its old name, those that the output pattern is
written with, digits and spaces. -/
theorem Renamer.mem_target {r : Renamer} {text : String} (houtput : Pattern.parse text = .ok r.output)
    {filenames : List String} {report : Report} (h : r.rename filenames = .ok report)
    {file : RenamedFile} (hfile : file ∈ report.renamed) {c : Char} (hc : c ∈ file.target.toList) :
    c ∈ file.source.toList ∨ c ∈ text.toList ∨ Text.IsFiller c := by
  rcases mem_target_of_literals h hfile hc with hsource | ⟨word, hword, hc⟩ | hfiller
  · exact Or.inl hsource
  · exact Or.inr (Or.inl (Pattern.mem_of_literal houtput hword hc))
  · exact Or.inr (Or.inr hfiller)

end PatternRename
