import PatternRename.Proofs.Renaming.Independence
import PatternRename.Proofs.Renaming.RoundTrip

/-!
# The order of names and the reason of a failure

A collection that has no names has none in any order. The number that is named as the reason is the
lowest one that is too long for a field, so it and its value are the same in every order. But the
value may go into several fields that are too narrow, and the width that is named is the one of the
first of these, in the order in which the names come.

## Main definitions

- `Renamer.overflowsOf`, `Renamer.lowest?` — those of a collection, and the one that is named
- `Renamer.leading?` — the first field of a file that is too narrow for a number

## Main results

- `Renamer.lowest?_eq_findSome?` — it is the first one in the first file that has it
- `Renamer.rename_error_perm` — what the order of names can change about a failure
- `Renamer.width_depends_on_order` — two orders that fail with different widths
-/

namespace PatternRename

/-- The least element of a list that comes first is the first one that is as small. -/
theorem find?_of_mem_argmin {α : Type} {f : α → Nat} {l : List α} {a : α} (h : a ∈ l.argmin f) :
    l.find? (fun b => f b == f a) = some a := by
  induction l generalizing a with
  | nil => simp at h
  | cons b rest ih =>
    rw [List.argmin_cons] at h
    cases hrest : rest.argmin f with
    | none =>
      rw [hrest] at h
      obtain rfl := Option.some.inj h
      exact List.find?_cons_of_pos (beq_self_eq_true _)
    | some c =>
      rw [hrest] at h
      dsimp only at h
      split at h
      · rename_i hlt
        obtain rfl := Option.some.inj h
        rw [List.find?_cons_of_neg (by simpa using Nat.ne_of_gt hlt)]
        exact ih hrest
      · obtain rfl := Option.some.inj h
        exact List.find?_cons_of_pos (beq_self_eq_true _)

/-- Whichever order a list is in, the first element with a property is the same exactly if no other
element has it. -/
theorem forall_perm_findSome?_iff {α β : Type} [DecidableEq α] {l : List α} {g : α → Option β}
    {p : β → Prop} :
    (∀ others, l.Perm others → ∀ b, others.findSome? g = some b → p b) ↔
      ∀ a ∈ l, ∀ b, g a = some b → p b := by
  constructor
  · intro h a ha b hb
    refine h (a :: l.erase a) (List.perm_cons_erase ha) b ?_
    rw [List.findSome?_cons, hb]
  · intro h others hperm b hb
    obtain ⟨a, ha, hab⟩ := List.exists_of_findSome?_eq_some hb
    exact h a (hperm.mem_iff.mpr ha) b hab

namespace Numbering

/-- Behind the check only a field that is too wide keeps a name from being finished. -/
theorem tooWide_of_finish {names : List PendingName}
    (hcheck : (ofNames names).check names = .ok ()) {name : PendingName} (hname : name ∈ names)
    {failure : Failure} (h : (ofNames names).finish name = .error failure) :
    failure = .paddingTooWide := by
  rw [check_eq_ok_iff] at hcheck
  rw [finish, map_eq_error_iff, segmentTexts_eq_mapM] at h
  obtain ⟨segment, hsegment, hfails⟩ := exists_mem_of_mapM_eq_error h
  cases segment with
  | text known => exact absurd hfails (by simp [segmentText])
  | deferred d =>
    have hd := mem_allDeferred hname hsegment
    have hn := number?_ofNames hd
    rw [segmentText, number, hn] at hfails
    dsimp only at hfails
    cases hwidth : d.width with
    | unbounded => simp [hwidth, writeNumber] at hfails
    | fixed width =>
      -- the number is not too long, since it was checked
      have hfits : ¬ 10 ^ width ≤ rank _ d.raw := fun hle =>
        hcheck d hd ⟨_, d.raw, width⟩ ⟨rfl, hwidth, hn, hle⟩
      rw [← Text.lt_digitCount_iff (one_le_rank _ _)] at hfits
      rw [hwidth, writeNumber, if_neg hfits] at hfails
      split at hfails
      · exact (Except.error.inj hfails).symm
      · simp at hfails

end Numbering

namespace Renamer

variable {r : Renamer} {filenames others : List String}

/-- The numbers of a collection that are too long for their fields, as the names come. -/
def overflowsOf (r : Renamer) (filenames : List String) : List Numbering.Overflow :=
  (r.numbering filenames).overflows (PendingName.allDeferred (pending (r.attempts filenames)))

/-- The number that is named if a collection fails: the lowest one that is too long, with the first
field that is too narrow for it. -/
def lowest? (r : Renamer) (filenames : List String) : Option Numbering.Overflow :=
  (r.overflowsOf filenames).argmin Numbering.Overflow.number

theorem check_pending (r : Renamer) (filenames : List String) :
    (r.numbering filenames).check (pending (r.attempts filenames)) =
      match r.lowest? filenames with
      | none => .ok ()
      | some o => .error (.widthOverflow o.value o.number o.width) :=
  Numbering.check_eq_argmin _

/-- What becomes of a collection that no failure stops before its values are numbered. -/
theorem rename_of_lowest? (hstop : firstStop? (r.attempts filenames) = none) :
    match r.lowest? filenames with
    | some o => r.rename filenames = .error (.widthOverflow o.value o.number o.width)
    | none => r.rename filenames = .error .paddingTooWide ∨
        ∃ report, r.rename filenames = .ok report := by
  have hcheck := check_pending r filenames
  rw [numbering] at hcheck
  cases hlowest : r.lowest? filenames with
  | some o =>
    rw [hlowest] at hcheck
    dsimp only at hcheck ⊢
    rw [rename, settle, hstop]
    simp only [hcheck]
  | none =>
    rw [hlowest] at hcheck
    cases hrename : r.rename filenames with
    | ok report => exact Or.inr ⟨report, rfl⟩
    | error failure =>
      left
      rw [rename, settle, hstop] at hrename
      simp only [hcheck, map_eq_error_iff, finishAll_eq_mapM] at hrename
      obtain ⟨name, hname, hfails⟩ := exists_mem_of_mapM_eq_error hrename
      rw [finishFile, map_eq_error_iff] at hfails
      rw [Numbering.tooWide_of_finish hcheck hname hfails]

/-! ### Another order -/

theorem numbering_eq_of_perm (h : filenames.Perm others) :
    r.numbering filenames = r.numbering others :=
  Numbering.ofNames_eq_of_perm (pending_perm h)

theorem overflowsOf_perm (h : filenames.Perm others) :
    (r.overflowsOf filenames).Perm (r.overflowsOf others) := by
  rw [overflowsOf, overflowsOf, numbering_eq_of_perm h]
  exact (PendingName.allDeferred_perm (pending_perm h)).filterMap _

/-- The number that is named, and its value, are the same in every order. -/
theorem exists_lowest?_of_perm (h : filenames.Perm others) {o : Numbering.Overflow}
    (ho : r.lowest? filenames = some o) :
    ∃ other, r.lowest? others = some other ∧ other.value = o.value ∧ other.number = o.number := by
  have hperm := overflowsOf_perm (r := r) h
  cases hother : r.lowest? others with
  | none =>
    rw [lowest?, List.argmin_eq_none] at hother
    rw [hother] at hperm
    rw [lowest?, hperm.eq_nil] at ho
    simp at ho
  | some other =>
    have hmem := hperm.mem_iff.mp (List.argmin_mem ho)
    have hmem' := hperm.mem_iff.mpr (List.argmin_mem hother)
    have hnumber : other.number = o.number :=
      Nat.le_antisymm (List.le_of_mem_argmin hmem hother) (List.le_of_mem_argmin hmem' ho)
    refine ⟨other, rfl, ?_, hnumber⟩
    -- no two values have the same number
    obtain ⟨d, -, hd⟩ := List.mem_filterMap.mp (List.argmin_mem ho)
    obtain ⟨e, -, he⟩ := List.mem_filterMap.mp hmem'
    have hn := (Numbering.overflow?_eq_some_iff.mp hd).number?_eq
    have hn' := (Numbering.overflow?_eq_some_iff.mp he).number?_eq
    rw [hnumber] at hn'
    exact Numbering.eq_of_number?_eq hn' hn

/-- A number that is too long in the new name of a file, with the first field that is too narrow for
it. -/
def leading? (r : Renamer) (numbering : Numbering) (number : Nat) (filename : String) :
    Option Numbering.Overflow :=
  (r.pend filename).toOption.bind fun name =>
    (numbering.overflows name.deferred).find? (·.number == number)

/-- What is named is found in the first file that has the number in a field that is too narrow. -/
theorem lowest?_eq_findSome? {o : Numbering.Overflow} (h : r.lowest? filenames = some o) :
    filenames.findSome? (r.leading? (r.numbering filenames) o.number) = some o := by
  have hfind := find?_of_mem_argmin h
  rw [overflowsOf, Numbering.overflows, PendingName.allDeferred, List.filterMap_flatMap,
    List.find?_flatMap, pending_attempts, ← List.head?_filterMap, List.filterMap_filterMap,
    List.head?_filterMap] at hfind
  exact hfind

/-- A collection that a field which is too wide keeps from its names has none in any order. -/
theorem rename_tooWide_of_perm (h : filenames.Perm others)
    (hfails : r.rename filenames = .error .paddingTooWide) :
    r.rename others = .error .paddingTooWide := by
  rcases firstStop?_eq_none_or_tooWide (r := r) others with hstop | hwide
  · have hothers := rename_of_lowest? hstop
    have hfilenames := rename_of_lowest? (firstStop?_eq_none_of_subset h.subset hstop)
    cases hlowest : r.lowest? others with
    | some o =>
      -- then a number would be too long in the first order as well
      obtain ⟨other, hother, -⟩ := exists_lowest?_of_perm h.symm hlowest
      rw [hother] at hfilenames
      rw [hfails] at hfilenames
      simp at hfilenames
    | none =>
      rw [hlowest] at hothers
      rcases hothers with hwide | ⟨report, hreport⟩
      · exact hwide
      · obtain ⟨found, hfound, -⟩ := exists_rename_of_perm h.symm hreport
        rw [hfails] at hfound
        simp at hfound
  · exact hwide

/-- A collection that fails does so in every order. A field that is too wide is the reason in every
order or in none, and so is a number that is too long, with its value. The width that is named with
it is the same in every order exactly if the first field that is too narrow for the number has this
width in all files with such a field. -/
theorem rename_error_perm (r : Renamer) {filenames : List String} {failure : Failure}
    (h : r.rename filenames = .error failure) :
    (failure = .paddingTooWide ∧
      ∀ others, filenames.Perm others → r.rename others = .error .paddingTooWide) ∨
    ∃ o : Numbering.Overflow, failure = .widthOverflow o.value o.number o.width ∧
      r.Overflows filenames o ∧
      (∀ others, filenames.Perm others →
        ∃ width, r.rename others = .error (.widthOverflow o.value o.number width)) ∧
      ((∀ others, filenames.Perm others → r.rename others = .error failure) ↔
        ∀ filename ∈ filenames, ∀ other,
          r.leading? (r.numbering filenames) o.number filename = some other →
            other.width = o.width) := by
  rcases firstStop?_eq_none_or_tooWide (r := r) filenames with hstop | hwide
  · have hfilenames := rename_of_lowest? hstop
    cases hlowest : r.lowest? filenames with
    | none =>
      rw [hlowest] at hfilenames
      rcases hfilenames with hwide | ⟨report, hreport⟩
      · exact Or.inl ⟨Except.error.inj (h.symm.trans hwide), fun others hperm =>
          rename_tooWide_of_perm hperm hwide⟩
      · rw [hreport] at h
        simp at h
    | some o =>
      rw [hlowest] at hfilenames
      dsimp only at hfilenames
      obtain rfl := Except.error.inj (h.symm.trans hfilenames)
      -- every order has the same number and its own first field
      have hevery : ∀ others, filenames.Perm others → ∃ width,
          r.rename others = .error (.widthOverflow o.value o.number width) ∧
            others.findSome? (r.leading? (r.numbering filenames) o.number) =
              some ⟨o.number, o.value, width⟩ := by
        intro others hperm
        obtain ⟨⟨number, value, width⟩, hother, rfl, rfl⟩ := exists_lowest?_of_perm hperm hlowest
        have hothers := rename_of_lowest? (firstStop?_eq_none_of_subset hperm.symm.subset hstop)
        have hfirst := lowest?_eq_findSome? hother
        rw [hother] at hothers
        rw [← numbering_eq_of_perm hperm] at hfirst
        exact ⟨width, hothers, hfirst⟩
      refine Or.inr ⟨o, rfl, ?_, fun others hperm => ?_, ?_⟩
      · rw [overflows_iff]
        obtain ⟨d, hd, hoverflow⟩ := List.mem_filterMap.mp (List.argmin_mem hlowest)
        exact ⟨d, hd, Numbering.overflow?_eq_some_iff.mp hoverflow⟩
      · obtain ⟨width, hwidth, -⟩ := hevery others hperm
        exact ⟨width, hwidth⟩
      · rw [← forall_perm_findSome?_iff]
        refine forall₂_congr fun others hperm => ?_
        obtain ⟨width, hwidth, hfirst⟩ := hevery others hperm
        rw [hwidth, hfirst]
        constructor
        · intro heq other hother
          obtain rfl := Option.some.inj hother
          simpa using heq
        · intro hall
          obtain rfl : width = o.width := hall _ rfl
          rfl
  · exact Or.inl ⟨Except.error.inj (h.symm.trans hwide), fun others hperm =>
      rename_tooWide_of_perm hperm hwide⟩

/-- Ten channels are one too many for a digit, in every order. -/
theorem rename_error_perm_channels :
    channels.rename ["j.tif", "a.tif", "b.tif", "c.tif", "d.tif", "e.tif", "f.tif", "g.tif",
      "h.tif", "i.tif"] = .error (.widthOverflow "j" 10 1) ∧
    ∀ others, ["j.tif", "a.tif", "b.tif", "c.tif", "d.tif", "e.tif", "f.tif", "g.tif", "h.tif",
      "i.tif"].Perm others → channels.rename others = .error (.widthOverflow "j" 10 1) := by
  have h : channels.rename ["j.tif", "a.tif", "b.tif", "c.tif", "d.tif", "e.tif", "f.tif", "g.tif",
      "h.tif", "i.tif"] = .error (.widthOverflow "j" 10 1) := by decide +kernel
  refine ⟨h, ?_⟩
  rcases rename_error_perm channels h with ⟨hwide, -⟩ | ⟨⟨number, value, width⟩, heq, -, -, hsame⟩
  · simp at hwide
  · obtain ⟨rfl, rfl, rfl⟩ := Failure.widthOverflow.inj heq
    rw [hsame]
    have hwidths : ∀ filename ∈ ["j.tif", "a.tif", "b.tif", "c.tif", "d.tif", "e.tif", "f.tif",
        "g.tif", "h.tif", "i.tif"], ((channels.leading? (channels.numbering ["j.tif", "a.tif",
          "b.tif", "c.tif", "d.tif", "e.tif", "f.tif", "g.tif", "h.tif", "i.tif"]) 10
            filename).map Numbering.Overflow.width).getD 1 = 1 := by decide +kernel
    intro filename hfilename other hother
    have hwidth := hwidths filename hfilename
    rwa [hother] at hwidth

/-- Two numbers of fixed widths and one without a width. -/
def twoWidths : Renamer where
  input := ⟨[.field ⟨"a", .character .unbounded⟩, .literal "_",
    .field ⟨"b", .character .unbounded⟩, .literal "_", .field ⟨"c", .character .unbounded⟩]⟩
  output := ⟨[.field ⟨"a", .digit (.fixed 1)⟩, .literal "_", .field ⟨"b", .digit (.fixed 2)⟩,
    .literal "_", .field ⟨"c", .digit .unbounded⟩]⟩
  fieldCount_eq := rfl
  compiledSize_le := by decide +kernel

/-- Names with 98 values between `A` and `z`, in the field without a width. -/
def between : List String :=
  "nmlkjihgfedcba".toList.flatMap fun c =>
    "gfedcba".toList.map fun d => "A_A_" ++ String.ofList [c, d]

/-- The hundredth value stands in a field of one digit and in one of two, and the first one of them
is named. -/
theorem width_depends_on_order :
    ofTexts "{a:c+}_{b:c+}_{c:c+}" "{a:d}_{b:dd}_{c:d+}" =
        .ok twoWidths ∧
      ("z_A_A" :: "A_z_A" :: between).Perm ("A_z_A" :: "z_A_A" :: between) ∧
      twoWidths.rename ("z_A_A" :: "A_z_A" :: between) = .error (.widthOverflow "z" 100 1) ∧
      twoWidths.rename ("A_z_A" :: "z_A_A" :: between) = .error (.widthOverflow "z" 100 2) := by
  refine ⟨?_, List.Perm.swap .., by decide +kernel, by decide +kernel⟩
  rw [ofTexts_eq_ok_iff]
  decide +kernel

end Renamer

end PatternRename
