import Mathlib.Algebra.Ring.Nat
import Mathlib.Data.Finset.Card
import Mathlib.Data.Finset.Dedup
import Mathlib.Data.List.MinMax
import PatternRename.Proofs.Outcomes
import PatternRename.Proofs.Text.Padding
import PatternRename.Renaming.Numbering

/-!
# Ranks

The number of a value is its rank in the set of all numbered values: one more than the number of
values with lesser octets. The check of a collection names the least number that is too long.

## Main definitions

- `rank` — the place of a value in a set of values
- `Numbering.Exceeds`, `Numbering.overflows` — waiting values whose numbers are too long for their
  fields, and these numbers in order
- `Numbering.Gives` — the text of a segment
- `Numbering.IsLowest` — the least one of some overflows, if there are any

## Main results

- `Numbering.number?_ofValues` — the number of a value is its rank
- `Numbering.ofValues_eq_of_mem_iff` — a numbering is known by the set of its values
- `Numbering.check_eq_argmin` — the check finds the first one of the least overflows
- `Numbering.exists_finish_of_check` — names that pass the check can be finished
-/

namespace PatternRename

theorem not_octetsLt_self (a : String) : ¬ octetsLt a a :=
  List.lt_irrefl _

theorem not_octetsLt_of_octetsLt {a b : String} (h : octetsLt a b) : ¬ octetsLt b a :=
  fun hba => not_octetsLt_self a (octetsLt_trans h hba)

/-! ### Ranks in a set of values -/

/-- The place of a value in a set of values, counted from one in the order of octets. -/
def rank (values : Finset String) (value : String) : Nat :=
  1 + (values.filter fun other => octetsLt other value).card

theorem one_le_rank (values : Finset String) (value : String) : 1 ≤ rank values value :=
  Nat.le_add_right 1 _

theorem rank_lt_rank {values : Finset String} {a b : String} (ha : a ∈ values)
    (h : octetsLt a b) : rank values a < rank values b := by
  rw [rank, rank, Nat.add_lt_add_iff_left]
  apply Finset.card_lt_card
  rw [Finset.ssubset_iff_of_subset]
  · refine ⟨a, ?_, ?_⟩
    · rw [Finset.mem_filter]
      exact ⟨ha, h⟩
    · rw [Finset.mem_filter]
      rintro ⟨-, hself⟩
      exact not_octetsLt_self a hself
  · intro other hother
    rw [Finset.mem_filter] at hother ⊢
    exact ⟨hother.1, octetsLt_trans hother.2 h⟩

/-- No two values of a set have the same rank. -/
theorem rank_injOn {values : Finset String} {a b : String} (ha : a ∈ values) (hb : b ∈ values)
    (h : rank values a = rank values b) : a = b := by
  by_contra hne
  have hlt : octetsLt a b ∨ octetsLt b a := by
    by_cases hab : octetsLt a b
    · exact Or.inl hab
    · exact Or.inr (octetsLt_of_not_lt_of_ne hab hne)
  rcases hlt with hab | hba
  · have := rank_lt_rank ha hab
    omega
  · have := rank_lt_rank hb hba
    omega

/-! ### Numbers are ranks -/

/-- In a sorted list, a value stands behind exactly the lesser ones. -/
theorem idxOf_eq_countP {values : List String} (hsorted : values.Pairwise octetsLt)
    {value : String} (h : value ∈ values) :
    values.idxOf value = values.countP fun other => decide (octetsLt other value) := by
  induction values with
  | nil => simp at h
  | cons first rest ih =>
    obtain ⟨hfirst, hrest⟩ := List.pairwise_cons.mp hsorted
    by_cases heq : first = value
    · subst heq
      -- no later value is less than the first one
      have hnone : rest.countP (fun other => decide (octetsLt other first)) = 0 := by
        rw [List.countP_eq_zero]
        intro other hother
        rw [decide_eq_true_eq]
        exact not_octetsLt_of_octetsLt (hfirst other hother)
      rw [List.idxOf_cons_self, List.countP_cons, hnone, if_neg]
      rw [decide_eq_true_eq]
      exact not_octetsLt_self first
    · -- the first value is one of the lesser ones
      have hmem : value ∈ rest := (List.mem_cons.mp h).resolve_left (Ne.symm heq)
      rw [List.idxOf_cons_ne _ heq, List.countP_cons, ih hrest hmem, if_pos]
      rw [decide_eq_true_eq]
      exact hfirst value hmem

namespace Numbering

theorem nodup (numbering : Numbering) : numbering.values.Nodup := by
  apply numbering.sorted.imp
  rintro a b hlt rfl
  exact not_octetsLt_self a hlt

theorem number?_eq_some_rank (numbering : Numbering) {value : String}
    (h : value ∈ numbering.values) :
    numbering.number? value = some (rank numbering.values.toFinset value) := by
  have hindex : numbering.values.idxOf? value = some (numbering.values.idxOf value) := by
    rw [List.idxOf?_eq_some_iff]
    have hlt := List.idxOf_lt_length_of_mem h
    refine ⟨hlt, List.getElem_idxOf hlt, ?_⟩
    intro j hj
    exact ne_of_beq_false (List.not_of_lt_findIdx hj)
  -- a sorted list has no value twice, so counting in it is counting in the set
  have hcount : numbering.values.countP (fun other => decide (octetsLt other value)) =
      (numbering.values.toFinset.filter fun other => octetsLt other value).card := by
    rw [List.countP_eq_length_filter, ← List.toFinset_card_of_nodup (numbering.nodup.filter _),
      List.toFinset_filter]
    simp only [decide_eq_true_eq]
  rw [number?, hindex, Option.map_some, idxOf_eq_countP numbering.sorted h, hcount, rank,
    Nat.add_comm]

theorem mem_values_foldl_insert {numbering : Numbering} {values : List String} {value : String} :
    value ∈ (values.foldl insert numbering).values ↔
      value ∈ numbering.values ∨ value ∈ values := by
  induction values generalizing numbering with
  | nil => simp
  | cons first rest ih =>
    have hinsert : value ∈ (numbering.insert first).values ↔
        value = first ∨ value ∈ numbering.values := mem_insertValue
    rw [List.foldl_cons, ih, hinsert, List.mem_cons]
    tauto

/-- A numbering has exactly the values that it is made of. -/
theorem mem_values_ofValues {values : List String} {value : String} :
    value ∈ (ofValues values).values ↔ value ∈ values := by
  rw [ofValues, mem_values_foldl_insert]
  exact or_iff_right List.not_mem_nil

theorem toFinset_values_ofValues (values : List String) :
    (ofValues values).values.toFinset = values.toFinset := by
  ext value
  rw [List.mem_toFinset, List.mem_toFinset, mem_values_ofValues]

/-- A numbering is known by its values, since they are sorted. -/
theorem eq_of_mem_iff {numbering other : Numbering}
    (h : ∀ value, value ∈ numbering.values ↔ value ∈ other.values) : numbering = other := by
  have hperm : numbering.values.Perm other.values :=
    (List.perm_ext_iff_of_nodup numbering.nodup other.nodup).mpr h
  have hvalues : numbering.values = other.values := by
    refine hperm.eq_of_pairwise ?_ numbering.sorted other.sorted
    intro a b _ _ hab hba
    exact absurd hba (not_octetsLt_of_octetsLt hab)
  obtain ⟨values, sorted⟩ := numbering
  obtain ⟨others, sortedOthers⟩ := other
  obtain rfl : values = others := hvalues
  rfl

/-- Neither the order of values nor how often they come matters to a numbering. -/
theorem ofValues_eq_of_mem_iff {values others : List String}
    (h : ∀ value, value ∈ values ↔ value ∈ others) : ofValues values = ofValues others := by
  apply eq_of_mem_iff
  intro value
  rw [mem_values_ofValues, mem_values_ofValues, h]

/-- The number of a value is its rank among the values of the numbering. -/
theorem number?_ofValues {values : List String} {value : String} (h : value ∈ values) :
    (ofValues values).number? value = some (rank values.toFinset value) := by
  rw [← toFinset_values_ofValues]
  apply number?_eq_some_rank
  rwa [← List.mem_toFinset, toFinset_values_ofValues, List.mem_toFinset]

/-- No two values have the same number. -/
theorem eq_of_number?_eq {numbering : Numbering} {a b : String} {n : Nat}
    (ha : numbering.number? a = some n) (hb : numbering.number? b = some n) : a = b := by
  rw [number?, Option.map_eq_some_iff] at ha hb
  obtain ⟨i, hi, rfl⟩ := ha
  obtain ⟨j, hj, hij⟩ := hb
  obtain rfl : j = i := Nat.succ.inj hij
  obtain ⟨hlt, hai, -⟩ := List.idxOf?_eq_some_iff.mp hi
  obtain ⟨hlt', hbi, -⟩ := List.idxOf?_eq_some_iff.mp hj
  rw [← hai, ← hbi]

theorem one_le_of_number? {numbering : Numbering} {value : String} {n : Nat}
    (h : numbering.number? value = some n) : 1 ≤ n := by
  rw [number?, Option.map_eq_some_iff] at h
  obtain ⟨i, -, rfl⟩ := h
  exact Nat.le_add_left 1 i

/-! ### The least overflow -/

end Numbering

namespace Numbering

/-- A waiting value whose number is too long for its field. -/
structure Exceeds (numbering : Numbering) (waiting : Deferred) (o : Overflow) : Prop where
  raw_eq : waiting.raw = o.value
  width_eq : waiting.width = .fixed o.width
  number?_eq : numbering.number? o.value = some o.number
  le_number : 10 ^ o.width ≤ o.number

/-- The least one of some overflows, if there are any. -/
def IsLowest (overflows : Overflow → Prop) : Option Overflow → Prop
  | none => ∀ o, ¬ overflows o
  | some lowest => overflows lowest ∧ ∀ o, overflows o → lowest.number ≤ o.number

theorem IsLowest.congr {overflows others : Overflow → Prop} {lowest : Option Overflow}
    (h : IsLowest overflows lowest) (heq : ∀ o, overflows o ↔ others o) :
    IsLowest others lowest := by
  have : overflows = others := funext fun o => propext (heq o)
  rwa [← this]

/-- What the least overflow so far becomes with one more number. -/
def lower : Option Overflow → Overflow → Option Overflow
  | none, o => if 10 ^ o.width ≤ o.number then some o else none
  | some least, o =>
    if 10 ^ o.width ≤ o.number ∧ o.number < least.number then some o else some least

theorem lowestOverflow_cons_fixed {numbering : Numbering} {lowest : Option Overflow}
    {waiting : Deferred} {rest : List Deferred} {width n : Nat}
    (hwidth : waiting.width = .fixed width) (hn : numbering.number? waiting.raw = some n) :
    numbering.lowestOverflow lowest (waiting :: rest) =
      numbering.lowestOverflow (lower lowest ⟨n, waiting.raw, width⟩) rest := by
  have hlong := Text.lt_digitCount_iff (one_le_of_number? hn) width
  rw [lowestOverflow, hwidth]
  simp only [number, hn]
  cases lowest with
  | none =>
    rw [lower]
    by_cases hle : 10 ^ width ≤ n <;> simp [hlong, hle]
  | some least =>
    rw [lower]
    by_cases hle : 10 ^ width ≤ n <;>
      by_cases hless : n < least.number <;> simp [hlong, hle, hless]

/-- The number of a waiting value, if it is too long for its field. -/
def overflow? (numbering : Numbering) (waiting : Deferred) : Option Overflow :=
  match waiting.width, numbering.number? waiting.raw with
  | .fixed width, some n => if 10 ^ width ≤ n then some ⟨n, waiting.raw, width⟩ else none
  | _, _ => none

/-- The numbers of waiting values that are too long for their fields. -/
def overflows (numbering : Numbering) (waiting : List Deferred) : List Overflow :=
  waiting.filterMap numbering.overflow?

variable {numbering : Numbering} {waiting : Deferred}

theorem overflow?_of_unbounded (hwidth : waiting.width = .unbounded) :
    numbering.overflow? waiting = none := by
  rw [overflow?, hwidth]

theorem overflow?_of_fixed {width n : Nat} (hwidth : waiting.width = .fixed width)
    (hn : numbering.number? waiting.raw = some n) :
    numbering.overflow? waiting =
      if 10 ^ width ≤ n then some ⟨n, waiting.raw, width⟩ else none := by
  rw [overflow?, hwidth, hn]

theorem overflow?_eq_some_iff {o : Overflow} :
    numbering.overflow? waiting = some o ↔ numbering.Exceeds waiting o := by
  constructor
  · intro h
    rw [overflow?] at h
    split at h
    · rename_i width n hwidth hn
      rw [Option.ite_none_right_eq_some, Option.some.injEq] at h
      obtain ⟨hle, rfl⟩ := h
      exact ⟨rfl, hwidth, hn, hle⟩
    · simp at h
  · rintro ⟨hraw, hwidth, hn, hle⟩
    rw [overflow?_of_fixed hwidth (hraw ▸ hn), if_pos hle, hraw]

/-- The check keeps the first one of the lowest numbers so far. -/
theorem lowestOverflow_eq_foldl {waiting : List Deferred} {lowest : Option Overflow}
    (hnumbered : ∀ d ∈ waiting, ∃ n, numbering.number? d.raw = some n) :
    numbering.lowestOverflow lowest waiting =
      .ok ((numbering.overflows waiting).foldl
        (List.argAux fun o least => o.number < least.number) lowest) := by
  induction waiting generalizing lowest with
  | nil => rfl
  | cons d rest ih =>
    obtain ⟨n, hn⟩ := hnumbered d List.mem_cons_self
    have hrest : ∀ e ∈ rest, ∃ n, numbering.number? e.raw = some n := fun e he =>
      hnumbered e (List.mem_cons_of_mem d he)
    cases hwidth : d.width with
    | unbounded =>
      rw [lowestOverflow, hwidth, overflows,
        List.filterMap_cons_none (overflow?_of_unbounded hwidth)]
      exact ih hrest
    | fixed width =>
      have hoverflow := overflow?_of_fixed hwidth hn
      rw [lowestOverflow_cons_fixed hwidth hn, ih hrest, overflows, overflows]
      by_cases hle : 10 ^ width ≤ n
      · rw [if_pos hle] at hoverflow
        rw [List.filterMap_cons_some hoverflow, List.foldl_cons]
        cases lowest with
        | none => rw [lower, if_pos hle]; rfl
        | some least => simp only [lower, hle, true_and]; rfl
      · rw [if_neg hle] at hoverflow
        rw [List.filterMap_cons_none hoverflow]
        cases lowest with
        | none => rw [lower, if_neg hle]
        | some least => rw [lower, if_neg fun h => hle h.1]

/-- Every waiting value of a collection has a number. -/
theorem number?_ofNames {names : List PendingName} {d : Deferred}
    (h : d ∈ PendingName.allDeferred names) :
    (ofNames names).number? d.raw =
      some (rank ((PendingName.allDeferred names).map Deferred.raw).toFinset d.raw) :=
  number?_ofValues (List.mem_map_of_mem h)

/-- The check fails with the first one of the lowest numbers that are too long. -/
theorem check_eq_argmin (names : List PendingName) :
    (ofNames names).check names =
      match ((ofNames names).overflows (PendingName.allDeferred names)).argmin Overflow.number with
      | none => .ok ()
      | some o => .error (.widthOverflow o.value o.number o.width) := by
  generalize hfound : ((ofNames names).overflows (PendingName.allDeferred names)).argmin
    Overflow.number = found
  have hlowest : (ofNames names).lowestOverflow none (PendingName.allDeferred names) =
      .ok found := by
    rw [lowestOverflow_eq_foldl fun d hd => ⟨_, number?_ofNames hd⟩, ← hfound]
    rfl
  rw [check, hlowest]
  cases found <;> rfl

theorem isLowest_argmin (found : List Overflow) :
    IsLowest (· ∈ found) (found.argmin Overflow.number) := by
  cases h : found.argmin Overflow.number with
  | none =>
    rw [List.argmin_eq_none] at h
    rw [h]
    exact fun o => List.not_mem_nil
  | some o => exact ⟨List.argmin_mem h, fun other hother => List.le_of_mem_argmin hother h⟩

/-- The outcome of the check is decided by the least overflow. -/
theorem check_ofNames (names : List PendingName) :
    ∃ found, IsLowest
        (fun o => ∃ d ∈ PendingName.allDeferred names, (ofNames names).Exceeds d o) found ∧
      (ofNames names).check names =
        match found with
        | none => .ok ()
        | some o => .error (.widthOverflow o.value o.number o.width) := by
  refine ⟨_, (isLowest_argmin _).congr fun o => ?_, check_eq_argmin names⟩
  rw [overflows, List.mem_filterMap]
  simp only [overflow?_eq_some_iff]

theorem check_eq_ok_iff (names : List PendingName) :
    (ofNames names).check names = .ok () ↔
      ∀ d ∈ PendingName.allDeferred names, ∀ o, ¬ (ofNames names).Exceeds d o := by
  obtain ⟨found, hlowest, hcheck⟩ := check_ofNames names
  rw [hcheck]
  cases found with
  | none => exact iff_of_true rfl fun d hd o ho => hlowest o ⟨d, hd, ho⟩
  | some o =>
    obtain ⟨⟨d, hd, ho⟩, -⟩ := hlowest
    exact iff_of_false (by simp) fun hnone => hnone d hd o ho

/-! ### Names that pass the check -/

def numberText (n : Nat) : Width → String
  | .fixed width => String.ofList (Text.zeroPad width (Text.digits n))
  | .unbounded => String.ofList (Text.digits n)

theorem writeNumber_eq_ok {value text : String} {n : Nat} {w : Width}
    (h : writeNumber value n w = .ok text) : text = numberText n w := by
  cases w with
  | unbounded => exact (Except.ok.inj h).symm
  | fixed width =>
    rw [writeNumber] at h
    split at h
    · simp at h
    · split at h
      · simp at h
      · exact (Except.ok.inj h).symm

/-- A number that is not too long for a field of allowed width can be written. -/
theorem writeNumber_numberText {value : String} {n : Nat} (hn : 1 ≤ n) {w : Width}
    (hfit : ∀ width, w = .fixed width → width ≤ Text.maxPadding ∧ ¬ 10 ^ width ≤ n) :
    writeNumber value n w = .ok (numberText n w) := by
  cases w with
  | unbounded => rfl
  | fixed width =>
    obtain ⟨hpadding, hshort⟩ := hfit width rfl
    rw [writeNumber, if_neg (mt (Text.lt_digitCount_iff hn width).mp hshort),
      if_neg (Nat.not_lt.mpr hpadding)]
    rfl

/-- A text that stands for a segment once the numbers are known. -/
def Gives (numbering : Numbering) (segment : Segment) (text : String) : Prop :=
  numbering.segmentText segment = .ok text

theorem segmentTexts_eq_mapM (numbering : Numbering) (segments : List Segment) :
    numbering.segmentTexts segments = segments.mapM numbering.segmentText := by
  induction segments with
  | nil => rfl
  | cons segment rest ih =>
    rw [segmentTexts, List.mapM_cons, ih]
    cases numbering.segmentText segment with
    | error failure => rfl
    | ok text => cases rest.mapM numbering.segmentText <;> rfl

theorem finish_eq_ok_iff {numbering : Numbering} {name : PendingName} {target : String} :
    numbering.finish name = .ok target ↔
      ∃ texts, List.Forall₂ numbering.Gives name.segments texts ∧ target = String.join texts := by
  rw [finish, map_eq_ok_iff]
  apply exists_congr
  intro texts
  rw [segmentTexts_eq_mapM, mapM_eq_ok_iff, eq_comm (a := target)]
  rfl

/-- What waits in names is what waits in the segments of one of them. -/
theorem mem_allDeferred_iff {names : List PendingName} {d : Deferred} :
    d ∈ PendingName.allDeferred names ↔ ∃ name ∈ names, .deferred d ∈ name.segments := by
  rw [PendingName.allDeferred, List.mem_flatMap]
  refine exists_congr fun name => and_congr_right' ?_
  rw [PendingName.deferred, List.mem_filterMap]
  constructor
  · rintro ⟨segment, hsegment, hd⟩
    cases segment with
    | text known => simp [Segment.deferred?] at hd
    | deferred other =>
      obtain rfl : other = d := Option.some.inj hd
      exact hsegment
  · exact fun hd => ⟨_, hd, rfl⟩

theorem mem_allDeferred {names : List PendingName} {name : PendingName} (hname : name ∈ names)
    {d : Deferred} (hd : .deferred d ∈ name.segments) : d ∈ PendingName.allDeferred names :=
  mem_allDeferred_iff.mpr ⟨name, hname, hd⟩

/-- Once the check has passed, every name of the collection can be finished: no value is without
a number, and no number is too long for its field. -/
theorem exists_finish_of_check {names : List PendingName}
    (hwidth : ∀ d ∈ PendingName.allDeferred names, ∀ width, d.width = .fixed width →
      width ≤ Text.maxPadding)
    (hcheck : (ofNames names).check names = .ok ()) {name : PendingName} (hname : name ∈ names) :
    ∃ target, (ofNames names).finish name = .ok target := by
  rw [check_eq_ok_iff] at hcheck
  have hsegment : ∀ segment ∈ name.segments, ∃ text,
      (ofNames names).segmentText segment = .ok text := by
    intro segment hsegment
    cases segment with
    | text known => exact ⟨known, rfl⟩
    | deferred d =>
      have hd := mem_allDeferred hname hsegment
      -- its number is there, and it fits
      have hn := number?_ofNames hd
      rw [segmentText, number, hn]
      refine ⟨_, writeNumber_numberText (one_le_rank _ _) ?_⟩
      intro width hfixed
      exact ⟨hwidth d hd width hfixed, fun hle =>
        hcheck d hd ⟨_, d.raw, width⟩ ⟨rfl, hfixed, hn, hle⟩⟩
  obtain ⟨texts, htexts⟩ := exists_mapM_eq_ok hsegment
  exact ⟨_, finish_eq_ok_iff.mpr ⟨texts, mapM_eq_ok_iff.mp htexts, rfl⟩⟩

end Numbering

end PatternRename
