import PatternRename.Proofs.Renaming.Ranks

/-!
# Entries of a numbering

The entries of a numbering are its values with their numbers, both in ascending order. The numbers
are those from one up to the count of different values, so a numbering and its values say the same:
numberings are equal exactly if they are made of the same values.

## Main results

- `Numbering.number?_eq_none_iff`, `Numbering.mem_entries_iff` — looking up a value
- `Numbering.pairwise_entries`, `Numbering.map_snd_entries` — the order of the entries
- `Numbering.ofValues_eq_iff` — equal numberings
- `Numbering.ofValues_outcome` — the numbering of any values, and of the values that wait in names
-/

namespace PatternRename.Numbering

/-! ### Looking up a value -/

theorem number?_eq_none_iff {numbering : Numbering} {value : String} :
    numbering.number? value = none ↔ value ∉ numbering.values := by
  rw [number?, Option.map_eq_none_iff, List.idxOf?_eq_none_iff]

/-- A value has the number that stands beside it. -/
theorem mem_entries_iff {numbering : Numbering} {value : String} {n : Nat} :
    (value, n) ∈ numbering.entries ↔ numbering.number? value = some n := by
  rw [entries, number?, Option.map_eq_some_iff, List.mk_mem_zipIdx_iff_le_and_getElem?_sub]
  constructor
  · rintro ⟨hle, hvalue⟩
    refine ⟨n - 1, ?_, by omega⟩
    obtain ⟨hlt, hget⟩ := List.getElem?_eq_some_iff.mp hvalue
    rw [List.idxOf?_eq_some_iff]
    refine ⟨hlt, hget, ?_⟩
    -- no value stands at two places
    intro j hj hsame
    have hplaces := (numbering.nodup.getElem_inj_iff).mp (hsame.trans hget.symm)
    omega
  · rintro ⟨i, hi, rfl⟩
    obtain ⟨hlt, hget, -⟩ := List.idxOf?_eq_some_iff.mp hi
    exact ⟨by omega, List.getElem?_eq_some_iff.mpr ⟨hlt, hget⟩⟩

/-! ### The order of the entries -/

theorem map_fst_entries (numbering : Numbering) :
    numbering.entries.map Prod.fst = numbering.values :=
  List.zipIdx_map_fst 1 numbering.values

theorem map_snd_entries (numbering : Numbering) :
    numbering.entries.map Prod.snd = List.range' 1 numbering.size :=
  List.zipIdx_map_snd 1 numbering.values

/-- Both the values and the numbers of the entries ascend. -/
theorem pairwise_entries (numbering : Numbering) :
    numbering.entries.Pairwise fun a b => octetsLt a.1 b.1 ∧ a.2 < b.2 := by
  rw [List.pairwise_and_iff]
  constructor
  · rw [← List.pairwise_map, map_fst_entries]
    exact numbering.sorted
  · rw [← List.pairwise_map, map_snd_entries]
    exact List.pairwise_lt_range'

/-! ### Equal numberings -/

/-- Numberings are equal exactly if they are made of the same values. -/
theorem ofValues_eq_iff {values others : List String} :
    ofValues values = ofValues others ↔ ∀ value, value ∈ values ↔ value ∈ others := by
  constructor
  · intro h value
    rw [← mem_values_ofValues, h, mem_values_ofValues]
  · exact ofValues_eq_of_mem_iff

/-- A numbering has as many values as it is made of different ones. -/
theorem size_ofValues (values : List String) :
    (ofValues values).size = values.toFinset.card := by
  rw [size, ← toFinset_values_ofValues, List.toFinset_card_of_nodup (nodup _)]

/-- The numbering of pending names is that of any values which are the ones that wait in them. -/
theorem ofNames_eq_ofValues_iff {names : List PendingName} {values : List String} :
    ofNames names = ofValues values ↔ ∀ value, value ∈ values ↔
      ∃ name ∈ names, ∃ d, .deferred d ∈ name.segments ∧ d.raw = value := by
  rw [eq_comm, ofNames, ofValues_eq_iff]
  refine forall_congr' fun value => iff_congr Iff.rfl ?_
  simp only [List.mem_map, mem_allDeferred_iff]
  constructor
  · rintro ⟨d, ⟨name, hname, hd⟩, hraw⟩
    exact ⟨name, hname, d, hd, hraw⟩
  · rintro ⟨name, hname, d, hd, hraw⟩
    exact ⟨d, ⟨name, hname, hd⟩, hraw⟩

/-- The numbering of any values. A value has its rank as its number, counted among the different
values in the order of their octets, and no other text has a number. The numbers are those from one
up to the count of different values. The entries are the values with their numbers, and both ascend.
Numberings are equal exactly if they are made of the same values, and the numbering of pending names
is made of exactly the values that wait in their segments. -/
theorem ofValues_outcome (values : List String) :
    (∀ value ∈ values, (ofValues values).number? value = some (rank values.toFinset value)) ∧
      (∀ value, value ∉ values → (ofValues values).number? value = none) ∧
      (ofValues values).size = values.toFinset.card ∧
      (ofValues values).entries.map Prod.snd = List.range' 1 (ofValues values).size ∧
      (∀ value n, (value, n) ∈ (ofValues values).entries ↔
        (ofValues values).number? value = some n) ∧
      (ofValues values).entries.Pairwise (fun a b => octetsLt a.1 b.1 ∧ a.2 < b.2) ∧
      (∀ others, ofValues values = ofValues others ↔ ∀ value, value ∈ values ↔ value ∈ others) ∧
      ∀ names : List PendingName, ofNames names = ofValues values ↔
        ∀ value, value ∈ values ↔
          ∃ name ∈ names, ∃ d, .deferred d ∈ name.segments ∧ d.raw = value := by
  refine ⟨fun value h => number?_ofValues h, fun value h => ?_, size_ofValues values,
    map_snd_entries _, fun value n => mem_entries_iff, pairwise_entries _,
    fun others => ofValues_eq_iff, fun names => ofNames_eq_ofValues_iff⟩
  rwa [number?_eq_none_iff, mem_values_ofValues]

theorem ofValues_outcome_channels :
    (ofValues ["TXRED", "DAPI", "GFP", "DAPI"]).number? "GFP" =
        some (rank ["TXRED", "DAPI", "GFP", "DAPI"].toFinset "GFP") ∧
      (ofValues ["TXRED", "DAPI", "GFP", "DAPI"]).number? "gfp" = none ∧
      (ofValues ["TXRED", "DAPI", "GFP", "DAPI"]).entries = [("DAPI", 1), ("GFP", 2), ("TXRED", 3)] ∧
      ofValues ["TXRED", "DAPI", "GFP", "DAPI"] = ofValues ["GFP", "TXRED", "DAPI"] := by
  obtain ⟨hnumbered, hnone, -, -, -, -, hequal, -⟩ :=
    ofValues_outcome ["TXRED", "DAPI", "GFP", "DAPI"]
  refine ⟨hnumbered "GFP" (by decide), hnone "gfp" (by decide), by decide +kernel, ?_⟩
  rw [hequal]
  intro value
  simp only [List.mem_cons, List.not_mem_nil, or_false]
  tauto

end PatternRename.Numbering
