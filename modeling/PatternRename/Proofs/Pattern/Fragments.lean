import Mathlib.Data.List.Chain
import PatternRename.Pattern.Fragment
import PatternRename.Proofs.Text.Octets
import PatternRename.Proofs.Text.Words

/-!
# Fragments of a text

The fragments of a text are words without braces. Written one behind another, with braces around
the placeholders, they are found again if no two literals stand side by side: nothing would part
these from each other.

## Main definitions

- `IsPiece` — a word that no brace cuts
- `Fragment.render` — a fragment in a pattern
- `Fragment.Apart` — a brace stands between two fragments

## Main results

- `Fragment.isPiece_of_ofText` — the fragments of a text are words without braces
- `Fragment.ofText_render` — fragments that are apart are found again
-/

namespace PatternRename

/-- A word that no brace cuts. -/
structure IsPiece (cs : List Char) : Prop where
  word : Text.IsWord cs
  no_open : '{' ∉ cs
  no_close : '}' ∉ cs

theorem IsPiece.append {front back : List Char} (hfront : IsPiece front) (hback : IsPiece back) :
    IsPiece (front ++ back) where
  word := hfront.word.append hback.word
  no_open := by
    rw [List.mem_append, not_or]
    exact ⟨hfront.no_open, hback.no_open⟩
  no_close := by
    rw [List.mem_append, not_or]
    exact ⟨hfront.no_close, hback.no_close⟩

namespace Fragment

def chars : Fragment → List Char
  | .literal text => text.toList
  | .placeholder text => text.toList

/-- A fragment in a pattern: a placeholder stands in braces. -/
def render : Fragment → List Char
  | .literal text => text.toList
  | .placeholder text => '{' :: (text.toList ++ ['}'])

def IsLiteral : Fragment → Prop
  | .literal _ => True
  | .placeholder _ => False

/-- A brace stands between two fragments, one behind the other. -/
def Apart (f g : Fragment) : Prop :=
  f.IsLiteral → ¬ g.IsLiteral

/-! ### One character -/

theorem scan_open (offset : Nat) (piece : List Char) (found : List Fragment) (rest : List Char) :
    scan offset none piece found ('{' :: rest) =
      scan (offset + '{'.utf8Size) (some offset) [] ((ofPiece? false piece).toList ++ found)
        rest := by
  rw [scan.eq_def]
  rfl

theorem scan_close (offset start : Nat) (piece : List Char) (found : List Fragment)
    (rest : List Char) :
    scan offset (some start) piece found ('}' :: rest) =
      scan (offset + '}'.utf8Size) none [] ((ofPiece? true piece).toList ++ found) rest := by
  rw [scan.eq_def]
  rfl

theorem scan_other {c : Char} (hopen : c ≠ '{') (hclose : c ≠ '}') (offset : Nat)
    (opened : Option Nat) (piece : List Char) (found : List Fragment) (rest : List Char) :
    scan offset opened piece found (c :: rest) =
      scan (offset + c.utf8Size) opened (c :: piece) found rest := by
  rw [scan.eq_def]
  simp only [if_neg hopen, if_neg hclose]

/-- How reading goes on behind a character, if it does not fail there. -/
theorem scan_cons_cases (offset : Nat) (opened : Option Nat) (piece : List Char)
    (found : List Fragment) (c : Char) (rest : List Char) :
    (∃ flaw, scan offset opened piece found (c :: rest) = .error flaw) ∨
      (∃ insideBraces next opened', scan offset opened piece found (c :: rest) =
        scan next opened' [] ((ofPiece? insideBraces piece).toList ++ found) rest) ∨
      c ≠ '{' ∧ c ≠ '}' ∧ ∃ next, scan offset opened piece found (c :: rest) =
        scan next opened (c :: piece) found rest := by
  by_cases hopen : c = '{'
  · subst hopen
    cases opened with
    | none => exact Or.inr (Or.inl ⟨false, _, _, scan_open offset piece found rest⟩)
    | some start => exact Or.inl ⟨.nestedBrace offset start, by rw [scan.eq_def]; rfl⟩
  · by_cases hclose : c = '}'
    · subst hclose
      cases opened with
      | none => exact Or.inl ⟨.unmatchedBrace offset, by rw [scan.eq_def]; rfl⟩
      | some start => exact Or.inr (Or.inl ⟨true, _, _, scan_close offset start piece found rest⟩)
    · exact Or.inr (Or.inr ⟨hopen, hclose, _, scan_other hopen hclose offset opened piece found rest⟩)

/-! ### What is found -/

theorem chars_of_ofPiece? {insideBraces : Bool} {piece : List Char} {f : Fragment}
    (h : f ∈ ofPiece? insideBraces piece) :
    f.chars = Text.trim piece.reverse ∧ Text.trim piece.reverse ≠ [] := by
  rw [ofPiece?, Option.mem_def] at h
  split at h
  · simp at h
  · rename_i c rest htrim
    rw [htrim, ← Option.some.inj h]
    refine ⟨?_, List.cons_ne_nil c rest⟩
    cases insideBraces <;> exact String.toList_ofList

theorem mem_of_ofPiece? {insideBraces : Bool} {piece : List Char} {f : Fragment}
    (h : f ∈ ofPiece? insideBraces piece) {c : Char} (hc : c ∈ f.chars) : c ∈ piece := by
  rw [(chars_of_ofPiece? h).1] at hc
  exact List.mem_reverse.mp (Text.mem_of_mem_trim hc)

/-- What holds of every fragment that a piece of the text can give holds of all fragments. The
braces of the text are in no piece. -/
theorem forall_of_scan {P : Char → Prop} {Q : Fragment → Prop}
    (hpieces : ∀ insideBraces piece, (∀ c ∈ piece, P c) → ∀ f ∈ ofPiece? insideBraces piece, Q f)
    {offset : Nat} {opened : Option Nat} {piece : List Char} {found : List Fragment}
    {text : List Char} {fragments : List Fragment}
    (h : scan offset opened piece found text = .ok fragments)
    (htext : ∀ c ∈ text, c ≠ '{' → c ≠ '}' → P c) (hpiece : ∀ c ∈ piece, P c)
    (hfound : ∀ f ∈ found, Q f) : ∀ f ∈ fragments, Q f := by
  have hsettled : ∀ {piece found} insideBraces, (∀ c ∈ piece, P c) → (∀ f ∈ found, Q f) →
      ∀ f ∈ (ofPiece? insideBraces piece).toList ++ found, Q f := by
    intro piece found insideBraces hpiece hfound f hf
    rcases List.mem_append.mp hf with hnew | hold
    · exact hpieces insideBraces piece hpiece f (Option.mem_toList.mp hnew)
    · exact hfound f hold
  induction text generalizing offset opened piece found with
  | nil =>
    cases opened with
    | some start => simp [scan] at h
    | none =>
      rw [scan, Except.ok.injEq] at h
      intro f hf
      rw [← h, List.mem_reverse] at hf
      exact hsettled false hpiece hfound f hf
  | cons c rest ih =>
    rw [List.forall_mem_cons] at htext
    rcases scan_cons_cases offset opened piece found c rest with
      ⟨flaw, hscan⟩ | ⟨insideBraces, next, opened', hscan⟩ | ⟨hc, hc', next, hscan⟩
    · rw [hscan] at h
      simp at h
    · -- a brace settles the piece
      rw [hscan] at h
      exact ih h htext.2 (fun _ hnone => absurd hnone List.not_mem_nil)
        (hsettled insideBraces hpiece hfound)
    · rw [hscan] at h
      exact ih h htext.2 (List.forall_mem_cons.mpr ⟨htext.1 hc hc', hpiece⟩) hfound

/-- The fragments of a text are words without braces. -/
theorem isPiece_of_ofText {text : String} {fragments : List Fragment}
    (h : ofText text = .ok fragments) : ∀ f ∈ fragments, IsPiece f.chars := by
  refine forall_of_scan (P := fun c => c ≠ '{' ∧ c ≠ '}') ?_ h (fun c _ hopen hclose =>
    ⟨hopen, hclose⟩) (fun _ hnone => absurd hnone List.not_mem_nil)
    (fun _ hnone => absurd hnone List.not_mem_nil)
  intro insideBraces piece hpiece f hf
  obtain ⟨hchars, hne⟩ := chars_of_ofPiece? hf
  refine ⟨?_, fun hopen => (hpiece _ (mem_of_ofPiece? hf hopen)).1 rfl,
    fun hclose => (hpiece _ (mem_of_ofPiece? hf hclose)).2 rfl⟩
  rw [hchars]
  exact Text.isWord_trim hne

/-- The fragments of a text have no characters but those of the text. -/
theorem mem_of_ofText {text : String} {fragments : List Fragment}
    (h : ofText text = .ok fragments) : ∀ f ∈ fragments, ∀ c ∈ f.chars, c ∈ text.toList := by
  refine forall_of_scan (P := fun c => c ∈ text.toList) ?_ h (fun c hc _ _ => hc)
    (fun _ hnone => absurd hnone List.not_mem_nil) (fun _ hnone => absurd hnone List.not_mem_nil)
  intro insideBraces piece hpiece f hf c hc
  exact hpiece c (mem_of_ofPiece? hf hc)

/-! ### What is written and found again -/

/-- Characters that are no braces are taken to the piece that is read. -/
theorem scan_append {text : List Char} (hopen : '{' ∉ text) (hclose : '}' ∉ text)
    (offset : Nat) (opened : Option Nat) (piece : List Char) (found : List Fragment)
    (rest : List Char) :
    scan offset opened piece found (text ++ rest) =
      scan (offset + Text.octetCount text) opened (text.reverse ++ piece) found rest := by
  induction text generalizing offset piece with
  | nil => rfl
  | cons c text ih =>
    rw [List.mem_cons, not_or] at hopen hclose
    rw [List.cons_append, scan_other (Ne.symm hopen.1) (Ne.symm hclose.1), ih hopen.2 hclose.2,
      Text.octetCount_cons, Nat.add_assoc, List.reverse_cons, List.append_assoc,
      List.singleton_append]

theorem ofPiece?_reverse {text : String} (h : IsPiece text.toList) (insideBraces : Bool) :
    ofPiece? insideBraces text.toList.reverse =
      some (if insideBraces then .placeholder text else .literal text) := by
  obtain ⟨c, rest, hcons⟩ := List.exists_cons_of_ne_nil h.word.ne_nil
  have htext : text = String.ofList (c :: rest) := by rw [← hcons, String.ofList_toList]
  rw [ofPiece?, List.reverse_reverse, h.word.trim_eq, hcons, htext]

theorem reverse_toList_ofPiece? (insideBraces : Bool) (piece : List Char) :
    (ofPiece? insideBraces piece).toList.reverse = (ofPiece? insideBraces piece).toList := by
  cases ofPiece? insideBraces piece <;> rfl

/-- A brace behind a piece that is read, or the end, settles it. No piece is left open when a
literal comes, since no two literals stand side by side. -/
theorem scan_render {fragments : List Fragment} (hpieces : ∀ f ∈ fragments, IsPiece f.chars)
    (hapart : fragments.IsChain Apart) (offset : Nat) {piece : List Char} (found : List Fragment)
    (hpiece : piece = [] ∨ ∀ f ∈ fragments.head?, ¬ f.IsLiteral) :
    scan offset none piece found (fragments.flatMap render) =
      .ok (found.reverse ++ (ofPiece? false piece).toList ++ fragments) := by
  induction fragments generalizing offset piece found with
  | nil =>
    rw [List.flatMap_nil, scan, List.reverse_append, reverse_toList_ofPiece?, List.append_nil]
  | cons f rest ih =>
    rw [List.forall_mem_cons] at hpieces
    obtain ⟨hf, hrest⟩ := hpieces
    rw [List.flatMap_cons]
    cases f with
    | literal text =>
      obtain rfl : piece = [] := by
        rcases hpiece with h | h
        · exact h
        · exact absurd trivial (h _ rfl)
      have hscan := scan_append hf.no_open hf.no_close offset none [] found (rest.flatMap render)
      -- what follows the literal is no literal
      have hnext : ∀ g ∈ rest.head?, ¬ g.IsLiteral := by
        intro g hg
        obtain ⟨others, rfl⟩ := List.head?_eq_some_iff.mp hg
        exact (List.isChain_cons_cons.mp hapart).1 trivial
      rw [List.append_nil] at hscan
      change scan offset none [] found (text.toList ++ rest.flatMap render) = _
      refine hscan.trans ((ih hrest hapart.tail _ found (Or.inr hnext)).trans ?_)
      change Except.ok (found.reverse ++ (ofPiece? false text.toList.reverse).toList ++ rest) = _
      rw [ofPiece?_reverse hf, List.append_assoc]
      simp [ofPiece?]
    | placeholder text =>
      have hscan := scan_append hf.no_open hf.no_close (offset + '{'.utf8Size) (some offset) []
        ((ofPiece? false piece).toList ++ found) ('}' :: rest.flatMap render)
      rw [List.append_nil] at hscan
      have hstart : (placeholder text).render ++ rest.flatMap render =
          '{' :: (text.toList ++ '}' :: rest.flatMap render) := by
        rw [render, List.cons_append, List.append_assoc, List.singleton_append]
      rw [hstart, scan_open]
      refine hscan.trans ?_
      change scan _ (some offset) text.toList.reverse _ _ = _
      rw [scan_close, ofPiece?_reverse hf, ih hrest hapart.tail _ _ (Or.inl rfl)]
      change Except.ok ((placeholder text :: ((ofPiece? false piece).toList ++ found)).reverse ++
        [] ++ rest) = _
      rw [List.append_nil, List.reverse_cons, List.reverse_append, reverse_toList_ofPiece?,
        List.append_assoc, List.singleton_append]

/-- Fragments that are apart are found again in the text that they make. -/
theorem ofText_render {fragments : List Fragment} {text : String}
    (hpieces : ∀ f ∈ fragments, IsPiece f.chars) (hapart : fragments.IsChain Apart)
    (htext : text.toList = fragments.flatMap render) : ofText text = .ok fragments := by
  rw [ofText, htext, scan_render hpieces hapart 0 [] (Or.inl rfl)]
  simp [ofPiece?]

end Fragment

end PatternRename
