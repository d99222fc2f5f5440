import PatternRename.Failure
import PatternRename.Proofs.Outcomes
import PatternRename.Proofs.Pattern.Fragments

/-!
# The braces of a text

A text is cut into fragments exactly if its braces alternate: each opening brace is followed by a
closing one before the next is opened. The fragments are then the pieces between the braces, and
otherwise the first brace that breaks the alternation is reported, or the one that is never closed.

## Main definitions

- `Paired` — braces that alternate
- `Fragment.ofPieces` — the fragments of the pieces between braces
- `BraceFault` — the first brace of a text that is out of place

## Main results

- `Fragment.scan_eq_ok_iff` — what is found in a text whose braces alternate
- `Fragment.ofText_outcome` — the fragments of every text, or what is wrong with it
-/

namespace PatternRename

def isBrace (c : Char) : Bool :=
  c == '{' || c == '}'

/-- Braces that alternate: an opening one comes first, and each is followed by a closing one. -/
inductive Paired : List Char → Prop where
  | nil : Paired []
  | pair {braces : List Char} (h : Paired braces) : Paired ('{' :: '}' :: braces)

theorem paired_pair_iff {braces : List Char} : Paired ('{' :: '}' :: braces) ↔ Paired braces := by
  constructor
  · rintro (_ | ⟨h⟩)
    exact h
  · exact Paired.pair

theorem not_paired_close (braces : List Char) : ¬ Paired ('}' :: braces) := nofun

theorem not_paired_nested (braces : List Char) : ¬ Paired ('{' :: '{' :: braces) := nofun

theorem not_paired_open : ¬ Paired ['{'] := nofun

theorem Paired.append {front back : List Char} (hfront : Paired front) (hback : Paired back) :
    Paired (front ++ back) := by
  induction hfront with
  | nil => exact hback
  | pair _ ih => exact ih.pair

/-- What is wrong with the braces of a text. The offset of a brace is the number of octets in front
of it. -/
inductive BraceFault (text : List Char) : PatternFlaw → Prop where
  | nested {front inside rest : List Char}
      (htext : text = front ++ '{' :: (inside ++ '{' :: rest))
      (hfront : Paired (front.filter isBrace)) (hinside : inside.filter isBrace = []) :
      BraceFault text
        (.nestedBrace (Text.octetCount (front ++ '{' :: inside)) (Text.octetCount front))
  | unmatched {front rest : List Char} (htext : text = front ++ '}' :: rest)
      (hfront : Paired (front.filter isBrace)) :
      BraceFault text (.unmatchedBrace (Text.octetCount front))
  | unclosed {front inside : List Char} (htext : text = front ++ '{' :: inside)
      (hfront : Paired (front.filter isBrace)) (hinside : inside.filter isBrace = []) :
      BraceFault text (.unclosedBrace (Text.octetCount front))

namespace Fragment

/-- The fragment of a piece that stands in braces or not, unless it is blank. -/
def ofTrimmed? (insideBraces : Bool) (piece : List Char) : Option Fragment :=
  let text := String.ofList (Text.trim piece)
  if Text.trim piece = [] then none
  else some (if insideBraces then .placeholder text else .literal text)

/-- The fragments of pieces between braces, the first of which stands in braces or not. Where the
braces alternate, every second piece stands in braces. -/
def ofPieces (insideBraces : Bool) : List (List Char) → List Fragment
  | [] => []
  | piece :: rest => (ofTrimmed? insideBraces piece).toList ++ ofPieces (!insideBraces) rest

theorem ofPiece?_eq (insideBraces : Bool) (piece : List Char) :
    ofPiece? insideBraces piece = ofTrimmed? insideBraces piece.reverse := by
  rw [ofPiece?, ofTrimmed?]
  cases Text.trim piece.reverse with
  | nil => rfl
  | cons c rest => rfl

/-! ### Braces that are out of place -/

theorem scan_nested (offset start : Nat) (piece : List Char) (found : List Fragment)
    (rest : List Char) :
    scan offset (some start) piece found ('{' :: rest) = .error (.nestedBrace offset start) := by
  rw [scan.eq_def]
  rfl

theorem scan_unmatched (offset : Nat) (piece : List Char) (found : List Fragment)
    (rest : List Char) :
    scan offset none piece found ('}' :: rest) = .error (.unmatchedBrace offset) := by
  rw [scan.eq_def]
  rfl

/-! ### Braces that alternate -/

/-- The brace that is open, if there is one. -/
def openBrace : Option Nat → List Char
  | none => []
  | some _ => ['{']

theorem filter_isBrace_cons {c : Char} (hopen : c ≠ '{') (hclose : c ≠ '}') (rest : List Char) :
    (c :: rest).filter isBrace = rest.filter isBrace :=
  List.filter_cons_of_neg (by simp [isBrace, hopen, hclose])

theorem splitOnP_isBrace_cons {c : Char} (hopen : c ≠ '{') (hclose : c ≠ '}')
    (rest : List Char) :
    (c :: rest).splitOnP isBrace = (rest.splitOnP isBrace).modifyHead (c :: ·) := by
  rw [List.splitOnP_cons_eq_if_modifyHead, if_neg (by simp [isBrace, hopen, hclose])]

/-- The pieces of a text whose first characters are read already. A brace is what ends the first
piece. -/
def piecesFrom (piece text : List Char) : List (List Char) :=
  (text.splitOnP isBrace).modifyHead (piece.reverse ++ ·)

theorem piecesFrom_nil (text : List Char) : piecesFrom [] text = text.splitOnP isBrace :=
  congrFun List.modifyHead_id _

theorem piecesFrom_brace {brace : Char} (hbrace : isBrace brace = true) (piece rest : List Char) :
    piecesFrom piece (brace :: rest) = piece.reverse :: piecesFrom [] rest := by
  rw [piecesFrom, List.splitOnP_cons_eq_if_modifyHead, if_pos hbrace, List.modifyHead_cons,
    List.append_nil, piecesFrom_nil]

theorem piecesFrom_cons {c : Char} (hopen : c ≠ '{') (hclose : c ≠ '}') (piece rest : List Char) :
    piecesFrom piece (c :: rest) = piecesFrom (c :: piece) rest := by
  rw [piecesFrom, splitOnP_isBrace_cons hopen hclose, List.modifyHead_modifyHead, piecesFrom,
    List.reverse_cons]
  simp [Function.comp_def]

/-- A text is read to its end exactly if its braces alternate, with the one that is open in front
of them; what is found behind the fragments so far are the pieces between the braces. -/
theorem scan_eq_ok_iff {offset : Nat} {opened : Option Nat} {piece : List Char}
    {found : List Fragment} {text : List Char} {fragments : List Fragment} :
    scan offset opened piece found text = .ok fragments ↔
      Paired (openBrace opened ++ text.filter isBrace) ∧
        fragments = found.reverse ++ ofPieces opened.isSome (piecesFrom piece text) := by
  induction text generalizing offset opened piece found with
  | nil =>
    cases opened with
    | none =>
      have hpaired : Paired (openBrace none ++ [].filter isBrace) := Paired.nil
      have hpieces : piecesFrom piece [] = [piece.reverse] := by simp [piecesFrom]
      rw [scan, Except.ok.injEq, and_iff_right hpaired, hpieces, Option.isSome_none, ofPieces,
        ofPieces, List.append_nil, List.reverse_append, reverse_toList_ofPiece?, ofPiece?_eq,
        eq_comm]
    | some start =>
      have hopen : ¬ Paired (openBrace (some start)) := not_paired_open
      simp [scan, hopen]
  | cons c rest ih =>
    by_cases hopen : c = '{'
    · subst hopen
      have hfilter : ('{' :: rest).filter isBrace = '{' :: rest.filter isBrace := by simp [isBrace]
      cases opened with
      | none =>
        rw [scan_open, ih, hfilter, piecesFrom_brace (by decide), Option.isSome_none, ofPieces,
          List.reverse_append, reverse_toList_ofPiece?, ofPiece?_eq, List.append_assoc]
        rfl
      | some start =>
        rw [scan_nested, hfilter]
        simp [openBrace, not_paired_nested]
    · by_cases hclose : c = '}'
      · subst hclose
        have hfilter : ('}' :: rest).filter isBrace = '}' :: rest.filter isBrace := by
          simp [isBrace]
        cases opened with
        | none =>
          rw [scan_unmatched, hfilter]
          simp [openBrace, not_paired_close]
        | some start =>
          rw [scan_close, ih, hfilter, piecesFrom_brace (by decide), Option.isSome_some, ofPieces,
            List.reverse_append, reverse_toList_ofPiece?, ofPiece?_eq, List.append_assoc]
          exact and_congr_left' paired_pair_iff.symm
      · rw [scan_other hopen hclose, ih, filter_isBrace_cons hopen hclose,
          piecesFrom_cons hopen hclose]

/-! ### The first brace that is out of place -/

theorem not_mem_of_filter_eq_nil {text : List Char} (h : text.filter isBrace = []) :
    '{' ∉ text ∧ '}' ∉ text := by
  rw [List.filter_eq_nil_iff] at h
  exact ⟨fun hopen => h _ hopen (by decide), fun hclose => h _ hclose (by decide)⟩

/-- Behind a stretch whose braces alternate no brace is open. -/
theorem exists_scan_append_of_paired {text : List Char} {offset : Nat} {opened : Option Nat}
    (h : Paired (openBrace opened ++ text.filter isBrace)) (piece : List Char)
    (found : List Fragment) (rest : List Char) :
    ∃ piece' found', scan offset opened piece found (text ++ rest) =
      scan (offset + Text.octetCount text) none piece' found' rest := by
  induction text generalizing offset opened piece found with
  | nil =>
    cases opened with
    | none => exact ⟨piece, found, rfl⟩
    | some start => exact absurd h not_paired_open
  | cons c text ih =>
    rw [List.cons_append, Text.octetCount_cons, ← Nat.add_assoc]
    by_cases hopen : c = '{'
    · subst hopen
      cases opened with
      | none =>
        rw [scan_open]
        exact ih h _ _
      | some start => exact absurd h (not_paired_nested _)
    · by_cases hclose : c = '}'
      · subst hclose
        cases opened with
        | none => exact absurd h (not_paired_close _)
        | some start =>
          have hrest : Paired (openBrace none ++ text.filter isBrace) := paired_pair_iff.mp h
          rw [scan_close]
          exact ih hrest _ _
      · rw [scan_other hopen hclose]
        rw [filter_isBrace_cons hopen hclose] at h
        exact ih h _ _

/-- A brace that is out of place is reported. -/
theorem ofText_of_braceFault {text : String} {flaw : PatternFlaw}
    (h : BraceFault text.toList flaw) : ofText text = .error flaw := by
  -- in front of the fault the braces alternate, so that none is open there
  have hstart : ∀ {front : List Char}, Paired (front.filter isBrace) → ∀ rest,
      ∃ piece found, scan 0 none [] [] (front ++ rest) =
        scan (Text.octetCount front) none piece found rest := by
    intro front hfront rest
    have hrun := @exists_scan_append_of_paired front 0 none hfront [] [] rest
    rwa [Nat.zero_add] at hrun
  rw [ofText]
  cases h with
  | @nested front inside rest htext hfront hinside =>
    obtain ⟨piece, found, hscan⟩ := hstart hfront ('{' :: (inside ++ '{' :: rest))
    obtain ⟨hopen, hclose⟩ := not_mem_of_filter_eq_nil hinside
    rw [htext, hscan, scan_open, scan_append hopen hclose, scan_nested, Text.octetCount_append,
      Text.octetCount_cons, Nat.add_assoc]
  | @unmatched front rest htext hfront =>
    obtain ⟨piece, found, hscan⟩ := hstart hfront ('}' :: rest)
    rw [htext, hscan, scan_unmatched]
  | @unclosed front inside htext hfront hinside =>
    obtain ⟨piece, found, hscan⟩ := hstart hfront ('{' :: inside)
    obtain ⟨hopen, hclose⟩ := not_mem_of_filter_eq_nil hinside
    have hend := scan_append hopen hclose (Text.octetCount front + '{'.utf8Size)
      (some (Text.octetCount front)) [] ((ofPiece? false piece).toList ++ found) []
    rw [List.append_nil] at hend
    rw [htext, hscan, scan_open, hend, scan]

/-- What is read of a text so far, and the offset of the brace that is open behind it. -/
inductive Reached : List Char → Option Nat → Prop where
  | outside {front : List Char} (hfront : Paired (front.filter isBrace)) : Reached front none
  | inside {front inside : List Char} (hfront : Paired (front.filter isBrace))
      (hinside : inside.filter isBrace = []) :
      Reached (front ++ '{' :: inside) (some (Text.octetCount front))

theorem Reached.other {front : List Char} {opened : Option Nat} (h : Reached front opened)
    {c : Char} (hopen : c ≠ '{') (hclose : c ≠ '}') : Reached (front ++ [c]) opened := by
  have hfilter : ∀ cs : List Char, (cs ++ [c]).filter isBrace = cs.filter isBrace := by
    intro cs
    rw [List.filter_append, filter_isBrace_cons hopen hclose, List.filter_nil, List.append_nil]
  cases h with
  | outside hfront => exact .outside ((hfilter front).symm ▸ hfront)
  | inside hfront hinside =>
    rw [List.append_assoc, List.cons_append]
    exact .inside hfront ((hfilter _).trans hinside)

theorem Reached.close {front : List Char} {start : Nat} (h : Reached front (some start)) :
    Reached (front ++ ['}']) none := by
  cases h with
  | @inside front inside hfront hinside =>
    refine .outside ?_
    have hlast : ('{' :: inside ++ ['}']).filter isBrace = ['{', '}'] := by
      rw [List.filter_append, List.filter_cons_of_pos (by decide), hinside]
      rfl
    rw [List.append_assoc, List.filter_append, hlast]
    exact hfront.append Paired.nil.pair

/-- What is reported of a text is the first brace that is out of place. -/
theorem braceFault_of_scan {front : List Char} {opened : Option Nat} {piece : List Char}
    {found : List Fragment} {text : List Char} {flaw : PatternFlaw} (hfront : Reached front opened)
    (h : scan (Text.octetCount front) opened piece found text = .error flaw) :
    BraceFault (front ++ text) flaw := by
  induction text generalizing front opened piece found with
  | nil =>
    rw [List.append_nil]
    cases hfront with
    | outside => simp [scan] at h
    | inside hfront hinside =>
      rw [scan, Except.error.injEq] at h
      exact h ▸ .unclosed rfl hfront hinside
  | cons c rest ih =>
    have happend : front ++ c :: rest = (front ++ [c]) ++ rest := by simp
    have hnext : Text.octetCount front + c.utf8Size = Text.octetCount (front ++ [c]) := by
      rw [Text.octetCount_append, Text.octetCount_cons]
      rfl
    by_cases hopen : c = '{'
    · subst hopen
      cases hfront with
      | outside hfront =>
        rw [scan_open, hnext] at h
        rw [happend]
        exact ih (.inside hfront rfl) h
      | @inside front inside hfront hinside =>
        rw [scan_nested, Except.error.injEq] at h
        rw [← h]
        rw [List.append_assoc, List.cons_append]
        exact .nested rfl hfront hinside
    · by_cases hclose : c = '}'
      · subst hclose
        cases opened with
        | none =>
          cases hfront with
          | outside hfront =>
            rw [scan_unmatched, Except.error.injEq] at h
            exact h ▸ .unmatched rfl hfront
        | some start =>
          rw [scan_close, hnext] at h
          rw [happend]
          exact ih hfront.close h
      · rw [scan_other hopen hclose, hnext] at h
        rw [happend]
        exact ih (hfront.other hopen hclose) h

/-- The outcome for every text: if its braces alternate, the fragments are the pieces between them,
without blanks at their ends and without the blank ones, in braces every second one. Otherwise the
first brace that is out of place is reported with the text. -/
theorem ofText_outcome (text : String) :
    ((∃ fragments, ofText text = .ok fragments) ↔ Paired (text.toList.filter isBrace)) ∧
      (∀ fragments, ofText text = .ok fragments ↔ Paired (text.toList.filter isBrace) ∧
        fragments = ofPieces false (text.toList.splitOnP isBrace)) ∧
      ∀ failure, (ofText text).mapError (Failure.malformedPattern text) = .error failure ↔
        ∃ flaw, BraceFault text.toList flaw ∧ failure = Failure.malformedPattern text flaw := by
  have hok : ∀ fragments, ofText text = .ok fragments ↔ Paired (text.toList.filter isBrace) ∧
      fragments = ofPieces false (text.toList.splitOnP isBrace) := by
    intro fragments
    rw [ofText, scan_eq_ok_iff, piecesFrom_nil]
    rfl
  refine ⟨?_, hok, ?_⟩
  · constructor
    · rintro ⟨fragments, h⟩
      exact ((hok fragments).mp h).1
    · intro hpaired
      exact ⟨_, (hok _).mpr ⟨hpaired, rfl⟩⟩
  · intro failure
    rw [mapError_eq_error_iff]
    refine exists_congr fun flaw => and_congr_left' ⟨fun h => ?_, ofText_of_braceFault⟩
    have hstart : Reached [] none := .outside .nil
    exact braceFault_of_scan hstart h

end Fragment

end PatternRename
