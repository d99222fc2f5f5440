import PatternRename.Proofs.Pattern.Rendering
import PatternRename.Proofs.Renaming.RoundTrip

/-!
# Renaming with patterns that were written and read again

A pattern that is written and read again has its adjacent literals joined, so its tokens may be
others, and a new name may be cut into other segments. Neither shows in what a renamer does:
matching, sizes and expressions look at literals only through the text that they make up, and so
does a finished name.

## Main definitions

- `Pattern.joined`, `Renamer.joined` — patterns with their adjacent literals joined
- `Numbering.wording` — the text of segments
- `PendingName.SameWording`, `Renamer.SameOutcome` — names, and outcomes, that differ at most in
  where texts are cut

## Main results

- `Token.apply_joinLiterals` — what does not see where literals are cut
- `Pattern.find_joined` — a match does not depend on it
- `Renamer.settle_congr` — a report does not depend on where the texts of names are cut
- `Renamer.rename_of_render` — renaming with rendered patterns
-/

namespace PatternRename

/-! ### Functions that do not see where literals are cut -/

/-- A function of tokens that gives the same for a literal and for its two parts, and that sees
the later tokens only through what it gives for them, does not see that literals were joined. -/
theorem Token.apply_joinLiterals {β : Type} (f : List Token → β)
    (hcons : ∀ token tokens others, f tokens = f others → f (token :: tokens) = f (token :: others))
    (hcut : ∀ front back rest,
      f (.literal (front ++ back) :: rest) = f (.literal front :: .literal back :: rest))
    (tokens : List Token) : f (joinLiterals tokens) = f tokens := by
  induction tokens with
  | nil => rfl
  | cons token tokens ih =>
    rw [joinLiterals_cons, ← hcons token _ _ ih]
    rcases joinOnto_cases token (joinLiterals tokens) with
      ⟨front, back, rest, rfl, hrest, hjoin⟩ | ⟨-, hjoin⟩
    · rw [hjoin, hrest, hcut]
    · rw [hjoin]

theorem escapeExpression_append (front back : String) :
    escapeExpression (front ++ back) = escapeExpression front ++ escapeExpression back := by
  rw [escapeExpression, String.toList_append, List.flatMap_append, String.ofList_append]
  rfl

namespace Pattern

/-- The pattern with its adjacent literals joined. -/
def joined (p : Pattern) : Pattern :=
  ⟨Token.joinLiterals p.tokens⟩

variable (p : Pattern)

theorem fields_joined : p.joined.fields = p.fields := by
  apply Token.apply_joinLiterals (List.filterMap Token.field?)
  · intro token tokens others h
    rw [List.filterMap_cons, List.filterMap_cons, h]
  · intro front back rest
    rfl

theorem fieldCount_joined : p.joined.fieldCount = p.fieldCount := by
  rw [fieldCount, fields_joined, fieldCount]

theorem compiledSize_joined : p.joined.compiledSize = p.compiledSize := by
  apply Token.apply_joinLiterals
    (List.foldr (fun token size => token.compiledSize + size)
      (groupSize + (loopSize + classSize 1) + stateSize))
  · intro token tokens others h
    rw [List.foldr_cons, List.foldr_cons, h]
  · intro front back rest
    simp only [List.foldr_cons, Token.compiledSize, String.utf8ByteSize_append, Nat.mul_add,
      Nat.add_assoc]

/-- Literals do not change how the fields behind them are numbered. -/
theorem expression_joined : p.joined.expression = p.expression := by
  refine congrFun (Token.apply_joinLiterals
    (fun tokens index => String.join (expressionFrom index tokens)) ?_ ?_ p.tokens) 0
  · intro token tokens others h
    funext index
    cases token with
    | literal text =>
      show String.join (_ :: expressionFrom index tokens) =
        String.join (_ :: expressionFrom index others)
      rw [String.join_cons, String.join_cons, congrFun h index]
    | field f =>
      show String.join (_ :: expressionFrom (index + 1) tokens) =
        String.join (_ :: expressionFrom (index + 1) others)
      rw [String.join_cons, String.join_cons, congrFun h (index + 1)]
  · intro front back rest
    funext index
    simp only [expressionFrom, String.join_cons, escapeExpression_append, String.append_assoc]

theorem render_joined : p.joined.render = p.render := by
  rw [← String.toList_inj, toList_render, toList_render]
  exact Token.flatMap_render_joinLiterals p.tokens

theorem fill_joinLiterals (tokens : List Token) :
    fill (Token.joinLiterals tokens) = fill tokens := by
  refine Token.apply_joinLiterals fill ?_ ?_ tokens
  · intro token tokens others h
    funext values
    cases token with
    | literal text => rw [fill, fill, h]
    | field f => cases values <;> rw [fill, fill, h]
  · intro front back rest
    funext values
    rw [fill, fill, fill, String.append_assoc]

theorem decomposes_joined_iff {filename : String} {m : Match} :
    p.joined.Decomposes filename m ↔ p.Decomposes filename m := by
  have hfits : Fits p.joined.tokens m.values ↔ Fits p.tokens m.values := by
    rw [Fits, Fits, ← fields, ← fields, fields_joined]
  have hfill : fill p.joined.tokens = fill p.tokens := fill_joinLiterals p.tokens
  constructor
  · rintro ⟨hvalues, htext⟩
    exact ⟨hfits.mp hvalues, hfill ▸ htext⟩
  · rintro ⟨hvalues, htext⟩
    exact ⟨hfits.mpr hvalues, hfill.symm ▸ htext⟩

/-- The match of a pattern depends on the texts that its literals make up, not on where they are
cut. -/
theorem find_joined (filename : String) : p.joined.find filename = p.find filename := by
  have hfind : p.joined.find? filename = p.find? filename := by
    ext m
    simp only [find?_eq_some_iff, decomposes_joined_iff]
  rw [find, find, hfind, render_joined]

end Pattern

/-! ### The text of segments -/

namespace Numbering

/-- The text of segments, with the numbers in place. -/
def wording (numbering : Numbering) (segments : List Segment) : Except Failure String :=
  (numbering.segmentTexts segments).map String.join

variable (numbering : Numbering)

theorem wording_cons (segment : Segment) (segments : List Segment) :
    numbering.wording (segment :: segments) =
      numbering.segmentText segment >>= fun text =>
        (numbering.wording segments).map (text ++ ·) := by
  rw [wording, segmentTexts, wording]
  cases numbering.segmentText segment with
  | error failure => rfl
  | ok text =>
    show ((numbering.segmentTexts segments).map (text :: ·)).map String.join =
      ((numbering.segmentTexts segments).map String.join).map (text ++ ·)
    cases numbering.segmentTexts segments with
    | error failure => rfl
    | ok texts => exact congrArg Except.ok (String.join_cons ..)

theorem wording_text_cons (text : String) (segments : List Segment) :
    numbering.wording (.text text :: segments) = (numbering.wording segments).map (text ++ ·) :=
  numbering.wording_cons (.text text) segments

theorem wording_append (front back : List Segment) :
    numbering.wording (front ++ back) =
      numbering.wording front >>= fun text => (numbering.wording back).map (text ++ ·) := by
  induction front with
  | nil =>
    show numbering.wording back = (numbering.wording back).map ("" ++ ·)
    cases numbering.wording back with
    | error failure => rfl
    | ok text => exact congrArg Except.ok String.empty_append.symm
  | cons segment front ih =>
    rw [List.cons_append, wording_cons, wording_cons, ih]
    cases numbering.segmentText segment with
    | error failure => rfl
    | ok text =>
      cases numbering.wording front with
      | error failure => rfl
      | ok texts =>
        cases numbering.wording back with
        | error failure => rfl
        | ok rest => exact congrArg Except.ok (String.append_assoc ..).symm

/-- Along joined literals the segments have the same text. -/
theorem wording_layOut_joinLiterals (tokens : List Token) (values : List Segment) :
    numbering.wording (layOut (Token.joinLiterals tokens) values) =
      numbering.wording (layOut tokens values) := by
  refine congrFun (Token.apply_joinLiterals
    (fun tokens values => numbering.wording (layOut tokens values)) ?_ ?_ tokens) values
  · intro token tokens others h
    funext values
    cases token with
    | literal text =>
      rw [layOut, layOut, wording_text_cons, wording_text_cons, congrFun h values]
    | field f =>
      cases values with
      | nil => exact congrFun h []
      | cons value values => rw [layOut, layOut, wording_cons, wording_cons, congrFun h values]
  · intro front back rest
    funext values
    simp only [layOut, wording_text_cons]
    cases numbering.wording (layOut rest values) with
    | error failure => rfl
    | ok text => exact congrArg Except.ok (String.append_assoc ..)

end Numbering

theorem deferred?_layOut_joinLiterals (tokens : List Token) (values : List Segment) :
    (layOut (Token.joinLiterals tokens) values).filterMap Segment.deferred? =
      (layOut tokens values).filterMap Segment.deferred? := by
  refine congrFun (Token.apply_joinLiterals
    (fun tokens values => (layOut tokens values).filterMap Segment.deferred?) ?_ ?_ tokens) values
  · intro token tokens others h
    funext values
    cases token with
    | literal text => exact congrFun h values
    | field f =>
      cases values with
      | nil => exact congrFun h []
      | cons value values =>
        rw [layOut, layOut, List.filterMap_cons, List.filterMap_cons, congrFun h values]
  · intro front back rest
    rfl

/-! ### Names that differ in where texts are cut -/

/-- Names for the same file that wait for the same values and say the same, however these are
numbered. -/
structure PendingName.SameWording (name other : PendingName) : Prop where
  source_eq : name.source = other.source
  deferred_eq : name.deferred = other.deferred
  finish_eq : ∀ numbering : Numbering, numbering.finish name = numbering.finish other

namespace Renamer

/-- Attempts at the same file that failed alike, or that gave names which say the same. -/
inductive SameOutcome : Attempt → Attempt → Prop
  | failed (filename : String) (failure : Failure) :
    SameOutcome (filename, .error failure) (filename, .error failure)
  | made (filename : String) {name other : PendingName} (h : name.SameWording other) :
    SameOutcome (filename, .ok name) (filename, .ok other)

variable {attempts others : List Attempt}

theorem firstStop?_congr (h : List.Forall₂ SameOutcome attempts others) :
    firstStop? attempts = firstStop? others := by
  induction h with
  | nil => rfl
  | cons hfirst _ ih =>
    rw [firstStop?, firstStop?] at ih ⊢
    rw [List.findSome?_cons, List.findSome?_cons, ih]
    cases hfirst <;> rfl

theorem leftOut_congr (h : List.Forall₂ SameOutcome attempts others) :
    leftOut attempts = leftOut others := by
  induction h with
  | nil => rfl
  | cons hfirst _ ih =>
    rw [leftOut, leftOut] at ih ⊢
    rw [List.filterMap_cons, List.filterMap_cons, ih]
    cases hfirst <;> rfl

theorem pending_congr (h : List.Forall₂ SameOutcome attempts others) :
    List.Forall₂ PendingName.SameWording (pending attempts) (pending others) := by
  induction h with
  | nil => exact List.Forall₂.nil
  | cons hfirst _ ih =>
    cases hfirst with
    | failed filename failure => exact ih
    | made filename hname => exact List.Forall₂.cons hname ih

theorem allDeferred_congr {names namesOthers : List PendingName}
    (h : List.Forall₂ PendingName.SameWording names namesOthers) :
    PendingName.allDeferred names = PendingName.allDeferred namesOthers := by
  induction h with
  | nil => rfl
  | cons hname _ ih =>
    rw [PendingName.allDeferred, PendingName.allDeferred] at ih ⊢
    rw [List.flatMap_cons, List.flatMap_cons, hname.deferred_eq, ih]

theorem finishAll_congr (numbering : Numbering) {names namesOthers : List PendingName}
    (h : List.Forall₂ PendingName.SameWording names namesOthers) :
    finishAll numbering names = finishAll numbering namesOthers := by
  induction h with
  | nil => rfl
  | cons hname _ ih => rw [finishAll, finishAll, hname.source_eq, hname.finish_eq, ih]

/-- A report does not depend on where the texts of names are cut. -/
theorem settle_congr (h : List.Forall₂ SameOutcome attempts others) :
    settle attempts = settle others := by
  have hnames := pending_congr h
  have hdeferred := allDeferred_congr hnames
  rw [settle, settle, firstStop?_congr h, leftOut_congr h]
  simp only [Numbering.ofNames, Numbering.check, hdeferred, finishAll_congr _ hnames]

/-! ### Rendered patterns -/

/-- The renamer with the adjacent literals of its patterns joined. -/
def joined (r : Renamer) : Renamer where
  input := r.input.joined
  output := r.output.joined
  fieldCount_eq := by
    rw [Pattern.fieldCount_joined, Pattern.fieldCount_joined, r.fieldCount_eq]
  compiledSize_le := by
    rw [Pattern.compiledSize_joined]
    exact r.compiledSize_le

variable (r : Renamer)

theorem pairs_joined : r.joined.pairs = r.pairs := by
  show r.input.joined.fields.zip r.output.joined.fields = r.pairs
  rw [Pattern.fields_joined, Pattern.fields_joined, pairs]

theorem sameOutcome_joined (filename : String) :
    SameOutcome (filename, r.joined.pend filename) (filename, r.pend filename) := by
  have hfind : r.joined.input.find filename = r.input.find filename := r.input.find_joined filename
  rw [pend, pend, hfind]
  cases r.input.find filename with
  | error failure => exact SameOutcome.failed filename failure
  | ok m =>
    simp only [reencodeMatch, pairs_joined]
    cases reencodeAll 0 r.pairs m.values with
    | error failure => exact SameOutcome.failed filename failure
    | ok values =>
      refine SameOutcome.made filename ⟨rfl, ?_, fun numbering => ?_⟩
      · simp only [PendingName.deferred, List.filterMap_append]
        rw [← deferred?_layOut_joinLiterals r.output.tokens]
        rfl
      · show numbering.wording (surroundings m.before ++
            layOut (Token.joinLiterals r.output.tokens) values ++ surroundings m.after) =
          numbering.wording
            (surroundings m.before ++ layOut r.output.tokens values ++ surroundings m.after)
        simp only [Numbering.wording_append, Numbering.wording_layOut_joinLiterals]

theorem rename_joined (filenames : List String) :
    r.joined.rename filenames = r.rename filenames := by
  rw [rename, rename]
  apply settle_congr
  rw [attempts, attempts, List.forall₂_map_left_iff, List.forall₂_map_right_iff, List.forall₂_same]
  intro filename _
  exact r.sameOutcome_joined filename

/-- The renamer for the written forms of patterns that were read has these patterns with their
adjacent literals joined. -/
theorem ofTexts_render {input output : String} {r : Renamer}
    (h : ofTexts input output = .ok r) :
    ofTexts r.input.render r.output.render = .ok r.joined := by
  obtain ⟨hinput, houtput⟩ := ofTexts_eq_ok_iff.mp h
  rw [ofTexts_eq_ok_iff]
  exact ⟨Pattern.parse_render hinput, Pattern.parse_render houtput⟩

/-- Rendering its patterns does not change what a renamer does: there is a renamer for the written
forms, with the same expression, and it gives the same report or the same failure for every
collection. -/
theorem rename_of_render {input output : String} {r : Renamer}
    (h : ofTexts input output = .ok r) :
    ∃ rendered, ofTexts r.input.render r.output.render = .ok rendered ∧
      rendered.input.expression = r.input.expression ∧
      ∀ filenames, rendered.rename filenames = r.rename filenames :=
  ⟨r.joined, ofTexts_render h, r.input.expression_joined, r.rename_joined⟩

/-- Literals that a blank placeholder parts, in both patterns. -/
def parted : Renamer where
  input := ⟨[.literal "x", .literal "y", .field ⟨"n", .character .unbounded⟩]⟩
  output := ⟨[.literal "o", .literal "p", .field ⟨"n", .digit (.fixed 1)⟩, .literal ".tif"]⟩
  fieldCount_eq := rfl
  compiledSize_le := by decide +kernel

/-- The rendered patterns have fewer tokens and cut the new names elsewhere, and make the same
names. -/
theorem rename_of_render_parted :
    ofTexts "x{}y{n:c+}" "o{}p{n:d}.tif" = .ok parted ∧
    ∃ rendered, ofTexts "xy{n:c+}" "op{n:d}.tif" = .ok rendered ∧
      rendered.input.expression = "xy(?P<field0>[a-zA-Z]*)" ∧
      rendered.pend "xyB" = .ok ⟨"xyB", [.text "op", .deferred ⟨0, "B", .fixed 1⟩, .text ".tif"]⟩ ∧
      parted.pend "xyB" =
        .ok ⟨"xyB", [.text "o", .text "p", .deferred ⟨0, "B", .fixed 1⟩, .text ".tif"]⟩ ∧
      ∀ filenames, rendered.rename filenames = parted.rename filenames := by
  have h : ofTexts "x{}y{n:c+}" "o{}p{n:d}.tif" = .ok parted := by
    rw [ofTexts_eq_ok_iff]
    decide +kernel
  obtain ⟨rendered, hrendered, hexpression, hrename⟩ := rename_of_render h
  have hpatterns : parted.input.render = "xy{n:c+}" ∧
      parted.output.render = "op{n:d}.tif" := by decide +kernel
  obtain rfl : parted.joined = rendered :=
    Except.ok.inj ((ofTexts_render h).symm.trans hrendered)
  rw [hpatterns.1, hpatterns.2] at hrendered
  refine ⟨h, parted.joined, hrendered, ?_, by decide +kernel, by decide +kernel, hrename⟩
  rw [hexpression]
  decide +kernel

end Renamer

end PatternRename
