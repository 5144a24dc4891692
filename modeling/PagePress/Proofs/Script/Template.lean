import PagePress.Proofs.Render.Layout
import PagePress.Proofs.Script.Respace

/-!
The scripts of forms as templates. The script of a form is the template of its backend, the same
for every section, with string literals in its holes (`handler_eq_fill`). The literals are written
in characters that mean nothing to the document around the script, each spells the value it was
made of, and compacting the script keeps them (`handler_of_backend`).
-/

namespace PagePress

/-- What a piece leaves in a template: its text, or a hole where a literal is to stand. -/
def Piece.frame? : Piece → Option (List Char)
  | literal _ => none
  | p => some p.text

/-- The value that a script reads in a piece. -/
def Piece.value? : Piece → Option String
  | literal s => some s
  | _ => none

namespace Script

open Text Render

/-! ### Values -/

/-- A value that the script of a form reads. -/
inductive Slot where
  | form
  | message
  | buttonText
  | eventLabel
  | endpoint
  | recipient
  | formName
  deriving DecidableEq, Repr

/-- The value in the script of the form in the section `id`. -/
def Slot.value (id : String) (a : CallToAction) (backend : FormBackend) : Slot → String
  | form | formName => formId id
  | message => messageId id
  | buttonText => a.buttonText
  | eventLabel => Script.eventLabel backend
  | endpoint =>
    match backend with
    | .hostedService => hostedEndpoint a.recipientEmail
    | _ => submissionEndpoint
  | recipient => a.recipientEmail

/-- The values that the script of a backend reads, in the order in which it reads them. -/
def slots (backend : FormBackend) : List Slot :=
  [.form, .message, .buttonText, .eventLabel] ++
    match backend with
    | .hostedService => [.endpoint]
    | .platformNative => [.formName, .formName]
    | .customEndpoint => [.recipient, .endpoint]

/-- The template of a backend: its script with a hole for each value. -/
def template (backend : FormBackend) : List (Option (List Char)) :=
  (handlerPieces "" {} backend).map Piece.frame?

/-- The literals that stand in the holes. -/
def slotLiterals (id : String) (a : CallToAction) (backend : FormBackend) : List (List Char) :=
  (slots backend).map fun slot => Json.literal (slot.value id a backend).toList

theorem frames_handlerPieces (id : String) (a : CallToAction) (backend : FormBackend) :
    (handlerPieces id a backend).map Piece.frame? = template backend := by
  have hopening : (opening id a backend).map Piece.frame? = (opening "" {} backend).map Piece.frame? := by
    simp only [opening, List.map_cons, Piece.frame?]
  have hsetup : (setup backend id a.recipientEmail).map Piece.frame? =
      (setup backend "" ({} : CallToAction).recipientEmail).map Piece.frame? := by
    cases backend <;>
      simp only [setup, hostedSetup, platformSetup, customSetup, List.map_cons, Piece.frame?]
  simp only [template, handlerPieces, List.map_append, hopening, hsetup]

theorem values_handlerPieces (id : String) (a : CallToAction) (backend : FormBackend) :
    (handlerPieces id a backend).filterMap Piece.value? =
      (slots backend).map (Slot.value id a backend) := by
  cases backend <;> rfl

theorem length_values (ps : List Piece) :
    (ps.filterMap Piece.value?).length = Markup.holes (ps.map Piece.frame?) := by
  induction ps with
  | nil => rfl
  | cons p ps ih => cases p <;> simp_all [Markup.holes, Piece.frame?, Piece.value?, List.filterMap_cons]

theorem textAll_eq_fill (ps : List Piece) :
    Piece.textAll ps = Markup.fill (ps.map Piece.frame?)
      ((ps.filterMap Piece.value?).map fun v => Json.literal v.toList) := by
  induction ps with
  | nil => rfl
  | cons p ps ih =>
    cases p <;>
      simp [Markup.textAll_cons, Markup.fill, Piece.frame?, Piece.value?, Piece.text, ih,
        List.filterMap_cons]

/-- The script of a form is the template of its backend with literals in the holes. -/
theorem handler_eq_fill (id : String) (a : CallToAction) (backend : FormBackend) :
    handler id a backend = Markup.fill (template backend) (slotLiterals id a backend) := by
  rw [handler_eq, textAll_eq_fill, frames_handlerPieces, values_handlerPieces, List.map_map]
  rfl

theorem holes_template (id : String) (a : CallToAction) (backend : FormBackend) :
    Markup.holes (template backend) = (slotLiterals id a backend).length := by
  rw [← frames_handlerPieces id a, ← length_values, values_handlerPieces, slotLiterals,
    List.length_map, List.length_map]

/-! ### Literals of a script -/

theorem literals_of_blank {c : Char} (hc : isBlank c = true) (s : List Char) :
    literals (c :: s) = literals s := by
  rw [literals, tokens_of_blank hc]
  cases s with
  | nil => rfl
  | cons d s =>
    cases hd : isBlank d with
    | false =>
      rw [List.dropWhile_cons_of_neg (by simp [hd])]
      rfl
    | true =>
      rw [List.dropWhile_cons_of_pos hd, literals, tokens_of_blank hd]
      rfl

/-- The literals of a complete part come before those of what follows it. -/
theorem Complete.literals_append {a : List Char} (ha : Complete a) (v : List Char) :
    literals (a ++ v) = literals a ++ literals v := by
  induction ha with
  | nil => simp [literals]
  | @char c s hc hquote hslash _ ih =>
    cases hb : isBlank c with
    | false =>
      rw [literals, literals, List.cons_append, tokens_of_solid hslash hquote hb,
        tokens_of_solid hslash hquote hb]
      exact ih
    | true => rw [List.cons_append, literals_of_blank hb, literals_of_blank hb, ih]
  | @literal q u s hq hu _ ih =>
    rw [literals, literals, List.cons_append, List.append_assoc, List.cons_append,
      tokens_of_quote hq hu, tokens_of_quote hq hu]
    exact congrArg (_ :: ·) ih

theorem sublist_literals {ps : List Piece} (h : ∀ p ∈ ps, Complete p.text) :
    List.Sublist ((ps.filterMap Piece.value?).map fun v => Json.literal v.toList)
      (literals (Piece.textAll ps)) := by
  induction ps with
  | nil => exact List.nil_sublist _
  | cons p ps ih =>
    have ih := ih fun q hq => h q (by simp [hq])
    rw [Markup.textAll_cons, (h p (by simp)).literals_append]
    cases p with
    | literal s =>
      have hs : literals (Piece.literal s).text = [Json.literal s.toList] := by
        rw [literals, Piece.text, tokens_literal]
        rfl
      rw [hs]
      exact ih.cons_cons _
    | _ => exact ih.trans (List.sublist_append_right _ _)

/-- The literals in the holes are among the literals that a scan of the script finds. -/
theorem slotLiterals_sublist (id : String) (a : CallToAction) (backend : FormBackend) :
    List.Sublist (slotLiterals id a backend) (literals (handler id a backend)) := by
  have h := sublist_literals (complete_of_mem_handlerPieces id a backend)
  rw [values_handlerPieces, List.map_map] at h
  rw [handler_eq]
  exact h

/-- A literal in a hole: it spells its value, and holds printable ASCII characters without those
that mean something in a document. -/
structure Spells (literal : List Char) (value : String) : Prop where
  value : Json.ofLiteral? literal = some value.toList
  printable : ∀ c ∈ literal, 0x20 ≤ c.toNat ∧ c.toNat < 0x7F
  unmarked : ∀ c ∈ ['<', '>', '&', '\''], c ∉ literal

theorem spells_literal (s : String) : Spells (Json.literal s.toList) s where
  value := Json.ofLiteral?_literal s.toList
  printable c hc := by
    have h := Json.isWritten_literal _ c hc
    simp only [Json.isWritten, Bool.and_eq_true, decide_eq_true_eq] at h
    exact h.1
  unmarked c hm hc := by
    have h := Json.isWritten_literal _ c hc
    simp only [Json.isWritten, Bool.and_eq_true, Bool.not_eq_true', List.contains_eq_mem,
      decide_eq_false_iff_not] at h
    exact h.2 hm

/-- The script of a form is the template of its backend, whatever the section is, with a literal in
each hole that spells its value. Nothing in it has to be made safe for the document around it, and
the compact script has the same literals in the same order. -/
theorem handler_of_backend (id : String) (a : CallToAction) (backend : FormBackend) :
    handler id a backend = Markup.fill (template backend) (slotLiterals id a backend) ∧
      Markup.holes (template backend) = (slotLiterals id a backend).length ∧
      List.Forall₂ Spells (slotLiterals id a backend)
        ((slots backend).map (Slot.value id a backend)) ∧
      Embed.script (Markup.fill (template backend) (slotLiterals id a backend)) =
        Markup.fill (template backend) (slotLiterals id a backend) ∧
      List.Sublist (slotLiterals id a backend) (literals (handler id a backend)) ∧
      literals (compact (handler id a backend)) = literals (handler id a backend) := by
  have hfill := handler_eq_fill id a backend
  have hcomplete := complete_handler id a backend
  refine ⟨hfill, holes_template id a backend, ?_, ?_, slotLiterals_sublist id a backend,
    literals_compact hcomplete.uncut⟩
  · rw [slotLiterals, List.forall₂_map_left_iff, List.forall₂_map_right_iff, List.forall₂_same]
    exact fun slot _ => spells_literal _
  · rw [← hfill]
    exact hcomplete.script_eq_self

end Script

end PagePress
