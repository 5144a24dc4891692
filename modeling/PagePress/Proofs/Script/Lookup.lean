import PagePress.Proofs.Script.Compact
import PagePress.Proofs.Script.Page

/-!
The elements that the script of a form looks up. The first two are its form and the place where it
reports its state, in the script as it is written (`lookups_handler`) and in its compact form
(`lookups_compact`).
-/

namespace PagePress.Script

open Text Render

/-! ### Lookups -/

/-- Takes a string literal and reads it. -/
def stringLiteral? (s : List Char) : Option (List Char × Cut s) := do
  let mark ← Cut.char? (· == '"') s
  let body : Cut mark.rest :=
    ⟨(literalRest '"' mark.rest).1, (literalRest '"' mark.rest).2, literalRest_append '"' mark.rest⟩
  let value ← Json.ofLiteral? ('"' :: body.text)
  return (value, mark.andThen body)

/-- Recognises the lookup of an element and reads the id that is looked up. -/
def lookup? : Recognizer (List Char) := fun _ s => do
  let name ← Cut.word? "document.getElementById(" s
  let (id, k) ← stringLiteral? name.rest
  return (id, name.andThen k)

/-- The ids that a script looks up, in order. -/
def lookups (script : List Char) : List (List Char) := findAll lookup? script

theorem stringLiteral?_gives {arg s v : List Char} (hs : s = Json.literal arg ++ v) :
    ∃ k : Cut s, stringLiteral? s = some (arg, k) ∧ k.text = Json.literal arg := by
  subst hs
  obtain ⟨mark, hmark, ht, hr⟩ := Cut.char?_gives (s := Json.literal arg ++ v) (p := (· == '"'))
    (c := '"') (v := arg.flatMap Json.literalChar ++ '"' :: v) (by simp [Json.literal]) (by decide)
  have hrest : literalRest '"' mark.rest = (arg.flatMap Json.literalChar ++ ['"'], v) := by
    rw [hr]
    exact literalRest_of_body (by decide) (literalBody_flatMap arg) v
  have hvalue : Json.ofLiteral? ('"' :: (literalRest '"' mark.rest).1) = some arg := by
    rw [hrest]
    exact Json.ofLiteral?_literal arg
  refine ⟨mark.andThen ⟨_, _, literalRest_append '"' mark.rest⟩, ?_, ?_⟩
  · simp only [stringLiteral?, hmark, Option.bind_eq_bind, Option.bind_some, hvalue]
    rfl
  · show mark.text ++ (literalRest '"' mark.rest).1 = _
    rw [ht, hrest]
    rfl

/-- The lookup of an element. -/
def lookupCall (id : List Char) : List Char := call "document.getElementById(" id

theorem takes_lookup (id : List Char) : Takes lookup? (lookupCall id) id := by
  refine takes_of_eq (fun _ _ => rfl) (by simp [lookupCall, call, Json.literal]) fun v => ?_
  obtain ⟨name, hname, ht, hr⟩ := Cut.word?_gives (w := "document.getElementById(")
    (s := lookupCall id ++ v) (v := Json.literal id ++ v) (by rw [lookupCall, call, List.append_assoc])
  obtain ⟨k, hk, htext⟩ := stringLiteral?_gives hr
  refine ⟨name.andThen k, ?_, ?_⟩
  · simp only [lookup?, hname, Option.bind_eq_bind, Option.bind_some, hk]
    rfl
  · rw [Cut.andThen_text, ht, htext]
    rfl

theorem passes_lookup {u : List Char} (hu : 'd' ∉ u) : Passes lookup? u := by
  refine passes_of_not_mem (fun _ _ => rfl) (fun c s hc => ?_) hu
  have hname : "document.getElementById(".toList = 'd' :: "ocument.getElementById(".toList := by decide
  have hd : ('d' == c) = false := by simpa using hc.symm
  simp [lookup?, Cut.word?, hname, Cut.wordBy?_neg hd]

theorem lookups_calls {a b : List Char} (ha : 'd' ∉ a) (hb : 'd' ∉ b) (i j v : List Char) :
    (lookups (a ++ (lookupCall i ++ (b ++ (lookupCall j ++ v))))).take 2 = [i, j] := by
  rw [lookups, lists_of_passes (passes_lookup ha), lists_of_takes (takes_lookup i),
    lists_of_passes (passes_lookup hb), lists_of_takes (takes_lookup j)]
  rfl

/-! ### Scripts of forms -/

/-- What stands before the lookup of a form. -/
def beforeForm : String := "(function () \x7b\n  var form = "

/-- What stands between the lookup of a form and that of the place where it reports. -/
def beforeMessage : String := ");\n  if (!form) \x7b\n    return;\n  \x7d\n  var message = "

theorem exists_handler_eq (id : String) (a : CallToAction) (backend : FormBackend) : ∃ v : List Char,
    handler id a backend = beforeForm.toList ++ (lookupCall (formId id).toList ++
      (beforeMessage.toList ++ (lookupCall (messageId id).toList ++ v))) := by
  have hopening : ∃ ps, opening id a backend =
      .fixed (beforeForm ++ "document.getElementById(") :: .literal (formId id) ::
        .fixed (beforeMessage ++ "document.getElementById(") :: .literal (messageId id) :: ps :=
    ⟨_, rfl⟩
  obtain ⟨ps, hps⟩ := hopening
  refine ⟨Piece.textAll (ps ++ setup backend id a.recipientEmail ++ middle ++ submit backend ++ ending), ?_⟩
  rw [handler_eq, handlerPieces, hps]
  simp only [List.cons_append, Piece.textAll, List.flatMap_cons, Piece.text, String.toList_append,
    lookupCall, call, List.append_assoc]

theorem complete_beforeForm : Complete beforeForm.toList := complete_toList rfl (by decide)

theorem complete_beforeMessage : Complete beforeMessage.toList := complete_toList rfl (by decide)

/-- The script of a form looks up the form first and then the place where it reports. -/
theorem lookups_handler (id : String) (a : CallToAction) (backend : FormBackend) :
    (lookups (handler id a backend)).take 2 = [(formId id).toList, (messageId id).toList] := by
  obtain ⟨v, hv⟩ := exists_handler_eq id a backend
  rw [hv]
  exact lookups_calls (by decide) (by decide) _ _ v

/-- So does its compact form. -/
theorem lookups_compact (id : String) (a : CallToAction) (backend : FormBackend) :
    (lookups (compact (handler id a backend))).take 2 = [(formId id).toList, (messageId id).toList] := by
  have hname : ∀ c ∈ "document.getElementById(".toList, isSolid c = true := by decide
  have hmem : ∀ {x s : List Char}, (∀ c ∈ x, c ∈ s ∨ c = ' ' ∨ c = '\n') → 'd' ∉ s → 'd' ∉ x := by
    intro x s h hs hx
    rcases h _ hx with h | h | h
    · exact hs h
    · exact absurd h (by decide)
    · exact absurd h (by decide)
  obtain ⟨v, hv⟩ := exists_handler_eq id a backend
  obtain ⟨x, b, hx, hjoin⟩ := joinFrom_call hname (by decide) complete_beforeForm (formId id).toList none
    .none (beforeMessage.toList ++ (lookupCall (messageId id).toList ++ v))
  obtain ⟨y, b', hy, hjoin'⟩ := joinFrom_call hname (by decide) complete_beforeMessage
    (messageId id).toList b .none v
  rw [compact, hv, lookupCall, hjoin, lookupCall, hjoin']
  exact lookups_calls (hmem hx (by decide)) (hmem hy (by decide)) _ _ _

theorem getLast?_toList {s : String} {l : List Char} {c : Char} (hs : s = .ofList l)
    (h : l.getLast? = some c) : s.toList.getLast? = some c := by
  rw [hs, String.toList_ofList]
  exact h

set_option maxRecDepth 20000 in
/-- Nothing runs together with the end of the script of a form. -/
theorem apart_handler (id : String) (a : CallToAction) (backend : FormBackend) (v : List Char) :
    Apart (handler id a backend) v := by
  have hlast : (Piece.textAll ending).getLast? = some ';' := by
    simp only [ending, Piece.textAll, List.flatMap_cons, List.flatMap_nil, List.append_nil, Piece.text]
    exact getLast?_toList rfl (by decide)
  left
  intro c hc
  have hpieces : Piece.textAll (handlerPieces id a backend) = Piece.textAll (opening id a backend ++
      setup backend id a.recipientEmail ++ middle ++ submit backend) ++ Piece.textAll ending :=
    List.flatMap_append
  rw [handler_eq, hpieces, List.getLast?_append, hlast] at hc
  obtain rfl : ';' = c := by simpa using hc
  decide

/-- The compact script of a form is a part of any compact script that the form's script is a part of. -/
theorem compact_handler_infix {u : List Char} (hu : Complete u) (id : String) (a : CallToAction)
    (backend : FormBackend) (v : List Char) :
    compact (handler id a backend) <:+: compact (u ++ (handler id a backend ++ v)) := by
  obtain ⟨w, hw⟩ := exists_handler_eq id a backend
  have hstart : ∃ x, handler id a backend = '(' :: x := by
    rw [hw]
    exact ⟨_, rfl⟩
  obtain ⟨x, hx⟩ := hstart
  exact compact_infix hu (complete_handler id a backend) (by decide) hx (apart_handler id a backend v)

end PagePress.Script
