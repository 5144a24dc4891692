import PagePress.Proofs.Embed
import PagePress.Proofs.Script.Complete
import PagePress.Script.Page

/-!
The script of a page: which scripts it is made of, that each of them is complete, and when there is none: a filter
that fails does so at one of its steps (`exists_of_filterMapM_error`), so the script of a page fails exactly when a
form needs a backend that is unknown (`page_eq_error_iff`).
-/

namespace PagePress

open Text

namespace Script

/-! ### Pieces -/

theorem complete_text_literal (s : String) : Complete (Piece.literal s).text := complete_literal s.toList

theorem complete_text_fixed {s : String} {l : List Char} (hs : s = .ofList l)
    (h : Mode.code.completes l = true) : Complete (Piece.fixed s).text := complete_toList hs h

set_option maxRecDepth 20000 in
theorem complete_opening (id : String) (a : CallToAction) (backend : FormBackend) :
    ∀ p ∈ opening id a backend, Complete p.text := by
  have hdelay : Complete (Piece.fixed (toString resetDelay)).text :=
    complete_text_fixed (l := ['4', '0', '0', '0']) rfl (by decide)
  simp only [opening, List.forall_mem_cons, complete_text_literal, hdelay, true_and]
  exact ⟨complete_text_fixed rfl (by decide), complete_text_fixed rfl (by decide),
    complete_text_fixed rfl (by decide), complete_text_fixed rfl (by decide),
    complete_text_fixed rfl (by decide), complete_text_fixed rfl (by decide), by simp⟩

set_option maxRecDepth 20000 in
theorem complete_setup (backend : FormBackend) (id recipient : String) :
    ∀ p ∈ setup backend id recipient, Complete p.text := by
  cases backend with
  | hostedService =>
    simp only [setup, hostedSetup, List.forall_mem_cons, complete_text_literal, true_and]
    exact ⟨complete_text_fixed rfl (by decide), complete_text_fixed rfl (by decide), by simp⟩
  | platformNative =>
    simp only [setup, platformSetup, List.forall_mem_cons, complete_text_literal, true_and]
    exact ⟨complete_text_fixed rfl (by decide), complete_text_fixed rfl (by decide),
      complete_text_fixed rfl (by decide), by simp⟩
  | customEndpoint =>
    simp only [setup, customSetup, List.forall_mem_cons, complete_text_literal, true_and]
    exact ⟨complete_text_fixed rfl (by decide), complete_text_fixed rfl (by decide),
      complete_text_fixed rfl (by decide), by simp⟩

set_option maxRecDepth 20000 in
theorem complete_submit (backend : FormBackend) : ∀ p ∈ submit backend, Complete p.text := by
  cases backend with
  | hostedService =>
    simpa only [submit, hostedSubmit, List.forall_mem_singleton] using complete_text_fixed rfl (by decide)
  | platformNative =>
    simpa only [submit, platformSubmit, List.forall_mem_singleton] using complete_text_fixed rfl (by decide)
  | customEndpoint =>
    simpa only [submit, customSubmit, List.forall_mem_singleton] using complete_text_fixed rfl (by decide)

set_option maxRecDepth 20000 in
theorem complete_middle : ∀ p ∈ middle, Complete p.text := by
  simpa only [middle, List.forall_mem_singleton] using complete_text_fixed rfl (by decide)

set_option maxRecDepth 20000 in
theorem complete_ending : ∀ p ∈ ending, Complete p.text := by
  simpa only [ending, List.forall_mem_singleton] using complete_text_fixed rfl (by decide)

set_option maxRecDepth 20000 in
theorem complete_smoothScroll : Complete smoothScroll.toList := complete_toList rfl (by decide)

/-! ### Scripts -/

theorem Complete.not_mem {s : List Char} (h : Complete s) {c : Char} (hc : Script.isScriptChar c = false) :
    c ∉ s := by
  intro hm
  rw [h.isScriptChar c hm] at hc
  cases hc

/-- A complete script is safe in its element as it is. -/
theorem Complete.script_eq_self {s : List Char} (h : Complete s) : Embed.script s = s :=
  Embed.script_eq_self (h.not_mem (by decide)) (h.not_mem (by decide))

theorem complete_of_mem_handlerPieces (id : String) (a : CallToAction) (backend : FormBackend) :
    ∀ p ∈ handlerPieces id a backend, Complete p.text := by
  intro p hp
  simp only [handlerPieces, List.mem_append] at hp
  rcases hp with (((hp | hp) | hp) | hp) | hp
  · exact complete_opening id a backend p hp
  · exact complete_setup backend id a.recipientEmail p hp
  · exact complete_middle p hp
  · exact complete_submit backend p hp
  · exact complete_ending p hp

theorem complete_handlerPieces (id : String) (a : CallToAction) (backend : FormBackend) :
    Complete (Piece.textAll (handlerPieces id a backend)) :=
  complete_flatMap (complete_of_mem_handlerPieces id a backend)

theorem handler_eq (id : String) (a : CallToAction) (backend : FormBackend) :
    handler id a backend = Piece.textAll (handlerPieces id a backend) :=
  (complete_handlerPieces id a backend).script_eq_self

/-- The script of a form is complete. -/
theorem complete_handler (id : String) (a : CallToAction) (backend : FormBackend) :
    Complete (handler id a backend) := by
  rw [handler_eq]
  exact complete_handlerPieces id a backend

/-! ### Computations that may fail -/

/-- The steps of a computation that does not fail do not fail. -/
theorem exists_of_bind_eq_ok {ε α β : Type} {x : Except ε α} {f : α → Except ε β} {r : β}
    (h : x >>= f = .ok r) : ∃ a, x = .ok a ∧ f a = .ok r := by
  cases x with
  | error e => cases h
  | ok a => exact ⟨a, rfl, h⟩

theorem exists_bind {ε α β : Type} {x : Except ε α} {f : α → Except ε β} {a : α} (hx : x = .ok a)
    (hf : ∃ r, f a = .ok r) : ∃ r, x >>= f = .ok r := by
  rw [hx]
  exact hf

/-- What a filter that may fail leaves, when it does not fail. -/
theorem mem_of_filterMapM {ε α β : Type} {f : α → Except ε (Option β)} {as : List α} {r : List β}
    (h : as.filterMapM f = .ok r) :
    (∀ x ∈ r, ∃ a ∈ as, f a = .ok (some x)) ∧ ∀ a ∈ as, ∃ o, f a = .ok o ∧ ∀ x ∈ o, x ∈ r := by
  induction as generalizing r with
  | nil =>
    obtain rfl := Except.ok.inj h
    exact ⟨by simp, by simp⟩
  | cons a as ih =>
    rw [List.filterMapM_cons] at h
    obtain ⟨o, ho, h⟩ := exists_of_bind_eq_ok h
    have htail : ∀ {rs : List β}, (∀ x ∈ rs, ∃ a' ∈ as, f a' = .ok (some x)) →
        ∀ x ∈ rs, ∃ a' ∈ a :: as, f a' = .ok (some x) := by
      intro rs hrs x hx
      obtain ⟨a', ha', hx⟩ := hrs x hx
      exact ⟨a', List.mem_cons_of_mem _ ha', hx⟩
    cases o with
    | none =>
      obtain ⟨h1, h2⟩ := ih h
      exact ⟨htail h1, List.forall_mem_cons.2 ⟨⟨none, ho, by simp⟩, h2⟩⟩
    | some b =>
      obtain ⟨rs, hrs, h⟩ := exists_of_bind_eq_ok h
      obtain rfl := Except.ok.inj h
      obtain ⟨h1, h2⟩ := ih hrs
      refine ⟨List.forall_mem_cons.2 ⟨⟨a, by simp, ho⟩, htail h1⟩,
        List.forall_mem_cons.2 ⟨⟨some b, ho, by simp⟩, fun a' ha' => ?_⟩⟩
      obtain ⟨o, ho, hmem⟩ := h2 a' ha'
      exact ⟨o, ho, fun x hx => List.mem_cons_of_mem _ (hmem x hx)⟩

/-- A filter whose every step is made is made. -/
theorem exists_filterMapM {ε α β : Type} {f : α → Except ε (Option β)} {as : List α}
    (h : ∀ a ∈ as, ∃ o, f a = .ok o) : ∃ r, as.filterMapM f = .ok r := by
  induction as with
  | nil => exact ⟨[], rfl⟩
  | cons a as ih =>
    obtain ⟨o, ho⟩ := h a (by simp)
    obtain ⟨r, hr⟩ := ih fun x hx => h x (by simp [hx])
    rw [List.filterMapM_cons]
    refine exists_bind ho ?_
    cases o with
    | none => exact ⟨r, hr⟩
    | some b => exact exists_bind hr ⟨b :: r, rfl⟩

/-- What fails does so at its first step or after it. -/
theorem error_of_bind {ε α β : Type} {x : Except ε α} {f : α → Except ε β} {e : ε}
    (h : x >>= f = .error e) : x = .error e ∨ ∃ a, x = .ok a ∧ f a = .error e := by
  cases x with
  | error e' => exact .inl (congrArg Except.error (Except.error.inj h))
  | ok a => exact .inr ⟨a, rfl, h⟩

/-- A filter that fails does so at one of its steps. -/
theorem exists_of_filterMapM_error {ε α β : Type} {f : α → Except ε (Option β)} {as : List α} {e : ε}
    (h : as.filterMapM f = .error e) : ∃ a ∈ as, f a = .error e := by
  induction as with
  | nil => cases h
  | cons a as ih =>
    rw [List.filterMapM_cons] at h
    rcases error_of_bind h with ha | ⟨o, -, h⟩
    · exact ⟨a, List.mem_cons_self, ha⟩
    · have hrest : as.filterMapM f = .error e := by
        cases o with
        | none => exact h
        | some b =>
          rcases error_of_bind h with hrest | ⟨r, -, h⟩
          · exact hrest
          · cases h
      obtain ⟨a', ha', he⟩ := ih hrest
      exact ⟨a', List.mem_cons_of_mem a ha', he⟩

/-! ### Pages -/

/-- With a backend that is known, every page has a script. -/
theorem exists_page {form : FormChoice} {backend : FormBackend} (h : form.resolve = .ok backend)
    (sections : List Section) : ∃ script, page form sections = .ok script := by
  refine (exists_filterMapM fun s _ => ?_).elim fun handlers hm => exists_bind hm ⟨_, rfl⟩
  split
  · exact ⟨_, rfl⟩
  · rw [h]
    exact ⟨_, rfl⟩

/-- The script of a page is the scrolling script and the handler of every form. -/
theorem page_eq {form : FormChoice} {sections : List Section} {script : List Char}
    (h : page form sections = .ok script) :
    ∃ handlers : List (List Char),
      script = List.intercalate ['\n', '\n'] (Embed.script smoothScroll.toList :: handlers) ∧
        (∀ x ∈ handlers, ∃ s ∈ sections, ∃ a backend, s.form? = some a ∧ x = handler s.id a backend) ∧
        ∀ s ∈ sections, ∀ a, s.form? = some a →
          ∃ backend, form.resolve = .ok backend ∧ handler s.id a backend ∈ handlers := by
  obtain ⟨handlers, hm, h⟩ := exists_of_bind_eq_ok h
  injection h with h
  obtain ⟨h1, h2⟩ := mem_of_filterMapM hm
  refine ⟨handlers, h.symm, fun x hx => ?_, fun s hs a ha => ?_⟩
  · obtain ⟨s, hs, hx⟩ := h1 x hx
    cases hf : s.form? with
    | none => simp [hf] at hx
    | some a =>
      cases hr : form.resolve with
      | error e => simp [hf, hr, Except.map] at hx
      | ok backend =>
        simp only [hf, hr, Except.map, Except.ok.injEq, Option.some.injEq] at hx
        exact ⟨s, hs, a, backend, hf, hx.symm⟩
  · obtain ⟨o, ho, hmem⟩ := h2 s hs
    cases hr : form.resolve with
    | error e => simp [ha, hr, Except.map] at ho
    | ok backend =>
      simp only [ha, hr, Except.map, Except.ok.injEq] at ho
      exact ⟨backend, rfl, hmem _ (by rw [← ho]; rfl)⟩

theorem resolve_of_page_error {form : FormChoice} {sections : List Section} {e : UnknownBackend}
    (h : page form sections = .error e) :
    form.resolve = .error e ∧ ∃ s ∈ sections, ∃ a, s.form? = some a := by
  rcases error_of_bind h with h | ⟨_, -, h⟩
  · obtain ⟨s, hs, hstep⟩ := exists_of_filterMapM_error h
    cases ha : s.form? with
    | none => simp [ha] at hstep
    | some a =>
      cases hr : form.resolve with
      | ok backend => simp [ha, hr, Except.map] at hstep
      | error e' =>
        simp only [ha, hr, Except.map, Except.error.injEq] at hstep
        exact ⟨congrArg _ hstep, s, hs, a, ha⟩
  · cases h

/-- The script of a page fails exactly when a form needs a backend that is unknown. -/
theorem page_eq_error_iff {form : FormChoice} {sections : List Section} {e : UnknownBackend} :
    page form sections = .error e ↔ form.resolve = .error e ∧ ∃ s ∈ sections, ∃ a, s.form? = some a := by
  refine ⟨resolve_of_page_error, fun ⟨hr, s, hs, a, ha⟩ => ?_⟩
  cases hpage : page form sections with
  | ok script =>
    obtain ⟨_, -, -, hforms⟩ := page_eq hpage
    obtain ⟨backend, hbackend, -⟩ := hforms s hs a ha
    rw [hr] at hbackend
    cases hbackend
  | error e' =>
    have he := (resolve_of_page_error hpage).1
    rw [hr] at he
    exact congrArg Except.error (Except.error.inj he).symm

theorem complete_pageParts {sections : List Section} {handlers : List (List Char)}
    (h : ∀ x ∈ handlers, ∃ s ∈ sections, ∃ a backend, s.form? = some a ∧ x = handler s.id a backend) :
    ∀ x ∈ Embed.script smoothScroll.toList :: handlers, Complete x := by
  intro x hx
  rcases List.mem_cons.1 hx with rfl | hx
  · rw [complete_smoothScroll.script_eq_self]
    exact complete_smoothScroll
  · obtain ⟨s, -, a, backend, -, rfl⟩ := h x hx
    exact complete_handler s.id a backend

theorem complete_gap : Complete ['\n', '\n'] :=
  .char (by decide) (by decide) (by decide) (.char (by decide) (by decide) (by decide) .nil)

/-- The script of a page is complete. -/
theorem complete_page {form : FormChoice} {sections : List Section} {script : List Char}
    (h : page form sections = .ok script) : Complete script := by
  obtain ⟨handlers, rfl, hmem, -⟩ := page_eq h
  exact complete_intercalate complete_gap (complete_pageParts hmem)

/-- The script of a form is a part of the script of its page, behind a complete part. -/
theorem exists_page_eq {form : FormChoice} {sections : List Section} {script : List Char}
    (h : page form sections = .ok script) {s : Section} (hs : s ∈ sections) {a : CallToAction}
    (ha : s.form? = some a) : ∃ backend u v, form.resolve = .ok backend ∧ Complete u ∧
      script = u ++ (handler s.id a backend ++ v) := by
  obtain ⟨handlers, rfl, hmem, hforms⟩ := page_eq h
  obtain ⟨backend, hbackend, hx⟩ := hforms s hs a ha
  obtain ⟨xs, ys, hxs, hsplit⟩ := exists_intercalate_eq (s := ['\n', '\n'])
    (List.mem_cons_of_mem (Embed.script smoothScroll.toList) hx)
  refine ⟨backend, _, _, hbackend, complete_flatMap fun x hx => ?_, hsplit⟩
  exact (complete_pageParts hmem x (hxs ▸ List.mem_append_left _ hx)).append complete_gap

end Script

end PagePress
