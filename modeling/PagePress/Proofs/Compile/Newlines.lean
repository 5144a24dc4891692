import PagePress.Proofs.Compile.Embedded
import PagePress.Proofs.Compile.Warnings

/-!
The document of a page as it is read from a file, where all newlines are line feeds. The inspection of
it may find another size and nothing else (`inspect_unifyNewlines_of_compile`), and a reduced document
is read as it was written (`unifyNewlines_of_compile`).
-/

namespace PagePress.Markup

open Text Html

theorem seals_unified : Seals Element.Unified where
  script _ _ ha h := Element.unified_script ha h

theorem unified_styleElement (css : List Char) : (styleElement css).Unified :=
  Element.unified_of (by simp [styleElement]) (return_not_mem_compact _)

variable {v : Vendors} {o : Options} {clock : ClockReading} {p : Page} {out : Output}

/-- The compiled document of a page with safe values has what the inspection asks for. -/
theorem inspectable_of_compile (hp : SafeValues p) (h : compile v o clock p = .ok out) :
    ∃ d, Inspectable d ∧ out.html = text d := by
  obtain ⟨script, hscript, hhtml, -⟩ := compile_eq h
  have hwf : (pageOutline v o clock p script).WellFormed := wellFormed_pageOutline hp hscript
  have hinspectable := Outline.inspectable_document hwf
  rw [hhtml]
  split
  · rw [reduce_text (Outline.reducible_document hwf (fewMetas_pageOutline script))]
    exact ⟨_, hinspectable.reduced, rfl⟩
  · exact ⟨_, hinspectable, rfl⟩

/-- Newlines of one kind change nothing about a compiled document but its size. -/
theorem inspect_unifyNewlines_of_compile (hp : SafeValues p) (h : compile v o clock p = .ok out)
    (hsize : Inspect.oversize (unifyNewlines out.html) = Inspect.oversize out.html) :
    inspect (unifyNewlines out.html) = inspect out.html := by
  obtain ⟨d, hd, hhtml⟩ := inspectable_of_compile hp h
  rw [hhtml] at hsize ⊢
  rw [inspect_unifyNewlines hd, inspect_text hd, hsize]

/-- All newlines in a reduced document are line feeds. -/
theorem unifyNewlines_of_compile (hp : SafeValues p) (hminify : o.minify = true)
    (h : compile v o clock p = .ok out) : unifyNewlines out.html = out.html := by
  obtain ⟨script, hscript, hhtml, -⟩ := compile_eq h
  have hwf : (pageOutline v o clock p script).WellFormed := wellFormed_pageOutline hp hscript
  rw [hhtml, if_pos hminify]
  exact unifyNewlines_reduce (Outline.reducible_document hwf (fewMetas_pageOutline script))
    fun s hs e he => seals_unified.sealed_of_mem_document (Script.complete_page hscript)
      (unified_styleElement _) hs he

end PagePress.Markup
