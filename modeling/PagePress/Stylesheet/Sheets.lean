import PagePress.Stylesheet.Rule

/-!
The fixed parts of every stylesheet.
-/

namespace PagePress.Stylesheet

/-- The same starting point for every browser. -/
def reset : List Item := [
  .style ⟨["*", "*::before", "*::after"], [("box-sizing", "border-box"), ("margin", "0"),
    ("padding", "0")]⟩,
  .style ⟨["html"], [("-webkit-text-size-adjust", "100%"), ("scroll-behavior", "smooth")]⟩,
  .style ⟨["body"], [("min-height", "100vh"), ("text-rendering", "optimizeSpeed")]⟩,
  .style ⟨["img", "picture", "svg"], [("display", "block"), ("max-width", "100%")]⟩,
  .style ⟨["input", "button", "textarea", "select"], [("font", "inherit")]⟩,
  .style ⟨["a"], [("color", "inherit")]⟩,
  .style ⟨["h1", "h2", "h3"], [("line-height", "1.2")]⟩]

/-- Layout of the sections and their parts. -/
def utilities : List Item := [
  .style ⟨[".container"], [("width", "100%"), ("max-width", "1200px"), ("margin", "0 auto"),
    ("padding", "0 1.5rem")]⟩,
  .style ⟨[".text-left"], [("text-align", "left")]⟩,
  .style ⟨[".text-center"], [("text-align", "center")]⟩,
  .style ⟨[".text-right"], [("text-align", "right")]⟩,
  .style ⟨[".py-8"], [("padding-top", "2rem"), ("padding-bottom", "2rem")]⟩,
  .style ⟨[".py-16"], [("padding-top", "4rem"), ("padding-bottom", "4rem")]⟩,
  .style ⟨[".py-24"], [("padding-top", "6rem"), ("padding-bottom", "6rem")]⟩,
  .style ⟨[".hero-section"], [("position", "relative"), ("display", "flex"),
    ("align-items", "center"), ("justify-content", "center"), ("min-height", "80vh"),
    ("padding", "4rem 0")]⟩,
  .style ⟨[".hero-overlay"], [("position", "absolute"), ("inset", "0"),
    ("background", "rgba(0, 0, 0, 0.3)")]⟩,
  .style ⟨[".hero-content"], [("position", "relative"), ("z-index", "1")]⟩,
  .style ⟨[".hero-title"], [("font-size", "3rem"), ("font-weight", "700"),
    ("margin-bottom", "1rem")]⟩,
  .style ⟨[".hero-subtitle"], [("font-size", "1.25rem"), ("font-weight", "300"),
    ("margin-bottom", "2rem")]⟩,
  .style ⟨[".content-container"], [("max-width", "1200px"), ("margin", "0 auto"),
    ("padding", "0 1.5rem")]⟩,
  .style ⟨[".content-grid"], [("display", "grid"), ("grid-template-columns", "1fr 1fr"),
    ("gap", "3rem"), ("align-items", "center")]⟩,
  .style ⟨[".content-stacked"], [("display", "flex"), ("flex-direction", "column"),
    ("gap", "2rem")]⟩,
  .style ⟨[".content-title"], [("font-size", "2rem"), ("margin-bottom", "1rem")]⟩,
  .style ⟨[".content-body p + p"], [("margin-top", "1rem")]⟩,
  .style ⟨[".responsive-image"], [("width", "100%"), ("height", "auto"),
    ("border-radius", "12px")]⟩,
  .style ⟨[".cta-section"], [("padding", "5rem 0")]⟩,
  .style ⟨[".cta-title"], [("font-size", "2.25rem"), ("margin-bottom", "1rem")]⟩,
  .style ⟨[".cta-description"], [("font-size", "1.125rem"), ("margin-bottom", "2rem")]⟩,
  .style ⟨[".form-message"], [("padding", "12px 16px"), ("border-radius", "8px")]⟩,
  .style ⟨[".form-message.success"], [("background", "#ecfdf5"), ("color", "#065f46")]⟩,
  .style ⟨[".form-message.error"], [("background", "#fef2f2"), ("color", "#991b1b")]⟩]

/-- Smaller type and fewer columns on small screens. -/
def responsive : List Item := [
  .media "(max-width: 1024px)" [
    ⟨[".hero-title"], [("font-size", "2.5rem")]⟩,
    ⟨[".content-grid"], [("gap", "2rem")]⟩],
  .media "(max-width: 768px)" [
    ⟨[".hero-section"], [("min-height", "60vh")]⟩,
    ⟨[".hero-title"], [("font-size", "2rem")]⟩,
    ⟨[".hero-subtitle"], [("font-size", "1.125rem")]⟩,
    ⟨[".content-grid"], [("grid-template-columns", "1fr")]⟩,
    ⟨[".cta-title"], [("font-size", "1.75rem")]⟩],
  .media "(max-width: 480px)" [
    ⟨[".container", ".content-container"], [("padding", "0 1rem")]⟩,
    ⟨[".hero-title"], [("font-size", "1.75rem")]⟩]]

/-- Contact forms and buttons. -/
def forms : List Item := [
  .style ⟨[".form-container"], [("display", "flex"), ("flex-direction", "column"),
    ("gap", "1rem"), ("max-width", "500px"), ("margin", "0 auto")]⟩,
  .style ⟨[".form-field"], [("width", "100%"), ("padding", "14px 16px"),
    ("border", "2px solid var(--border-color)"), ("border-radius", "8px"), ("font-size", "16px"),
    ("font-family", "inherit"), ("transition", "all 0.3s ease"), ("background", "white")]⟩,
  .style ⟨[".form-field:focus"], [("outline", "none"), ("border-color", "var(--primary-color)"),
    ("box-shadow", "0 0 0 3px rgba(59, 130, 246, 0.1)")]⟩,
  .style ⟨[".form-field.error"], [("border-color", "#dc2626")]⟩,
  .style ⟨[".btn"], [("display", "inline-flex"), ("align-items", "center"),
    ("justify-content", "center"), ("padding", "14px 28px"), ("font-size", "16px"),
    ("font-weight", "600"), ("text-align", "center"), ("border-radius", "8px"),
    ("border", "none"), ("cursor", "pointer"), ("text-decoration", "none"),
    ("transition", "all 0.2s ease"), ("min-height", "48px"), ("font-family", "inherit")]⟩,
  .style ⟨[".btn:hover:not(:disabled)"], [("transform", "translateY(-2px)"),
    ("box-shadow", "0 10px 20px rgba(0, 0, 0, 0.15)")]⟩,
  .style ⟨[".btn:active"], [("transform", "translateY(0)")]⟩,
  .style ⟨[".btn:disabled"], [("opacity", "0.6"), ("cursor", "not-allowed"),
    ("transform", "none !important")]⟩,
  .media "(max-width: 768px)" [
    ⟨[".btn"], [("width", "100%"), ("padding", "16px 24px")]⟩]]

/-- Entrance animations. -/
def animations : List Item := [
  .style ⟨[".animate-fade-in"], [("animation", "fadeIn 0.8s ease-out")]⟩,
  .style ⟨[".animate-slide-in-left"], [("animation", "slideInLeft 0.8s ease-out")]⟩,
  .style ⟨[".animate-slide-in-right"], [("animation", "slideInRight 0.8s ease-out")]⟩,
  .keyframes "fadeIn" [
    ⟨["from"], [("opacity", "0"), ("transform", "translateY(30px)")]⟩,
    ⟨["to"], [("opacity", "1"), ("transform", "translateY(0)")]⟩],
  .keyframes "slideInLeft" [
    ⟨["from"], [("opacity", "0"), ("transform", "translateX(-50px)")]⟩,
    ⟨["to"], [("opacity", "1"), ("transform", "translateX(0)")]⟩],
  .keyframes "slideInRight" [
    ⟨["from"], [("opacity", "0"), ("transform", "translateX(50px)")]⟩,
    ⟨["to"], [("opacity", "1"), ("transform", "translateX(0)")]⟩]]

/-- No motion for visitors who asked for none. -/
def reducedMotion : List Item := [
  .media "(prefers-reduced-motion: reduce)" [
    ⟨["*"], [("animation", "none !important"), ("transition", "none !important")]⟩]]

/-- Paper: no forms, no colours. -/
def printing : List Item := [
  .media "print" [
    ⟨[".hero-section"], [("min-height", "auto !important")]⟩,
    ⟨[".btn", ".form-container"], [("display", "none !important")]⟩,
    ⟨["*"], [("color", "black !important"), ("background", "white !important")]⟩]]

/-- The sheets that come first, with their names. -/
def baseSheets : List (String × List Item) :=
  [("reset", reset), ("utilities", utilities), ("responsive", responsive)]

end PagePress.Stylesheet
