import PagePress.Proofs.Embed.Guarded
import PagePress.Text.Hex
import PagePress.Text.Units

/-!
Values of string literals. A reader goes through what stands between the marks of a literal and
decodes its escapes to UTF-16 code units, as the language of scripts has them. Backslashes that stand
before a character which means itself behind a backslash do not change the value
(`Reading.value?_of_guarded`).
-/

namespace PagePress.Script

open Text

/-- Where the reader of a literal stands. -/
inductive Reading where
  | plain
  | escape
  /-- Behind a backslash and a carriage return, which a newline may belong to. -/
  | lineEnd
  /-- In an octal escape that up to `left` more digits may belong to. -/
  | octal (left value : Nat)
  /-- In an escape of a fixed number of hexadecimal digits, of which `left + 1` are still to come. -/
  | hex (left value : Nat)
  | unicode
  /-- Between the braces of an escape, with the number that the digits spell so far. -/
  | codePoint (value : Option Nat)
  deriving DecidableEq

/-- The UTF-16 code units of a code point, which may be a lone surrogate. -/
def codePointUnits (n : Nat) : List Nat := if n < 0x10000 then [n] else charUnits (.ofNat n)

def octalValue? (c : Char) : Option Nat := (hexValue? c).filter (· < 8)

/-- What a letter stands for behind a backslash. -/
def singleEscape? : Char → Option Nat
  | 'b' => some 0x08
  | 't' => some 0x09
  | 'n' => some 0x0A
  | 'v' => some 0x0B
  | 'f' => some 0x0C
  | 'r' => some 0x0D
  | _ => none

namespace Reading

/-- Reads a character outside of escapes. The mark of the literal and the end of a line do not occur
there. -/
def readPlain (mark c : Char) : Option (List Nat × Reading) :=
  if c = '\\' then some ([], escape)
  else if c = mark ∨ c = '\n' ∨ c = '\r' then none
  else some (charUnits c, plain)

/-- Reads the character behind a backslash: the end of a line goes with it, and what begins no escape
stands for itself. -/
def readEscape (c : Char) : List Nat × Reading :=
  match octalValue? c, singleEscape? c with
  | some d, _ => ([], octal (if d < 4 then 2 else 1) d)
  | none, some n => ([n], plain)
  | none, none =>
    if c = 'x' then ([], hex 1 0)
    else if c = 'u' then ([], unicode)
    else if c = '\r' then ([], lineEnd)
    else if c = '\n' ∨ c = '\u2028' ∨ c = '\u2029' then ([], plain)
    else (charUnits c, plain)

/-- Reads a digit of an escape that has a fixed number of them. -/
def readHex (left value : Nat) (c : Char) : Option (List Nat × Reading) :=
  (hexValue? c).map fun d =>
    match left with
    | 0 => ([16 * value + d], plain)
    | left + 1 => ([], hex left (16 * value + d))

/-- Reads a digit or the closing brace of an escape. -/
def readCodePoint (value : Option Nat) (c : Char) : Option (List Nat × Reading) :=
  if c = '\x7d' then value.map fun n => (codePointUnits n, plain)
  else do
    let n := 16 * value.getD 0 + (← hexValue? c)
    if n ≤ 0x10FFFF then return ([], codePoint (some n)) else none

/-- Reads a character: the code units that are known then, and where the reader stands behind it. -/
def step (mark : Char) : Reading → Char → Option (List Nat × Reading)
  | plain, c => readPlain mark c
  | escape, c => some (readEscape c)
  | lineEnd, c => if c = '\n' then some ([], plain) else readPlain mark c
  | octal left value, c =>
    match left, octalValue? c with
    | left + 1, some d => some ([], octal left (8 * value + d))
    | _, _ => (readPlain mark c).map fun (us, state) => (value :: us, state)
  | hex left value, c => readHex left value c
  | unicode, c => if c = '\x7b' then some ([], codePoint none) else readHex 3 0 c
  | codePoint value, c => readCodePoint value c

/-- The code units that are left when a text ends, if it may end there. -/
def finish? : Reading → Option (List Nat)
  | plain | lineEnd => some []
  | octal _ value => some [value]
  | _ => none

/-- The code units that the rest of a literal spells, if it is well-formed. -/
def value? (mark : Char) : Reading → List Char → Option (List Nat)
  | state, [] => state.finish?
  | state, c :: s => do
    let (us, state) ← state.step mark c
    return us ++ (← value? mark state s)

end Reading

/-- The code units that the text between the marks of a literal spells, if it is well-formed. -/
def literalValue? (mark : Char) (body : List Char) : Option (List Nat) := Reading.plain.value? mark body

/-! ### Backslashes put into a literal -/

namespace Reading

open Embed

theorem eq_plain_of_readPlain {mark c : Char} (hc : c ≠ '\\') {us : List Nat} {state : Reading}
    (h : readPlain mark c = some (us, state)) : state = plain := by
  rw [readPlain, if_neg hc] at h
  split at h <;> simp_all

/-- A character that opens a mark belongs to no escape but one of its own. -/
theorem eq_plain_of_opens {mark c : Char} (hc : opens c = true) {state : Reading} {us : List Nat}
    {state' : Reading} (h : state.step mark c = some (us, state')) : state' = plain := by
  have hfacts : c ≠ '\\' ∧ c ≠ '\n' ∧ c ≠ '\x7b' ∧ c ≠ '\x7d' ∧ hexValue? c = none ∧
      octalValue? c = none ∧ readEscape c = (charUnits c, plain) := by
    simp only [opens, Bool.or_eq_true, beq_iff_eq] at hc
    rcases hc with rfl | rfl <;> decide
  obtain ⟨hslash, hline, hopen, hclose, hhex, hoctal, hescape⟩ := hfacts
  cases state with
  | plain => exact eq_plain_of_readPlain hslash h
  | escape => simp_all [step]
  | lineEnd =>
    rw [step, if_neg hline] at h
    exact eq_plain_of_readPlain hslash h
  | octal left value =>
    simp only [step, hoctal, Option.map_eq_some_iff, Prod.mk.injEq] at h
    obtain ⟨⟨us', state⟩, hplain, -, rfl⟩ := h
    exact eq_plain_of_readPlain hslash hplain
  | hex left value => simp [step, readHex, hhex] at h
  | unicode => simp [step, readHex, hhex, hopen] at h
  | codePoint value => simp [step, readCodePoint, hhex, hclose] at h

/-- A character before which a backslash is put means itself behind it. -/
theorem step_of_isGuarded {mark c : Char} (hc : isGuarded c = true) (hmark : isGuarded mark = false) :
    plain.step mark c = some (charUnits c, plain) ∧ escape.step mark c = some (charUnits c, plain) := by
  have hne : c ≠ mark := by
    rintro rfl
    rw [hc] at hmark
    cases hmark
  have hfacts : c ≠ '\\' ∧ c ≠ '\n' ∧ c ≠ '\r' ∧ readEscape c = (charUnits c, plain) := by
    simp only [isGuarded, Bool.or_eq_true, beq_iff_eq] at hc
    rcases hc with (rfl | rfl) | rfl <;> decide
  obtain ⟨hslash, hline, hreturn, hescape⟩ := hfacts
  exact ⟨by simp [step, readPlain, hslash, hne, hline, hreturn], by rw [step, hescape]⟩

/-- Backslashes that were put into a literal do not change its value. -/
theorem value?_of_guarded {mark : Char} (hmark : isGuarded mark = false) {b : Bool} {s t : List Char}
    (h : Guarded b s t) {state : Reading} (hstate : b = true → state = plain) :
    state.value? mark t = state.value? mark s := by
  induction h generalizing state with
  | nil => rfl
  | @keep b c s t _ ih =>
    rw [value?, value?]
    cases hstep : state.step mark c with
    | none => rfl
    | some x =>
      obtain ⟨us, state'⟩ := x
      have hrest := ih fun hc => eq_plain_of_opens hc hstep
      simp only [Option.bind_eq_bind, Option.bind_some, hrest]
  | @guard c s t hc _ ih =>
    obtain rfl := hstate rfl
    have hslash : plain.step mark '\\' = some ([], escape) := rfl
    obtain ⟨hplain, hescape⟩ := step_of_isGuarded hc hmark
    have hrest : value? mark plain t = value? mark plain s := ih fun _ => rfl
    simp only [value?, hslash, hplain, hescape, hrest, Option.bind_eq_bind, Option.bind_some, Option.pure_def,
      List.nil_append, Option.bind_fun_some]

end Reading

example : ["</\\x41\\u\x7b1F600\x7d", "<\\/\\x41\\u\x7b1F600\x7d"].map (literalValue? '"' ·.toList) =
    List.replicate 2 (some [0x3C, 0x2F, 0x41, 0xD83D, 0xDE00]) := by
  decide

end PagePress.Script
