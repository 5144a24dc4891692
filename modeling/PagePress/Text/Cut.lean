import PagePress.Text.Case

/-!
Cuts of a text into a head and the rest. A recogniser answers with a cut, so that what it
recognised and what follows always make up the text it was given. The combinators here take a
fixed word, one character or a run of characters off the front, or everything before the first
place where a condition holds.
-/

namespace PagePress.Text

/-- A cut of `s` in two. -/
structure Cut (s : List Char) where
  text : List Char
  rest : List Char
  append_eq : text ++ rest = s

namespace Cut

variable {s : List Char}

/-- The cut before the first character. -/
def start (s : List Char) : Cut s := ⟨[], s, rfl⟩

/-- A cut of what a first cut left over, as a cut of the whole. -/
def andThen (a : Cut s) (b : Cut a.rest) : Cut s :=
  ⟨a.text ++ b.text, b.rest, by rw [List.append_assoc, b.append_eq, a.append_eq]⟩

/-- Takes one character that satisfies `p`. -/
def char? (p : Char → Bool) : (s : List Char) → Option (Cut s)
  | [] => none
  | c :: rest => if p c then some ⟨[c], rest, rfl⟩ else none

/-- Takes the longest run of characters that satisfy `p`, which may be empty. -/
def span (p : Char → Bool) (s : List Char) : Cut s :=
  ⟨s.takeWhile p, s.dropWhile p, List.takeWhile_append_dropWhile⟩

/-- Takes the longest run of characters that satisfy `p`, at least one. -/
def spanSome? (p : Char → Bool) (s : List Char) : Option (Cut s) :=
  (char? p s).map fun a => a.andThen (span p a.rest)

/-- Takes a word, character for character, as `same` compares them. -/
def wordBy? (same : Char → Char → Bool) : (word : List Char) → (s : List Char) → Option (Cut s)
  | [], s => some (start s)
  | _ :: _, [] => none
  | w :: word, c :: rest =>
    if same w c then
      (wordBy? same word rest).map fun k => ⟨c :: k.text, k.rest, by simp [k.append_eq]⟩
    else none

/-- Takes a word exactly as given. -/
def word? (word : String) (s : List Char) : Option (Cut s) := wordBy? (· == ·) word.toList s

/-- Takes a word of lower-case ASCII letters in any case. -/
def wordAnyCase? (word : String) (s : List Char) : Option (Cut s) :=
  wordBy? sameLetter word.toList s

/-- Takes everything before the first place whose remaining text satisfies `stop`. -/
def before? (stop : List Char → Bool) : (s : List Char) → Option (Cut s)
  | [] => if stop [] then some (start []) else none
  | c :: rest =>
    if stop (c :: rest) then some (start (c :: rest))
    else (before? stop rest).map fun k => ⟨c :: k.text, k.rest, by simp [k.append_eq]⟩

/-- The last character of the head, or `before` when the head is empty. -/
def last (before : Option Char) (k : Cut s) : Option Char := k.text.getLast?.or before

end Cut

end PagePress.Text
