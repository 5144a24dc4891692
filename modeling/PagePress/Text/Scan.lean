import PagePress.Text.Cut

/-!
Scanning a text for pieces of one kind. From left to right, each place is offered to a
recogniser together with the character before it; a recognised piece is set apart and the scan
goes on after it, any other character stands for itself. The segments always make up the text
again (`source_segments`); replacing the pieces and listing them are folds over the segments.
-/

namespace PagePress.Text

/-- Recognises a piece at the front of a text, given the character before it, and reads a value
off it. -/
abbrev Recognizer (α : Type) := (before : Option Char) → (s : List Char) → Option (α × Cut s)

/-- A plain character, or a recognised piece with the value read off it. -/
inductive Segment (α : Type) where
  | plain (c : Char)
  | piece (text : List Char) (value : α)

namespace Segment

variable {α : Type}

/-- The characters a segment stands for. -/
def source : Segment α → List Char
  | plain c => [c]
  | piece text _ => text

/-- The value of a recognised piece. -/
def value? : Segment α → Option α
  | plain _ => none
  | piece _ a => some a

end Segment

variable {α : Type}

/-- The segments of `s`, with the character before `s` given. A piece of no characters counts
as none. -/
def segmentsFrom (r : Recognizer α) (before : Option Char) (s : List Char) : List (Segment α) :=
  match s with
  | [] => []
  | c :: rest =>
    match r before (c :: rest) with
    | none => .plain c :: segmentsFrom r (some c) rest
    | some (a, k) =>
      if h : k.text = [] then .plain c :: segmentsFrom r (some c) rest
      else
        have : k.rest.length < (c :: rest).length := by
          have := congrArg List.length k.append_eq
          have := List.length_pos_iff.mpr h
          simp only [List.length_append] at *
          omega
        .piece k.text a :: segmentsFrom r (k.last before) k.rest
termination_by s.length
decreasing_by
  · exact Nat.lt_succ_self _
  · exact Nat.lt_succ_self _
  · assumption

/-- The segments of a text from its start. -/
def segments (r : Recognizer α) (s : List Char) : List (Segment α) := segmentsFrom r none s

theorem source_segmentsFrom (r : Recognizer α) (before : Option Char) (s : List Char) :
    (segmentsFrom r before s).flatMap Segment.source = s := by
  fun_induction segmentsFrom r before s with
  | case1 => rfl
  | case2 _ c rest _ ih => simp [Segment.source, ih]
  | case3 _ c rest a k _ _ ih => simp [Segment.source, ih]
  | case4 _ c rest a k _ _ _ ih => simp [Segment.source, ih, k.append_eq]

theorem source_segments (r : Recognizer α) (s : List Char) :
    (segments r s).flatMap Segment.source = s :=
  source_segmentsFrom r none s

/-- The text with each recognised piece replaced by its value. -/
def replaceAll (r : Recognizer (List Char)) (s : List Char) : List Char :=
  (segments r s).flatMap fun
    | .plain c => [c]
    | .piece _ value => value

/-- The values of the recognised pieces in order. -/
def findAll (r : Recognizer α) (s : List Char) : List α := (segments r s).filterMap Segment.value?

/-- Some place of the text is recognised. -/
def occurs (p : Option Char → List Char → Bool) (before : Option Char) : List Char → Bool
  | [] => p before []
  | c :: rest => p before (c :: rest) || occurs p (some c) rest

/-- The first recognised value in a text. -/
def firstMatch? (f : Option Char → List Char → Option α) (before : Option Char) :
    List Char → Option α
  | [] => f before []
  | c :: rest => (f before (c :: rest)).orElse fun _ => firstMatch? f (some c) rest

/-- The text `word` occurs in `s`. -/
def containsText (word : String) (s : List Char) : Bool :=
  let letters := word.toList
  occurs (fun _ t => letters.isPrefixOf t) none s

end PagePress.Text
