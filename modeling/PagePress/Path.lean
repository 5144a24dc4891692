/-!
Paths of files: parts between slashes. Parts that are empty or a single point mean nothing and are
left out; two points stand for the folder above and are kept, because what is above depends on the
files that are there. A path starts at the working directory, at the top of all folders, or, with
two slashes and no more, at a top of its own.
-/

namespace PagePress

/-- Where a path starts. -/
inductive PathRoot where
  | here
  | top
  | doubleTop
  deriving DecidableEq, Repr, Inhabited

/-- The slashes at the start of a path. -/
def PathRoot.text : PathRoot → List Char
  | here => []
  | top => ['/']
  | doubleTop => ['/', '/']

/-- A path: where it starts and its parts. -/
structure Path where
  root : PathRoot := .here
  parts : List (List Char) := []
  deriving DecidableEq, Repr, Inhabited

namespace Path

/-- The pieces of a text between its slashes. -/
def splitSlashes : List Char → List (List Char)
  | [] => [[]]
  | c :: rest =>
    match splitSlashes rest with
    | [] => [[c]]
    | piece :: pieces => if c = '/' then [] :: piece :: pieces else (c :: piece) :: pieces

/-- A part that says something. -/
def isPart (part : List Char) : Bool := !part.isEmpty && part != ['.']

/-- Where the path that a text spells starts. -/
def rootOf : List Char → PathRoot
  | '/' :: '/' :: '/' :: _ => .top
  | '/' :: '/' :: _ => .doubleTop
  | '/' :: _ => .top
  | _ => .here

/-- The path that a text spells. -/
def ofText (s : List Char) : Path := ⟨rootOf s, (splitSlashes s).filter isPart⟩

/-- The text of a path; that of the working directory is a point. -/
def text (p : Path) : List Char :=
  if p.root = .here && p.parts.isEmpty then ['.']
  else p.root.text ++ List.intercalate ['/'] p.parts

/-- The path without its last part. -/
def parent (p : Path) : Path := { p with parts := p.parts.dropLast }

/-- The last part of a path. -/
def name (p : Path) : List Char := p.parts.getLast?.getD []

/-- The path that a second path leads to from the end of a first one. -/
def join (p q : Path) : Path :=
  match q.root with
  | .here => { p with parts := p.parts ++ q.parts }
  | _ => q

/-- The path starts at a top and not at the working directory. -/
def isAbsolute (p : Path) : Bool := p.root != .here

/-- The path that leads from `base` to `p`, if `p` begins with the parts of `base`. -/
def relativeTo? (base p : Path) : Option Path :=
  if p.root = base.root && base.parts.isPrefixOf p.parts then
    some ⟨.here, p.parts.drop base.parts.length⟩
  else none

theorem splitSlashes_ne_nil (s : List Char) : splitSlashes s ≠ [] := by
  cases s with
  | nil => simp [splitSlashes]
  | cons c rest =>
    unfold splitSlashes
    split
    · simp
    · split <;> simp

theorem not_mem_of_mem_splitSlashes (s : List Char) :
    ∀ part ∈ splitSlashes s, '/' ∉ part := by
  induction s with
  | nil => simp [splitSlashes]
  | cons c rest ih =>
    unfold splitSlashes
    split
    · rename_i h
      exact absurd h (splitSlashes_ne_nil rest)
    · rename_i piece pieces h
      rw [h] at ih
      intro part hpart
      split at hpart
      · rcases List.mem_cons.1 hpart with rfl | hmem
        · simp
        · exact ih part hmem
      · rename_i hc
        rcases List.mem_cons.1 hpart with rfl | hmem
        · simp only [List.mem_cons, not_or]
          exact ⟨fun h => hc h.symm, ih piece (by simp)⟩
        · exact ih part (List.mem_cons_of_mem _ hmem)

/-- A part of a path says something and holds no slash. -/
theorem parts_ofText {s part : List Char} (h : part ∈ (ofText s).parts) :
    isPart part = true ∧ '/' ∉ part := by
  obtain ⟨hmem, hpart⟩ := List.mem_filter.1 h
  exact ⟨hpart, not_mem_of_mem_splitSlashes s part hmem⟩

end Path

end PagePress
