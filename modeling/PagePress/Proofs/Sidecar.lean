import Mathlib.Data.List.Forall2
import PagePress.Proofs.FileTree
import PagePress.Proofs.Json.Spells
import PagePress.Sidecar

/-!
The record of a document. Its text is read back entry by entry (`read?_text`), and where the id of the
page makes one name of a file, the record stands in the folder of the document (`path_eq_entry`).
-/

namespace PagePress.Sidecar

open Json

/-! ### Text -/

/-- The start of a line at a depth. -/
def margin (depth : Nat) : List Char := '\n' :: List.replicate (2 * depth) ' '

theorem isSpace_of_mem_margin {depth : Nat} : ∀ c ∈ margin depth, isSpace c = true := by
  intro c hc
  rcases List.mem_cons.1 hc with rfl | hc
  · decide
  · rw [(List.mem_replicate.1 hc).2]
    decide

theorem block_of_ne_nil {items : List (List Char)} (h : items ≠ []) (opening closing : Char) (depth : Nat) :
    block opening closing depth items =
      opening :: List.intercalate [','] (items.map (margin (depth + 1) ++ ·)) ++ margin depth ++
        [closing] := by
  simp [block, margin, h]

/-- Items one to a line spell the list of what they spell. -/
theorem spells_block {items : List (List Char)} {values : List Value} (h : List.Forall₂ Spells items values)
    (depth : Nat) : Spells (block '[' ']' depth items) (.list values) := by
  cases h with
  | nil =>
    intro fuel w hfuel _
    obtain ⟨fuel, rfl⟩ := Nat.exists_eq_add_one_of_ne_zero (Nat.ne_of_gt (Nat.zero_lt_of_lt hfuel))
    simp [block, readValue?, skipSpace_cons_of_not (c := '[') (by decide),
      skipSpace_cons_of_not (c := ']') (by decide)]
  | cons hs htexts =>
    rw [block_of_ne_nil (List.cons_ne_nil _ _)]
    refine spells_list ?_ (by simp) isSpace_of_mem_margin
    rw [List.forall₂_map_left_iff]
    exact (List.Forall₂.cons hs htexts).imp fun _ _ hs => hs.indent isSpace_of_mem_margin

/-- The entries of a record with the values that they spell. -/
def entries (r : Sidecar) : List (String × Value) :=
  [("page_id", .text r.pageId), ("output", .text (.ofList r.output)), ("size", .int r.size),
    ("warnings", .list (r.warnings.map .text)), ("generated_at", .text r.generatedAt),
    ("version", .text r.version), ("checksum", .text (.ofList r.checksum))]

theorem spells_text (s : String) : Spells (quoted s.toList) (.text s) := by
  simpa using spells_quoted s.toList

theorem spells_fields (r : Sidecar) :
    List.Forall₂ (fun field e => field.1 = e.1 ∧ Spells field.2 e.2) r.fields r.entries := by
  have hwarnings : Spells (block '[' ']' 1 (r.warnings.map fun w => quoted w.toList))
      (.list (r.warnings.map .text)) := by
    refine spells_block ?_ 1
    rw [List.forall₂_map_left_iff, List.forall₂_map_right_iff, List.forall₂_same]
    exact fun w _ => spells_text w
  simp only [fields, entries, List.forall₂_cons, List.Forall₂.nil, and_true, true_and]
  exact ⟨spells_text _, spells_quoted _, spells_toDigits _, hwarnings, spells_text _, spells_text _,
    spells_quoted _⟩

/-- The text of a record is read back as its entries. -/
theorem read?_text (r : Sidecar) : read? r.text = some (.map (entriesOf r.entries)) := by
  have hne : r.fields ≠ [] := List.cons_ne_nil _ _
  refine read?_of_spells ?_ (by decide)
  rw [block_of_ne_nil (mt List.map_eq_nil_iff.1 hne), List.map_map]
  refine spells_map ?_ (by simp [fields]) (by simp [entries]) isSpace_of_mem_margin
  rw [List.forall₂_map_left_iff]
  refine (spells_fields r).imp fun field e h => ?_
  refine ⟨margin 1, ' ' :: field.2, isSpace_of_mem_margin, ?_, h.2.indent (m := [' ']) (by decide)⟩
  simp [h.1]

/-- What the text of a record tells about a document when it is read as JSON. -/
def Tells (text : List Char) (pageId : String) (name html : List Char) (messages : List String) : Prop :=
  ∃ entries, read? text = some (.map entries) ∧
    Value.lookup? "page_id" entries = some (.text pageId) ∧
    Value.lookup? "output" entries = some (.text (.ofList name)) ∧
    Value.lookup? "size" entries = some (.int (Text.byteSize html)) ∧
    Value.lookup? "warnings" entries = some (.list (messages.map .text)) ∧
    Value.lookup? "checksum" entries = some (.text (.ofList (Checksum.checksum html)))

theorem tells_ofOutput {out : Output} (hsize : out.size = Text.byteSize out.html)
    (hchecksum : out.checksum = Checksum.checksum out.html) (pageId : String) (name : List Char) :
    Tells (ofOutput pageId name out).text pageId name out.html (out.warnings.map Warning.message) := by
  refine ⟨_, read?_text _, ?_⟩
  simp [entriesOf, entries, Value.lookup?, ofOutput, hsize, hchecksum]

/-! ### Place -/

/-- The name of the file for the record of a page. -/
def fileName (pageId : String) : List Char :=
  ".landing-".toList ++ pageId.toList ++ "-meta.json".toList

theorem mem_fileName {c : Char} {pageId : String} : c ∈ fileName pageId ↔
    c ∈ ".landing-".toList ∨ c ∈ pageId.toList ∨ c ∈ "-meta.json".toList := by
  unfold fileName
  rw [List.mem_append, List.mem_append, or_assoc]

theorem fileName_ne {s : List Char} (h : 'l' ∉ s) (pageId : String) : fileName pageId ≠ s := by
  rintro rfl
  exact h (mem_fileName.2 (.inl (by decide)))

/-- The id of a page without a slash makes one name. -/
theorem path_eq_entry {pageId : String} (h : '/' ∉ pageId.toList) (output : Path) :
    path output pageId = output.parent.entry (fileName pageId) := by
  have hslash : '/' ∉ fileName pageId := by
    rw [mem_fileName]
    exact not_or.2 ⟨by decide, not_or.2 ⟨h, by decide⟩⟩
  have hpart : Path.isPart (fileName pageId) = true := by
    simpa [Path.isPart] using
      And.intro (fileName_ne (s := []) (by decide) pageId) (fileName_ne (s := ['.']) (by decide) pageId)
  unfold path
  rw [show ".landing-".toList ++ pageId.toList ++ "-meta.json".toList = fileName pageId from rfl,
    Path.ofText_of_not_mem hslash hpart]
  rfl

end PagePress.Sidecar
