import PagePress.Proofs.Text.Case
import PagePress.Text.Blank
import PagePress.Text.Lines

/-!
Lines of a text. Every mark that ends a line is white space, so nothing else is lost when a text is cut into
lines (`filter_flatten_lines`), and a line is found again whatever stands behind its end (`lines_append`).

Newlines of one kind. Turning every kind of newline into a line feed treats two parts of a text apart
unless a carriage return and a line feed meet there (`unifyNewlines_append`), and it does not touch the
words in between (`containsText_lower_unifyNewlines`).
-/

namespace PagePress.Text

/-! ### Lines -/

theorem isBlank_of_isLineEnd {c : Char} (h : isLineEnd c = true) : isBlank c = true := by
  simp only [isLineEnd, Bool.or_eq_true, Bool.and_eq_true, decide_eq_true_eq, beq_iff_eq] at h
  simp only [isBlank, Bool.or_eq_true, Bool.and_eq_true, decide_eq_true_eq, beq_iff_eq]
  omega

@[simp] theorem isLineEnd_newline : isLineEnd '\n' = true := by decide

theorem lines_cons {c : Char} (h : isLineEnd c = false) (s : List Char) :
    lines (c :: s) = consFirst c (lines s) := by
  have hc : ∀ rest, c = '\r' → s = '\n' :: rest → False := by
    rintro rest rfl -
    revert h
    decide
  rw [lines.eq_3 c s hc, h, if_neg Bool.false_ne_true]

theorem lines_newline (s : List Char) : lines ('\n' :: s) = [] :: lines s := by
  rw [lines.eq_3 '\n' s (by rintro rest ⟨⟩), if_pos isLineEnd_newline]

theorem flatten_consFirst (c : Char) (ls : List (List Char)) : (consFirst c ls).flatten = c :: ls.flatten := by
  cases ls <;> rfl

/-- The added character is in the first line, whose others are from the lines that were there. -/
theorem exists_of_mem_consFirst {c d : Char} {line : List Char} {ls : List (List Char)}
    (h : line ∈ consFirst c ls) (hd : d ∈ line) : d = c ∨ ∃ l ∈ ls, d ∈ l := by
  cases ls with
  | nil =>
    obtain rfl := List.mem_singleton.1 h
    exact .inl (List.mem_singleton.1 hd)
  | cons first ls =>
    rcases List.mem_cons.1 h with rfl | h
    · rcases List.mem_cons.1 hd with rfl | hd
      · exact .inl rfl
      · exact .inr ⟨first, List.mem_cons_self, hd⟩
    · exact .inr ⟨line, List.mem_cons_of_mem first h, hd⟩

/-- No line holds a mark that ends one. -/
theorem isLineEnd_of_mem_lines {s line : List Char} {c : Char} (h : line ∈ lines s) (hc : c ∈ line) :
    isLineEnd c = false := by
  fun_induction lines s generalizing line with
  | case1 => cases h
  | case2 rest ih =>
    rcases List.mem_cons.1 h with rfl | h
    · cases hc
    · exact ih h hc
  | case3 d rest hne hend ih =>
    rcases List.mem_cons.1 h with rfl | h
    · cases hc
    · exact ih h hc
  | case4 d rest hne hend ih =>
    rcases exists_of_mem_consFirst h hc with rfl | ⟨l, hl, hcl⟩
    · simpa using hend
    · exact ih hl hcl

/-- Only white space is lost between the lines. -/
theorem filter_flatten_lines (s : List Char) :
    ((lines s).flatten.filter fun c => !isBlank c) = s.filter fun c => !isBlank c := by
  have hreturn : isBlank '\r' = true := by decide
  have hfeed : isBlank '\n' = true := by decide
  fun_induction lines s with
  | case1 => rfl
  | case2 rest ih => simp [hreturn, hfeed, ih]
  | case3 c rest hne hend ih => simp [isBlank_of_isLineEnd hend, ih]
  | case4 c rest hne hend ih => rw [flatten_consFirst, List.filter_cons, List.filter_cons, ih]

/-- A line is its own text up to its end. -/
theorem lines_append {line : List Char} (h : ∀ c ∈ line, isLineEnd c = false) (s : List Char) :
    lines (line ++ '\n' :: s) = line :: lines s := by
  induction line with
  | nil => exact lines_newline s
  | cons c line ih =>
    obtain ⟨hc, hline⟩ := List.forall_mem_cons.1 h
    rw [List.cons_append, lines_cons hc, ih hline]
    rfl

/-- The last line needs no mark at its end. -/
theorem lines_of_line {line : List Char} (hne : line ≠ []) (h : ∀ c ∈ line, isLineEnd c = false) :
    lines line = [line] := by
  induction line with
  | nil => exact absurd rfl hne
  | cons c line ih =>
    obtain ⟨hc, hline⟩ := List.forall_mem_cons.1 h
    rw [lines_cons hc]
    cases line with
    | nil => rfl
    | cons d line =>
      rw [ih (List.cons_ne_nil d line) hline]
      rfl

/-! ### Newlines -/

theorem unifyNewlines_cons {c : Char} (hc : c ≠ '\r') (s : List Char) :
    unifyNewlines (c :: s) = c :: unifyNewlines s := by
  rw [unifyNewlines.eq_3 c s (fun _ h => absurd h hc), if_neg hc]

theorem unifyNewlines_of_not_mem {s : List Char} (h : '\r' ∉ s) : unifyNewlines s = s := by
  induction s with
  | nil => rfl
  | cons c s ih =>
    obtain ⟨hc, hs⟩ := not_or.1 (mt List.mem_cons.2 h)
    rw [unifyNewlines_cons (Ne.symm hc), ih hs]

/-- Only a carriage return and a line feed go together. -/
theorem unifyNewlines_append (u v : List Char) (h : u.getLast? ≠ some '\r' ∨ v.head? ≠ some '\n') :
    unifyNewlines (u ++ v) = unifyNewlines u ++ unifyNewlines v := by
  fun_induction unifyNewlines u with
  | case1 => rfl
  | case2 rest ih =>
    have hrest : rest.getLast? ≠ some '\r' ∨ v.head? ≠ some '\n' := by
      cases rest with
      | nil => simp
      | cons d rest => simpa using h
    simp only [List.cons_append, unifyNewlines, ih hrest]
  | case3 c rest hne ih =>
    cases rest with
    | nil =>
      rw [List.cons_append, List.nil_append, unifyNewlines.eq_3 c v]
      · rfl
      · rintro w rfl rfl
        simp at h
    | cons d rest =>
      rw [List.cons_append, unifyNewlines.eq_3 c (d :: rest ++ v), ih (by simpa using h)]
      · rfl
      · rintro w rfl hw
        obtain ⟨rfl, -⟩ := List.cons.inj hw
        exact hne rest rfl rfl

theorem mem_unifyNewlines {s : List Char} {c : Char} (h : c ∈ unifyNewlines s) : c ∈ s ∨ c = '\n' := by
  fun_induction unifyNewlines s with
  | case1 => cases h
  | case2 rest ih =>
    rcases List.mem_cons.1 h with rfl | h
    · exact .inr rfl
    · exact (ih h).imp_left fun hm => by simp [hm]
  | case3 d rest hne ih =>
    rcases List.mem_cons.1 h with rfl | h
    · split
      · exact .inr rfl
      · exact .inl List.mem_cons_self
    · exact (ih h).imp_left (List.mem_cons_of_mem d)

/-- A character stays or becomes a line feed. -/
theorem mem_unifyNewlines_of_mem {s : List Char} {c : Char} (h : c ∈ s) :
    (if c = '\r' then '\n' else c) ∈ unifyNewlines s := by
  fun_induction unifyNewlines s with
  | case1 => cases h
  | case2 rest ih =>
    simp only [List.mem_cons] at h ⊢
    rcases h with rfl | rfl | h
    · exact .inl rfl
    · exact .inl rfl
    · exact .inr (ih h)
  | case3 d rest hne ih =>
    simp only [List.mem_cons] at h ⊢
    rcases h with rfl | h
    · exact .inl rfl
    · exact .inr (ih h)

/-! ### Words -/

/-- A word without a certain character is on one side of it. -/
theorem infix_append_cons {w u v : List Char} {c : Char} (hc : c ∉ w) :
    w <:+: u ++ c :: v ↔ w <:+: u ∨ w <:+: v := by
  constructor
  · rintro ⟨p, q, h⟩
    rcases List.append_eq_append_iff.1 h with ⟨a, hu, -⟩ | ⟨a, hpw, hv⟩
    · exact .inl ⟨p, a, hu.symm⟩
    · cases a with
      | nil => exact .inl ⟨p, [], by simpa using hpw⟩
      | cons d a =>
        obtain ⟨rfl, hvq⟩ := List.cons.inj hv
        rcases List.append_eq_append_iff.1 hpw with ⟨b, -, hw⟩ | ⟨b, -, hb⟩
        · exact absurd (hw ▸ List.mem_append_right b List.mem_cons_self) hc
        · cases b with
          | nil =>
            rw [List.nil_append] at hb
            exact absurd (hb ▸ List.mem_cons_self) hc
          | cons e b =>
            obtain ⟨-, hba⟩ := List.cons.inj hb
            exact .inr ⟨b, q, by rw [hvq, hba]; rfl⟩
  · rintro (⟨p, q, rfl⟩ | ⟨p, q, rfl⟩)
    · exact ⟨p, q ++ c :: v, by simp⟩
    · exact ⟨u ++ c :: p, q, by simp⟩

theorem infix_folded_unifyNewlines {w : List Char} (hr : '\r' ∉ w) (hn : '\n' ∉ w) (s u : List Char) :
    w <:+: u ++ (unifyNewlines s).flatMap folded ↔ w <:+: u ++ s.flatMap folded := by
  have hreturn : folded '\r' = ['\r'] := by decide
  have hfeed : folded '\n' = ['\n'] := by decide
  fun_induction unifyNewlines s generalizing u with
  | case1 => rfl
  | case2 rest ih =>
    have h : w <:+: (unifyNewlines rest).flatMap folded ↔ w <:+: rest.flatMap folded := ih []
    simp only [List.flatMap_cons, hreturn, hfeed, List.cons_append, List.nil_append]
    rw [infix_append_cons hn, infix_append_cons hr, h]
    have hskip : w <:+: '\n' :: rest.flatMap folded ↔ w <:+: [] ∨ w <:+: rest.flatMap folded :=
      infix_append_cons (u := []) hn
    rw [hskip]
    constructor
    · rintro (h | h)
      · exact .inl h
      · exact .inr (.inr h)
    · rintro (h | h | h)
      · exact .inl h
      · exact .inl (List.infix_nil.1 h ▸ List.nil_infix)
      · exact .inr h
  | case3 c rest hne ih =>
    by_cases hc : c = '\r'
    · subst hc
      have h : w <:+: (unifyNewlines rest).flatMap folded ↔ w <:+: rest.flatMap folded := ih []
      simp only [if_true, List.flatMap_cons, hreturn, hfeed, List.cons_append, List.nil_append]
      rw [infix_append_cons hn, infix_append_cons hr, h]
    · rw [if_neg hc, List.flatMap_cons, List.flatMap_cons, ← List.append_assoc, ← List.append_assoc]
      exact ih (u ++ folded c)

/-- The kinds of newlines do not matter to the words that occur in a text. -/
theorem containsText_lower_unifyNewlines {w : String} (hw : ∀ c ∈ w.toList, c.toNat < 0x80)
    (hr : '\r' ∉ w.toList) (hn : '\n' ∉ w.toList) (s : List Char) :
    containsText w (lower (unifyNewlines s)) = containsText w (lower s) := by
  rw [Bool.eq_iff_iff, containsText_lower_iff hw, containsText_lower_iff hw]
  exact infix_folded_unifyNewlines hr hn s []

end PagePress.Text
