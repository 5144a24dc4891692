import PagePress.FileTree

/-!
What changes in a tree of files. Making folders removes no folder and changes no file
(`makeFolders_ok`), and writing a file changes that file alone (`write_ok`). So a path that could be
followed before leads to the same place afterwards (`KeepsFolders.locate`).
-/

namespace PagePress

namespace Path

theorem splitSlashes_of_not_mem {s : List Char} (h : '/' ∉ s) : splitSlashes s = [s] := by
  induction s with
  | nil => rfl
  | cons c s ih =>
    obtain ⟨hc, hs⟩ := not_or.1 (mt List.mem_cons.2 h)
    rw [splitSlashes, ih hs]
    simp [Ne.symm hc]

/-- A text without a slash is a path of one part. -/
theorem ofText_of_not_mem {s : List Char} (h : '/' ∉ s) (hs : isPart s = true) : ofText s = ⟨.here, [s]⟩ := by
  have hroot : rootOf s = .here := by
    unfold rootOf
    split
    · simp at h
    · simp at h
    · simp at h
    · rfl
  rw [ofText, hroot, splitSlashes_of_not_mem h]
  simp [hs]

/-- The path to an entry of a folder. -/
def entry (p : Path) (name : List Char) : Path := { p with parts := p.parts ++ [name] }

theorem parent_of_nil {p : Path} (h : p.parts = []) : p.parent = p := by
  cases p
  subst h
  rfl

theorem entry_parent_name {p : Path} (h : p.parts ≠ []) : p.parent.entry p.name = p := by
  simp [entry, parent, name, List.getLast?_eq_some_getLast h, List.dropLast_concat_getLast h]

end Path

namespace FileTree

/-! ### Entries -/

theorem lookup_put {t : FileTree} {place q : Place} (h : q ≠ place) (entry : FileEntry) :
    (t.put place entry).entries.lookup q = t.entries.lookup q := by
  have hfilter : ∀ es : List (Place × FileEntry),
      (es.filter fun e => e.1 != place).lookup q = es.lookup q := by
    intro es
    induction es with
    | nil => rfl
    | cons e es ih =>
      by_cases he : e.1 = place
      · have hq : (q == e.1) = false := by simpa [he] using h
        rw [List.filter_cons_of_neg (by simp [he]), ih, List.lookup_cons, hq]
      · rw [List.filter_cons_of_pos (by simpa using he), List.lookup_cons, List.lookup_cons, ih]
  have hq : (q == place) = false := by simpa using h
  rw [put, List.lookup_cons, hq, hfilter]

theorem textAt?_eq_some {t : FileTree} {place : Place} {text : List Char} :
    t.textAt? place = some text ↔ t.entries.lookup place = some (.file text) := by
  unfold textAt? entryAt?
  cases t.entries.lookup place with
  | none => simp
  | some entry => cases entry <;> simp

/-- An entry that is put somewhere says nothing about the files at other places. -/
theorem textAt?_put {t : FileTree} {place q : Place} (h : q ≠ place) (entry : FileEntry) :
    (t.put place entry).textAt? q = t.textAt? q := by
  refine Option.ext fun text => ?_
  rw [textAt?_eq_some, textAt?_eq_some, lookup_put h]

theorem textAt?_put_self (t : FileTree) (place : Place) (text : List Char) :
    (t.put place (.file text)).textAt? place = some text := by
  simp [textAt?, entryAt?_put_self]

/-- The files of two trees are the same, but for those at some places. -/
def SameBut (places : List Place) (t t' : FileTree) : Prop :=
  ∀ place ∉ places, t'.textAt? place = t.textAt? place

theorem SameBut.refl (t : FileTree) : SameBut [] t t := fun _ _ => rfl

theorem SameBut.trans {ps qs : List Place} {t u v : FileTree} (h : SameBut ps t u) (k : SameBut qs u v) :
    SameBut (ps ++ qs) t v := by
  intro place hplace
  rw [List.mem_append, not_or] at hplace
  exact (k place hplace.2).trans (h place hplace.1)

/-! ### Folders -/

/-- No folder is gone, and paths start where they did. -/
structure KeepsFolders (t t' : FileTree) : Prop where
  home : t'.home = t.home
  folder : ∀ place, t.entryAt? place = some .folder → t'.entryAt? place = some .folder

theorem KeepsFolders.refl (t : FileTree) : KeepsFolders t t := ⟨rfl, fun _ h => h⟩

theorem KeepsFolders.trans {t u v : FileTree} (h : KeepsFolders t u) (k : KeepsFolders u v) :
    KeepsFolders t v :=
  ⟨k.home.trans h.home, fun place hplace => k.folder place (h.folder place hplace)⟩

theorem isAbove_put {t : FileTree} {place q : Place} (entry : FileEntry)
    (h : t.entries.any (fun e => q.isPrefixOf e.1) = true) :
    (t.put place entry).entries.any (fun e => q.isPrefixOf e.1) = true := by
  obtain ⟨e, he, hq⟩ := List.any_eq_true.1 h
  refine List.any_eq_true.2 ?_
  by_cases hplace : e.1 = place
  · exact ⟨(place, entry), by simp [put], hplace ▸ hq⟩
  · exact ⟨e, by simp [put, he, hplace], hq⟩

theorem keepsFolders_put {t : FileTree} {place : Place} {entry : FileEntry}
    (h : t.entryAt? place = some .folder → entry = .folder) : KeepsFolders t (t.put place entry) := by
  refine ⟨rfl, fun q hq => ?_⟩
  by_cases hplace : q = place
  · subst hplace
    rw [entryAt?_put_self, h hq]
  · unfold entryAt? at hq ⊢
    rw [lookup_put hplace]
    cases hlookup : t.entries.lookup q with
    | some e => rwa [hlookup] at hq
    | none =>
      rw [hlookup] at hq
      simp only [Option.ite_none_right_eq_some, Bool.or_eq_true, and_true] at hq ⊢
      exact hq.imp (fun hhome => hhome) (isAbove_put entry)

theorem isFolder_of {t : FileTree} {place : Place} (hsome : t.entryAt? place ≠ none)
    (hfile : ∀ text, t.entryAt? place ≠ some (.file text)) : t.entryAt? place = some .folder := by
  cases hentry : t.entryAt? place with
  | none => exact absurd hentry hsome
  | some entry =>
    cases entry with
    | folder => rfl
    | file text => exact absurd hentry (hfile text)

/-- Something stands where a path starts. -/
theorem entryAt?_start_ne_none (t : FileTree) (p : Path) : t.entryAt? (t.start p) ≠ none := by
  have habove : (t.start p).isPrefixOf t.home = true := by
    unfold start
    split
    · rfl
    · exact List.isPrefixOf_iff_prefix.2 (List.prefix_refl _)
  unfold entryAt?
  rw [habove]
  split <;> simp

/-! ### Paths -/

theorem follow_cons {t : FileTree} {place : Place} {part : List Char} {rest : List (List Char)} {q : Place} :
    t.follow place (part :: rest) = .ok q ↔ t.entryAt? place = some .folder ∧
      ∃ next, step place part = .ok next ∧ t.follow next rest = .ok q := by
  rw [follow]
  cases t.entryAt? place with
  | none => simp [throw, throwThe, MonadExceptOf.throw]
  | some entry =>
    cases entry with
    | file text => simp [throw, throwThe, MonadExceptOf.throw]
    | folder =>
      cases hstep : step place part with
      | error e => simp [bind, Except.bind]
      | ok next => simp [bind, Except.bind]

theorem follow_concat {t : FileTree} {place q : Place} {parts : List (List Char)} {part : List Char} :
    t.follow place (parts ++ [part]) = .ok q ↔ ∃ folder, t.follow place parts = .ok folder ∧
      t.entryAt? folder = some .folder ∧ step folder part = .ok q := by
  induction parts generalizing place with
  | nil =>
    rw [List.nil_append, follow_cons]
    simp [follow]
  | cons first parts ih =>
    rw [List.cons_append, follow_cons]
    constructor
    · rintro ⟨hplace, next, hstep, hrest⟩
      obtain ⟨folder, hfolder, hlast⟩ := ih.1 hrest
      exact ⟨folder, follow_cons.2 ⟨hplace, next, hstep, hfolder⟩, hlast⟩
    · rintro ⟨folder, hfolder, hlast⟩
      obtain ⟨hplace, next, hstep, hrest⟩ := follow_cons.1 hfolder
      exact ⟨hplace, next, hstep, ih.2 ⟨folder, hrest, hlast⟩⟩

theorem KeepsFolders.follow {t t' : FileTree} (h : KeepsFolders t t') {parts : List (List Char)}
    {place q : Place} (hq : t.follow place parts = .ok q) : t'.follow place parts = .ok q := by
  induction parts generalizing place with
  | nil => exact hq
  | cons part parts ih =>
    obtain ⟨hplace, next, hstep, hrest⟩ := follow_cons.1 hq
    exact follow_cons.2 ⟨h.folder place hplace, next, hstep, ih hrest⟩

theorem locate_eq_ok {t : FileTree} {p : Path} {q : Place} :
    t.locate p = .ok q ↔ check p = .ok () ∧ t.follow (t.start p) p.parts = .ok q := by
  cases hcheck : check p with
  | error e => simp [locate, hcheck, bind, Except.bind]
  | ok u => simp [locate, hcheck, bind, Except.bind]

theorem KeepsFolders.locate {t t' : FileTree} (h : KeepsFolders t t') {p : Path} {q : Place}
    (hq : t.locate p = .ok q) : t'.locate p = .ok q := by
  obtain ⟨hcheck, hfollow⟩ := locate_eq_ok.1 hq
  have hstart : t'.start p = t.start p := by simp [start, h.home]
  exact locate_eq_ok.2 ⟨hcheck, hstart ▸ h.follow hfollow⟩

theorem check_eq_ok {p : Path} :
    check p = .ok () ↔ (∀ part ∈ p.parts, '\x00' ∉ part) ∧ Text.byteSize p.text ≤ pathLimit := by
  unfold check
  split
  · rename_i h
    simp only [List.any_eq_true, List.contains_iff_mem] at h
    simpa using fun hnone => absurd h (by simpa using hnone)
  · rename_i h
    simp only [List.any_eq_true, List.contains_iff_mem, not_exists, not_and] at h
    split
    · simp; omega
    · simp only [true_iff]
      exact ⟨h, by omega⟩

/-- A part other than two points leads to the entry of the folder that it names. -/
theorem step_eq_ok {folder : Place} {part : List Char} (h : part ≠ ['.', '.']) {q : Place} :
    step folder part = .ok q ↔ Text.byteSize part ≤ nameLimit ∧ q = folder ++ [part] := by
  unfold step
  rw [if_neg h]
  split
  · simp; omega
  · simp [eq_comm]; omega

/-- A step that ends at a name was a step to that name. -/
theorem eq_of_step {folder : Place} {part name : List Char} (h : step folder part = .ok (folder ++ [name])) :
    part = name := by
  by_cases hpart : part = ['.', '.']
  · rw [step, if_pos hpart] at h
    have := congrArg List.length (Except.ok.inj h)
    simp only [List.length_dropLast, List.length_append, List.length_singleton] at this
    omega
  · exact (List.singleton_inj.1 (List.append_cancel_left ((step_eq_ok hpart).1 h).2)).symm

theorem locate_entry {t : FileTree} {p : Path} {name : List Char} {q : Place} :
    t.locate (p.entry name) = .ok q ↔ check (p.entry name) = .ok () ∧
      ∃ folder, t.follow (t.start p) p.parts = .ok folder ∧ t.entryAt? folder = some .folder ∧
        step folder name = .ok q := by
  rw [locate_eq_ok]
  exact and_congr_right fun _ => follow_concat

/-- One step leads from a folder to its entry. -/
theorem step_of_locate_entry {t : FileTree} {p : Path} {name : List Char} {folder q : Place}
    (hfolder : t.locate p = .ok folder) (hq : t.locate (p.entry name) = .ok q) :
    step folder name = .ok q := by
  obtain ⟨-, folder', hfollow, -, hstep⟩ := locate_entry.1 hq
  obtain rfl := Except.ok.inj (hfollow.symm.trans (locate_eq_ok.1 hfolder).2)
  exact hstep

/-! ### Making folders -/

theorem makeFoldersFrom_ok {t made : FileTree} {parts : List (List Char)} {place : Place}
    (hplace : t.entryAt? place ≠ none) (h : t.makeFoldersFrom place parts = .ok made) :
    KeepsFolders t made ∧ SameBut [] t made ∧
      ∃ folder, made.follow place parts = .ok folder ∧ made.entryAt? folder = some .folder := by
  induction parts generalizing t place with
  | nil =>
    rw [makeFoldersFrom] at h
    split at h
    · cases h
    · rename_i hfile
      obtain rfl := Except.ok.inj h
      exact ⟨.refl t, .refl t, place, rfl, isFolder_of hplace hfile⟩
  | cons part parts ih =>
    rw [makeFoldersFrom] at h
    split at h
    · simp [throw, throwThe, MonadExceptOf.throw] at h
    · rename_i hfile
      cases hstep : step place part with
      | error e => simp [hstep, bind, Except.bind] at h
      | ok next =>
        simp only [hstep, bind, Except.bind] at h
        -- Where nothing stood, a folder is put; no file is at either of the two.
        generalize hput : (if (t.entryAt? next).isNone = true then t.put next .folder else t) = u at h
        have hfirst : KeepsFolders t u ∧ SameBut [] t u ∧ u.entryAt? next ≠ none := by
          split at hput
          · rename_i hnone
            subst hput
            refine ⟨keepsFolders_put fun _ => rfl, fun q _ => ?_, by simp [entryAt?_put_self]⟩
            by_cases hq : q = next
            · subst hq
              rw [Option.isNone_iff_eq_none] at hnone
              simp [textAt?, entryAt?_put_self, hnone]
            · exact textAt?_put hq _
          · rename_i hsome
            subst hput
            exact ⟨.refl t, .refl t, by simpa [Option.isNone_iff_eq_none] using hsome⟩
        obtain ⟨hkeeps, hsame, hnext⟩ := hfirst
        obtain ⟨hkeeps', hsame', folder, hfollow, hfolder⟩ := ih hnext h
        have hall := hkeeps.trans hkeeps'
        have hat := hall.folder place (isFolder_of hplace hfile)
        exact ⟨hall, hsame.trans hsame', folder, follow_cons.2 ⟨hat, next, hstep, hfollow⟩, hfolder⟩

/-- The folders of a path are there once they are made, and no file has changed. -/
theorem makeFolders_ok {t made : FileTree} {p : Path} (h : t.makeFolders p = .ok made) :
    KeepsFolders t made ∧ SameBut [] t made ∧
      ∃ folder, made.locate p = .ok folder ∧ made.entryAt? folder = some .folder := by
  cases hcheck : check p with
  | error e => simp [makeFolders, hcheck, bind, Except.bind] at h
  | ok u =>
    simp only [makeFolders, hcheck, bind, Except.bind] at h
    obtain ⟨hkeeps, hsame, folder, hfollow, hfolder⟩ :=
      makeFoldersFrom_ok (entryAt?_start_ne_none t p) h
    have hstart : made.start p = t.start p := by simp [start, hkeeps.home]
    exact ⟨hkeeps, hsame, folder, locate_eq_ok.2 ⟨hcheck, hstart ▸ hfollow⟩, hfolder⟩

/-! ### Writing -/

/-- A file was written at a place, and nothing else has changed. -/
structure Wrote (place : Place) (text : List Char) (t t' : FileTree) : Prop where
  keeps : KeepsFolders t t'
  text_eq : t'.textAt? place = some text
  others : SameBut [place] t t'

theorem write_ok {t t' : FileTree} {p : Path} {text : List Char} (h : t.write p text = .ok t') :
    ∃ place, t.locate p = .ok place ∧ t.entryAt? place ≠ some .folder ∧ Wrote place text t t' := by
  cases hplace : t.locate p with
  | error e => simp [write, hplace, bind, Except.bind] at h
  | ok place =>
    simp only [write, hplace, bind, Except.bind] at h
    split at h
    · cases h
    · rename_i hfolder
      obtain rfl := Except.ok.inj h
      refine ⟨place, rfl, hfolder, keepsFolders_put fun hf => absurd hf hfolder,
        textAt?_put_self t place text, fun q hq => ?_⟩
      exact textAt?_put (by simpa using hq) _

/-- A file cannot be written only where the path leads nowhere or to a folder. -/
theorem write_error {t : FileTree} {p : Path} {text : List Char} {e : FileError}
    (h : t.write p text = .error e) : t.locate p = .error e ∨ t.look p = .ok .folder := by
  cases hplace : t.locate p with
  | error e' =>
    simp only [write, hplace, bind, Except.bind] at h
    exact .inl (congrArg _ (Except.error.inj h))
  | ok place =>
    simp only [write, hplace, bind, Except.bind] at h
    split at h
    · rename_i hfolder
      exact .inr (by simp [look, hplace, hfolder, bind, Except.bind, pure, Except.pure])
    · cases h

/-! ### Reading -/

/-- A file is read with newlines of one kind. -/
theorem read_of_textAt? {t : FileTree} {p : Path} {place : Place} {text : List Char}
    (hp : t.locate p = .ok place) (htext : t.textAt? place = some text) :
    t.read p = .ok (Text.unifyNewlines text) := by
  have hentry : t.entryAt? place = some (.file text) := by
    unfold textAt? at htext
    split at htext
    · rename_i s hs
      rw [hs, Option.some.inj htext]
    · cases htext
  simp [read, look, hp, hentry, bind, Except.bind, pure, Except.pure]

end FileTree

end PagePress
