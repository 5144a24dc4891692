import PagePress.Settings

/-!
Where the identifiers of a site come from. The caller, the environment and the settings file are asked in this
order, and the first text that is not blank is taken (`firstOf`), except that a blank text which the caller or
the environment gives hides all that is behind it (`choose_eq`). A file that can be read tells just what the
reading of it finds (`tells_iff`), so it never makes the loading fail (`load_of_tells`).
-/

namespace PagePress.Settings

open Text

/-! ### The settings file -/

/-- What a settings file that can be read tells under its keys: nothing without a file, without a table for the
identifiers, or with a value in its place that counts as false. -/
inductive Tells (t : FileTree) (path : Path) : List (String × String) → Prop where
  | noFile (h : t.read path = .error .notFound) : Tells t path []
  | noTable {text : List Char} (h : t.read path = .ok text)
      (hkey : Toml.readKeyOf "vendors" text = .ok none) : Tells t path []
  | falsy {text : List Char} {d : Toml.Data} (h : t.read path = .ok text)
      (hkey : Toml.readKeyOf "vendors" text = .ok (some d)) (hfalse : d.holds = false) : Tells t path []
  | table {text : List Char} {entries : List (String × Toml.Data)} (h : t.read path = .ok text)
      (hkey : Toml.readKeyOf "vendors" text = .ok (some (.table entries))) :
      Tells t path (entries.map fun e => (e.1, e.2.display))

theorem entriesOf_some_eq_ok {d : Toml.Data} {entries : List (String × Toml.Data)} :
    entriesOf (some d) = .ok entries ↔ d = .table entries ∨ d.holds = false ∧ entries = [] := by
  cases d with
  | table es =>
    have htable : entriesOf (some (.table es)) = .ok es := rfl
    rw [htable, Except.ok.injEq, Toml.Data.table.injEq]
    constructor
    · exact .inl
    · rintro (h | ⟨hempty, rfl⟩)
      · exact h
      · simpa [Toml.Data.holds] using hempty
  | _ =>
    simp only [entriesOf]
    split
    · rename_i hholds
      simp [hholds]
    · rename_i hfalse
      constructor
      · intro h
        exact .inr ⟨eq_false_of_ne_true hfalse, (Except.ok.inj h).symm⟩
      · rintro (h | ⟨-, rfl⟩)
        · cases h
        · rfl

/-- A file tells exactly what the reading of it finds, if the reading does not fail. -/
theorem tells_iff {t : FileTree} {path : Path} {told : List (String × String)} :
    Tells t path told ↔ ∃ entries, readTable t path = .ok entries ∧
      told = entries.map fun e => (e.1, e.2.display) := by
  unfold readTable
  constructor
  · intro h
    cases h with
    | noFile h =>
      rw [h]
      exact ⟨[], rfl, rfl⟩
    | noTable h hkey =>
      rw [h]
      simp only [hkey]
      exact ⟨[], rfl, rfl⟩
    | falsy h hkey hfalse =>
      rw [h]
      simp only [hkey]
      exact ⟨[], entriesOf_some_eq_ok.2 (.inr ⟨hfalse, rfl⟩), rfl⟩
    | @table _ entries h hkey =>
      rw [h]
      simp only [hkey]
      exact ⟨entries, entriesOf_some_eq_ok.2 (.inl rfl), rfl⟩
  · rintro ⟨entries, h, rfl⟩
    cases hread : t.read path with
    | error e =>
      rw [hread] at h
      cases e with
      | notFound =>
        obtain rfl := Except.ok.inj h
        exact .noFile hread
      | _ => cases h
    | ok text =>
      rw [hread] at h
      cases hkey : Toml.readKeyOf "vendors" text with
      | error e =>
        simp only [hkey] at h
        cases h
      | ok stored =>
        simp only [hkey] at h
        cases stored with
        | none =>
          obtain rfl := Except.ok.inj h
          exact .noTable hread hkey
        | some d =>
          rcases entriesOf_some_eq_ok.1 h with rfl | ⟨hfalse, rfl⟩
          · exact .table hread hkey
          · exact .falsy hread hkey hfalse

theorem lookup_map_display (entries : List (String × Toml.Data)) (key : String) :
    (entries.map fun e => (e.1, e.2.display)).lookup key = (entries.lookup key).map Toml.Data.display := by
  induction entries with
  | nil => rfl
  | cons e entries ih =>
    obtain ⟨k, d⟩ := e
    rw [List.map_cons, List.lookup_cons, List.lookup_cons]
    cases key == k
    · exact ih
    · rfl

/-! ### The sources of an identifier -/

/-- The trimmed text of the first source that gives more than white space. -/
def firstOf (sources : List (Option String)) : Option String :=
  sources.findSome? fun source => source.bind nonBlank?

/-- The caller or the environment gives a text, and the first that they give is blank. -/
def hides (argument setting : Option String) : Bool :=
  ((given? argument).or (given? setting)).any fun s => (nonBlank? s).isNone

theorem nonBlank?_empty : nonBlank? "" = none := by decide

/-- A source that gives no text is no better than a missing one. -/
theorem bind_nonBlank?_of_not_given {x : Option String} (h : given? x = none) : x.bind nonBlank? = none := by
  cases x with
  | none => rfl
  | some s =>
    have hempty : s = "" := by simpa [given?, Option.filter] using h
    rw [hempty, Option.bind_some, nonBlank?_empty]

/-- The first source that gives more than white space is taken, unless a blank text hides it. -/
theorem choose_eq (argument setting : Option String) (stored : Option Toml.Data) :
    choose argument setting stored =
      if hides argument setting then none
      else firstOf [argument, setting, stored.map Toml.Data.display] := by
  unfold choose hides firstOf
  cases hargument : given? argument with
  | some id =>
    have htext : argument = some id := (Option.filter_eq_some_iff.1 hargument).1
    cases hid : nonBlank? id <;> simp [htext, hid]
  | none =>
    have hskip := bind_nonBlank?_of_not_given hargument
    cases hsetting : given? setting with
    | some id =>
      have htext : setting = some id := (Option.filter_eq_some_iff.1 hsetting).1
      cases hid : nonBlank? id <;> simp [htext, hid, hskip]
    | none =>
      have hskip' := bind_nonBlank?_of_not_given hsetting
      cases stored with
      | none => simp [hskip, hskip']
      | some d => cases hd : nonBlank? d.display <;> simp [hd, hskip, hskip']

example : choose none (some "  ") (some (.value (.text "G-FILE"))) = none := by decide

/-- With a settings file that can be read, each identifier comes from its own three sources only: it is the
trimmed text of the first one that gives more than white space, or none where a blank text hides it. -/
theorem load_of_tells {t : FileTree} {path : Path} {told : List (String × String)} (h : Tells t path told)
    (env : Environment) (analyticsId adsenseClientId : Option String) :
    ∃ v, load t env path analyticsId adsenseClientId = .ok v ∧
      v.analyticsId =
        (if hides analyticsId (env.lookup "LANDING_GA_ID") then none
        else firstOf [analyticsId, env.lookup "LANDING_GA_ID", told.lookup "analytics_id"]) ∧
      v.adsenseClientId =
        (if hides adsenseClientId (env.lookup "LANDING_ADSENSE_CLIENT_ID") then none
        else firstOf [adsenseClientId, env.lookup "LANDING_ADSENSE_CLIENT_ID",
          told.lookup "adsense_client_id"]) := by
  obtain ⟨entries, hread, rfl⟩ := tells_iff.1 h
  rw [lookup_map_display, lookup_map_display]
  refine ⟨⟨_, _⟩, ?_, choose_eq .., choose_eq ..⟩
  unfold load
  rw [hread]
  rfl

/-- Settings with an identifier for each purpose. -/
def vendorLines : String := "[vendors]\nanalytics_id = \" G-FILE \"\nadsense_client_id = 'ca-pub-111'\n"

def vendorFiles : FileTree where
  home := ["site".toList]
  entries := [(["site".toList, "settings".toList], .file vendorLines.toList)]

theorem tells_vendorFiles : Tells vendorFiles (.ofText "settings".toList)
    [("analytics_id", " G-FILE "), ("adsense_client_id", "ca-pub-111")] := by
  have htold : (readTable vendorFiles (.ofText "settings".toList)).toOption.map
      (·.map fun e => (e.1, e.2.display)) =
        some [("analytics_id", " G-FILE "), ("adsense_client_id", "ca-pub-111")] := by
    decide +kernel
  cases hread : readTable vendorFiles (.ofText "settings".toList) with
  | error e =>
    rw [hread] at htold
    cases htold
  | ok entries =>
    rw [hread] at htold
    exact tells_iff.2 ⟨entries, hread, (Option.some.inj htold).symm⟩

/-- An empty variable leaves the file its say, and another one is trimmed. -/
theorem load_vendorFiles : load vendorFiles
    [("LANDING_GA_ID", ""), ("LANDING_ADSENSE_CLIENT_ID", " ca-pub-env\t")] (.ofText "settings".toList) none none =
      .ok { analyticsId := some "G-FILE", adsenseClientId := some "ca-pub-env" } := by
  obtain ⟨v, hload, hanalytics, hadsense⟩ := load_of_tells tells_vendorFiles
    [("LANDING_GA_ID", ""), ("LANDING_ADSENSE_CLIENT_ID", " ca-pub-env\t")] none none
  have hfile : v.analyticsId = some "G-FILE" := hanalytics.trans (by decide)
  have henv : v.adsenseClientId = some "ca-pub-env" := hadsense.trans (by decide)
  rw [hload, ← hfile, ← henv]

end PagePress.Settings
