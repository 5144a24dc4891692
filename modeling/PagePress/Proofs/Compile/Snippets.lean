import PagePress.Proofs.Compile
import PagePress.Proofs.Markup.Reader
import PagePress.Proofs.Percent
import PagePress.Proofs.Render.Seen
import PagePress.Proofs.Script.Template

/-!
The markup of third parties. An id stands in it in up to three encodings: in an address, in a
literal of a script, and in metadata. Each of them contains the id and gives it back, whatever its
characters are: the scripts are loaded from an address and set up with a literal (`Loads`), a reader
finds the id in both (`finds_thirdParty`), and the marks outside the literals are those of the
layout (`marks_outside`). An id that is not wanted, or wanted and not configured, is not read at all
(`snippets_of_render`).
-/

namespace PagePress.Markup

open Text Html

/-! ### What a reader finds -/

/-- A character that a parameter of an address may hold: not one that starts the next parameter or
the fragment. -/
def isParameterChar (c : Char) : Bool := c != '&' && c != '#'

/-- The value of the first parameter of an address: what follows the first equals sign. -/
def parameter (address : List Char) : List Char :=
  ((address.dropWhile (· != '=')).drop 1).takeWhile isParameterChar

def Part.script? : Part Element → Option Element
  | .tag (.sealed e) => if e.name = "script".toList then some e else none
  | _ => none

/-- The script elements of a document. -/
def scripts (d : List (Span Element)) : List Element := d.filterMap fun s => Part.script? (.tag s.tag)

/-- The addresses that the scripts of a document are loaded from. -/
def sources (d : List (Span Element)) : List (List Char) :=
  (scripts d).filterMap fun e => valueOf? "src" e.attrs

/-- The JSON literals of a script: the literals in double quotes. -/
def jsonLiterals (script : List Char) : List (List Char) :=
  (Script.literals script).filter fun l => l.head? == some '"'

/-- The contents of the metadata of a document. -/
def contents (d : List (Span Element)) : List (List Char) :=
  (attrsOf "meta".toList d).filterMap (valueOf? "content")

/-- A reader finds some ids in a document: in the addresses of its scripts, in the JSON literals of
its scripts and in its metadata. -/
structure Finds (d : List (Span Element)) (addressed spelled named : List String) : Prop where
  addressed : (sources d).map (fun a => Percent.decode? (parameter a)) =
    addressed.map fun id => some id.toList
  spelled : ((scripts d).flatMap fun e => jsonLiterals e.content).map Json.ofLiteral? =
    spelled.map fun id => some id.toList
  named : contents d = named.map String.toList

theorem eq_of_script? {t : Tag Element} {e : Element} (h : Part.script? (.tag t) = some e) :
    t = .sealed e := by
  unfold Part.script? at h
  split at h
  · rename_i e' ht
    split at h
    · exact (Part.tag.inj ht).trans (congrArg Tag.sealed (Option.some.inj h))
    · cases h
  · cases h

theorem scripts_spans (ps : List (Part Element)) : scripts (spans ps) = ps.filterMap Part.script? := by
  induction ps with
  | nil => rfl
  | cons p ps ih =>
    cases p with
    | text s => exact ih
    | tag t =>
      rw [spans_tag, scripts, List.filterMap_cons, List.filterMap_cons]
      rw [scripts] at ih
      rw [ih]

theorem Finds.append {ps qs : List (Part Element)} {as as' bs bs' cs cs' : List String}
    (h : Finds (spans ps) as bs cs) (h' : Finds (spans qs) as' bs' cs') :
    Finds (spans (ps ++ qs)) (as ++ as') (bs ++ bs') (cs ++ cs') := by
  have hscripts : scripts (spans (ps ++ qs)) = scripts (spans ps) ++ scripts (spans qs) := by
    rw [scripts_spans, scripts_spans, scripts_spans, List.filterMap_append]
  have hattrs : attrsOf "meta".toList (spans (ps ++ qs)) =
      attrsOf "meta".toList (spans ps) ++ attrsOf "meta".toList (spans qs) := by
    rw [attrsOf_spans, attrsOf_spans, attrsOf_spans, List.filterMap_append]
  constructor
  · rw [sources, hscripts, List.filterMap_append, List.map_append, List.map_append]
    exact congrArg₂ (· ++ ·) h.addressed h'.addressed
  · rw [hscripts, List.flatMap_append, List.map_append, List.map_append]
    exact congrArg₂ (· ++ ·) h.spelled h'.spelled
  · rw [contents, hattrs, List.filterMap_append, List.map_append]
    exact congrArg₂ (· ++ ·) h.named h'.named

theorem finds_nil : Finds [] [] [] [] := ⟨rfl, rfl, rfl⟩

/-! ### Addresses and literals -/

theorem parameter_append {u s : List Char} (hu : '=' ∉ u) (hs : ∀ c ∈ s, isParameterChar c = true) :
    parameter (u ++ '=' :: s) = s := by
  have hdrop : (u ++ '=' :: s).dropWhile (· != '=') = '=' :: s := by
    rw [List.dropWhile_append_of_pos]
    · exact List.dropWhile_cons_of_neg (by decide)
    · intro c hc
      have hne : c ≠ '=' := fun h => hu (h ▸ hc)
      simpa using hne
  rw [parameter, hdrop, List.drop_one, List.tail_cons, List.takeWhile_eq_self_iff]
  exact hs

theorem isParameterChar_of_mem_encode {s : List Char} {c : Char} (hc : c ∈ Percent.encode s) :
    isParameterChar c = true := by
  have hc := Percent.mem_encode hc
  by_contra h
  have hc' : c = '&' ∨ c = '#' := by simpa [isParameterChar, or_iff_not_imp_left] using h
  rcases hc' with rfl | rfl <;> exact absurd hc (by decide)

theorem escape_append (s t : List Char) : escape (s ++ t) = escape s ++ escape t :=
  List.flatMap_append ..

theorem jsonLiterals_append {a : List Char} (ha : Script.Complete a) (v : List Char) :
    jsonLiterals (a ++ v) = jsonLiterals a ++ jsonLiterals v := by
  rw [jsonLiterals, ha.literals_append, List.filter_append]
  rfl

theorem jsonLiterals_of_not_mem {s : List Char} (hs : '"' ∉ s) : jsonLiterals s = [] := by
  rw [jsonLiterals, List.filter_eq_nil_iff]
  intro l hl hquote
  obtain ⟨t, ht, hliteral⟩ := List.mem_filterMap.1 hl
  obtain ⟨w, rfl⟩ := List.head?_eq_some_iff.1 (by simpa using hquote)
  have htext : t.text = '"' :: w := by
    cases t <;> simp_all [Script.Token.literal?, Script.Token.text]
  have hmem : '"' ∈ (Script.tokens s).flatMap Script.Token.text :=
    List.mem_flatMap.2 ⟨t, ht, by simp [htext]⟩
  rw [Script.text_tokens] at hmem
  exact hs hmem

theorem jsonLiterals_literal (s : List Char) : jsonLiterals (Json.literal s) = [Json.literal s] := by
  rw [jsonLiterals, Script.literals, Script.tokens_literal]
  rfl

/-! ### The scripts of a third party -/

/-- The attributes of a loader, with the id in its address. -/
def loaderAttrs (address : String) (more : List Attribute) (id : String) : List Attribute :=
  .bare "async" :: ⟨"src", some [.fixed address, .address id]⟩ :: more

/-- The scripts of a third party: the loader, and the set-up, with the id as a literal. -/
def thirdParty (address : String) (more : List Attribute) (before after id : String) : List Node :=
  [.element "script" (loaderAttrs address more id) [],
    .line 0,
    .element "script" [] [.fixed before, .piece (.literal id), .fixed after]]

/-- A complete part of a script without double quotes: the literals around it are the only JSON in
the script. -/
def IsSetUp (s : String) : Prop := Script.Complete s.toList ∧ '"' ∉ s.toList

theorem isSetUp_of_eq {s : String} {l : List Char} (hs : s = .ofList l)
    (hcomplete : Script.Mode.code.completes l = true) (hquote : '"' ∉ l) : IsSetUp s :=
  ⟨Script.complete_text_fixed hs hcomplete, not_mem_toList hs hquote⟩

/-- The texts of the layout of such scripts. The address ends with the only equals sign in it. -/
structure Loads (address before after : String) : Prop where
  query : ∃ u, address.toList = u ++ ['='] ∧ '=' ∉ u
  plain : escape address.toList = address.toList
  front : IsSetUp before
  back : IsSetUp after

theorem treeParts_thirdParty (address : String) (more : List Attribute) (before after id : String) :
    treeParts (thirdParty address more before after id) =
      [.tag (.sealed ⟨"script".toList, (loaderAttrs address more id).map attrOf, []⟩),
        .text (Node.line 0).text,
        .tag (.sealed ⟨"script".toList, [],
          before.toList ++ (Json.literal id.toList ++ after.toList)⟩)] := by
  have hscript : "script".toList ∈ sealedNames := by decide
  simp only [thirdParty, treeParts, nodeParts, hscript, if_true, Node.line, Node.fixed, Node.text,
    Node.textAll, Piece.text, List.map_nil, List.append_nil, List.nil_append, List.cons_append]

theorem scripts_thirdParty (address : String) (more : List Attribute) (before after id : String) :
    scripts (spans (treeParts (thirdParty address more before after id))) =
      [⟨"script".toList, (loaderAttrs address more id).map attrOf, []⟩,
        ⟨"script".toList, [], before.toList ++ (Json.literal id.toList ++ after.toList)⟩] := by
  rw [scripts_spans, treeParts_thirdParty]
  simp only [List.filterMap_cons, List.filterMap_nil, Part.script?, if_true]

theorem valueOf?_loaderAttrs {address : String} (h : escape address.toList = address.toList)
    (more : List Attribute) (id : String) : valueOf? "src" ((loaderAttrs address more id).map attrOf) =
      some (address.toList ++ Percent.encode id.toList) := by
  have hasync : (attrOf (.bare "async")).name ≠ "src".toList := by decide
  have hvalue : (attrOf ⟨"src", some [.fixed address, .address id]⟩).value =
      some (escape (address.toList ++ Percent.encode id.toList)) := by
    rw [escape_append, h]
    simp [attrOf, Piece.textAll, Piece.text]
  rw [loaderAttrs, List.map_cons, List.map_cons, valueOf?_cons_of_ne hasync,
    valueOf?_cons_of_eq rfl hvalue, decode_escape]

/-- The id is the only JSON literal between two parts of a set-up. -/
theorem jsonLiterals_setUp {before after : String} (hb : IsSetUp before) (ha : IsSetUp after)
    (s : List Char) : jsonLiterals (before.toList ++ (Json.literal s ++ after.toList)) =
      [Json.literal s] := by
  rw [jsonLiterals_append hb.1, jsonLiterals_append (Script.complete_literal s),
    jsonLiterals_of_not_mem hb.2, jsonLiterals_literal, jsonLiterals_of_not_mem ha.2]
  rfl

theorem finds_thirdParty {address before after : String} (h : Loads address before after)
    (more : List Attribute) (id : String) :
    Finds (spans (treeParts (thirdParty address more before after id))) [id] [id] [] := by
  have hsource := valueOf?_loaderAttrs h.plain more id
  obtain ⟨u, hu, hquery⟩ := h.query
  constructor
  · have hnone : valueOf? "src" [] = none := rfl
    rw [sources, scripts_thirdParty]
    simp only [List.filterMap_cons, List.filterMap_nil, hsource, hnone, List.map_cons, List.map_nil]
    rw [hu, List.append_assoc, List.singleton_append,
      parameter_append hquery fun c => isParameterChar_of_mem_encode, Percent.decode?_encode]
  · have hnone : jsonLiterals [] = [] := jsonLiterals_of_not_mem (by simp)
    rw [scripts_thirdParty]
    simp only [List.flatMap_cons, List.flatMap_nil, hnone, jsonLiterals_setUp h.front h.back,
      List.nil_append, List.append_nil, List.map_cons, List.map_nil, Json.ofLiteral?_literal]
  · rw [contents, attrsOf_spans, treeParts_thirdParty]
    rfl

theorem finds_adsenseHead (id : String) :
    Finds (spans (treeParts (Snippet.adsenseHead id))) [] [] [id] := by
  refine ⟨rfl, rfl, ?_⟩
  have hname : (attrOf (.fixed "name" "google-adsense-account")).name ≠ "content".toList := by decide
  have hvalue : (attrOf (.escaped "content" id)).value = some (escape id.toList) := by
    rw [attrOf_escaped]
  have hmeta : attrsOf "meta".toList (spans (treeParts (Snippet.adsenseHead id))) =
      [[attrOf (.fixed "name" "google-adsense-account"), attrOf (.escaped "content" id)]] := rfl
  have hcontent : valueOf? "content" [attrOf (.fixed "name" "google-adsense-account"),
      attrOf (.escaped "content" id)] = some id.toList := by
    rw [valueOf?_cons_of_ne hname, valueOf?_cons_of_eq (by rw [attrOf_escaped]) hvalue, decode_escape]
  rw [contents, hmeta, List.filterMap_cons, hcontent]
  rfl

set_option maxRecDepth 20000 in
theorem exists_analytics : ∃ address before after, Loads address before after ∧
    ∀ id, Snippet.analytics id = thirdParty address [] before after id := by
  refine ⟨_, _, _, ⟨⟨"https://www.googletagmanager.com/gtag/js?id".toList, ?query, ?once⟩, ?plain,
    ?front, ?back⟩, fun id => rfl⟩
  case front | back => exact isSetUp_of_eq rfl (by decide) (by decide)
  all_goals decide

set_option maxRecDepth 20000 in
theorem exists_adsenseBody : ∃ address more before after, Loads address before after ∧
    ∀ id, Snippet.adsenseBody id = thirdParty address more before after id := by
  refine ⟨_, _, _, _,
    ⟨⟨"https://pagead2.googlesyndication.com/pagead/js/adsbygoogle.js?client".toList, ?query, ?once⟩,
      ?plain, ?front, ?back⟩, fun id => rfl⟩
  case front | back => exact isSetUp_of_eq rfl (by decide) (by decide)
  all_goals decide

/-! ### Marks outside the literals -/

/-- The text of some trees with a hole for each literal of a script. -/
def frame (ns : List Node) : List (Option (List Char)) := (treePieces ns).map Piece.frame?

/-- The text of some trees outside the literals of scripts: nothing stands in the holes. -/
def outside (ns : List Node) : List Char := fill (frame ns) []

/-- The marks that a piece of a layout brings with it. -/
def layoutMarks : Piece → List Char
  | .fixed s | .raw s => marks s.toList
  | _ => []

theorem marks_of_frame? {p : Piece} {s : List Char} (h : p.frame? = some s) :
    marks s = layoutMarks p := by
  cases p with
  | literal => cases h
  | fixed | raw => rw [← Option.some.inj h]; rfl
  | escaped | address => rw [← Option.some.inj h]; exact marks_escape _

theorem marks_outside (ns : List Node) : marks (outside ns) = (treePieces ns).flatMap layoutMarks := by
  rw [outside, frame]
  induction treePieces ns with
  | nil => rfl
  | cons p ps ih =>
    rw [List.flatMap_cons, ← ih, List.map_cons]
    cases hp : p.frame? with
    | none =>
      cases p with
      | literal => rfl
      | _ => cases hp
    | some s => rw [fill, marks_append, marks_of_frame? hp]

theorem textAll_eq_fill_frame (ns : List Node) : Node.textAll ns = fill (frame ns)
    (((treePieces ns).filterMap Piece.value?).map fun id => Json.literal id.toList) := by
  rw [← textAll_treePieces, Script.textAll_eq_fill, frame]

/-! ### Ends of a head and of a body -/

/-- The id of a third party that is wanted and configured. -/
def enabled? (wanted : Bool) (id : Option String) : Option String := if wanted then given? id else none

/-- The end of a head for the ids of the third parties. -/
def headEnd (measurement client : Option String) : List Node :=
  List.intercalate [.line 0]
    (measurement.toList.map Snippet.analytics ++ client.toList.map Snippet.adsenseHead)

/-- The end of a body for the id of the advertiser. -/
def bodyEnd (client : Option String) : List Node := (client.map Snippet.adsenseBody).getD []

theorem headTrees_eq (v : Vendors) (o : Options) : headTrees v o =
    headEnd (enabled? o.analytics v.analyticsId) (enabled? o.adsense v.adsenseClientId) := rfl

theorem footTrees_eq (v : Vendors) (o : Options) :
    footTrees v o = bodyEnd (enabled? o.adsense v.adsenseClientId) := rfl

theorem headEnd_none (client : Option String) :
    headEnd none client = (client.map Snippet.adsenseHead).getD [] := by
  cases client <;> rfl

/-- The scripts for the measurement come first; the advertiser's tag is on a line of its own. -/
theorem headEnd_some (id : String) (client : Option String) : headEnd (some id) client =
    Snippet.analytics id ++ (client.map fun c => .line 0 :: Snippet.adsenseHead c).getD [] := by
  cases client <;> rfl

theorem finds_headEnd (measurement client : Option String) :
    Finds (spans (treeParts (headEnd measurement client))) measurement.toList measurement.toList
      client.toList := by
  have htag : ∀ id, Finds (spans (treeParts (.line 0 :: Snippet.adsenseHead id))) [] [] [id] :=
    finds_adsenseHead
  cases measurement with
  | none =>
    rw [headEnd_none]
    cases client with
    | none => exact finds_nil
    | some id => exact finds_adsenseHead id
  | some id =>
    obtain ⟨address, before, after, hloads, hlayout⟩ := exists_analytics
    have hscripts := finds_thirdParty hloads [] id
    rw [← hlayout] at hscripts
    rw [headEnd_some, treeParts_append]
    cases client with
    | none => exact hscripts.append finds_nil
    | some c => exact hscripts.append (htag c)

theorem finds_bodyEnd (client : Option String) :
    Finds (spans (treeParts (bodyEnd client))) client.toList client.toList [] := by
  cases client with
  | none => exact finds_nil
  | some id =>
    obtain ⟨address, more, before, after, hloads, hlayout⟩ := exists_adsenseBody
    rw [bodyEnd, Option.map_some, Option.getD_some, hlayout]
    exact finds_thirdParty hloads more id

theorem lead_headEnd (measurement client : Option String) :
    lead (treeParts (headEnd measurement client)) = [] := by
  cases measurement <;> cases client <;> rfl

theorem lead_bodyEnd (client : Option String) : lead (treeParts (bodyEnd client)) = [] := by
  cases client <;> rfl

theorem values_headEnd (measurement client : Option String) :
    (treePieces (headEnd measurement client)).filterMap Piece.value? = measurement.toList := by
  cases measurement <;> cases client <;> rfl

theorem values_bodyEnd (client : Option String) :
    (treePieces (bodyEnd client)).filterMap Piece.value? = client.toList := by
  cases client <;> rfl

/-- The marks outside the literals are the same for all ids. -/
theorem marks_headEnd (measurement client : Option String) :
    marks (outside (headEnd measurement client)) =
      marks (outside (headEnd (measurement.map fun _ => "") (client.map fun _ => ""))) := by
  rw [marks_outside, marks_outside]
  cases measurement <;> cases client <;> rfl

theorem marks_bodyEnd (client : Option String) :
    marks (outside (bodyEnd client)) = marks (outside (bodyEnd (client.map fun _ => ""))) := by
  rw [marks_outside, marks_outside]
  cases client <;> rfl

/-! ### Snippets -/

/-- Markup that contains some ids: a reader loses nothing of it, the literals stand in the holes of
its frame, no script in it ends early or opens a comment, and each id is found as it is. -/
structure Contains (html : List Char) (ns : List Node) (addressed spelled named : List String) :
    Prop where
  whole : text (read html) = html
  filled : html = fill (frame ns) (spelled.map fun id => Json.literal id.toList)
  unclosed : ∀ e ∈ scripts (read html),
    ¬ Embed.SpellsEndTag "script" e.content ∧ ¬ "<!--".toList <:+: e.content
  finds : Finds (read html) addressed spelled named

theorem contains_textAll {ns : List Node} {as bs cs : List String} (h : ProperAll ns)
    (hlead : lead (treeParts ns) = []) (hvalues : (treePieces ns).filterMap Piece.value? = bs)
    (hfinds : Finds (spans (treeParts ns)) as bs cs) : Contains (Node.textAll ns) ns as bs cs := by
  have hwf : WellFormed (spans (treeParts ns)) := wellFormed_spans (wellFormed_treeParts ns h)
  -- no text stands in front of the first tag, so the spans are all of the markup
  have htext : Node.textAll ns = text (spans (treeParts ns)) := by
    rw [← chars_treeParts, ← lead_append_text_spans, hlead, List.nil_append]
  have hread : read (Node.textAll ns) = spans (treeParts ns) := by
    rw [htext, read_text hwf.legible]
  constructor
  · rw [hread, htext]
  · rw [textAll_eq_fill_frame, hvalues]
  · intro e he
    rw [hread] at he
    have hcontent : '<' ∉ e.content := by
      obtain ⟨s, hs, hscript⟩ := List.mem_filterMap.1 he
      have htag := (hwf s hs).tag
      rw [eq_of_script? hscript] at htag
      exact htag.content
    refine ⟨Embed.not_spellsEndTag_of_not_mem hcontent, fun hcomment => hcontent (hcomment.subset ?_)⟩
    decide
  · rw [hread]
    exact hfinds

/-- What the markup of third parties is independent of: an id that is not wanted, and a wish for a
third party that has no id. -/
structure Ignores (v : Vendors) (o : Options) : Prop where
  analyticsId : o.analytics = false → ∀ id,
    Snippets.render { v with analyticsId := id } o.analytics o.adsense =
      Snippets.render v o.analytics o.adsense
  adsenseClientId : o.adsense = false → ∀ id,
    Snippets.render { v with adsenseClientId := id } o.analytics o.adsense =
      Snippets.render v o.analytics o.adsense
  analytics : v.analyticsId = none ∨ v.analyticsId = some "" → ∀ b,
    Snippets.render v b o.adsense = Snippets.render v o.analytics o.adsense
  adsense : v.adsenseClientId = none ∨ v.adsenseClientId = some "" → ∀ b,
    Snippets.render v o.analytics b = Snippets.render v o.analytics o.adsense

theorem given?_eq_none {id : Option String} (h : id = none ∨ id = some "") : given? id = none := by
  rcases h with rfl | rfl <;> rfl

/-- The markup is made of the ids that are enabled. -/
theorem render_congr {v v' : Vendors} {a a' b b' : Bool}
    (ha : enabled? a v.analyticsId = enabled? a' v'.analyticsId)
    (hb : enabled? b v.adsenseClientId = enabled? b' v'.adsenseClientId) :
    Snippets.render v a b = Snippets.render v' a' b' := by
  unfold enabled? at ha hb
  rw [Snippets.render, Snippets.render, ha, hb]

theorem ignores (v : Vendors) (o : Options) : Ignores v o where
  analyticsId := fun h id => render_congr (by rw [h]; rfl) rfl
  adsenseClientId := fun h id => render_congr rfl (by rw [h]; rfl)
  analytics := fun h b => render_congr (by simp [enabled?, given?_eq_none h]) rfl
  adsense := fun h b => render_congr rfl (by simp [enabled?, given?_eq_none h])

/-- Vendors of which the same ones are enabled. -/
structure SameEnabled (v v' : Vendors) (o : Options) : Prop where
  analytics :
    (enabled? o.analytics v.analyticsId).isSome = (enabled? o.analytics v'.analyticsId).isSome
  adsense :
    (enabled? o.adsense v.adsenseClientId).isSome = (enabled? o.adsense v'.adsenseClientId).isSome

theorem map_const_of_isSome {id id' : Option String} (h : id.isSome = id'.isSome) :
    (id.map fun _ => "") = id'.map fun _ => "" := by
  cases id <;> cases id' <;> first | rfl | cases h

/-- Ids that spell tags, comments, marks and escapes. -/
def hostileVendors : Vendors where
  analyticsId := some "</script><!--\"%22é"
  adsenseClientId := some "ca-\"><script>&quot;\\u0022"

end PagePress.Markup
