import BuildTool.Proofs.Settings.Entries
/-!
# Settings from lines

Lines of settings are read one after another into a draft, which keeps one value for each known key
(`Draft.add_cases`, `Draft.foldlM_add`). So the text of lines gives settings unless a known key has
two values, and these depend on the values of known keys only, in whatever order they are
(`filled_eq_of_perm`). Main result: `ofYaml_textOf_gives`.
-/

namespace BuildTool.Settings

/-! ## Drafts -/

/-- What an entry does to the values met so far. -/
def Draft.add (d : Draft) : Entry → Except Fault Draft
  | .file value => do return { d with file := ← once d.file (some value) }
  | .defaultDirective value => do
    return { d with defaultDirective := ← once d.defaultDirective (some value) }
  | .echo value => do return { d with echo := ← once d.echo (some value) }
  | .other _ _ => .ok d

theorem addEntry_yamlLine (doc : Yaml.Document) (d : Draft) {e : Entry} (h : e.Proper) :
    addEntry doc d e.yamlLine.entry = d.add e := by
  rw [Entry.entry_yamlLine]
  cases e with
  | file value => simp [addEntry, Yaml.Document.scalar?, Entry.key, Draft.add, Entry.yamlValue,
      Yaml.LineValue.text]
  | defaultDirective value => simp [addEntry, Yaml.Document.scalar?, Entry.key, Draft.add,
      Entry.yamlValue, Yaml.LineValue.text]
  | echo value =>
    have hvalue : bool? ⟨none, (Entry.echo value).yamlValue.style,
        (Entry.echo value).yamlValue.text⟩ = some value := by
      cases value <;> simp [Entry.yamlValue, Yaml.LineValue.text, Yaml.LineValue.style, bool?,
        Yaml.Spelling.isTrue, Yaml.Spelling.isFalse]
    simp [addEntry, Yaml.Document.scalar?, Entry.key, Draft.add, hvalue]
  | other word value =>
    simp only [addEntry, Yaml.Document.scalar?, Entry.key]
    split
    · exact absurd rfl (h.ne_of_other (by simp [knownKeys]))
    · exact absurd rfl (h.ne_of_other (by simp [knownKeys]))
    · exact absurd rfl (h.ne_of_other (by simp [knownKeys]))
    · rfl

/-- The values of a key with those met before. -/
def valuesOf (f? : Entry → Option α) (old : Option α) (es : List Entry) : List α :=
  old.toList ++ es.filterMap f?

/-- Every key has one value at most, those met before included. -/
def Draft.Fits (d : Draft) (es : List Entry) : Prop :=
  (valuesOf Entry.file? d.file es).length ≤ 1 ∧
    (valuesOf Entry.defaultDirective? d.defaultDirective es).length ≤ 1 ∧
    (valuesOf Entry.echo? d.echo es).length ≤ 1

/-- The values that are there in the end. -/
def Draft.filled (d : Draft) (es : List Entry) : Draft where
  file := (valuesOf Entry.file? d.file es).head?
  defaultDirective := (valuesOf Entry.defaultDirective? d.defaultDirective es).head?
  echo := (valuesOf Entry.echo? d.echo es).head?

theorem one_lt_length_valuesOf {f? : Entry → Option α} {e : Entry} {v : α} (h : f? e = some v)
    (w : α) (es : List Entry) : 1 < (valuesOf f? (some w) (e :: es)).length := by
  rw [valuesOf, List.filterMap_cons_some h]
  simp

namespace Draft

/-- An entry is kept, or its key had a value. -/
theorem add_cases (d : Draft) (e : Entry) :
    (∃ d', d.add e = .ok d' ∧
      ∀ es, (d'.Fits es ↔ d.Fits (e :: es)) ∧ d'.filled es = d.filled (e :: es)) ∨
    (d.add e = .error .repeatedKey ∧ ∀ es, ¬ d.Fits (e :: es)) := by
  obtain ⟨file, directive, echo⟩ := d
  cases e with
  | file v =>
    cases file with
    | none => exact .inl ⟨⟨some v, directive, echo⟩, rfl, fun _ => ⟨Iff.rfl, rfl⟩⟩
    | some w =>
      refine .inr ⟨rfl, fun es h => ?_⟩
      exact Nat.not_le.2 (one_lt_length_valuesOf (by rfl) w es) h.1
  | defaultDirective v =>
    cases directive with
    | none => exact .inl ⟨⟨file, some v, echo⟩, rfl, fun _ => ⟨Iff.rfl, rfl⟩⟩
    | some w =>
      refine .inr ⟨rfl, fun es h => ?_⟩
      exact Nat.not_le.2 (one_lt_length_valuesOf (by rfl) w es) h.2.1
  | echo v =>
    cases echo with
    | none => exact .inl ⟨⟨file, directive, some v⟩, rfl, fun _ => ⟨Iff.rfl, rfl⟩⟩
    | some w =>
      refine .inr ⟨rfl, fun es h => ?_⟩
      exact Nat.not_le.2 (one_lt_length_valuesOf (by rfl) w es) h.2.2
  | other key v => exact .inl ⟨_, rfl, fun _ => ⟨Iff.rfl, rfl⟩⟩

theorem foldlM_add (d : Draft) (es : List Entry) :
    (d.Fits es → es.foldlM add d = .ok (d.filled es)) ∧
      (¬ d.Fits es → es.foldlM add d = .error .repeatedKey) := by
  induction es generalizing d with
  | nil =>
    have hone : ∀ {α : Type} (old : Option α), old.toList.length ≤ 1 := by
      rintro α (_ | v) <;> simp
    have hfits : d.Fits [] := by
      simp [Fits, valuesOf, hone]
    refine ⟨fun _ => ?_, fun h => absurd hfits h⟩
    simp [filled, valuesOf, pure, Except.pure]
  | cons e es ih =>
    rw [List.foldlM_cons]
    rcases d.add_cases e with ⟨d', hadd, hes⟩ | ⟨hadd, hes⟩
    · rw [hadd, ← (hes es).1, ← (hes es).2]
      exact ih d'
    · rw [hadd]
      exact ⟨fun h => absurd h (hes es), fun _ => rfl⟩

end Draft

/-! ## Texts -/

theorem foldlM_addEntry (doc : Yaml.Document) (d : Draft) {es : List Entry}
    (hes : ∀ e ∈ es, e.Proper) :
    ((es.map Entry.yamlLine).map Yaml.Line.entry).foldlM (addEntry doc) d =
      es.foldlM Draft.add d := by
  induction es generalizing d with
  | nil => rfl
  | cons e es ih =>
    have hes' : ∀ k ∈ es, k.Proper := fun k hk => hes k (List.mem_cons_of_mem e hk)
    simp only [List.map_cons, List.foldlM_cons, addEntry_yamlLine doc d (hes e List.mem_cons_self)]
    cases d.add e with
    | error fault => rfl
    | ok d' => exact ih d' hes'

variable {es : List Entry} {ending : String}

theorem ofYaml_textOf (hes : ∀ e ∈ es, e.Proper) (hending : ending = "" ∨ ending = "\n") :
    ofYaml (textOf es ending) = Draft.settings <$> es.foldlM Draft.add .empty := by
  have hending' : ending.toList = [] ∨ ending.toList = ['\n'] := by
    rcases hending with rfl | rfl
    · exact .inl rfl
    · exact .inr rfl
  cases es with
  | nil =>
    have hblank : (textOf [] ending).toList.all isWhiteSpace = true := by
      rcases hending with rfl | rfl <;> simp [textOf, isWhiteSpace]
    rw [ofYaml, if_pos hblank]
    rfl
  | cons e es =>
    have hlines : ∀ l ∈ e.yamlLine :: es.map Entry.yamlLine, l.Proper := by
      intro l hl
      obtain ⟨k, hk, rfl⟩ := List.mem_map.1 (List.map_cons ▸ hl)
      exact (hes k hk).yamlLine
    have hdoc := Yaml.Document.ofText_lines hending' hlines (toList_textOf e es ending)
    rw [ofYaml, not_all_isWhiteSpace (hes e List.mem_cons_self), if_neg (by decide), hdoc]
    simp only [ofDocument]
    rw [← List.map_cons, foldlM_addEntry _ _ hes]

/-! ## Numbers of values -/

section

variable {α : Type} {f? : Entry → Option α} {e : Entry} {key : String} {v d : α}

theorem length_valuesOf (h : ∀ e ∈ es, (f? e).isSome = true ↔ e.key = key) :
    (valuesOf f? none es).length = (es.map Entry.key).count key := by
  have hcount : es.countP (fun e => (f? e).isSome) = es.countP ((· == key) ∘ Entry.key) :=
    List.countP_congr fun e he => by simp [h e he]
  rw [valuesOf, Option.toList_none, List.nil_append, List.length_filterMap_eq_countP, hcount,
    List.count, List.countP_map]

theorem valuesOf_getD_of_mem (hone : (valuesOf f? none es).length ≤ 1) (he : e ∈ es)
    (hv : f? e = some v) : (valuesOf f? none es).head?.getD d = v := by
  have hmem : v ∈ valuesOf f? none es := List.mem_filterMap.2 ⟨e, he, hv⟩
  generalize valuesOf f? none es = vs at hone hmem
  match vs, hone, hmem with
  | [w], _, hmem => exact (List.mem_singleton.1 hmem).symm

theorem valuesOf_getD_of_not_mem (h : ∀ e ∈ es, (f? e).isSome = true ↔ e.key = key)
    (habsent : key ∉ es.map Entry.key) : (valuesOf f? none es).head?.getD d = d := by
  have hnil : valuesOf f? none es = [] := by
    rw [← List.length_eq_zero_iff, length_valuesOf h, List.count_eq_zero]
    exact habsent
  rw [hnil]
  rfl

end

namespace Entry.Proper

variable {e : Entry}

theorem isSome_file?_iff (h : e.Proper) : e.file?.isSome = true ↔ e.key = "file" := by
  cases e with
  | other word value => simp [file?, key, h.ne_of_other (k := "file") (by simp [knownKeys])]
  | _ => simp [file?, key]

theorem isSome_defaultDirective?_iff (h : e.Proper) :
    e.defaultDirective?.isSome = true ↔ e.key = "default_directive" := by
  cases e with
  | other word value =>
    simp [defaultDirective?, key, h.ne_of_other (k := "default_directive") (by simp [knownKeys])]
  | _ => simp [defaultDirective?, key]

theorem isSome_echo?_iff (h : e.Proper) : e.echo?.isSome = true ↔ e.key = "echo" := by
  cases e with
  | other word value => simp [echo?, key, h.ne_of_other (k := "echo") (by simp [knownKeys])]
  | _ => simp [echo?, key]

end Entry.Proper

theorem fits_empty_iff (hes : ∀ e ∈ es, e.Proper) :
    Draft.empty.Fits es ↔ ∀ key ∈ knownKeys, (es.map Entry.key).count key ≤ 1 := by
  have hfile := length_valuesOf fun e he => (hes e he).isSome_file?_iff
  have hdirective := length_valuesOf fun e he => (hes e he).isSome_defaultDirective?_iff
  have hecho := length_valuesOf fun e he => (hes e he).isSome_echo?_iff
  simp only [Draft.Fits, Draft.empty, hfile, hdirective, hecho, knownKeys, List.forall_mem_cons,
    List.not_mem_nil, false_implies, implies_true, and_true]

/-- The settings have the value of every known key that is there, and the default of every other. -/
structure Gives (es : List Entry) (s : Settings) : Prop where
  file : ∀ v, .file v ∈ es → s.file = v
  file_default : "file" ∉ es.map Entry.key → s.file = defaults.file
  defaultDirective : ∀ v, .defaultDirective v ∈ es → s.defaultDirective = v
  defaultDirective_default :
    "default_directive" ∉ es.map Entry.key → s.defaultDirective = defaults.defaultDirective
  echo : ∀ v, .echo v ∈ es → s.echo = v
  echo_default : "echo" ∉ es.map Entry.key → s.echo = defaults.echo

theorem gives_filled (hes : ∀ e ∈ es, e.Proper) (h : Draft.empty.Fits es) :
    Gives es (Draft.empty.filled es).settings where
  file _ hv := valuesOf_getD_of_mem h.1 hv rfl
  file_default := valuesOf_getD_of_not_mem fun e he => (hes e he).isSome_file?_iff
  defaultDirective _ hv := valuesOf_getD_of_mem h.2.1 hv rfl
  defaultDirective_default :=
    valuesOf_getD_of_not_mem fun e he => (hes e he).isSome_defaultDirective?_iff
  echo _ hv := valuesOf_getD_of_mem h.2.2 hv rfl
  echo_default := valuesOf_getD_of_not_mem fun e he => (hes e he).isSome_echo?_iff

/-! ## Lines in another order -/

section

variable {α : Type} {f? : Entry → Option α} {es' : List Entry}

theorem valuesOf_perm (hother : ∀ e, e.isKnown = false → f? e = none)
    (h : (es.filter Entry.isKnown).Perm (es'.filter Entry.isKnown)) :
    (valuesOf f? none es).Perm (valuesOf f? none es') := by
  have hknown : ∀ es : List Entry, (es.filter Entry.isKnown).filterMap f? = es.filterMap f? := by
    intro es
    rw [List.filterMap_filter]
    congr 1
    funext e
    cases he : e.isKnown with
    | true => rfl
    | false => exact (hother e he).symm
  have hperm := h.filterMap f?
  rwa [hknown, hknown] at hperm

theorem head?_eq_of_perm {vs ws : List α} (h : vs.Perm ws) (hone : vs.length ≤ 1) :
    vs.head? = ws.head? := by
  match vs, hone with
  | [], _ => rw [List.nil_perm.1 h]
  | [v], _ => rw [List.singleton_perm.1 h]

theorem filled_eq_of_perm (h : (es.filter Entry.isKnown).Perm (es'.filter Entry.isKnown)) :
    (Draft.empty.Fits es ↔ Draft.empty.Fits es') ∧
      (Draft.empty.Fits es → Draft.empty.filled es = Draft.empty.filled es') := by
  have hfile : (valuesOf Entry.file? none es).Perm (valuesOf Entry.file? none es') :=
    valuesOf_perm (by rintro (_ | _ | _ | _) <;> simp [Entry.isKnown, Entry.file?]) h
  have hdirective : (valuesOf Entry.defaultDirective? none es).Perm
      (valuesOf Entry.defaultDirective? none es') :=
    valuesOf_perm (by rintro (_ | _ | _ | _) <;> simp [Entry.isKnown, Entry.defaultDirective?]) h
  have hecho : (valuesOf Entry.echo? none es).Perm (valuesOf Entry.echo? none es') :=
    valuesOf_perm (by rintro (_ | _ | _ | _) <;> simp [Entry.isKnown, Entry.echo?]) h
  constructor
  · simp only [Draft.Fits, Draft.empty, hfile.length_eq, hdirective.length_eq, hecho.length_eq]
  · rintro ⟨hone, hone', hone''⟩
    simp only [Draft.filled, Draft.empty, head?_eq_of_perm hfile hone,
      head?_eq_of_perm hdirective hone', head?_eq_of_perm hecho hone'']

end

/-! ## The settings of a text -/

theorem ofYaml_of_fits (hes : ∀ e ∈ es, e.Proper) (hending : ending = "" ∨ ending = "\n")
    (h : Draft.empty.Fits es) :
    ofYaml (textOf es ending) = .ok (Draft.empty.filled es).settings := by
  rw [ofYaml_textOf hes hending, (Draft.empty.foldlM_add es).1 h]
  rfl

theorem ofYaml_of_not_fits (hes : ∀ e ∈ es, e.Proper) (hending : ending = "" ∨ ending = "\n")
    (h : ¬ Draft.empty.Fits es) : ofYaml (textOf es ending) = .error .repeatedKey := by
  rw [ofYaml_textOf hes hending, (Draft.empty.foldlM_add es).2 h]
  rfl

/-- A text of lines is no settings if and only if a known key is repeated. Otherwise every known key
that is there has exactly its value, and the others have their defaults. Neither the order of the lines
nor lines with other keys matter. Without lines all is as by default. -/
theorem ofYaml_textOf_gives (hes : ∀ e ∈ es, e.Proper) (hending : ending = "" ∨ ending = "\n") :
    ((∃ fault, ofYaml (textOf es ending) = .error fault) ↔
      ∃ key ∈ knownKeys, 1 < (es.map Entry.key).count key) ∧
    ((∀ key ∈ knownKeys, (es.map Entry.key).count key ≤ 1) →
      ∃ s, ofYaml (textOf es ending) = .ok s ∧ Gives es s) ∧
    (∀ es' ending', (∀ e ∈ es', e.Proper) → (ending' = "" ∨ ending' = "\n") →
      (es.filter Entry.isKnown).Perm (es'.filter Entry.isKnown) →
      ofYaml (textOf es' ending') = ofYaml (textOf es ending)) ∧
    ofYaml (textOf [] ending) = .ok defaults := by
  refine ⟨⟨?_, ?_⟩, fun hone => ?_, fun es' ending' hes' hending' hperm => ?_, ?_⟩
  · rintro ⟨fault, hfault⟩
    have hfits : ¬ Draft.empty.Fits es := by
      intro h
      rw [ofYaml_of_fits hes hending h] at hfault
      cases hfault
    rw [fits_empty_iff hes] at hfits
    obtain ⟨key, hkey⟩ := Classical.not_forall.1 hfits
    obtain ⟨hmem, hlt⟩ := Classical.not_imp.1 hkey
    exact ⟨key, hmem, Nat.lt_of_not_le hlt⟩
  · rintro ⟨key, hkey, hlt⟩
    have hfits : ¬ Draft.empty.Fits es := fun h =>
      Nat.not_le.2 hlt ((fits_empty_iff hes).1 h key hkey)
    exact ⟨.repeatedKey, ofYaml_of_not_fits hes hending hfits⟩
  · have hfits := (fits_empty_iff hes).2 hone
    exact ⟨_, ofYaml_of_fits hes hending hfits, gives_filled hes hfits⟩
  · obtain ⟨hiff, hfilled⟩ := filled_eq_of_perm hperm
    by_cases hfits : Draft.empty.Fits es
    · rw [ofYaml_of_fits hes hending hfits, ofYaml_of_fits hes' hending' (hiff.1 hfits),
        hfilled hfits]
    · rw [ofYaml_of_not_fits hes hending hfits,
        ofYaml_of_not_fits hes' hending' fun h => hfits (hiff.2 h)]
  · exact ofYaml_textOf (by simp) hending

/-- Values that would mean something else without their quotes, and an unknown key that is repeated. -/
theorem ofYaml_textOf_gives_of_unknown :
    ofYaml "Null: 'it''s: #1 '\necho: false\nfile: ' \x7ba: ''b''\x7d'\nNull: ''\n" =
      .ok ⟨" \x7ba: 'b'\x7d", "all", false⟩ ∧
    ofYaml "file: ' \x7ba: ''b''\x7d'\necho: false" = .ok ⟨" \x7ba: 'b'\x7d", "all", false⟩ ∧
    ∃ fault, ofYaml "echo: true\necho: false" = .error fault := by
  have hes : ∀ e ∈ [Entry.other "Null" "it's: #1 ", .echo false, .file " \x7ba: 'b'\x7d",
      .other "Null" ""], e.Proper := by
    simp [Entry.Proper, knownKeys, Yaml.isPrintable]
    decide
  have hes' : ∀ e ∈ [Entry.file " \x7ba: 'b'\x7d", .echo false], e.Proper := by
    simp [Entry.Proper, Yaml.isPrintable]
  have hperm : ([Entry.other "Null" "it's: #1 ", .echo false, .file " \x7ba: 'b'\x7d",
      .other "Null" ""].filter Entry.isKnown).Perm
      ([Entry.file " \x7ba: 'b'\x7d", .echo false].filter Entry.isKnown) :=
    .swap ..
  have htext : textOf [Entry.other "Null" "it's: #1 ", .echo false, .file " \x7ba: 'b'\x7d",
      .other "Null" ""] "\n" =
      "Null: 'it''s: #1 '\necho: false\nfile: ' \x7ba: ''b''\x7d'\nNull: ''\n" := by
    rfl
  have htext' : textOf [Entry.file " \x7ba: 'b'\x7d", .echo false] "" =
      "file: ' \x7ba: ''b''\x7d'\necho: false" := by
    rfl
  obtain ⟨-, hgives, horder, -⟩ := ofYaml_textOf_gives hes (.inr rfl)
  have horder := horder _ _ hes' (.inl rfl) hperm
  obtain ⟨⟨file, directive, echo⟩, hs, hgives⟩ := hgives (by decide)
  have hfile : file = " \x7ba: 'b'\x7d" := hgives.file _ (by simp)
  have hecho : echo = false := hgives.echo _ (by simp)
  have hdirective : directive = "all" := hgives.defaultDirective_default (by decide)
  rw [hs, htext'] at horder
  rw [htext, hfile, hecho, hdirective] at hs
  rw [hfile, hecho, hdirective] at horder
  have hechoes : ∀ e ∈ [Entry.echo true, .echo false], e.Proper := by
    simp [Entry.Proper]
  have hrepeated : textOf [Entry.echo true, .echo false] "" = "echo: true\necho: false" := by
    rfl
  exact ⟨hs, horder, hrepeated ▸
    (ofYaml_textOf_gives hechoes (.inl rfl)).1.2 ⟨"echo", by decide, by decide⟩⟩

end BuildTool.Settings
