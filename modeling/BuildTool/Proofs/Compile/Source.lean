import BuildTool.Proofs.Compile.Language
import BuildTool.Proofs.Token.LayoutSplit
/-!
# Writing a directive

A directive is written as its name and a block with one command to a line (`Directive.source`). What a
text compiles to is spelled like a build file (`Compile.spelled_of_mem_parse`), and a directive that is so
spelled is what its source compiles to (`Compile.value_program_source`).
-/

namespace BuildTool

open Alphabet
open Program (Stanza commandOf)

/-- Each part is a word between braces. -/
def Command.Spelled (c : Command) : Prop :=
  ∀ w ∈ c.parts, Token.Kind.commandPart.Spells w

structure Directive.Spelled (d : Directive) : Prop where
  name : Token.Kind.directiveName.Spells d.name
  commands : ∀ c ∈ d.commands, c.Spelled

/-- A build file that says the directive. -/
def Directive.source (d : Directive) : String :=
  d.name ++ " \x7b\n" ++ String.join (d.commands.map fun c => c.text ++ ";\n") ++ "\x7d"

/-! ## What compiles is spelled -/

/-- Together the pieces between separators are all that is no separator. -/
theorem flatten_splitOnP {α : Type} (p : α → Bool) (xs : List α) :
    (xs.splitOnP p).flatten = xs.filter (!p ·) := by
  induction xs with
  | nil => rw [List.splitOnP_nil, List.filter_nil, List.flatten_singleton]
  | cons x xs ih =>
    obtain ⟨piece, pieces, hsplit⟩ := List.exists_cons_of_ne_nil (List.splitOnP_ne_nil p xs)
    rw [hsplit, List.flatten_cons] at ih
    rw [List.splitOnP_cons_eq_if_modifyHead, hsplit]
    cases hx : p x with
    | true => simp [hx, ih]
    | false => simp [hx, ih]

theorem mem_of_mem_splitOnP {α : Type} {p : α → Bool} {xs piece : List α} {a : α}
    (hpiece : piece ∈ xs.splitOnP p) (ha : a ∈ piece) : a ∈ xs ∧ p a = false := by
  have hmem : a ∈ xs.filter (!p ·) := by
    rw [← flatten_splitOnP]
    exact List.mem_flatten_of_mem hpiece ha
  simpa using List.mem_filter.1 hmem

theorem Program.Stanza.spelled (b : Stanza) (h : ∀ t ∈ b.tokens, t.kind.Spells t.lexeme) :
    b.directive.Spelled where
  name := by
    have hname := h b.name (by simp [Stanza.tokens, Stanza.names])
    rwa [of_decide_eq_true b.name_isName] at hname
  commands := by
    intro c hc w hw
    obtain ⟨piece, hpiece, rfl⟩ := List.mem_map.1 hc
    obtain ⟨t, ht, rfl⟩ := List.mem_map.1 hw
    obtain ⟨hbody, hsemicolon⟩ := mem_of_mem_splitOnP (List.dropLast_subset _ hpiece) ht
    have hkind : t.kind = .commandPart := by
      have hpart := b.body_isPiece t hbody
      simp only [Token.isSemicolon, decide_eq_false_iff_not] at hsemicolon
      simpa [Token.isPiece, hsemicolon] using hpart
    have hspells := h t (by simp [Stanza.tokens, hbody])
    rwa [hkind] at hspells

/-- With an error or without, all that a text compiles to is spelled. -/
theorem Compile.spelled_of_mem_parse {source : String} {d : Directive}
    (h : d ∈ (parse source).value.program.directives) : d.Spelled := by
  cases hscan : Token.scan source with
  | error e =>
    rw [value_parse_of_error hscan] at h
    cases h
  | ok ts =>
    rw [value_parse_of_ok hscan] at h
    obtain ⟨l, -, hleads, hts⟩ := Token.scan_eq_ok_iff.1 hscan
    obtain ⟨blocks, rest, hpeeled⟩ := Program.exists_peeled ts
    rw [Program.ofTokens_of_peeled hpeeled] at h
    obtain ⟨b, hb, rfl⟩ := List.mem_map.1 h
    have hsplit := hpeeled.split
    rw [hts, Program.beforeEnd_append (Token.isEnd_of_leads hleads)] at hsplit
    refine b.spelled fun t ht => Layout.spells_of_mem (l := l) ?_
    rw [hsplit]
    exact List.mem_append_left _ (List.mem_flatMap_of_mem hb ht)

/-! ## Tokens without their lines -/

def Token.bare (t : Token) : Token.Kind × String :=
  (t.kind, t.lexeme)

namespace Layout

def items (l : Layout) : List (Token.Kind × String) :=
  l.cells.map fun c => (c.kind, c.lexeme)

theorem Cell.map_bare_tokensAfter (before : List Char) (cells : List Cell) :
    (Cell.tokensAfter before cells).map Token.bare = cells.map fun c => (c.kind, c.lexeme) := by
  induction cells generalizing before with
  | nil => rfl
  | cons c cells ih => rw [Cell.tokensAfter, List.map_cons, List.map_cons, ih, Token.bare]

theorem map_bare_tokens (l : Layout) : l.tokens.map Token.bare = l.items :=
  Cell.map_bare_tokensAfter ..

/-- A lexeme and a character of white space in front. -/
theorem exists_spaced {k : Token.Kind} {w : String} (hw : k.Spells w) {c : Char}
    (hc : isSpace c = true) (l : Layout) :
    ∃ m : Layout, m.chars = w.toList ++ c :: l.chars ∧ m.items = (k, w) :: l.items :=
  ⟨(l.indent c hc).cons k w hw fun _ _ _ _ => List.cons_ne_nil c l.lead, chars_cons .., rfl⟩

/-- A lexeme in front of one of another kind. -/
theorem exists_adjacent {k : Token.Kind} {w : String} (hw : k.Spells w) (l : Layout)
    (hl : ∀ i ∈ l.items.head?, i.1 ≠ k) :
    ∃ m : Layout, m.chars = w.toList ++ l.chars ∧ m.items = (k, w) :: l.items := by
  have hkind : ∀ d ∈ l.cells.head?, d.kind ≠ k := by
    intro d hd
    have hitem : (d.kind, d.lexeme) ∈ l.items.head? := by
      rw [items, List.head?_map]
      exact Option.mem_map_of_mem _ hd
    exact hl _ hitem
  exact ⟨l.cons k w hw fun d hd h _ => absurd h.symm (hkind d hd), chars_cons .., rfl⟩

end Layout

def Command.items (c : Command) : List (Token.Kind × String) :=
  c.parts.map (.commandPart, ·) ++ [(.semicolon, ";")]

def Directive.items (d : Directive) : List (Token.Kind × String) :=
  (.directiveName, d.name) :: (.leftBrace, "\x7b") ::
    (d.commands.flatMap Command.items ++ [(.rightBrace, "\x7d")])

/-! ## What is spelled compiles -/

namespace Layout

/-- Words one blank apart. -/
theorem exists_words {ws : List String} (hws : ∀ w ∈ ws, Token.Kind.commandPart.Spells w)
    (l : Layout) (hl : ∀ i ∈ l.items.head?, i.1 ≠ .commandPart) :
    ∃ m : Layout, m.chars = (" ".intercalate ws).toList ++ l.chars ∧
      m.items = ws.map (.commandPart, ·) ++ l.items := by
  induction ws with
  | nil => exact ⟨l, by simp, rfl⟩
  | cons w ws ih =>
    obtain ⟨hw, hws⟩ := List.forall_mem_cons.1 hws
    -- No blank stands behind the last word, which `hl` keeps apart from what follows.
    cases ws with
    | nil =>
      rw [String.intercalate_singleton]
      exact exists_adjacent hw l hl
    | cons v vs =>
      obtain ⟨n, hnchars, hnitems⟩ := ih hws
      obtain ⟨m, hchars, hitems⟩ := exists_spaced hw (c := ' ') (by decide) n
      refine ⟨m, ?_, by rw [hitems, hnitems]; rfl⟩
      rw [hchars, hnchars, String.intercalate_cons_cons]
      simp

theorem exists_command {c : Command} (hc : c.Spelled) (l : Layout) :
    ∃ m : Layout, m.chars = (c.text ++ ";\n").toList ++ l.chars ∧ m.items = c.items ++ l.items := by
  have hsemicolon : Token.Kind.semicolon.Spells ";" := rfl
  obtain ⟨n, hnchars, hnitems⟩ := exists_spaced hsemicolon (c := '\n') (by decide) l
  obtain ⟨m, hchars, hitems⟩ := exists_words hc n (by simp [hnitems])
  refine ⟨m, ?_, ?_⟩
  · rw [hchars, hnchars, Command.text]
    simp
  · rw [hitems, hnitems, Command.items, List.append_assoc]
    rfl

theorem exists_commands {cs : List Command} (hcs : ∀ c ∈ cs, c.Spelled) (l : Layout) :
    ∃ m : Layout,
      m.chars = (String.join (cs.map fun c => c.text ++ ";\n")).toList ++ l.chars ∧
      m.items = cs.flatMap Command.items ++ l.items := by
  induction cs with
  | nil => exact ⟨l, by simp, rfl⟩
  | cons c cs ih =>
    obtain ⟨hc, hcs⟩ := List.forall_mem_cons.1 hcs
    obtain ⟨n, hnchars, hnitems⟩ := ih hcs
    obtain ⟨m, hchars, hitems⟩ := exists_command hc n
    refine ⟨m, ?_, by rw [hitems, hnitems, List.flatMap_cons, List.append_assoc]⟩
    rw [hchars, hnchars, List.map_cons, String.join_cons, ← List.append_assoc,
      ← String.toList_append]

theorem exists_directive {d : Directive} (hd : d.Spelled) :
    ∃ l : Layout, l.chars = d.source.toList ∧ l.items = d.items := by
  have hopen : Token.Kind.leftBrace.Spells "\x7b" := rfl
  have hclose : Token.Kind.rightBrace.Spells "\x7d" := rfl
  obtain ⟨close, hcchars, hcitems⟩ := exists_adjacent hclose empty (by simp [items, empty])
  obtain ⟨body, hbchars, hbitems⟩ := exists_commands hd.commands close
  obtain ⟨block, hochars, hoitems⟩ := exists_spaced hopen (c := '\n') (by decide) body
  obtain ⟨l, hchars, hitems⟩ := exists_spaced hd.name (c := ' ') (by decide) block
  refine ⟨l, ?_, by rw [hitems, hoitems, hbitems, hcitems]; rfl⟩
  rw [hchars, hochars, hbchars, hcchars, Directive.source]
  simp [empty, chars]

end Layout

/-- Tokens that write down commands are divided at their semicolons into these commands. -/
theorem splitOnP_of_items {cs : List Command} {body : List Token}
    (h : body.map Token.bare = cs.flatMap Command.items) :
    (∀ t ∈ body, t.isPiece) ∧ (body.splitOnP Token.isSemicolon).dropLast.map commandOf = cs := by
  induction cs generalizing body with
  | nil =>
    obtain rfl : body = [] := by simpa using h
    exact ⟨by simp, rfl⟩
  | cons c cs ih =>
    rw [List.flatMap_cons, Command.items, List.append_assoc, List.map_eq_append_iff] at h
    obtain ⟨parts, tail, rfl, hparts, htail⟩ := h
    obtain ⟨x, rest, rfl, hx, hrest⟩ := List.map_eq_cons_iff.1 htail
    obtain ⟨hpieces, hcommands⟩ := ih hrest
    have hpart : ∀ t ∈ parts, t.kind = .commandPart := by
      intro t ht
      have hmem : t.bare ∈ c.parts.map (Token.Kind.commandPart, ·) :=
        hparts ▸ List.mem_map_of_mem ht
      obtain ⟨w, -, hw⟩ := List.mem_map.1 hmem
      exact (congrArg Prod.fst hw).symm
    have hlexemes : parts.map Token.lexeme = c.parts := by
      have hsnd := congrArg (List.map Prod.snd) hparts
      simpa [Token.bare, Function.comp_def] using hsnd
    have hsemicolon : x.kind = .semicolon := congrArg Prod.fst hx
    constructor
    · intro t ht
      rcases List.mem_append.1 ht with ht | ht
      · simp [Token.isPiece, hpart t ht]
      · rcases List.mem_cons.1 ht with rfl | ht
        · simp [Token.isPiece, hsemicolon]
        · exact hpieces t ht
    · rw [List.splitOnP_append_cons_of_forall_mem
        (fun t ht => by simp [Token.isSemicolon, hpart t ht]) x
        (by simp [Token.isSemicolon, hsemicolon]),
        List.dropLast_cons_of_ne_nil (List.splitOnP_ne_nil _ _), List.map_cons, hcommands,
        commandOf, hlexemes]

/-- Tokens that write down a directive are a block with that directive. -/
theorem exists_stanza_of_items {d : Directive} {ts : List Token} (h : ts.map Token.bare = d.items) :
    ∃ b : Stanza, b.tokens = ts ∧ b.directive = d := by
  obtain ⟨name, ts, rfl, hname, h⟩ := List.map_eq_cons_iff.1 h
  obtain ⟨opener, ts, rfl, hopener, h⟩ := List.map_eq_cons_iff.1 h
  obtain ⟨body, close, rfl, hbody, hclose⟩ := List.map_eq_append_iff.1 h
  obtain ⟨closer, tail, rfl, hcloser, htail⟩ := List.map_eq_cons_iff.1 hclose
  obtain rfl : tail = [] := List.map_eq_nil_iff.1 htail
  obtain ⟨hpieces, hcommands⟩ := splitOnP_of_items hbody
  let b : Stanza :=
    { earlier := [], name := name, opener := opener, body := body, closer := closer
      earlier_isName := by simp
      name_isName := decide_eq_true (congrArg Prod.fst hname)
      opener_kind := congrArg Prod.fst hopener
      body_isPiece := hpieces
      closer_kind := congrArg Prod.fst hcloser }
  refine ⟨b, rfl, ?_⟩
  rw [Stanza.directive, hcommands]
  exact congrArg (Directive.mk · d.commands) (congrArg Prod.snd hname)

namespace Compile

/-- A directive that is spelled like a build file is what its source compiles to. -/
theorem value_program_source {d : Directive} (hd : d.Spelled) :
    (program d.source).value = .ok ⟨[d]⟩ := by
  obtain ⟨l, hchars, hitems⟩ := Layout.exists_directive hd
  obtain ⟨b, htokens, hdirective⟩ := exists_stanza_of_items (l.map_bare_tokens.trans hitems)
  have hblocks : l.tokens = [b].flatMap Stanza.tokens ++ [] := by simp [htokens]
  have hprogram := value_program_of_layout hchars hblocks (by simp)
  rwa [List.map_singleton, hdirective] at hprogram

end Compile

end BuildTool
