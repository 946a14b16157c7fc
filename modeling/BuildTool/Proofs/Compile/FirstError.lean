import BuildTool.Proofs.Compile.Language
import BuildTool.Proofs.Token.LayoutSplit
/-!
# Where compilation stops

In a text that can be divided into tokens nothing but a bracket stops the reader: a parenthesis, or a
brace that no name stands before. What is left of the program then is the program of the text before
the bracket (`Compile.value_parse_of_halts`, `Compile.exists_halts_of_parse`).
-/

namespace BuildTool

open Alphabet
open Program (Stanza Peeled)

/-! ## Stray tokens -/

namespace Token

theorem passes_top {k : Kind} {w : String} {q : Place} (h : Place.top.Passes k w q) :
    (k = .directiveName ∧ q = .top) ∨ (k = .leftParen ∧ q = .inside .dependencies) ∨
      (k = .leftBrace ∧ q = .inside .commands) := by
  cases h <;> simp

/-- A block that is left again has been closed. -/
theorem exists_closer_of_leads {ts : List Token} (h : Leads (.inside .commands) ts .top) :
    ∃ body y tail, ts = body ++ y :: tail ∧ (∀ t ∈ body, t.isPiece) ∧ y.kind = .rightBrace := by
  induction ts with
  | nil => cases h
  | cons t ts ih =>
    have hgoes : ∀ (hpiece : t.isPiece) (hts : Leads (.inside .commands) ts .top),
        ∃ body y tail, t :: ts = body ++ y :: tail ∧ (∀ t ∈ body, t.isPiece) ∧
          y.kind = .rightBrace := by
      intro hpiece hts
      obtain ⟨body, y, tail, hsplit, hbody, hy⟩ := ih hts
      refine ⟨t :: body, y, tail, by rw [hsplit]; rfl, ?_, hy⟩
      intro u hu
      rcases List.mem_cons.1 hu with hu | hu
      · rw [hu]
        exact hpiece
      · exact hbody u hu
    obtain ⟨kind, lexeme, line⟩ := t
    cases h with
    | cons hpass hts =>
      cases hpass with
      | part => exact hgoes rfl hts
      | semicolon => exact hgoes rfl hts
      | closeBlock => exact ⟨[], _, ts, rfl, by simp, rfl⟩

end Token

namespace Program

variable {ts names after : List Token} {x : Token}

/-- A stray token starts no block. -/
theorem ne_stanza_of_stray (hnames : ∀ t ∈ names, t.isName) (hx : x.isName = false)
    (hbrace : x.kind = .leftBrace → names = []) (b : Stanza) (tail : List Token) :
    names ++ x :: after ≠ b.tokens ++ tail := by
  intro heq
  have hopener : b.opener.isName = false := by simp [Token.isName, b.opener_kind]
  rw [Stanza.tokens, List.append_assoc, List.cons_append] at heq
  have hdrop := congrArg (List.dropWhile Token.isName) heq
  rw [List.dropWhile_append_of_pos hnames, List.dropWhile_cons_of_neg (by simp [hx]),
    List.dropWhile_append_of_pos b.names_isName, List.dropWhile_cons_of_neg (by simp [hopener])]
    at hdrop
  have hsame : x = b.opener := (List.cons.inj hdrop).1
  have htake := congrArg (List.takeWhile Token.isName) heq
  rw [List.takeWhile_append_of_pos hnames, List.takeWhile_cons_of_neg (by simp [hx]),
    List.takeWhile_append_of_pos b.names_isName, List.takeWhile_cons_of_neg (by simp [hopener]),
    hbrace (by rw [hsame, b.opener_kind])] at htake
  simp [Stanza.names] at htake

theorem obstacle_of_stray (hnames : ∀ t ∈ names, t.isName) (hx : x.isName = false)
    (hbrace : x.kind = .leftBrace → names = []) :
    obstacle ts (names ++ x :: after) = some ⟨x.line, x.kind, [.directiveName]⟩ := by
  have hno : ¬ (x.kind = .leftBrace ∧ names ≠ []) := by
    intro h
    exact h.2 (hbrace h.1)
  rw [obstacle, List.dropWhile_append_of_pos hnames, List.dropWhile_cons_of_neg (by simp [hx]),
    List.takeWhile_append_of_pos hnames, List.takeWhile_cons_of_neg (by simp [hx]),
    List.append_nil]
  exact if_neg hno

theorem exists_stanza_of_leads (hnames : ∀ t ∈ names, t.isName) (hne : names ≠ [])
    (hx : x.kind = .leftBrace) (hleads : Token.Leads (.inside .commands) after .top) :
    ∃ (b : Stanza) (tail : List Token), names ++ x :: after = b.tokens ++ tail := by
  obtain ⟨body, y, tail, hafter, hbody, hy⟩ := Token.exists_closer_of_leads hleads
  obtain ⟨b, hb⟩ := Stanza.exists_tokens_eq hnames hne hx hbody hy
  refine ⟨b, tail, ?_⟩
  rw [hafter, hb]
  simp

/-- Tokens that keep to their places hold no other obstacle than a stray bracket. -/
theorem exists_stray_of_obstacle {rest : List Token} {e : ParseError}
    (hleads : Token.Leads .top rest .top)
    (hmaximal : ∀ (b : Stanza) (tail : List Token), rest ≠ b.tokens ++ tail)
    (h : obstacle ts rest = some e) :
    ∃ names x after, rest = names ++ x :: after ∧ (∀ t ∈ names, t.isName) ∧
      (x.kind = .leftParen ∨ x.kind = .leftBrace ∧ names = []) ∧
      e = ⟨x.line, x.kind, [.directiveName]⟩ := by
  cases hafter : rest.dropWhile Token.isName with
  | nil =>
    rw [obstacle, hafter] at h
    cases h
  | cons x after =>
    have hx : x.isName = false := not_of_dropWhile_eq_cons hafter
    have hnames : ∀ t ∈ rest.takeWhile Token.isName, t.isName :=
      fun t ht => List.mem_takeWhile_imp ht
    have hsplit : rest = rest.takeWhile Token.isName ++ x :: after := by
      rw [← hafter, List.takeWhile_append_dropWhile]
    generalize rest.takeWhile Token.isName = names at hnames hsplit
    subst hsplit
    have hkind : x.kind = .leftParen ∨ x.kind = .leftBrace ∧ names = [] := by
      obtain ⟨q, hq, hrest⟩ := Token.leads_append.1 hleads
      obtain rfl : q = .top :=
        hq.unique (Token.leads_of_forall fun t ht => Token.passes_of_isName (hnames t ht))
      cases hrest with
      | cons hpass hafterLeads =>
        rcases Token.passes_top hpass with ⟨hname, -⟩ | ⟨hparen, -⟩ | ⟨hbrace, rfl⟩
        · simp [Token.isName, hname] at hx
        · exact .inl hparen
        · refine .inr ⟨hbrace, ?_⟩
          -- Behind names the brace opens a block; it is closed, so it would have been taken off.
          by_contra hne
          obtain ⟨b, tail, hb⟩ := exists_stanza_of_leads hnames hne hbrace hafterLeads
          exact hmaximal b tail hb
    have hbrace : x.kind = .leftBrace → names = [] := by
      intro hb
      rcases hkind with hparen | ⟨-, hnil⟩
      · rw [hparen] at hb
        cases hb
      · exact hnil
    rw [obstacle_of_stray hnames hx hbrace, Option.some.injEq] at h
    exact ⟨names, x, after, rfl, hnames, hkind, h.symm⟩

end Program

/-! ## Stray brackets of a text -/

namespace Compile

/-- A bracket that stops the reader behind a text: a parenthesis, or a brace if the last visible
character before it is no letter. -/
inductive Stray (before : String) : Char → Token.Kind → Prop
  | parenthesis : Stray before '(' .leftParen
  | brace (h : ∀ c ∈ lastVisible before.toList, c.isAlpha = false) :
      Stray before '\x7b' .leftBrace

/-- A text is cut at a stray bracket, and what stands before it compiles. -/
structure Halts (source before : String) (bracket : Char) (after : String) (p : Program)
    (found : Token.Kind) : Prop where
  split : source = before ++ bracket.toString ++ after
  compiles : (program before).value = .ok p
  stray : Stray before bracket found

/-- Names behind blocks end a text if and only if its last visible character is a letter. -/
theorem trailing_eq_nil_iff {l : Layout} {blocks : List Stanza} {trailing : List Token}
    (htokens : l.tokens = blocks.flatMap Stanza.tokens ++ trailing)
    (htrailing : ∀ t ∈ trailing, t.isName) :
    trailing = [] ↔ ∀ c ∈ lastVisible l.chars, c.isAlpha = false := by
  rcases List.eq_nil_or_concat trailing with hnil | ⟨names, name, hconcat⟩
  · apply iff_of_true hnil
    rw [hnil, List.append_nil] at htokens
    rcases List.eq_nil_or_concat blocks with hblocks | ⟨earlier, b, hblocks⟩
    · rw [Layout.lastVisible_of_nil (by rw [htokens, hblocks]; rfl)]
      simp
    · have hcloser : l.tokens = (earlier.flatMap Stanza.tokens ++ b.names ++ b.opener :: b.body) ++
          [b.closer] := by
        rw [htokens, hblocks]
        simp [Stanza.tokens]
      have hspells : b.closer.kind.Spells b.closer.lexeme :=
        Layout.spells_of_mem (by rw [hcloser]; simp)
      rw [b.closer_kind] at hspells
      rw [Layout.lastVisible_of_concat hcloser, show b.closer.lexeme = "\x7d" from hspells]
      intro c hc
      obtain rfl : '\x7d' = c := Option.some.inj hc
      rfl
  · apply iff_of_false (by simp [hconcat])
    have hname : l.tokens = (blocks.flatMap Stanza.tokens ++ names) ++ [name] := by
      rw [htokens, hconcat]
      simp
    have hspells : name.kind.Spells name.lexeme :=
      Layout.spells_of_mem (by rw [hname]; simp)
    have hkind : name.isName := htrailing name (by simp [hconcat])
    rw [of_decide_eq_true hkind] at hspells
    have hne : name.lexeme.toList ≠ [] := hspells.ne_nil
    rw [Layout.lastVisible_of_concat hname, List.getLast?_eq_some_getLast hne]
    intro h
    have hletter : (name.lexeme.toList.getLast hne).isAlpha = true :=
      hspells.2 _ (List.getLast_mem hne)
    rw [h _ rfl] at hletter
    cases hletter

theorem Stray.delimits {before : String} {c : Char} {k : Token.Kind} (h : Stray before c k) :
    ∃ q, Place.top.Delimits c k q := by
  cases h with
  | parenthesis => exact ⟨_, .parenthesis⟩
  | brace => exact ⟨_, .brace⟩

theorem Stray.kind_eq {before : String} {c : Char} {k : Token.Kind} (h : Stray before c k) :
    k = .leftParen ∨ k = .leftBrace := by
  cases h with
  | parenthesis => exact .inl rfl
  | brace => exact .inr rfl

variable {source before after : String} {c : Char} {p : Program} {e : ParseError}

/-- A text that is cut at a stray bracket is compiled up to the bracket. -/
theorem value_parse_of_halts {k : Token.Kind} {ts : List Token} (hscan : Token.scan source = .ok ts)
    (h : Halts source before c after p k) :
    (parse source).value =
      ⟨p, some (.parse ⟨1 + before.toList.count '\n', k, [.directiveName]⟩)⟩ := by
  obtain ⟨l, blocks, trailing, hchars, htokens, htrailing, hp⟩ := exists_layout_of_program h.compiles
  obtain ⟨q, hdelim⟩ := h.stray.delimits
  have hsource : source.toList = l.chars ++ c :: after.toList := by
    rw [h.split, hchars]
    simp
  have hleads : Token.Leads .top l.tokens .top := by
    rw [htokens]
    exact Token.leads_stanzas_append htrailing
  obtain ⟨us, line, hts, r, hus⟩ := Token.scan_of_delimiter hscan hsource hleads hdelim
  let x : Token := ⟨k, c.toString, 1 + l.chars.count '\n'⟩
  have hx : x.isName = false := decide_eq_false hdelim.kind_ne.1
  have hbrace : x.kind = .leftBrace → trailing = [] := by
    intro hk
    rw [trailing_eq_nil_iff htokens htrailing, hchars]
    cases h.stray with
    | parenthesis => cases hk
    | brace hlast => exact hlast
  have hall : Token.Leads .top (l.tokens ++ x :: us) r :=
    Token.leads_append.2 ⟨_, hleads, .cons (Place.passes_of_delimits hdelim).2 hus⟩
  have hpeeled : Peeled ts blocks (trailing ++ x :: us) := by
    refine ⟨?_, Program.ne_stanza_of_stray htrailing hx hbrace⟩
    rw [hts, Program.beforeEnd_append (Token.isEnd_of_leads hall), htokens, List.append_assoc]
  rw [value_parse_of_ok hscan, Program.ofTokens_of_peeled hpeeled,
    Program.obstacle_of_stray htrailing hx hbrace, hp, ← hchars]
  rfl

theorem exists_stray_of_kind {l : Layout} {blocks : List Stanza} {names : List Token} {x : Token}
    (htokens : l.tokens = blocks.flatMap Stanza.tokens ++ names) (hnames : ∀ t ∈ names, t.isName)
    (hspells : x.kind.Spells x.lexeme) (hkind : x.kind = .leftParen ∨ x.kind = .leftBrace ∧ names = []) :
    ∃ c, x.lexeme = c.toString ∧ Stray (String.ofList l.chars) c x.kind := by
  rcases hkind with hk | ⟨hk, hnil⟩
  · rw [hk] at hspells ⊢
    exact ⟨'(', hspells, .parenthesis⟩
  · rw [hk] at hspells ⊢
    refine ⟨'\x7b', hspells, .brace ?_⟩
    rw [String.toList_ofList]
    exact (trailing_eq_nil_iff htokens hnames).1 hnil

/-- What stops the reader in a text that can be scanned is a stray bracket. -/
theorem exists_halts_of_parse (h : (parse source).value = ⟨p, some (.parse e)⟩) :
    (∃ ts, Token.scan source = .ok ts) ∧
    ∃ before c after, Halts source before c after p e.found ∧
      e.line = 1 + before.toList.count '\n' ∧ e.expected = [.directiveName] := by
  cases hscan : Token.scan source with
  | error d =>
    rw [value_parse_of_error hscan] at h
    cases h
  | ok ts =>
    refine ⟨⟨ts, rfl⟩, ?_⟩
    rw [value_parse_of_ok hscan] at h
    obtain ⟨l, hchars, hleads, hts⟩ := Token.scan_eq_ok_iff.1 hscan
    obtain ⟨blocks, rest, hpeeled⟩ := Program.exists_peeled ts
    have hsplit : l.tokens = blocks.flatMap Stanza.tokens ++ rest := by
      rw [← hpeeled.split, hts, Program.beforeEnd_append (Token.isEnd_of_leads hleads)]
    rw [Program.ofTokens_of_peeled hpeeled] at h
    have hp : ⟨blocks.map Stanza.directive⟩ = p := congrArg Compiled.program h
    have he : Program.obstacle ts rest = some e := by
      simpa [Compiled.ofParsed] using congrArg Compiled.error h
    have hrest : Token.Leads .top rest .top := by
      rw [hsplit] at hleads
      obtain ⟨q, hq, hrest⟩ := Token.leads_append.1 hleads
      rwa [hq.unique (Token.leads_stanzas blocks)] at hrest
    obtain ⟨names, x, us, hrestSplit, hnames, hkind, hex⟩ :=
      Program.exists_stray_of_obstacle hrest hpeeled.maximal he
    rw [hrestSplit, ← List.append_assoc] at hsplit
    obtain ⟨front, after, hcut, hfront, hline⟩ := Layout.exists_split hsplit
    have hspells : x.kind.Spells x.lexeme := Layout.spells_of_mem (by rw [hsplit]; simp)
    obtain ⟨c, hc, hstray⟩ := exists_stray_of_kind hfront hnames hspells hkind
    have hsource : source = String.ofList front.chars ++ c.toString ++ String.ofList after := by
      rw [← String.toList_inj, ← hchars, hcut, hc]
      simp
    have hcompiles : (program (String.ofList front.chars)).value = .ok p := by
      rw [← hp]
      exact value_program_of_layout String.toList_ofList.symm hfront hnames
    rw [hex]
    refine ⟨String.ofList front.chars, c, String.ofList after, ⟨hsource, hcompiles, hstray⟩, ?_, rfl⟩
    rw [String.toList_ofList]
    exact hline

/-- No text that compiles goes on behind a stray bracket. -/
theorem Halts.not_compiles {k : Token.Kind} {longer : String} {cs : List Char} {q : Program}
    (h : Halts source before c after p k) (hlonger : longer.toList = before.toList ++ c :: cs) :
    (program longer).value ≠ .ok q := by
  intro hok
  obtain ⟨ts, hscan, -⟩ := value_program_eq_ok.1 hok
  have hsplit : longer = before ++ c.toString ++ String.ofList cs := by
    rw [← String.toList_inj, hlonger]
    simp
  have hhalts : Halts longer before c (String.ofList cs) p k := ⟨hsplit, h.compiles, h.stray⟩
  rw [program, Logged.value_bind, value_parse_of_halts hscan hhalts] at hok
  cases hok

theorem Halts.unique {q : Program} {k l : Token.Kind} {front back : String} {d : Char}
    (h : Halts source before c after p k) (hd : Halts source front d back q l) :
    before = front ∧ c = d ∧ after = back := by
  have hsplit : before.toList ++ c :: after.toList = front.toList ++ d :: back.toList := by
    have hsource := congrArg String.toList (h.split.symm.trans hd.split)
    simpa using hsource
  rcases List.append_eq_append_iff.1 hsplit with ⟨cs, hfront, hcs⟩ | ⟨cs, hbefore, hcs⟩
  · cases cs with
    | nil =>
      obtain ⟨hc, hafter⟩ := List.cons.inj hcs
      rw [List.append_nil] at hfront
      exact ⟨(String.toList_inj.1 hfront).symm, hc, String.toList_inj.1 hafter⟩
    | cons _ cs =>
      obtain ⟨rfl, -⟩ := List.cons.inj hcs
      exact absurd hd.compiles (h.not_compiles hfront)
  · cases cs with
    | nil =>
      obtain ⟨hc, hafter⟩ := List.cons.inj hcs
      rw [List.append_nil] at hbefore
      exact ⟨String.toList_inj.1 hbefore, hc.symm, (String.toList_inj.1 hafter).symm⟩
    | cons _ cs =>
      obtain ⟨rfl, -⟩ := List.cons.inj hcs
      exact absurd h.compiles (hd.not_compiles hbefore)

/-- The reader stops at a stray bracket behind a text that compiles, and the directives of that text
are left. There is one such bracket at most; no other token is ever found, and a name is what is
expected. -/
theorem value_parse_eq_parse_iff (source : String) :
    (∀ p e, (parse source).value = ⟨p, some (.parse e)⟩ ↔
      (∃ ts, Token.scan source = .ok ts) ∧
      ∃ before c after, Halts source before c after p e.found ∧
        e.line = 1 + before.toList.count '\n' ∧ e.expected = [.directiveName]) ∧
    (∀ before c after p k front d back q l, Halts source before c after p k →
      Halts source front d back q l → before = front ∧ c = d ∧ after = back) ∧
    (∀ p e, (parse source).value = ⟨p, some (.parse e)⟩ →
      (e.found = .leftParen ∨ e.found = .leftBrace) ∧ e.expected = [.directiveName]) := by
  refine ⟨fun p e => ⟨exists_halts_of_parse, ?_⟩, ?_, ?_⟩
  · intro h
    obtain ⟨⟨ts, hscan⟩, before, c, after, hhalts, hline, hexpected⟩ := h
    rw [value_parse_of_halts hscan hhalts, ← hline, ← hexpected]
  · intro _ _ _ _ _ _ _ _ _ _ h h'
    exact h.unique h'
  · intro p e h
    obtain ⟨-, before, c, after, hhalts, -, hexpected⟩ := exists_halts_of_parse h
    exact ⟨hhalts.stray.kind_eq, hexpected⟩

end Compile

end BuildTool
