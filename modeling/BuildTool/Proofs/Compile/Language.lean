import BuildTool.Compile
import BuildTool.Proofs.Token.LayoutScan
import BuildTool.Proofs.Program.Grammar
/-!
# The language of build files

A text is a build file if it can be laid out as blocks with some names behind them, and the blocks are
its program (`Compile.value_program_of_layout`, `Compile.exists_layout_of_program`).
-/

namespace BuildTool

open Program (Stanza Peeled)

/-! ## Places along blocks -/

namespace Token

theorem leads_of_forall {p : Place} {ts : List Token}
    (h : ∀ t ∈ ts, p.Passes t.kind t.lexeme p) : Leads p ts p := by
  induction ts with
  | nil => exact .nil p
  | cons t ts ih =>
    exact .cons (h t (List.mem_cons_self ..)) (ih fun u hu => h u (List.mem_cons_of_mem _ hu))

theorem passes_of_isName {t : Token} (h : t.isName) : Place.top.Passes t.kind t.lexeme .top := by
  rw [show t.kind = .directiveName from of_decide_eq_true h]
  exact .name _

theorem passes_of_isPiece {t : Token} (h : t.isPiece) :
    (Place.inside .commands).Passes t.kind t.lexeme (.inside .commands) := by
  have hkind : t.kind = .commandPart ∨ t.kind = .semicolon := by simpa [isPiece] using h
  rcases hkind with hkind | hkind
  · rw [hkind]; exact .part _
  · rw [hkind]; exact .semicolon _

theorem leads_stanza (b : Stanza) : Leads .top b.tokens .top := by
  have hnames : Leads .top b.names .top :=
    leads_of_forall fun t ht => passes_of_isName (b.names_isName t ht)
  have hopen : Place.top.Passes b.opener.kind b.opener.lexeme (.inside .commands) := by
    rw [b.opener_kind]; exact .openBlock _
  have hbody : Leads (.inside .commands) b.body (.inside .commands) :=
    leads_of_forall fun t ht => passes_of_isPiece (b.body_isPiece t ht)
  have hclose : (Place.inside .commands).Passes b.closer.kind b.closer.lexeme .top := by
    rw [b.closer_kind]; exact .closeBlock _
  exact leads_append.2 ⟨_, hnames, .cons hopen (leads_append.2 ⟨_, hbody, .cons hclose (.nil _)⟩)⟩

theorem leads_stanzas (blocks : List Stanza) : Leads .top (blocks.flatMap Stanza.tokens) .top := by
  induction blocks with
  | nil => exact .nil _
  | cons b blocks ih =>
    rw [List.flatMap_cons]
    exact leads_append.2 ⟨_, leads_stanza b, ih⟩

theorem leads_stanzas_append {blocks : List Stanza} {trailing : List Token}
    (h : ∀ t ∈ trailing, t.isName) :
    Leads .top (blocks.flatMap Stanza.tokens ++ trailing) .top :=
  leads_append.2 ⟨_, leads_stanzas blocks, leads_of_forall fun t ht => passes_of_isName (h t ht)⟩

theorem isEnd_of_leads {p q : Place} {ts : List Token} (h : Leads p ts q) :
    ∀ t ∈ ts, t.isEnd = false := by
  induction h with
  | nil => simp
  | @cons p q r t ts hpass _ ih =>
    intro u hu
    rcases List.mem_cons.1 hu with rfl | hu
    · cases hk : u.kind with
      | endOfInput => rw [hk] at hpass; cases hpass
      | _ => simp [isEnd, hk]
    · exact ih u hu

end Token

namespace Program

theorem beforeEnd_append {ts us : List Token} {line : Nat} (h : ∀ t ∈ ts, t.isEnd = false) :
    beforeEnd (ts ++ .endOfInput line :: us) = ts := by
  rw [beforeEnd, List.takeWhile_append_of_pos fun t ht => by simp [h t ht]]
  simp [Token.isEnd, Token.endOfInput]

/-- Names hold no block. -/
theorem ne_stanza_of_isName {names tail : List Token} (h : ∀ t ∈ names, t.isName) (b : Stanza) :
    names ≠ b.tokens ++ tail := by
  intro heq
  have hopen : b.opener.isName := h b.opener (by simp [heq, Stanza.tokens])
  simp [Token.isName, b.opener_kind] at hopen

end Program

/-! ## Compiling -/

namespace Compile

variable {source : String} {p : Program}

theorem value_parse_of_ok {ts : List Token} (h : Token.scan source = .ok ts) :
    (parse source).value = .ofParsed (Program.ofTokens ts) := by
  have htokens : (tokens source).value = .ok ts := by
    rw [tokens, h]
    rfl
  rw [parse, Logged.value_bind, htokens]
  rfl

theorem value_parse_of_error {e : ScanError} (h : Token.scan source = .error e) :
    (parse source).value = ⟨.empty, some (.scan e)⟩ := by
  have htokens : (tokens source).value = .error e := by
    rw [tokens, h]
    rfl
  rw [parse, Logged.value_bind, htokens]
  rfl

theorem value_program_eq_ok_iff_parse :
    (program source).value = .ok p ↔ (parse source).value = ⟨p, none⟩ := by
  rw [program, Logged.value_bind, Logged.value_pure]
  cases (parse source).value with
  | mk q error => cases error <;> simp [Compiled.toExcept]

theorem value_program_eq_ok :
    (program source).value = .ok p ↔
      ∃ ts, Token.scan source = .ok ts ∧ Program.ofTokens ts = ⟨p, none⟩ := by
  rw [value_program_eq_ok_iff_parse]
  cases hscan : Token.scan source with
  | error e =>
    rw [value_parse_of_error hscan]
    simp
  | ok ts =>
    rw [value_parse_of_ok hscan]
    cases hparsed : Program.ofTokens ts with
    | mk q error => cases error <;> simp [Compiled.ofParsed, hparsed]

/-- What is laid out as blocks and names is the program of the blocks. -/
theorem value_program_of_layout {l : Layout} {blocks : List Stanza} {trailing : List Token}
    (hchars : l.chars = source.toList)
    (htokens : l.tokens = blocks.flatMap Stanza.tokens ++ trailing)
    (htrailing : ∀ t ∈ trailing, t.isName) :
    (program source).value = .ok ⟨blocks.map Stanza.directive⟩ := by
  have hleads : Token.Leads .top l.tokens .top := by
    rw [htokens]
    exact Token.leads_stanzas_append htrailing
  have hscan := Token.scan_eq_ok_iff.2 ⟨l, hchars, hleads, rfl⟩
  have hpeeled : Peeled (l.tokens ++ [.endOfInput (1 + source.toList.count '\n')]) blocks
      trailing := by
    refine ⟨?_, fun b _ => Program.ne_stanza_of_isName htrailing b⟩
    rw [Program.beforeEnd_append (Token.isEnd_of_leads hleads), htokens]
  refine value_program_eq_ok.2 ⟨_, hscan, ?_⟩
  rw [Program.ofTokens_of_peeled hpeeled, Program.obstacle_eq_none_iff.2 htrailing]

/-- What compiles is laid out as blocks and names. -/
theorem exists_layout_of_program (h : (program source).value = .ok p) :
    ∃ (l : Layout) (blocks : List Stanza) (trailing : List Token), l.chars = source.toList ∧
      l.tokens = blocks.flatMap Stanza.tokens ++ trailing ∧ (∀ t ∈ trailing, t.isName) ∧
      p = ⟨blocks.map Stanza.directive⟩ := by
  obtain ⟨ts, hscan, hts⟩ := value_program_eq_ok.1 h
  obtain ⟨l, hchars, hleads, rfl⟩ := Token.scan_eq_ok_iff.1 hscan
  obtain ⟨blocks, rest, hpeeled⟩ := Program.exists_peeled (l.tokens ++ [_])
  have hsplit := hpeeled.split
  rw [Program.beforeEnd_append (Token.isEnd_of_leads hleads)] at hsplit
  rw [Program.ofTokens_of_peeled hpeeled, Program.Parsed.mk.injEq] at hts
  exact ⟨l, blocks, rest, hchars, hsplit, Program.obstacle_eq_none_iff.1 hts.2, hts.1.symm⟩

/-- The compiler accepts the texts that can be laid out as blocks with some names behind them, and
the program has the directives of the blocks. -/
theorem value_program_eq_ok_iff (source : String) (p : Program) :
    (program source).value = .ok p ↔
      ∃ (l : Layout) (blocks : List Stanza) (trailing : List Token), l.chars = source.toList ∧
        l.tokens = blocks.flatMap Stanza.tokens ++ trailing ∧
        (∀ t ∈ trailing, t.kind = .directiveName) ∧ p = ⟨blocks.map Stanza.directive⟩ := by
  constructor
  · intro h
    obtain ⟨l, blocks, trailing, hchars, htokens, htrailing, hp⟩ := exists_layout_of_program h
    exact ⟨l, blocks, trailing, hchars, htokens,
      fun t ht => of_decide_eq_true (htrailing t ht), hp⟩
  · intro h
    obtain ⟨l, blocks, trailing, hchars, htokens, htrailing, hp⟩ := h
    rw [hp]
    exact value_program_of_layout hchars htokens fun t ht => decide_eq_true (htrailing t ht)

end Compile

end BuildTool
