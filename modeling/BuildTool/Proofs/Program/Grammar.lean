import BuildTool.Program.Reader
import Mathlib.Data.List.TakeWhile
/-!
# What a sequence of tokens means

The reader takes blocks off the front of a sequence of tokens for as long as it can. Each block adds one
directive, and what is left decides about the error. `Program.ofTokens_of_peeled` says so for every
sequence of tokens, `Program.exists_peeled` that every sequence can be divided in this way.
-/

namespace BuildTool

namespace Token

def isName (t : Token) : Bool :=
  t.kind = .directiveName

def isSemicolon (t : Token) : Bool :=
  t.kind = .semicolon

/-- Parts and semicolons make the body of a block. -/
def isPiece (t : Token) : Bool :=
  t.kind = .commandPart || t.kind = .semicolon

def isEnd (t : Token) : Bool :=
  t.kind = .endOfInput

end Token

namespace Program

/-- The tokens of a block: names, a brace, parts and semicolons, a brace. -/
structure Stanza where
  earlier : List Token
  name : Token
  opener : Token
  body : List Token
  closer : Token
  earlier_isName : ∀ t ∈ earlier, t.isName
  name_isName : name.isName
  opener_kind : opener.kind = .leftBrace
  body_isPiece : ∀ t ∈ body, t.isPiece
  closer_kind : closer.kind = .rightBrace

/-- The command of the tokens before a semicolon. -/
def commandOf (parts : List Token) : Command :=
  ⟨parts.map Token.lexeme⟩

namespace Stanza

def names (b : Stanza) : List Token :=
  b.earlier ++ [b.name]

def tokens (b : Stanza) : List Token :=
  b.names ++ b.opener :: (b.body ++ [b.closer])

/-- The last name names the directive. Semicolons divide the body; what follows the last of them is
dropped. -/
def directive (b : Stanza) : Directive where
  name := b.name.lexeme
  commands := (b.body.splitOnP Token.isSemicolon).dropLast.map commandOf

theorem names_isName (b : Stanza) : ∀ t ∈ b.names, t.isName := by
  intro t ht
  rw [names, List.mem_append, List.mem_singleton] at ht
  rcases ht with ht | rfl
  · exact b.earlier_isName t ht
  · exact b.name_isName

/-- Names, a brace, pieces and a brace are a block. -/
theorem exists_tokens_eq {names body : List Token} {x y : Token} (hnames : ∀ t ∈ names, t.isName)
    (hne : names ≠ []) (hx : x.kind = .leftBrace) (hbody : ∀ t ∈ body, t.isPiece)
    (hy : y.kind = .rightBrace) : ∃ b : Stanza, b.tokens = names ++ x :: (body ++ [y]) := by
  let b : Stanza :=
    { earlier := names.dropLast, name := names.getLast hne, opener := x, body := body, closer := y
      earlier_isName := fun t ht => hnames t (List.dropLast_subset _ ht)
      name_isName := hnames _ (List.getLast_mem hne)
      opener_kind := hx, body_isPiece := hbody, closer_kind := hy }
  refine ⟨b, ?_⟩
  show names.dropLast ++ [names.getLast hne] ++ x :: (body ++ [y]) = _
  rw [List.dropLast_concat_getLast]

end Stanza

/-- The tokens before the first end of input. -/
def beforeEnd (ts : List Token) : List Token :=
  ts.takeWhile fun t => !t.isEnd

/-- The line of the first end of input; without one, the line of the last token. -/
def endLine (ts : List Token) : Nat :=
  match ts.find? Token.isEnd with
  | some t => t.line
  | none => lastLine ts

/-- A sequence of tokens in blocks and a rest that starts with no block. -/
structure Peeled (ts : List Token) (blocks : List Stanza) (rest : List Token) : Prop where
  split : beforeEnd ts = blocks.flatMap Stanza.tokens ++ rest
  maximal : ∀ (b : Stanza) (tail : List Token), rest ≠ b.tokens ++ tail

/-- What stops the reader in tokens that start with no block: the first token that is no name, or, if it
is a brace behind a name, the first token behind it that belongs in no block. -/
def obstacle (ts rest : List Token) : Option ParseError :=
  match rest.dropWhile Token.isName with
  | [] => none
  | x :: after =>
    if x.kind = .leftBrace ∧ rest.takeWhile Token.isName ≠ [] then
      match after.dropWhile Token.isPiece with
      | y :: _ => some ⟨y.line, y.kind, [.commandPart, .semicolon]⟩
      | [] => some ⟨endLine ts, .endOfInput, [.commandPart, .semicolon]⟩
    else some ⟨x.line, x.kind, [.directiveName]⟩

theorem not_of_dropWhile_eq_cons {p : Token → Bool} {x : Token} {xs ys : List Token}
    (h : xs.dropWhile p = x :: ys) : p x = false := by
  have hhead := List.head?_dropWhile_not p xs
  rw [h] at hhead
  exact hhead

/-! ## Runs of the reader -/

namespace Reader

variable {n : Nat} {r next : Reader} {closed : Array Directive} {t : Token} {ts us : List Token}

theorem run_of_on (h : r.read t = .on next) : run n r (t :: ts) = run n next ts := by
  rw [run, h]

theorem run_of_done {error : Option ParseError} (h : r.read t = .done error) :
    run n r (t :: ts) = r.result error := by
  rw [run, h]

theorem run_names {name : Option String} {names : List Token} (h : ∀ t ∈ names, t.isName) :
    run n ⟨.seeking name, closed⟩ (names ++ us) =
      run n ⟨.seeking ((names.getLast?.map Token.lexeme).or name), closed⟩ us := by
  induction names generalizing name with
  | nil => rfl
  | cons t names ih =>
    have ht : t.kind = .directiveName := of_decide_eq_true (h t (List.mem_cons_self ..))
    have hread : read ⟨.seeking name, closed⟩ t = .on ⟨.seeking (some t.lexeme), closed⟩ := by
      simp [read, ht]
    rw [List.cons_append, run_of_on hread, ih fun u hu => h u (List.mem_cons_of_mem _ hu),
      List.getLast?_cons]
    cases names.getLast? <;> rfl

/-- In a block each semicolon finishes a command. The parts held back, and those behind the last
semicolon, wait for one. -/
theorem run_body (name : String) (commands : Array Command) (held us : List Token)
    {body : List Token} (h : ∀ t ∈ body, t.isPiece) :
    ∃ parts, run n ⟨.collecting name commands (held.map Token.lexeme).toArray, closed⟩ (body ++ us) =
      run n ⟨.collecting name (commands ++ ((List.splitOnPPrepend Token.isSemicolon body
        held.reverse).dropLast.map commandOf).toArray) parts, closed⟩ us := by
  -- The parts held back are the front of the first command that the rest of the body finishes.
  induction body generalizing held commands with
  | nil => exact ⟨(held.map Token.lexeme).toArray, by simp⟩
  | cons t body ih =>
    have hbody : ∀ u ∈ body, u.isPiece := fun u hu => h u (List.mem_cons_of_mem _ hu)
    have ht : t.kind = .commandPart ∨ t.kind = .semicolon := by
      simpa [Token.isPiece] using h t (List.mem_cons_self ..)
    rw [List.cons_append]
    rcases ht with ht | ht
    · have hread : read ⟨.collecting name commands (held.map Token.lexeme).toArray, closed⟩ t =
          .on ⟨.collecting name commands ((held ++ [t]).map Token.lexeme).toArray, closed⟩ := by
        simp [read, ht]
      have hpart : t.isSemicolon = false := by simp [Token.isSemicolon, ht]
      rw [run_of_on hread, List.splitOnPPrepend_cons_neg hpart]
      obtain ⟨parts, hrun⟩ := ih commands (held ++ [t]) hbody
      rw [List.reverse_append] at hrun
      exact ⟨parts, hrun⟩
    · have hread : read ⟨.collecting name commands (held.map Token.lexeme).toArray, closed⟩ t =
          .on ⟨.collecting name (commands.push (commandOf held)) #[], closed⟩ := by
        simp [read, ht, commandOf]
      have hsemicolon : t.isSemicolon = true := by simp [Token.isSemicolon, ht]
      rw [run_of_on hread, List.splitOnPPrepend_cons_pos hsemicolon]
      obtain ⟨parts, hrun⟩ := ih (commands.push (commandOf held)) [] hbody
      refine ⟨parts, ?_⟩
      rw [List.dropLast_cons_of_ne_nil (List.splitOnP_ne_nil Token.isSemicolon body), List.reverse_reverse]
      simpa using hrun

/-- A block adds its directive. -/
theorem run_stanza {name : Option String} (b : Stanza) :
    run n ⟨.seeking name, closed⟩ (b.tokens ++ us) =
      run n ⟨.seeking none, closed.push b.directive⟩ us := by
  have hopen : read ⟨.seeking (some b.name.lexeme), closed⟩ b.opener =
      .on ⟨.collecting b.name.lexeme #[] #[], closed⟩ := by
    simp [read, b.opener_kind]
  obtain ⟨parts, hbody⟩ := run_body b.name.lexeme #[] [] (b.closer :: us) b.body_isPiece
  have hclose : read ⟨.collecting b.name.lexeme b.directive.commands.toArray parts, closed⟩
      b.closer = .on ⟨.seeking none, closed.push b.directive⟩ := by
    simp [read, b.closer_kind, Stanza.directive]
  calc
    run n ⟨.seeking name, closed⟩ (b.tokens ++ us) =
        run n ⟨.seeking name, closed⟩ (b.names ++ b.opener :: (b.body ++ b.closer :: us)) := by
      simp [Stanza.tokens]
    _ = run n ⟨.seeking (some b.name.lexeme), closed⟩ (b.opener :: (b.body ++ b.closer :: us)) := by
      rw [run_names b.names_isName, Stanza.names, List.getLast?_concat]
      rfl
    _ = run n ⟨.collecting b.name.lexeme #[] #[], closed⟩ (b.body ++ b.closer :: us) :=
      run_of_on hopen
    _ = run n ⟨.collecting b.name.lexeme b.directive.commands.toArray parts, closed⟩
        (b.closer :: us) := by
      simpa [Stanza.directive] using hbody
    _ = run n ⟨.seeking none, closed.push b.directive⟩ us := run_of_on hclose

theorem run_stanzas (blocks : List Stanza) :
    run n ⟨.seeking none, closed⟩ (blocks.flatMap Stanza.tokens ++ us) =
      run n ⟨.seeking none, closed ++ (blocks.map Stanza.directive).toArray⟩ us := by
  induction blocks generalizing closed with
  | nil => simp
  | cons b blocks ih =>
    rw [List.flatMap_cons, List.append_assoc, run_stanza, ih]
    simp

theorem read_seeking_of_ne {name : Option String} (hname : t.isName = false)
    (hend : t.isEnd = false) (hbrace : t.kind = .leftBrace → name = none) :
    read ⟨.seeking name, closed⟩ t = .done (some ⟨t.line, t.kind, [.directiveName]⟩) := by
  simp only [Token.isName, Token.isEnd, decide_eq_false_iff_not] at hname hend
  cases name <;> cases hk : t.kind <;> simp_all [read]

theorem read_collecting_of_ne {name : String} {commands : Array Command} {parts : Array String}
    (hpiece : t.isPiece = false) (hclose : t.kind ≠ .rightBrace) :
    read ⟨.collecting name commands parts, closed⟩ t =
      .done (some ⟨t.line, t.kind, [.commandPart, .semicolon]⟩) := by
  simp only [Token.isPiece, Bool.or_eq_false_iff, decide_eq_false_iff_not] at hpiece
  cases hk : t.kind <;> simp_all [read]

/-! ## The end of the tokens -/

/-- The end of the tokens is an end of input or nothing at all. -/
theorem tail_cases (ts : List Token) :
    (ts.dropWhile (fun t => !t.isEnd) = [] ∧ endLine ts = lastLine ts) ∨
    (∃ e es, ts.dropWhile (fun t => !t.isEnd) = e :: es ∧ e.kind = .endOfInput ∧
      endLine ts = e.line) := by
  have hfind : ts.find? Token.isEnd = (ts.dropWhile fun t => !t.isEnd).head? :=
    List.find?_eq_head?_dropWhile_not Token.isEnd ts
  cases htail : ts.dropWhile fun t => !t.isEnd with
  | nil =>
    rw [htail] at hfind
    exact .inl ⟨rfl, by simp [endLine, hfind]⟩
  | cons e es =>
    rw [htail] at hfind
    have hkind : e.isEnd = true := List.find?_some hfind
    exact .inr ⟨e, es, rfl, of_decide_eq_true hkind, by simp [endLine, hfind]⟩

theorem run_tail_seeking {name : Option String} :
    run (lastLine ts) ⟨.seeking name, closed⟩ (ts.dropWhile fun t => !t.isEnd) =
      ⟨⟨closed.toList⟩, none⟩ := by
  rcases tail_cases ts with ⟨htail, -⟩ | ⟨e, es, htail, hkind, -⟩
  · rw [htail]
    rfl
  · have hread : read ⟨.seeking name, closed⟩ e = .done none := by simp [read, hkind]
    rw [htail, run_of_done hread]
    rfl

theorem run_tail_collecting {name : String} {commands : Array Command} {parts : Array String} :
    run (lastLine ts) ⟨.collecting name commands parts, closed⟩
        (ts.dropWhile fun t => !t.isEnd) =
      ⟨⟨closed.toList⟩, some ⟨endLine ts, .endOfInput, [.commandPart, .semicolon]⟩⟩ := by
  rcases tail_cases ts with ⟨htail, hline⟩ | ⟨e, es, htail, hkind, hline⟩
  · rw [htail, hline]
    rfl
  · have hread : read ⟨.collecting name commands parts, closed⟩ e =
        .done (some ⟨e.line, .endOfInput, [.commandPart, .semicolon]⟩) := by
      simp [read, hkind]
    rw [htail, hline, run_of_done hread]
    rfl

/-- A block that is not closed stops the reader where its closing brace is due. -/
theorem run_block_of_maximal {names after : List Token} {x : Token}
    (hnames : ∀ t ∈ names, t.isName) (hne : names ≠ []) (hx : x.kind = .leftBrace)
    (hmaximal : ∀ (b : Stanza) (tail : List Token), names ++ x :: after ≠ b.tokens ++ tail) :
    run (lastLine ts) ⟨.seeking (some (names.getLast hne).lexeme), closed⟩
        (x :: (after ++ ts.dropWhile fun t => !t.isEnd)) =
      ⟨⟨closed.toList⟩,
        match after.dropWhile Token.isPiece with
        | y :: _ => some ⟨y.line, y.kind, [.commandPart, .semicolon]⟩
        | [] => some ⟨endLine ts, .endOfInput, [.commandPart, .semicolon]⟩⟩ := by
  have hopen : read ⟨.seeking (some (names.getLast hne).lexeme), closed⟩ x =
      .on ⟨.collecting (names.getLast hne).lexeme #[] #[], closed⟩ := by
    simp [read, hx]
  have hbody : ∀ t ∈ after.takeWhile Token.isPiece, t.isPiece :=
    fun t ht => List.mem_takeWhile_imp ht
  have hsplit : after.takeWhile Token.isPiece ++ after.dropWhile Token.isPiece = after :=
    List.takeWhile_append_dropWhile
  obtain ⟨parts, hrun⟩ := run_body (names.getLast hne).lexeme #[] []
    (after.dropWhile Token.isPiece ++ ts.dropWhile fun t => !t.isEnd) hbody
  rw [← List.append_assoc, hsplit] at hrun
  rw [run_of_on hopen]
  apply hrun.trans
  cases hafter : after.dropWhile Token.isPiece with
  | nil => exact run_tail_collecting
  | cons y more =>
    have hpiece : y.isPiece = false := not_of_dropWhile_eq_cons hafter
    have hclose : y.kind ≠ .rightBrace := by
      intro hy
      obtain ⟨b, htokens⟩ := Stanza.exists_tokens_eq hnames hne hx hbody hy
      apply hmaximal b more
      rw [hafter] at hsplit
      rw [htokens, List.append_assoc, List.cons_append, List.append_assoc, List.singleton_append,
        hsplit]
    rw [List.cons_append, run_of_done (read_collecting_of_ne hpiece hclose)]
    rfl

/-- From between two blocks, tokens that start with no block add no directive. -/
theorem run_rest {rest : List Token} (hrest : ∀ t ∈ rest, t.isEnd = false)
    (hmaximal : ∀ (b : Stanza) (tail : List Token), rest ≠ b.tokens ++ tail) :
    run (lastLine ts) ⟨.seeking none, closed⟩ (rest ++ ts.dropWhile fun t => !t.isEnd) =
      ⟨⟨closed.toList⟩, obstacle ts rest⟩ := by
  have hnames : ∀ t ∈ rest.takeWhile Token.isName, t.isName :=
    fun t ht => List.mem_takeWhile_imp ht
  have hsplit : rest.takeWhile Token.isName ++ rest.dropWhile Token.isName = rest :=
    List.takeWhile_append_dropWhile
  have hrun : ∀ us, run (lastLine ts) ⟨.seeking none, closed⟩ (rest ++ us) =
      run (lastLine ts) ⟨.seeking ((rest.takeWhile Token.isName).getLast?.map Token.lexeme), closed⟩
        (rest.dropWhile Token.isName ++ us) := by
    intro us
    rw [← List.takeWhile_append_dropWhile (p := Token.isName) (l := rest), List.append_assoc,
      run_names hnames, Option.or_none, hsplit]
  rw [hrun, obstacle]
  cases hafter : rest.dropWhile Token.isName with
  | nil => exact run_tail_seeking
  | cons x after =>
    rw [hafter] at hsplit
    have hx : x.isName = false := not_of_dropWhile_eq_cons hafter
    have hxend : x.isEnd = false := hrest x (by rw [← hsplit]; simp)
    rw [List.cons_append]
    dsimp only
    split
    · rename_i hbrace
      obtain ⟨hkind, hne⟩ := hbrace
      rw [List.getLast?_eq_some_getLast hne]
      apply run_block_of_maximal hnames hne hkind
      rw [hsplit]
      exact hmaximal
    · rename_i hbrace
      have hlast : x.kind = .leftBrace →
          (rest.takeWhile Token.isName).getLast?.map Token.lexeme = none := by
        intro hkind
        have hnil : rest.takeWhile Token.isName = [] := by
          by_contra hne
          exact hbrace ⟨hkind, hne⟩
        rw [hnil]
        rfl
      rw [run_of_done (read_seeking_of_ne hx hxend hlast)]
      rfl

end Reader

/-! ## The meaning of a sequence of tokens -/

theorem exists_blocks (xs : List Token) :
    ∃ (blocks : List Stanza) (rest : List Token), xs = blocks.flatMap Stanza.tokens ++ rest ∧
      ∀ (b : Stanza) (tail : List Token), rest ≠ b.tokens ++ tail := by
  induction hn : xs.length using Nat.strong_induction_on generalizing xs with
  | _ n ih =>
    by_cases hblock : ∃ (b : Stanza) (tail : List Token), xs = b.tokens ++ tail
    · obtain ⟨b, tail, rfl⟩ := hblock
      have hshorter : tail.length < n := by
        rw [← hn, Stanza.tokens]
        simp only [List.length_append, List.length_cons]
        omega
      obtain ⟨blocks, rest, htail, hmaximal⟩ := ih tail.length hshorter tail rfl
      refine ⟨b :: blocks, rest, ?_, hmaximal⟩
      rw [List.flatMap_cons, List.append_assoc, ← htail]
    · exact ⟨[], xs, rfl, fun b tail htail => hblock ⟨b, tail, htail⟩⟩

theorem exists_peeled (ts : List Token) : ∃ blocks rest, Peeled ts blocks rest := by
  obtain ⟨blocks, rest, hsplit, hmaximal⟩ := exists_blocks (beforeEnd ts)
  exact ⟨blocks, rest, hsplit, hmaximal⟩

theorem ofTokens_of_peeled {ts : List Token} {blocks : List Stanza} {rest : List Token}
    (h : Peeled ts blocks rest) :
    ofTokens ts = ⟨⟨blocks.map Stanza.directive⟩, obstacle ts rest⟩ := by
  have hrest : ∀ t ∈ rest, t.isEnd = false := by
    intro t ht
    have hmem : t ∈ beforeEnd ts := by
      rw [h.split]
      exact List.mem_append_right _ ht
    simpa using List.mem_takeWhile_imp hmem
  have hts : ts = blocks.flatMap Stanza.tokens ++ (rest ++ ts.dropWhile fun t => !t.isEnd) := by
    rw [← List.append_assoc, ← h.split]
    exact List.takeWhile_append_dropWhile.symm
  calc
    ofTokens ts = Reader.run (lastLine ts) .start ts := rfl
    _ = Reader.run (lastLine ts) ⟨.seeking none, #[] ++ (blocks.map Stanza.directive).toArray⟩
        (rest ++ ts.dropWhile fun t => !t.isEnd) := by
      exact (congrArg (Reader.run (lastLine ts) .start) hts).trans (Reader.run_stanzas blocks)
    _ = ⟨⟨blocks.map Stanza.directive⟩, obstacle ts rest⟩ := by
      rw [Reader.run_rest hrest h.maximal]
      simp

theorem obstacle_eq_none_iff {ts rest : List Token} :
    obstacle ts rest = none ↔ ∀ t ∈ rest, t.isName := by
  rw [← List.dropWhile_eq_nil_iff, obstacle]
  cases rest.dropWhile Token.isName with
  | nil => simp
  | cons x after =>
    dsimp only
    split
    · split <;> simp
    · simp

/-- Every sequence of tokens, whether a scanner makes it or not, can be divided into blocks and a rest
that starts with no block. However that is done, each block gives one directive, in order, and the rest
gives the error. There is none if and only if the rest holds names alone. -/
theorem ofTokens_eq (ts : List Token) :
    (∃ blocks rest, Peeled ts blocks rest) ∧
    ∀ blocks rest, Peeled ts blocks rest →
      ofTokens ts = ⟨⟨blocks.map Stanza.directive⟩, obstacle ts rest⟩ ∧
      ((ofTokens ts).error = none ↔ ∀ t ∈ rest, t.kind = .directiveName) := by
  refine ⟨exists_peeled ts, fun blocks rest h => ?_⟩
  have hmeaning := ofTokens_of_peeled h
  have hnone : obstacle ts rest = none ↔ ∀ t ∈ rest, t.isName := obstacle_eq_none_iff
  refine ⟨hmeaning, ?_⟩
  rw [hmeaning]
  simpa [Token.isName] using hnone

end Program

end BuildTool
