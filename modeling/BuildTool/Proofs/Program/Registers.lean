import BuildTool.Proofs.Program.Extension
import Mathlib.Data.List.DropRight
import Mathlib.Logic.Relation
/-!
# Reading in place

A reader that works in place has a cursor into the tokens and keeps apart what it is doing, the directive
that is open and the command whose parts it collects. Nothing ties them together: a command or a
directive that ends while no directive is open is lost (`Registers.flushCommand`,
`Registers.closeDirective`).

It never comes to that. The registers are always those of a reader whose state says what belongs together
(`Registers.ofReader`, `Registers.Stands`), and what they hold follows from the tokens taken so far
(`Reader.Recalls`). Main result: `Registers.reached_keeps`.
-/

namespace BuildTool.Program

/-! ## What a reader knows of the tokens it has taken -/

/-- The tokens behind the last one of a kind. -/
def behindLast (k : Token.Kind) (ts : List Token) : List Token :=
  ts.rtakeWhile (·.kind ≠ k)

theorem behindLast_concat_of_eq {k : Token.Kind} {t : Token} (h : t.kind = k) (ts : List Token) :
    behindLast k (ts ++ [t]) = [] := by
  simp [behindLast, h]

theorem behindLast_concat_of_ne {k : Token.Kind} {t : Token} (h : t.kind ≠ k) (ts : List Token) :
    behindLast k (ts ++ [t]) = behindLast k ts ++ [t] := by
  simp [behindLast, h]

/-- Every closing brace closed a directive. Between blocks there is a name if one came behind the last
of them, and in a block there is a command for each semicolon. -/
structure Reader.Recalls (r : Reader) (taken : List Token) : Prop where
  closed : r.closed.size = taken.countP (·.kind = .rightBrace)
  name : ∀ name, r.state = .seeking name →
    (name.isSome ↔ ∃ t ∈ behindLast .rightBrace taken, t.kind = .directiveName)
  commands : ∀ name commands parts, r.state = .collecting name commands parts →
    commands.size = (behindLast .leftBrace taken).countP (·.kind = .semicolon)

namespace Reader

theorem recalls_start : start.Recalls [] where
  closed := rfl
  name name h := by
    cases h
    simp [behindLast]
  commands _ _ _ h := by cases h

theorem Recalls.read {r next : Reader} {taken : List Token} {t : Token} (h : r.Recalls taken)
    (hread : r.read t = .on next) : next.Recalls (taken ++ [t]) := by
  obtain ⟨state, closed⟩ := r
  obtain ⟨kind, lexeme, line⟩ := t
  have hclosed := h.closed
  cases state with
  | seeking name =>
    cases kind with
    | directiveName =>
      obtain rfl : (⟨.seeking (some lexeme), closed⟩ : Reader) = next := by
        cases name <;> exact Verdict.on.inj hread
      refine ⟨by simpa using hclosed, fun name hname => ?_, nofun⟩
      cases hname
      rw [behindLast_concat_of_ne (by simp)]
      simp
    | leftBrace =>
      cases name with
      | none => cases hread
      | some name =>
        cases hread
        refine ⟨by simpa using hclosed, nofun, fun _ _ _ hstate => ?_⟩
        cases hstate
        rw [behindLast_concat_of_eq (k := .leftBrace) rfl]
        rfl
    | endOfInput | commandPart | leftParen | rightParen | rightBrace | comma | semicolon =>
      cases name <;> cases hread
  | collecting name commands parts =>
    have hcommands := h.commands name commands parts rfl
    cases kind with
    | commandPart =>
      cases hread
      refine ⟨by simpa using hclosed, nofun, fun _ _ _ hstate => ?_⟩
      cases hstate
      rw [behindLast_concat_of_ne (by simp)]
      simpa using hcommands
    | semicolon =>
      cases hread
      refine ⟨by simpa using hclosed, nofun, fun _ _ _ hstate => ?_⟩
      cases hstate
      rw [behindLast_concat_of_ne (by simp)]
      simpa using hcommands
    | rightBrace =>
      cases hread
      refine ⟨by simpa using hclosed, fun name hname => ?_, nofun⟩
      cases hname
      rw [behindLast_concat_of_eq (k := .rightBrace) rfl]
      simp
    | endOfInput | directiveName | leftParen | rightParen | leftBrace | comma => cases hread

end Reader

/-! ## Registers -/

inductive Registers.Mode where
  | seeking
  | collecting
deriving DecidableEq

structure Registers where
  mode : Registers.Mode
  /-- How many tokens were taken. -/
  pos : Nat
  closed : Array Directive
  /-- The directive that was named last and is not closed. -/
  current : Option Directive
  /-- The command whose parts are collected. -/
  pending : Command

namespace Registers

def initial : Registers :=
  ⟨.seeking, 0, #[], none, ⟨[]⟩⟩

/-- The pending command ends. Without an open directive it is lost. -/
def flushCommand (m : Registers) : Registers :=
  { m with
    pending := ⟨[]⟩
    current := m.current.map fun d => { d with commands := d.commands ++ [m.pending] } }

/-- The open directive ends. Without one, nothing is closed. -/
def closeDirective (m : Registers) : Registers :=
  { m with
    mode := .seeking
    pending := ⟨[]⟩
    current := none
    closed := match m.current with
      | some d => m.closed.push d
      | none => m.closed }

inductive Outcome where
  | on (next : Registers)
  | done (last : Registers) (error : Option ParseError)

/-- Deals with a token that was taken between blocks. -/
def seek (m : Registers) (t : Token) : Outcome :=
  match t.kind with
  | .endOfInput => .done m none
  | .directiveName => .on { m with current := some ⟨t.lexeme, []⟩, pending := ⟨[]⟩ }
  | .leftBrace =>
    if m.current.isSome then .on { m with mode := .collecting }
    else .done m (some ⟨t.line, .leftBrace, [.directiveName]⟩)
  | found => .done m (some ⟨t.line, found, [.directiveName]⟩)

/-- Deals with a token that was taken in a block. -/
def collect (m : Registers) (t : Token) : Outcome :=
  match t.kind with
  | .commandPart => .on { m with pending := ⟨m.pending.parts ++ [t.lexeme]⟩ }
  | .semicolon => .on m.flushCommand
  | .rightBrace => .on m.closeDirective
  | found => .done m (some ⟨t.line, found, [.commandPart, .semicolon]⟩)

/-- Takes a token. In a block, tokens that run out are an end of input on the line of the last one. -/
def step (ts : List Token) (m : Registers) : Outcome :=
  match m.mode, ts[m.pos]? with
  | .seeking, some t => seek { m with pos := m.pos + 1 } t
  | .seeking, none => .done m none
  | .collecting, some t => collect { m with pos := m.pos + 1 } t
  | .collecting, none => collect m (.endOfInput (lastLine ts))

/-- The states of the reading of some tokens. -/
def Reached (ts : List Token) : Registers → Prop :=
  Relation.ReflTransGen (fun m n => m.step ts = .on n) initial

theorem Reached.next {ts : List Token} {m n : Registers} (h : Reached ts m)
    (hstep : m.step ts = .on n) : Reached ts n :=
  Relation.ReflTransGen.tail h hstep

/-! ## Registers of a reader -/

/-- The registers of a reader that has taken so many tokens. -/
def ofReader (n : Nat) (r : Reader) : Registers :=
  match r.state with
  | .seeking name => ⟨.seeking, n, r.closed, name.map fun s => ⟨s, []⟩, ⟨[]⟩⟩
  | .collecting name commands parts =>
    ⟨.collecting, n, r.closed, some ⟨name, commands.toList⟩, ⟨parts.toList⟩⟩

section

variable {ts : List Token} {n : Nat} {r next : Reader} {t : Token}

@[simp] theorem ofReader_pos (n : Nat) (r : Reader) : (ofReader n r).pos = n := by
  unfold ofReader
  split <;> rfl

@[simp] theorem ofReader_closed (n : Nat) (r : Reader) : (ofReader n r).closed = r.closed := by
  unfold ofReader
  split <;> rfl

theorem step_ofReader_of_on (ht : ts[n]? = some t) (hread : r.read t = .on next) :
    (ofReader n r).step ts = .on (ofReader (n + 1) next) := by
  obtain ⟨state, closed⟩ := r
  obtain ⟨kind, lexeme, line⟩ := t
  cases state with
  | seeking name =>
    simp only [ofReader, step, ht]
    cases name <;> cases kind <;> cases hread <;> rfl
  | collecting name commands parts =>
    simp only [ofReader, step, ht]
    cases kind with
    | commandPart | semicolon =>
      cases hread
      simp [collect, flushCommand]
    | rightBrace =>
      cases hread
      rfl
    | endOfInput | directiveName | leftParen | rightParen | leftBrace | comma => cases hread

theorem step_ofReader_of_done {error : Option ParseError} (ht : ts[n]? = some t)
    (hread : r.read t = .done error) :
    (ofReader n r).step ts = .done (ofReader (n + 1) r) error := by
  obtain ⟨state, closed⟩ := r
  obtain ⟨kind, lexeme, line⟩ := t
  cases state with
  | seeking name =>
    simp only [ofReader, step, ht]
    cases name <;> cases kind <;> cases hread <;> rfl
  | collecting name commands parts =>
    simp only [ofReader, step, ht]
    cases kind <;> cases hread <;> rfl

theorem step_ofReader_of_end (ht : ts[n]? = none) :
    ∃ error, (ofReader n r).step ts = .done (ofReader n r) error ∧
      r.cutShort (lastLine ts) = r.result error := by
  obtain ⟨state, closed⟩ := r
  cases state with
  | seeking name => exact ⟨none, by simp [ofReader, step, ht], rfl⟩
  | collecting name commands parts =>
    exact ⟨_, by simp only [ofReader, step, ht]; rfl, rfl⟩

end

/-! ## All states of a run -/

/-- The registers are those of a reader that has taken the tokens in front of the cursor: whatever tokens
followed them, it would go on from there. -/
structure Stands (ts : List Token) (m : Registers) (r : Reader) : Prop where
  eq_ofReader : m = ofReader m.pos r
  pos_le : m.pos ≤ ts.length
  run : ∀ n us, Reader.run n .start (ts.take m.pos ++ us) = Reader.run n r us
  recalls : r.Recalls (ts.take m.pos)

section

variable {ts : List Token} {m n : Registers} {r : Reader}

theorem stands_initial (ts : List Token) : Stands ts initial .start where
  eq_ofReader := rfl
  pos_le := Nat.zero_le _
  run _ _ := rfl
  recalls := Reader.recalls_start

/-- Registers that stand for a reader take one more token as it does. They are done when it is, or when
there are no more tokens, with what all tokens come to. -/
theorem Stands.step_cases (h : Stands ts m r) :
    (∃ t next, ts[m.pos]? = some t ∧ r.read t = .on next ∧
      m.step ts = .on (ofReader (m.pos + 1) next) ∧ Stands ts (ofReader (m.pos + 1) next) next) ∨
    (∃ error, m.step ts = .done { m with pos := min (m.pos + 1) ts.length } error ∧
      ofTokens ts = ⟨⟨m.closed.toList⟩, error⟩) := by
  have hclosed : m.closed = r.closed := by
    rw [h.eq_ofReader, ofReader_closed]
  have hpos : ∀ k, ofReader k r = { m with pos := k } := by
    intro k
    rw [h.eq_ofReader]
    unfold ofReader
    split <;> rfl
  have hwhole : ofTokens ts = Reader.run (lastLine ts) r (ts.drop m.pos) := by
    rw [← h.run, List.take_append_drop]
    rfl
  cases ht : ts[m.pos]? with
  | none =>
    right
    have hlength : m.pos = ts.length := Nat.le_antisymm h.pos_le (List.getElem?_eq_none_iff.1 ht)
    obtain ⟨error, hstep, hcut⟩ := step_ofReader_of_end (r := r) ht
    have hmin : min (m.pos + 1) ts.length = m.pos := by omega
    refine ⟨error, ?_, ?_⟩
    · rw [hmin, ← hpos, ← hstep, ← h.eq_ofReader]
    · rw [hwhole, hlength, List.drop_length, Reader.run, hcut, hclosed]
      rfl
  | some t =>
    obtain ⟨hlt, hget⟩ := List.getElem?_eq_some_iff.1 ht
    have hdrop : ts.drop m.pos = t :: ts.drop (m.pos + 1) := by
      rw [List.drop_eq_getElem_cons hlt, hget]
    have htake : ts.take (m.pos + 1) = ts.take m.pos ++ [t] := by
      rw [List.take_add_one, ht]
      rfl
    cases hread : r.read t with
    | on next =>
      refine .inl ⟨t, next, rfl, hread, ?_, ?_⟩
      · rw [← step_ofReader_of_on ht hread, ← h.eq_ofReader]
      · refine ⟨by simp, by rw [ofReader_pos]; exact hlt, fun k us => ?_, ?_⟩
        · rw [ofReader_pos, htake, List.append_assoc, h.run, List.singleton_append,
            Reader.run_of_on hread]
        · rw [ofReader_pos, htake]
          exact h.recalls.read hread
    | done error =>
      right
      have hmin : min (m.pos + 1) ts.length = m.pos + 1 := by omega
      refine ⟨error, ?_, ?_⟩
      · rw [hmin, ← hpos, ← step_ofReader_of_done ht hread, ← h.eq_ofReader]
      · rw [hwhole, hdrop, Reader.run_of_done hread, hclosed]
        rfl

theorem exists_stands_of_reached (h : Reached ts m) : ∃ r, Stands ts m r := by
  induction h with
  | refl => exact ⟨.start, stands_initial ts⟩
  | tail _ hstep ih =>
    obtain ⟨r, hr⟩ := ih
    rcases hr.step_cases with ⟨t, next, -, -, hon, hnext⟩ | ⟨error, hdone, -⟩
    · exact ⟨next, Outcome.on.inj (hon.symm.trans hstep) ▸ hnext⟩
    · rw [hdone] at hstep
      cases hstep

/-- From every state on, a run comes to its end. -/
theorem Stands.exists_done (h : Stands ts m r) :
    ∃ n last error, Relation.ReflTransGen (fun m n => m.step ts = .on n) m n ∧
      n.step ts = .done last error := by
  induction hd : ts.length - m.pos using Nat.strong_induction_on generalizing m r with
  | _ d ih =>
    rcases h.step_cases with ⟨t, next, -, -, hon, hnext⟩ | ⟨error, hdone, -⟩
    · have hle := hnext.pos_le
      rw [ofReader_pos] at hle
      obtain ⟨n, last, error, hreach, hdone⟩ := ih _ (by rw [ofReader_pos]; omega) hnext rfl
      exact ⟨n, last, error, .head hon hreach, hdone⟩
    · exact ⟨m, _, error, .refl, hdone⟩

end

/-! ## What holds in every state -/

/-- What the registers hold in a state of the reading of some tokens. -/
structure Keeps (ts : List Token) (m : Registers) : Prop where
  exists_current : m.mode = .collecting → ∃ d, m.current = some d
  /-- A semicolon in a block adds one command to the open directive. -/
  semicolon : m.mode = .collecting → ∀ t, ts[m.pos]? = some t → t.kind = .semicolon →
    ∃ d, m.current = some d ∧ m.step ts = .on { m with
      pos := m.pos + 1
      current := some { d with commands := d.commands ++ [m.pending] }
      pending := ⟨[]⟩ }
  /-- A closing brace in a block adds one directive to the program. -/
  rightBrace : m.mode = .collecting → ∀ t, ts[m.pos]? = some t → t.kind = .rightBrace →
    ∃ d, m.current = some d ∧
      m.step ts = .on ⟨.seeking, m.pos + 1, m.closed.push d, none, ⟨[]⟩⟩
  /-- A block is entered with nothing collected. -/
  entry : m.mode = .seeking → ∀ n, m.step ts = .on n → n.mode = .collecting →
    n.pending = ⟨[]⟩ ∧ ∃ name, n.current = some ⟨name, []⟩
  pending_eq : m.mode = .seeking → m.pending = ⟨[]⟩
  current_iff : m.mode = .seeking →
    (m.current.isSome ↔
      ∃ t ∈ behindLast .rightBrace (ts.take m.pos), t.kind = .directiveName)
  closed_size : m.closed.size = (ts.take m.pos).countP (·.kind = .rightBrace)
  commands_length : ∀ d, m.mode = .collecting → m.current = some d →
    d.commands.length = (behindLast .leftBrace (ts.take m.pos)).countP (·.kind = .semicolon)
  pos_le : m.pos ≤ ts.length
  /-- The cursor moves on by one with each token. -/
  pos_eq : ∀ n, m.step ts = .on n → n.pos = m.pos + 1 ∧ m.pos < ts.length
  /-- The last step takes a token if there is one and changes nothing else. -/
  done : ∀ last error, m.step ts = .done last error →
    last = { m with pos := min (m.pos + 1) ts.length } ∧
      ofTokens ts = ⟨⟨last.closed.toList⟩, error⟩
  reader : ∃ r, m = ofReader m.pos r ∧
    ∀ n us, Reader.run n .start (ts.take m.pos ++ us) = Reader.run n r us

section

variable {ts : List Token} {m : Registers} {r : Reader}

theorem Stands.of_seeking (h : Stands ts m r) (hm : m.mode = .seeking) :
    ∃ name, r.state = .seeking name ∧ m.current = name.map (fun s => ⟨s, []⟩) ∧
      m.pending = ⟨[]⟩ := by
  have heq := h.eq_ofReader
  unfold ofReader at heq
  split at heq
  · rename_i name hstate
    exact ⟨name, hstate, by rw [heq], by rw [heq]⟩
  · rw [heq] at hm
    cases hm

theorem Stands.of_collecting (h : Stands ts m r) (hm : m.mode = .collecting) :
    ∃ name commands parts, r.state = .collecting name commands parts ∧
      m.current = some ⟨name, commands.toList⟩ := by
  have heq := h.eq_ofReader
  unfold ofReader at heq
  split at heq
  · rw [heq] at hm
    cases hm
  · rename_i name commands parts hstate
    exact ⟨name, commands, parts, hstate, by rw [heq]⟩

/-- A block is entered by its brace alone. -/
theorem current_of_entry {n : Registers} (hm : m.mode = .seeking) (hstep : m.step ts = .on n)
    (hn : n.mode = .collecting) : m.current.isSome ∧ n.current = m.current ∧
      n.pending = m.pending := by
  cases ht : ts[m.pos]? with
  | none => simp [step, hm, ht] at hstep
  | some t =>
    simp only [step, hm, ht, seek] at hstep
    split at hstep
    · cases hstep
    · cases hstep
      cases hn
    · split at hstep
      · rename_i hcurrent
        cases hstep
        exact ⟨hcurrent, rfl, rfl⟩
      · cases hstep
    · cases hstep

theorem Stands.keeps (h : Stands ts m r) : Keeps ts m where
  exists_current hm := by
    obtain ⟨name, commands, parts, -, hcurrent⟩ := h.of_collecting hm
    exact ⟨_, hcurrent⟩
  semicolon hm t ht hkind := by
    obtain ⟨name, commands, parts, -, hcurrent⟩ := h.of_collecting hm
    exact ⟨_, hcurrent, by simp [step, hm, ht, collect, hkind, flushCommand, hcurrent]⟩
  rightBrace hm t ht hkind := by
    obtain ⟨name, commands, parts, -, hcurrent⟩ := h.of_collecting hm
    exact ⟨_, hcurrent, by simp [step, hm, ht, collect, hkind, closeDirective, hcurrent]⟩
  entry hm n hstep hn := by
    obtain ⟨name, -, hname, hpending⟩ := h.of_seeking hm
    obtain ⟨hsome, hcurrent, hkept⟩ := current_of_entry hm hstep hn
    rw [hname, Option.isSome_map] at hsome
    obtain ⟨s, rfl⟩ := Option.isSome_iff_exists.1 hsome
    exact ⟨hkept.trans hpending, s, hcurrent.trans hname⟩
  pending_eq hm := by
    obtain ⟨name, -, -, hpending⟩ := h.of_seeking hm
    exact hpending
  current_iff hm := by
    obtain ⟨name, hstate, hname, -⟩ := h.of_seeking hm
    rw [hname, Option.isSome_map]
    exact h.recalls.name name hstate
  closed_size := by
    rw [← h.recalls.closed, ← ofReader_closed m.pos r, ← h.eq_ofReader]
  commands_length d hm hd := by
    obtain ⟨name, commands, parts, hstate, hcurrent⟩ := h.of_collecting hm
    obtain rfl := Option.some.inj (hcurrent.symm.trans hd)
    rw [← h.recalls.commands name commands parts hstate]
    exact Array.length_toList
  pos_le := h.pos_le
  pos_eq n hstep := by
    rcases h.step_cases with ⟨t, next, ht, -, hon, -⟩ | ⟨error, hdone, -⟩
    · obtain rfl := Outcome.on.inj (hon.symm.trans hstep)
      exact ⟨ofReader_pos .., (List.getElem?_eq_some_iff.1 ht).1⟩
    · rw [hdone] at hstep
      cases hstep
  done last error hstep := by
    rcases h.step_cases with ⟨t, next, -, -, hon, -⟩ | ⟨e, hdone, hmeaning⟩
    · rw [hon] at hstep
      cases hstep
    · obtain ⟨rfl, rfl⟩ := Outcome.done.inj (hdone.symm.trans hstep)
      exact ⟨rfl, hmeaning⟩
  reader := ⟨r, h.eq_ofReader, h.run⟩

end

/-- In every state of the reading of some tokens, what is collected belongs to an open directive, so no
semicolon and no closing brace is without effect; a block is entered with nothing collected; between
blocks nothing is collected, and a directive is open if a name came behind the last closing brace. The
cursor moves on with each token and stays in the tokens. The reading comes to an end, with what the
tokens mean. -/
theorem reached_keeps (ts : List Token) :
    (∀ m, Reached ts m → Keeps ts m) ∧
    ∃ m last error, Reached ts m ∧ m.step ts = .done last error ∧
      ofTokens ts = ⟨⟨last.closed.toList⟩, error⟩ := by
  have hkeeps : ∀ m, Reached ts m → Keeps ts m := by
    intro m hm
    obtain ⟨r, hr⟩ := exists_stands_of_reached hm
    exact hr.keeps
  obtain ⟨m, last, error, hreached, hdone⟩ := (stands_initial ts).exists_done
  exact ⟨hkeeps, m, last, error, hreached, hdone, ((hkeeps m hreached).done last error hdone).2⟩

/-- The part that the first block drops does not come back in the second. -/
theorem reached_keeps_of_second_block :
    let ts : List Token := [⟨.directiveName, "a", 1⟩, ⟨.leftBrace, "\x7b", 1⟩,
      ⟨.commandPart, "x", 1⟩, ⟨.rightBrace, "\x7d", 1⟩, ⟨.directiveName, "b", 2⟩,
      ⟨.leftBrace, "\x7b", 2⟩, ⟨.semicolon, ";", 2⟩]
    let m : Registers := ⟨.collecting, 6, #[⟨"a", []⟩], some ⟨"b", []⟩, ⟨[]⟩⟩
    Reached ts m ∧ Keeps ts m := by
  intro ts m
  have hinitial : Reached ts .initial := .refl
  have hfirst : Reached ts ⟨.collecting, 3, #[], some ⟨"a", []⟩, ⟨["x"]⟩⟩ :=
    ((hinitial.next rfl).next rfl).next rfl
  have hsecond : Reached ts m := ((hfirst.next rfl).next rfl).next rfl
  exact ⟨hsecond, (reached_keeps ts).1 m hsecond⟩

end Registers

end BuildTool.Program
