import BuildTool.Proofs.Token.Insertion
import Mathlib.Logic.Relation
/-!
# Scanning in place

A scanner that works in place keeps no pending word. It has two cursors into the characters, `start` where
the characters not yet dealt with begin and `pos` where it has come to, and a word is cut out between
them when it ends (`Cursors.step`). For each place of the text there is a loop over the characters, and a
bracket leaves one loop for another.

The characters in front of `start` are dealt with as by the scanner that takes the text character by
character, and those between the cursors are a word or a bracket that has begun (`Cursors.Stands`). Main
result: a step keeps this and comes closer to the end, or it is the last one and has the result of that
scanner (`Cursors.Stands.step_cases`).
-/

namespace BuildTool

open Alphabet

/-- The characters of the words of a place, as a set. -/
def Place.wordSet : Place → AsciiSet
  | top => letters
  | inside b => b.wordChars

theorem Place.contains_wordSet (p : Place) (c : Char) : p.wordSet.contains c = p.wordChar c := by
  cases p with
  | top => exact contains_letters c
  | inside b =>
    cases b with
    | dependencies => exact contains_dependencyChars c
    | commands =>
      have hsemicolon : isPart c = true → c ≠ ';' := by
        intro hpart hc
        subst hc
        exact absurd hpart (by decide)
      cases hpart : isPart c with
      | true => simp [wordSet, wordChar, Block.wordChars, contains_partChars, hpart,
          Block.separator, hsemicolon hpart]
      | false => simp [wordSet, wordChar, Block.wordChars, contains_partChars, hpart]

/-- What a scanner in place does next. -/
inductive Cursors.Task where
  /-- Enter the loop of the place. -/
  | enter
  /-- Take a character, at the head of the loop. -/
  | take
  /-- Look at the character taken. -/
  | look (c : Char)
  /-- Go on with a word for as long as its characters do. -/
  | extend
  /-- Cut a token out of the characters. Behind it the text is at `next`. -/
  | cut (kind : Token.Kind) (next : Place)
deriving DecidableEq

structure Cursors where
  place : Place
  task : Cursors.Task
  start : Nat
  pos : Nat
  line : Nat
  tokens : Array Token
  /-- How many times a loop was entered. -/
  entries : Nat

namespace Cursors

def initial : Cursors :=
  ⟨.top, .enter, 0, 0, 1, #[], 0⟩

/-- The characters between two places of a text, if the places are in order and in the text. -/
def slice? (cs : List Char) (i j : Nat) : Option (List Char) :=
  if i ≤ j ∧ j ≤ cs.length then some ((cs.take j).drop i) else none

/-- What there is behind the last character. -/
def ending (m : Cursors) : Except ScanError (List Token) :=
  match m.place with
  | .top => .ok (m.tokens.push (.endOfInput m.line)).toList
  | .inside b => .error (.unclosed b.unclosed m.line)

inductive Outcome where
  | on (next : Cursors)
  | done (result : Except ScanError (List Token))
  /-- A token was to be cut out where there are no such characters. -/
  | fault

def step (cs : List Char) (m : Cursors) : Outcome :=
  match m.task with
  | .enter => .on { m with task := .take, entries := m.entries + 1 }
  | .take =>
    match cs[m.pos]? with
    | some c => .on { m with task := .look c, pos := m.pos + 1 }
    | none => .done m.ending
  | .look c =>
    match m.place.reading c with
    | .word => .on { m with task := .extend }
    | .blank => .on { m with task := .take, start := m.pos }
    | .newline => .on { m with task := .take, start := m.pos, line := m.line + 1 }
    | .delimiter kind next => .on { m with task := .cut kind next }
    | .illegal => .done (.error (.illegal c m.line))
  | .extend =>
    if cs[m.pos]?.any m.place.wordSet.contains then .on { m with pos := m.pos + 1 }
    else .on { m with task := .cut m.place.wordKind m.place }
  | .cut kind next =>
    match slice? cs m.start m.pos with
    | some lexeme => .on { m with
        place := next
        task := if next = m.place then .take else .enter
        start := m.pos
        tokens := m.tokens.push ⟨kind, String.ofList lexeme, m.line⟩ }
    | none => .fault

/-- One step leads from one state to another. -/
def Follows (cs : List Char) (m n : Cursors) : Prop :=
  m.step cs = .on n

/-- A state of the scanning of a text. -/
def Reached (cs : List Char) : Cursors → Prop :=
  Relation.ReflTransGen (Follows cs) initial

theorem Reached.next {cs : List Char} {m n : Cursors} (h : Reached cs m) (hstep : m.step cs = .on n) :
    Reached cs n :=
  Relation.ReflTransGen.tail h hstep

/-- No step moves the cursor back, and one that takes a character moves it on. -/
theorem pos_le_of_follows {cs : List Char} {m n : Cursors} (h : Follows cs m n) :
    m.pos ≤ n.pos ∧ (m.task = .take → m.pos < n.pos) := by
  rw [Follows, step] at h
  cases ht : m.task with
  | enter =>
    rw [ht] at h
    cases h
    exact ⟨Nat.le_refl _, nofun⟩
  | take =>
    rw [ht] at h
    cases hc : cs[m.pos]? with
    | none => simp [hc] at h
    | some c =>
      simp only [hc, Outcome.on.injEq] at h
      subst h
      exact ⟨Nat.le_succ _, fun _ => Nat.lt_succ_self _⟩
  | look c =>
    rw [ht] at h
    refine ⟨?_, nofun⟩
    cases hr : m.place.reading c <;> simp only [hr, Outcome.on.injEq, reduceCtorEq] at h <;>
      subst h <;> exact Nat.le_refl _
  | extend =>
    rw [ht] at h
    refine ⟨?_, nofun⟩
    dsimp only at h
    split at h <;> cases h
    · exact Nat.le_succ _
    · exact Nat.le_refl _
  | cut kind next =>
    rw [ht] at h
    refine ⟨?_, nofun⟩
    dsimp only at h
    split at h <;> cases h
    exact Nat.le_refl _

/-! ## What is pending -/

/-- The characters pending before a task, and those to come. -/
def Task.Holds (p : Place) : Task → List Char → List Char → Prop
  | .enter, pending, _ => pending = []
  | .take, pending, _ => pending = []
  | .look c, pending, _ => pending = [c]
  | .extend, pending, _ => pending ≠ [] ∧ ∀ c ∈ pending, p.wordChar c = true
  | .cut kind next, pending, after =>
    (kind = p.wordKind ∧ next = p ∧ pending ≠ [] ∧ (∀ c ∈ pending, p.wordChar c = true) ∧
      ∀ c ∈ after.head?, p.wordChar c = false) ∨
    ∃ c, pending = [c] ∧ p.Delimits c kind next

/-- A state has dealt with some characters, from which the scanner that takes the text character by
character comes to the same place, line and tokens. A word of that scanner still pending ends there. -/
structure Stands (cs : List Char) (m : Cursors) (before pending after : List Char) (s : Scanner) :
    Prop where
  split : cs = before ++ (pending ++ after)
  start_eq : m.start = before.length
  pos_eq : m.pos = before.length + pending.length
  feed : Scanner.start.feed before = .ok s
  flush : s.flush = ⟨m.place, m.line, "", m.tokens⟩
  seam : s.word ≠ "" → ∀ c ∈ (pending ++ after).head?, m.place.wordChar c = false
  holds : m.task.Holds m.place pending after
  size_le : m.tokens.size ≤ before.length
  entries_le : m.entries ≤ before.length + if m.task = .enter then 0 else 1

/-- How far a state is from the end: each character costs five steps at most. -/
def Task.rank : Task → Nat
  | .take => 0
  | .enter => 1
  | .cut .. => 2
  | .extend => 3
  | .look _ => 4

def distance (cs : List Char) (m : Cursors) : Nat :=
  5 * (cs.length - m.pos) + m.task.rank

namespace Stands

variable {cs before pending after : List Char} {m : Cursors} {s : Scanner} {c : Char}

theorem place_eq (h : Stands cs m before pending after s) : s.place = m.place := by
  rw [← Scanner.flush_place, h.flush]

theorem line_eq (h : Stands cs m before pending after s) : s.line = m.line := by
  rw [← Scanner.flush_line, h.flush]

theorem complete_eq (h : Stands cs m before pending after s) :
    Scanner.start.complete cs = s.complete (pending ++ after) := by
  rw [h.split, Scanner.complete_append_of_feed h.feed]

theorem getElem?_pos (h : Stands cs m before pending after s) : cs[m.pos]? = after.head? := by
  rw [h.split, h.pos_eq, ← List.append_assoc, ← List.length_append, List.getElem?_append_right
    (Nat.le_refl _), Nat.sub_self, List.head?_eq_getElem?]

theorem slice?_eq (h : Stands cs m before pending after s) :
    slice? cs m.start m.pos = some pending := by
  have hle : m.start ≤ m.pos ∧ m.pos ≤ cs.length := by
    rw [h.split, h.start_eq, h.pos_eq, List.length_append, List.length_append]
    omega
  rw [slice?, if_pos hle, h.split, h.start_eq, h.pos_eq, ← List.append_assoc,
    ← List.length_append, List.take_left, List.drop_left]

theorem feed_pending (h : Stands cs m before pending after s) {t : Scanner}
    (hfeed : s.feed pending = .ok t) : Scanner.start.feed (before ++ pending) = .ok t := by
  rw [Scanner.feed_append, h.feed]
  exact hfeed

theorem initial (cs : List Char) : Stands cs .initial [] [] cs .start where
  split := rfl
  start_eq := rfl
  pos_eq := rfl
  feed := rfl
  flush := rfl
  seam hword := absurd rfl hword
  holds := rfl
  size_le := Nat.le_refl _
  entries_le := Nat.le_refl _

/-! ## What a step does -/

theorem enter (h : Stands cs m before pending after s) (ht : m.task = .enter) :
    Stands cs { m with task := .take, entries := m.entries + 1 } before pending after s where
  split := h.split
  start_eq := h.start_eq
  pos_eq := h.pos_eq
  feed := h.feed
  flush := h.flush
  seam := h.seam
  holds := by
    have hholds := h.holds
    rw [ht] at hholds
    exact hholds
  size_le := h.size_le
  entries_le := by
    have hle := h.entries_le
    simpa [ht] using hle

/-- The cursor moves on, and nothing is dealt with yet. -/
theorem move (h : Stands cs m before pending after s) (hm : m.task ≠ .enter) {task : Task}
    {pos : Nat} {more rest : List Char} (hsplit : more ++ rest = pending ++ after)
    (hpos : pos = before.length + more.length) (ht : task ≠ .enter)
    (hholds : task.Holds m.place more rest) :
    Stands cs { m with task := task, pos := pos } before more rest s where
  split := by rw [hsplit, ← h.split]
  start_eq := h.start_eq
  pos_eq := hpos
  feed := h.feed
  flush := h.flush
  seam := by rw [hsplit]; exact h.seam
  holds := hholds
  size_le := h.size_le
  entries_le := by
    have hle := h.entries_le
    rw [if_neg hm] at hle
    exact (if_neg ht).symm ▸ hle

theorem take_cons (h : Stands cs m before [] (c :: after) s) (ht : m.task = .take) :
    Stands cs { m with task := .look c, pos := m.pos + 1 } before [c] after s :=
  h.move (by simp [ht]) rfl (by simp [h.pos_eq]) (by simp) rfl

/-- Behind the last character. -/
theorem ending_eq (h : Stands cs m before [] [] s) : m.ending = Scanner.start.complete cs := by
  have hfinish : s.flush.finish = m.ending := by
    rw [h.flush, Scanner.finish, ending]
    cases m.place <;> rfl
  rw [h.complete_eq, ← hfinish, Scanner.finish_flush]
  rfl

/-- The characters pending are dealt with. -/
theorem settle (h : Stands cs m before pending after s) (ht : m.task ≠ .enter) {n : Cursors}
    {t : Scanner} (hpending : pending ≠ []) (hstart : n.start = m.pos) (hpos : n.pos = m.pos)
    (hfeed : s.feed pending = .ok t) (hflush : t.flush = ⟨n.place, n.line, "", n.tokens⟩)
    (hseam : t.word ≠ "" → ∀ c ∈ after.head?, n.place.wordChar c = false)
    (htask : n.task = .take ∨ n.task = .enter) (hsize : n.tokens.size ≤ m.tokens.size + 1)
    (hentries : n.entries = m.entries) :
    Stands cs n (before ++ pending) [] after t := by
  have hlength : (before ++ pending).length = m.pos := by
    rw [List.length_append, h.pos_eq]
  have hlt : before.length < m.pos := by
    have hne := List.length_pos_iff.2 hpending
    rw [h.pos_eq]
    omega
  refine ⟨?_, ?_, ?_, h.feed_pending hfeed, hflush, hseam, ?_, ?_, ?_⟩
  · rw [h.split, List.append_assoc, List.nil_append]
  · rw [hstart, hlength]
  · rw [hpos, hlength]
    rfl
  · rcases htask with htask | htask <;> rw [htask] <;> rfl
  · have hle := h.size_le
    omega
  · have hle := h.entries_le
    rw [if_neg ht] at hle
    omega

theorem look_space (h : Stands cs m before [c] after s) (ht : m.task = .look c)
    (hc : isSpace c = true) :
    ∃ t, Stands cs { m with task := .take, start := m.pos, line := m.line + [c].count '\n' }
      (before ++ [c]) [] after t := by
  have hfeed : s.feed [c] = .ok { s.flush with line := s.line + [c].count '\n' } :=
    Scanner.feed_gap (by simpa using hc) (by simp)
  have hword : ({ s.flush with line := s.line + [c].count '\n' } : Scanner).word = "" :=
    Scanner.flush_word s
  refine ⟨_, h.settle (by simp [ht]) (by simp) rfl rfl hfeed ?_ (fun hne => absurd hword hne)
    (.inl rfl) (Nat.le_succ _) rfl⟩
  rw [Scanner.flush_of_word_eq hword, h.flush, h.line_eq]

theorem look_word (h : Stands cs m before [c] after s) (ht : m.task = .look c)
    (hc : m.place.wordChar c = true) :
    Stands cs { m with task := .extend } before [c] after s :=
  h.move (by simp [ht]) rfl h.pos_eq (by simp) ⟨by simp, by simpa using hc⟩

theorem look_delimiter {kind : Token.Kind} {next : Place} (h : Stands cs m before [c] after s)
    (ht : m.task = .look c) (hc : m.place.Delimits c kind next) :
    Stands cs { m with task := .cut kind next } before [c] after s :=
  h.move (by simp [ht]) rfl h.pos_eq (by simp) (.inr ⟨c, rfl, hc⟩)

theorem look_illegal (h : Stands cs m before [c] after s) (hc : m.place.reading c = .illegal) :
    Scanner.start.complete cs = .error (.illegal c m.line) := by
  rw [h.complete_eq, List.singleton_append, Scanner.complete, Scanner.feed_cons, Scanner.step,
    h.place_eq, hc, h.line_eq]
  rfl

theorem extend_cons (h : Stands cs m before pending (c :: after) s) (ht : m.task = .extend)
    (hc : m.place.wordChar c = true) :
    Stands cs { m with task := .extend, pos := m.pos + 1 } before (pending ++ [c]) after s := by
  have hholds := h.holds
  rw [ht] at hholds
  refine h.move (by simp [ht]) (by simp) ?_ (by simp) ⟨by simp, fun d hd => ?_⟩
  · rw [h.pos_eq, List.length_append, List.length_singleton]
    omega
  · rcases List.mem_append.1 hd with hd | hd
    · exact hholds.2 d hd
    · exact List.mem_singleton.1 hd ▸ hc

theorem extend_end (h : Stands cs m before pending after s) (ht : m.task = .extend)
    (hafter : ∀ c ∈ after.head?, m.place.wordChar c = false) :
    Stands cs { m with task := .cut m.place.wordKind m.place } before pending after s := by
  have hholds := h.holds
  rw [ht] at hholds
  exact h.move (by simp [ht]) rfl h.pos_eq (by simp) (.inl ⟨rfl, rfl, hholds.1, hholds.2, hafter⟩)

/-- A word that begins here was not begun before. -/
theorem eq_of_wordChar (h : Stands cs m before pending after s) (hne : pending ≠ [])
    (hword : ∀ c ∈ pending, m.place.wordChar c = true) :
    s = ⟨m.place, m.line, "", m.tokens⟩ := by
  obtain ⟨c, rest, rfl⟩ := List.exists_cons_of_ne_nil hne
  have hempty : s.word = "" := by
    by_contra hpending
    have hc := h.seam hpending c rfl
    rw [hword c List.mem_cons_self] at hc
    cases hc
  rw [← h.flush, Scanner.flush_of_word_eq hempty]

theorem cut {kind : Token.Kind} {next : Place} (h : Stands cs m before pending after s)
    (ht : m.task = .cut kind next) :
    ∃ t, Stands cs { m with
        place := next
        task := if next = m.place then .take else .enter
        start := m.pos
        tokens := m.tokens.push ⟨kind, String.ofList pending, m.line⟩ }
      (before ++ pending) [] after t := by
  have hholds := h.holds
  have hsize : (m.tokens.push ⟨kind, String.ofList pending, m.line⟩).size ≤ m.tokens.size + 1 := by
    rw [Array.size_push]
  rw [ht] at hholds
  rcases hholds with ⟨rfl, rfl, hne, hword, hafter⟩ | ⟨c, rfl, hdelim⟩
  · have hs := h.eq_of_wordChar hne hword
    have hfeed : s.feed pending = .ok ⟨m.place, m.line, String.ofList pending, m.tokens⟩ := by
      rw [hs, Scanner.feed_word hword]
      simp
    refine ⟨_, h.settle (by simp [ht]) hne rfl rfl hfeed ?_ (fun _ => hafter) (by simp) hsize rfl⟩
    have hlexeme : String.ofList pending ≠ "" := by simpa using hne
    rw [Scanner.flush, if_neg hlexeme]
  · have hfeed : s.feed [c] = .ok (s.flush.emit kind c next) := by
      rw [← h.place_eq] at hdelim
      rw [Scanner.feed_cons, Scanner.step_of_delimits hdelim]
      rfl
    have hword : (s.flush.emit kind c next).word = "" := Scanner.flush_word s
    have htask : ∀ q : Place, (if q = m.place then Task.take else Task.enter) = .take ∨
        (if q = m.place then Task.take else Task.enter) = .enter := by
      intro q
      split
      · exact .inl rfl
      · exact .inr rfl
    refine ⟨_, h.settle (by simp [ht]) (by simp) rfl rfl hfeed ?_ (fun hne => absurd hword hne)
      (htask next) hsize rfl⟩
    rw [Scanner.flush_of_word_eq hword, Scanner.emit, h.flush]
    rfl

/-- A state that stands somewhere in the text goes on to another one, which is closer to the end, or is
done with what the text comes to. -/
theorem step_cases (h : Stands cs m before pending after s) :
    (∃ n b p a t, m.step cs = .on n ∧ Stands cs n b p a t ∧ n.distance cs < m.distance cs) ∨
      m.step cs = .done (Scanner.start.complete cs) := by
  have hholds := h.holds
  have hlength : cs.length = before.length + (pending.length + after.length) := by
    rw [h.split, List.length_append, List.length_append]
  cases ht : m.task with
  | enter =>
    refine .inl ⟨_, _, _, _, _, by rw [step, ht], h.enter ht, ?_⟩
    simp [distance, ht, Task.rank]
  | take =>
    rw [ht] at hholds
    obtain rfl : pending = [] := hholds
    cases after with
    | nil =>
      right
      rw [step, ht, h.getElem?_pos]
      exact congrArg Outcome.done h.ending_eq
    | cons c after =>
      refine .inl ⟨_, _, _, _, _, by rw [step, ht, h.getElem?_pos]; rfl, h.take_cons ht, ?_⟩
      have hpos := h.pos_eq
      simp only [List.length_cons, List.length_nil] at hlength hpos
      simp only [distance, ht, Task.rank]
      omega
  | look c =>
    rw [ht] at hholds
    obtain rfl : pending = [c] := hholds
    rcases m.place.reading_cases c with ⟨hc, hr⟩ | ⟨hc, hr⟩ | ⟨kind, next, hc, hr⟩ | ⟨-, -, -, hr⟩
    · obtain ⟨t, hstands⟩ := h.look_space ht hc
      refine .inl ⟨_, _, _, _, t, ?_, hstands, ?_⟩
      · by_cases hline : c = '\n'
        · subst hline
          simp [step, ht, show m.place.reading '\n' = .newline from hr]
        · simp [step, ht, show m.place.reading c = .blank from hr.trans (if_neg hline), hline]
      · simp [distance, ht, Task.rank]
    · refine .inl ⟨_, _, _, _, _, by simp only [step, ht, hr], h.look_word ht hc, ?_⟩
      simp [distance, ht, Task.rank]
    · refine .inl ⟨_, _, _, _, _, by simp only [step, ht, hr], h.look_delimiter ht hc, ?_⟩
      simp [distance, ht, Task.rank]
    · right
      simp only [step, ht, hr, h.look_illegal hr]
  | extend =>
    by_cases hafter : after.head?.any m.place.wordSet.contains
    · obtain ⟨c, rest, rfl, hc⟩ : ∃ c rest, after = c :: rest ∧ m.place.wordSet.contains c := by
        cases after with
        | nil => cases hafter
        | cons c rest => exact ⟨c, rest, rfl, hafter⟩
      have hword := m.place.contains_wordSet c ▸ hc
      refine .inl ⟨_, _, _, _, _, ?_, h.extend_cons ht hword, ?_⟩
      · simp [step, ht, h.getElem?_pos, hc]
      · have hpos := h.pos_eq
        simp only [List.length_cons] at hlength
        simp only [distance, ht, Task.rank]
        omega
    · have hend : ∀ c ∈ after.head?, m.place.wordChar c = false := by
        intro c hc
        rw [hc] at hafter
        rw [← Place.contains_wordSet]
        simpa using hafter
      refine .inl ⟨_, _, _, _, _, ?_, h.extend_end ht hend, ?_⟩
      · simp [step, ht, h.getElem?_pos, hafter]
      · simp [distance, ht, Task.rank]
  | cut kind next =>
    obtain ⟨t, hstands⟩ := h.cut ht
    refine .inl ⟨_, _, _, _, t, by rw [step, ht, h.slice?_eq], hstands, ?_⟩
    simp only [distance, ht]
    split <;> simp [Task.rank]

end Stands

end Cursors

end BuildTool
