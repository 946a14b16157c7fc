import BuildTool.Proofs.Token.InPlace
/-!
# Runs of scanning in place

What a step keeps holds in every state of a run (`Cursors.sound_of_reached`), and a run comes to its end
with the result of the scanner that takes the text character by character (`Cursors.Sound.exists_done`).
At the head of a loop nothing is pending, and each iteration moves the cursor on
(`Cursors.pos_lt_of_take`). Main result: `Cursors.reached_invariant`.
-/

namespace BuildTool.Cursors

/-! ## All states of a run -/

/-- Somewhere in the text. -/
def Sound (cs : List Char) (m : Cursors) : Prop :=
  ∃ before pending after s, Stands cs m before pending after s

variable {cs : List Char} {m n : Cursors}

theorem Sound.of_follows (h : Sound cs m) (hmn : Follows cs m n) :
    Sound cs n ∧ n.distance cs < m.distance cs := by
  obtain ⟨before, pending, after, s, hstands⟩ := h
  rw [Follows] at hmn
  rcases hstands.step_cases with ⟨k, b, p, a, t, hstep, hk, hlt⟩ | hdone
  · obtain rfl : k = n := Outcome.on.inj (hstep.symm.trans hmn)
    exact ⟨⟨b, p, a, t, hk⟩, hlt⟩
  · rw [hdone] at hmn
    cases hmn

theorem sound_of_reached (h : Reached cs m) : Sound cs m := by
  induction h with
  | refl => exact ⟨[], [], cs, .start, .initial cs⟩
  | tail _ hstep ih => exact (ih.of_follows hstep).1

/-- From every state on, a run comes to its result. -/
theorem Sound.exists_done (h : Sound cs m) :
    ∃ n, Relation.ReflTransGen (Follows cs) m n ∧
      n.step cs = .done (Scanner.start.complete cs) := by
  induction hd : m.distance cs using Nat.strong_induction_on generalizing m with
  | _ d ih =>
    obtain ⟨before, pending, after, s, hstands⟩ := id h
    rcases hstands.step_cases with ⟨k, b, p, a, t, hstep, hk, hlt⟩ | hdone
    · obtain ⟨n, hreach, hdone⟩ := ih _ (hd ▸ hlt) ⟨b, p, a, t, hk⟩ rfl
      exact ⟨n, .head hstep hreach, hdone⟩
    · exact ⟨m, .refl, hdone⟩

theorem Sound.step_ne_fault (h : Sound cs m) : m.step cs ≠ .fault := by
  obtain ⟨before, pending, after, s, hstands⟩ := h
  rcases hstands.step_cases with ⟨k, -, -, -, -, hstep, -⟩ | hdone
  · simp [hstep]
  · simp [hdone]

theorem Sound.eq_of_done (h : Sound cs m) {result : Except ScanError (List Token)}
    (hresult : m.step cs = .done result) : result = Scanner.start.complete cs := by
  obtain ⟨before, pending, after, s, hstands⟩ := h
  rcases hstands.step_cases with ⟨k, -, -, -, -, hstep, -⟩ | hdone
  · rw [hstep] at hresult
    cases hresult
  · exact Outcome.done.inj (hresult.symm.trans hdone)

/-! ## Progress of the cursor -/

theorem pos_le_of_reaches (h : Relation.ReflTransGen (Follows cs) m n) : m.pos ≤ n.pos := by
  induction h with
  | refl => exact Nat.le_refl _
  | tail _ hstep ih => exact ih.trans (pos_le_of_follows hstep).1

/-- Whatever comes after the head of a loop, the next head included, stands further on. -/
theorem pos_lt_of_take (ht : m.task = .take) (h : Relation.TransGen (Follows cs) m n) :
    m.pos < n.pos := by
  obtain ⟨k, hstep, hreach⟩ := Relation.TransGen.head'_iff.1 h
  exact ((pos_le_of_follows hstep).2 ht).trans_le (pos_le_of_reaches hreach)

/-! ## What holds in every state -/

/-- What a state of the scanning of some characters knows. -/
structure Invariant (cs : List Char) (m : Cursors) : Prop where
  start_le_pos : m.start ≤ m.pos
  pos_le_length : m.pos ≤ cs.length
  /-- There is something to cut out wherever a token is cut out. -/
  start_lt_pos : ∀ kind next, m.task = .cut kind next → m.start < m.pos
  step_ne_fault : m.step cs ≠ .fault
  /-- Nothing is pending at the head of a loop. -/
  start_eq_pos : m.task = .take → m.start = m.pos
  line_eq : m.task = .take → m.line = 1 + (cs.take m.pos).count '\n'
  /-- At the head of a loop all is as the scanner has it that has taken the characters so far. -/
  scanner : m.task = .take → ∃ s, Scanner.start.feed (cs.take m.pos) = .ok s ∧
    s.flush = ⟨m.place, m.line, "", m.tokens⟩
  /-- An iteration moves the cursor on. -/
  pos_lt : m.task = .take → ∀ n, Relation.TransGen (Follows cs) m n → m.pos < n.pos
  entries_le : m.entries ≤ cs.length + 1
  size_le : m.tokens.size ≤ cs.length
  line_le : m.line ≤ cs.length + 1
  eq_of_done : ∀ result, m.step cs = .done result → result = Scanner.start.complete cs

theorem Stands.pending_ne_nil {before pending after : List Char} {s : Scanner}
    (h : Stands cs m before pending after s) {kind : Token.Kind} {next : Place}
    (ht : m.task = .cut kind next) : pending ≠ [] := by
  have hholds := h.holds
  rw [ht] at hholds
  rcases hholds with ⟨-, -, hne, -⟩ | ⟨c, rfl, -⟩
  · exact hne
  · simp

theorem Sound.invariant (h : Sound cs m) : Invariant cs m := by
  obtain ⟨before, pending, after, s, hstands⟩ := id h
  have hlength : cs.length = before.length + (pending.length + after.length) := by
    rw [hstands.split, List.length_append, List.length_append]
  have hstart := hstands.start_eq
  have hpos := hstands.pos_eq
  have hline : m.line = 1 + before.count '\n' := by
    rw [← hstands.line_eq]
    exact (Scanner.walk_of_feed hstands.feed).2
  have hcount : before.count '\n' ≤ before.length := List.count_le_length
  have hentries : m.entries ≤ before.length + 1 := by
    have hle := hstands.entries_le
    split at hle <;> omega
  have hnil : m.task = .take → pending = [] := by
    intro ht
    have hholds := hstands.holds
    rw [ht] at hholds
    exact hholds
  have hbefore : m.task = .take → cs.take m.pos = before := by
    intro ht
    rw [hpos, hnil ht, hstands.split, List.length_nil, Nat.add_zero, List.take_left]
  refine ⟨by omega, by omega, fun kind next ht => ?_, h.step_ne_fault, fun ht => ?_, fun ht => ?_,
    fun ht => ⟨s, ?_, hstands.flush⟩, fun ht n => pos_lt_of_take ht, by omega, ?_, by omega,
    fun result => h.eq_of_done⟩
  · have hne := List.length_pos_iff.2 (hstands.pending_ne_nil ht)
    omega
  · rw [hstart, hpos, hnil ht, List.length_nil, Nat.add_zero]
  · rw [hbefore ht, hline]
  · rw [hbefore ht, hstands.feed]
  · have hle := hstands.size_le
    omega

/-- Only the end of the text makes a result without an error. -/
theorem eq_ending_of_done {ts : List Token} (h : m.step cs = .done (.ok ts)) :
    m.ending = .ok ts := by
  rw [step] at h
  cases ht : m.task with
  | enter => simp [ht] at h
  | take =>
    rw [ht] at h
    dsimp only at h
    split at h
    · cases h
    · exact Outcome.done.inj h
  | look c =>
    rw [ht] at h
    dsimp only at h
    split at h <;> cases h
  | extend =>
    rw [ht] at h
    dsimp only at h
    split at h <;> cases h
  | cut kind next =>
    rw [ht] at h
    dsimp only at h
    split at h <;> cases h

theorem Invariant.length_le (h : Invariant cs m) {ts : List Token}
    (hdone : m.step cs = .done (.ok ts)) : ts.length ≤ cs.length + 1 := by
  have hending := eq_ending_of_done hdone
  have hsize := h.size_le
  unfold ending at hending
  split at hending
  · obtain rfl := Except.ok.inj hending
    simpa using hsize
  · cases hending

/-- In every state of the scanning of a text the cursors are in order and in the text; at the head of a
loop nothing is pending, and place, line and tokens are those of the scanner that has taken the
characters so far. Each iteration moves the cursor on, each token has characters, and so there are no
more loops entered, tokens and lines than characters and one. The scanning comes to an end, with the
result of the scanner. -/
theorem reached_invariant (source : String) :
    (∀ m, Reached source.toList m → Invariant source.toList m) ∧
    (∃ m, Reached source.toList m ∧ m.step source.toList = .done (Token.scan source)) ∧
    (∀ ts, Token.scan source = .ok ts → ts.length ≤ source.toList.length + 1) := by
  have hinvariant : ∀ m, Reached source.toList m → Invariant source.toList m :=
    fun m hm => (sound_of_reached hm).invariant
  have hinitial : Reached source.toList .initial := .refl
  obtain ⟨m, hreached, hdone⟩ := (sound_of_reached hinitial).exists_done
  rw [← Token.scan_eq_complete] at hdone
  refine ⟨hinvariant, ⟨m, hreached, hdone⟩, fun ts hts => ?_⟩
  rw [hts] at hdone
  exact (hinvariant m hreached).length_le hdone

/-- A second name is cut out behind a line feed. -/
theorem reached_invariant_of_second_name :
    let named : Array Token := #[⟨.directiveName, "a", 1⟩]
    let second : Cursors := ⟨.top, .cut .directiveName .top, 2, 3, 2, named, 1⟩
    Reached "a\nb".toList second ∧ Invariant "a\nb".toList second := by
  intro named second
  have hinitial : Reached "a\nb".toList .initial := .refl
  have hfirst : Reached "a\nb".toList ⟨.top, .extend, 0, 1, 1, #[], 1⟩ :=
    ((hinitial.next rfl).next rfl).next rfl
  have hbreak : Reached "a\nb".toList ⟨.top, .take, 2, 2, 2, named, 1⟩ :=
    (((hfirst.next rfl).next rfl).next rfl).next rfl
  have hsecond : Reached "a\nb".toList second := ((hbreak.next rfl).next rfl).next rfl
  exact ⟨hsecond, (reached_invariant "a\nb").1 second hsecond⟩

end BuildTool.Cursors
