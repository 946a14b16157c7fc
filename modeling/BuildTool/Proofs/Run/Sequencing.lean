import BuildTool.Proofs.Run.Rehearsal
/-!
# Sequencing

A directive gives its runner the commands that have something to run, one after the other, each in the
state that the one before left, and up to the first that fails. This holds of every runner; the calls
are those of `Runner.traced`, which does what the runner does and keeps a list. Main result:
`Directive.value_run_traced`.
-/

namespace BuildTool

variable {σ : Type}

namespace Runner

/-- The runner with a list of its calls: what it was given, and in which state. -/
def traced (runner : Runner σ) : Runner (List (Command × σ) × σ) := fun c (calls, s) => do
  let (outcome, t) ← runner c s
  return (outcome, calls ++ [(c, s)], t)

/-- Commands run until one fails, and nothing is said. -/
def sequence (runner : Runner σ) : List Command → σ → Outcome × σ
  | [], s => (.ok (), s)
  | c :: cs, s =>
    match (runner c s).value with
    | (.ok (), t) => runner.sequence cs t
    | (.error e, t) => (.error e, t)

/-- Calls that succeed, each in the state that the one before left. -/
inductive Succeeds (runner : Runner σ) : σ → List (Command × σ) → σ → Prop
  | nil (s : σ) : Succeeds runner s [] s
  | cons {c : Command} {s t u : σ} {calls : List (Command × σ)}
      (h : (runner c s).value = (.ok (), t)) (hcalls : Succeeds runner t calls u) :
      Succeeds runner s ((c, s) :: calls) u

section

variable {runner : Runner σ} {c : Command} {s t u : σ} {made : List (Command × σ)}
  {e : Failure}

theorem sequence_cons_of_ok (h : (runner c s).value = (.ok (), t)) (cs : List Command) :
    runner.sequence (c :: cs) s = runner.sequence cs t := by
  rw [sequence, h]

theorem sequence_cons_of_error (h : (runner c s).value = (.error e, t)) (cs : List Command) :
    runner.sequence (c :: cs) s = (.error e, t) := by
  rw [sequence, h]

/-- Empty commands are passed over, and the name is for the log. -/
theorem value_runAll (runner : Runner σ) (name : String) (cs : List Command) (s : σ) :
    (runner.runAll name cs s).value = runner.sequence (cs.filter (!·.isEmpty)) s := by
  induction cs generalizing s with
  | nil => rfl
  | cons c cs ih =>
    unfold runAll
    cases hc : c.isEmpty with
    | true =>
      rw [if_pos rfl, List.filter_cons_of_neg (by simp [hc]), Logged.value_bind]
      exact ih s
    | false =>
      rw [if_neg Bool.false_ne_true, List.filter_cons_of_pos (by simp [hc]), Logged.value_bind]
      rcases hrun : (runner c s).value with ⟨_ | ⟨⟩, t⟩
      · rw [sequence_cons_of_error hrun]
        rfl
      · rw [sequence_cons_of_ok hrun]
        exact ih t

theorem sequence_append (runner : Runner σ) (xs ys : List Command) (s : σ) :
    runner.sequence (xs ++ ys) s =
      if (runner.sequence xs s).1 = .ok () then runner.sequence ys (runner.sequence xs s).2
      else runner.sequence xs s := by
  induction xs generalizing s with
  | nil => rw [sequence, if_pos rfl]; rfl
  | cons c xs ih =>
    rw [List.cons_append]
    rcases hrun : (runner c s).value with ⟨_ | ⟨⟩, t⟩
    · rw [sequence_cons_of_error hrun, sequence_cons_of_error hrun, if_neg (by simp)]
    · rw [sequence_cons_of_ok hrun, sequence_cons_of_ok hrun]
      exact ih t

/-! ## Calls -/

theorem value_traced (runner : Runner σ) (c : Command) (calls : List (Command × σ)) (s : σ) :
    (runner.traced c (calls, s)).value =
      ((runner c s).value.1, calls ++ [(c, s)], (runner c s).value.2) := rfl

/-- Keeping the list of calls changes nothing else. -/
theorem sequence_traced_untraced (runner : Runner σ) (cs : List Command)
    (calls : List (Command × σ)) (s : σ) :
    ((runner.traced.sequence cs (calls, s)).1, (runner.traced.sequence cs (calls, s)).2.2) =
      runner.sequence cs s := by
  induction cs generalizing calls s with
  | nil => rfl
  | cons c cs ih =>
    have htraced := value_traced runner c calls s
    rcases hrun : (runner c s).value with ⟨_ | ⟨⟩, t⟩
    · rw [hrun] at htraced
      rw [sequence_cons_of_error hrun, sequence_cons_of_error htraced]
    · rw [hrun] at htraced
      rw [sequence_cons_of_ok hrun, sequence_cons_of_ok htraced]
      exact ih _ t

theorem Succeeds.outcome_of_mem (h : runner.Succeeds s made t) :
    ∀ call ∈ made, (runner call.1 call.2).value.1 = .ok () := by
  induction h with
  | nil => simp
  | cons hrun _ ih => exact List.forall_mem_cons.2 ⟨congrArg Prod.fst hrun, ih⟩

theorem Succeeds.sequence_traced (h : runner.Succeeds s made t) (calls : List (Command × σ))
    (rest : List Command) :
    runner.traced.sequence (made.map Prod.fst ++ rest) (calls, s) =
      runner.traced.sequence rest (calls ++ made, t) := by
  induction h generalizing calls with
  | nil => rw [List.append_nil]; rfl
  | @cons c s t u made hrun _ ih =>
    have htraced := value_traced runner c calls s
    rw [hrun] at htraced
    rw [List.map_cons, List.cons_append, sequence_cons_of_ok htraced, ih, List.append_assoc]
    rfl

/-- All commands succeed, or there is a first that fails. -/
theorem exists_succeeds (runner : Runner σ) (cs : List Command) (s : σ) :
    (∃ made t, runner.Succeeds s made t ∧ cs = made.map Prod.fst) ∨
    (∃ made c t e u rest, runner.Succeeds s made t ∧ (runner c t).value = (.error e, u) ∧
      cs = made.map Prod.fst ++ c :: rest) := by
  induction cs generalizing s with
  | nil => exact .inl ⟨[], s, .nil s, rfl⟩
  | cons c cs ih =>
    rcases hrun : (runner c s).value with ⟨e | ⟨⟩, t⟩
    · exact .inr ⟨[], c, s, e, t, cs, .nil s, hrun, rfl⟩
    · rcases ih t with ⟨made, u, hmade, rfl⟩ | ⟨made, d, u, e, v, rest, hmade, hfail, rfl⟩
      · exact .inl ⟨(c, s) :: made, u, .cons hrun hmade, rfl⟩
      · exact .inr ⟨(c, s) :: made, d, u, e, v, rest, .cons hrun hmade, hfail, rfl⟩

theorem Succeeds.sequence_traced_of_error (h : runner.Succeeds s made t)
    (hfail : (runner c t).value = (.error e, u)) (rest : List Command) :
    runner.traced.sequence (made.map Prod.fst ++ c :: rest) ([], s) =
      (.error e, made ++ [(c, t)], u) := by
  have htraced := value_traced runner c made t
  rw [hfail] at htraced
  rw [h.sequence_traced, List.nil_append, sequence_cons_of_error htraced]

theorem Succeeds.sequence_traced_of_ok (h : runner.Succeeds s made t) :
    runner.traced.sequence (made.map Prod.fst) ([], s) = (.ok (), made, t) := by
  have hrun := h.sequence_traced [] []
  rwa [List.append_nil, List.nil_append] at hrun

theorem sequence_traced_eq_ok_iff {cs : List Command} {calls : List (Command × σ)} :
    runner.traced.sequence cs ([], s) = (.ok (), calls, t) ↔
      runner.Succeeds s calls t ∧ calls.map Prod.fst = cs := by
  constructor
  · intro h
    rcases exists_succeeds runner cs s with ⟨made, u, hmade, rfl⟩ |
      ⟨made, c, u, e, v, rest, hmade, hfail, rfl⟩
    · rw [hmade.sequence_traced_of_ok] at h
      cases h
      exact ⟨hmade, rfl⟩
    · rw [hmade.sequence_traced_of_error hfail] at h
      cases h
  · rintro ⟨hcalls, rfl⟩
    exact hcalls.sequence_traced_of_ok

theorem sequence_traced_eq_error_iff {cs : List Command} {calls : List (Command × σ)} :
    runner.traced.sequence cs ([], s) = (.error e, calls, u) ↔
      ∃ made c t rest, runner.Succeeds s made t ∧ (runner c t).value = (.error e, u) ∧
        calls = made ++ [(c, t)] ∧ cs = made.map Prod.fst ++ c :: rest := by
  constructor
  · intro h
    rcases exists_succeeds runner cs s with ⟨made, t, hmade, rfl⟩ |
      ⟨made, c, t, d, v, rest, hmade, hfail, rfl⟩
    · rw [hmade.sequence_traced_of_ok] at h
      cases h
    · rw [hmade.sequence_traced_of_error hfail] at h
      cases h
      exact ⟨made, c, t, rest, hmade, hfail, rfl, rfl⟩
  · rintro ⟨made, c, t, rest, hmade, hfail, rfl, rfl⟩
    exact hmade.sequence_traced_of_error hfail rest

theorem sequence_eq_iff_traced {cs : List Command} {o : Outcome} :
    runner.sequence cs s = (o, t) ↔ ∃ calls, runner.traced.sequence cs ([], s) = (o, calls, t) := by
  rw [← sequence_traced_untraced runner cs [] s]
  constructor
  · intro h
    obtain ⟨rfl, rfl⟩ := Prod.mk.inj h
    exact ⟨_, rfl⟩
  · rintro ⟨calls, h⟩
    rw [h]

theorem sequence_eq_error_iff {cs : List Command} :
    runner.sequence cs s = (.error e, u) ↔
      ∃ made c t rest, runner.Succeeds s made t ∧ (runner c t).value = (.error e, u) ∧
        cs = made.map Prod.fst ++ c :: rest := by
  rw [sequence_eq_iff_traced]
  constructor
  · rintro ⟨calls, h⟩
    obtain ⟨made, c, t, rest, hmade, hfail, -, hcs⟩ := sequence_traced_eq_error_iff.1 h
    exact ⟨made, c, t, rest, hmade, hfail, hcs⟩
  · rintro ⟨made, c, t, rest, hmade, hfail, hcs⟩
    exact ⟨_, sequence_traced_eq_error_iff.2 ⟨made, c, t, rest, hmade, hfail, rfl, hcs⟩⟩

/-- What a runner is given are the commands of the list, from its front on. -/
theorem calls_isPrefix (runner : Runner σ) (cs : List Command) (s : σ) :
    (runner.traced.sequence cs ([], s)).2.1.map Prod.fst <+: cs := by
  rcases exists_succeeds runner cs s with ⟨made, t, hmade, rfl⟩ |
    ⟨made, c, t, e, u, rest, hmade, hfail, rfl⟩
  · exact ⟨[], by rw [hmade.sequence_traced_of_ok, List.append_nil]⟩
  · rw [hmade.sequence_traced_of_error hfail]
    exact ⟨rest, by simp⟩

end

end Runner

/-! ## The launcher in a sequence -/

theorem Command.exists_program {c : Command} (h : c.isEmpty = false) : ∃ p, c.program? = some p := by
  rw [Command.isEmpty, List.isEmpty_eq_false_iff] at h
  exact ⟨c.parts.head h, List.head?_eq_some_head h⟩

theorem Command.program?_of_isEmpty {c : Command} (h : c.isEmpty = true) : c.program? = none := by
  rw [Command.isEmpty, List.isEmpty_iff] at h
  rw [Command.program?, h, List.head?_nil]

theorem Exit.outcome_ne_emptyCommand (program : String) (x : Exit) :
    x.outcome program ≠ .error .emptyCommand := by
  unfold outcome
  split
  · simp
  · split <;> simp
  · simp

theorem Launcher.sequence_ne_emptyCommand (l : Launcher) {cs : List Command}
    (h : ∀ c ∈ cs, c.isEmpty = false) (sink : Sink) :
    (l.runner.sequence cs sink).1 ≠ .error .emptyCommand := by
  intro herror
  obtain ⟨made, c, t, rest, -, hfail, rfl⟩ :=
    Runner.sequence_eq_error_iff.1 (Prod.ext herror rfl)
  obtain ⟨p, hp⟩ := Command.exists_program (h c (by simp))
  have houtcome := congrArg Prod.fst hfail
  rw [l.value_runner hp] at houtcome
  dsimp only at houtcome
  split at houtcome
  · cases houtcome
  · exact Exit.outcome_ne_emptyCommand p _ houtcome

/-! ## Running a directive -/

namespace Directive

theorem value_run_eq_sequence (d : Directive) (runner : Runner σ) (s : σ) :
    (d.run runner s).value = runner.sequence d.effective s :=
  runner.value_runAll d.name d.commands s

theorem isEmpty_of_mem_effective {d : Directive} {c : Command} (h : c ∈ d.effective) :
    c.isEmpty = false := by
  simpa using (List.mem_filter.1 h).2

theorem effective_append (name : String) (xs ys : List Command) :
    effective ⟨name, xs ++ ys⟩ = effective ⟨name, xs⟩ ++ effective ⟨name, ys⟩ :=
  List.filter_append xs ys

/-- A runner is given the commands that have something to run, in order, until one fails, and the
failure is the outcome. Empty commands do not matter to a run. Of two lists of commands the second runs
only if the first succeeded, and from the state it left. -/
theorem value_run_traced (d : Directive) (runner : Runner σ) (s : σ) :
    ((d.run runner.traced ([], s)).value.1, (d.run runner.traced ([], s)).value.2.2) =
      (d.run runner s).value ∧
    (∀ calls t, (d.run runner.traced ([], s)).value = (.ok (), calls, t) ↔
      runner.Succeeds s calls t ∧ calls.map Prod.fst = d.effective) ∧
    (∀ e calls u, (d.run runner.traced ([], s)).value = (.error e, calls, u) ↔
      ∃ made c t rest, runner.Succeeds s made t ∧ (runner c t).value = (.error e, u) ∧
        calls = made ++ [(c, t)] ∧ d.effective = made.map Prod.fst ++ c :: rest) ∧
    (∀ call ∈ (d.run runner.traced ([], s)).value.2.1, call.1.isEmpty = false) ∧
    (∀ (l : Launcher) (sink : Sink), (d.run l.runner sink).value.1 ≠ .error .emptyCommand) ∧
    (∀ other : Directive, other.effective = d.effective →
      (other.run runner.traced ([], s)).value = (d.run runner.traced ([], s)).value) ∧
    (∀ xs ys, d.commands = xs ++ ys → ∀ first, (run ⟨d.name, xs⟩ runner.traced ([], s)).value = first →
      (d.run runner.traced ([], s)).value =
        if first.1 = .ok () then (run ⟨d.name, ys⟩ runner.traced first.2).value else first) := by
  simp only [value_run_eq_sequence]
  refine ⟨Runner.sequence_traced_untraced .., fun calls t => Runner.sequence_traced_eq_ok_iff,
    fun e calls u => Runner.sequence_traced_eq_error_iff, ?_, ?_, ?_, ?_⟩
  · intro call hcall
    have hfront := Runner.calls_isPrefix runner d.effective s
    exact isEmpty_of_mem_effective (hfront.subset (List.mem_map_of_mem hcall))
  · intro l sink
    exact l.sequence_ne_emptyCommand (fun c hc => isEmpty_of_mem_effective hc) sink
  · intro other hother
    rw [hother]
  · rintro xs ys hcommands first rfl
    have heffective : d.effective = effective ⟨d.name, xs⟩ ++ effective ⟨d.name, ys⟩ := by
      rw [← effective_append, ← hcommands]
    rw [heffective]
    exact Runner.sequence_append ..

theorem value_run_traced_of_second_fails :
    let runner : Runner Nat := fun _ n =>
      return (if n = 1 then .error (.failed "b" (some 1)) else .ok (), n + 1)
    let d : Directive := ⟨"d", [⟨["a"]⟩, ⟨[]⟩, ⟨["b"]⟩, ⟨["c"]⟩]⟩
    (d.run runner.traced ([], 0)).value =
      (.error (.failed "b" (some 1)), [(⟨["a"]⟩, 0), (⟨["b"]⟩, 1)], 2) ∧
    ((⟨["b"]⟩, 1) ∈ (d.run runner.traced ([], 0)).value.2.1 ∧ Command.isEmpty ⟨["b"]⟩ = false) ∧
    (effective ⟨"e", [⟨["a"]⟩, ⟨["b"]⟩, ⟨["c"]⟩]⟩ = d.effective ∧
      (run ⟨"e", [⟨["a"]⟩, ⟨["b"]⟩, ⟨["c"]⟩]⟩ runner.traced ([], 0)).value =
        (d.run runner.traced ([], 0)).value) ∧
    ((run ⟨"d", [⟨["a"]⟩, ⟨[]⟩]⟩ runner.traced ([], 0)).value = (.ok (), [(⟨["a"]⟩, 0)], 1) ∧
      (d.run runner.traced ([], 0)).value =
        (run ⟨"d", [⟨["b"]⟩, ⟨["c"]⟩]⟩ runner.traced ([(⟨["a"]⟩, 0)], 1)).value) := by
  intro runner d
  obtain ⟨-, -, herror, hsome, -, hother, happend⟩ := value_run_traced d runner 0
  refine ⟨(herror _ _ _).2 ?_, ⟨by decide, hsome (⟨["b"]⟩, 1) (by decide)⟩, ⟨rfl, hother _ rfl⟩, rfl, ?_⟩
  · exact ⟨[(⟨["a"]⟩, 0)], ⟨["b"]⟩, 1, [⟨["c"]⟩], .cons rfl (.nil 1), rfl, rfl, rfl⟩
  · exact happend [⟨["a"]⟩, ⟨[]⟩] [⟨["b"]⟩, ⟨["c"]⟩] rfl (.ok (), [(⟨["a"]⟩, 0)], 1) rfl

end Directive

end BuildTool
