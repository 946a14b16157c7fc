import BuildTool.Run.Session
import BuildTool.Proofs.Invocation.Report
/-!
# The history of a session

Whatever the steps of a session are, the recorder's history is what its runs say they ran, each command
has a number of its own, and the program is that of the last text loaded. The laws of one step come
first, those of a whole session follow by induction. Main result: `Session.run_accounts`.
-/

namespace BuildTool

/-- The first rule about a command decides it. The recorder numbers the command next after its
history. -/
def Recorder.Decides (r : Recorder) (c : Command) (rule : Rule) : Prop :=
  ∃ before after, r.rules = before ++ rule :: after ∧ rule.concerns (r.history.size + 1) c = true ∧
    ∀ b ∈ before, b.concerns (r.history.size + 1) c = false

namespace Recorder

variable {r t : Recorder} {c : Command} {e : Failure} {made : List (Command × Recorder)}

theorem value_runner (c : Command) (r : Recorder) :
    (runner c r).value =
      (verdict r.rules (r.history.size + 1) c, { r with history := r.history.push c }) := rfl

theorem find?_eq_some_iff_decides {rule : Rule} :
    r.rules.find? (·.concerns (r.history.size + 1) c) = some rule ↔ r.Decides c rule := by
  unfold Decides
  rw [List.find?_eq_some_iff_append]
  constructor
  · rintro ⟨hrule, before, after, hsplit, hbefore⟩
    exact ⟨before, after, hsplit, hrule, by simpa using hbefore⟩
  · rintro ⟨before, after, hsplit, hrule, hbefore⟩
    exact ⟨hrule, before, after, hsplit, by simpa using hbefore⟩

theorem Decides.number_eq {rule : Rule} {n : Nat} (h : r.Decides c rule)
    (hn : rule.subject = .position n) : n = r.history.size + 1 := by
  obtain ⟨-, -, -, hconcerns, -⟩ := h
  rw [Rule.concerns, hn] at hconcerns
  exact of_decide_eq_true hconcerns

theorem outcome_of_decides {rule : Rule} (h : r.Decides c rule) :
    (runner c r).value.1 = rule.effect.outcome (c.program?.getD "") := by
  rw [value_runner, verdict, find?_eq_some_iff_decides.2 h]

/-- A command fails only if a rule says so. -/
theorem exists_decides_of_error (h : (runner c r).value.1 = .error e) :
    ∃ rule, r.Decides c rule ∧ rule.effect.outcome (c.program?.getD "") = .error e := by
  cases hfind : r.rules.find? (·.concerns (r.history.size + 1) c) with
  | none =>
    rw [value_runner, verdict, hfind] at h
    cases h
  | some rule =>
    have hdecides := find?_eq_some_iff_decides.1 hfind
    exact ⟨rule, hdecides, (outcome_of_decides hdecides).symm.trans h⟩

/-! ## One run -/

/-- What a run through the recorder does: its calls, in order, and what they leave. -/
structure Ran (r : Recorder) (cs : List Command) (o : Outcome) (calls : List (Command × Recorder))
    (t : Recorder) : Prop where
  rules : t.rules = r.rules
  history : t.history.toList = r.history.toList ++ calls.map Prod.fst
  numbers : calls.map (fun call => call.2.history.size) = List.range' r.history.size calls.length
  front : calls.map Prod.fst <+: cs
  whole : o = .ok () → calls.map Prod.fst = cs
  stopped : ∀ e, o = .error e → ∃ made c q, calls = made ++ [(c, q)] ∧
    (runner c q).value.1 = .error e ∧ ∀ call ∈ made, (runner call.1 call.2).value.1 = .ok ()

/-- A call adds its command to the history and is the next in number. -/
theorem history_of_succeeds (h : runner.Succeeds r made t) :
    t.rules = r.rules ∧ t.history.toList = r.history.toList ++ made.map Prod.fst ∧
      made.map (fun call => call.2.history.size) = List.range' r.history.size made.length := by
  induction h with
  | nil r => simp
  | @cons c r q t made hrun _ ih =>
    rw [value_runner] at hrun
    obtain ⟨-, rfl⟩ := Prod.mk.inj hrun
    obtain ⟨hrules, hhistory, hnumbers⟩ := ih
    refine ⟨hrules, ?_, ?_⟩
    · rw [hhistory]
      simp
    · rw [List.map_cons, hnumbers, List.length_cons, List.range'_succ]
      simp

theorem exists_ran (r : Recorder) (cs : List Command) :
    ∃ o calls t, runner.traced.sequence cs ([], r) = (o, calls, t) ∧
      runner.sequence cs r = (o, t) ∧ r.Ran cs o calls t := by
  rcases Runner.exists_succeeds runner cs r with ⟨made, t, hmade, rfl⟩ |
    ⟨made, c, t, e, u, rest, hmade, hfail, rfl⟩
  · have htraced := hmade.sequence_traced_of_ok
    obtain ⟨hrules, hhistory, hnumbers⟩ := history_of_succeeds hmade
    refine ⟨_, _, _, htraced, Runner.sequence_eq_iff_traced.2 ⟨_, htraced⟩, ?_⟩
    exact ⟨hrules, hhistory, hnumbers, List.prefix_rfl, fun _ => rfl, by simp⟩
  · have htraced := hmade.sequence_traced_of_error hfail rest
    obtain ⟨hrules, hhistory, hnumbers⟩ := history_of_succeeds hmade
    have hlast := hfail
    rw [value_runner] at hlast
    obtain ⟨-, rfl⟩ := Prod.mk.inj hlast
    have hsize : t.history.size = r.history.size + made.length := by
      rw [← Array.length_toList, hhistory, List.length_append, List.length_map, Array.length_toList]
    refine ⟨_, _, _, htraced, Runner.sequence_eq_iff_traced.2 ⟨_, htraced⟩, ?_⟩
    refine ⟨hrules, ?_, ?_, ?_, (by simp), ?_⟩
    · rw [Array.toList_push, hhistory]
      simp
    · rw [List.map_append, hnumbers, List.length_append, List.length_singleton,
        List.range'_concat]
      simp [hsize]
    · exact ⟨rest, by simp⟩
    · rintro d ⟨⟩
      exact ⟨made, c, t, rfl, congrArg Prod.fst hfail, hmade.outcome_of_mem⟩

theorem eq_succeed_of_outcome {program : String} {effect : Rule.Effect}
    (h : effect.outcome program = .ok ()) : effect = .succeed := by
  cases effect with
  | succeed => rfl
  | fail | refuse | empty => cases h

end Recorder

namespace Session

/-! ## What is told and what is given -/

/-- The commands that a step says it ran. -/
def Answer.commands : Answer → List Command
  | .ran commands _ _ => commands
  | _ => []

/-- What a step gives the recorder, with the recorder as it then is. -/
def stepCalls (s : Session) : Step → List (Command × Recorder)
  | .run name =>
    match s.program.find? name with
    | some d => (d.run Recorder.runner.traced ([], s.recorder)).value.2.1
    | none => []
  | _ => []

def runCalls (s : Session) : List Step → List (Command × Recorder)
  | [] => []
  | step :: steps => s.stepCalls step ++ (s.step step).value.2.runCalls steps

/-- The program of the last text that was loaded, of which nothing is left if it cannot be scanned. -/
inductive Current : List Step → Program → Prop
  | unloaded {steps : List Step} (h : ∀ source, .load source ∉ steps) : Current steps .empty
  | read {before after : List Step} {source : String} {ts : List Token}
      (hafter : ∀ other, .load other ∉ after) (h : Token.scan source = .ok ts) :
      Current (before ++ .load source :: after) (Program.ofTokens ts).program
  | unread {before after : List Step} {source : String} {e : ScanError}
      (hafter : ∀ other, .load other ∉ after) (h : Token.scan source = .error e) :
      Current (before ++ .load source :: after) .empty

/-- How a run of a name is answered behind earlier answers. -/
inductive RunAnswer (s : Session) (earlier : List Answer) (name : String) : Answer → Prop
  | noDirective (h : ∀ d ∈ s.program.directives, d.name ≠ name) : RunAnswer s earlier name .noDirective
  | succeeded {d : Directive} (hfirst : s.program.First name d)
      (hcalls : (s.stepCalls (.run name)).map Prod.fst = d.effective) :
      RunAnswer s earlier name
        (.ran d.effective (earlier.flatMap Answer.commands ++ d.effective).length (.ok ()))
  | failed {d : Directive} {made : List (Command × Recorder)} {c : Command} {r : Recorder}
      {rest : List Command} {rule : Rule} {e : Failure} (hfirst : s.program.First name d)
      (hcommands : d.effective = made.map Prod.fst ++ c :: rest)
      (hcalls : s.stepCalls (.run name) = made ++ [(c, r)]) (hrule : r.Decides c rule)
      (heffect : rule.effect.outcome (c.program?.getD "") = .error e)
      (hmade : ∀ call ∈ made, ∀ rule, call.2.Decides call.1 rule → rule.effect = .succeed) :
      RunAnswer s earlier name (.ran (made.map Prod.fst ++ [c])
        (earlier.flatMap Answer.commands ++ (made.map Prod.fst ++ [c])).length (.error e))

/-! ## One step -/

variable (s : Session)

theorem value_step_run (name : String) :
    (s.program.find? name = none ∧ s.stepCalls (.run name) = [] ∧
      (s.step (.run name)).value = (.noDirective, s)) ∨
    ∃ d o calls t, s.program.find? name = some d ∧ s.stepCalls (.run name) = calls ∧
      (s.step (.run name)).value =
        (.ran (calls.map Prod.fst) t.history.size o, { s with recorder := t }) ∧
      s.recorder.Ran d.effective o calls t := by
  cases hfind : s.program.find? name with
  | none => exact .inl ⟨rfl, by simp [stepCalls, hfind], by simp [step, hfind]⟩
  | some d =>
    obtain ⟨o, calls, t, htraced, hvalue, hran⟩ := s.recorder.exists_ran d.effective
    refine .inr ⟨d, o, calls, t, rfl, ?_, ?_, hran⟩
    · simp [stepCalls, hfind, d.value_run_eq_sequence, htraced]
    · have hdrop : t.history.toList.drop s.recorder.history.size = calls.map Prod.fst := by
        rw [hran.history, ← Array.length_toList, List.drop_left]
      simp [step, hfind, d.value_run_eq_sequence, hvalue, hdrop]

theorem value_step_dryRun (name : String) :
    (s.step (.dryRun name)).value.2 = s ∧ (s.step (.dryRun name)).value.1.commands = [] := by
  cases hfind : s.program.find? name <;> simp [step, hfind, Answer.commands]

theorem history_step (st : Step) :
    (s.step st).value.2.recorder.history.toList =
      s.recorder.history.toList ++ (s.step st).value.1.commands := by
  cases st with
  | run name =>
    rcases s.value_step_run name with ⟨-, -, hvalue⟩ | ⟨d, o, calls, t, -, -, hvalue, hran⟩
    · rw [hvalue]
      simp [Answer.commands]
    · rw [hvalue]
      exact hran.history
  | load source => simp [step, Answer.commands]
  | lookup name => simp [step, Answer.commands]
  | addRule rule => simp [step, Answer.commands]
  | clearRules => simp [step, Answer.commands]
  | dryRun name =>
    obtain ⟨hsession, hcommands⟩ := s.value_step_dryRun name
    rw [hsession, hcommands, List.append_nil]

theorem map_fst_stepCalls (st : Step) :
    (s.stepCalls st).map Prod.fst = (s.step st).value.1.commands := by
  cases st with
  | run name =>
    rcases s.value_step_run name with ⟨-, hcalls, hvalue⟩ | ⟨d, o, calls, t, -, hcalls, hvalue, -⟩
    · rw [hvalue, hcalls]
      rfl
    · rw [hvalue, hcalls]
      rfl
  | load source | lookup name | addRule rule | clearRules => rfl
  | dryRun name => exact (s.value_step_dryRun name).2.symm

/-- The calls of a step are numbered on from the history. -/
theorem numbers_stepCalls (st : Step) :
    (s.stepCalls st).map (fun call => call.2.history.size) =
      List.range' s.recorder.history.size (s.stepCalls st).length := by
  cases st with
  | run name =>
    rcases s.value_step_run name with ⟨-, hcalls, -⟩ | ⟨d, o, calls, t, -, hcalls, -, hran⟩
    · rw [hcalls]
      rfl
    · rw [hcalls]
      exact hran.numbers
  | load source | lookup name | addRule rule | clearRules | dryRun name => rfl

theorem runAnswer_step (name : String) (earlier : List Answer)
    (h : s.recorder.history.toList = earlier.flatMap Answer.commands) :
    RunAnswer s earlier name (s.step (.run name)).value.1 := by
  rcases s.value_step_run name with ⟨hfind, -, hvalue⟩ | ⟨d, o, calls, t, hfind, hcalls, hvalue, hran⟩
  · rw [hvalue]
    exact .noDirective (Program.find?_eq_none_iff_ne.1 hfind)
  · have hfirst := Program.find?_eq_some_iff_first.1 hfind
    have htotal : t.history.size = (earlier.flatMap Answer.commands ++ calls.map Prod.fst).length := by
      rw [← h, ← hran.history, Array.length_toList]
    rw [hvalue, htotal]
    rcases o with e | ⟨⟩
    · obtain ⟨made, c, r, rfl, hfail, hmade⟩ := hran.stopped e rfl
      obtain ⟨rule, hrule, heffect⟩ := Recorder.exists_decides_of_error hfail
      obtain ⟨rest, hrest⟩ := hran.front
      have hcommands : d.effective = made.map Prod.fst ++ c :: rest := by
        rw [← hrest]
        simp
      have hok : ∀ call ∈ made, ∀ rule, call.2.Decides call.1 rule → rule.effect = .succeed := by
        intro call hcall rule hdecides
        have houtcome := hmade call hcall
        rw [Recorder.outcome_of_decides hdecides] at houtcome
        exact Recorder.eq_succeed_of_outcome houtcome
      rw [List.map_append]
      exact .failed hfirst hcommands hcalls hrule heffect hok
    · have hwhole := hran.whole rfl
      rw [hwhole]
      exact .succeeded hfirst (by rw [hcalls, hwhole])

theorem program_step (st : Step) :
    (s.step st).value.2.program =
      match st with
      | .load source => (Compile.parse source).value.program
      | _ => s.program := by
  cases st with
  | run name =>
    rcases s.value_step_run name with ⟨-, -, hvalue⟩ | ⟨d, o, calls, t, -, -, hvalue, -⟩ <;>
      rw [hvalue]
  | dryRun name => rw [(s.value_step_dryRun name).1]
  | load source | lookup name | addRule rule | clearRules => rfl

/-- The recorder changes only by its rules and by runs of a directive. -/
theorem recorder_step (source name : String) :
    (s.step (.load source)).value.2.recorder = s.recorder ∧
    (s.step (.lookup name)).value.2.recorder = s.recorder ∧
    (s.step (.dryRun name)).value.2.recorder = s.recorder ∧
    (s.step (.run name)).value.2.recorder.rules = s.recorder.rules ∧
    ((∀ d ∈ s.program.directives, d.name ≠ name) →
      (s.step (.run name)).value.2.recorder = s.recorder) := by
  refine ⟨rfl, rfl, by rw [(s.value_step_dryRun name).1], ?_⟩
  rcases s.value_step_run name with ⟨-, -, hvalue⟩ | ⟨d, o, calls, t, hfind, -, hvalue, hran⟩
  · rw [hvalue]
    exact ⟨rfl, fun _ => rfl⟩
  · rw [hvalue]
    refine ⟨hran.rules, fun h => ?_⟩
    rw [Program.find?_eq_none_iff_ne.2 h] at hfind
    cases hfind

/-! ## All steps -/

theorem value_run_cons (st : Step) (steps : List Step) :
    (s.run (st :: steps)).value =
      ((s.step st).value.1 :: ((s.step st).value.2.run steps).value.1,
        ((s.step st).value.2.run steps).value.2) := rfl

theorem value_run_append (xs ys : List Step) :
    (s.run (xs ++ ys)).value =
      ((s.run xs).value.1 ++ ((s.run xs).value.2.run ys).value.1,
        ((s.run xs).value.2.run ys).value.2) := by
  induction xs generalizing s with
  | nil => rfl
  | cons st xs ih => rw [List.cons_append, value_run_cons, ih, value_run_cons, List.cons_append]

theorem length_answers (steps : List Step) : (s.run steps).value.1.length = steps.length := by
  induction steps generalizing s with
  | nil => rfl
  | cons st steps ih => rw [value_run_cons, List.length_cons, List.length_cons, ih]

theorem history_run (steps : List Step) :
    (s.run steps).value.2.recorder.history.toList =
      s.recorder.history.toList ++ (s.run steps).value.1.flatMap Answer.commands := by
  induction steps generalizing s with
  | nil => exact (List.append_nil _).symm
  | cons st steps ih =>
    rw [value_run_cons, ih, history_step, List.flatMap_cons, List.append_assoc]

theorem map_fst_runCalls (steps : List Step) :
    (s.runCalls steps).map Prod.fst = (s.run steps).value.1.flatMap Answer.commands := by
  induction steps generalizing s with
  | nil => rfl
  | cons st steps ih =>
    rw [runCalls, List.map_append, ih, map_fst_stepCalls, value_run_cons, List.flatMap_cons]

/-- Over a whole session no number is given twice. -/
theorem numbers_runCalls (steps : List Step) :
    (s.runCalls steps).map (fun call => call.2.history.size) =
      List.range' s.recorder.history.size (s.runCalls steps).length := by
  induction steps generalizing s with
  | nil => rfl
  | cons st steps ih =>
    have hsize : (s.step st).value.2.recorder.history.size =
        s.recorder.history.size + (s.stepCalls st).length := by
      rw [← Array.length_toList, history_step, ← map_fst_stepCalls, List.length_append,
        List.length_map, Array.length_toList]
    rw [runCalls, List.map_append, ih, numbers_stepCalls, hsize, List.length_append,
      List.range'_append_1]

variable {s}

theorem size_of_getElem?_runCalls {steps : List Step} {i : Nat} {c : Command} {r : Recorder}
    (h : (start.runCalls steps)[i]? = some (c, r)) : r.history.size = i := by
  have hnumbers := congrArg (·[i]?) (start.numbers_runCalls steps)
  simp only [List.getElem?_map, h, Option.map_some] at hnumbers
  obtain ⟨_, hi⟩ := List.getElem?_eq_some_iff.1 hnumbers.symm
  rw [List.getElem_range'] at hi
  simpa [start, Recorder.empty] using hi.symm

theorem Current.snoc {steps : List Step} {p : Program} (h : Current steps p) {st : Step}
    (hst : ∀ source, st ≠ .load source) : Current (steps ++ [st]) p := by
  have hlast : ∀ {after : List Step}, (∀ other, Step.load other ∉ after) →
      ∀ other, Step.load other ∉ after ++ [st] := by
    intro after hafter other hmem
    rcases List.mem_append.1 hmem with hmem | hmem
    · exact hafter other hmem
    · exact hst other (List.mem_singleton.1 hmem).symm
  cases h with
  | unloaded h => exact .unloaded (hlast h)
  | read hafter hscan =>
    rw [List.append_assoc, List.cons_append]
    exact .read (hlast hafter) hscan
  | unread hafter hscan =>
    rw [List.append_assoc, List.cons_append]
    exact .unread (hlast hafter) hscan

theorem current_load (steps : List Step) (source : String) :
    Current (steps ++ [.load source]) (Compile.parse source).value.program := by
  cases hscan : Token.scan source with
  | ok ts =>
    rw [Compile.value_parse_of_ok hscan]
    exact .read (by simp) hscan
  | error e =>
    rw [Compile.value_parse_of_error hscan]
    exact .unread (by simp) hscan

theorem current_run (steps : List Step) : Current steps (start.run steps).value.2.program := by
  -- The last step decides whether the last load is still to be found, so steps are taken off the end.
  induction steps using List.reverseRecOn with
  | nil => exact .unloaded (by simp)
  | append_singleton steps st ih =>
    rw [value_run_append]
    change Current (steps ++ [st]) ((start.run steps).value.2.step st).value.2.program
    rw [program_step]
    cases st with
    | load source => exact current_load steps source
    | _ => exact ih.snoc (by simp)

/-- The accounts of a session: its program is that of its last load; its history is what its runs ran,
in order; each run ran commands of its directive until some rule failed one; no two commands are
decided by rules about the same number; no run changes the rules, and a step that is about neither
rules nor a directive to run leaves the recorder alone. -/
theorem run_accounts (steps : List Step) :
    Current steps (start.run steps).value.2.program ∧
    (start.run steps).value.2.recorder.history.toList =
      (start.run steps).value.1.flatMap Answer.commands ∧
    (∀ before name after, steps = before ++ .run name :: after →
      ∃ answer, (start.run steps).value.1[before.length]? = some answer ∧
        RunAnswer (start.run before).value.2 (start.run before).value.1 name answer) ∧
    ((start.runCalls steps).map Prod.fst = (start.run steps).value.2.recorder.history.toList ∧
      ∀ (i j n : Nat) (c d : Command) (r q : Recorder) (rule other : Rule),
        (start.runCalls steps)[i]? = some (c, r) → r.Decides c rule →
        (start.runCalls steps)[j]? = some (d, q) → q.Decides d other →
        rule.subject = .position n → other.subject = .position n → i = j) ∧
    (∀ (s : Session) source name, (s.step (.load source)).value.2.recorder = s.recorder ∧
      (s.step (.lookup name)).value.2.recorder = s.recorder ∧
      (s.step (.dryRun name)).value.2.recorder = s.recorder ∧
      (s.step (.run name)).value.2.recorder.rules = s.recorder.rules ∧
      ((∀ d ∈ s.program.directives, d.name ≠ name) →
        (s.step (.run name)).value.2.recorder = s.recorder)) := by
  have hhistory : (start.run steps).value.2.recorder.history.toList =
      (start.run steps).value.1.flatMap Answer.commands := start.history_run steps
  refine ⟨current_run steps, hhistory, ?_, ⟨?_, ?_⟩, recorder_step⟩
  · rintro before name after rfl
    refine ⟨((start.run before).value.2.step (.run name)).value.1, ?_, ?_⟩
    · rw [value_run_append, List.getElem?_append_right (by rw [length_answers]), length_answers,
        Nat.sub_self, value_run_cons]
      rfl
    · exact runAnswer_step _ name _ (start.history_run before)
  · rw [map_fst_runCalls, hhistory]
  · intro i j n c d r q rule other hi hrule hj hother hn hm
    have hnumber : n = r.history.size + 1 := hrule.number_eq hn
    have hnumber' : n = q.history.size + 1 := hother.number_eq hm
    rw [size_of_getElem?_runCalls hi] at hnumber
    rw [size_of_getElem?_runCalls hj] at hnumber'
    omega

theorem run_accounts_of_failed_run :
    let steps : List Step := [.load "a{b;c;}", .addRule ⟨.position 2, .fail (some 1)⟩, .run "a"]
    let before := (start.run [.load "a{b;c;}", .addRule ⟨.position 2, .fail (some 1)⟩]).value
    let session := (start.run steps).value.2
    RunAnswer before.2 before.1 "a" (.ran [⟨["b"]⟩, ⟨["c"]⟩] 2 (.error (.failed "c" (some 1)))) ∧
    (Recorder.Decides ⟨[⟨.position 2, .fail (some 1)⟩], #[⟨["b"]⟩]⟩ ⟨["c"]⟩
        ⟨.position 2, .fail (some 1)⟩ ∧
      ¬ Recorder.Decides ⟨[⟨.position 2, .fail (some 1)⟩], #[]⟩ ⟨["b"]⟩
        ⟨.position 2, .fail (some 1)⟩) ∧
    ((∀ d ∈ session.program.directives, d.name ≠ "x") ∧
      (session.step (.run "x")).value.2.recorder = session.recorder) := by
  intro steps before session
  obtain ⟨-, -, hruns, ⟨-, hnumbers⟩, huntouched⟩ := run_accounts steps
  have hdecides : Recorder.Decides ⟨[⟨.position 2, .fail (some 1)⟩], #[⟨["b"]⟩]⟩ ⟨["c"]⟩
      ⟨.position 2, .fail (some 1)⟩ := ⟨[], [], rfl, rfl, by simp⟩
  refine ⟨?_, ⟨hdecides, ?_⟩, ?_⟩
  · obtain ⟨answer, hanswer, hrun⟩ := hruns
      [.load "a{b;c;}", .addRule ⟨.position 2, .fail (some 1)⟩] "a" [] rfl
    have hran : answer = .ran [⟨["b"]⟩, ⟨["c"]⟩] 2 (.error (.failed "c" (some 1))) := by
      apply Option.some.inj
      rw [← hanswer]
      rfl
    rwa [hran] at hrun
  · intro hother
    have hsame : 0 = 1 := hnumbers 0 1 2 _ _ _ _ _ _ rfl hother rfl hdecides rfl rfl
    cases hsame
  · have hnone : ∀ d ∈ session.program.directives, d.name ≠ "x" := by
      decide +kernel
    exact ⟨hnone, (huntouched session "" "x").2.2.2.2 hnone⟩

end Session

end BuildTool
