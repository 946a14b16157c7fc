import BuildTool.Proofs.Run.Attempts
/-!
# Echoing

Whether commands are echoed, and what becomes of the echo, has no bearing on what a launcher starts and
how that ends. The programs that were started are read off the log, where the launcher names each right
before it starts it (`Log.launches`). The laws of one command come first; two runners that do alike with
every command (`Runner.Alike`) do alike with any list of them. Main result:
`Launcher.outcomes_and_launches_eq`.
-/

namespace BuildTool

/-- The program that a record says is started. -/
def Log.Record.launched? (r : Log.Record) : Option String :=
  if r.level = .info ∧ r.component = .launcher then
    some (String.ofList (r.message.toList.drop "spawning ".toList.length))
  else none

/-- The programs that were started, in order. -/
def Log.launches (records : List Log.Record) : List String :=
  records.filterMap Log.Record.launched?

open Log (launches)

theorem launches_append (xs ys : List Log.Record) :
    launches (xs ++ ys) = launches xs ++ launches ys :=
  List.filterMap_append

theorem launches_say_of_ne {level : Log.Level} {component : Log.Component}
    (h : ¬(level = .info ∧ component = .launcher)) (message : String) :
    launches (Logged.say level component message).records = [] := by
  simp [launches, Log.Record.launched?, h]

/-! ## Runners that do alike -/

namespace Runner

/-- Whatever their states, the runners come to the same with every command and start the same for it. -/
structure Alike {σ τ : Type} (runner : Runner σ) (other : Runner τ) : Prop where
  outcome : ∀ c s t, (runner c s).value.1 = (other c t).value.1
  launched : ∀ c s t, launches (runner c s).records = launches (other c t).records

section

variable {σ τ : Type} {runner : Runner σ} {other : Runner τ} {c : Command} {s t : σ}

theorem launches_runAll_of_isEmpty (hc : c.isEmpty = true) (name : String) (cs : List Command) :
    launches (runner.runAll name (c :: cs) s).records =
      launches (runner.runAll name cs s).records := by
  rw [runAll, if_pos hc, Logged.records_bind, launches_append, launches_say_of_ne (by decide),
    List.nil_append]

theorem launches_runAll_of_ok (hc : c.isEmpty = false) (h : (runner c s).value = (.ok (), t))
    (name : String) (cs : List Command) :
    launches (runner.runAll name (c :: cs) s).records =
      launches (runner c s).records ++ launches (runner.runAll name cs t).records := by
  rw [runAll, if_neg (by simp [hc]), Logged.records_bind, launches_append, h]

theorem launches_runAll_of_error {e : Failure} (hc : c.isEmpty = false)
    (h : (runner c s).value = (.error e, t)) (name : String) (cs : List Command) :
    launches (runner.runAll name (c :: cs) s).records = launches (runner c s).records := by
  rw [runAll, if_neg (by simp [hc]), Logged.records_bind, launches_append, h, Logged.records_bind,
    launches_append, launches_say_of_ne (by decide), Logged.records_pure, List.nil_append]
  exact List.append_nil _

/-- Empty commands start nothing. -/
theorem launches_runAll_filter (name : String) (cs : List Command) (s : σ) :
    launches (runner.runAll name cs s).records =
      launches (runner.runAll name (cs.filter (!·.isEmpty)) s).records := by
  induction cs generalizing s with
  | nil => rfl
  | cons c cs ih =>
    cases hc : c.isEmpty with
    | true =>
      rw [launches_runAll_of_isEmpty hc, List.filter_cons_of_neg (by simp [hc])]
      exact ih s
    | false =>
      rw [List.filter_cons_of_pos (by simp [hc])]
      rcases hrun : (runner c s).value with ⟨e | ⟨⟩, t⟩
      · rw [launches_runAll_of_error hc hrun, launches_runAll_of_error hc hrun]
      · rw [launches_runAll_of_ok hc hrun, launches_runAll_of_ok hc hrun, ih t]

theorem Alike.runEach (h : runner.Alike other) (cs : List Command) (s : σ) (t : τ) :
    (runner.runEach cs s).value.1 = (other.runEach cs t).value.1 ∧
      launches (runner.runEach cs s).records = launches (other.runEach cs t).records := by
  induction cs generalizing s t with
  | nil => exact ⟨rfl, rfl⟩
  | cons c cs ih =>
    obtain ⟨houtcomes, hlaunched⟩ := ih (runner c s).value.2 (other c t).value.2
    constructor
    · simp [Runner.runEach, h.outcome c s t, houtcomes]
    · simp [Runner.runEach, launches_append, h.launched c s t, hlaunched]

theorem Alike.runAll (h : runner.Alike other) (name : String) (cs : List Command) (s : σ) (t : τ) :
    (runner.runAll name cs s).value.1 = (other.runAll name cs t).value.1 ∧
      launches (runner.runAll name cs s).records = launches (other.runAll name cs t).records := by
  rw [value_runAll, value_runAll]
  induction cs generalizing s t with
  | nil => exact ⟨rfl, rfl⟩
  | cons c cs ih =>
    cases hc : c.isEmpty with
    | true =>
      rw [launches_runAll_of_isEmpty hc, launches_runAll_of_isEmpty hc,
        List.filter_cons_of_neg (by simp [hc])]
      exact ih s t
    | false =>
      have houtcome := h.outcome c s t
      have hlaunched := h.launched c s t
      rw [List.filter_cons_of_pos (by simp [hc])]
      rcases hrun : (runner c s).value with ⟨e | ⟨⟩, u⟩ <;>
        rcases hother : (other c t).value with ⟨e' | ⟨⟩, v⟩ <;> rw [hrun, hother] at houtcome
      · cases houtcome
        rw [sequence_cons_of_error hrun, sequence_cons_of_error hother,
          launches_runAll_of_error hc hrun, launches_runAll_of_error hc hother]
        exact ⟨rfl, hlaunched⟩
      · cases houtcome
      · cases houtcome
      · rw [sequence_cons_of_ok hrun, sequence_cons_of_ok hother,
          launches_runAll_of_ok hc hrun, launches_runAll_of_ok hc hother, hlaunched]
        exact ⟨(ih u v).1, congrArg _ (ih u v).2⟩

theorem runEach_cons (runner : Runner σ) (c : Command) (cs : List Command) (s : σ) :
    runner.runEach (c :: cs) s = (do
      let (outcome, s) ← runner c s
      let (outcomes, s) ← runner.runEach cs s
      return (outcome :: outcomes, s)) := rfl

/-- A command that leaves the state alone and says nothing adds its outcome and no more. -/
theorem runEach_insert {o : Outcome} (h : ∀ s, runner c s = pure (o, s)) (xs ys : List Command)
    (s : σ) :
    runner.runEach (xs ++ c :: ys) s = (do
      let (outcomes, s) ← runner.runEach (xs ++ ys) s
      return (outcomes.insertIdx xs.length o, s)) := by
  induction xs generalizing s with
  | nil => simp [runEach_cons, h]
  | cons x xs ih => simp [runEach_cons, ih]

end

end Runner

theorem Directive.launches_run {σ : Type} (d : Directive) (runner : Runner σ) (s : σ) :
    launches (d.run runner s).records =
      launches (runner.runAll d.name d.effective s).records := by
  rw [Directive.run, Logged.records_bind, launches_append, launches_say_of_ne (by decide),
    List.nil_append]
  exact Runner.launches_runAll_filter ..

theorem Directive.effective_insert {c : Command} (hc : c.isEmpty = true) (name : String)
    (xs ys : List Command) : effective ⟨name, xs ++ c :: ys⟩ = effective ⟨name, xs ++ ys⟩ := by
  simp [effective, hc]

/-! ## The launcher -/

namespace Launcher

variable {c : Command}

theorem launches_announce (c : Command) (sink : Sink) : launches (announce c sink).records = [] := by
  unfold announce
  split
  · rfl
  · rw [Logged.records_bind, launches_append, launches_say_of_ne (by decide)]
    rfl

theorem launches_launch (l : Launcher) (program : String) (c : Command) :
    launches (l.launch program c).records = [program] := by
  have hmessage : (s!"spawning {program}").toList = "spawning ".toList ++ program.toList := by
    simp [toString]
  simp only [launch, Logged.records_bind, Logged.records_say, Logged.records_pure, List.append_nil,
    launches, Log.Record.launched?, List.filterMap_cons, List.filterMap_nil, hmessage,
    and_self, if_true, List.drop_left, String.ofList_toList]

theorem runner_of_isEmpty (l : Launcher) (h : c.isEmpty = true) (sink : Sink) :
    l.runner c sink = pure (.error .emptyCommand, sink) := by
  simp [runner, Command.program?_of_isEmpty h]

/-- The programs of commands, if the launcher starts any. -/
def programs (l : Launcher) (cs : List Command) : List String :=
  if l.dryRun then [] else cs.filterMap Command.program?

theorem programs_nil (l : Launcher) : l.programs [] = [] := by
  unfold programs
  split <;> rfl

theorem programs_append (l : Launcher) (xs ys : List Command) :
    l.programs (xs ++ ys) = l.programs xs ++ l.programs ys := by
  unfold programs
  split
  · rfl
  · exact List.filterMap_append

theorem launches_runner (l : Launcher) (c : Command) (sink : Sink) :
    launches (l.runner c sink).records = l.programs [c] := by
  cases hprogram : c.program? with
  | none => simp [runner, hprogram, launches, programs]
  | some program =>
    have hannounce := launches_announce c sink
    have hlaunch := l.launches_launch program c
    have hnothing : launches [] = [] := rfl
    cases hdry : l.dryRun <;> cases hannounces : l.announces <;>
      simp [runner, programs, hprogram, hdry, hannounces, launches_append, hannounce, hlaunch,
        hnothing]

/-- What comes of a command, empty ones included. -/
def answer (l : Launcher) (c : Command) : Outcome :=
  if c.isEmpty then .error .emptyCommand else l.outcome c

theorem outcome_runner (l : Launcher) (c : Command) (sink : Sink) :
    (l.runner c sink).value.1 = l.answer c := by
  cases hc : c.isEmpty with
  | true => simp [l.runner_of_isEmpty hc, answer, hc]
  | false => simp [l.value_runner_of_not_empty hc, answer, hc]

theorem alike (world : World) (dryRun echo echo' : Bool) :
    (runner ⟨echo, dryRun, world⟩).Alike (runner ⟨echo', dryRun, world⟩) where
  outcome c s t := by
    rw [outcome_runner, outcome_runner]
    rfl
  launched c s t := by
    rw [launches_runner, launches_runner]
    rfl

/-- Whether a launcher announces is all that its echo decides, and in a dry run it asks no world. -/
theorem runner_congr {l l' : Launcher} (hannounces : l.announces = l'.announces)
    (hdry : l.dryRun = l'.dryRun) (hworld : l.dryRun = false → l.world = l'.world) :
    l.runner = l'.runner := by
  funext c sink
  cases hprogram : c.program? with
  | none => simp [runner, hprogram]
  | some program =>
    cases h : l'.dryRun with
    | true => simp [runner, hprogram, hannounces, hdry, h]
    | false =>
      rw [h] at hdry
      simp [runner, hprogram, hannounces, hdry, h, launch, hworld hdry]

/-! ## Lists of commands -/

section

variable {l : Launcher} {cs tried : List Command} {o : Outcome}

theorem outcomes_runEach (l : Launcher) (cs : List Command) (sink : Sink) :
    (l.runner.runEach cs sink).value.1 = cs.map l.answer := by
  induction cs generalizing sink with
  | nil => rfl
  | cons c cs ih => simp [Runner.runEach_cons, outcome_runner, ih]

theorem launches_runEach (l : Launcher) (cs : List Command) (sink : Sink) :
    launches (l.runner.runEach cs sink).records = l.programs cs := by
  induction cs generalizing sink with
  | nil =>
    rw [programs_nil]
    rfl
  | cons c cs ih =>
    rw [← List.singleton_append, programs_append, ← l.launches_runner c sink,
      ← ih (l.runner c sink).value.2]
    simp [Runner.runEach_cons, launches_append]

theorem Attempts.launches_runAll (h : l.Attempts cs tried o) (hcs : ∀ c ∈ cs, c.isEmpty = false)
    (name : String) (sink : Sink) :
    launches (l.runner.runAll name cs sink).records = l.programs tried := by
  induction cs generalizing tried sink with
  | nil =>
    obtain ⟨rfl, rfl⟩ := h.of_nil
    rw [programs_nil]
    rfl
  | cons c cs ih =>
    obtain ⟨hc, hcs⟩ := List.forall_mem_cons.1 hcs
    have hrun := l.value_runner_of_not_empty hc sink
    rcases h.cons_cases with ⟨hok, rest, rfl, hrest⟩ | ⟨e, herror, rfl, rfl⟩
    · rw [hok] at hrun
      rw [Runner.launches_runAll_of_ok hc hrun, ih hrest hcs, launches_runner, ← programs_append,
        List.singleton_append]
    · rw [herror] at hrun
      rw [Runner.launches_runAll_of_error hc hrun, launches_runner]

/-- What is started are the programs of the commands that are attempted. -/
theorem Attempts.launches_eq {d : Directive} (h : l.Attempts d.effective tried o) (sink : Sink) :
    launches (d.run l.runner sink).records = l.programs tried := by
  rw [d.launches_run]
  exact h.launches_runAll (fun c hc => Directive.isEmpty_of_mem_effective hc) d.name sink

end

/-- Neither the echo nor what a sink makes of it has a bearing on what comes of commands and on what is
started. In a dry run nothing is started and nothing fails but empty commands. An empty command fails
by itself and changes nothing for the others. -/
theorem outcomes_and_launches_eq (world : World) (dryRun echo echo' : Bool) (cs : List Command)
    (d : Directive) (sink sink' : Sink) :
    let l : Launcher := ⟨echo, dryRun, world⟩
    let l' : Launcher := ⟨echo', dryRun, world⟩
    ((l.runner.runEach cs sink).value.1 = (l'.runner.runEach cs sink').value.1 ∧
      launches (l.runner.runEach cs sink).records = launches (l'.runner.runEach cs sink').records ∧
      (d.run l.runner sink).value.1 = (d.run l'.runner sink').value.1 ∧
      launches (d.run l.runner sink).records = launches (d.run l'.runner sink').records) ∧
    (launches (l.runner.runEach cs sink).records =
        (if dryRun then [] else cs.filterMap Command.program?) ∧
      ∀ tried o, l.Attempts d.effective tried o →
        launches (d.run l.runner sink).records =
          if dryRun then [] else tried.filterMap Command.program?) ∧
    (dryRun = true →
      (∀ other, runner ⟨echo, dryRun, other⟩ = l.runner) ∧
      launches (l.runner.runEach cs sink).records = [] ∧
      launches (d.run l.runner sink).records = [] ∧
      (l.runner.runEach cs sink).value.1 =
        cs.map (fun c => if c.isEmpty then .error .emptyCommand else .ok ()) ∧
      (d.run l.runner sink).value.1 = .ok ()) ∧
    ∀ c : Command, c.isEmpty = true →
      l.runner c sink = pure (.error .emptyCommand, sink) ∧
      (∀ xs ys, l.runner.runEach (xs ++ c :: ys) sink = (do
        let (outcomes, sink) ← l.runner.runEach (xs ++ ys) sink
        return (outcomes.insertIdx xs.length (.error .emptyCommand), sink))) ∧
      ∀ name xs ys,
        (Directive.run ⟨name, xs ++ c :: ys⟩ l.runner sink).value =
          (Directive.run ⟨name, xs ++ ys⟩ l.runner sink).value ∧
        launches (Directive.run ⟨name, xs ++ c :: ys⟩ l.runner sink).records =
          launches (Directive.run ⟨name, xs ++ ys⟩ l.runner sink).records := by
  intro l l'
  have halike : l.runner.Alike l'.runner := alike world dryRun echo echo'
  obtain ⟨tried, o, htried⟩ := l.exists_attempts d.effective
  obtain ⟨houtcomes, hlaunches⟩ := halike.runEach cs sink sink'
  obtain ⟨houtcome, hlaunch⟩ := halike.runAll d.name d.commands sink sink'
  refine ⟨⟨houtcomes, hlaunches, houtcome, hlaunch⟩, ?_, ?_, ?_⟩
  · exact ⟨l.launches_runEach cs sink, fun tried o htried => htried.launches_eq sink⟩
  · rintro rfl
    have hanswers := l.outcomes_runEach cs sink
    refine ⟨fun other => runner_congr rfl rfl (by simp), l.launches_runEach cs sink,
      htried.launches_eq sink, hanswers, ?_⟩
    exact congrArg Prod.fst (d.value_run_of_dryRun rfl sink)
  · intro c hc
    refine ⟨l.runner_of_isEmpty hc sink,
      fun xs ys => Runner.runEach_insert (l.runner_of_isEmpty hc) xs ys sink, fun name xs ys => ?_⟩
    rw [Directive.value_run_eq_sequence, Directive.value_run_eq_sequence, Directive.launches_run,
      Directive.launches_run, Directive.effective_insert hc]
    exact ⟨rfl, rfl⟩

/-- The second command fails and the sink is full after three bytes. -/
theorem outcomes_and_launches_eq_of_full_sink :
    let world : World := fun c => .status (if c.program? = some "fail" then 1 else 0)
    let earnest : Launcher := ⟨true, false, world⟩
    let dry : Launcher := ⟨true, true, world⟩
    let d : Directive := ⟨"d", [⟨["ok", "a"]⟩, ⟨[]⟩, ⟨["fail"]⟩, ⟨["ok"]⟩]⟩
    let full : Sink := .limited (some 3) true
    (earnest.Attempts d.effective [⟨["ok", "a"]⟩, ⟨["fail"]⟩] (.error (.failed "fail" (some 1))) ∧
      launches (d.run earnest.runner full).records = ["ok", "fail"]) ∧
    (dry.dryRun = true ∧ launches (d.run dry.runner full).records = [] ∧
      (dry.runner.runEach d.commands full).value.1 =
        [.ok (), .error .emptyCommand, .ok (), .ok ()]) ∧
    (Command.isEmpty ⟨[]⟩ = true ∧
      (earnest.runner.runEach ([⟨["fail"]⟩] ++ ⟨[]⟩ :: [⟨["ok"]⟩]) full).value.1 =
        [.error (.failed "fail" (some 1)), .error .emptyCommand, .ok ()]) := by
  intro world earnest dry d full
  have htried : earnest.Attempts d.effective [⟨["ok", "a"]⟩, ⟨["fail"]⟩]
      (.error (.failed "fail" (some 1))) :=
    @Attempts.first earnest [⟨["ok", "a"]⟩] [⟨["ok"]⟩] ⟨["fail"]⟩ _ (by decide) rfl
  obtain ⟨-, ⟨-, hstarted⟩, -, hempty⟩ :=
    outcomes_and_launches_eq world false true false [] d full .unlimited
  obtain ⟨-, -, hdry, -⟩ :=
    outcomes_and_launches_eq world true true false d.commands d full .unlimited
  obtain ⟨-, -, hnothing, hanswers, -⟩ := hdry rfl
  refine ⟨⟨htried, hstarted _ _ htried⟩, ⟨rfl, hnothing, hanswers⟩, rfl, ?_⟩
  rw [(hempty ⟨[]⟩ rfl).2.1 [⟨["fail"]⟩] [⟨["ok"]⟩]]
  rfl

end Launcher

end BuildTool
