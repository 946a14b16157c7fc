import BuildTool.Proofs.Invocation.Report
import BuildTool.Proofs.Run.Echo
/-!
# Options before settings

An option hides the setting of its kind, a dry run hides whether commands are echoed, and a dump hides
everything but the build file. What is hidden has no bearing on the report: invocations that agree on
the rest (`Invocation.Agree`) report the same. Main result: `Invocation.run_eq_of_agree`.
-/

namespace BuildTool.Invocation

/-- Options with settings that come to the same. The directive and the way it is run count only if the
build file is not dumped, and the echo only if the run is in earnest. -/
structure Agree (o : Options) (s : Settings) (o' : Options) (s' : Settings) : Prop where
  file : o.file.getD s.file = o'.file.getD s'.file
  dump : o.dump = o'.dump
  directive : o.dump = false →
    o.directive.getD s.defaultDirective = o'.directive.getD s'.defaultDirective
  dryRun : o.dump = false → o.dryRun = o'.dryRun
  echo : o.dump = false → o.dryRun = false → (s.echo && !o.quiet) = (s'.echo && !o'.quiet)

section

variable {env env' : Environment} {o o' : Options} {s s' : Settings}

theorem runDirective_congr {l l' : Launcher} (h : l.runner = l'.runner) (c : Compiled)
    (name : String) : runDirective c name l = runDirective c name l' := by
  unfold runDirective
  rw [h]

/-- What a dry run announces does not depend on the echo. -/
theorem Agree.runner_eq (h : Agree o s o' s') (hdump : o.dump = false) (world : World) :
    Launcher.runner ⟨s.echo && !o.quiet, o.dryRun, world⟩ =
      Launcher.runner ⟨s'.echo && !o'.quiet, o'.dryRun, world⟩ := by
  have hannounces : (s.echo && !o.quiet || o.dryRun) = (s'.echo && !o'.quiet || o'.dryRun) := by
    rw [← h.dryRun hdump]
    cases hdry : o.dryRun with
    | true => rw [Bool.or_true, Bool.or_true]
    | false => rw [h.echo hdump hdry]
  exact Launcher.runner_congr hannounces (h.dryRun hdump) fun _ => rfl

theorem Agree.value_build (h : Agree o s o' s') (hs : Configured env s)
    (hs' : Configured env' s') (hworld : env.world = env'.world)
    (hread : (env.read (o.file.getD s.file)).toOption =
      (env'.read (o'.file.getD s'.file)).toOption) :
    (build env o).value = (build env' o').value := by
  rw [hs.value_build, hs'.value_build, hread, h.file, ← h.dump, hworld]
  cases (env'.read (o'.file.getD s'.file)).toOption with
  | none => rfl
  | some source =>
    cases hdump : o.dump with
    | true => rfl
    | false =>
      simp only [Bool.false_eq_true, if_false]
      rw [h.directive hdump, runDirective_congr (h.runner_eq hdump env'.world)]

end

/-- Invocations report the same if their options and settings agree and the build file reads the same.
An option for the file hides the setting for it, one for the directive that for the directive, `quiet`
hides the echo, a dry run hides both of these, and verbosity does not count. -/
theorem run_eq_of_agree {env env' : Environment} {args args' : List String} {o o' : Options}
    {s s' : Settings} (hparse : CommandLine.parse args = .ok o)
    (hparse' : CommandLine.parse args' = .ok o') (hs : Configured env s)
    (hs' : Configured env' s') (hworld : env.world = env'.world)
    (hread : (env.read (o.file.getD s.file)).toOption =
      (env'.read (o'.file.getD s'.file)).toOption) :
    (Agree o s o' s' → (run env args).1 = (run env' args').1) ∧
    (∀ path file, o.file = some path → Agree o s o { s with file := file }) ∧
    (∀ name default, o.directive = some name → Agree o s o { s with defaultDirective := default }) ∧
    (∀ echo, o.quiet = true → Agree o s o { s with echo := echo }) ∧
    (∀ quiet echo, o.dryRun = true → Agree o s { o with quiet := quiet } { s with echo := echo }) ∧
    ∀ verbosity, Agree o s { o with verbosity := verbosity } s := by
  refine ⟨fun h => ?_, ?_, ?_, ?_, ?_, ?_⟩
  · rw [run, run, hparse, hparse']
    exact h.value_build hs hs' hworld hread
  · intro path file hfile
    exact ⟨by simp [hfile], rfl, fun _ => rfl, fun _ => rfl, fun _ _ => rfl⟩
  · intro name default hname
    exact ⟨rfl, rfl, fun _ => by simp [hname], fun _ => rfl, fun _ _ => rfl⟩
  · intro echo hquiet
    exact ⟨rfl, rfl, fun _ => rfl, fun _ => rfl, fun _ _ => by simp [hquiet]⟩
  · intro quiet echo hdry
    exact ⟨rfl, rfl, fun _ => rfl, fun _ => rfl, fun _ hearnest => by simp [hdry] at hearnest⟩
  · intro verbosity
    exact ⟨rfl, rfl, fun _ => rfl, fun _ => rfl, fun _ _ => rfl⟩

theorem run_eq_of_agree_of_dry_runs :
    let source : Except Files.Error String := .ok "x{ok;}"
    let env : Environment :=
      ⟨fun path => if path = "b" then source else .error .notText, "home", fun _ => .killed⟩
    let env' : Environment :=
      ⟨fun path => if path = "b" then source else .ok "\n", "home", fun _ => .killed⟩
    let o : Options := ⟨some "x", some "b", true, true, false, 0⟩
    let o' : Options := ⟨some "x", some "b", false, true, false, 2⟩
    let s := Settings.defaults
    CommandLine.parse ["-nq", "-f", "b", "x"] = .ok o ∧
    CommandLine.parse ["-vvn", "--file=b", "x"] = .ok o' ∧
    Configured env s ∧ Configured env' s ∧ env.read "b" = env'.read "b" ∧ Agree o s o' s ∧
    (run env ["-nq", "-f", "b", "x"]).1 = (run env' ["-vvn", "--file=b", "x"]).1 ∧
    Agree o s o { s with file := "c" } ∧ Agree o s o { s with defaultDirective := "y" } ∧
    Agree o s o { s with echo := false } ∧
    Agree o s { o with quiet := false } { s with echo := false } ∧
    Agree o s { o with verbosity := 3 } s := by
  intro source env env' o o' s
  have hparse : CommandLine.parse ["-nq", "-f", "b", "x"] = .ok o := by decide +kernel
  have hparse' : CommandLine.parse ["-vvn", "--file=b", "x"] = .ok o' := by decide +kernel
  have hread : env.read (Settings.pathIn env.home) = .error .notText := if_neg (by decide +kernel)
  have hread' : env'.read (Settings.pathIn env'.home) = .ok "\n" := if_neg (by decide +kernel)
  have hs : Configured env s := .unreadable hread
  have hs' : Configured env' s := .loaded hread' (if_pos (by decide +kernel))
  have hagree : Agree o s o' s :=
    ⟨rfl, rfl, fun _ => rfl, fun _ => rfl, fun _ hearnest => by cases hearnest⟩
  obtain ⟨hrun, hfile, hname, hecho, hquiet, hverbosity⟩ :=
    run_eq_of_agree hparse hparse' hs hs' rfl rfl
  exact ⟨hparse, hparse', hs, hs', rfl, hagree, hrun hagree, hfile "b" "c" rfl, hname "x" "y" rfl,
    hecho false rfl, hquiet false false rfl, hverbosity 3⟩

end BuildTool.Invocation
