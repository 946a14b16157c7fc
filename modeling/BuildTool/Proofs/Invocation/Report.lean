import BuildTool.Invocation
import BuildTool.Proofs.Run.Attempts
/-!
# What an invocation reports

The output and the status of an invocation, as rules: which settings are in force, what is said about
the build file, and how a report goes on from there. An invocation reports what the rules say and
nothing else (`Invocation.run_eq_iff_reports`).
-/

namespace BuildTool

/-- The first of the directives with a name. -/
def Program.First (p : Program) (name : String) (d : Directive) : Prop :=
  ∃ before after, p.directives = before ++ d :: after ∧ d.name = name ∧
    ∀ b ∈ before, b.name ≠ name

namespace Program

variable {p : Program} {name : String} {d : Directive}

theorem find?_eq_some_iff_first : p.find? name = some d ↔ p.First name d := by
  unfold find? First
  rw [List.find?_eq_some_iff_append]
  constructor
  · rintro ⟨hname, before, after, hsplit, hbefore⟩
    exact ⟨before, after, hsplit, by simpa using hname, by simpa using hbefore⟩
  · rintro ⟨before, after, hsplit, hname, hbefore⟩
    exact ⟨by simpa using hname, before, after, hsplit, by simpa using hbefore⟩

theorem find?_eq_none_iff_ne : p.find? name = none ↔ ∀ d ∈ p.directives, d.name ≠ name := by
  unfold find?
  simp

end Program

namespace Invocation

/-! ## The rules -/

/-- Settings that cannot be read, or are no settings, count as the defaults. -/
inductive Configured (env : Environment) : Settings → Prop
  | loaded {text : String} {s : Settings} (hread : env.read (Settings.pathIn env.home) = .ok text)
      (hs : Settings.ofYaml text = .ok s) : Configured env s
  | invalid {text : String} {fault : Settings.Fault}
      (hread : env.read (Settings.pathIn env.home) = .ok text)
      (hs : Settings.ofYaml text = .error fault) : Configured env Settings.defaults
  | unreadable {e : Files.Error} (hread : env.read (Settings.pathIn env.home) = .error e) :
      Configured env Settings.defaults

/-- What is said about a build file first. -/
inductive Remarks : Option CompileError → String → Prop
  | nothing : Remarks none ""
  | error (e : CompileError) :
      Remarks (some e) ("gmake:" ++ toString e.line ++ ": " ++ e.message ++ "\n")

/-- How a report on a build file goes on, for a directive and a launcher. -/
inductive Continues (o : Options) (name : String) (l : Launcher) (c : Compiled) : Report → Prop
  | dumped (h : o.dump = true) (herror : c.error = none) : Continues o name l c ⟨0, c.program.toYaml⟩
  | dumpedInPart {e : CompileError} (h : o.dump = true) (herror : c.error = some e) :
      Continues o name l c ⟨1, c.program.toYaml⟩
  | missing (h : o.dump = false) (hname : ∀ d ∈ c.program.directives, d.name ≠ name) :
      Continues o name l c ⟨1, "gmake: fatal: no '" ++ name ++ "' directive defined\n"⟩
  | succeeded {d : Directive} {tried : List Command} (h : o.dump = false)
      (hfirst : c.program.First name d) (htried : l.Attempts d.effective tried (.ok ())) :
      Continues o name l c ⟨0, String.join ((l.lines tried).map (· ++ "\n"))⟩
  | failed {d : Directive} {tried : List Command} {e : Failure} (h : o.dump = false)
      (hfirst : c.program.First name d) (htried : l.Attempts d.effective tried (.error e)) :
      Continues o name l c ⟨1, String.join ((l.lines tried).map (· ++ "\n")) ++
        ("gmake: fatal: " ++ e.message ++ "\n")⟩

/-- Options go before settings. -/
inductive Reports (env : Environment) (o : Options) : Report → Prop
  | unreadable {s : Settings} {e : Files.Error} (hs : Configured env s)
      (hread : env.read (o.file.getD s.file) = .error e) :
      Reports env o ⟨1, "gmake: fatal: could not read " ++ o.file.getD s.file ++ "\n"⟩
  | read {s : Settings} {source remark : String} {r : Report} (hs : Configured env s)
      (hread : env.read (o.file.getD s.file) = .ok source)
      (hremark : Remarks (Compile.parse source).value.error remark)
      (hr : Continues o (o.directive.getD s.defaultDirective)
        ⟨s.echo && !o.quiet, o.dryRun, env.world⟩ (Compile.parse source).value r) :
      Reports env o ⟨r.status, remark ++ r.output⟩

/-! ## The rules decide, and are kept -/

section

variable {env : Environment} {s : Settings} {o : Options} {name : String} {l : Launcher}
  {c : Compiled} {r : Report} {remark : String}

theorem exists_configured (env : Environment) : ∃ s, Configured env s := by
  cases hread : env.read (Settings.pathIn env.home) with
  | error e => exact ⟨_, .unreadable hread⟩
  | ok text =>
    cases hs : Settings.ofYaml text with
    | error fault => exact ⟨_, .invalid hread hs⟩
    | ok s => exact ⟨s, .loaded hread hs⟩

theorem Configured.value_settings (h : Configured env s) : (settings env).value = s := by
  cases h with
  | loaded hread hs => simp [settings, Settings.load, hread, hs]
  | invalid hread hs => simp [settings, Settings.load, hread, hs]
  | @unreadable e hread =>
    cases he : e.isMissing <;> simp [settings, Settings.load, hread, he]

theorem Configured.value_build (h : Configured env s) (o : Options) :
    (build env o).value =
      match (env.read (o.file.getD s.file)).toOption with
      | none => ⟨1, fatal s!"could not read {o.file.getD s.file}"⟩
      | some source =>
        (if o.dump then return dump (Compile.parse source).value
          else runDirective (Compile.parse source).value (o.directive.getD s.defaultDirective)
            ⟨s.echo && !o.quiet, o.dryRun, env.world⟩ : Logged Report).value := by
  cases hread : env.read (o.file.getD s.file) <;>
    simp [build, h.value_settings, hread, Except.toOption]

theorem Remarks.complaint_eq (h : Remarks c.error remark) : complaint c = remark := by
  unfold complaint
  generalize c.error = error at h
  cases h <;> rfl

theorem exists_remarks (error : Option CompileError) : ∃ remark, Remarks error remark := by
  cases error with
  | none => exact ⟨_, .nothing⟩
  | some e => exact ⟨_, .error e⟩

theorem exists_continues (o : Options) (name : String) (l : Launcher) (c : Compiled) :
    ∃ r, Continues o name l c r := by
  cases hdump : o.dump with
  | true =>
    cases herror : c.error with
    | none => exact ⟨_, .dumped hdump herror⟩
    | some e => exact ⟨_, .dumpedInPart hdump herror⟩
  | false =>
    cases hfind : c.program.find? name with
    | none => exact ⟨_, .missing hdump (Program.find?_eq_none_iff_ne.1 hfind)⟩
    | some d =>
      have hfirst := Program.find?_eq_some_iff_first.1 hfind
      obtain ⟨tried, _ | ⟨⟩, htried⟩ := l.exists_attempts d.effective
      · exact ⟨_, .failed hdump hfirst htried⟩
      · exact ⟨_, .succeeded hdump hfirst htried⟩

theorem Continues.value_eq (h : Continues o name l c r) :
    (if o.dump then return dump c else runDirective c name l : Logged Report).value =
      ⟨r.status, complaint c ++ r.output⟩ := by
  cases h with
  | dumped hdump herror => simp [hdump, dump, herror]
  | dumpedInPart hdump herror => simp [hdump, dump, herror]
  | missing hdump hname =>
    have hline : fatal s!"no '{name}' directive defined" =
        "gmake: fatal: no '" ++ name ++ "' directive defined\n" := by
      apply String.toList_inj.1
      simp [fatal, line, toString]
    simp [hdump, runDirective, Program.find?_eq_none_iff_ne.2 hname, ← hline]
  | succeeded hdump hfirst htried =>
    obtain ⟨houtcome, htext⟩ := htried.text_eq .unlimited (Sink.holds_empty false)
    simp [hdump, runDirective, Program.find?_eq_some_iff_first.2 hfirst, houtcome, htext]
  | failed hdump hfirst htried =>
    obtain ⟨houtcome, htext⟩ := htried.text_eq .unlimited (Sink.holds_empty false)
    simp [hdump, runDirective, Program.find?_eq_some_iff_first.2 hfirst, houtcome, htext, fatal,
      line, String.append_assoc]

theorem Reports.value_build (h : Reports env o r) : (build env o).value = r := by
  cases h with
  | unreadable hs hread =>
    have hline : ∀ path, fatal s!"could not read {path}" =
        "gmake: fatal: could not read " ++ path ++ "\n" := by
      intro path
      apply String.toList_inj.1
      simp [fatal, line, toString]
    rw [hs.value_build, hread, ← hline]
    rfl
  | read hs hread hremark hr =>
    rw [hs.value_build, hread, ← hremark.complaint_eq]
    exact hr.value_eq

theorem exists_reports (env : Environment) (o : Options) : ∃ r, Reports env o r := by
  obtain ⟨s, hs⟩ := exists_configured env
  cases hread : env.read (o.file.getD s.file) with
  | error e => exact ⟨_, .unreadable hs hread⟩
  | ok source =>
    obtain ⟨remark, hremark⟩ := exists_remarks (Compile.parse source).value.error
    obtain ⟨r, hr⟩ := exists_continues o (o.directive.getD s.defaultDirective)
      ⟨s.echo && !o.quiet, o.dryRun, env.world⟩ (Compile.parse source).value
    exact ⟨_, .read hs hread hremark hr⟩

end

/-- An accepted command line that asks for neither help nor version comes to what the rules say. -/
theorem run_eq_iff_reports {args : List String} {o : Options} (h : CommandLine.parse args = .ok o)
    (env : Environment) (r : Report) : (run env args).1 = r ↔ Reports env o r := by
  have hrun : (run env args).1 = (build env o).value := by
    rw [run, h]
  rw [hrun]
  constructor
  · rintro rfl
    obtain ⟨r, hr⟩ := exists_reports env o
    rwa [hr.value_build]
  · exact Reports.value_build

theorem run_eq_iff_reports_of_stray_bracket :
    let env : Environment :=
      ⟨fun path => if path = "b" then .ok "x{ok a;;fail;ok b;}()" else .error .notFound, "home",
        fun c => .status (if c.program? = some "fail" then 1 else 0)⟩
    (run env ["-v", "-f", "b", "x"]).1 =
      ⟨1, "gmake:1: unexpected '(', expecting directive name\n" ++
        ("ok a\nfail\n" ++ "gmake: fatal: 'fail' exited with status 1\n")⟩ := by
  intro env
  have hparse : CommandLine.parse ["-v", "-f", "b", "x"] =
      .ok ⟨some "x", some "b", false, false, false, 1⟩ := by decide +kernel
  have hcompiled : (Compile.parse "x{ok a;;fail;ok b;}()").value =
      ⟨⟨[⟨"x", [⟨["ok", "a"]⟩, ⟨[]⟩, ⟨["fail"]⟩, ⟨["ok", "b"]⟩]⟩]⟩,
        some (.parse ⟨1, .leftParen, [.directiveName]⟩)⟩ := by decide +kernel
  have htried : Launcher.Attempts ⟨true, false, env.world⟩
      (Directive.effective ⟨"x", [⟨["ok", "a"]⟩, ⟨[]⟩, ⟨["fail"]⟩, ⟨["ok", "b"]⟩]⟩)
      [⟨["ok", "a"]⟩, ⟨["fail"]⟩] (.error (.failed "fail" (some 1))) :=
    @Launcher.Attempts.first _ [⟨["ok", "a"]⟩] _ ⟨["fail"]⟩ _ (by decide) rfl
  have hsettings : env.read (Settings.pathIn env.home) = .error .notFound :=
    if_neg (by decide +kernel)
  refine (run_eq_iff_reports hparse env _).2 ?_
  refine .read (r := ⟨1, _⟩) (.unreadable hsettings) rfl ?_ ?_
  · rw [hcompiled]
    exact .error (.parse ⟨1, .leftParen, [.directiveName]⟩)
  · rw [hcompiled]
    exact .failed rfl ⟨[], [], rfl, rfl, by simp⟩ htried

end Invocation

end BuildTool
