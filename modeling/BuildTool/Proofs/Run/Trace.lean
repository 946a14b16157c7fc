import BuildTool.Proofs.Run.Prediction
/-!
# The log of a run

What is said while a directive runs can be told from its commands: a header, then what there is to say
about each command up to the first that fails (`Launcher.trace`), then the failure. Whether a line could
be written hangs on how long the lines so far are in all (`Sink.trouble?`). Main result:
`Launcher.records_run`.
-/

namespace BuildTool

/-! ## What there is to say -/

/-- What is wrong on a new sink with lines that have so many bytes in all, the last of them seen. -/
def Sink.trouble? (limit : Option Nat) (flushFails : Bool) (size : Nat) : Option Sink.Error :=
  if limit.any (· < size) then some .full
  else if flushFails then some .flushFailed
  else none

namespace Log.Record

def header (d : Directive) : Log.Record :=
  ⟨.debug, .runner, s!"running directive '{d.name}' ({d.commands.length} commands)"⟩

def skipped (name : String) : Log.Record :=
  ⟨.debug, .runner, s!"skipping empty command in '{name}'"⟩

def unechoed (e : Sink.Error) : Log.Record :=
  ⟨.warn, .launcher, s!"could not echo command: {e.message}"⟩

def spawning (program : String) : Log.Record :=
  ⟨.info, .launcher, s!"spawning {program}"⟩

def failed (name : String) : Outcome → List Log.Record
  | .ok () => []
  | .error e => [⟨.error, .runner, s!"'{name}' failed: {e.message}"⟩]

end Log.Record

open Log.Record

namespace Launcher

/-- There is a program to start for the command, the launcher starts it, and it fails. -/
def breaksAt (l : Launcher) (c : Command) : Bool :=
  !c.isEmpty && !l.dryRun && (l.world c).fails

section

variable (l : Launcher) (name : String) (limit : Option Nat) (flushFails : Bool)

/-- What is said about the line of the last of some commands. -/
def warnings (cs : List Command) : List Log.Record :=
  if l.announces then
    ((Sink.trouble? limit flushFails (l.transcript cs).utf8ByteSize).map unechoed).toList
  else []

/-- What is said about a command behind others. -/
def remarks (before : List Command) (c : Command) : List Log.Record :=
  match c.program? with
  | none => [skipped name]
  | some program =>
    l.warnings limit flushFails ((before ++ [c]).filter (!·.isEmpty)) ++
      if l.dryRun then [] else [spawning program]

/-- What is said about commands behind others. -/
def trace : List Command → List Command → List Log.Record
  | _, [] => []
  | before, c :: cs => l.remarks name limit flushFails before c ++ trace (before ++ [c]) cs

end

end Launcher

/-! ## Lines that cannot be written -/

namespace Sink

theorem length_lineBytes_pos (line : String) : 0 < (lineBytes line).length := by
  have hlineFeed : "\n".toUTF8.data.toList.length = 1 := by decide
  rw [lineBytes_eq, List.length_append, hlineFeed]
  omega

theorem writeLine_after (limit : Option Nat) (flushFails : Bool) (bytes : List UInt8)
    (line : String) :
    (((limited limit flushFails).after bytes).writeLine line).1 =
      match trouble? limit flushFails (bytes.length + (lineBytes line).length) with
      | none => .ok ()
      | some e => .error e := by
  cases limit with
  | none => cases flushFails <;> rfl
  | some n =>
    -- A line has a byte at least, so it does not fit where the lines before it did not.
    have hpos := length_lineBytes_pos line
    by_cases hfits : bytes.length + (lineBytes line).length ≤ n
    · have hline : (lineBytes line).length ≤ n - bytes.length := by omega
      have hlimit : ¬ n < bytes.length + (lineBytes line).length := by omega
      cases flushFails <;> simp [after, writeLine, write, limited, flush, trouble?, hline, hlimit]
    · have hline : ¬ (lineBytes line).length ≤ n - bytes.length := by omega
      have hlimit : n < bytes.length + (lineBytes line).length := by omega
      simp [after, writeLine, write, limited, trouble?, hline, hlimit]

end Sink

/-! ## One command -/

namespace Launcher

variable {l : Launcher} {c : Command} {program : String}

theorem size_transcript (l : Launcher) (cs : List Command) :
    (l.transcript cs).utf8ByteSize = ((l.lines cs).flatMap Sink.lineBytes).length := by
  rw [Sink.flatMap_lineBytes, transcript_eq]
  rfl

theorem records_announce (c : Command) (sink : Sink) :
    (announce c sink).records =
      match (sink.writeLine c.text).1 with
      | .ok () => []
      | .error e => [unechoed e] := by
  unfold announce
  rcases sink.writeLine c.text with ⟨e | ⟨⟩, t⟩ <;> rfl

theorem records_runner (l : Launcher) (h : c.program? = some program) (sink : Sink) :
    (l.runner c sink).records =
      (if l.announces then (announce c sink).records else []) ++
        if l.dryRun then [] else [spawning program] := by
  cases hannounces : l.announces <;> cases hdry : l.dryRun <;>
    simp [runner, h, hannounces, hdry, launch, spawning]

/-- The sink behind the lines of commands. -/
def sinkBehind (l : Launcher) (limit : Option Nat) (flushFails : Bool) (before : List Command) :
    Sink :=
  (l.lines (before.filter (!·.isEmpty))).foldl Sink.offer (.limited limit flushFails)

section

variable (l) (limit : Option Nat) (flushFails : Bool) (before : List Command)

theorem sinkBehind_of_isEmpty (hc : c.isEmpty = true) :
    l.sinkBehind limit flushFails (before ++ [c]) = l.sinkBehind limit flushFails before := by
  simp [sinkBehind, hc]

theorem value_runner_behind (hc : c.isEmpty = false) :
    (l.runner c (l.sinkBehind limit flushFails before)).value =
      (l.outcome c, l.sinkBehind limit flushFails (before ++ [c])) := by
  have hfilter : (before ++ [c]).filter (!·.isEmpty) = before.filter (!·.isEmpty) ++ [c] := by
    simp [hc]
  rw [l.value_runner_of_not_empty hc, sinkBehind, sinkBehind, hfilter, lines_append,
    List.foldl_append]

theorem records_announce_behind (hannounces : l.announces = true) (hc : c.isEmpty = false) :
    (announce c (l.sinkBehind limit flushFails before)).records =
      l.warnings limit flushFails ((before ++ [c]).filter (!·.isEmpty)) := by
  have hlines : l.lines ((before ++ [c]).filter (!·.isEmpty)) =
      l.lines (before.filter (!·.isEmpty)) ++ [c.text] := by
    simp [lines, hannounces, hc]
  rw [records_announce, sinkBehind, Sink.foldl_offer, Sink.writeLine_after, warnings,
    if_pos hannounces, size_transcript, hlines, List.flatMap_append, List.length_append,
    List.flatMap_singleton]
  cases Sink.trouble? limit flushFails _ <;> rfl

theorem records_runner_behind (hc : c.isEmpty = false) (name : String) :
    (l.runner c (l.sinkBehind limit flushFails before)).records =
      l.remarks name limit flushFails before c := by
  obtain ⟨program, hprogram⟩ := Command.exists_program hc
  rw [l.records_runner hprogram, remarks, hprogram]
  cases hannounces : l.announces with
  | false => simp [warnings, hannounces]
  | true => rw [if_pos rfl, l.records_announce_behind limit flushFails before hannounces hc]

end

theorem outcome_eq_ok_iff (hc : c.isEmpty = false) : l.outcome c = .ok () ↔ l.breaksAt c = false := by
  cases hdry : l.dryRun with
  | true => simp [outcome, breaksAt, hdry]
  | false => simp [outcome, breaksAt, hdry, hc, Exit.outcome_eq_ok_iff]

/-! ## All commands -/

/-- What is said about commands behind others, and then about the failure of one. -/
theorem records_runAll (l : Launcher) (name : String) (limit : Option Nat) (flushFails : Bool)
    (before cs : List Command) :
    (l.runner.runAll name cs (l.sinkBehind limit flushFails before)).records =
      l.trace name limit flushFails before (upToFirst l.breaksAt cs) ++
        failed name (l.runner.runAll name cs (l.sinkBehind limit flushFails before)).value.1 := by
  induction cs generalizing before with
  | nil => rfl
  | cons c cs ih =>
    cases hc : c.isEmpty with
    | true =>
      have hbreaks : l.breaksAt c = false := by simp [breaksAt, hc]
      have hremarks : l.remarks name limit flushFails before c = [skipped name] := by
        rw [remarks, Command.program?_of_isEmpty hc]
      rw [upToFirst_cons_of_neg hbreaks, trace, hremarks, Runner.runAll, if_pos hc,
        Logged.records_bind, Logged.records_say, Logged.value_bind,
        ← l.sinkBehind_of_isEmpty limit flushFails before hc, ih]
      rfl
    | false =>
      have hvalue := l.value_runner_behind limit flushFails before hc
      have hrecords := l.records_runner_behind limit flushFails before hc name
      rw [Runner.runAll, if_neg (by simp [hc]), Logged.records_bind, Logged.value_bind, hvalue,
        hrecords]
      rcases houtcome : l.outcome c with e | ⟨⟩
      · have hbreaks : l.breaksAt c = true := by
          by_contra hne
          rw [(outcome_eq_ok_iff hc).2 (eq_false_of_ne_true hne)] at houtcome
          cases houtcome
        rw [upToFirst_cons_of_pos hbreaks, trace, trace, List.append_nil]
        rfl
      · rw [upToFirst_cons_of_neg ((outcome_eq_ok_iff hc).1 houtcome), trace, List.append_assoc,
          ← ih]

/-- The log of a run: a header; for each command up to the first that fails, that it is passed over or
else what became of its line and that its program is started; at last the failure, if there is one. -/
theorem records_run (l : Launcher) (d : Directive) (limit : Option Nat) (flushFails : Bool) :
    (d.run l.runner (.limited limit flushFails)).records =
      header d ::
        (l.trace d.name limit flushFails [] (upToFirst l.breaksAt d.commands) ++
          failed d.name (d.run l.runner (.limited limit flushFails)).value.1) := by
  have hsink : Sink.limited limit flushFails = l.sinkBehind limit flushFails [] := by
    rw [sinkBehind, List.filter_nil, lines_nil]
    rfl
  rw [Directive.run, Logged.records_bind, Logged.value_bind, hsink, records_runAll]
  rfl

/-- There is room for the first of two lines. -/
example :
    trace ⟨true, false, fun _ => .status 0⟩ "d" (some 5) false [] [⟨["a"]⟩, ⟨[]⟩, ⟨["b", "c"]⟩] =
      [spawning "a", skipped "d", unechoed .full, spawning "b"] := by
  decide +kernel

end Launcher

end BuildTool
