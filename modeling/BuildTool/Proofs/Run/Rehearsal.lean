import BuildTool.Run.Launcher
import BuildTool.Proofs.Compile.Source
/-!
# Rehearsals

A dry run succeeds and leaves the lines of the commands that have something to run
(`Directive.value_run_of_dryRun`). Written between braces behind the name of a compiled directive, each
line with a semicolon at its end, they compile back to these commands
(`Compile.value_program_of_rehearsal`).
-/

namespace BuildTool

open Alphabet

/-! ## What a dry run writes -/

theorem Runner.value_runAll_of_ok {runner : Runner σ} {f : σ → Command → σ}
    (h : ∀ c s, c.isEmpty = false → (runner c s).value = (.ok (), f s c))
    (name : String) (cs : List Command) (s : σ) :
    (runner.runAll name cs s).value = (.ok (), (cs.filter (!·.isEmpty)).foldl f s) := by
  induction cs generalizing s with
  | nil => rfl
  | cons c cs ih =>
    rw [Runner.runAll]
    cases hc : c.isEmpty with
    | true =>
      rw [if_pos rfl, List.filter_cons_of_neg (by simp [hc]), Logged.value_bind]
      exact ih s
    | false =>
      rw [if_neg Bool.false_ne_true, List.filter_cons_of_pos (by simp [hc]), List.foldl_cons,
        Logged.value_bind, h c s hc]
      exact ih (f s c)

namespace Sink

/-- The sink afterwards, whether it took the line or not. -/
def offer (s : Sink) (line : String) : Sink :=
  (s.writeLine line).2

/-- There is no limit, and a text is what was taken. -/
structure Holds (s : Sink) (t : String) : Prop where
  room : s.room = none
  taken : s.taken = t.toUTF8.data

theorem holds_empty (flushFails : Bool) : (limited none flushFails).Holds "" :=
  ⟨rfl, rfl⟩

theorem offer_of_room_eq_none {s : Sink} (h : s.room = none) (line : String) :
    s.offer line = { s with taken := s.taken ++ lineBytes line } := by
  simp only [offer, writeLine, write, h]

theorem Holds.offer {s : Sink} {t : String} (h : s.Holds t) (line : String) :
    (s.offer line).Holds (t ++ (line ++ "\n")) := by
  rw [offer_of_room_eq_none h.room]
  refine ⟨h.room, Array.ext' ?_⟩
  calc (s.taken ++ lineBytes line).toList
    _ = t.toUTF8.data.toList ++ (line ++ "\n").toUTF8.data.toList := by
      rw [Array.toList_appendList, h.taken, lineBytes]
    _ = (t ++ (line ++ "\n")).toUTF8.data.toList := by
      rw [← Array.toList_append, ← ByteArray.data_append]
      exact congrArg (·.data.toList) String.toByteArray_append.symm

/-- A sink without a limit takes lines in their order, each with its line feed. -/
theorem Holds.foldl_offer {s : Sink} {t : String} (h : s.Holds t) (lines : List String) :
    (lines.foldl Sink.offer s).Holds (t ++ String.join (lines.map (· ++ "\n"))) := by
  induction lines generalizing s t with
  | nil => simpa using h
  | cons line lines ih =>
    rw [List.foldl_cons, List.map_cons, String.join_cons, ← String.append_assoc]
    exact ih (h.offer line)

theorem Holds.text {s : Sink} {t : String} (h : s.Holds t) : s.text = t :=
  text_of_taken h.taken

end Sink

namespace Launcher

theorem value_announce (c : Command) (sink : Sink) :
    (announce c sink).value = sink.offer c.text := by
  rw [Sink.offer]
  unfold announce
  split <;> rename_i hwritten <;> rw [hwritten] <;> rfl

theorem value_runner (l : Launcher) {c : Command} {p : String} (h : c.program? = some p)
    (sink : Sink) :
    (l.runner c sink).value =
      (if l.dryRun then .ok () else (l.world c).outcome p,
        if l.announces then sink.offer c.text else sink) := by
  cases hannounces : l.announces <;> cases hdry : l.dryRun <;>
    simp [runner, h, hannounces, hdry, value_announce, launch]

end Launcher

theorem Directive.value_run (d : Directive) (runner : Runner σ) (s : σ) :
    (d.run runner s).value = (runner.runAll d.name d.commands s).value := rfl

/-- A dry run offers the line of every command that has something to run. -/
theorem Directive.value_run_of_dryRun (d : Directive) {l : Launcher} (h : l.dryRun = true)
    (sink : Sink) :
    (d.run l.runner sink).value =
      (.ok (), (d.effective.map Command.text).foldl Sink.offer sink) := by
  rw [Directive.value_run, List.foldl_map, Directive.effective]
  -- In a dry run the launcher answers `ok` whatever the world or the sink does.
  refine Runner.value_runAll_of_ok ?_ d.name d.commands sink
  intro c s hc
  obtain ⟨p, ps, hparts⟩ : ∃ p ps, c.parts = p :: ps := by
    rw [Command.isEmpty, List.isEmpty_eq_false_iff] at hc
    exact List.exists_cons_of_ne_nil hc
  have hprogram : c.program? = some p := by rw [Command.program?, hparts, List.head?_cons]
  rw [l.value_runner hprogram, h, Launcher.announces, h, Bool.or_true, if_pos rfl, if_pos rfl]

theorem Directive.text_run_of_dryRun (d : Directive) {l : Launcher} (h : l.dryRun = true)
    (flushFails : Bool) :
    (d.run l.runner (Sink.limited none flushFails)).value.2.text =
      String.join ((d.effective.map Command.text).map (· ++ "\n")) := by
  rw [d.value_run_of_dryRun h]
  have hholds := (Sink.holds_empty flushFails).foldl_offer (d.effective.map Command.text)
  rw [hholds.text, String.empty_append]

/-! ## Lines as commands -/

/-- A semicolon at the end of every line. -/
def withSemicolons (text : String) : String :=
  String.ofList (text.toList.flatMap fun c => if c = '\n' then [';', '\n'] else [c])

theorem withSemicolons_append (s t : String) :
    withSemicolons (s ++ t) = withSemicolons s ++ withSemicolons t := by
  rw [withSemicolons, String.toList_append, List.flatMap_append, String.ofList_append,
    withSemicolons, withSemicolons]

theorem withSemicolons_eq_self {text : String} (h : '\n' ∉ text.toList) :
    withSemicolons text = text := by
  have hchar : ∀ c ∈ text.toList, (if c = '\n' then [';', '\n'] else [c]) = [c] := by
    intro c hc
    refine if_neg ?_
    rintro rfl
    exact h hc
  rw [withSemicolons, List.flatMap_congr hchar, List.flatMap_singleton', String.ofList_toList]

theorem withSemicolons_line {line : String} (h : '\n' ∉ line.toList) :
    withSemicolons (line ++ "\n") = line ++ ";\n" := by
  rw [withSemicolons_append, withSemicolons_eq_self h]
  rfl

theorem withSemicolons_join {lines : List String} (h : ∀ line ∈ lines, '\n' ∉ line.toList) :
    withSemicolons (String.join (lines.map (· ++ "\n"))) = String.join (lines.map (· ++ ";\n")) := by
  induction lines with
  | nil => rfl
  | cons line lines ih =>
    obtain ⟨hline, hlines⟩ := List.forall_mem_cons.1 h
    rw [List.map_cons, String.join_cons, withSemicolons_append, withSemicolons_line hline, ih hlines,
      List.map_cons, String.join_cons]

/-- The parts hold no white space, and blanks stand between them. -/
theorem Command.Spelled.lineFeed_not_mem_text {c : Command} (h : c.Spelled) :
    '\n' ∉ c.text.toList := by
  obtain ⟨parts⟩ := c
  change '\n' ∉ (" ".intercalate parts).toList
  change ∀ w ∈ parts, Token.Kind.commandPart.Spells w at h
  induction parts with
  | nil => simp
  | cons w ws ih =>
    obtain ⟨hw, hws⟩ := List.forall_mem_cons.1 h
    have hword : '\n' ∉ w.toList := fun hmem =>
      absurd (hw.isSpace_eq_false _ hmem) (by decide)
    cases ws with
    | nil => rwa [String.intercalate_singleton]
    | cons v vs =>
      rw [String.intercalate_cons_cons, String.toList_append, String.toList_append,
        List.mem_append, List.mem_append]
      rintro ((hmem | hmem) | hmem)
      · exact hword hmem
      · exact absurd hmem (by decide)
      · exact ih hws hmem

/-! ## There and back -/

/-- Without its empty commands. -/
def Directive.pruned (d : Directive) : Directive :=
  ⟨d.name, d.effective⟩

theorem Directive.Spelled.pruned {d : Directive} (h : d.Spelled) : d.pruned.Spelled where
  name := h.name
  commands c hc := h.commands c (List.mem_of_mem_filter hc)

theorem Directive.Spelled.source_pruned {d : Directive} (h : d.Spelled) {l : Launcher}
    (hdry : l.dryRun = true) (flushFails : Bool) :
    d.pruned.source = d.name ++ " \x7b\n" ++
      withSemicolons (d.run l.runner (Sink.limited none flushFails)).value.2.text ++ "\x7d" := by
  have hlines : ∀ line ∈ d.effective.map Command.text, '\n' ∉ line.toList := by
    intro line hline
    obtain ⟨c, hc, rfl⟩ := List.mem_map.1 hline
    exact (h.pruned.commands c hc).lineFeed_not_mem_text
  rw [d.text_run_of_dryRun hdry, withSemicolons_join hlines, List.map_map]
  rfl

namespace Compile

/-- The text of a dry run of a compiled directive compiles back to the directive, less its empty
commands. -/
theorem value_program_of_rehearsal (source name : String) (d : Directive)
    (h : (parse source).value.program.find? name = some d) (echo flushFails : Bool) (world : World) :
    (program (name ++ " \x7b\n" ++
      withSemicolons
        (d.run (Launcher.runner ⟨echo, true, world⟩) (Sink.limited none flushFails)).value.2.text ++
      "\x7d")).value = .ok ⟨[⟨name, d.effective⟩]⟩ := by
  have hname : d.name = name := by simpa using List.find?_some h
  have hspelled : d.Spelled := spelled_of_mem_parse (List.mem_of_find?_eq_some h)
  have hprogram := value_program_source hspelled.pruned
  rw [hspelled.source_pruned (l := ⟨echo, true, world⟩) rfl flushFails, Directive.pruned,
    hname] at hprogram
  exact hprogram

theorem value_program_of_rehearsal_of_error :
    (program ("a" ++ " \x7b\n" ++ withSemicolons (Directive.run ⟨"a", [⟨["b", "c"]⟩, ⟨[]⟩, ⟨["d"]⟩]⟩
      (Launcher.runner ⟨false, true, fun _ => .killed⟩) (Sink.limited none true)).value.2.text ++
      "\x7d")).value = .ok ⟨[⟨"a", [⟨["b", "c"]⟩, ⟨["d"]⟩]⟩]⟩ :=
  value_program_of_rehearsal "a{b c;;d;}()" "a" ⟨"a", [⟨["b", "c"]⟩, ⟨[]⟩, ⟨["d"]⟩]⟩
    (by decide +kernel) false true fun _ => .killed

end Compile

end BuildTool
