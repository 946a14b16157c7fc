import BuildTool.Proofs.Run.Sequencing
/-!
# What a launcher attempts

Whether a command fails is for the world to say, and a launcher asks it only if it runs commands in
earnest. It attempts commands up to the first that fails (`Launcher.Attempts`), and announces these and
no others (`Launcher.Attempts.sequence_eq`).
-/

namespace BuildTool

namespace Launcher

/-- What comes of a command that has something to run. -/
def outcome (l : Launcher) (c : Command) : Outcome :=
  if l.dryRun then .ok () else (l.world c).outcome (c.program?.getD "")

/-- The commands that are attempted, and what comes of them. -/
inductive Attempts (l : Launcher) : List Command → List Command → Outcome → Prop
  | all {cs : List Command} (h : ∀ c ∈ cs, l.outcome c = .ok ()) : Attempts l cs cs (.ok ())
  | first {before after : List Command} {c : Command} {e : Failure}
      (hbefore : ∀ b ∈ before, l.outcome b = .ok ()) (hc : l.outcome c = .error e) :
      Attempts l (before ++ c :: after) (before ++ [c]) (.error e)

/-- The lines of commands, if the launcher announces any. -/
def lines (l : Launcher) (cs : List Command) : List String :=
  if l.announces then cs.map Command.text else []

theorem lines_nil (l : Launcher) : l.lines [] = [] := by
  unfold lines
  split <;> rfl

theorem lines_append (l : Launcher) (xs ys : List Command) :
    l.lines (xs ++ ys) = l.lines xs ++ l.lines ys := by
  unfold lines
  split
  · exact List.map_append
  · rfl

variable {l : Launcher} {c : Command} {cs tried : List Command} {o : Outcome}

theorem value_runner_of_not_empty (l : Launcher) (h : c.isEmpty = false) (sink : Sink) :
    (l.runner c sink).value = (l.outcome c, (l.lines [c]).foldl Sink.offer sink) := by
  obtain ⟨p, hp⟩ := Command.exists_program h
  rw [l.value_runner hp, outcome, hp, lines]
  cases l.announces <;> rfl

theorem exists_attempts (l : Launcher) (cs : List Command) : ∃ tried o, l.Attempts cs tried o := by
  induction cs with
  | nil => exact ⟨[], .ok (), .all (by simp)⟩
  | cons c cs ih =>
    cases hc : l.outcome c with
    | error e => exact ⟨[c], .error e, @Attempts.first l [] cs c e (by simp) hc⟩
    | ok =>
      obtain ⟨tried, o, hcs⟩ := ih
      refine ⟨c :: tried, o, ?_⟩
      cases hcs with
      | all h => exact .all (List.forall_mem_cons.2 ⟨hc, h⟩)
      | @first before after d e hbefore hd =>
        exact @Attempts.first l (c :: before) after d e (List.forall_mem_cons.2 ⟨hc, hbefore⟩) hd

theorem Attempts.of_nil (h : l.Attempts [] tried o) : tried = [] ∧ o = .ok () := by
  generalize hcs : ([] : List Command) = cs at h
  cases h with
  | all _ => exact ⟨rfl, rfl⟩
  | first _ _ => simp at hcs

/-- The commands behind the first one are attempted if that one succeeds. -/
theorem Attempts.cons_cases (h : l.Attempts (c :: cs) tried o) :
    (l.outcome c = .ok () ∧ ∃ rest, tried = c :: rest ∧ l.Attempts cs rest o) ∨
    ∃ e, l.outcome c = .error e ∧ tried = [c] ∧ o = .error e := by
  generalize hcs : c :: cs = ds at h
  cases h with
  | all hok =>
    subst hcs
    obtain ⟨hc, hcs⟩ := List.forall_mem_cons.1 hok
    exact .inl ⟨hc, cs, rfl, .all hcs⟩
  | @first before after d e hbefore hd =>
    cases before with
    | nil =>
      cases hcs
      exact .inr ⟨e, hd, rfl, rfl⟩
    | cons b before =>
      cases hcs
      obtain ⟨hc, hbefore⟩ := List.forall_mem_cons.1 hbefore
      exact .inl ⟨hc, before ++ [d], rfl, .first hbefore hd⟩

/-- A launcher fails where the world says so, and leaves the lines of what it attempted. -/
theorem Attempts.sequence_eq (h : l.Attempts cs tried o) (hcs : ∀ c ∈ cs, c.isEmpty = false)
    (sink : Sink) :
    l.runner.sequence cs sink = (o, (l.lines tried).foldl Sink.offer sink) := by
  induction cs generalizing tried sink with
  | nil =>
    obtain ⟨rfl, rfl⟩ := h.of_nil
    rw [lines_nil]
    rfl
  | cons c cs ih =>
    obtain ⟨hc, hcs⟩ := List.forall_mem_cons.1 hcs
    have hrun := l.value_runner_of_not_empty hc sink
    rcases h.cons_cases with ⟨hok, rest, rfl, hrest⟩ | ⟨e, herror, rfl, rfl⟩
    · rw [hok] at hrun
      rw [Runner.sequence_cons_of_ok hrun, ih hrest hcs, ← List.foldl_append, ← lines_append,
        List.singleton_append]
    · rw [herror] at hrun
      rw [Runner.sequence_cons_of_error hrun]

/-- On an empty sink without a limit, the lines stand one below the other. -/
theorem Attempts.text_eq {d : Directive} (h : l.Attempts d.effective tried o) (sink : Sink)
    (hsink : sink.Holds "") :
    (d.run l.runner sink).value.1 = o ∧
      (d.run l.runner sink).value.2.text = String.join ((l.lines tried).map (· ++ "\n")) := by
  rw [d.value_run_eq_sequence, h.sequence_eq fun c hc => Directive.isEmpty_of_mem_effective hc]
  have hholds := hsink.foldl_offer (l.lines tried)
  rw [String.empty_append] at hholds
  exact ⟨rfl, hholds.text⟩

end Launcher

end BuildTool
