import BuildTool.Proofs.Run.Output
/-!
# What a dry run predicts

A dry run lists what a run in earnest would announce, were there no failures. The run in earnest
announces the front of the list up to the first command whose program fails (`upToFirst`), and its
failure names that program. Main result: `Launcher.run_predicted`.
-/

namespace BuildTool

/-- The front of a list up to the first element with a property, which is the last of the front. -/
def upToFirst {α : Type} (p : α → Bool) : List α → List α
  | [] => []
  | x :: xs => if p x then [x] else x :: upToFirst p xs

section

variable {α : Type} {p : α → Bool} {x : α} {xs : List α}

theorem upToFirst_cons_of_pos (h : p x = true) (xs : List α) : upToFirst p (x :: xs) = [x] :=
  if_pos h

theorem upToFirst_cons_of_neg (h : p x = false) (xs : List α) :
    upToFirst p (x :: xs) = x :: upToFirst p xs := by
  rw [upToFirst, if_neg (by simp [h])]

theorem upToFirst_eq_self (h : ∀ x ∈ xs, p x = false) : upToFirst p xs = xs := by
  induction xs with
  | nil => rfl
  | cons x xs ih =>
    obtain ⟨hx, hxs⟩ := List.forall_mem_cons.1 h
    rw [upToFirst_cons_of_neg hx, ih hxs]

theorem upToFirst_append_cons (h : ∀ x ∈ xs, p x = false) (hx : p x = true) (ys : List α) :
    upToFirst p (xs ++ x :: ys) = xs ++ [x] := by
  induction xs with
  | nil => exact upToFirst_cons_of_pos hx ys
  | cons y xs ih =>
    obtain ⟨hy, hxs⟩ := List.forall_mem_cons.1 h
    rw [List.cons_append, upToFirst_cons_of_neg hy, ih hxs, List.cons_append]

end

/-- The program was not started, ended with a status other than zero, or was killed. -/
def Exit.fails : Exit → Bool
  | refused _ => true
  | status code => code ≠ 0
  | killed => true

/-- The program that a failure is about. -/
def Failure.program? : Failure → Option String
  | emptyCommand => none
  | spawn program _ => some program
  | failed program _ => some program

namespace Exit

variable {x : Exit} {program : String}

theorem outcome_eq_ok_iff : x.outcome program = .ok () ↔ x.fails = false := by
  cases x with
  | refused reason => simp [outcome, fails]
  | status code =>
    by_cases hcode : code = 0
    · simp [outcome, fails, hcode]
    · simp [outcome, fails, hcode]
  | killed => simp [outcome, fails]

theorem fails_of_outcome_eq_error {e : Failure} (h : x.outcome program = .error e) :
    x.fails = true := by
  by_contra hfails
  rw [outcome_eq_ok_iff.2 (eq_false_of_ne_true hfails)] at h
  cases h

theorem program?_of_outcome_eq_error {e : Failure} (h : x.outcome program = .error e) :
    e.program? = some program := by
  unfold outcome at h
  split at h
  · cases h
    rfl
  · split at h
    · cases h
    · cases h
      rfl
  · cases h
    rfl

end Exit

theorem Command.listing_append (xs ys : List Command) :
    listing (xs ++ ys) = listing xs ++ listing ys := by
  rw [listing, List.map_append, String.join_append]
  rfl

namespace Launcher

variable {l : Launcher} {cs tried : List Command} {o : Outcome}

/-- On a sink without a limit, a launcher that announces leaves the list of what it attempted. -/
theorem Attempts.text_eq_listing {d : Directive} (h : l.Attempts d.effective tried o)
    (hannounces : l.announces = true) (flushFails : Bool) :
    (d.run l.runner (.limited none flushFails)).value.1 = o ∧
      (d.run l.runner (.limited none flushFails)).value.2.text = Command.listing tried := by
  have hlisting : Command.listing tried = String.join ((l.lines tried).map (· ++ "\n")) := by
    rw [← transcript_eq]
    exact (if_pos hannounces).symm
  rw [hlisting]
  exact h.text_eq _ (Sink.holds_empty flushFails)

theorem attempts_of_dryRun (h : l.dryRun = true) (cs : List Command) :
    l.Attempts cs cs (.ok ()) :=
  .all fun _ _ => if_pos h

theorem outcome_of_earnest (h : l.dryRun = false) (c : Command) :
    l.outcome c = (l.world c).outcome (c.program?.getD "") :=
  if_neg (by simp [h])

/-- A run in earnest attempts commands up to the first whose program fails, and fails over it. -/
theorem Attempts.cases_of_earnest (h : l.Attempts cs tried o) (hearnest : l.dryRun = false) :
    tried = upToFirst (fun c => (l.world c).fails) cs ∧
    ((o = .ok () ∧ tried = cs ∧ ∀ c ∈ cs, (l.world c).fails = false) ∨
      ∃ before c after e, cs = before ++ c :: after ∧ tried = before ++ [c] ∧
        (l.world c).fails = true ∧ o = .error e ∧ e.program? = some (c.program?.getD "")) := by
  have hworld : ∀ {c : Command}, l.outcome c = .ok () → (l.world c).fails = false := by
    intro c hc
    rw [outcome_of_earnest hearnest] at hc
    exact Exit.outcome_eq_ok_iff.1 hc
  cases h with
  | all hok =>
    have hnone : ∀ c ∈ cs, (l.world c).fails = false := fun c hc => hworld (hok c hc)
    exact ⟨(upToFirst_eq_self hnone).symm, .inl ⟨rfl, rfl, hnone⟩⟩
  | @first before after c e hbefore hc =>
    have hnone : ∀ b ∈ before, (l.world b).fails = false := fun b hb => hworld (hbefore b hb)
    rw [outcome_of_earnest hearnest] at hc
    have hfails := Exit.fails_of_outcome_eq_error hc
    exact ⟨(upToFirst_append_cons hnone hfails after).symm, .inr ⟨before, c, after, e, rfl, rfl,
      hfails, rfl, Exit.program?_of_outcome_eq_error hc⟩⟩

/-- A dry run succeeds and lists all commands that have something to run. With the same commands a run
in earnest that announces lists them up to the first whose program fails. It succeeds if there is none,
and else its failure names the program of the last command listed. -/
theorem run_predicted (d : Directive) (world other : World) (echo flushFails flushFails' : Bool) :
    let dry := (d.run (runner ⟨echo, true, other⟩) (.limited none flushFails)).value
    let real := (d.run (runner ⟨true, false, world⟩) (.limited none flushFails')).value
    let ran := upToFirst (fun c => (world c).fails) d.effective
    dry.1 = .ok () ∧ dry.2.text = Command.listing d.effective ∧
    real.2.text = Command.listing ran ∧
    (∃ rest, d.effective = ran ++ rest ∧ dry.2.text = real.2.text ++ Command.listing rest) ∧
    (real.1 = .ok () ↔ ∀ c ∈ d.effective, (world c).fails = false) ∧
    (real.1 = .ok () → real.2.text = dry.2.text) ∧
    ∀ e, real.1 = .error e → e ≠ .emptyCommand ∧
      ∃ c p, ran.getLast? = some c ∧ (world c).fails = true ∧ c.program? = some p ∧
        e.program? = some p := by
  intro dry real ran
  obtain ⟨hdry, hlisted⟩ : dry.1 = .ok () ∧ dry.2.text = Command.listing d.effective :=
    (attempts_of_dryRun (l := ⟨echo, true, other⟩) rfl d.effective).text_eq_listing
      (by simp [announces]) flushFails
  obtain ⟨tried, o, htried⟩ := exists_attempts ⟨true, false, world⟩ d.effective
  obtain ⟨houtcome, htext⟩ : real.1 = o ∧ real.2.text = Command.listing tried :=
    htried.text_eq_listing rfl flushFails'
  obtain ⟨hran, hcases⟩ : tried = ran ∧ _ := htried.cases_of_earnest rfl
  refine ⟨hdry, hlisted, hran ▸ htext, ?_⟩
  rcases hcases with ⟨rfl, rfl, hnone⟩ | ⟨before, c, after, e, hsplit, hlast, hfails, rfl, hnames⟩
  · rw [houtcome, hlisted, htext, ← hran]
    exact ⟨⟨[], by simp [Command.listing]⟩, iff_of_true rfl hnone, fun _ => rfl, by simp⟩
  · have hmem : c ∈ d.effective := by simp [hsplit]
    obtain ⟨p, hp⟩ := Command.exists_program (Directive.isEmpty_of_mem_effective hmem)
    rw [hp] at hnames
    rw [houtcome, hlisted, htext, ← hran]
    refine ⟨⟨after, by simp [hsplit, hlast], ?_⟩, ?_, by simp, ?_⟩
    · rw [← Command.listing_append]
      simp [hsplit, hlast]
    · refine iff_of_false (by simp) fun hnone => ?_
      exact Bool.false_ne_true ((hnone c hmem).symm.trans hfails)
    · rintro _ ⟨⟩
      refine ⟨?_, c, p, by simp [hlast], hfails, hp, hnames⟩
      rintro rfl
      cases hnames

/-- The second program is killed. -/
theorem run_predicted_of_killed :
    let world : World := fun c => if c.program? = some "b" then .killed else .status 0
    let d : Directive := ⟨"d", [⟨["a", "x y"]⟩, ⟨[]⟩, ⟨["b"]⟩, ⟨["c"]⟩]⟩
    let e : Directive := ⟨"e", [⟨["a"]⟩, ⟨[""]⟩]⟩
    let real (d : Directive) := (d.run (runner ⟨true, false, world⟩) (.limited none true)).value
    let dry (d : Directive) := (d.run (runner ⟨false, true, world⟩) (.limited none false)).value
    ((real d).1 = .error (.failed "b" none) ∧
      (real d).2.text = Command.listing [⟨["a", "x y"]⟩, ⟨["b"]⟩] ∧
      (dry d).2.text = Command.listing [⟨["a", "x y"]⟩, ⟨["b"]⟩, ⟨["c"]⟩] ∧
      Failure.failed "b" none ≠ .emptyCommand) ∧
    ((real e).1 = .ok () ∧ (real e).2.text = (dry e).2.text) := by
  intro world d e real dry
  have hfailed : (real d).1 = .error (.failed "b" none) := rfl
  have hsucceeded : (real e).1 = .ok () := rfl
  obtain ⟨-, hlisted, htext, -, -, -, herror⟩ := run_predicted d world world false false true
  obtain ⟨-, -, -, -, -, hsame, -⟩ := run_predicted e world world false false true
  exact ⟨⟨hfailed, htext, hlisted, (herror _ hfailed).1⟩, hsucceeded, hsame hsucceeded⟩

end Launcher

end BuildTool
