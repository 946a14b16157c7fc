/-!
# Sinks

A sink takes bytes in order, and perhaps only so many of them in all. What does not fit is lost, and
the writer is told. A sink may also be unable to pass on what it took (`flushFails`).
-/

namespace BuildTool

structure Sink where
  /-- How many more bytes fit; `none` if there is no limit. -/
  room : Option Nat
  flushFails : Bool
  taken : Array UInt8
deriving DecidableEq

inductive Sink.Error where
  | full
  | flushFailed
deriving DecidableEq

namespace Sink

def Error.message : Error → String
  | full => "sink full"
  | flushFailed => "flush failed"

/-- A sink that takes everything. -/
def unlimited : Sink :=
  ⟨none, false, #[]⟩

def limited (limit : Option Nat) (flushFails : Bool) : Sink :=
  ⟨limit, flushFails, #[]⟩

/-- Takes what fits of `bytes`. -/
def write (s : Sink) (bytes : List UInt8) : Except Error Unit × Sink :=
  match s.room with
  | none => (.ok (), { s with taken := s.taken ++ bytes })
  | some n =>
    (if bytes.length ≤ n then .ok () else .error .full,
      { s with room := some (n - bytes.length), taken := s.taken ++ bytes.take n })

def flush (s : Sink) : Except Error Unit :=
  if s.flushFails then .error .flushFailed else .ok ()

/-- The bytes of a line with its line feed. -/
def lineBytes (line : String) : List UInt8 :=
  (line ++ "\n").toUTF8.data.toList

/-- Writes a line and passes it on. -/
def writeLine (s : Sink) (line : String) : Except Error Unit × Sink :=
  match s.write (lineBytes line) with
  | (.ok (), s) => (s.flush, s)
  | (.error e, s) => (.error e, s)

/-- The bytes taken as text. Where the limit cuts a character the replacement character stands for its
front. -/
def text (s : Sink) : String :=
  match String.fromUTF8? ⟨s.taken⟩ with
  | some t => t
  | none =>
    match (List.range 4).findSome? fun k => String.fromUTF8? ⟨s.taken.take (s.taken.size - k)⟩ with
    | some t => t.push '\ufffd'
    | none => ""

/-- A whole text that was taken is read back. -/
theorem text_of_taken {s : Sink} {t : String} (h : s.taken = t.toUTF8.data) : s.text = t := by
  have hd : String.fromUTF8? ⟨t.toUTF8.data⟩ = some t := by
    simp only [String.fromUTF8?, Option.dite_none_right_eq_some, Option.some.injEq]
    exact ⟨t.isValidUTF8, rfl⟩
  rw [text, h, hd]

end Sink

end BuildTool
