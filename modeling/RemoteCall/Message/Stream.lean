import RemoteCall.Message.Head

/-! Frames on a byte stream, one after the other.

The two lengths at the start of a frame say where it ends. A frame that claims more than the largest
size is refused before it is read. -/
namespace RemoteCall.Stream

/-- The largest frame a peer may send, and the largest payload a frame may inflate to. -/
def maxFrame : Nat := 16 * 1024 * 1024

/-- Reads the frame that begins at an index; yields it with the index after it. -/
def readFrame (stream : ByteArray) (start : Nat) : Except Malformed (ByteArray × Nat) :=
  let header := bigEndianAt stream start 4
  let total := header + bigEndianAt stream (start + 4) 4
  if stream.size < start + lengthsSize then .error .ended
  else if header < headSize then .error (.headerBelowHead header)
  else if maxFrame < total then .error .tooLong
  else if stream.size < start + total then .error .ended
  else .ok (stream.extract start (start + total), start + total)

/-- A frame that is read ends behind where it begins and within the stream, so the reading of all
frames ends. -/
theorem readFrame_lt {stream frame : ByteArray} {start next : Nat}
    (h : readFrame stream start = .ok (frame, next)) : start < next ∧ next ≤ stream.size := by
  unfold readFrame at h
  simp only [] at h
  split at h
  · cases h
  split at h
  · cases h
  split at h
  · cases h
  split at h
  · cases h
  rename_i head _ fits
  obtain ⟨-, rfl⟩ := Prod.mk.inj (Except.ok.inj h)
  simp only [headSize] at head
  omega

/-- All frames from an index on, and what ended the reading. -/
def readFrom (stream : ByteArray) (start : Nat) : List ByteArray × Malformed :=
  match _h : readFrame stream start with
  | .error m => ([], m)
  | .ok (frame, next) =>
    let (frames, fault) := readFrom stream next
    (frame :: frames, fault)
termination_by stream.size - start
decreasing_by have := readFrame_lt (by assumption); omega

/-- All frames of a stream. The end of the stream is a fault wherever it comes. -/
def readAll (stream : ByteArray) : List ByteArray × Malformed := readFrom stream 0

/-- A pipe between two ends: how many bytes it holds unread, and after how many bytes the reading
end closes, if it does. -/
structure Pipe where
  capacity : Nat
  keeps : Option Nat

/-- How many bytes can be written before writing fails. The pipe is filled and then emptied, over
and over, until the reading end has what it wants. -/
def Pipe.room (pipe : Pipe) : Option Nat :=
  pipe.keeps.map fun n => max 1 ((n + pipe.capacity - 1) / pipe.capacity) * pipe.capacity

def Pipe.accepts (pipe : Pipe) (written size : Nat) : Bool :=
  size == 0 || match pipe.room with
    | none => true
    | some room => written + size ≤ room

/-- Writes frames one after the other; says of each if it was accepted. After a failure the pipe is
closed, but nothing fails in writing nothing. -/
def Pipe.writeAll (pipe : Pipe) (written : Nat) : List ByteArray → List Bool
  | [] => []
  | frame :: rest =>
    let accepted := pipe.accepts written frame.size
    let written := if accepted then written + frame.size else written.max (pipe.room.getD 0)
    accepted :: Pipe.writeAll pipe written rest

def Pipe.received (pipe : Pipe) (frames : List ByteArray) : ByteArray :=
  let sent := frames.foldl (· ++ ·) ByteArray.empty
  match pipe.keeps with
  | none => sent
  | some n => sent.extract 0 n

end RemoteCall.Stream
