import RemoteCall.Message.Stream

/-! Reading frames off a stream whose bytes come in pieces.

A reader asks for a number of bytes and waits until so many have come: first for the two lengths,
then for the rest of the frame. What it did not ask for stays in the stream. -/
namespace RemoteCall.Stream

def joined : List ByteArray → ByteArray
  | [] => .empty
  | bytes :: rest => bytes ++ joined rest

/-- Takes so many bytes from the front, if all pieces together have them. A piece that is cut leaves
the rest of itself in front. -/
def takeExact : Nat → List ByteArray → Option (ByteArray × List ByteArray)
  | n, [] => if n = 0 then some (.empty, []) else none
  | n, piece :: rest =>
    if n < piece.size then some (piece.extract 0 n, piece.extract n piece.size :: rest)
    else (takeExact (n - piece.size) rest).map fun x => (piece ++ x.1, x.2)

/-- Waits for so many bytes; the end of the stream is a fault. -/
def readExact (n : Nat) (pieces : List ByteArray) : Except Malformed (ByteArray × List ByteArray) :=
  match takeExact n pieces with
  | none => .error .ended
  | some x => .ok x

def nextFrame (pieces : List ByteArray) : Except Malformed (ByteArray × List ByteArray) := do
  let (lengths, pieces) ← readExact lengthsSize pieces
  let header := bigEndianAt lengths 0 4
  let total := header + bigEndianAt lengths 4 4
  if header < headSize then .error (.headerBelowHead header)
  else if maxFrame < total then .error .tooLong
  else
    let (others, pieces) ← readExact (total - lengthsSize) pieces
    pure (lengths ++ others, pieces)

/-- Reads a frame off the front of a stream that is all there; yields it with the bytes behind it.
-/
def splitFrame (stream : ByteArray) : Except Malformed (ByteArray × ByteArray) :=
  (readFrame stream 0).map fun x => (x.1, stream.extract x.2 stream.size)

end RemoteCall.Stream
