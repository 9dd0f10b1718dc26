import RemoteCall.Message.Response
import RemoteCall.Message.Stream

/-! Links: the two byte streams of a connection, as they stand between a client and its peer.

The peer takes frame by frame and handles one after the other, so what it writes stands in the order
of the frames. -/
namespace RemoteCall

/-- What a peer does with a frame: the bytes that it writes, and whether it then ends the
connection. -/
structure Handled where
  written : ByteArray := .empty
  ends : Bool := false
deriving Inhabited

structure Writer where
  ticket : Nat
  request : Request

structure Answer where
  ticket : Nat
  frame : ByteArray
  handled : Handled

structure Link where
  /-- Bytes of the client that the peer has not taken yet. -/
  sent : ByteArray := .empty
  /-- Those whose frames are among them whole, the oldest first. -/
  writers : List Writer := []
  /-- Bytes of the peer that nobody has read yet. -/
  unread : ByteArray := .empty
  /-- The peer will write no more. -/
  ended : Bool := false
  /-- What the peer has handled, the last one last. -/
  answers : List Answer := []
deriving Inhabited

namespace Link

/-- The oldest frame that the peer has not handled, and where the next one begins. -/
def oldest? (l : Link) : Option (ByteArray × Nat) :=
  if l.ended then none else (Stream.readFrame l.sent 0).toOption

/-- The peer will take no further frame: the connection has ended, or what comes next is none. -/
def isStuck (l : Link) : Bool :=
  l.ended || match Stream.readFrame l.sent 0 with
    | .ok _ | .error .ended => false
    | .error _ => true

def write (l : Link) (bytes : ByteArray) : Link := { l with sent := l.sent ++ bytes }

def sign (l : Link) (w : Writer) : Link := { l with writers := l.writers ++ [w] }

def handle (l : Link) (frame : ByteArray) (h : Handled) : Link :=
  match l.oldest? with
  | none => l
  | some (oldest, next) =>
    if oldest.data = frame.data then
      { sent := l.sent.extract next l.sent.size
        writers := l.writers.tail
        unread := l.unread ++ h.written
        ended := h.ends
        answers := l.answers ++ l.writers.head?.toList.map fun w => ⟨w.ticket, frame, h⟩ }
    else l

/-- The connection ends; of what the peer has written only some bytes arrive. -/
def hangUp (l : Link) (arriving : Nat) : Link :=
  { l with unread := l.unread.extract 0 arriving, ended := true }

def awaits (frame : ByteArray) : Bool :=
  match Request.decode frame with
  | .ok request => !request.isOneway
  | .error _ => false

def owes (l : Link) : Bool := !l.ended && (Stream.readAll l.sent).1.any awaits

end Link
end RemoteCall
