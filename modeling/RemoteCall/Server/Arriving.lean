import RemoteCall.Server.Serving

/-! Serving a connection whose bytes come piece by piece.

A server waits for more bytes only where the frame that it reads is not all there. What comes while
a request is handled stays unread until then. -/
namespace RemoteCall

/-- Waits until a time of the monotonic clock, not at all if that is past. -/
def Work.sleepUntil {σ : Type} (time : Int) : Work σ Unit :=
  .clock fun now => sleep (time - now.mono).toNat

structure Arrival where
  time : Int
  bytes : ByteArray

/-- Serves a connection with the bytes that have come and are not read yet, and those that are still
to come, after which the stream ends. Yields all that is written. -/
def Handler.serveArriving {σ : Type} (handler : Handler (Work σ)) (cancels : Cancels)
    (unread : ByteArray) (arrivals : List Arrival) : Work σ ByteArray :=
  match _h : Stream.readFrame unread 0 with
  | .ok (frame, next) => do
    let h ← handler.serveFrame cancels frame
    if h.ends then pure h.written
    else do
      let others ← handler.serveArriving cancels (unread.extract next unread.size) arrivals
      pure (h.written ++ others)
  | .error .ended =>
    match arrivals with
    | [] => pure .empty
    | a :: rest => do
      Work.sleepUntil a.time
      handler.serveArriving cancels (unread ++ a.bytes) rest
  | .error _ => pure .empty
termination_by (arrivals.length, unread.size)
decreasing_by
  · have := Stream.readFrame_lt (by assumption)
    apply Prod.Lex.right
    rw [ByteArray.size_extract]
    omega
  · apply Prod.Lex.left
    exact Nat.lt_succ_self _

end RemoteCall
