import RemoteCall.Context.Basic
import RemoteCall.Message.Response

/-! Handlers of requests, and interceptors that stand before them on either side of the wire.

A handler acts in a monad of its surroundings: a connection on the side of the client, the table of
services on the side of the server. -/
namespace RemoteCall

abbrev Handler (m : Type → Type) := Context → Request → m (Result Response)

/-- Makes a handler out of the next one. An interceptor that does not deal with an error hands it on
unchanged. -/
abbrev Interceptor (m : Type → Type) := Handler m → Handler m

/-- The first interceptor stands outermost. -/
def chain {m : Type → Type} (interceptors : List (Interceptor m)) (handler : Handler m) :
    Handler m :=
  interceptors.foldr (fun interceptor next => interceptor next) handler

def watching {m : Type → Type} : Interceptor m := fun next => next

end RemoteCall
