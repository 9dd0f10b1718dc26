import RemoteCall.Service
import RemoteCall.Stub
import RemoteCall.Work

/-! An invoker that answers on the spot: as scripted, and then from a table of services. -/
namespace RemoteCall

structure Sent where
  request : Request
  context : Context
  mode : CallMode

structure Loopback where
  script : List (Request → Result Dispatched) := []
  nextId : UInt32 := 1
  /-- The first one first. -/
  sent : List Sent := []

namespace Loopback

def takeId : Work Loopback UInt32 :=
  Work.modifyGet fun s => (s.nextId, { s with nextId := s.nextId + 1 })

def dispatch (d : Dispatcher (Work Loopback)) (context : Context) (request : Request)
    (mode : CallMode) :
    Work Loopback (Result Dispatched) := do
  let s ← Work.get
  Work.modify fun s =>
    { s with script := s.script.drop 1, sent := s.sent ++ [⟨request, context, mode⟩] }
  match s.script with
  | answer :: _ => pure (answer request)
  | [] => do pure (.ok (.single (← d.dispatch context request)))

def stub (d : Dispatcher (Work Loopback)) (serializer : SerializeType) (compressor : CompressType)
    (service : String) (mode : CallMode) : Stub (Work Loopback) where
  service
  invoker := { dispatch := dispatch d, serializer, compressor }
  nextId := takeId
  mode

end Loopback
end RemoteCall
