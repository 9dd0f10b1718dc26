import RemoteCall.Interceptor.Basic

/-! Invokers: what sends a request somewhere, to one address or to a whole service. -/
namespace RemoteCall

structure InstanceReply where
  address : String
  outcome : Result Response

inductive Dispatched where
  | single (r : Response)
  /-- One reply of each instance. -/
  | stream (replies : List InstanceReply)

structure Invoker (m : Type → Type) where
  dispatch : Context → Request → CallMode → m (Result Dispatched)
  serializer : SerializeType := .json
  compressor : CompressType := .none

end RemoteCall
