import RemoteCall.Codes
import RemoteCall.Duration

/-! Configuration of pools, clients and servers. What a file leaves out keeps its default. -/
namespace RemoteCall

/-- An enumeration stands in a file by the name of its value. -/
def enumerationDocument {α : Type} [Enumeration α] (a : α) : Except String Document :=
  .ok (.text (Enumeration.name a))

def enumerationField {α : Type} [Enumeration α] (default : α) : Option Document → Option α
  | none => some default
  | some (.text t) => Enumeration.ofName? t
  | some _ => none

structure PoolConfig where
  maxIdle : UInt64 := 20
  maxOpen : UInt64 := 30
  /-- An idle connection older than this is closed instead of used again; zero keeps it. -/
  idleTimeout : Duration := .ofSecs 60
  /-- The longest wait for a connection of a busy pool. -/
  waitTimeout : Option Duration := none
  failFast : Bool := false
deriving DecidableEq, Repr, Inhabited

instance : Encodable PoolConfig := ⟨fun c => Encodable.record [
  ("max_idle", Encodable.toDocument c.maxIdle),
  ("max_open", Encodable.toDocument c.maxOpen),
  ("idle_timeout", Encodable.toDocument c.idleTimeout),
  ("wait_timeout", Encodable.toDocument c.waitTimeout),
  ("fail_fast", Encodable.toDocument c.failFast)]⟩

instance : Decodable PoolConfig := ⟨fun levels d => do
  let base : PoolConfig := {}
  match ← d.fields? ["max_idle", "max_open", "idle_timeout", "wait_timeout", "fail_fast"] with
  | [maxIdle, maxOpen, idleTimeout, waitTimeout, failFast] =>
    pure {
      maxIdle := ← Decodable.withDefault levels base.maxIdle maxIdle
      maxOpen := ← Decodable.withDefault levels base.maxOpen maxOpen
      idleTimeout := ← Decodable.withDefault levels base.idleTimeout idleTimeout
      waitTimeout := ← Decodable.withDefault levels base.waitTimeout waitTimeout
      failFast := ← Decodable.withDefault levels base.failFast failFast }
  | _ => none⟩

structure ClientConfig where
  serializer : SerializeType := .json
  compressor : CompressType := .none
  /-- Zero leaves the time to connect unbounded. -/
  connectTimeout : Duration := .ofSecs 3
  nodelay : Option Bool := some true
  pool : PoolConfig := {}
  select : SelectMode := .roundRobin
  /-- The longest time that listing the instances may take. -/
  resolveTimeout : Duration := .ofSecs 5
deriving DecidableEq, Repr, Inhabited

instance : Encodable ClientConfig := ⟨fun c => Encodable.record [
  ("serialize_type", enumerationDocument c.serializer),
  ("compress_type", enumerationDocument c.compressor),
  ("connect_timeout", Encodable.toDocument c.connectTimeout),
  ("nodelay", Encodable.toDocument c.nodelay),
  ("pool", Encodable.toDocument c.pool),
  ("select_mode", enumerationDocument c.select),
  ("resolve_timeout", Encodable.toDocument c.resolveTimeout)]⟩

instance : Decodable ClientConfig := ⟨fun levels d => do
  let base : ClientConfig := {}
  match ← d.fields? ["serialize_type", "compress_type", "connect_timeout", "nodelay", "pool",
      "select_mode", "resolve_timeout"] with
  | [serializer, compressor, connectTimeout, nodelay, pool, select, resolveTimeout] =>
    pure {
      serializer := ← enumerationField base.serializer serializer
      compressor := ← enumerationField base.compressor compressor
      connectTimeout := ← Decodable.withDefault levels base.connectTimeout connectTimeout
      nodelay := ← Decodable.withDefault levels base.nodelay nodelay
      pool := ← Decodable.withDefault levels base.pool pool
      select := ← enumerationField base.select select
      resolveTimeout := ← Decodable.withDefault levels base.resolveTimeout resolveTimeout }
  | _ => none⟩

structure ServerConfig where
  /-- The address to listen on. -/
  addr : String := "127.0.0.1:8081"
  /-- The address that registries announce, where it differs. -/
  advertiseAddr : Option String := none
  registerTimeout : Duration := .ofSecs 3
  weight : UInt32 := 1
  group : Option String := none
  nodelay : Option Bool := some true
deriving DecidableEq, Repr, Inhabited

instance : Encodable ServerConfig := ⟨fun c => Encodable.record [
  ("addr", Encodable.toDocument c.addr),
  ("advertise_addr", Encodable.toDocument c.advertiseAddr),
  ("register_timeout", Encodable.toDocument c.registerTimeout),
  ("weight", Encodable.toDocument c.weight),
  ("group", Encodable.toDocument c.group),
  ("nodelay", Encodable.toDocument c.nodelay)]⟩

instance : Decodable ServerConfig := ⟨fun levels d => do
  let base : ServerConfig := {}
  match ← d.fields? ["addr", "advertise_addr", "register_timeout", "weight",
    "group", "nodelay"] with
  | [addr, advertiseAddr, registerTimeout, weight, group, nodelay] =>
    pure {
      addr := ← Decodable.withDefault levels base.addr addr
      advertiseAddr := ← Decodable.withDefault levels base.advertiseAddr advertiseAddr
      registerTimeout := ← Decodable.withDefault levels base.registerTimeout registerTimeout
      weight := ← Decodable.withDefault levels base.weight weight
      group := ← Decodable.withDefault levels base.group group
      nodelay := ← Decodable.withDefault levels base.nodelay nodelay }
  | _ => none⟩

end RemoteCall
