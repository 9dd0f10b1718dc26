import RemoteCall.Service
import RemoteCall.Stub
import RemoteCall.Users

/-! The user table as a service, and as its callers see it. -/
namespace RemoteCall.Users

def serviceName : String := "user-service"

variable [Gzip.Encoder] {m : Type → Type} [Monad m]

/-- The service of a table, with a way to let time pass. -/
def service (sleep : Duration → m Unit) (t : Table) : Service m :=
  let s : Service m := { name := serviceName }
  ((s.addHandler "GetById" fun _ (r : Lookup) => pure (t.getById r)).addReplying "Export"
    fun _ (r : Selection) => pure (Table.exportUsers r)).addHandler "Sleep"
    fun _ (r : Nap) => do
      sleep (.ofMillis r.millis.toNat)
      pure (Except.ok (ε := Error) r)

namespace Client

def getById (s : Stub m) (context : Context) (r : Lookup) : m (Result Found) :=
  s.call context "GetById" r

/-- A failure comes without the users that were found. -/
def exportUsers (s : Stub m) (context : Context) (r : Selection) : m (Reply Exported) :=
  Reply.ofResult <$> s.call context "Export" r

def sleep (s : Stub m) (context : Context) (r : Nap) : m (Result Nap) := s.call context "Sleep" r

def getFromAll (s : Stub m) (context : Context) (r : Lookup) :
    m (Result (List (String × Result Found))) :=
  s.broadcastAll context "GetById" r

end Client

end RemoteCall.Users
