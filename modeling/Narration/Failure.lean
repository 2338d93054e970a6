import Narration.Report
import Narration.Settings
import Narration.Storage.Store

/-!
# Failures

* `Failure` : whatever can go wrong in a run;
* `Failure.message` : its wording;
* `Failure.isExpected` : whether it is one that a run reports and goes on;
* `Failure.isEndless` : whether it stands for a run that does not end.
-/

namespace Narration

/-- Whatever can go wrong in a run. A player whose name is no text cannot be searched for; `kind` says
what it is instead. -/
inductive Failure where
  | document (f : Documents.Fault)
  | speech (f : Speech.Fault)
  | store (f : Store.Fault)
  | slug (f : Slug.Fault)
  | address (f : Address.Fault)
  | markup (f : Markup.Fault)
  | settings (f : Settings.Fault)
  | playerName (kind : Text)
  deriving Repr, DecidableEq

def Failure.message : Failure → Text
  | document f => f.message
  | speech f => f.message
  | store f => f.message
  | slug f => f.message
  | address f => f.message
  | markup f => f.message
  | settings f => f.message
  | playerName kind =>
    if kind = "bytes".toList then "can only concatenate str (not \"bytes\") to str".toList
    else "decoding to str: need a bytes-like object, ".toList ++ kind ++ " found".toList

/-- Whether a run reports a failure and goes on: files and services may fail at any time. -/
def Failure.isExpected : Failure → Bool
  | document _ | speech _ => true
  | store (.broken _) => false
  | store _ => true
  | _ => false

/-- Whether a run hangs. Nothing comes after that, so nobody can report it. -/
def Failure.isEndless : Failure → Bool
  | markup .endless => true
  | _ => false

end Narration
