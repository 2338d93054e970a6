import Narration.Voice

/-!
# Results

* `Status`, `DocumentResult` : what became of a document;
* `Summary.countOf` : how many documents ended in some way;
* `Summary.lines` : what is said about a run.
-/

namespace Narration

/-- What became of a document. Results from elsewhere may have other endings. -/
inductive Status where
  | generated
  | skipped
  | previewed
  | failed
  | other (name : Text)
  deriving Repr, DecidableEq, Inhabited

/-- What became of a document, with its voices and the reason or the error. -/
structure DocumentResult where
  file : Text
  status : Status
  voices : List Voice
  reason : Text
  error : Text
  deriving Repr, DecidableEq, Inhabited

namespace DocumentResult

def skipped (file : Text) (voices : List Voice) (reason : String) : DocumentResult :=
  ⟨file, .skipped, voices, reason.toList, []⟩

def failed (file error : Text) : DocumentResult := ⟨file, .failed, [], [], error⟩

end DocumentResult

namespace Summary

/-- How many results have one of some endings. -/
def countOf (statuses : List Status) (results : List DocumentResult) : Nat :=
  results.countP fun r => statuses.contains r.status

def generated (results : List DocumentResult) : Nat := countOf [.generated] results

/-- A preview counts as skipped. -/
def skipped (results : List DocumentResult) : Nat := countOf [.skipped, .previewed] results

def failed (results : List DocumentResult) : Nat := countOf [.failed] results

/-- A line about one document. -/
def detail (r : DocumentResult) : Text :=
  "  ".toList ++ r.file ++ ':' :: ' ' :: match r.status with
    | .failed => r.error
    | .generated => Text.digits r.voices.length ++ " voice(s) generated".toList
    | _ => r.reason

/-- What is said about a run: the counts, and perhaps a line about each document. -/
def lines (results : List DocumentResult) (verbose : Bool) : List Text :=
  ["\nSummary:".toList,
    "  Generated: ".toList ++ Text.digits (generated results),
    "  Skipped:   ".toList ++ Text.digits (skipped results)] ++
  (if failed results = 0 then [] else ["  Failed:    ".toList ++ Text.digits (failed results)]) ++
  if verbose then "\nDetails:".toList :: results.map detail else []

end Summary
end Narration
