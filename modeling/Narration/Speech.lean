import Narration.Text.Basic

/-!
# Speech

A service turns text into audio. It is asked up to three times, after ever longer pauses.

* `Speech.Request` : what the service is asked;
* `Speech.Attempt` : how the service answers one request;
* `Speech` : the service, and what it has been asked;
* `Speech.Fault` : why there is no audio;
* `Speech.synthesize` : the audio of a text.
-/

namespace Narration

namespace Speech

/-- What the service is asked to say. -/
structure Request where
  text : Text
  voice : Text
  rate : Text
  deriving Repr, DecidableEq, Inhabited

/-- A piece of an answer: audio, or a remark on it. -/
inductive Piece where
  | audio (content : List UInt8)
  | remark
  deriving Repr, DecidableEq, Inhabited

/-- How the service answers a request: it refuses, or it sends pieces, after which the connection may
break. -/
inductive Attempt where
  | refused (message : Text)
  | sent (pieces : List Piece) (broken : Option Text)
  deriving Repr, DecidableEq, Inhabited

/-- What went wrong in one attempt. -/
inductive Trouble where
  | service (message : Text)
  | noAudio (voice : Text)
  deriving Repr, DecidableEq, Inhabited

/-- No attempt gave audio; the last went wrong as said. -/
structure Fault where
  voice : Text
  last : Trouble
  deriving Repr, DecidableEq, Inhabited

/-- How often the service is asked. -/
def maxAttempts : Nat := 3

def Trouble.message : Trouble → Text
  | .service message => message
  | .noAudio voice => "TTS produced no audio for voice ".toList ++ voice

def Fault.message (f : Fault) : Text :=
  "Synthesis with voice ".toList ++ f.voice ++ " failed after ".toList ++ Text.digits maxAttempts ++
    " attempts: ".toList ++ f.last.message

/-- The rate of speech unless another is asked for. -/
def defaultRate : Text := "+0%".toList

end Speech

/-- A service, given by its answer to a request after so many requests for the same voice; what it has
been asked; and the pauses made, in seconds. -/
structure Speech where
  answer : Speech.Request → (earlier : Nat) → Speech.Attempt
  requests : List Speech.Request
  pauses : List Nat

namespace Speech

/-- A service that has not been asked anything yet. -/
def ofAnswers (answer : Request → Nat → Attempt) : Speech := ⟨answer, [], []⟩

def Piece.content : Piece → List UInt8
  | .audio content => content
  | .remark => []

/-- The audio of an answer. -/
def Attempt.audio (voice : Text) : Attempt → Except Trouble (List UInt8)
  | .refused message => .error (.service message)
  | .sent _ (some message) => .error (.service message)
  | .sent pieces none =>
    let audio := pieces.flatMap Piece.content
    if audio.isEmpty then .error (.noAudio voice) else .ok audio

/-- Asks once. -/
def ask (s : Speech) (r : Request) : Except Trouble (List UInt8) × Speech :=
  let earlier := (s.requests.filter (·.voice = r.voice)).length
  ((s.answer r earlier).audio r.voice, { s with requests := s.requests ++ [r] })

/-- The pause after an attempt that failed, twice as long each time. -/
def pauseAfter (attempt : Nat) : Nat := Nat.pow 2 attempt

/-- Asks up to so many times, `attempt` being the number of attempts before. Also the number of
attempts that failed. -/
def askFrom (r : Request) (attempt : Nat) : (more : Nat) → (last : Trouble) → Speech →
    Except Fault (List UInt8) × Nat × Speech
  | 0, last, s => (.error ⟨r.voice, last⟩, attempt, s)
  | more + 1, _, s =>
    match s.ask r with
    | (.ok audio, s) => (.ok audio, attempt, s)
    | (.error trouble, s) =>
      let pauses := if more = 0 then s.pauses else s.pauses ++ [pauseAfter attempt]
      askFrom r (attempt + 1) more trouble { s with pauses }

/-- The audio of a text, or why there is none; how many attempts failed; and the service after
that. -/
def synthesize (s : Speech) (r : Request) : Except Fault (List UInt8) × Nat × Speech :=
  askFrom r 0 maxAttempts (.noAudio r.voice) s

end Speech
end Narration
