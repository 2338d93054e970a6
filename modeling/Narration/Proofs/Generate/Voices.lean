import Narration.Generate
import Narration.Proofs.Store
import Narration.Proofs.Work

/-!
# The voices of a document

The voices of a document are narrated one after another. A voice that fails does not stop the later
ones, but the first failure is what counts.

* `Generate.audio`, `Generate.outcome` : the audio of a voice, and what becomes of it;
* `Generate.audio_eq_of_notMem` : the audio of a voice does not depend on other ones;
* `Generate.Narrated`, `Generate.Fails` : the two things that may become of a voice;
* `Generate.result_narrateAll` : all voices with their addresses, or the failure of the first that fails.
-/

namespace Narration.Generate
open Work

variable {path text : Text} {s : Settings} {l : Layout} {σ τ : Studio} {earlier later : List Voice} {v : Voice}

/-! ## One voice -/

/-- The request for the audio of a text in a voice. -/
def request (s : Settings) (text : Text) (v : Voice) : Speech.Request := ⟨text, v.id, s.rate⟩

/-- The service of speech after it has been asked for some voices. -/
def speechAfter (s : Settings) (text : Text) (speech : Speech) (earlier : List Voice) : Speech :=
  earlier.foldl (fun speech v => (speech.synthesize (request s text v)).2.2) speech

/-- The audio of a text in a voice, when some voices have been asked for before. -/
def audio (s : Settings) (text : Text) (σ : Studio) (earlier : List Voice) (v : Voice) : Except Speech.Fault (List UInt8) :=
  ((speechAfter s text σ.speech earlier).synthesize (request s text v)).1

/-- What becomes of a voice whose audio is to be stored under a key. -/
def stored (l : Layout) (b : Store.Behaviour) (v : Voice) (key : Text) : Except Failure Voice :=
  match b.put key with
  | some t => .error (.store (Store.faultOf (.upload key) t))
  | none => .ok { v with url := l.publicUrl key }

/-- What becomes of a voice, when some have been narrated before. -/
def outcome (s : Settings) (l : Layout) (path text : Text) (σ : Studio) (earlier : List Voice) (v : Voice) : Except Failure Voice := do
  let _ ← (audio s text σ earlier v).mapError .speech
  let key ← (l.keyFor? path v.id).mapError .slug
  stored l σ.store.behaviour v key

/-- A voice has audio, and the store takes it. -/
def Narrated (s : Settings) (l : Layout) (path text : Text) (σ : Studio) (earlier : List Voice) (v : Voice) : Prop :=
  ∃ content key, audio s text σ earlier v = .ok content ∧ l.keyFor? path v.id = .ok key ∧ σ.store.behaviour.put key = none

/-- A voice has no audio, or the store does not take it. -/
def Fails (s : Settings) (l : Layout) (path text : Text) (σ : Studio) (earlier : List Voice) (v : Voice) (f : Failure) : Prop :=
  (∃ e, audio s text σ earlier v = .error e ∧ f = .speech e) ∨
    ∃ content key t, audio s text σ earlier v = .ok content ∧ l.keyFor? path v.id = .ok key ∧
      σ.store.behaviour.put key = some t ∧ f = .store (Store.faultOf (.upload key) t)

/-- A voice with the address of its audio. -/
def Addressed (l : Layout) (path : Text) (v w : Voice) : Prop :=
  ∃ key, l.keyFor? path v.id = .ok key ∧ w = { v with url := l.publicUrl key }

/-- How far the services are after some voices. -/
structure Served (s : Settings) (text : Text) (σ : Studio) (earlier : List Voice) (τ : Studio) : Prop where
  speech : τ.speech = speechAfter s text σ.speech earlier
  behaviour : τ.store.behaviour = σ.store.behaviour

theorem after_synthesize (r : Speech.Request) (σ : Studio) : (synthesize r).after σ =
    ((σ.speech.synthesize r).1.mapError .speech, { σ with
      speech := (σ.speech.synthesize r).2.2
      warnings := σ.warnings ++ List.replicate (σ.speech.synthesize r).2.1 .synthesisAttemptFailed }) :=
  after_ofExcept .speech (σ.speech.synthesize r).1

theorem after_attempt {α : Type} (w : Work α) (σ : Studio) : w.attempt.after σ = (.ok (w.after σ).1, (w.after σ).2) := by
  rw [attempt, after_tryCatch, ← bind_pure_comp, after_bind]
  rcases w.after σ with ⟨f | a, τ⟩ <;> rfl

theorem outcome_eq_ok {w : Voice} : outcome s l path text σ earlier v = .ok w ↔ Narrated s l path text σ earlier v ∧ Addressed l path v w := by
  unfold outcome
  constructor
  · intro h
    obtain ⟨content, haudio, h⟩ := Fallible.bind_eq_ok.1 h
    obtain ⟨key, hkey, h⟩ := Fallible.bind_eq_ok.1 h
    rw [Fallible.mapError_eq_ok] at haudio hkey
    unfold stored at h
    split at h
    · cases h
    · next hput =>
      cases h
      exact ⟨⟨content, key, haudio, hkey, hput⟩, key, hkey, rfl⟩
  · rintro ⟨⟨content, key, haudio, hkey, hput⟩, key', hkey', rfl⟩
    cases hkey.symm.trans hkey'
    refine Fallible.bind_eq_ok.2 ⟨content, Fallible.mapError_eq_ok.2 haudio, ?_⟩
    refine Fallible.bind_eq_ok.2 ⟨key, Fallible.mapError_eq_ok.2 hkey, ?_⟩
    rw [stored, hput]

/-- A voice fails in one of two ways, as long as the document has a slug. -/
theorem outcome_eq_error {f : Failure} (hslug : ∃ slug, Slug.ofPath path = .ok slug) :
    outcome s l path text σ earlier v = .error f ↔ Fails s l path text σ earlier v f := by
  obtain ⟨slug, hslug⟩ := hslug
  have hkey : l.keyFor? path v.id = .ok (l.root ++ slug ++ '/' :: v.id ++ Layout.extension) := by
    rw [Layout.keyFor?, hslug]
    rfl
  unfold outcome Fails
  rw [hkey]
  cases haudio : audio s text σ earlier v with
  | error e =>
    constructor
    · intro h
      exact .inl ⟨e, rfl, (Except.error.inj h).symm⟩
    · rintro (⟨e', he, rfl⟩ | ⟨_, _, _, h, -⟩)
      · cases he
        rfl
      · cases h
  | ok content =>
    change stored l σ.store.behaviour v _ = .error f ↔ _
    constructor
    · intro h
      unfold stored at h
      split at h
      · next t hput => exact .inr ⟨content, _, t, rfl, rfl, hput, (Except.error.inj h).symm⟩
      · cases h
    · rintro (⟨e, he, -⟩ | ⟨_, _, t, -, h, hput, rfl⟩)
      · cases he
      · cases h
        rw [stored, hput]

/-- One voice more. -/
theorem Served.next (h : Served s text σ earlier τ) (l : Layout) (path : Text) (v : Voice) :
    ((narrateVoice l path s.rate text v).after τ).1 = outcome s l path text σ earlier v ∧
      Served s text σ (earlier ++ [v]) ((narrateVoice l path s.rate text v).after τ).2 := by
  have haudio : (τ.speech.synthesize (request s text v)).1 = audio s text σ earlier v := by rw [audio, h.speech]
  have hspeech : (τ.speech.synthesize (request s text v)).2.2 = speechAfter s text σ.speech (earlier ++ [v]) := by
    rw [speechAfter, List.foldl_append, h.speech]
    rfl
  rw [narrateVoice, after_bind, after_synthesize, outcome]
  change _ ∧ Served s text σ _ _
  rw [show (⟨text, v.id, s.rate⟩ : Speech.Request) = request s text v from rfl, haudio, hspeech]
  cases audio s text σ earlier v with
  | error e => exact ⟨rfl, rfl, h.behaviour⟩
  | ok content =>
    dsimp only [Except.mapError]
    rw [after_bind, after_ofExcept]
    cases l.keyFor? path v.id with
    | error e => exact ⟨rfl, rfl, h.behaviour⟩
    | ok key =>
      dsimp only [Except.mapError]
      rw [after_bind, after_ofStore, Store.after_upload]
      change _ = stored l σ.store.behaviour v key ∧ _
      dsimp only
      rw [stored, h.behaviour]
      cases σ.store.behaviour.put key with
      | some t => exact ⟨rfl, rfl, h.behaviour⟩
      | none => exact ⟨rfl, rfl, h.behaviour⟩

/-! ## All voices -/

/-- What becomes of each voice. -/
def outcomes (s : Settings) (l : Layout) (path text : Text) (σ : Studio) : (earlier : List Voice) → (later : List Voice) →
    List (Except Failure Voice)
  | _, [] => []
  | earlier, v :: later => outcome s l path text σ earlier v :: outcomes s l path text σ (earlier ++ [v]) later

/-- The voices one after another. -/
theorem Served.run (h : Served s text σ earlier τ) (l : Layout) (path : Text) (later : List Voice) :
    ((later.mapM fun v => (narrateVoice l path s.rate text v).attempt).after τ).1 = .ok (outcomes s l path text σ earlier later) ∧
      Served s text σ (earlier ++ later) ((later.mapM fun v => (narrateVoice l path s.rate text v).attempt).after τ).2 := by
  induction later generalizing earlier τ with
  | nil => exact ⟨rfl, by rwa [List.append_nil]⟩
  | cons v later ih =>
    obtain ⟨hfirst, hserved⟩ := h.next l path v
    obtain ⟨hrest, hserved⟩ := ih hserved
    rw [List.mapM_cons, after_bind, after_attempt, hfirst]
    dsimp only
    rw [after_bind]
    rcases hafter : (later.mapM fun v => (narrateVoice l path s.rate text v).attempt).after
      ((narrateVoice l path s.rate text v).after τ).2 with ⟨x, ρ⟩
    rw [hafter] at hrest hserved
    cases hrest
    exact ⟨rfl, by rwa [List.append_assoc] at hserved⟩

theorem after_mapM_ofExcept (results : List (Except Failure Voice)) (σ : Studio) :
    (results.mapM (ofExcept id)).after σ = (results.mapM id, σ) := by
  induction results with
  | nil => rfl
  | cons r results ih =>
    rw [List.mapM_cons, List.mapM_cons, after_bind]
    cases r with
    | error f => rfl
    | ok v =>
      change ((results.mapM (ofExcept id) >>= fun vs => pure (v :: vs)) : Work (List Voice)).after σ = _
      rw [after_bind, ih]
      change _ = ((results.mapM id >>= fun vs => pure (v :: vs) : Except Failure (List Voice)), σ)
      cases results.mapM id <;> rfl

/-- All voices are narrated, or the first failure counts. -/
theorem result_narrateAll (h : Served s text σ [] τ) (l : Layout) (path : Text) (voices : List Voice) :
    ((narrateAll l path s.rate text voices).after τ).1 = (outcomes s l path text σ [] voices).mapM id := by
  obtain ⟨hrun, -⟩ := h.run l path voices
  rw [narrateAll, after_bind]
  rcases hafter : (voices.mapM fun v => (narrateVoice l path s.rate text v).attempt).after τ with ⟨x, ρ⟩
  rw [hafter] at hrun
  cases hrun
  exact congrArg Prod.fst (after_mapM_ofExcept _ ρ)

/-- Every voice is narrated, after some others and those in front of it. -/
def AllNarrated (s : Settings) (l : Layout) (path text : Text) (σ : Studio) (earlier voices : List Voice) : Prop :=
  ∀ before v after, voices = before ++ v :: after → Narrated s l path text σ (earlier ++ before) v

theorem AllNarrated.nil : AllNarrated s l path text σ earlier [] := fun before _ _ h => by simp at h

theorem AllNarrated.cons (hv : Narrated s l path text σ earlier v) (hlater : AllNarrated s l path text σ (earlier ++ [v]) later) :
    AllNarrated s l path text σ earlier (v :: later) := by
  intro before u after h
  cases before with
  | nil =>
    cases h
    rwa [List.append_nil]
  | cons w before =>
    obtain ⟨rfl, rfl⟩ := List.cons.inj h
    have hu := hlater before u after rfl
    rwa [List.append_assoc] at hu

/-- Either all voices are narrated, or some first one is not, and its failure is what counts. -/
theorem all_narrated_or_first_fails (s : Settings) (l : Layout) (text : Text) (σ : Studio)
    (hslug : ∃ slug, Slug.ofPath path = .ok slug) (earlier voices : List Voice) :
    (∃ addressed, (outcomes s l path text σ earlier voices).mapM id = .ok addressed ∧
      AllNarrated s l path text σ earlier voices ∧ List.Forall₂ (Addressed l path) voices addressed) ∨
    ∃ before v after f, voices = before ++ v :: after ∧ AllNarrated s l path text σ earlier before ∧
      Fails s l path text σ (earlier ++ before) v f ∧ (outcomes s l path text σ earlier voices).mapM id = .error f := by
  induction voices generalizing earlier with
  | nil => exact .inl ⟨[], rfl, .nil, .nil⟩
  | cons v later ih =>
    rw [outcomes, List.mapM_cons]
    cases hv : outcome s l path text σ earlier v with
    | error f => exact .inr ⟨[], v, later, f, rfl, .nil, by rw [List.append_nil]; exact (outcome_eq_error hslug).1 hv, rfl⟩
    | ok w =>
      obtain ⟨hnarrated, haddressed⟩ := outcome_eq_ok.1 hv
      rcases ih (earlier ++ [v]) with ⟨ws, hws, hall, hforall⟩ | ⟨before, u, after, f, rfl, hall, hfails, hf⟩
      · refine .inl ⟨w :: ws, ?_, .cons hnarrated hall, .cons haddressed hforall⟩
        change ((outcomes s l path text σ (earlier ++ [v]) later).mapM id >>= fun ws => .ok (w :: ws)) = _
        rw [hws]
        rfl
      · refine .inr ⟨v :: before, u, after, f, rfl, .cons hnarrated hall, by rwa [List.append_assoc] at hfails, ?_⟩
        change ((outcomes s l path text σ (earlier ++ [v]) (before ++ u :: after)).mapM id >>= fun ws => .ok (w :: ws)) = _
        rw [hf]
        rfl

/-- A voice that fails is not narrated. -/
theorem Fails.not_narrated {f : Failure} (h : Fails s l path text σ earlier v f) : ¬Narrated s l path text σ earlier v := by
  rintro ⟨content, key, haudio, hkey, hput⟩
  rcases h with ⟨e, he, -⟩ | ⟨_, _, t, -, hkey', hput', -⟩
  · rw [haudio] at he
    cases he
  · cases hkey.symm.trans hkey'
    rw [hput] at hput'
    cases hput'

/-! ## Voices apart -/

/-- Two states of a service that answer requests for a voice alike. -/
structure SameFor (voice : Text) (a b : Speech) : Prop where
  answer : a.answer = b.answer
  earlier : (a.requests.filter (·.voice = voice)).length = (b.requests.filter (·.voice = voice)).length

theorem SameFor.trans {voice : Text} {a b c : Speech} (h : SameFor voice a b) (h' : SameFor voice b c) : SameFor voice a c :=
  ⟨h.answer.trans h'.answer, h.earlier.trans h'.earlier⟩

theorem SameFor.askFrom {a b : Speech} {r : Speech.Request} (h : SameFor r.voice a b) (attempt more : Nat) (last : Speech.Trouble) :
    (Speech.askFrom r attempt more last a).1 = (Speech.askFrom r attempt more last b).1 := by
  induction more generalizing attempt last a b with
  | zero => rfl
  | succ more ih =>
    have hask : (a.ask r).1 = (b.ask r).1 := by rw [Speech.ask, Speech.ask, h.answer, h.earlier]
    have hsame (p q : List Nat) : SameFor r.voice { (a.ask r).2 with pauses := p } { (b.ask r).2 with pauses := q } :=
      ⟨h.answer, by simp [Speech.ask, h.earlier]⟩
    rw [Speech.askFrom, Speech.askFrom]
    rcases ha : a.ask r with ⟨x, a'⟩
    rcases hb : b.ask r with ⟨y, b'⟩
    rw [ha, hb] at hask hsame
    cases hask
    cases x with
    | ok content => rfl
    | error t => exact ih (hsame _ _) _ _

/-- Requests for another voice do not change how the service answers. -/
theorem sameFor_askFrom {voice : Text} {r : Speech.Request} (hvoice : r.voice ≠ voice) (attempt more : Nat) (last : Speech.Trouble)
    (speech : Speech) : SameFor voice (Speech.askFrom r attempt more last speech).2.2 speech := by
  induction more generalizing attempt last speech with
  | zero => exact ⟨rfl, rfl⟩
  | succ more ih =>
    have hask (p : List Nat) : SameFor voice { (speech.ask r).2 with pauses := p } speech :=
      ⟨rfl, by simp [Speech.ask, hvoice]⟩
    rw [Speech.askFrom]
    rcases hr : speech.ask r with ⟨x, next⟩
    rw [hr] at hask
    cases x with
    | ok content => exact hask _
    | error t => exact (ih _ _ _).trans (hask _)

/-- The audio of a voice does not depend on other voices. -/
theorem audio_eq_of_notMem (h : v.id ∉ earlier.map (·.id)) : audio s text σ earlier v = (σ.speech.synthesize (request s text v)).1 := by
  have hsame (speech : Speech) : SameFor v.id (speechAfter s text speech earlier) speech := by
    induction earlier generalizing speech with
    | nil => exact ⟨rfl, rfl⟩
    | cons w earlier ih =>
      rw [List.map_cons, List.mem_cons, not_or] at h
      exact (ih h.2 _).trans (sameFor_askFrom (Ne.symm h.1) _ _ _ speech)
  exact (hsame σ.speech).askFrom _ _ _

end Narration.Generate
