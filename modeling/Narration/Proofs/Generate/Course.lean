import Narration.Generate
import Narration.Proofs.Work

/-!
# The course of a run on a document

A run reads the document and compares it with its recorded narration, without changing anything but
what is said. Only for a document that is due does it go on.

* `Generate.found`, `Generate.renewed` : the recorded narration of a document, and the document with another;
* `Generate.start` : how a run begins, which does not depend on whether it is a dry one;
* `Generate.finish` : how it goes on with a document that is due;
* `Generate.begins_update` : the run is one after the other;
* `Generate.after_document` : a failure becomes a result.
-/

namespace Narration.Generate
open Work

variable {directory path content text digest : Text} {s : Settings} {l : Layout} {σ τ : Studio} {f : Failure}

/-! ## Steps with a document -/

/-- The narration that a document records, or why it cannot be told. -/
def found (s : Settings) (content : Text) : Except Failure (Option NarrationBlock) :=
  match s.componentName with
  | .str name => (Player.locate? content name).outcome.1.mapError .markup
  | _ => (Tree.parse content).outcome.1.mapError .markup >>= fun _ => .ok none

/-- The document with new narration, or why there is none. -/
def renewed (s : Settings) (content : Text) (voices : List Voice) (digest : Text) : Except Failure Text :=
  let injected := do
    let r ← (Player.inject content ⟨voices, digest, s.componentName.text, s.componentImport.text⟩).outcome.1.mapError
      Failure.markup
    return r.1
  match s.componentName with
  | .str _ => injected
  | name => match (Player.hasModules content).outcome with
    | (.ok true, _) => .error (.playerName name.kind.toList)
    | _ => injected

theorem consults_recorded (files : Files) (s : Settings) (content : Text) :
    Consults files (recorded s content) (found s content) := by
  have hnone : Consults files (do
        discard (ofReport (Tree.parse content))
        return none : Work (Option NarrationBlock))
      ((Tree.parse content).outcome.1.mapError .markup >>= fun _ => .ok none) := by
    have hparse : Consults files (ofReport (Tree.parse content)) _ := .ofReport _
    have h := hparse.discard.bind fun _ => .pure (none : Option NarrationBlock)
    rwa [bind_assoc] at h
  unfold recorded found
  cases s.componentName with
  | str name => exact .ofReport _
  | _ => exact hnone

theorem consults_withNarration (files : Files) (s : Settings) (content : Text) (voices : List Voice) (digest : Text) :
    Consults files (withNarration s content voices digest) (renewed s content voices digest) := by
  have hinject (n : Player.Narrated) : Consults files (do
        let r ← ofReport (Player.inject content n)
        return r.1 : Work Text)
      (do
        let r ← (Player.inject content n).outcome.1.mapError Failure.markup
        return r.1) := .bind (.ofReport _) fun r => .pure r.1
  unfold withNarration renewed
  cases s.componentName with
  | str name => exact hinject _
  | _ =>
    rcases (Player.hasModules content).outcome with ⟨f | hasModules, warnings⟩
    · exact hinject _
    · cases hasModules with
      | false => exact hinject _
      | true => exact fun σ _ => ⟨σ.warnings, rfl⟩

/-! ## How a run begins -/

/-- How a run on a document begins, unless it fails: the document is passed over, or it is due. -/
inductive Start where
  | skipped (r : DocumentResult)
  | due (content text : Text)

/-- How a run goes on with a document that is due. -/
def finish (directory : Text) (s : Settings) (l : Layout) (path content text : Text) : Work DocumentResult := do
  let digest := Fingerprint.ofText text
  if s.dryRun then
    let voices ← previewVoices s l path
    let updated ← withNarration s content voices digest
    sayPreview path content updated
    return ⟨path, .previewed, voices, "Dry run".toList, []⟩
  .say ("  Generating ".toList ++ path ++ " (".toList ++ Text.digits s.voiceIds.length ++
    " voice(s))...".toList)
  let voices ← narrateAll l path s.rate text s.voices
  let updated ← withNarration s content voices digest
  .write directory path updated
  return ⟨path, .generated, voices, [], []⟩

/-- What a run says of the text of a document. -/
def preface (s : Settings) (path text : Text) : Text :=
  if s.verbose then
    "\n  --- Extracted text for ".toList ++ path ++ " (".toList ++ Text.digits text.length ++ " chars) ---\n".toList ++
      text ++ "\n  --- Hash: ".toList ++ Fingerprint.ofText text ++ " ---\n\n".toList
  else []

theorem after_preface (s : Settings) (path text : Text) (w : Work DocumentResult) (σ : Studio) : (do
      if s.verbose then sayExtracted path text (Fingerprint.ofText text)
      w : Work DocumentResult).after σ = w.after { σ with output := σ.output ++ preface s path text } := by
  dsimp only
  rw [preface]
  split
  · rw [after_bind]
    refine congrArg (fun output => w.after { σ with output }) ?_
    simp [List.append_assoc]
  · rw [List.append_nil]

/-- What comes of a run that begins in some way: it fails or passes the document over with nothing changed but
what is said, or it says something of the text and goes on. -/
def Follows (directory : Text) (s : Settings) (l : Layout) (path : Text) (said : Text → Text) (σ : Studio)
    (finished : Except Failure DocumentResult × Studio) : Except Failure Start → Prop
  | .error f => ∃ warnings output, finished = (.error f, { σ with warnings, output })
  | .ok (.skipped r) => ∃ warnings output, finished = (.ok r, { σ with warnings, output })
  | .ok (.due content text) => ∃ warnings,
    finished = (finish directory s l path content text).after { σ with warnings, output := σ.output ++ said text }

/-- On these files a run begins in a certain way. -/
def Begins (directory : Text) (s : Settings) (l : Layout) (path : Text) (said : Text → Text) (files : Files) (w : Work DocumentResult)
    (x : Except Failure Start) : Prop := ∀ σ, σ.files = files → Follows directory s l path said σ (w.after σ) x

namespace Begins
variable {files : Files} {said : Text → Text} {w : Work DocumentResult} {x : Except Failure Start}

theorem bind {α : Type} {v : Work α} {g : α → Work DocumentResult} {y : Except Failure α} {z : α → Except Failure Start}
    (hv : Consults files v y) (hg : ∀ a, Begins directory s l path said files (g a) (z a)) :
    Begins directory s l path said files (v >>= g) (y >>= z) := by
  intro σ hσ
  obtain ⟨warnings, hafter⟩ := hv σ hσ
  rw [after_bind, hafter]
  cases y with
  | error f => exact ⟨warnings, σ.output, rfl⟩
  | ok a => exact hg a { σ with warnings } hσ

theorem skipped (line : Text) (r : DocumentResult) :
    Begins directory s l path said files (do say line; return r) (.ok (.skipped r)) := fun σ _ => ⟨σ.warnings, _, rfl⟩

theorem preface (h : Begins directory s l path (fun _ => []) files w x) (hx : ∀ content t, x = .ok (.due content t) → t = text) :
    Begins directory s l path (Generate.preface s path) files (do
      if s.verbose then sayExtracted path text (Fingerprint.ofText text)
      w) x := by
  intro σ hσ
  rw [after_preface]
  have hw := h { σ with output := σ.output ++ Generate.preface s path text } hσ
  rcases x with f | r | ⟨content, t⟩
  · exact hw
  · exact hw
  · obtain ⟨warnings, hw⟩ := hw
    rw [List.append_nil] at hw
    rw [hx content t rfl] at hw ⊢
    exact ⟨warnings, hw⟩

end Begins

/-- How a run on a document begins whose text is known. -/
def startRenewal (s : Settings) (path content text : Text) : Except Failure Start := do
  let existing ← found s content
  if Fingerprint.hasChanged (Fingerprint.ofText text) existing s.voiceIds then return .due content text
  return .skipped (.skipped path ((existing.map (·.voices)).getD []) "Content unchanged")

/-- How a run on a document begins. -/
def start (files : Files) (directory : Text) (s : Settings) (path : Text) : Except Failure Start := do
  let content ← (Documents.read files directory path).mapError .document
  let text ← (Spoken.extract content).outcome.1.mapError .markup
  if text.isEmpty then return .skipped (.skipped path [] "No extractable text")
  startRenewal s path content text

theorem startRenewal_eq_due {c t : Text} (h : startRenewal s path content text = .ok (.due c t)) : c = content ∧ t = text ∧
    ∃ existing, found s content = .ok existing ∧ Fingerprint.hasChanged (Fingerprint.ofText text) existing s.voiceIds := by
  obtain ⟨existing, hexisting, h⟩ := Fallible.bind_eq_ok.1 h
  split at h
  · next hchanged =>
    cases h
    exact ⟨rfl, rfl, existing, hexisting, hchanged⟩
  · cases h

/-- A document with text whose recorded narration is not that of the text in the requested voices. -/
def Due (s : Settings) (content text : Text) : Prop :=
  (Spoken.extract content).outcome.1 = .ok text ∧ text ≠ [] ∧
    ∃ existing, found s content = .ok existing ∧ Fingerprint.hasChanged (Fingerprint.ofText text) existing s.voiceIds

theorem start_eq_due {files : Files} : start files directory s path = .ok (.due content text) ↔
    Documents.read files directory path = .ok content ∧ Due s content text := by
  constructor
  · intro h
    obtain ⟨c, hread, h⟩ := Fallible.bind_eq_ok.1 h
    obtain ⟨t, htext, h⟩ := Fallible.bind_eq_ok.1 h
    split at h
    · cases h
    · next hne =>
      obtain ⟨rfl, rfl, hdue⟩ := startRenewal_eq_due h
      exact ⟨Fallible.mapError_eq_ok.1 hread, Fallible.mapError_eq_ok.1 htext, by simpa using hne, hdue⟩
  · rintro ⟨hread, htext, hne, existing, hexisting, hchanged⟩
    refine Fallible.bind_eq_ok.2 ⟨content, Fallible.mapError_eq_ok.2 hread, ?_⟩
    refine Fallible.bind_eq_ok.2 ⟨text, Fallible.mapError_eq_ok.2 htext, ?_⟩
    rw [if_neg (by simpa using hne)]
    refine Fallible.bind_eq_ok.2 ⟨existing, hexisting, ?_⟩
    rw [if_pos hchanged]
    rfl

theorem status_of_start_eq_skipped {files : Files} {r : DocumentResult} (h : start files directory s path = .ok (.skipped r)) :
    r.status = .skipped := by
  obtain ⟨c, hread, h⟩ := Fallible.bind_eq_ok.1 h
  obtain ⟨t, htext, h⟩ := Fallible.bind_eq_ok.1 h
  split at h
  · cases h
    rfl
  · obtain ⟨existing, hexisting, h⟩ := Fallible.bind_eq_ok.1 h
    split at h
    · cases h
    · cases h
      rfl

theorem begins_renew (files : Files) : Begins directory s l path (fun _ => []) files
    (renew directory s l path content text (Fingerprint.ofText text)) (startRenewal s path content text) := by
  refine .bind (consults_recorded files s content) fun existing => ?_
  cases Fingerprint.hasChanged (Fingerprint.ofText text) existing s.voiceIds with
  | false => exact .skipped _ _
  | true =>
    refine fun σ _ => ⟨σ.warnings, ?_⟩
    rw [List.append_nil]
    rfl

/-- A run on a document begins as its files say. -/
theorem begins_update (directory : Text) (s : Settings) (l : Layout) (path : Text) (files : Files) :
    Begins directory s l path (preface s path) files (update directory s l path) (start files directory s path) := by
  refine .bind (.read directory path) fun content => .bind (.ofReport _) fun text => ?_
  dsimp only
  split
  · exact .skipped _ _
  · exact .preface (begins_renew files) fun c t h => (startRenewal_eq_due h).2.1

/-! ## How a run ends -/

/-- A failure becomes the result of the document, unless the run hangs. -/
def settled (path : Text) : Except Failure DocumentResult → Except Failure DocumentResult
  | .ok r => .ok r
  | .error f => if f.isEndless then .error f else .ok (.failed path f.message)

theorem after_document {x : Except Failure DocumentResult} (h : (update directory s l path).after σ = (x, τ)) :
    ∃ warnings errors, (document directory s l path).after σ = (settled path x, { τ with warnings, errors }) := by
  rw [document, after_tryCatch, h]
  cases x with
  | ok r => exact ⟨τ.warnings, τ.errors, rfl⟩
  | error f =>
    dsimp only [settled]
    cases f.isEndless
    · cases f.isExpected
      · exact ⟨_, _, rfl⟩
      · exact ⟨τ.warnings, _, rfl⟩
    · exact ⟨τ.warnings, τ.errors, rfl⟩

theorem document_of_error (h : (update directory s l path).after σ = (.error f, τ)) (hf : f.isEndless = false) :
    ∃ warnings errors, (document directory s l path).after σ = (.ok (.failed path f.message), { τ with warnings, errors }) := by
  obtain ⟨warnings, errors, hafter⟩ := after_document h
  rw [settled, hf] at hafter
  exact ⟨warnings, errors, hafter⟩

end Narration.Generate
