import Narration.Proofs.Generate.Whole

/-!
# A dry run shows what a run does

A dry run gives the voices the addresses of their keys and shows the document with their narration, where a run
synthesizes and stores them and writes that document. When the services do not fail, both give the same.

* `Generate.addressed` : a voice with the address that a run would give it;
* `Generate.shown` : what a dry run says of a document;
* `Generate.renewal_eq_preview` : a run whose voices are all narrated comes to what a dry run shows;
* `Generate.document_preview` : the two runs on a document side by side.
-/

namespace Narration.Generate
open Work

variable {directory path content text updated : Text} {s : Settings} {l : Layout} {σ τ : Studio} {voices : List Voice} {f : Failure}

/-! ## A dry run -/

/-- A voice with the address that a run would give it. -/
def addressed (l : Layout) (path : Text) (v : Voice) : Except Failure Voice := do
  let key ← (l.keyFor? path v.id).mapError Failure.slug
  return { v with url := l.publicUrl key }

/-- What a dry run says of a document. -/
def shown (path before after : Text) : Text :=
  "  [dry run] ".toList ++ path ++ ['\n'] ++ (Diff.unified path before after).flatMap fun line => "    ".toList ++ line ++ ['\n']

/-- What a dry run shows of a document that is due: the voices, and the document with their narration. -/
def preview (s : Settings) (l : Layout) (path content text : Text) : Except Failure (List Voice × Text) := do
  let voices ← s.voices.mapM (addressed l path)
  let updated ← renewed s content voices (Fingerprint.ofText text)
  return (voices, updated)

theorem consults_previewVoices (files : Files) (s : Settings) (l : Layout) (path : Text) :
    Consults files (previewVoices s l path) (s.voices.mapM (addressed l path)) :=
  .mapM fun _ _ => .bind (.ofExcept _ _) fun _ => .pure _

theorem after_forM_say (lines : List Text) (g : Text → Text) (σ : Studio) : (lines.forM fun line => say (g line)).after σ =
    (.ok (), { σ with output := σ.output ++ lines.flatMap fun line => g line ++ ['\n'] }) := by
  induction lines generalizing σ with
  | nil => rw [List.flatMap_nil, List.append_nil]; rfl
  | cons line lines ih =>
    change (say (g line) >>= fun _ => lines.forM fun line => say (g line)).after σ = _
    rw [after_bind, after_say, List.flatMap_cons, ← List.append_assoc, ← List.append_assoc]
    exact ih _

theorem after_sayPreview (path before after : Text) (σ : Studio) :
    (sayPreview path before after).after σ = (.ok (), { σ with output := σ.output ++ shown path before after }) := by
  unfold sayPreview shown
  generalize Diff.unified path before after = lines
  rw [after_bind, after_say]
  refine (after_forM_say lines (fun line => "    ".toList ++ line) _).trans ?_
  simp only [List.append_assoc]

/-- A dry run ends as is said, and nothing lasting changes. -/
def Shows (path content : Text) (σ : Studio) (finished : Except Failure DocumentResult × Studio) : Except Failure (List Voice × Text) → Prop
  | .error f => ∃ warnings, finished = (.error f, { σ with warnings })
  | .ok (voices, updated) => ∃ warnings, finished = (.ok ⟨path, .previewed, voices, "Dry run".toList, []⟩,
      { σ with warnings, output := σ.output ++ shown path content updated })

theorem shows_finish (hdry : s.dryRun) (directory : Text) (l : Layout) (path content text : Text) (σ : Studio) :
    Shows path content σ ((finish directory s l path content text).after σ) (preview s l path content text) := by
  obtain ⟨warnings, hvoices⟩ := consults_previewVoices σ.files s l path σ rfl
  unfold finish preview
  dsimp only
  rw [if_pos hdry, after_bind, hvoices]
  cases s.voices.mapM (addressed l path) with
  | error f => exact ⟨warnings, rfl⟩
  | ok voices =>
    obtain ⟨warnings, hupdated⟩ := consults_withNarration σ.files s content voices (Fingerprint.ofText text) { σ with warnings } rfl
    change Shows path content σ _ (renewed s content voices (Fingerprint.ofText text) >>= fun updated => .ok (voices, updated))
    dsimp only
    rw [after_bind, hupdated]
    cases renewed s content voices (Fingerprint.ofText text) with
    | error f => exact ⟨warnings, rfl⟩
    | ok updated =>
      dsimp only
      rw [after_bind, after_sayPreview]
      exact ⟨warnings, rfl⟩

/-! ## Both runs -/

theorem outcomes_eq_addressed (earlier voices : List Voice)
    (haudio : ∀ before v after, voices = before ++ v :: after → ∃ content, audio s text σ (earlier ++ before) v = .ok content)
    (hstore : ∀ v ∈ voices, ∀ key, l.keyFor? path v.id = .ok key → σ.store.behaviour.put key = none) :
    (outcomes s l path text σ earlier voices).mapM id = voices.mapM (addressed l path) := by
  induction voices generalizing earlier with
  | nil => rfl
  | cons v voices ih =>
    obtain ⟨content, hv⟩ := haudio [] v voices rfl
    rw [List.append_nil] at hv
    obtain ⟨hput, hstore⟩ := List.forall_mem_cons.1 hstore
    have hrest := ih (earlier ++ [v]) (fun before u after h => by
      obtain ⟨content, hu⟩ := haudio (v :: before) u after (congrArg (v :: ·) h)
      exact ⟨content, by rwa [List.append_assoc]⟩) hstore
    have houtcome : outcome s l path text σ earlier v = addressed l path v := by
      rw [outcome, addressed, hv]
      cases hkey : l.keyFor? path v.id with
      | error e => rfl
      | ok key =>
        change stored l σ.store.behaviour v key = _
        rw [stored, hput key hkey]
        rfl
    rw [outcomes, List.mapM_cons, List.mapM_cons, hrest, id, houtcome]

/-- A run whose voices are all narrated comes to what a dry run shows. -/
theorem renewal_eq_preview (haudio : ∀ before v after, s.voices = before ++ v :: after → ∃ content, audio s text σ before v = .ok content)
    (hstore : ∀ v ∈ s.voices, ∀ key, l.keyFor? path v.id = .ok key → σ.store.behaviour.put key = none) :
    renewal s l path content text σ = preview s l path content text := by
  rw [renewal, outcomes_eq_addressed [] s.voices haudio hstore, preview]

/-- Two runs on a document, a dry one and another. -/
structure Foreseen (directory : Text) (s : Settings) (path : Text) (σ : Studio) (dry real : Except Failure DocumentResult × Studio) :
    Prop where
  untouched : lasting dry.2 = lasting σ
  previewed_iff : (∃ r, dry.1 = .ok r ∧ r.status = .previewed) ↔ ∃ r, real.1 = .ok r ∧ r.status = .generated
  previewed : ∀ r, real.1 = .ok r → r.status = .generated → dry.1 = .ok { r with status := .previewed, reason := "Dry run".toList } ∧
    ∃ content text updated, Documents.read σ.files directory path = .ok content ∧ (Spoken.extract content).outcome.1 = .ok text ∧
      Documents.write σ.files directory path updated = .ok real.2.files ∧
      dry.2.output = σ.output ++ preface s path text ++ shown path content updated
  otherwise : (¬∃ r, real.1 = .ok r ∧ r.status = .generated) → dry.1 = real.1

/-- Two runs that end alike, without a narration. -/
theorem foreseen_of_eq {x : Except Failure DocumentResult} {dry real : Studio} (hlasting : lasting dry = lasting σ)
    (hx : ∀ r, x = .ok r → r.status ≠ .previewed ∧ r.status ≠ .generated) : Foreseen directory s path σ (x, dry) (x, real) where
  untouched := hlasting
  previewed_iff := ⟨fun ⟨r, h, hr⟩ => absurd hr (hx r h).1, fun ⟨r, h, hr⟩ => absurd hr (hx r h).2⟩
  previewed r h hr := absurd hr (hx r h).2
  otherwise _ := rfl

theorem status_of_settled {r : DocumentResult} (h : settled path (.error f) = .ok r) : r.status = .failed := by
  rw [settled] at h
  split at h
  · cases h
  · cases h
    rfl

theorem foreseen_of_failure {dry real : Studio} (hlasting : lasting dry = lasting σ) :
    Foreseen directory s path σ (settled path (.error f), dry) (settled path (.error f), real) := by
  refine foreseen_of_eq hlasting fun r h => ?_
  rw [status_of_settled h]
  exact ⟨nofun, nofun⟩

/-- When the services do not fail, a dry run on a document shows what another does to it, and changes nothing. -/
theorem document_preview (haudio : ∀ content text, Documents.read σ.files directory path = .ok content →
      (Spoken.extract content).outcome.1 = .ok text → ∀ before v after, s.voices = before ++ v :: after →
        ∃ content, audio s text σ before v = .ok content)
    (hstore : ∀ v ∈ s.voices, ∀ key, l.keyFor? path v.id = .ok key → σ.store.behaviour.put key = none) :
    Foreseen directory s path σ ((document directory { s with dryRun := true } l path).after σ)
      ((document directory { s with dryRun := false } l path).after σ) := by
  let dry : Settings := { s with dryRun := true }
  let real : Settings := { s with dryRun := false }
  have hdry := begins_update directory dry l path σ.files σ rfl
  have hreal := begins_update directory real l path σ.files σ rfl
  have hsame : start σ.files directory real path = start σ.files directory dry path := rfl
  rw [hsame] at hreal
  rcases hdryAfter : (update directory dry l path).after σ with ⟨x, τ⟩
  rcases hrealAfter : (update directory real l path).after σ with ⟨y, ρ⟩
  rw [hdryAfter] at hdry
  rw [hrealAfter] at hreal
  obtain ⟨_, _, hdocument⟩ := after_document hdryAfter
  obtain ⟨_, _, hdocument'⟩ := after_document hrealAfter
  rw [hdocument, hdocument']
  cases hstart : start σ.files directory dry path with
  | error f =>
    rw [hstart] at hdry hreal
    obtain ⟨_, _, hdry⟩ := hdry
    obtain ⟨_, _, hreal⟩ := hreal
    cases hdry
    cases hreal
    exact foreseen_of_failure rfl
  | ok first =>
    rw [hstart] at hdry hreal
    cases first with
    | skipped r =>
      obtain ⟨_, _, hdry⟩ := hdry
      obtain ⟨_, _, hreal⟩ := hreal
      cases hdry
      cases hreal
      refine foreseen_of_eq rfl fun r' h => ?_
      cases h
      rw [status_of_start_eq_skipped hstart]
      exact ⟨nofun, nofun⟩
    | due content text =>
      obtain ⟨hread, hdue⟩ := start_eq_due.1 hstart
      obtain ⟨warnings, hdry⟩ := hdry
      obtain ⟨warnings', hreal⟩ := hreal
      have hrenewal : renewal real l path content text σ = preview dry l path content text :=
        renewal_eq_preview (s := real) (haudio content text hread hdue.1) hstore
      have hshows := shows_finish (s := dry) rfl directory l path content text
        { σ with warnings, output := σ.output ++ preface dry path text }
      have hserved : Served real text σ [] { σ with warnings := warnings', output := σ.output ++ preface real path text } := ⟨rfl, rfl⟩
      have hends := ends_finish rfl hserved l hread
      rw [← hdry] at hshows
      rw [← hreal, hrenewal] at hends
      cases hpreview : preview dry l path content text with
      | error f =>
        rw [hpreview] at hshows hends
        obtain ⟨_, hshows⟩ := hshows
        obtain ⟨rfl, -⟩ := hends
        cases hshows
        exact foreseen_of_failure rfl
      | ok shown =>
        obtain ⟨voices, updated⟩ := shown
        rw [hpreview] at hshows hends
        obtain ⟨_, hshows⟩ := hshows
        obtain ⟨rfl, hwrite⟩ := hends
        cases hshows
        refine ⟨rfl, ⟨fun _ => ⟨_, rfl, rfl⟩, fun _ => ⟨_, rfl, rfl⟩⟩, fun r h _ => ?_, fun h => absurd ⟨_, rfl, rfl⟩ h⟩
        cases h
        exact ⟨rfl, content, text, updated, hread, hdue.1, hwrite, rfl⟩

theorem document_preview_page : Foreseen [] pageSettings "page.mdx".toList (studioWith "Text.\n".toList)
    ((document [] { pageSettings with dryRun := true } pageLayout "page.mdx".toList).after (studioWith "Text.\n".toList))
    ((document [] { pageSettings with dryRun := false } pageLayout "page.mdx".toList).after (studioWith "Text.\n".toList)) := by
  refine document_preview (fun content text _ _ before v after h => ?_) fun v _ key _ => rfl
  have h : [⟨"ada".toList, "Ada".toList, []⟩] = before ++ v :: after := h
  cases before with
  | nil =>
    cases h
    exact ⟨[0], rfl⟩
  | cons w before => simp at h

end Narration.Generate
