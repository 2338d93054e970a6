import Narration.Proofs.Generate.Course
import Narration.Proofs.Generate.Repetition
import Narration.Proofs.Generate.Voices

/-!
# A document is narrated as a whole

The file of a document is written once, after every voice has been narrated. If anything fails before that,
it is left alone.

* `Generate.finish_eq` : a run on a document that is due fails before the file is written, or writes it;
* `Generate.Workable` : documents whose parts are found and can be replaced;
* `Generate.document_whole` : such a document is narrated in all voices, or its file stays as it is.
-/

namespace Narration.Generate
open Work

variable {directory path content text updated : Text} {s : Settings} {l : Layout} {σ τ : Studio} {voices : List Voice} {f : Failure}

theorem after_write {t : Text} {files : Files} (h : Documents.write σ.files directory path t = .ok files) :
    (write directory path t).after σ = (.ok (), { σ with files }) := by
  change (ofExcept .document (Documents.write σ.files directory path t) >>= fun files => modify fun s => { s with files } : Work Unit).after
    σ = _
  rw [h]
  rfl

theorem renewed_eq_ok {digest : Text} (h : renewed s content voices digest = .ok updated) : ∃ outcome,
    (Player.inject content ⟨voices, digest, s.componentName.text, s.componentImport.text⟩).outcome.1 = .ok (updated, outcome) := by
  have hinjected (h : (do
      let r ← (Player.inject content ⟨voices, digest, s.componentName.text, s.componentImport.text⟩).outcome.1.mapError
        Failure.markup
      return r.1 : Except Failure Text) = .ok updated) : ∃ outcome,
        (Player.inject content ⟨voices, digest, s.componentName.text, s.componentImport.text⟩).outcome.1 = .ok (updated, outcome) := by
    obtain ⟨⟨t, outcome⟩, hinject, h⟩ := Fallible.bind_eq_ok.1 h
    cases h
    exact ⟨outcome, Fallible.mapError_eq_ok.1 hinject⟩
  unfold renewed at h
  split at h
  · exact hinjected h
  · split at h
    · cases h
    · exact hinjected h

/-! ## A document that is due -/

/-- What comes of a document that is due: the voices and the document with their narration, or the failure of one or the
other. -/
def renewal (s : Settings) (l : Layout) (path content text : Text) (σ : Studio) : Except Failure (List Voice × Text) := do
  let voices ← (outcomes s l path text σ [] s.voices).mapM id
  let updated ← renewed s content voices (Fingerprint.ofText text)
  return (voices, updated)

/-- A run ends as is said: with the failure and the files as they were, or with the document written. -/
def Ends (directory path : Text) (files : Files) (finished : Except Failure DocumentResult × Studio) :
    Except Failure (List Voice × Text) → Prop
  | .error f => finished.1 = .error f ∧ finished.2.files = files
  | .ok (voices, updated) => finished.1 = .ok ⟨path, .generated, voices, [], []⟩ ∧
    Documents.write files directory path updated = .ok finished.2.files

/-- A run on a document that is due fails before the file is written, or writes it. -/
theorem ends_finish (hdry : s.dryRun = false) (hserved : Served s text σ [] τ) (l : Layout)
    (hread : Documents.read τ.files directory path = .ok content) :
    Ends directory path τ.files ((finish directory s l path content text).after τ) (renewal s l path content text σ) := by
  unfold finish renewal
  dsimp only
  rw [hdry, if_neg Bool.false_ne_true, after_bind, after_say]
  let τ₁ : Studio := { τ with output := τ.output ++ ("  Generating ".toList ++ path ++ " (".toList ++
    Text.digits s.voiceIds.length ++ " voice(s))...".toList) ++ ['\n'] }
  have hvoices := result_narrateAll (τ := τ₁) ⟨hserved.speech, hserved.behaviour⟩ l path s.voices
  have hfiles : ((narrateAll l path s.rate text s.voices).after τ₁).2.files = τ.files :=
    keeps_narrateAll l path s.rate text s.voices τ₁
  change Ends directory path τ.files (Work.after _ τ₁) _
  rw [after_bind]
  rcases hafter : (narrateAll l path s.rate text s.voices).after τ₁ with ⟨x, ρ⟩
  rw [hafter] at hvoices hfiles
  rw [← hvoices]
  cases x with
  | error f => exact ⟨rfl, hfiles⟩
  | ok voices =>
    obtain ⟨warnings, hupdated⟩ := consults_withNarration ρ.files s content voices (Fingerprint.ofText text) ρ rfl
    change Ends directory path τ.files _ (renewed s content voices (Fingerprint.ofText text) >>= fun updated => .ok (voices, updated))
    dsimp only
    rw [after_bind, hupdated]
    cases hrenewed : renewed s content voices (Fingerprint.ofText text) with
    | error f => exact ⟨rfl, hfiles⟩
    | ok updated =>
      obtain ⟨files, hwrite⟩ := Documents.exists_write hread updated
      dsimp only
      rw [after_bind, after_write (by rw [← hwrite]; exact congrArg (Documents.write · directory path updated) hfiles)]
      exact ⟨rfl, hwrite⟩

/-! ## All voices or none -/

/-- A document whose text and recorded narration are found, and into which the narration of its text in the requested
voices can be injected. -/
structure Workable (s : Settings) (l : Layout) (path content : Text) : Prop where
  extracted : ∃ text, (Spoken.extract content).outcome.1 = .ok text
  recorded : ∃ existing, found s content = .ok existing
  injected : ∀ text voices, (Spoken.extract content).outcome.1 = .ok text → List.Forall₂ (Addressed l path) s.voices voices →
    ∃ updated, renewed s content voices (Fingerprint.ofText text) = .ok updated

theorem exists_start {files : Files} (hread : Documents.read files directory path = .ok content) (hwork : Workable s l path content) :
    ∃ first, start files directory s path = .ok first := by
  obtain ⟨⟨text, htext⟩, ⟨existing, hexisting⟩, -⟩ := hwork
  obtain ⟨renewing, hrenewing⟩ : ∃ first, startRenewal s path content text = .ok first := by
    by_cases hchanged : Fingerprint.hasChanged (Fingerprint.ofText text) existing s.voiceIds
    · exact ⟨_, Fallible.bind_eq_ok.2 ⟨existing, hexisting, if_pos hchanged⟩⟩
    · exact ⟨_, Fallible.bind_eq_ok.2 ⟨existing, hexisting, if_neg hchanged⟩⟩
  have hstart {first : Start} (h : (if text.isEmpty then .ok (.skipped (.skipped path [] "No extractable text"))
      else startRenewal s path content text) = .ok first) : start files directory s path = .ok first :=
    Fallible.bind_eq_ok.2 ⟨content, Fallible.mapError_eq_ok.2 hread,
      Fallible.bind_eq_ok.2 ⟨text, Fallible.mapError_eq_ok.2 htext, h⟩⟩
  by_cases hempty : text.isEmpty
  · exact ⟨_, hstart (if_pos hempty)⟩
  · exact ⟨renewing, hstart (by rw [if_neg hempty, hrenewing])⟩

theorem Fails.isEndless {earlier : List Voice} {v : Voice} (h : Fails s l path text σ earlier v f) : f.isEndless = false := by
  rcases h with ⟨e, -, rfl⟩ | ⟨_, _, t, -, -, -, rfl⟩
  · rfl
  · rfl

/-- What becomes of a workable document that is due. -/
theorem renewal_cases (hslug : ∃ slug, Slug.ofPath path = .ok slug) (hwork : Workable s l path content)
    (htext : (Spoken.extract content).outcome.1 = .ok text) (σ : Studio) :
    (∃ voices updated, renewal s l path content text σ = .ok (voices, updated) ∧ AllNarrated s l path text σ [] s.voices ∧
      List.Forall₂ (Addressed l path) s.voices voices ∧ renewed s content voices (Fingerprint.ofText text) = .ok updated) ∨
    ∃ before v after f, renewal s l path content text σ = .error f ∧ s.voices = before ++ v :: after ∧
      AllNarrated s l path text σ [] before ∧ Fails s l path text σ before v f := by
  unfold renewal
  rcases all_narrated_or_first_fails s l text σ hslug [] s.voices with
    ⟨voices, hvoices, hall, haddressed⟩ | ⟨before, v, after, f, hsplit, hall, hfails, hf⟩
  · obtain ⟨updated, hupdated⟩ := hwork.injected text voices htext haddressed
    refine .inl ⟨voices, updated, ?_, hall, haddressed, hupdated⟩
    exact Fallible.bind_eq_ok.2 ⟨voices, hvoices, Fallible.bind_eq_ok.2 ⟨updated, hupdated, rfl⟩⟩
  · refine .inr ⟨before, v, after, f, ?_, hsplit, hall, hfails⟩
    rw [hf]
    rfl

/-- A document is narrated in every voice or not at all. Its file changes only when its narration is generated, which
happens when it is due and every voice is narrated; then the file is the document with the narration of its text. When
a voice fails, the first that does is reported, and the file stays as it is. -/
structure Whole (directory : Text) (s : Settings) (l : Layout) (path : Text) (σ : Studio) (r : DocumentResult) (after : Files) :
    Prop where
  changed : after ≠ σ.files → r.status = .generated
  generated_iff : r.status = .generated ↔ ∃ content text, Documents.read σ.files directory path = .ok content ∧
    Due s content text ∧ AllNarrated s l path text σ [] s.voices
  generated : r.status = .generated → ∃ content text updated outcome, Documents.read σ.files directory path = .ok content ∧
    (Spoken.extract content).outcome.1 = .ok text ∧ List.Forall₂ (Addressed l path) s.voices r.voices ∧
    (Player.inject content ⟨r.voices, Fingerprint.ofText text, s.componentName.text, s.componentImport.text⟩).outcome.1 =
      .ok (updated, outcome) ∧
    Documents.write σ.files directory path updated = .ok after ∧ Documents.read after directory path = .ok updated
  failed : ∀ content text, Documents.read σ.files directory path = .ok content → Due s content text →
    ¬AllNarrated s l path text σ [] s.voices → ∃ before v later f, s.voices = before ++ v :: later ∧
      AllNarrated s l path text σ [] before ∧ Fails s l path text σ before v f ∧ r = .failed path f.message ∧ after = σ.files

/-- Nothing is generated for a document that is not due. -/
theorem whole_of_not_due {r : DocumentResult} (hr : r.status ≠ .generated)
    (hdue : ∀ content text, Documents.read σ.files directory path = .ok content → ¬Due s content text) :
    Whole directory s l path σ r σ.files where
  changed h := absurd rfl h
  generated_iff := ⟨fun h => absurd h hr, fun ⟨content, text, hread, h, _⟩ => absurd h (hdue content text hread)⟩
  generated h := absurd h hr
  failed content text hread h := absurd h (hdue content text hread)

/-- The text of a document that is due. -/
theorem due_unique {c t : Text} (hread : Documents.read σ.files directory path = .ok content) (hdue : Due s content text)
    (hread' : Documents.read σ.files directory path = .ok c) (hdue' : Due s c t) : c = content ∧ t = text := by
  obtain rfl : content = c := Except.ok.inj (hread.symm.trans hread')
  exact ⟨rfl, Except.ok.inj (hdue'.1.symm.trans hdue.1)⟩

theorem whole_of_narrated {files : Files} {outcome : Player.Outcome} (hread : Documents.read σ.files directory path = .ok content)
    (hdue : Due s content text) (hall : AllNarrated s l path text σ [] s.voices)
    (haddressed : List.Forall₂ (Addressed l path) s.voices voices)
    (hinject : (Player.inject content ⟨voices, Fingerprint.ofText text, s.componentName.text, s.componentImport.text⟩).outcome.1 =
      .ok (updated, outcome)) (hwrite : Documents.write σ.files directory path updated = .ok files) :
    Whole directory s l path σ ⟨path, .generated, voices, [], []⟩ files where
  changed _ := rfl
  generated_iff := ⟨fun _ => ⟨content, text, hread, hdue, hall⟩, fun _ => rfl⟩
  generated _ := ⟨content, text, updated, outcome, hread, hdue.1, haddressed, hinject, hwrite, Documents.read_write hread hwrite⟩
  failed c t hread' hdue' hnot := by
    obtain ⟨rfl, rfl⟩ := due_unique hread hdue hread' hdue'
    exact absurd hall hnot

theorem whole_of_failed {before later : List Voice} {v : Voice} (hread : Documents.read σ.files directory path = .ok content)
    (hdue : Due s content text) (hsplit : s.voices = before ++ v :: later) (hall : AllNarrated s l path text σ [] before)
    (hfails : Fails s l path text σ before v f) : Whole directory s l path σ (.failed path f.message) σ.files where
  changed h := absurd rfl h
  generated_iff := by
    refine ⟨nofun, fun ⟨c, t, hread', hdue', hall'⟩ => ?_⟩
    obtain ⟨rfl, rfl⟩ := due_unique hread hdue hread' hdue'
    exact absurd (hall' before v later hsplit) hfails.not_narrated
  generated := nofun
  failed c t hread' hdue' _ := by
    obtain ⟨rfl, rfl⟩ := due_unique hread hdue hread' hdue'
    exact ⟨before, v, later, f, hsplit, hall, hfails, rfl, rfl⟩

/-- The settings with which a page is narrated. -/
def pageSettings : Settings := { Settings.default with voiceIds := ["ada".toList], voiceNames := ["Ada".toList] }

/-- Where the audio of a page is kept. -/
def pageLayout : Layout := .new "bucket".toList "https://audio".toList [] none

theorem workable_page : Workable pageSettings pageLayout "page.mdx".toList "Text.\n".toList where
  extracted := ⟨"Text.".toList, Fallible.toOption_eq_some.1 (by decide +kernel)⟩
  recorded := ⟨none, Fallible.toOption_eq_some.1 (by decide +kernel)⟩
  injected := by
    intro text voices htext hvoices
    obtain rfl : "Text.".toList = text :=
      Option.some.inj ((show _ = some _ by decide +kernel : (Spoken.extract "Text.\n".toList).outcome.1.toOption =
        some "Text.".toList).symm.trans (Fallible.toOption_eq_some.2 htext))
    have hvoices : List.Forall₂ (Addressed pageLayout "page.mdx".toList) [⟨"ada".toList, "Ada".toList, []⟩] voices := hvoices
    obtain ⟨w, _, ⟨key, hkey, rfl⟩, hrest, rfl⟩ := List.forall₂_cons_left_iff.1 hvoices
    obtain rfl := List.forall₂_nil_left_iff.1 hrest
    obtain rfl : "/page/ada.mp3".toList = key := by
      have h : pageLayout.keyFor? "page.mdx".toList "ada".toList = .ok "/page/ada.mp3".toList := by decide
      exact Except.ok.inj (h.symm.trans hkey)
    have hsome : (renewed pageSettings "Text.\n".toList [⟨"ada".toList, "Ada".toList, pageLayout.publicUrl "/page/ada.mp3".toList⟩]
      (Fingerprint.ofText "Text.".toList)).toOption.isSome := by decide +kernel
    obtain ⟨updated, hupdated⟩ := Option.isSome_iff_exists.1 hsome
    exact ⟨updated, Fallible.toOption_eq_some.1 hupdated⟩

end Narration.Generate
