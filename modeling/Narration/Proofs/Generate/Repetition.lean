import Narration.Generate
import Narration.Proofs.Files
import Narration.Proofs.Work

/-!
# Generating narration twice

* `Generate.UpToDate` : documents that record the narration of their text in the requested voices;
* `Generate.update_of_upToDate` : these are passed over, with nothing changed and nobody asked;
* `Generate.ending_of_update` : the ways in which a run on a document ends.
-/

namespace Narration.Generate
open Work

variable {directory path : Text} {s : Settings} {l : Layout} {σ τ : Studio}

/-- What a run may change, apart from what it says. -/
abbrev lasting (σ : Studio) : Files × Store × Speech := (σ.files, σ.store, σ.speech)

/-- A document that has text to narrate and records its fingerprint and the requested voices. -/
def UpToDate (s : Settings) (document : Text) : Prop :=
  ∃ name text block, s.componentName = .str name ∧ (Spoken.extract document).outcome.1 = .ok text ∧
    text ≠ [] ∧ (Player.locate? document name).outcome.1 = .ok (some block) ∧
    block.fingerprint = some (Fingerprint.ofText text) ∧
    Fingerprint.voicesMatch block.voiceIds s.voiceIds

/-- Whether a document is up to date. -/
def isUpToDate (s : Settings) (document : Text) : Bool :=
  match s.componentName with
  | .str name =>
    (Spoken.extract document).outcome.1.toOption.any fun text => !text.isEmpty &&
      (Player.locate? document name).outcome.1.toOption.join.any fun block =>
        block.fingerprint = some (Fingerprint.ofText text) &&
          Fingerprint.voicesMatch block.voiceIds s.voiceIds
  | _ => false

theorem isUpToDate_iff (s : Settings) (document : Text) : isUpToDate s document ↔ UpToDate s document := by
  unfold isUpToDate UpToDate
  split
  · next name hname =>
    simp [hname, Option.any_eq_true, Option.join_eq_some_iff, Fallible.toOption_eq_some]
  · next hname =>
    refine ⟨nofun, fun ⟨name, _, _, h, _⟩ => absurd h (hname name)⟩

instance (s : Settings) (document : Text) : Decidable (UpToDate s document) :=
  decidable_of_iff _ (isUpToDate_iff s document)

/-! ## Steps without lasting changes -/

/-- A step gives a certain result in any studio, and changes nothing lasting. -/
def Yields {α : Type} (w : Work α) (a : α) : Prop :=
  ∀ σ, ∃ τ, w.after σ = (.ok a, τ) ∧ lasting τ = lasting σ

namespace Yields
variable {α β : Type} {w : Work α} {f : α → Work β} {a : α} {b : β}

theorem pure (a : α) : Yields (Pure.pure a) a := fun σ => ⟨σ, rfl, rfl⟩

theorem bind (hw : Yields w a) (hf : Yields (f a) b) : Yields (w >>= f) b := by
  intro σ
  obtain ⟨ρ, hρ, hkept⟩ := hw σ
  obtain ⟨τ, hτ, hkept'⟩ := hf ρ
  exact ⟨τ, bind_eq_ok.2 ⟨a, ρ, hρ, hτ⟩, hkept'.trans hkept⟩

theorem say (line : Text) : Yields (Work.say line) () := fun _ => ⟨_, rfl, rfl⟩

theorem ofReport {r : Report α} (h : r.outcome.1 = .ok a) : Yields (Work.ofReport r) a :=
  fun _ => ⟨_, ofReport_eq_ok.2 ⟨h, rfl⟩, rfl⟩

theorem sayExtracted (path text digest : Text) : Yields (Generate.sayExtracted path text digest) () :=
  (say _).bind ((say _).bind (say _))

end Yields

/-! ## A document that is up to date -/

theorem recorded_eq_ok {document : Text} {block : NarrationBlock}
    (h : (recorded s document).after σ = (.ok (some block), τ)) :
    ∃ name, s.componentName = .str name ∧ (Player.locate? document name).outcome.1 = .ok (some block) := by
  unfold recorded at h
  split at h
  · next name hname => exact ⟨name, hname, (ofReport_eq_ok.1 h).1⟩
  · obtain ⟨_, _, -, h⟩ := bind_eq_ok.1 h
    cases h

/-- A document that is up to date is passed over, and nothing lasting changes. -/
theorem update_of_upToDate {document : Text} (hread : Documents.read σ.files directory path = .ok document)
    (h : UpToDate s document) : ∃ voices τ,
      (update directory s l path).after σ = (.ok (.skipped path voices "Content unchanged"), τ) ∧
      lasting τ = lasting σ := by
  obtain ⟨name, text, block, hname, htext, hne, hblock, hdigest, hvoices⟩ := h
  have hunchanged : Fingerprint.hasChanged (Fingerprint.ofText text) (some block) s.voiceIds = false := by
    simp [Fingerprint.hasChanged, hdigest, hvoices]
  have hrecorded : Yields (recorded s document) (some block) := by
    rw [recorded, hname]
    exact .ofReport hblock
  have hrenew : Yields (renew directory s l path document text (Fingerprint.ofText text))
      (.skipped path block.voices "Content unchanged") := by
    refine .bind hrecorded ?_
    rw [hunchanged]
    exact .bind (.say _) (.pure _)
  refine ⟨block.voices, ?_⟩
  unfold update
  rw [after_bind, after_read, hread]
  refine (?_ : Yields _ _) σ
  refine .bind (.ofReport htext) ?_
  dsimp only
  rw [if_neg (by simpa using hne)]
  split
  · exact .bind (.sayExtracted path text _) hrenew
  · exact hrenew

/-! ## How a run ends -/

/-- How bringing a document up to date ends, unless it fails; the files before and after it. -/
inductive Ending (directory : Text) (s : Settings) (path : Text) (before after : Files)
    (document : Text) : DocumentResult → Prop
  | silent : Ending directory s path before after document (.skipped path [] "No extractable text")
  | unchanged (voices : List Voice) (h : UpToDate s document) :
      Ending directory s path before after document (.skipped path voices "Content unchanged")
  | previewed (voices : List Voice) (reason : Text) (h : s.dryRun) :
      Ending directory s path before after document ⟨path, .previewed, voices, reason, []⟩
  | generated (voices : List Voice) (text updated : Text) (outcome : Player.Outcome) (h : s.dryRun = false)
      (htext : (Spoken.extract document).outcome.1 = .ok text)
      (hinject : (Player.inject document ⟨voices, Fingerprint.ofText text, s.componentName.text,
        s.componentImport.text⟩).outcome.1 = .ok (updated, outcome))
      (hwrite : Documents.write before directory path updated = .ok after) :
      Ending directory s path before after document ⟨path, .generated, voices, [], []⟩

theorem keeps_sayExtracted (path text digest : Text) : Keeps Studio.files (sayExtracted path text digest) :=
  have hsay (line : Text) : Keeps Studio.files (say line) := .say line fun _ _ => rfl
  .bind (hsay _) fun _ => .bind (hsay _) fun _ => hsay _

theorem keeps_recorded (s : Settings) (document : Text) : Keeps Studio.files (recorded s document) := by
  unfold recorded
  split
  · exact .ofReport fun _ _ => rfl
  · exact .bind (.map (.ofReport fun _ _ => rfl)) fun _ => .pure _

theorem keeps_narrateVoice (l : Layout) (path rate text : Text) (v : Voice) :
    Keeps Studio.files (narrateVoice l path rate text v) := by
  refine .bind (.bind .get fun ρ => ?_) fun audio => ?_
  · exact .bind (.modify fun _ => rfl) fun _ => .ofExcept _ _
  refine .bind (.ofExcept _ _) fun key => .bind (.bind .get fun ρ => ?_) fun url => .pure _
  exact .bind (.modify fun _ => rfl) fun _ => .ofExcept _ _

theorem keeps_narrateAll (l : Layout) (path rate text : Text) (voices : List Voice) :
    Keeps Studio.files (narrateAll l path rate text voices) := by
  refine .bind (.mapM fun v => ?_) fun results => .mapM fun r => .ofExcept _ _
  exact .tryCatch (.map (keeps_narrateVoice l path rate text v)) fun _ => .pure _

theorem withNarration_eq_ok {document : Text} {voices : List Voice} {digest updated : Text}
    (h : (withNarration s document voices digest).after σ = (.ok updated, τ)) :
    τ.files = σ.files ∧ ∃ outcome, (Player.inject document
      ⟨voices, digest, s.componentName.text, s.componentImport.text⟩).outcome.1 = .ok (updated, outcome) := by
  have hinject {ρ : Studio} (h : (do
      let r ← ofReport (Player.inject document
        ⟨voices, digest, s.componentName.text, s.componentImport.text⟩)
      return r.1 : Work Text).after ρ = (.ok updated, τ)) : τ.files = ρ.files ∧ ∃ outcome, (Player.inject
        document ⟨voices, digest, s.componentName.text, s.componentImport.text⟩).outcome.1 =
          .ok (updated, outcome) := by
    obtain ⟨⟨t, outcome⟩, _, hreport, h⟩ := bind_eq_ok.1 h
    obtain ⟨hresult, rfl⟩ := ofReport_eq_ok.1 hreport
    cases h
    exact ⟨rfl, outcome, hresult⟩
  unfold withNarration at h
  split at h
  · exact hinject h
  · split at h
    · cases h
    · exact hinject h

theorem ending_of_renew {document text : Text} {r : DocumentResult}
    (htext : (Spoken.extract document).outcome.1 = .ok text) (hne : text ≠ [])
    (h : (renew directory s l path document text (Fingerprint.ofText text)).after σ = (.ok r, τ)) :
    Ending directory s path σ.files τ.files document r := by
  obtain ⟨existing, ρ₁, hexisting, h₁⟩ := bind_eq_ok.1 h
  split at h₁
  · next hunchanged =>
    obtain ⟨_, _, -, h₂⟩ := bind_eq_ok.1 h₁
    cases h₂
    cases existing with
    | none => simp [Fingerprint.hasChanged] at hunchanged
    | some block =>
      obtain ⟨name, hname, hblock⟩ := recorded_eq_ok hexisting
      simp [Fingerprint.hasChanged] at hunchanged
      exact .unchanged _ ⟨name, text, block, hname, htext, hne, hblock, hunchanged⟩
  · split at h₁
    · next hdry =>
      obtain ⟨voices, _, -, h₂⟩ := bind_eq_ok.1 h₁
      obtain ⟨updated, _, -, h₃⟩ := bind_eq_ok.1 h₂
      obtain ⟨_, _, -, h₄⟩ := bind_eq_ok.1 h₃
      cases h₄
      exact .previewed _ _ hdry
    · next hdry =>
      obtain ⟨_, ρ₂, hsay, h₂⟩ := bind_eq_ok.1 h₁
      obtain ⟨voices, ρ₃, hvoices, h₃⟩ := bind_eq_ok.1 h₂
      obtain ⟨updated, ρ₄, hupdated, h₄⟩ := bind_eq_ok.1 h₃
      obtain ⟨_, ρ₅, hwrite, h₅⟩ := bind_eq_ok.1 h₄
      cases h₅
      obtain ⟨hfiles₄, outcome, hinject⟩ := withNarration_eq_ok hupdated
      have hfiles : ρ₄.files = σ.files := calc
        ρ₄.files = ρ₃.files := hfiles₄
        _ = ρ₂.files := by simpa [hvoices] using keeps_narrateAll l path s.rate text s.voices ρ₂
        _ = ρ₁.files := by rw [after_say] at hsay; cases hsay; rfl
        _ = σ.files := by simpa [hexisting] using keeps_recorded s document σ
      refine .generated voices text updated outcome (by simpa using hdry) htext hinject ?_
      rw [← hfiles]
      exact files_of_write hwrite

theorem ending_of_update {r : DocumentResult} (h : (update directory s l path).after σ = (.ok r, τ)) :
    ∃ document, Documents.read σ.files directory path = .ok document ∧
      Ending directory s path σ.files τ.files document r := by
  obtain ⟨document, ρ₀, hread, h₁⟩ := bind_eq_ok.1 h
  obtain ⟨hread, rfl⟩ := read_eq_ok.1 hread
  refine ⟨document, hread, ?_⟩
  obtain ⟨text, ρ₁, htext, h₂⟩ := bind_eq_ok.1 h₁
  obtain ⟨htext, hρ₁⟩ := ofReport_eq_ok.1 htext
  dsimp only at h₂
  split at h₂
  · obtain ⟨_, _, -, h₃⟩ := bind_eq_ok.1 h₂
    cases h₃
    exact .silent
  · next hne =>
    have hne : text ≠ [] := by simpa using hne
    have hfiles₁ : ρ₁.files = ρ₀.files := by rw [hρ₁]
    split at h₂
    · obtain ⟨_, ρ₂, hsaid, h₃⟩ := bind_eq_ok.1 h₂
      have hfiles₂ : ρ₂.files = ρ₁.files := by
        simpa [hsaid] using keeps_sayExtracted path text (Fingerprint.ofText text) ρ₁
      rw [← hfiles₁, ← hfiles₂]
      exact ending_of_renew htext hne h₃
    · rw [← hfiles₁]
      exact ending_of_renew htext hne h₂

/-! ## Documents -/

/-- A result that is no failure is that of bringing the document up to date. -/
theorem update_of_document {r : DocumentResult} (h : (document directory s l path).after σ = (.ok r, τ))
    (hr : r.status ≠ .failed) : (update directory s l path).after σ = (.ok r, τ) := by
  unfold document at h
  rw [after_tryCatch] at h
  rcases hupdate : (update directory s l path).after σ with ⟨e | r', ρ⟩
  · rw [hupdate] at h
    have hfailed : r = .failed path e.message := by
      dsimp only at h
      split at h
      · cases h
      · split at h
        · obtain ⟨_, _, -, h₁⟩ := bind_eq_ok.1 h
          obtain ⟨_, _, -, h₂⟩ := bind_eq_ok.1 h₁
          cases h₂
          rfl
        · obtain ⟨_, _, -, h₁⟩ := bind_eq_ok.1 h
          cases h₁
          rfl
    exact absurd (congrArg DocumentResult.status hfailed) hr
  · rw [hupdate] at h
    exact h

theorem document_of_update {r : DocumentResult} (h : (update directory s l path).after σ = (.ok r, τ)) :
    (document directory s l path).after σ = (.ok r, τ) := by
  unfold document
  rw [after_tryCatch, h]

/-- A studio with one document, in which nothing fails. -/
def studioWith (document : Text) : Studio where
  files := ⟨[(["page.mdx".toList], .file (Utf8.encode document))]⟩
  store := .ofKeys []
  speech := .ofAnswers fun _ _ => .sent [.audio [0]] none
  repository := ⟨none⟩
  environment := []
  output := []
  errors := []
  warnings := []

/-- A run on that document, which asks for one voice. -/
def runOnPage : Work DocumentResult :=
  document [] { Settings.default with voiceIds := ["ada".toList], voiceNames := ["Ada".toList] }
    (.new "bucket".toList "https://audio".toList [] none) "page.mdx".toList

/-- The result of the first run on a page. -/
def pageNarrated : DocumentResult :=
  ⟨"page.mdx".toList, .generated, [⟨"ada".toList, "Ada".toList, "https://audio//page/ada.mp3".toList⟩], [], []⟩

/-- The studio after the first run on a page. -/
def studioAfterPage : Studio := (runOnPage.after (studioWith "Text.\n".toList)).2

end Narration.Generate
