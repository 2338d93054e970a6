import Narration.Generate
import Narration.Proofs.Store
import Narration.Proofs.Work

/-!
# What generating narration asks the store

* `Generate.Stores` : the requests that store the audio of a document in a requested voice;
* `Generate.requests_document` : a run on a document makes no others;
* `Generate.requests_all` : a run on a directory makes no others, for the documents found there.
-/

namespace Narration.Generate
open Work

variable {directory path : Text} {s : Settings} {l : Layout} {P : Store.Request → Prop}

/-- Storing the audio of a document in one of the requested voices. -/
def Stores (s : Settings) (l : Layout) (path : Text) (r : Store.Request) : Prop :=
  ∃ id ∈ s.voiceIds, ∃ key content, l.keyFor? path id = .ok key ∧ r = .put l.bucket key content Store.audioType

theorem id_of_mem_voices {v : Voice} (h : v ∈ s.voices) : v.id ∈ s.voiceIds := by
  obtain ⟨n, hn, rfl⟩ := List.mem_iff_getElem.1 h
  simp [Settings.voices]

/-! ## Steps that leave the store alone -/

theorem requests_say (line : Text) : Requests P (say line) := .of_keeps (.say line fun _ _ => rfl)

theorem requests_ofReport {α : Type} (r : Report α) : Requests P (ofReport r) := .of_keeps (.ofReport fun _ _ => rfl)

theorem requests_ofExcept {ε α : Type} (wrap : ε → Failure) (x : Except ε α) : Requests P (ofExcept wrap x) := .of_keeps (.ofExcept wrap x)

theorem requests_pure {α : Type} (a : α) : Requests P (pure a) := .of_keeps (.pure a)

theorem requests_throw {α : Type} (f : Failure) : Requests P (throw f : Work α) := .of_keeps (.throw f)

theorem requests_recorded (s : Settings) (document : Text) : Requests P (recorded s document) := by
  unfold recorded
  split
  · exact requests_ofReport _
  · exact .bind (.map (requests_ofReport _)) fun _ => requests_pure _

theorem requests_withNarration (s : Settings) (document : Text) (voices : List Voice) (digest : Text) :
    Requests P (withNarration s document voices digest) := by
  have hinject : Requests P (do
      let r ← ofReport (Player.inject document ⟨voices, digest, s.componentName.text, s.componentImport.text⟩)
      return r.1 : Work Text) := .bind (requests_ofReport _) fun _ => requests_pure _
  unfold withNarration
  split
  · exact hinject
  · split
    · exact requests_throw _
    · exact hinject

theorem requests_forM {lines : List Text} {f : Text → Text} : Requests P (lines.forM fun line => say (f line)) := by
  induction lines with
  | nil => exact requests_pure ()
  | cons line lines ih => exact .bind (requests_say (f line)) fun _ => ih

/-! ## The audio of a document -/

theorem requests_upload {id key : Text} (hid : id ∈ s.voiceIds) (hkey : l.keyFor? path id = .ok key) (audio : List UInt8) :
    Requests (Stores s l path) (ofStore (Store.upload l key audio Store.audioType)) := by
  intro σ
  refine ⟨[.put l.bucket key audio Store.audioType], ?_, ?_⟩
  · rw [after_ofStore, Store.after_upload]
    cases σ.store.behaviour.put key <;> rfl
  · rintro r hr
    exact ⟨id, hid, key, audio, hkey, List.mem_singleton.1 hr⟩

theorem requests_narrateVoice {v : Voice} (hv : v.id ∈ s.voiceIds) (rate text : Text) :
    Requests (Stores s l path) (narrateVoice l path rate text v) := by
  unfold narrateVoice
  refine .bind (.of_keeps ?_) fun audio => ?_
  · refine .bind .get fun ρ => ?_
    exact .bind (.modify fun _ => rfl) fun _ => .ofExcept _ _
  · exact .ofExcept_bind fun key hkey => .bind (requests_upload hv hkey audio) fun url => requests_pure _

theorem requests_narrateAll (s : Settings) (l : Layout) (path text : Text) :
    Requests (Stores s l path) (narrateAll l path s.rate text s.voices) := by
  refine .bind (.mapM fun v hv => ?_) fun results => .mapM fun r _ => requests_ofExcept id r
  exact .tryCatch (.map (requests_narrateVoice (id_of_mem_voices hv) s.rate text)) fun f => requests_pure _

/-! ## Documents -/

theorem requests_renew (directory : Text) (s : Settings) (l : Layout) (path content text digest : Text) :
    Requests (Stores s l path) (renew directory s l path content text digest) := by
  refine .bind (requests_recorded s content) fun existing => ?_
  split
  · exact .bind (requests_say _) fun _ => requests_pure _
  split
  · refine .bind (.mapM fun v _ => ?_) fun voices => .bind (requests_withNarration s content voices digest) fun updated => ?_
    · exact .bind (requests_ofExcept _ _) fun key => requests_pure _
    · exact .bind (.bind (requests_say _) fun _ => requests_forM) fun _ => requests_pure _
  · refine .bind (requests_say _) fun _ => .bind (requests_narrateAll s l path text) fun voices => ?_
    refine .bind (requests_withNarration s content voices digest) fun updated => .bind (.of_keeps ?_) fun _ => requests_pure _
    exact .bind .get fun ρ => .bind (.ofExcept _ _) fun files => .modify fun _ => rfl

theorem requests_update (directory : Text) (s : Settings) (l : Layout) (path : Text) :
    Requests (Stores s l path) (update directory s l path) := by
  refine .bind (.of_keeps (.bind .get fun ρ => .ofExcept _ _)) fun content => .bind (requests_ofReport _) fun text => ?_
  dsimp only
  split
  · exact .bind (requests_say _) fun _ => requests_pure _
  split
  · refine .bind (.bind (requests_say _) fun _ => .bind (requests_say _) fun _ => requests_say _) fun _ => ?_
    exact requests_renew directory s l path content text _
  · exact requests_renew directory s l path content text _

/-- A run on a document asks the store for nothing but to store its audio in the requested voices. -/
theorem requests_document (directory : Text) (s : Settings) (l : Layout) (path : Text) :
    Requests (Stores s l path) (document directory s l path) := by
  refine .tryCatch (requests_update directory s l path) fun f => ?_
  have hreport : Requests (Stores s l path) (do
      complain ("  Failed ".toList ++ path ++ ':' :: ' ' :: f.message)
      return .failed path f.message : Work DocumentResult) :=
    .bind (.of_keeps (.modify fun _ => rfl)) fun _ => requests_pure _
  have hwarn : Requests (Stores s l path) (do
      if !f.isExpected then warn .unexpectedFailure
      complain ("  Failed ".toList ++ path ++ ':' :: ' ' :: f.message)
      return .failed path f.message : Work DocumentResult) := by
    dsimp only
    split
    · exact .bind (.of_keeps (.modify fun _ => rfl)) fun _ => hreport
    · exact hreport
  dsimp only
  split
  · exact .bind (requests_throw f) fun _ => hwarn
  · exact hwarn

/-- A run on a directory asks the store for nothing but to store audio of the documents found there. -/
theorem requests_all (directory : Text) (s : Settings) (l : Layout) (ignored : List Text) (σ : Studio) :
    ∃ made, ((all directory s l ignored).after σ).2.store.requests = σ.store.requests ++ made ∧
      ∀ r ∈ made, ∃ path ∈ Documents.find σ.files directory s.pattern ignored, Stores s l path r := by
  let found := Documents.find σ.files directory s.pattern ignored
  have hrun : Requests (fun r => ∃ path ∈ found, Stores s l path r) (do
      if found.isEmpty then
        say ("No documents found matching pattern: ".toList ++ s.pattern)
        return []
      say ("Found ".toList ++ Text.digits found.length ++ " document(s)".toList)
      let results ← found.mapM (document directory s l)
      (Summary.lines results s.verbose).forM say
      return results : Work (List DocumentResult)) := by
    split
    · exact .bind (requests_say _) fun _ => requests_pure _
    · refine .bind (requests_say _) fun _ => .bind (.mapM fun path hpath => ?_) fun results =>
        .bind requests_forM fun _ => requests_pure _
      exact (requests_document directory s l path).imp fun r hr => ⟨path, hpath, hr⟩
  exact hrun σ

end Narration.Generate
