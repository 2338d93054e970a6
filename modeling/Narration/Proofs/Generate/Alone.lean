import Narration.Proofs.Files
import Narration.Proofs.Generate.Whole

/-!
# What a run on one document depends on

When a service answers requests without regard to those before, what a run does to a document is told by the content of
that document and by how the services answer.

* `Speech.Steady` : answers for which earlier requests do not count;
* `Generate.services` : what a run needs of the services, which it leaves as it is;
* `Generate.verdict`, `Generate.Adds` : the result of a document, what is written, and the keys that are stored;
* `Generate.Leaves`, `Generate.leaves_document` : what a run on a document leaves behind;
* `Generate.Alike` : two studios in which a run does the same to a document.
-/

namespace Narration

namespace Speech

/-- Answers for which only the request counts: whether a text is spoken, and how it sounds, does not depend on what was asked
before. -/
def Steady (answer : Request → Nat → Attempt) : Prop :=
  ∀ a b : Speech, a.answer = answer → b.answer = answer → ∀ r, (a.synthesize r).1 = (b.synthesize r).1

variable {r : Request}

theorem answer_of_ask {speech next : Speech} {x : Except Trouble (List UInt8)} (h : speech.ask r = (x, next)) :
    next.answer = speech.answer := by
  cases h
  rfl

theorem answer_askFrom (attempt more : Nat) (last : Trouble) (speech : Speech) :
    (askFrom r attempt more last speech).2.2.answer = speech.answer := by
  induction more generalizing attempt last speech with
  | zero => rfl
  | succ more ih =>
    rw [askFrom]
    rcases hask : speech.ask r with ⟨x, next⟩
    cases x with
    | ok audio => exact answer_of_ask hask
    | error trouble => exact (ih _ _ _).trans (show next.answer = speech.answer from answer_of_ask hask)

theorem answer_synthesize (speech : Speech) (r : Request) : (speech.synthesize r).2.2.answer = speech.answer := answer_askFrom ..

/-- Answers that do not look at the number of earlier requests are steady. -/
theorem steady_of_request (answer : Request → Attempt) : Steady fun r _ => answer r := by
  have hask (a b : Speech) (ha : a.answer = fun r _ => answer r) (hb : b.answer = fun r _ => answer r) (r : Request) :
      (a.ask r).1 = (b.ask r).1 := by rw [ask, ask, ha, hb]
  have hfrom (r : Request) (attempt more : Nat) (last : Trouble) : ∀ a b : Speech, a.answer = (fun r _ => answer r) →
      b.answer = (fun r _ => answer r) → (askFrom r attempt more last a).1 = (askFrom r attempt more last b).1 := by
    induction more generalizing attempt last with
    | zero => exact fun _ _ _ _ => rfl
    | succ more ih =>
      intro a b ha hb
      have hsame := hask a b ha hb r
      rw [askFrom, askFrom]
      rcases hx : a.ask r with ⟨x, a'⟩
      rcases hy : b.ask r with ⟨y, b'⟩
      rw [hx, hy] at hsame
      cases hsame
      cases x with
      | ok audio => rfl
      | error trouble => exact ih _ _ _ _ ((answer_of_ask hx).trans ha) ((answer_of_ask hy).trans hb)
  exact fun a b ha hb r => hfrom r 0 maxAttempts _ a b ha hb

end Speech

theorem Store.mem_insert {k key : Text} {keys : List Text} : k ∈ insert key keys ↔ k ∈ keys ∨ k = key := by
  unfold insert
  split
  · next h => exact ⟨.inl, fun hk => hk.elim id fun hk => hk ▸ List.contains_iff_mem.1 h⟩
  · rw [List.mem_append, List.mem_singleton]

namespace Generate
open Work

variable {directory path content text k : Text} {s : Settings} {l : Layout} {σ τ ρ : Studio} {v : Voice}

/-! ## The services -/

/-- What a run needs of the services: how the one answers and the other behaves. -/
abbrev services (σ : Studio) : (Speech.Request → Nat → Speech.Attempt) × Store.Behaviour :=
  (σ.speech.answer, σ.store.behaviour)

theorem keeps_services_narrateVoice (l : Layout) (path rate text : Text) (v : Voice) :
    Keeps services (narrateVoice l path rate text v) := by
  refine .bind (fun σ => ?_) fun audio => .bind (.ofExcept _ _) fun key => .bind (fun σ => ?_) fun url => .pure _
  · rw [after_synthesize]
    exact congrArg (·, σ.store.behaviour) (Speech.answer_synthesize σ.speech _)
  · rw [after_ofStore, Store.after_upload]
    cases σ.store.behaviour.put key <;> rfl

/-- The audio of a text in a voice is stored under a key. -/
def Enters (s : Settings) (l : Layout) (path text : Text) (σ : Studio) (v : Voice) (k : Text) : Prop :=
  l.keyFor? path v.id = .ok k ∧ σ.store.behaviour.put k = none ∧ ∃ audio, (σ.speech.synthesize (request s text v)).1 = .ok audio

/-- What is stored does not depend on what was asked of the services before. -/
theorem enters_congr (hsteady : Speech.Steady σ.speech.answer) (h : services τ = services σ) :
    Enters s l path text τ v k ↔ Enters s l path text σ v k := by
  obtain ⟨hanswer, hbehaviour⟩ := Prod.mk.inj h
  rw [Enters, Enters, hbehaviour, hsteady τ.speech σ.speech hanswer rfl]

theorem mem_keys_narrateVoice (s : Settings) (l : Layout) (path text : Text) (v : Voice) (τ : Studio) :
    k ∈ ((narrateVoice l path s.rate text v).after τ).2.store.keys ↔ k ∈ τ.store.keys ∨ Enters s l path text τ v k := by
  unfold Enters
  rw [narrateVoice, after_bind, after_synthesize, show (⟨text, v.id, s.rate⟩ : Speech.Request) = request s text v from rfl]
  cases (τ.speech.synthesize (request s text v)).1 with
  | error e =>
    refine ⟨.inl, fun h => h.elim id ?_⟩
    rintro ⟨-, -, audio, haudio⟩
    cases haudio
  | ok audio =>
    dsimp only [Except.mapError]
    rw [after_bind, after_ofExcept]
    cases l.keyFor? path v.id with
    | error e =>
      refine ⟨.inl, fun h => h.elim id ?_⟩
      rintro ⟨hkey, -⟩
      cases hkey
    | ok key =>
      dsimp only [Except.mapError]
      rw [after_bind, after_ofStore, Store.after_upload]
      dsimp only
      cases hput : τ.store.behaviour.put key with
      | some t =>
        refine ⟨.inl, fun h => h.elim id ?_⟩
        rintro ⟨hkey, hnone, -⟩
        cases hkey
        rw [hput] at hnone
        cases hnone
      | none =>
        refine Store.mem_insert.trans (or_congr_right ⟨?_, ?_⟩)
        · rintro rfl
          exact ⟨rfl, hput, audio, rfl⟩
        · rintro ⟨hkey, -⟩
          exact (Except.ok.inj hkey).symm

theorem mem_keys_mapM (s : Settings) (l : Layout) (path text : Text) (voices : List Voice) (τ : Studio)
    (hsteady : Speech.Steady τ.speech.answer) :
    k ∈ ((voices.mapM fun v => (narrateVoice l path s.rate text v).attempt).after τ).2.store.keys ↔
      k ∈ τ.store.keys ∨ ∃ v ∈ voices, Enters s l path text τ v k := by
  induction voices generalizing τ with
  | nil => simp only [List.not_mem_nil, false_and, exists_false, or_false]; rfl
  | cons v voices ih =>
    have hfirst := mem_keys_narrateVoice (k := k) s l path text v τ
    have hservices := keeps_services_narrateVoice l path s.rate text v τ
    rw [List.mapM_cons, after_bind, after_attempt]
    dsimp only
    generalize ((narrateVoice l path s.rate text v).after τ).2 = τ₁ at hfirst hservices
    have hrest := ih τ₁ ((Prod.mk.inj hservices).1 ▸ hsteady)
    simp only [enters_congr hsteady hservices, hfirst] at hrest
    rw [List.exists_mem_cons_iff, ← or_assoc, ← hrest, after_bind]
    rcases (voices.mapM fun v => (narrateVoice l path s.rate text v).attempt).after τ₁ with ⟨e | vs, τ₂⟩ <;> rfl

theorem mem_keys_narrateAll (s : Settings) (l : Layout) (path text : Text) (voices : List Voice) (τ : Studio)
    (hsteady : Speech.Steady τ.speech.answer) : k ∈ ((narrateAll l path s.rate text voices).after τ).2.store.keys ↔
      k ∈ τ.store.keys ∨ ∃ v ∈ voices, Enters s l path text τ v k := by
  rw [← mem_keys_mapM s l path text voices τ hsteady, narrateAll, after_bind]
  rcases (voices.mapM fun v => (narrateVoice l path s.rate text v).attempt).after τ with ⟨e | results, ρ⟩
  · rfl
  · dsimp only
    rw [after_mapM_ofExcept]

theorem keeps_services_narrateAll (l : Layout) (path rate text : Text) (voices : List Voice) :
    Keeps services (narrateAll l path rate text voices) := by
  refine .bind (.mapM fun v => ?_) fun results => .mapM fun r => .ofExcept _ _
  exact .tryCatch (.map (keeps_services_narrateVoice l path rate text v)) fun _ => .pure _

/-- What a run leaves as it is once the voices of the document are narrated. -/
theorem keeps_store_rest (directory path : Text) (s : Settings) (content : Text) (voices : List Voice) (digest : Text)
    (r : DocumentResult) :
    Keeps (fun σ => (services σ, σ.store.keys)) (do
      let updated ← withNarration s content voices digest
      write directory path updated
      return r) := by
  have hwrite (updated : Text) : Keeps (fun σ => (services σ, σ.store.keys)) (write directory path updated) :=
    .bind .get fun ρ => .bind (.ofExcept _ _) fun files => .modify fun _ => rfl
  refine .bind (fun σ => ?_) fun updated => .bind (hwrite updated) fun _ => .pure r
  obtain ⟨warnings, hafter⟩ := consults_withNarration σ.files s content voices digest σ rfl
  rw [hafter]

/-- The keys that a run adds for a document that is due, and the services it leaves as they are. -/
theorem leaves_finish (hdry : s.dryRun = false) (directory : Text) (l : Layout) (path content text : Text) (τ : Studio)
    (hsteady : Speech.Steady τ.speech.answer) :
    services ((finish directory s l path content text).after τ).2 = services τ ∧
      ∀ k, k ∈ ((finish directory s l path content text).after τ).2.store.keys ↔
        k ∈ τ.store.keys ∨ ∃ v ∈ s.voices, Enters s l path text τ v k := by
  unfold finish
  dsimp only
  rw [hdry, if_neg Bool.false_ne_true, after_bind, after_say]
  dsimp only
  generalize hτ₁ : ({ τ with output := _ } : Studio) = τ₁
  have hservices₁ : services τ₁ = services τ := by rw [← hτ₁]
  have hkeys₁ : τ₁.store.keys = τ.store.keys := by rw [← hτ₁]
  have hservices := keeps_services_narrateAll l path s.rate text s.voices τ₁
  have hkeys (k : Text) := mem_keys_narrateAll (k := k) s l path text s.voices τ₁ ((Prod.mk.inj hservices₁).1 ▸ hsteady)
  simp only [enters_congr hsteady hservices₁, hkeys₁] at hkeys
  rw [hservices₁] at hservices
  rw [after_bind]
  rcases hafter : (narrateAll l path s.rate text s.voices).after τ₁ with ⟨f | voices, τ₂⟩
  all_goals
    rw [hafter] at hservices
    simp only [hafter] at hkeys
    dsimp only at hservices ⊢
  · exact ⟨hservices, hkeys⟩
  · have hrest := keeps_store_rest directory path s content voices (Fingerprint.ofText text)
      ⟨path, .generated, voices, [], []⟩ τ₂
    obtain ⟨hservices₃, hkeys₃⟩ := Prod.mk.inj hrest
    exact ⟨hservices₃.trans hservices, fun k => by rw [← hkeys k, ← hkeys₃]⟩

/-! ## One document -/

/-- What comes of a document, told from its content and the services: its result, and the text that is written, if any. -/
def verdict (directory : Text) (s : Settings) (l : Layout) (path : Text) (σ : Studio) :
    Except Failure DocumentResult × Option Text :=
  match start σ.files directory s path with
  | .error f => (.error f, none)
  | .ok (.skipped r) => (.ok r, none)
  | .ok (.due content text) => match renewal s l path content text σ with
    | .error f => (.error f, none)
    | .ok (voices, updated) => (.ok ⟨path, .generated, voices, [], []⟩, some updated)

/-- A run on a document stores audio under a key: the document is due, and the audio of a voice is stored there. -/
def Adds (directory : Text) (s : Settings) (l : Layout) (path : Text) (σ : Studio) (k : Text) : Prop :=
  ∃ content text, start σ.files directory s path = .ok (.due content text) ∧ ∃ v ∈ s.voices, Enters s l path text σ v k

/-- What a run on a document leaves behind. -/
structure Leaves (directory : Text) (s : Settings) (l : Layout) (path : Text) (σ τ : Studio) : Prop where
  services : services τ = services σ
  unwritten : (verdict directory s l path σ).2 = none → τ.files = σ.files
  written : ∀ t, (verdict directory s l path σ).2 = some t →
    (∃ old, Documents.read σ.files directory path = .ok old) ∧ Documents.write σ.files directory path t = .ok τ.files
  keys : ∀ k, k ∈ τ.store.keys ↔ k ∈ σ.store.keys ∨ Adds directory s l path σ k

/-- A document that is not due is left alone. -/
theorem leaves_of_not_due {warnings : List Warning} {output : Text} (hwritten : (verdict directory s l path σ).2 = none)
    (hdue : ∀ content text, start σ.files directory s path ≠ .ok (.due content text)) :
    Leaves directory s l path σ { σ with warnings, output } where
  services := rfl
  unwritten _ := rfl
  written _ ht := nomatch hwritten.symm.trans ht
  keys _ := ⟨.inl, fun h => h.elim id fun ⟨content, text, hstart, _⟩ => absurd hstart (hdue content text)⟩

theorem leaves_of_due (hdry : s.dryRun = false) (hsteady : Speech.Steady σ.speech.answer) {warnings : List Warning}
    {output : Text} (hstart : start σ.files directory s path = .ok (.due content text)) :
    ((finish directory s l path content text).after { σ with warnings, output }).1 = (verdict directory s l path σ).1 ∧
      Leaves directory s l path σ ((finish directory s l path content text).after { σ with warnings, output }).2 := by
  have hread := (start_eq_due.1 hstart).1
  have hserved : Served s text σ [] { σ with warnings, output } := ⟨rfl, rfl⟩
  have hends := ends_finish hdry hserved l hread
  obtain ⟨hservices, hkeys⟩ := leaves_finish hdry directory l path content text { σ with warnings, output } hsteady
  have hadds (k : Text) :
      (∃ v ∈ s.voices, Enters s l path text { σ with warnings, output } v k) ↔ Adds directory s l path σ k := by
    refine ⟨fun hv => ⟨content, text, hstart, hv⟩, fun ⟨c, t, hdue, hv⟩ => ?_⟩
    cases hstart.symm.trans hdue
    exact hv
  cases hrenewal : renewal s l path content text σ with
  | error f =>
    have hverdict : verdict directory s l path σ = (.error f, none) := by
      rw [verdict, hstart]
      dsimp only
      rw [hrenewal]
    rw [hrenewal] at hends
    rw [hverdict]
    refine ⟨hends.1, hservices, fun _ => hends.2, ?_, fun k => (hkeys k).trans (or_congr_right (hadds k))⟩
    rw [hverdict]
    exact nofun
  | ok renewed =>
    obtain ⟨voices, updated⟩ := renewed
    have hverdict : verdict directory s l path σ = (.ok ⟨path, .generated, voices, [], []⟩, some updated) := by
      rw [verdict, hstart]
      dsimp only
      rw [hrenewal]
    rw [hrenewal] at hends
    rw [hverdict]
    refine ⟨hends.1, hservices, ?_, ?_, fun k => (hkeys k).trans (or_congr_right (hadds k))⟩
    · rw [hverdict]
      exact nofun
    · rw [hverdict]
      rintro _ ⟨⟩
      exact ⟨⟨content, hread⟩, hends.2⟩

theorem after_update_eq (hdry : s.dryRun = false) (hsteady : Speech.Steady σ.speech.answer) (directory : Text) (l : Layout)
    (path : Text) :
    ((update directory s l path).after σ).1 = (verdict directory s l path σ).1 ∧
      Leaves directory s l path σ ((update directory s l path).after σ).2 := by
  have hfollows := begins_update directory s l path σ.files σ rfl
  cases hstart : start σ.files directory s path with
  | error f =>
    rw [hstart] at hfollows
    obtain ⟨warnings, output, hafter⟩ := hfollows
    have hverdict : verdict directory s l path σ = (.error f, none) := by rw [verdict, hstart]
    rw [hafter, hverdict]
    exact ⟨rfl, leaves_of_not_due (by rw [hverdict]) fun content text h => nomatch hstart.symm.trans h⟩
  | ok first =>
    rw [hstart] at hfollows
    cases first with
    | skipped r =>
      obtain ⟨warnings, output, hafter⟩ := hfollows
      have hverdict : verdict directory s l path σ = (.ok r, none) := by rw [verdict, hstart]
      rw [hafter, hverdict]
      exact ⟨rfl, leaves_of_not_due (by rw [hverdict]) fun content text h => nomatch hstart.symm.trans h⟩
    | due content text =>
      obtain ⟨warnings, hafter⟩ := hfollows
      rw [hafter]
      exact leaves_of_due hdry hsteady hstart

/-- Every run on a document comes to its verdict and leaves that behind. -/
theorem after_document_eq (hdry : s.dryRun = false) (hsteady : Speech.Steady σ.speech.answer) (directory : Text)
    (l : Layout) (path : Text) :
    ((document directory s l path).after σ).1 = settled path (verdict directory s l path σ).1 ∧
      Leaves directory s l path σ ((document directory s l path).after σ).2 := by
  obtain ⟨hresult, hleaves⟩ := after_update_eq hdry hsteady directory l path
  rcases hupdate : (update directory s l path).after σ with ⟨x, τ⟩
  rw [hupdate] at hresult hleaves
  obtain ⟨warnings, errors, hdocument⟩ := after_document hupdate
  rw [hdocument, ← hresult]
  exact ⟨rfl, hleaves.services, hleaves.unwritten, hleaves.written, hleaves.keys⟩

/-! ## Two studios -/

/-- Two studios in which a run does the same to a document: the services answer alike, and the document has one content. -/
structure Alike (directory path : Text) (σ τ : Studio) : Prop where
  services : services τ = services σ
  read : Documents.read τ.files directory path = Documents.read σ.files directory path

variable (s l) in
theorem Alike.start (h : Alike directory path σ τ) : start τ.files directory s path = start σ.files directory s path := by
  rw [Generate.start, Generate.start, h.read]

theorem answer_speechAfter (s : Settings) (text : Text) (speech : Speech) (earlier : List Voice) :
    (speechAfter s text speech earlier).answer = speech.answer := by
  induction earlier generalizing speech with
  | nil => rfl
  | cons v earlier ih => exact (ih _).trans (Speech.answer_synthesize speech _)

theorem outcomes_congr (hsteady : Speech.Steady σ.speech.answer) (h : services τ = services σ) (earlier later : List Voice) :
    outcomes s l path text τ earlier later = outcomes s l path text σ earlier later := by
  obtain ⟨hanswer, hbehaviour⟩ := Prod.mk.inj h
  have houtcome (earlier : List Voice) (v : Voice) : outcome s l path text τ earlier v = outcome s l path text σ earlier v := by
    have hτ := (answer_speechAfter s text τ.speech earlier).trans hanswer
    have hσ := answer_speechAfter s text σ.speech earlier
    rw [outcome, outcome, audio, audio, hbehaviour, hsteady _ _ hτ hσ]
  induction later generalizing earlier with
  | nil => rfl
  | cons v later ih => rw [outcomes, outcomes, houtcome, ih]

theorem Alike.verdict (hsteady : Speech.Steady σ.speech.answer) (h : Alike directory path σ τ) :
    verdict directory s l path τ = verdict directory s l path σ := by
  have hrenewal (content text : Text) : renewal s l path content text τ = renewal s l path content text σ := by
    rw [renewal, renewal, outcomes_congr hsteady h.services]
  simp only [Generate.verdict, h.start, hrenewal]

theorem Alike.adds (hsteady : Speech.Steady σ.speech.answer) (h : Alike directory path σ τ) :
    Adds directory s l path τ k ↔ Adds directory s l path σ k := by
  simp only [Adds, h.start, enters_congr hsteady h.services]

end Generate
end Narration
