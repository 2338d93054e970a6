import Narration.Command.Run
import Narration.Proofs.Files
import Narration.Proofs.Work

/-!
# How settings are found, and how that fails

Settings come out complete, or the user is told what is missing. Nothing else happens unless the settings file is one
that cannot be taken in: no text, a scalar that is not what its tag says, or a value that cannot be written.

* `Settings.Complete`, `Settings.Refused` : what is found, and what the user is told;
* `Settings.Unfit` : settings files that cannot be taken in;
* `Settings.complete_of_resolve`, `Settings.resolve_error` : what a resolution gives, and how it fails;
* `Command.settings_ends` : the three ways in which looking for settings ends.
-/

namespace Narration

variable {files : Files} {directory : Text} {o : Options} {env : Environment} {stored : Settings.Stored}
  {requireVoices requireStore : Bool} {s : Settings} {f : Settings.Fault} {ids names : List Text}

namespace Settings

/-- Each voice has its name, none is dropped when they are paired, and what is required is there. -/
structure Complete (requireVoices requireStore : Bool) (s : Settings) : Prop where
  paired : s.voiceIds.length = s.voiceNames.length
  ids : s.voices.map (·.id) = s.voiceIds
  names : s.voices.map (·.name) = s.voiceNames
  voices : requireVoices → s.voices ≠ []
  store : requireStore → s.bucket ≠ [] ∧ s.accessKeyId ≠ [] ∧ s.secretAccessKey ≠ [] ∧ s.publicUrl ≠ []

/-- When each voice has its name, pairing them drops none. -/
theorem map_voices (h : s.voiceIds.length = s.voiceNames.length) :
    s.voices.map (·.id) = s.voiceIds ∧ s.voices.map (·.name) = s.voiceNames := by
  rw [Settings.voices]
  generalize s.voiceIds = ids, s.voiceNames = names at h
  induction ids generalizing names with
  | nil =>
    rw [List.eq_nil_of_length_eq_zero h.symm]
    exact ⟨rfl, rfl⟩
  | cons id ids ih =>
    obtain ⟨name, names, rfl⟩ := List.exists_cons_of_length_eq_add_one h.symm
    obtain ⟨hids, hnames⟩ := ih names (Nat.succ.inj h)
    exact ⟨congrArg (id :: ·) hids, congrArg (name :: ·) hnames⟩

/-- What the user is told: that the names do not pair, or what is required and missing. -/
inductive Refused (requireVoices requireStore : Bool) : Fault → Prop
  | namesDoNotPair : Refused requireVoices requireStore .namesDoNotPair
  | noVoices (h : requireVoices) : Refused requireVoices requireStore .noVoices
  | missing {settings : List Required} (h : requireStore) (hsome : settings ≠ []) :
      Refused requireVoices requireStore (.missing settings)

theorem Refused.isUsersFault (h : Refused requireVoices requireStore f) : Command.isUsersFault f := by
  cases h <;> rfl

/-- A settings file that cannot be taken in, and why: it cannot be opened, is no text, has a scalar that is not what its tag
says or is nested too deeply, or names a voice by a value that cannot be written. -/
inductive Unfit (files : Files) (directory : Text) : Fault → Prop
  | unopened {e : Files.Fault} (h : files.read (Path.join directory fileName) = .error e) :
      Unfit files directory (.file (.file e))
  | noText {bytes : List UInt8} {e : Utf8.Fault} (h : files.read (Path.join directory fileName) = .ok bytes)
      (hdecode : Utf8.decodeStream bytes = .error e) : Unfit files directory (.file (.encoding e))
  | misread {bytes : List UInt8} {t : Text} {e : Yaml.Fault} (h : files.read (Path.join directory fileName) = .ok bytes)
      (hdecode : Utf8.decodeStream bytes = .ok t) (hread : Yaml.read t = .error e) (hformed : e ≠ .malformed) :
      Unfit files directory (.value e)
  | unwritable {stored : Stored} {warnings : List Warning} {voices : List (Value × Value)} {voice : Value × Value}
      {u : Value.Unwritable} (h : fromFile files directory = .ok (stored, warnings)) (hvoices : stored.voices = some voices)
      (hvoice : voice ∈ voices) (hwritten : voice.1.written = .error u ∨ voice.2.written = .error u) : Unfit files directory (.value (.unwritable u))

/-! ## The settings file -/

/-- What a file of text says, once it is read as YAML. -/
theorem ofBytes_eq {bytes : List UInt8} {t : Text} (h : Utf8.decodeStream bytes = .ok t) :
    Stored.ofBytes bytes = match Yaml.read t with
    | .ok data => match data.root.bind data.entries? with
      | some entries => .ok (Stored.ofEntries data entries, [])
      | none => .ok (Stored.nothing, [Warning.settingsFileNotMapping])
    | .error .malformed => .ok (Stored.nothing, [Warning.malformedSettingsFile])
    | .error f => .error (.value f) := by
  rw [Stored.ofBytes, h]
  rfl

theorem fromFile_eq (h : files.doesExist (Path.join directory fileName)) : fromFile files directory =
    match files.read (Path.join directory fileName) with
    | .error e => .error (.file (.file e))
    | .ok bytes => Stored.ofBytes bytes := by
  rw [fromFile, if_pos h]
  cases files.read (Path.join directory fileName) <;> rfl

theorem unfit_of_fromFile (h : fromFile files directory = .error f) : Unfit files directory f := by
  by_cases hexists : files.doesExist (Path.join directory fileName)
  · rw [fromFile_eq hexists] at h
    cases hread : files.read (Path.join directory fileName) with
    | error e =>
      rw [hread] at h
      cases h
      exact .unopened hread
    | ok bytes =>
      rw [hread] at h
      dsimp only at h
      cases hdecode : Utf8.decodeStream bytes with
      | error e =>
        rw [Stored.ofBytes, hdecode] at h
        cases h
        exact .noText hread hdecode
      | ok t =>
        rw [ofBytes_eq hdecode] at h
        split at h
        · split at h <;> cases h
        · cases h
        · next e hformed hyaml =>
          cases h
          exact .misread hread hdecode hyaml hformed
  · rw [fromFile, if_neg hexists] at h
    cases h

/-! ## Resolution -/

theorem length_of_paired {given : Option (List Text)} {ids' : List Text} (h : paired ids given = .ok (ids', names)) :
    ids'.length = names.length := by
  unfold paired at h
  dsimp only at h
  split at h
  · cases h
    assumption
  · cases h

theorem paired_error {given : Option (List Text)} (h : paired ids given = .error f) : f = .namesDoNotPair := by
  unfold paired at h
  dsimp only at h
  split at h
  · cases h
  · cases h
    rfl

theorem written_error {v : Value} (h : written v = .error f) : ∃ u, v.written = .error u ∧ f = .value (.unwritable u) := by
  unfold written at h
  cases hv : v.written with
  | error u =>
    rw [hv] at h
    cases h
    exact ⟨u, rfl, rfl⟩
  | ok t =>
    rw [hv] at h
    cases h

/-- The voices that are asked for have as many names. -/
theorem length_of_voicesFrom (h : voicesFrom o env stored = .ok (ids, names)) : ids.length = names.length := by
  unfold voicesFrom at h
  split at h
  · exact length_of_paired h
  · exact length_of_paired h
  · split at h
    · obtain ⟨_, -, h⟩ := Fallible.bind_eq_ok.1 h
      obtain ⟨_, -, h⟩ := Fallible.bind_eq_ok.1 h
      exact length_of_paired h
    · cases h
      rfl

/-- Names do not pair, or a voice of the settings file cannot be written. -/
theorem voicesFrom_error (h : voicesFrom o env stored = .error f) : f = .namesDoNotPair ∨
    ∃ voices, stored.voices = some voices ∧ ∃ voice ∈ voices, ∃ u, (voice.1.written = .error u ∨ voice.2.written = .error u) ∧
      f = .value (.unwritable u) := by
  unfold voicesFrom at h
  split at h
  · exact .inl (paired_error h)
  · exact .inl (paired_error h)
  · split at h
    · next voices hvoices =>
      cases hids : voices.mapM (fun voice => written voice.1) with
      | error e =>
        rw [hids] at h
        cases h
        obtain ⟨voice, hvoice, he⟩ := Fallible.exists_error_of_mapM hids
        obtain ⟨u, hu, rfl⟩ := written_error he
        exact .inr ⟨voices, hvoices, voice, hvoice, u, .inl hu, rfl⟩
      | ok ids =>
        cases hnames : voices.mapM (fun voice => written voice.2) with
        | error e =>
          rw [hids, hnames] at h
          cases h
          obtain ⟨voice, hvoice, he⟩ := Fallible.exists_error_of_mapM hnames
          obtain ⟨u, hu, rfl⟩ := written_error he
          exact .inr ⟨voices, hvoices, voice, hvoice, u, .inr hu, rfl⟩
        | ok names =>
          rw [hids, hnames] at h
          exact .inl (paired_error h)
    · cases h

theorem resolve_eq (o : Options) (env : Environment) (stored : Stored) (requireVoices requireStore : Bool) :
    resolve o env stored requireVoices requireStore = voicesFrom o env stored >>= fun (ids, names) =>
      if requireVoices && ids.isEmpty then .error .noVoices
      else if requireStore && !(missing (assembled o env stored ids names)).isEmpty then
        .error (.missing (missing (assembled o env stored ids names)))
      else .ok (assembled o env stored ids names) := by
  rw [resolve]
  refine bind_congr fun (ids, names) => ?_
  cases requireVoices && ids.isEmpty <;> cases requireStore && !(missing (assembled o env stored ids names)).isEmpty <;> rfl

theorem missing_eq_nil (h : missing s = []) :
    s.bucket ≠ [] ∧ s.accessKeyId ≠ [] ∧ s.secretAccessKey ≠ [] ∧ s.publicUrl ≠ [] := by
  simpa [missing, and_assoc] using h

/-- Settings come out complete. -/
theorem complete_of_resolve (h : resolve o env stored requireVoices requireStore = .ok s) :
    Complete requireVoices requireStore s := by
  rw [resolve_eq] at h
  obtain ⟨⟨ids, names⟩, hvoices, h⟩ := Fallible.bind_eq_ok.1 h
  have hlength := length_of_voicesFrom hvoices
  dsimp only at h
  split at h
  · cases h
  · next hvoiced =>
    split at h
    · cases h
    · next hstored =>
      cases h
      obtain ⟨hids, hnames⟩ := map_voices (s := assembled o env stored ids names) hlength
      refine ⟨hlength, hids, hnames, fun hrequired hnone => hvoiced ?_, fun hrequired => missing_eq_nil ?_⟩
      · have hempty : ids = [] := hids.symm.trans (by rw [hnone]; rfl)
        rw [hrequired, hempty]
        rfl
      · simpa [hrequired] using hstored

/-- A resolution fails in the user's terms, unless a voice of the settings file cannot be written. -/
theorem resolve_error (h : resolve o env stored requireVoices requireStore = .error f) : Refused requireVoices requireStore f ∨
    ∃ voices, stored.voices = some voices ∧ ∃ voice ∈ voices, ∃ u, (voice.1.written = .error u ∨ voice.2.written = .error u) ∧
      f = .value (.unwritable u) := by
  rw [resolve_eq] at h
  cases hvoices : voicesFrom o env stored with
  | error e =>
    rw [hvoices] at h
    cases h
    rcases voicesFrom_error hvoices with rfl | hwritten
    · exact .inl .namesDoNotPair
    · exact .inr hwritten
  | ok voices =>
    obtain ⟨ids, names⟩ := voices
    rw [hvoices] at h
    change (if _ then _ else if _ then _ else _) = _ at h
    split at h
    · next hnone =>
      cases h
      exact .inl (.noVoices (Bool.and_eq_true_iff.1 hnone).1)
    · split at h
      · next hmissing =>
        cases h
        obtain ⟨hrequired, hsome⟩ := Bool.and_eq_true_iff.1 hmissing
        exact .inl (.missing hrequired (by simpa using hsome))
      · cases h

end Settings

/-! ## The settings of a command -/

namespace Command
open Work Settings

theorem after_warnings (ws : List Warning) (σ : Studio) :
    (ws.forM Work.warn).after σ = (.ok (), { σ with warnings := σ.warnings ++ ws }) := by
  induction ws generalizing σ with
  | nil => rw [List.append_nil]; rfl
  | cons w ws ih =>
    change (Work.warn w >>= fun _ => ws.forM Work.warn).after σ = _
    rw [after_bind]
    change (ws.forM Work.warn).after { σ with warnings := σ.warnings ++ [w] } = _
    rw [ih, List.append_assoc, List.singleton_append]

/-- What looking for settings gives: nothing changes but the warnings. -/
theorem after_settings (directory : Text) (o : Options) (requireVoices requireStore : Bool) (σ : Studio) :
    (settings directory o requireVoices requireStore).after σ = match fromFile σ.files directory with
      | .error f => (.error (.settings f), σ)
      | .ok (stored, warnings) => (match resolve o σ.environment stored requireVoices requireStore with
          | .ok s => .ok (.ok s)
          | .error f => if isUsersFault f then .ok (.error f) else .error (.settings f),
        { σ with warnings := σ.warnings ++ warnings }) := by
  change (Work.ofExcept .settings (fromFile σ.files directory) >>= _).after σ = _
  rw [after_bind, after_ofExcept]
  rcases fromFile σ.files directory with f | ⟨stored, warnings⟩
  · rfl
  · change (warnings.forM Work.warn >>= fun _ => _).after σ = _
    rw [after_bind, after_warnings]
    dsimp only
    cases resolve o σ.environment stored requireVoices requireStore with
    | ok s => rfl
    | error f =>
      dsimp only
      cases isUsersFault f <;> rfl

/-- A file that is not well formed is passed over with a warning. -/
theorem fromFile_malformed {bytes : List UInt8} {t : Text} (h : files.read (Path.join directory fileName) = .ok bytes)
    (hdecode : Utf8.decodeStream bytes = .ok t) (hread : Yaml.read t = .error .malformed) :
    fromFile files directory = .ok (.nothing, [.malformedSettingsFile]) := by
  rw [fromFile_eq (Files.doesExist_of_read h), h]
  dsimp only
  rw [ofBytes_eq hdecode, hread]

theorem fromFile_of_not_doesExist (h : files.doesExist (Path.join directory fileName) = false) :
    fromFile files directory = .ok (.nothing, []) := by
  rw [fromFile, h, if_neg Bool.false_ne_true]

/-- Looking for settings ends in one of three ways, and changes nothing but the warnings: there are complete settings, the
user is told what is missing, or the settings file is one that cannot be taken in. A file that is not well formed is as none,
but for a warning. -/
theorem settings_ends (directory : Text) (o : Options) (requireVoices requireStore : Bool) (σ : Studio) :
    ((∃ s, ((settings directory o requireVoices requireStore).after σ).1 = .ok (.ok s) ∧ Complete requireVoices requireStore s) ∨
      (∃ f, ((settings directory o requireVoices requireStore).after σ).1 = .ok (.error f) ∧ Refused requireVoices requireStore f) ∨
      ∃ f, ((settings directory o requireVoices requireStore).after σ).1 = .error (.settings f) ∧ Unfit σ.files directory f) ∧
    (∃ warnings, ((settings directory o requireVoices requireStore).after σ).2 = { σ with warnings }) ∧
    ∀ bytes t, σ.files.read (Path.join directory fileName) = .ok bytes → Utf8.decodeStream bytes = .ok t →
      Yaml.read t = .error .malformed →
      ((settings directory o requireVoices requireStore).after σ).2.warnings = σ.warnings ++ [.malformedSettingsFile] ∧
      ∀ τ : Studio, τ.environment = σ.environment → τ.files.doesExist (Path.join directory fileName) = false →
        ((settings directory o requireVoices requireStore).after σ).1 = ((settings directory o requireVoices requireStore).after τ).1 := by
  refine ⟨?_, ?_, fun bytes t hbytes hdecode hread => ?_⟩
  · rw [after_settings]
    cases hfile : fromFile σ.files directory with
    | error f => exact .inr (.inr ⟨f, rfl, unfit_of_fromFile hfile⟩)
    | ok found =>
      obtain ⟨stored, warnings⟩ := found
      dsimp only
      cases hresolve : resolve o σ.environment stored requireVoices requireStore with
      | ok s => exact .inl ⟨s, rfl, complete_of_resolve hresolve⟩
      | error f =>
        right
        rcases resolve_error hresolve with hrefused | ⟨voices, hvoices, voice, hvoice, u, hu, rfl⟩
        · exact .inl ⟨f, if_pos hrefused.isUsersFault, hrefused⟩
        · exact .inr ⟨_, rfl, .unwritable hfile hvoices hvoice hu⟩
  · rw [after_settings]
    cases fromFile σ.files directory with
    | error f => exact ⟨σ.warnings, rfl⟩
    | ok found => exact ⟨_, rfl⟩
  · have hfile := fromFile_malformed hbytes hdecode hread
    refine ⟨by rw [after_settings, hfile], fun τ henvironment hnone => ?_⟩
    rw [after_settings, after_settings, hfile, fromFile_of_not_doesExist hnone, henvironment]

/-- A studio with no more than these files. -/
def filedStudio (files : Files) : Studio where
  files
  store := .ofKeys []
  speech := .ofAnswers fun _ _ => .sent [.audio [0]] none
  repository := ⟨none⟩
  environment := []
  output := []
  errors := []
  warnings := []

/-- A directory with nothing but a settings file. -/
def configured (bytes : List UInt8) : Files := ⟨[(["docs".toList, fileName], .file bytes)]⟩

/-- No list ends where the file does. -/
def unclosed : Text := "voices: [".toList

theorem read_unclosed : Yaml.read unclosed = .error .malformed := by
  have h : (match Yaml.read unclosed with | .error e => decide (e = .malformed) | .ok _ => false) = true := by decide +kernel
  split at h
  · next hread => rw [hread, of_decide_eq_true h]
  · cases h

theorem settings_ends_unclosed :
    Utf8.decodeStream (Utf8.encode unclosed) = .ok unclosed ∧ Yaml.read unclosed = .error .malformed ∧
    ((settings "docs".toList default false false).after (filedStudio (configured (Utf8.encode unclosed)))).2.warnings =
      [.malformedSettingsFile] ∧
    ((settings "docs".toList default false false).after (filedStudio (configured (Utf8.encode unclosed)))).1 =
      ((settings "docs".toList default false false).after (filedStudio .empty)).1 := by
  have hdecode : Utf8.decodeStream (Utf8.encode unclosed) = .ok unclosed := by decide
  obtain ⟨-, -, hmalformed⟩ := settings_ends "docs".toList default false false (filedStudio (configured (Utf8.encode unclosed)))
  obtain ⟨hwarnings, hsame⟩ := hmalformed _ unclosed (by decide) hdecode read_unclosed
  exact ⟨hdecode, read_unclosed, hwarnings, hsame (filedStudio .empty) rfl (by decide)⟩

/-- A settings file that is no text is not passed over: it ends the command, even when nothing is required of it. -/
theorem settings_fails_noText : ((settings "docs".toList default false false).after (filedStudio (configured [0xff]))).1 =
    .error (.settings (.file (.encoding ⟨0, 0xff, 1, .invalidStart⟩))) := by
  have hfile : fromFile (configured [0xff]) "docs".toList = .error (.file (.encoding ⟨0, 0xff, 1, .invalidStart⟩)) := rfl
  rw [after_settings, filedStudio, hfile]

end Command
end Narration
