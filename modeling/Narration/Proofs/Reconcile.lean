import Mathlib.Data.List.Sort
import Narration.Proofs.Store
import Narration.Proofs.Text.Find
import Narration.Proofs.Work
import Narration.Reconcile

/-!
# What reconciling deletes

A document refers to a key when its narration has a voice whose address maps to the key. An orphan is
a key of an audio file below the root of the layout to which no document refers.

* `Refers`, `Referenced`, `IsOrphan` : references of a document, references of a directory, and orphans;
* `Reconcile.Ending`, `Reconcile.run_ending` : the ways in which a run ends;
* `Reconcile.run_deletes_orphans` : what is deleted, in every outcome, and what a second run does.
-/

namespace Narration

namespace Reconcile
open Work

variable {files : Files} {directory : Text} {s : Settings} {l : Layout} {ignored : List Text} {name : Value} {k : Text}

/-! ## References -/

/-- A document refers to a key: a voice of its narration has an address that maps to it. -/
def Refers (l : Layout) (name : Value) (document k : Text) : Prop :=
  ∃ n block, name = .str n ∧ (Player.locate? document n).outcome.1 = .ok (some block) ∧
    ∃ v ∈ block.voices, v.url ≠ [] ∧ l.keyOfUrl v.url = .ok k

/-- A document of the directory refers to a key. -/
def Referenced (files : Files) (directory : Text) (s : Settings) (l : Layout) (ignored : List Text) (k : Text) : Prop :=
  ∃ path ∈ Documents.find files directory s.pattern ignored, ∃ document,
    Documents.read files directory path = .ok document ∧ Refers l s.componentName document k

/-- A key of an audio file below the root to which no document refers. -/
def IsOrphan (files : Files) (directory : Text) (s : Settings) (l : Layout) (ignored : List Text) (k : Text) : Prop :=
  Text.beginsWith k l.root ∧ Text.finishesWith k Layout.extension ∧ ¬Referenced files directory s l ignored k

/-- The address of a key maps back to it. -/
theorem keyOfUrl_publicUrl (hbase : l.publicBase ≠ []) (k : Text) : l.keyOfUrl (l.publicUrl k) = .ok k := by
  have hurl : l.publicUrl k = (l.publicBase ++ ['/']) ++ k := by
    rw [Layout.publicUrl, List.append_assoc]
    rfl
  rw [Layout.keyOfUrl, if_neg (by simpa using hbase), hurl, Text.after?_append]

/-- A key is referenced when a readable document records its address. -/
theorem refers_of_recorded (hbase : l.publicBase ≠ []) {n document : Text} {block : NarrationBlock} {v : Voice}
    (hname : name = .str n) (hblock : (Player.locate? document n).outcome.1 = .ok (some block)) (hv : v ∈ block.voices)
    (hurl : v.url = l.publicUrl k) : Refers l name document k := by
  refine ⟨n, block, hname, hblock, v, hv, ?_, ?_⟩
  · rw [hurl, Layout.publicUrl]
    simp
  · rw [hurl, keyOfUrl_publicUrl hbase]

/-- The keys of a narration, or why one cannot be told. -/
def keysIn (keyOf : Text → Except Failure Text) (found : Option NarrationBlock) : Except Failure (List Text) :=
  ((((found.map (·.voices)).getD []).map (·.url)).filter (!·.isEmpty)).mapM keyOf

theorem mem_keysIn {keyOf : Text → Except Failure Text} {found : Option NarrationBlock} {ks : List Text} (h : keysIn keyOf found = .ok ks) :
    k ∈ ks ↔ ∃ block, found = some block ∧ ∃ v ∈ block.voices, v.url ≠ [] ∧ keyOf v.url = .ok k := by
  rw [Fallible.mem_mapM h]
  constructor
  · rintro ⟨url, hurl, hkey⟩
    obtain ⟨hurl, hne⟩ := List.mem_filter.1 hurl
    obtain ⟨v, hv, rfl⟩ := List.mem_map.1 hurl
    cases found with
    | none => cases hv
    | some block => exact ⟨block, rfl, v, hv, by simpa using hne, hkey⟩
  · rintro ⟨block, rfl, v, hv, hne, hkey⟩
    exact ⟨v.url, List.mem_filter.2 ⟨List.mem_map_of_mem hv, by simpa using hne⟩, hkey⟩

/-- The keys of a narration, once it is found, are asked for without any change but for the warnings. -/
theorem consults_keys {w : Work (Option NarrationBlock)} {y : Except Failure (Option NarrationBlock)} (hw : Consults files w y)
    (keyOf : Text → Except Failure Text) : Consults files (do
        let block ← w
        let urls := ((block.map (·.voices)).getD []).map (·.url)
        (urls.filter (!·.isEmpty)).mapM fun url => .ofExcept id (keyOf url)) (y >>= keysIn keyOf) := by
  refine hw.bind fun block => .mapM fun url _ => ?_
  have h : Consults files (ofExcept id (keyOf url)) _ := .ofExcept id (keyOf url)
  cases hkey : keyOf url <;> rwa [hkey] at h

theorem consults_keysBy (files : Files) (keyOf : Text → Except Failure Text) (n document : Text) :
    Consults files (keysBy keyOf (.str n) document) ((Player.locate? document n).outcome.1.mapError .markup >>= keysIn keyOf) :=
  consults_keys (.ofReport _) keyOf

/-- The keys to which a document refers are found without any change but for the warnings. -/
theorem keysOf_consults (files : Files) (l : Layout) (name : Value) (document : Text) :
    ∃ x, Consults files (keysBy (keyOf l) name document) x ∧ ∀ ks, x = .ok ks → ∀ k, k ∈ ks ↔ Refers l name document k := by
  unfold keysBy
  split
  · next n =>
    refine ⟨_, consults_keysBy files (keyOf l) n document, fun ks hks k => ?_⟩
    obtain ⟨found, hfound, hks⟩ := Fallible.bind_eq_ok.1 hks
    rw [mem_keysIn hks]
    simp only [keyOf, Fallible.mapError_eq_ok]
    constructor
    · rintro ⟨block, rfl, hv⟩
      exact ⟨n, block, rfl, Fallible.mapError_eq_ok.1 hfound, hv⟩
    · rintro ⟨m, block, hm, hblock, hv⟩
      cases hm
      refine ⟨block, ?_, hv⟩
      exact Except.ok.inj ((Fallible.mapError_eq_ok.1 hfound).symm.trans hblock)
  · next hname =>
    have hpure : Consults files (pure (none : Option NarrationBlock)) _ := .pure none
    have hnone := consults_keys hpure (keyOf l)
    refine ⟨_, .bind (.discard (.ofReport (Tree.parse document))) fun _ => hnone, fun ks hks k => ?_⟩
    obtain ⟨_, -, hks⟩ := Fallible.bind_eq_ok.1 hks
    cases hks
    refine ⟨nofun, ?_⟩
    rintro ⟨n, block, hn, -⟩
    exact absurd hn (hname n)

/-- The references of a directory are found without any change but for the warnings, if all of its documents can be read. -/
theorem referenced_consults (files : Files) (directory : Text) (s : Settings) (l : Layout) (ignored : List Text) :
    ∃ x, Consults files (referenced l s.componentName
        ((Documents.find files directory s.pattern ignored).map (Work.read directory))) x ∧
      ∀ refs, x = .ok refs → (∀ path ∈ Documents.find files directory s.pattern ignored, ∃ document,
          Documents.read files directory path = .ok document) ∧
        ∀ k, k ∈ refs ↔ Referenced files directory s l ignored k := by
  choose keys hconsults hkeys using fun document => keysOf_consults files l s.componentName document
  have hpath (path : Text) : Consults files (do keysBy (keyOf l) s.componentName (← Work.read directory path))
      ((Documents.read files directory path).mapError .document >>= keys) :=
    (Consults.read directory path).bind hconsults
  rw [referenced, referencedBy, List.mapM_map]
  refine ⟨_, .bind (.mapM fun path _ => hpath path) fun kss => .pure (Text.distinct kss.flatten), fun refs hrefs => ?_⟩
  obtain ⟨kss, hkss, hrefs⟩ := Fallible.bind_eq_ok.1 hrefs
  cases hrefs
  constructor
  · intro path hpath
    obtain ⟨ks, hks⟩ := Fallible.exists_ok_of_mapM hkss path hpath
    obtain ⟨document, hdocument, -⟩ := Fallible.bind_eq_ok.1 hks
    exact ⟨document, Fallible.mapError_eq_ok.1 hdocument⟩
  · intro k
    rw [Text.distinct, List.mem_eraseDups, List.mem_flatten]
    constructor
    · rintro ⟨ks, hks, hk⟩
      obtain ⟨path, hpath, hks⟩ := (Fallible.mem_mapM hkss).1 hks
      obtain ⟨document, hdocument, hks⟩ := Fallible.bind_eq_ok.1 hks
      exact ⟨path, hpath, document, Fallible.mapError_eq_ok.1 hdocument, (hkeys document ks hks k).1 hk⟩
    · rintro ⟨path, hpath, document, hdocument, hrefers⟩
      obtain ⟨ks, hks⟩ := Fallible.exists_ok_of_mapM hkss path hpath
      refine ⟨ks, (Fallible.mem_mapM hkss).2 ⟨path, hpath, hks⟩, ?_⟩
      obtain ⟨document', hdocument', hks⟩ := Fallible.bind_eq_ok.1 hks
      cases (Fallible.mapError_eq_ok.1 hdocument').symm.trans hdocument
      exact (hkeys document ks hks k).2 hrefers


/-! ## How a run ends -/

variable {σ τ : Studio} {references : Except Failure (List Text)} {refs : List Text}

/-- Orphans are stored, and nothing that is stored and refers to nothing is left out. -/
theorem mem_orphans (hrefs : ∀ k, k ∈ refs ↔ Referenced σ.files directory s l ignored k) :
    k ∈ orphans (σ.store.listed l.root) refs ↔ k ∈ σ.store.keys ∧ IsOrphan σ.files directory s l ignored k := by
  simp only [orphans, Text.sorted, List.mem_mergeSort, Text.distinct, List.mem_filter, List.mem_eraseDups, Store.mem_listed,
    Bool.not_eq_true', List.contains_eq_mem, decide_eq_false_iff_not, hrefs, IsOrphan, and_assoc]

/-- The store once it has been asked for its keys. -/
abbrev asked (l : Layout) (σ : Studio) : Store := σ.store.asked (.list l.bucket l.root)

/-- How a run ends: some document cannot be read, the store does not tell its keys, there is nothing to delete or
nothing may be, or the orphans are deleted. -/
inductive Ending (s : Settings) (l : Layout) (references : Except Failure (List Text)) (σ : Studio) :
    Except Failure Found → Studio → Prop
  | unread {e : Failure} {τ : Studio} (h : references = .error e) (hfiles : τ.files = σ.files) (hstore : τ.store = σ.store) :
      Ending s l references σ (.error e) τ
  | unlisted {e : Failure} {refs : List Text} {τ : Studio} (h : references = .ok refs) (hlist : σ.store.behaviour.list l.root ≠ none)
      (hfiles : τ.files = σ.files) (hstore : τ.store = asked l σ) : Ending s l references σ (.error e) τ
  | spared {refs : List Text} {found : Found} {τ : Studio} (h : references = .ok refs)
      (horphans : found.orphans = orphans (σ.store.listed l.root) refs) (hspared : found.orphans = [] ∨ s.dryRun)
      (hfiles : τ.files = σ.files) (hstore : τ.store = asked l σ) : Ending s l references σ (.ok found) τ
  | swept {refs : List Text} {r : Except Failure Found} {τ : Studio} (h : references = .ok refs)
      (hdry : s.dryRun = false) (hsome : orphans (σ.store.listed l.root) refs ≠ []) (hfiles : τ.files = σ.files)
      (hstore : τ.store = (Fallible.after (Store.delete l (orphans (σ.store.listed l.root) refs)) (asked l σ)).2)
      (hok : ∀ found, r = .ok found → ∃ n, (Fallible.after (Store.delete l (orphans (σ.store.listed l.root) refs)) (asked l σ)).1 = .ok n) :
      Ending s l references σ r τ

/-- Every run ends in one of these ways. -/
theorem run_ending (hrefs : Consults σ.files (referenced l s.componentName
      ((Documents.find σ.files directory s.pattern ignored).map (Work.read directory))) references) :
    Ending s l references σ ((run directory s l ignored).after σ).1 ((run directory s l ignored).after σ).2 := by
  obtain ⟨warnings, hafter⟩ := hrefs σ rfl
  have hget (f : Studio → Work Found) : (get >>= f).after σ = (f σ).after σ := rfl
  rw [run, hget, after_bind, hafter]
  cases references with
  | error e => exact .unread rfl rfl rfl
  | ok refs =>
    dsimp only
    rw [after_bind, after_ofStore, Store.after_list]
    cases hlist : σ.store.behaviour.list l.root with
    | some t => exact .unlisted rfl (by simp [hlist]) rfl rfl
    | none =>
      dsimp only [Except.mapError]
      cases hidle : (orphans (σ.store.listed l.root) refs).isEmpty || s.dryRun with
      | true =>
        refine .spared rfl rfl ?_ rfl rfl
        rcases Bool.or_eq_true_iff.1 hidle with h | h
        · exact .inl (List.isEmpty_iff.1 h)
        · exact .inr h
      | false =>
        obtain ⟨hsome, hdry⟩ := Bool.or_eq_false_iff.1 hidle
        rw [if_neg Bool.false_ne_true, after_bind, after_ofStore]
        dsimp only
        have hsome' : orphans (σ.store.listed l.root) refs ≠ [] := by simpa using hsome
        rcases hdelete : Fallible.after (Store.delete l (orphans (σ.store.listed l.root) refs)) (asked l σ) with ⟨e | n, store⟩
        · exact .swept rfl hdry hsome' rfl (by rw [hdelete]; rfl) (by simp [Except.mapError])
        · exact .swept rfl hdry hsome' rfl (by rw [hdelete]; rfl) fun found _ => ⟨n, by rw [hdelete]⟩

/-! ## What a run does to the store -/

/-- A run that changes no key and sends no request to delete any. -/
structure Idle (σ τ : Studio) : Prop where
  keys : τ.store.keys = σ.store.keys
  requests : ∃ rs, τ.store.requests = σ.store.requests ++ rs ∧ ∀ r ∈ rs, ∀ bucket keys, r ≠ .delete bucket keys

theorem Idle.of_store (h : τ.store = σ.store) : Idle σ τ := ⟨by rw [h], [], by rw [h, List.append_nil], by simp⟩

theorem Idle.of_asked (h : τ.store = asked l σ) : Idle σ τ := by
  refine ⟨by rw [h]; rfl, [.list l.bucket l.root], by rw [h]; rfl, fun r hr bucket keys => ?_⟩
  rw [List.mem_singleton.1 hr]
  simp

/-- What no run does, however it ends: it changes no file, adds no key and deletes none but orphans. -/
structure Sparing (directory : Text) (s : Settings) (l : Layout) (ignored : List Text) (σ τ : Studio) : Prop where
  files : τ.files = σ.files
  sublist : τ.store.keys.Sublist σ.store.keys
  orphan : ∀ k ∈ σ.store.keys, k ∉ τ.store.keys → IsOrphan σ.files directory s l ignored k

theorem Sparing.of_idle (hfiles : τ.files = σ.files) (h : Idle σ τ) : Sparing directory s l ignored σ τ :=
  ⟨hfiles, h.keys ▸ List.Sublist.refl _, fun _ hk hlost => absurd (h.keys ▸ hk) hlost⟩

theorem Ending.sparing {r : Except Failure Found} (h : Ending s l references σ r τ)
    (hrefs : ∀ refs, references = .ok refs → ∀ k, k ∈ refs ↔ Referenced σ.files directory s l ignored k) :
    Sparing directory s l ignored σ τ := by
  cases h with
  | unread _ hfiles hstore => exact .of_idle hfiles (.of_store hstore)
  | unlisted _ _ hfiles hstore => exact .of_idle hfiles (.of_asked hstore)
  | spared _ _ _ hfiles hstore => exact .of_idle hfiles (.of_asked hstore)
  | @swept refs _ _ hok hdry hsome hfiles hstore =>
    have hpruned := Store.pruned_delete l (orphans (σ.store.listed l.root) refs) (asked l σ)
    rw [← hstore] at hpruned
    refine ⟨hfiles, hpruned.sublist, fun k hk hlost => ?_⟩
    by_contra horphan
    refine hlost (hpruned.kept k hk fun hmem => ?_)
    exact horphan ((mem_orphans (hrefs _ hok)).1 hmem).2

/-- A run without a fault that may change something deletes every orphan. -/
theorem Ending.mem_keys {found : Found} (h : Ending s l references σ (.ok found) τ) (hdry : s.dryRun = false)
    (hrefs : ∀ refs, references = .ok refs → ∀ k, k ∈ refs ↔ Referenced σ.files directory s l ignored k) (k : Text) :
    k ∈ τ.store.keys ↔ k ∈ σ.store.keys ∧ ¬IsOrphan σ.files directory s l ignored k := by
  cases h with
  | spared hok horphans hspared hfiles hstore =>
    have hnone : found.orphans = [] := hspared.resolve_right (by simp [hdry])
    rw [horphans] at hnone
    rw [(Idle.of_asked hstore).keys]
    constructor
    · intro hk
      refine ⟨hk, fun horphan => ?_⟩
      have hmem := (mem_orphans (hrefs _ hok)).2 ⟨hk, horphan⟩
      rw [hnone] at hmem
      cases hmem
    · exact And.left
  | swept hok hdry hsome hfiles hstore hdone =>
    obtain ⟨n, hn⟩ := hdone found rfl
    have hkeys := (Store.delete_eq_ok (Prod.ext hn rfl)).2
    rw [hstore, hkeys, List.mem_filter, List.contains_eq_mem, Bool.not_eq_true', decide_eq_false_iff_not]
    constructor
    · rintro ⟨hk, hnot⟩
      exact ⟨hk, fun horphan => hnot ((mem_orphans (hrefs _ hok)).2 ⟨hk, horphan⟩)⟩
    · rintro ⟨hk, hnot⟩
      exact ⟨hk, fun hmem => hnot ((mem_orphans (hrefs _ hok)).1 hmem).2⟩

/-- A run that finds no orphan changes nothing, and tells so if the store tells its keys. -/
theorem Ending.idle_of_no_orphan {r : Except Failure Found} (h : Ending s l references σ r τ)
    (hrefs : ∀ refs, references = .ok refs → ∀ k, k ∈ refs ↔ Referenced σ.files directory s l ignored k)
    (hnone : ∀ k ∈ σ.store.keys, ¬IsOrphan σ.files directory s l ignored k) :
    Idle σ τ ∧ ((∃ refs, references = .ok refs) → σ.store.behaviour.list l.root = none → ∃ found, r = .ok found ∧ found.orphans = []) := by
  have hempty (refs : List Text) (hok : references = .ok refs) : orphans (σ.store.listed l.root) refs = [] := by
    refine List.eq_nil_iff_forall_not_mem.2 fun k hk => ?_
    obtain ⟨hk, horphan⟩ := (mem_orphans (hrefs refs hok)).1 hk
    exact hnone k hk horphan
  cases h with
  | unread he _ hstore =>
    refine ⟨.of_store hstore, ?_⟩
    rintro ⟨refs, hok⟩
    rw [hok] at he
    cases he
  | unlisted _ hlist _ hstore => exact ⟨.of_asked hstore, fun _ h => absurd h hlist⟩
  | spared hok horphans _ _ hstore => exact ⟨.of_asked hstore, fun _ _ => ⟨_, rfl, by rw [horphans, hempty _ hok]⟩⟩
  | swept hok _ hsome => exact absurd (hempty _ hok) hsome

/-- However a run ends, it deletes no key but orphans; so a key whose address the narration of a document records survives.
Without permission to change anything, or when a document cannot be read, it deletes nothing. A run that may
change something and does not fail leaves the keys that are no orphans, and a run after it deletes nothing, whatever the
store does, and finds no orphan if the store tells its keys. -/
theorem run_deletes_orphans (hbase : l.publicBase ≠ []) (directory : Text) (s : Settings) (ignored : List Text) (σ : Studio) :
    Sparing directory s l ignored σ ((run directory s l ignored).after σ).2 ∧
    (∀ path ∈ Documents.find σ.files directory s.pattern ignored, ∀ document name block v k,
      Documents.read σ.files directory path = .ok document → s.componentName = .str name →
      (Player.locate? document name).outcome.1 = .ok (some block) → v ∈ block.voices → v.url = l.publicUrl k →
      k ∈ σ.store.keys → k ∈ ((run directory s l ignored).after σ).2.store.keys) ∧
    (s.dryRun ∨ (∃ path ∈ Documents.find σ.files directory s.pattern ignored, ∀ document, Documents.read σ.files directory path ≠ .ok document) →
      Idle σ ((run directory s l ignored).after σ).2) ∧
    ∀ found, ((run directory s l ignored).after σ).1 = .ok found → s.dryRun = false →
      (∀ k, k ∈ ((run directory s l ignored).after σ).2.store.keys ↔ k ∈ σ.store.keys ∧ ¬IsOrphan σ.files directory s l ignored k) ∧
      ∀ τ : Studio, τ.files = ((run directory s l ignored).after σ).2.files →
        τ.store.keys = ((run directory s l ignored).after σ).2.store.keys →
        Idle τ ((run directory s l ignored).after τ).2 ∧
        (τ.store.behaviour.list l.root = none → ∃ again, ((run directory s l ignored).after τ).1 = .ok again ∧ again.orphans = []) := by
  obtain ⟨references, hconsults, hok⟩ := referenced_consults σ.files directory s l ignored
  have hrefs : ∀ refs, references = .ok refs → ∀ k, k ∈ refs ↔ Referenced σ.files directory s l ignored k := fun refs h => (hok refs h).2
  have hending := run_ending hconsults
  have hsparing := hending.sparing hrefs
  refine ⟨hsparing, ?_, ?_, ?_⟩
  · intro path hpath document name block v k hread hname hblock hv hurl hk
    by_contra hlost
    refine (hsparing.orphan k hk hlost).2.2 ⟨path, hpath, document, hread, ?_⟩
    exact refers_of_recorded hbase hname hblock hv hurl
  · intro h
    generalize ((run directory s l ignored).after σ).1 = r, ((run directory s l ignored).after σ).2 = τ at hending
    cases hending with
    | unread _ _ hstore => exact .of_store hstore
    | unlisted _ _ _ hstore => exact .of_asked hstore
    | spared _ _ _ _ hstore => exact .of_asked hstore
    | swept hread hdry =>
      rcases h with h | ⟨path, hpath, hunread⟩
      · rw [hdry] at h
        cases h
      · obtain ⟨document, hdocument⟩ := (hok _ hread).1 path hpath
        exact absurd hdocument (hunread document)
  · intro found hfound hdry
    rw [hfound] at hending
    have hkeys := hending.mem_keys hdry hrefs
    refine ⟨hkeys, fun τ hfiles hstore => ?_⟩
    have hfiles : τ.files = σ.files := hfiles.trans hsparing.files
    rw [← hfiles] at hconsults hrefs
    have hnone : ∀ k ∈ τ.store.keys, ¬IsOrphan τ.files directory s l ignored k := by
      intro k hk
      rw [hstore] at hk
      rw [hfiles]
      exact ((hkeys k).1 hk).2
    have hsecond := (run_ending hconsults).idle_of_no_orphan hrefs hnone
    refine ⟨hsecond.1, hsecond.2 ?_⟩
    cases hending with
    | spared h => exact ⟨_, h⟩
    | swept h => exact ⟨_, h⟩

/-! ## A bucket with an orphan -/

/-- Sorted texts, found by entering one after another. -/
theorem sorted_eq (ts : List Text) : Text.sorted ts = ts.insertionSort fun a b => Text.lt b a = false := by
  have htotal : Std.Total fun a b : Text => Text.lt b a = false :=
    ⟨fun a b => by simp only [Text.lt, decide_eq_false_iff_not]; exact List.le_total a b⟩
  have htrans : IsTrans Text fun a b => Text.lt b a = false :=
    ⟨fun a b c => by simp only [Text.lt, decide_eq_false_iff_not]; exact List.le_trans⟩
  have hantisymm : Std.Antisymm fun a b : Text => Text.lt b a = false :=
    ⟨fun a b => by simp only [Text.lt, decide_eq_false_iff_not]; exact List.le_antisymm⟩
  rw [← List.mergeSort_eq_insertionSort, Text.sorted]
  simp

def cdnLayout : Layout := .new "docs".toList "https://cdn/".toList "audio".toList none

/-- One document with the narration of one voice; the bucket has an orphan, a text file and audio outside the root. Its
keys come in pages of three. -/
def cdnStudio : Studio where
  files := ⟨[(["guide.mdx".toList], .file (Utf8.encode
    "<AudioTranscript voices=\x7b[\x7b\"id\": \"a\", \"name\": \"A\", \"url\": \"https://cdn/audio/guide/a.mp3\"\x7d]\x7d />\n".toList))]⟩
  store :=
    { keys := ["audio/old/a.mp3".toList, "audio/guide/a.mp3".toList, "audio/notes.txt".toList, "other/x.mp3".toList]
      requests := [], behaviour := .sound, pageSize := 3, pageSize_pos := Nat.succ_pos 2 }
  speech := .ofAnswers fun _ _ => .sent [.audio [0]] none
  repository := ⟨none⟩
  environment := []
  output := []
  errors := []
  warnings := []

theorem run_deletes_orphans_cdn : cdnLayout.publicBase ≠ [] ∧ ∃ found τ, (run [] Settings.default cdnLayout []).after cdnStudio = (.ok found, τ) ∧
    found.orphans = ["audio/old/a.mp3".toList] ∧ IsOrphan cdnStudio.files [] Settings.default cdnLayout [] "audio/old/a.mp3".toList ∧
    (∀ k, k ∈ τ.store.keys ↔ k ∈ cdnStudio.store.keys ∧ ¬IsOrphan cdnStudio.files [] Settings.default cdnLayout [] k) ∧
    ∃ again, ((run [] Settings.default cdnLayout []).after τ).1 = .ok again ∧ again.orphans = [] := by
  have hbase : cdnLayout.publicBase ≠ [] := by decide
  obtain ⟨hsparing, -, -, hok⟩ := run_deletes_orphans hbase [] Settings.default [] cdnStudio
  obtain ⟨found, hfound, hlost⟩ := Fallible.exists_of_any (x := ((run [] Settings.default cdnLayout []).after cdnStudio).1)
    (p := fun found => found.orphans = ["audio/old/a.mp3".toList]) (by
      simp only [run, orphans, Documents.find, Store.list, Store.pages, sorted_eq]
      decide +kernel)
  have hgone : "audio/old/a.mp3".toList ∉ ((run [] Settings.default cdnLayout []).after cdnStudio).2.store.keys := by
    simp only [run, orphans, Documents.find, Store.list, Store.pages, sorted_eq]
    decide +kernel
  obtain ⟨hkeys, hagain⟩ := hok found hfound rfl
  refine ⟨hbase, found, _, Prod.ext hfound rfl, of_decide_eq_true hlost, hsparing.orphan _ (by decide) hgone, hkeys, ?_⟩
  refine (hagain _ rfl rfl).2 ?_
  simp only [run, orphans, Documents.find, Store.list, Store.pages, sorted_eq]
  decide +kernel

end Reconcile
end Narration
