import Narration.Proofs.Reconcile

/-!
# Branches that share a bucket

A run deletes below the root of its layout, whoever's keys are there. So the audio of two branches is apart exactly when
neither root begins with the other, and a run without a branch has the roots of all branches below its own.

* `Layout.onBranch`, `Layout.Owns` : a layout on another branch, and the keys of a layout;
* `Reconcile.Spares`, `Reconcile.Isolated` : a layout whose runs delete no key of another, and two that spare each other;
* `Reconcile.spares_iff` : a layout spares another when no key of that begins with its root;
* `Reconcile.isolated_iff` : the branches that are isolated from each other.
-/

namespace Narration

variable {l l' : Layout} {k : Text}

theorem Text.finishesWith_iff {t p : Text} : finishesWith t p ↔ p <:+ t := by
  rw [finishesWith, beginsWith_iff, List.reverse_prefix]

namespace Layout

/-- The same layout on another branch, or on none. -/
def onBranch (l : Layout) (branch : Option Text) : Layout := { l with branch }

/-- The key belongs to the audio of some document in some voice. -/
def Owns (l : Layout) (k : Text) : Prop := ∃ path voice, l.keyFor? path voice = .ok k

theorem Owns.isPrefix (h : l.Owns k) : l.root <+: k ∧ extension <:+ k := by
  obtain ⟨path, voice, hkey⟩ := h
  obtain ⟨slug, -, hk⟩ := Fallible.bind_eq_ok.1 hkey
  cases hk
  refine ⟨⟨slug ++ ('/' :: voice ++ extension), ?_⟩, List.suffix_append _ extension⟩
  simp only [List.append_assoc]

/-- Every layout has keys. -/
theorem exists_owns (l : Layout) : ∃ k, l.Owns k :=
  ⟨l.root ++ "guide".toList ++ '/' :: "ada".toList ++ extension, "guide.mdx".toList, "ada".toList, rfl⟩

theorem root_onBranch (l : Layout) {n : Text} (hn : n ≠ []) :
    (l.onBranch (some n)).root = (if l.folder = [] then [] else l.folder ++ ['/']) ++ (n ++ ['/']) := by
  by_cases hfolder : l.folder = []
  · simp [root, onBranch, Text.join, hfolder, hn]
  · simp [root, onBranch, Text.join, hfolder, hn]

theorem root_onBranch_none (l : Layout) : (l.onBranch none).root = if l.folder = [] then ['/'] else l.folder ++ ['/'] := by
  by_cases hfolder : l.folder = []
  · simp [root, onBranch, Text.join, hfolder]
  · simp [root, onBranch, Text.join, hfolder]

end Layout

namespace Store
open Fallible (after)

variable {s : Store}

theorem clear_of_sound (h : s.behaviour = .sound) (batches : List (List Text)) : s.Clear l batches := by
  intro before batch behind _
  refine batchFault?_eq_none.2 ?_
  rw [show (s.sent l before).behaviour = s.behaviour from rfl, h]
  exact ⟨rfl, fun _ _ => rfl⟩

/-- A service that does all it is asked for deletes keys without a fault. -/
theorem exists_delete (h : s.behaviour = .sound) (keys : List Text) : ∃ n s', after (delete l keys) s = (.ok n, s') :=
  ⟨_, _, after_delete_clear (clear_of_sound h (batches keys))⟩

end Store

namespace Reconcile
open Work

/-- Whatever a run through the first layout finds, it deletes no key of the second. -/
def Spares (l l' : Layout) : Prop := ∀ directory s ignored (σ : Studio) k, l'.Owns k → k ∈ σ.store.keys →
  k ∈ ((run directory s l ignored).after σ).2.store.keys

/-- Neither layout's runs delete a key of the other. -/
def Isolated (l l' : Layout) : Prop := Spares l l' ∧ Spares l' l

/-! ## Which keys a run spares -/

/-- A run loses no key but those below its root. -/
theorem isPrefix_of_lost {directory : Text} {s : Settings} {ignored : List Text} {σ : Studio} (hk : k ∈ σ.store.keys)
    (hlost : k ∉ ((run directory s l ignored).after σ).2.store.keys) : l.root <+: k := by
  obtain ⟨references, hconsults, hok⟩ := referenced_consults σ.files directory s l ignored
  have hsparing := (run_ending hconsults).sparing fun refs h => (hok refs h).2
  exact Text.beginsWith_iff.1 (hsparing.orphan k hk hlost).1

/-- A studio without documents, whose bucket holds some keys. -/
def bareStudio (keys : List Text) : Studio where
  files := ⟨[]⟩
  store := .ofKeys keys
  speech := .ofAnswers fun _ _ => .sent [.audio [0]] none
  repository := ⟨none⟩
  environment := []
  output := []
  errors := []
  warnings := []

/-- Without documents, a run deletes all audio below its root. -/
theorem lost_of_isPrefix (hroot : l.root <+: k) (haudio : Layout.extension <:+ k) :
    k ∉ ((run [] Settings.default l []).after (bareStudio [k])).2.store.keys := by
  have hfind : Documents.find (bareStudio [k]).files [] Settings.default.pattern [] = [] := by
    have hnone : Glob.paths ⟨[]⟩ (Path.join [] Settings.default.pattern) = [] := by decide
    rw [Documents.find, bareStudio, hnone]
    exact List.mergeSort_nil
  have hconsults : Consults (bareStudio [k]).files (referenced l Settings.default.componentName
      ((Documents.find (bareStudio [k]).files [] Settings.default.pattern []).map (Work.read []))) (.ok []) := by
    rw [hfind]
    exact .pure []
  have hrefs : ∀ k', k' ∈ ([] : List Text) ↔ Referenced (bareStudio [k]).files [] Settings.default l [] k' := by
    intro k'
    refine ⟨fun h => absurd h List.not_mem_nil, ?_⟩
    rintro ⟨path, hpath, -⟩
    rw [hfind] at hpath
    cases hpath
  have hmem : k ∈ orphans ((bareStudio [k]).store.listed l.root) [] := by
    refine (mem_orphans hrefs).2
      ⟨List.mem_singleton.2 rfl, Text.beginsWith_iff.2 hroot, Text.finishesWith_iff.2 haudio, fun href => ?_⟩
    exact absurd ((hrefs k).2 href) List.not_mem_nil
  have hending := run_ending hconsults
  generalize ((run [] Settings.default l []).after (bareStudio [k])).1 = r,
    ((run [] Settings.default l []).after (bareStudio [k])).2 = τ at hending
  cases hending with
  | unread h => cases h
  | unlisted _ hlist => exact absurd rfl hlist
  | spared h horphans hspared =>
    cases h
    rw [horphans] at hspared
    exact hspared.elim (fun hnone => by rw [hnone] at hmem; cases hmem) (fun hdry => by cases hdry)
  | swept h _ _ _ hstore =>
    cases h
    obtain ⟨n, s', hdelete⟩ := Store.exists_delete (l := l) (s := asked l (bareStudio [k])) rfl
      (orphans ((bareStudio [k]).store.listed l.root) [])
    rw [hstore, hdelete, (Store.delete_eq_ok hdelete).2]
    exact fun hk => by simpa [hmem] using (List.mem_filter.1 hk).2

/-- A layout spares another when no key of that begins with its root. -/
theorem spares_iff : Spares l l' ↔ ∀ k, l'.Owns k → ¬l.root <+: k := by
  constructor
  · intro h k hk hroot
    exact lost_of_isPrefix hroot hk.isPrefix.2 (h _ _ _ _ k hk (List.mem_singleton.2 rfl))
  · intro h directory s ignored σ k hk hstored
    by_contra hlost
    exact h k hk (isPrefix_of_lost hstored hlost)

/-- Two layouts are isolated when neither root begins with the other. -/
theorem isolated_iff_root : Isolated l l' ↔ ¬l.root <+: l'.root ∧ ¬l'.root <+: l.root := by
  simp only [Isolated, spares_iff]
  constructor
  · rintro ⟨h, h'⟩
    obtain ⟨k, hk⟩ := l.exists_owns
    obtain ⟨k', hk'⟩ := l'.exists_owns
    exact ⟨fun hroot => h k' hk' (hroot.trans hk'.isPrefix.1), fun hroot => h' k hk (hroot.trans hk.isPrefix.1)⟩
  · rintro ⟨h, h'⟩
    -- Two texts that one key begins with are comparable.
    exact ⟨fun k hk hroot => (List.prefix_or_prefix_of_prefix hroot hk.isPrefix.1).elim h h',
      fun k hk hroot => (List.prefix_or_prefix_of_prefix hroot hk.isPrefix.1).elim h' h⟩

/-! ## Which branches are isolated -/

/-- Two branches of a folder are apart when neither name goes on with a slash and what follows, to be the other. A run
without a branch is apart from no other, unless there is no folder. -/
def Apart (folder : Text) : Option Text → Option Text → Prop
  | some m, some n => ¬m ++ ['/'] <+: n ++ ['/'] ∧ ¬n ++ ['/'] <+: m ++ ['/']
  | some n, none | none, some n => folder = [] ∧ n.head? ≠ some '/'
  | none, none => False

theorem isolated_none_iff (l : Layout) {n : Text} (hn : n ≠ []) :
    Isolated (l.onBranch none) (l.onBranch (some n)) ↔ l.folder = [] ∧ n.head? ≠ some '/' := by
  rw [isolated_iff_root, l.root_onBranch_none, l.root_onBranch hn]
  by_cases hfolder : l.folder = []
  · obtain ⟨c, t, rfl⟩ := List.exists_cons_of_ne_nil hn
    have hlong : ¬c :: t ++ ['/'] <+: ['/'] := fun h => by simpa using h.length_le
    rw [if_pos hfolder, if_pos hfolder, List.nil_append, List.cons_append, List.cons_prefix_cons]
    simp only [List.nil_prefix, and_true, eq_true hfolder, true_and, List.head?_cons, ne_eq, Option.some.injEq]
    exact ⟨fun h hc => h.1 hc.symm, fun h => ⟨fun hc => h hc.symm, hlong⟩⟩
  · rw [if_neg hfolder, if_neg hfolder]
    exact iff_of_false (fun h => h.1 (List.prefix_append _ _)) fun h => hfolder h.1

theorem isolated_comm : Isolated l l' ↔ Isolated l' l := and_comm

/-- Which branches of a layout are isolated: no run through the one, whatever documents it finds, deletes a key of the other. -/
theorem isolated_iff (l : Layout) (a b : Option Text) (ha : a ≠ some []) (hb : b ≠ some []) :
    Isolated (l.onBranch a) (l.onBranch b) ↔ Apart l.folder a b := by
  have hne {n : Text} (h : some n ≠ some []) : n ≠ [] := fun hn => h (congrArg some hn)
  match a, b with
  | none, none =>
    rw [isolated_iff_root]
    exact iff_of_false (fun h => h.1 (List.prefix_refl _)) id
  | none, some n => exact isolated_none_iff l (hne hb)
  | some m, none => exact isolated_comm.trans (isolated_none_iff l (hne ha))
  | some m, some n =>
    rw [isolated_iff_root, l.root_onBranch (hne ha), l.root_onBranch (hne hb), List.prefix_append_right_inj, List.prefix_append_right_inj]
    rfl

def docsLayout : Layout := .new "docs-audio".toList "https://cdn".toList "audio".toList none

theorem isolated_iff_dev : some "dev".toList ≠ some [] ∧ some "main".toList ≠ some [] ∧
    Isolated (docsLayout.onBranch (some "dev".toList)) (docsLayout.onBranch (some "main".toList)) := by
  have hdev : some "dev".toList ≠ some [] := by decide
  have hmain : some "main".toList ≠ some [] := by decide
  refine ⟨hdev, hmain, (isolated_iff docsLayout _ _ hdev hmain).2 ⟨by decide, by decide⟩⟩

/-- A page without narration, and the audio of that page on another branch. -/
def branchStudio : Studio :=
  { bareStudio ["audio/dev/guide/ada.mp3".toList] with
    files := ⟨[(["docs".toList, "guide.mdx".toList], .file (Utf8.encode "Hello\n".toList))]⟩ }

/-- A run without a branch deletes the audio of the others. -/
theorem run_deletes_branch : docsLayout.onBranch none = docsLayout ∧
    (docsLayout.onBranch (some "dev".toList)).keyFor? "guide.mdx".toList "ada".toList = .ok "audio/dev/guide/ada.mp3".toList ∧
    "audio/dev/guide/ada.mp3".toList ∈ branchStudio.store.keys ∧
    "audio/dev/guide/ada.mp3".toList ∉ ((run "docs".toList Settings.default docsLayout []).after branchStudio).2.store.keys := by
  refine ⟨rfl, by decide, List.mem_singleton.2 rfl, ?_⟩
  simp only [run, orphans, Documents.find, Store.list, Store.pages, sorted_eq]
  decide +kernel

end Reconcile
end Narration
