import Narration.Proofs.Generate.Alone
import Narration.Proofs.Generate.Preview
import Narration.Proofs.Path
import Narration.Proofs.Reconcile

/-!
# The documents of a directory, one after another

A run on a document neither reads nor writes what another document of the directory lies in, and leaves the services as
they are. So the documents of a directory come out of a run as each of them would alone, in whatever order they are taken,
unless the run hangs on one of them.

* `Documents.eq_of_resolve` : different documents of a directory lie in different places;
* `Generate.Reached` : how far the files and the store are after some documents;
* `Generate.Reached.document`, `Generate.Reached.documents` : one document more, and a list of them;
* `Generate.Apart` : the results, files and keys of a batch, told by what each document does alone;
* `Generate.all_apart` : a batch in which no document hangs.
-/

namespace Narration

/-! ## Where documents lie -/

namespace Documents

variable {f g : Files} {directory pattern path path' : Text} {ignored place : List Text}

theorem exists_relative (h : path ∈ find f directory pattern ignored) : ∃ found, path = Path.relative found directory := by
  rw [find, Text.sorted, List.mem_mergeSort] at h
  obtain ⟨found, -, rfl⟩ := List.mem_map.1 (List.mem_filter.1 h).1
  exact ⟨found, rfl⟩

/-- Different documents of a directory lie in different places. -/
theorem eq_of_resolve (h : path ∈ find f directory pattern ignored) (h' : path' ∈ find f directory pattern ignored)
    (hplace : g.resolve (Path.join directory path) = .ok place) (hplace' : g.resolve (Path.join directory path') = .ok place) :
    path = path' := by
  obtain ⟨found, rfl⟩ := exists_relative h
  obtain ⟨found', rfl⟩ := exists_relative h'
  have hnormal := Files.resolve_eq_normal hplace
  have hnormal' := Files.resolve_eq_normal hplace'
  rw [Path.normal_join_relative] at hnormal hnormal'
  exact Path.relative_congr (hnormal.symm.trans hnormal') directory

end Documents

/-- What is related to a list has something for each of its elements. -/
theorem exists_of_forall₂ {α β : Type} {R : α → β → Prop} {as : List α} {bs : List β} (h : List.Forall₂ R as bs)
    {a : α} (ha : a ∈ as) : ∃ b ∈ bs, R a b := by
  induction h with
  | nil => cases ha
  | cons hfirst _ ih =>
    rcases List.mem_cons.1 ha with rfl | ha
    · exact ⟨_, List.mem_cons_self, hfirst⟩
    · obtain ⟨b, hb, hr⟩ := ih ha
      exact ⟨b, List.mem_cons_of_mem _ hb, hr⟩

namespace Generate
open Work

variable {directory path k : Text} {s : Settings} {l : Layout} {σ τ : Studio} {done paths : List Text} {place : List Text}

/-- A document lies in a place. -/
def LiesIn (files : Files) (directory path : Text) (place : List Text) : Prop :=
  files.resolve (Path.join directory path) = .ok place

/-- Two documents do not lie in one place. -/
def Separate (files : Files) (directory path path' : Text) : Prop :=
  ∀ place, LiesIn files directory path place → ¬LiesIn files directory path' place

/-! ## What a run does to the files -/

namespace Leaves

theorem resolve (h : Leaves directory s l path σ τ) (other : Text) : τ.files.resolve other = σ.files.resolve other := by
  cases hverdict : (verdict directory s l path σ).2 with
  | none => rw [h.unwritten hverdict]
  | some t =>
    obtain ⟨⟨old, hread⟩, hwrite⟩ := h.written t hverdict
    obtain ⟨place, content, -, hentry, hput⟩ := Documents.write_eq_put hread hwrite
    rw [hput, Files.resolve_put hentry]

/-- Where the document does not lie, everything stays as it is. -/
theorem entry?_of_not_liesIn (h : Leaves directory s l path σ τ) (hplace : ¬LiesIn σ.files directory path place) :
    τ.files.entry? place = σ.files.entry? place := by
  cases hverdict : (verdict directory s l path σ).2 with
  | none => rw [h.unwritten hverdict]
  | some t =>
    obtain ⟨⟨old, hread⟩, hwrite⟩ := h.written t hverdict
    obtain ⟨own, content, hown, hentry, hput⟩ := Documents.write_eq_put hread hwrite
    rw [hput, Files.entry?_put hentry, if_neg fun hsame : place = own => hplace (hsame ▸ hown)]

/-- Where the document lies, there is what was written, if anything was. -/
theorem entry?_of_liesIn (h : Leaves directory s l path σ τ) (hplace : LiesIn σ.files directory path place) :
    τ.files.entry? place =
      ((verdict directory s l path σ).2.map fun t => Entry.file (Utf8.encode t)).or (σ.files.entry? place) := by
  cases hverdict : (verdict directory s l path σ).2 with
  | none =>
    rw [h.unwritten hverdict]
    rfl
  | some t =>
    obtain ⟨⟨old, hread⟩, hwrite⟩ := h.written t hverdict
    obtain ⟨own, content, hown, hentry, hput⟩ := Documents.write_eq_put hread hwrite
    obtain rfl : own = place := Except.ok.inj (hown.symm.trans hplace)
    rw [hput, Files.entry?_put hentry, if_pos rfl]
    rfl

end Leaves

/-! ## Some documents -/

/-- How far the files and the store are after runs on some documents: each place is as the run on the document that lies
there would have left it alone, and what is stored is what each of them would have stored. -/
structure Reached (directory : Text) (s : Settings) (l : Layout) (σ : Studio) (done : List Text) (τ : Studio) : Prop where
  services : services τ = services σ
  resolve : ∀ path, τ.files.resolve path = σ.files.resolve path
  outside : ∀ place, (∀ path ∈ done, ¬LiesIn σ.files directory path place) → τ.files.entry? place = σ.files.entry? place
  inside : ∀ path ∈ done, ∀ place, LiesIn σ.files directory path place →
    τ.files.entry? place = ((document directory s l path).after σ).2.files.entry? place
  keys : ∀ k, k ∈ τ.store.keys ↔ k ∈ σ.store.keys ∨ ∃ path ∈ done, Adds directory s l path σ k

theorem Reached.refl (directory : Text) (s : Settings) (l : Layout) (σ : Studio) (output : Text) :
    Reached directory s l σ [] { σ with output } where
  services := rfl
  resolve _ := rfl
  outside _ _ := rfl
  inside := nofun
  keys k := by simp

/-- One document more, which lies where none of the others does. -/
theorem Reached.document (hdry : s.dryRun = false) (hsteady : Speech.Steady σ.speech.answer)
    (h : Reached directory s l σ done τ) (hseparate : ∀ other ∈ done, Separate σ.files directory other path) :
    ((document directory s l path).after τ).1 = ((document directory s l path).after σ).1 ∧
      Reached directory s l σ (done ++ [path]) ((document directory s l path).after τ).2 := by
  have houtside {place : List Text} (hplace : LiesIn σ.files directory path place) :
      τ.files.entry? place = σ.files.entry? place :=
    h.outside place fun other hother hlies => hseparate other hother place hlies hplace
  have halike : Alike directory path σ τ :=
    ⟨h.services, Documents.read_congr (h.resolve _) fun _ hplace => houtside hplace⟩
  obtain ⟨halone, hσ⟩ := after_document_eq hdry hsteady directory l path
  obtain ⟨hresult, hτ⟩ := after_document_eq (σ := τ) hdry ((Prod.mk.inj h.services).1 ▸ hsteady) directory l path
  have hverdict := halike.verdict (s := s) (l := l) hsteady
  rw [hverdict] at hresult
  have hlies (place : List Text) : LiesIn τ.files directory path place ↔ LiesIn σ.files directory path place := by
    rw [LiesIn, LiesIn, h.resolve]
  refine ⟨hresult.trans halone.symm, hτ.services.trans h.services,
    fun other => (hτ.resolve other).trans (h.resolve other), ?_, ?_, ?_⟩
  · intro place hplace
    rw [List.forall_mem_append, List.forall_mem_singleton] at hplace
    rw [hτ.entry?_of_not_liesIn ((hlies place).not.2 hplace.2), h.outside place hplace.1]
  · intro other hother place hplace
    rcases List.mem_append.1 hother with hother | hother
    · have hnot := (hlies place).not.2 (hseparate other hother place hplace)
      rw [hτ.entry?_of_not_liesIn hnot, h.inside other hother place hplace]
    · obtain rfl := List.mem_singleton.1 hother
      rw [hτ.entry?_of_liesIn ((hlies place).2 hplace), hσ.entry?_of_liesIn hplace, hverdict, houtside hplace]
  · intro k
    rw [hτ.keys, h.keys, halike.adds hsteady]
    simp only [List.mem_append, List.mem_singleton, or_and_right, exists_or, exists_eq_left, or_assoc]

/-- A list of documents: each comes out as it would alone, or the first that hangs alone ends the run. -/
theorem Reached.documents (hdry : s.dryRun = false) (hsteady : Speech.Steady σ.speech.answer)
    (h : Reached directory s l σ done τ) (hseparate : (done ++ paths).Pairwise (Separate σ.files directory)) :
    (∃ results ρ, (paths.mapM (Generate.document directory s l)).after τ = (.ok results, ρ) ∧
      List.Forall₂ (fun path r => ((Generate.document directory s l path).after σ).1 = .ok r) paths results ∧
      Reached directory s l σ (done ++ paths) ρ) ∨
    ∃ path ∈ paths, ∃ f, ((Generate.document directory s l path).after σ).1 = .error f ∧
      ((paths.mapM (Generate.document directory s l)).after τ).1 = .error f := by
  induction paths generalizing done τ with
  | nil => exact .inl ⟨[], τ, rfl, .nil, by rwa [List.append_nil]⟩
  | cons path paths ih =>
    have hpath : ∀ other ∈ done, Separate σ.files directory other path :=
      fun other hother => (List.pairwise_append.1 hseparate).2.2 other hother path List.mem_cons_self
    obtain ⟨hresult, hreached⟩ := h.document hdry hsteady hpath
    rw [List.append_cons] at hseparate
    rw [List.mapM_cons, after_bind]
    rcases hafter : (Generate.document directory s l path).after τ with ⟨f | r, τ₁⟩
    · rw [hafter] at hresult
      exact .inr ⟨path, List.mem_cons_self, f, hresult.symm, rfl⟩
    · rw [hafter] at hresult hreached
      dsimp only
      rw [after_bind]
      rcases ih hreached hseparate with ⟨results, ρ, hrest, hforall, hreached⟩ | ⟨other, hother, f, halone, hrest⟩
      · rw [hrest, List.append_cons]
        exact .inl ⟨r :: results, ρ, rfl, .cons hresult.symm hforall, hreached⟩
      · refine .inr ⟨other, List.mem_cons_of_mem path hother, f, halone, ?_⟩
        rcases hmap : (paths.mapM (Generate.document directory s l)).after τ₁ with ⟨x, ρ⟩
        rw [hmap] at hrest
        cases hrest
        rfl

/-! ## All documents of a directory -/

/-- A batch comes out as each of its documents would alone: its results are theirs, where a document lies there is what its
own run leaves there, everything else stays as it is, and what is stored is what each of them would have stored. -/
structure Apart (directory : Text) (s : Settings) (l : Layout) (σ : Studio) (paths : List Text)
    (results : List DocumentResult) (τ : Studio) : Prop where
  results : List.Forall₂ (fun path r => ((document directory s l path).after σ).1 = .ok r) paths results
  documents : ∀ path ∈ paths, ∀ place, LiesIn σ.files directory path place →
    τ.files.entry? place = ((document directory s l path).after σ).2.files.entry? place
  others : ∀ place, (∀ path ∈ paths, ¬LiesIn σ.files directory path place) →
    τ.files.entry? place = σ.files.entry? place
  keys : ∀ k, k ∈ τ.store.keys ↔
    k ∈ σ.store.keys ∨ ∃ path ∈ paths, k ∈ ((document directory s l path).after σ).2.store.keys

/-- In whatever order the documents are taken, the same is left. -/
theorem Apart.same {paths' : List Text} {results results' : List DocumentResult} {τ' : Studio}
    (h : Apart directory s l σ paths results τ) (h' : Apart directory s l σ paths' results' τ')
    (hpaths : ∀ path, path ∈ paths' ↔ path ∈ paths) :
    (∀ place, τ'.files.entry? place = τ.files.entry? place) ∧ ∀ k, k ∈ τ'.store.keys ↔ k ∈ τ.store.keys := by
  refine ⟨fun place => ?_, fun k => by simp only [h.keys, h'.keys, hpaths]⟩
  by_cases hlies : ∃ path ∈ paths, LiesIn σ.files directory path place
  · obtain ⟨path, hpath, hplace⟩ := hlies
    rw [h.documents path hpath place hplace, h'.documents path ((hpaths path).2 hpath) place hplace]
  · have hnone : ∀ path ∈ paths, ¬LiesIn σ.files directory path place :=
      fun path hpath hplace => hlies ⟨path, hpath, hplace⟩
    rw [h.others place hnone, h'.others place fun path hpath => hnone path ((hpaths path).1 hpath)]

theorem Reached.apart (hdry : s.dryRun = false) (hsteady : Speech.Steady σ.speech.answer) {results : List DocumentResult}
    (hresults : List.Forall₂ (fun path r => ((Generate.document directory s l path).after σ).1 = .ok r) paths results)
    (h : Reached directory s l σ paths τ) : Apart directory s l σ paths results τ := by
  refine ⟨hresults, h.inside, h.outside, fun k => (h.keys k).trans ?_⟩
  have halone (path : Text) := (after_document_eq (σ := σ) hdry hsteady directory l path).2.keys k
  simp only [halone]
  constructor
  · exact Or.imp_right fun ⟨path, hpath, hadds⟩ => ⟨path, hpath, .inr hadds⟩
  · rintro (hk | ⟨path, hpath, hk | hadds⟩)
    · exact .inl hk
    · exact .inl hk
    · exact .inr ⟨path, hpath, hadds⟩

/-- Only a run that hangs has no result. -/
theorem isEndless_of_document {f : Failure} (h : ((document directory s l path).after σ).1 = .error f) : f.isEndless := by
  rcases hupdate : (update directory s l path).after σ with ⟨x, τ⟩
  obtain ⟨warnings, errors, hdocument⟩ := after_document hupdate
  rw [hdocument] at h
  cases x with
  | ok r => cases h
  | error e =>
    rw [settled] at h
    split at h
    · next hendless =>
      cases h
      exact hendless
    · cases h

/-- Documents of a directory, each taken once, come out apart, or the run hangs on one that hangs alone. -/
theorem documents_apart (hdry : s.dryRun = false) (hsteady : Speech.Steady σ.speech.answer) (l : Layout) {paths : List Text}
    {pattern : Text} {ignored : List Text} (hfound : ∀ path ∈ paths, path ∈ Documents.find σ.files directory pattern ignored)
    (hnodup : paths.Nodup) (output : Text) :
    (∃ results τ, (paths.mapM (document directory s l)).after { σ with output } = (.ok results, τ) ∧
      Apart directory s l σ paths results τ) ∨
    ∃ path ∈ paths, ∃ f, ((document directory s l path).after σ).1 = .error f ∧
      ((paths.mapM (document directory s l)).after { σ with output }).1 = .error f := by
  have hseparate : paths.Pairwise (Separate σ.files directory) :=
    hnodup.imp_of_mem fun hpath hother hne place hplace hplace' =>
      hne (Documents.eq_of_resolve (hfound _ hpath) (hfound _ hother) hplace hplace')
  rcases (Reached.refl directory s l σ output).documents hdry hsteady hseparate with
    ⟨results, τ, hafter, hresults, hreached⟩ | hhangs
  · exact .inl ⟨results, τ, hafter, hreached.apart hdry hsteady hresults⟩
  · exact .inr hhangs

/-- A run on a directory is one on the documents that are found, but for what is said. -/
theorem after_all (directory : Text) (s : Settings) (l : Layout) (ignored : List Text) (σ : Studio) : ∃ before : Text,
    match ((Documents.find σ.files directory s.pattern ignored).mapM (document directory s l)).after
        { σ with output := before } with
    | (.ok results, τ) => ∃ output, (all directory s l ignored).after σ = (.ok results, { τ with output })
    | (.error f, _) => ((all directory s l ignored).after σ).1 = .error f := by
  have hall : (all directory s l ignored).after σ = Work.after (do
      if (Documents.find σ.files directory s.pattern ignored).isEmpty then
        say ("No documents found matching pattern: ".toList ++ s.pattern)
        return []
      say ("Found ".toList ++ Text.digits (Documents.find σ.files directory s.pattern ignored).length ++ " document(s)".toList)
      let results ← (Documents.find σ.files directory s.pattern ignored).mapM (document directory s l)
      (Summary.lines results s.verbose).forM say
      return results) σ := rfl
  rw [hall]
  cases Documents.find σ.files directory s.pattern ignored with
  | nil => exact ⟨σ.output, _, rfl⟩
  | cons path paths =>
    refine ⟨σ.output ++ ("Found ".toList ++ Text.digits (path :: paths).length ++ " document(s)".toList) ++ ['\n'], ?_⟩
    rw [List.isEmpty_cons, if_neg Bool.false_ne_true, after_bind, after_say]
    dsimp only
    rw [after_bind]
    rcases ((path :: paths).mapM (document directory s l)).after _ with ⟨f | results, τ⟩
    · rfl
    · dsimp only
      rw [after_bind]
      obtain ⟨output, hsaid⟩ :
          ∃ output, ((Summary.lines results s.verbose).forM say).after τ = (.ok (), { τ with output }) := ⟨_, after_forM_say (Summary.lines results s.verbose) id τ⟩
      exact ⟨output, by rw [hsaid]; rfl⟩

/-- A studio with two pages, in which nothing fails. -/
def pagesStudio (first : Text) : Studio :=
  { studioWith [] with files :=
    ⟨[(["a.mdx".toList], .file (Utf8.encode first)), (["b.mdx".toList], .file (Utf8.encode "Text.\n".toList))]⟩ }

theorem find_pages : Documents.find (pagesStudio []).files [] pageSettings.pattern [] = ["a.mdx".toList, "b.mdx".toList] := by
  have hfound : (((Glob.paths (pagesStudio []).files (Path.join [] pageSettings.pattern)).filter (pagesStudio []).files.isFile).map
      (Path.relative · [])).filter (!Documents.isIgnored · []) = ["a.mdx".toList, "b.mdx".toList] := by decide +kernel
  rw [Documents.find, hfound]
  exact List.mergeSort_of_pairwise (by decide)

/-- The result of the second page. -/
def secondNarrated : DocumentResult :=
  ⟨"b.mdx".toList, .generated, [⟨"ada".toList, "Ada".toList, "https://audio//b/ada.mp3".toList⟩], [], []⟩

end Generate
end Narration
