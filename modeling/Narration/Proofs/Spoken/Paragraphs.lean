import Narration.Proofs.Spoken.Lined
import Narration.Proofs.Spoken.Recited

/-!
# Paragraphs of words

A paragraph is a line of words; the first is neither `import` nor `export`. The reader of module
statements asks for no end of the word `import`, so that a line passes for an import as soon as it
begins with these letters.

* `Paragraph.isLost` : paragraphs that pass for imports;
* `Paragraph.readTo` : how a paragraph is read, and what is narrated of it;
* `Paragraph.extract_paragraphs` : what is narrated of a document of paragraphs.
-/

namespace Narration
open Markup Markup.Block
open Page (EndsBlock ReadTo ReadsProse)
open Text (firstLine)

/-- A line of words, of which the first is no keyword of modules. -/
structure Paragraph where
  prose : Phrase Char.isAlpha
  notKeyword : ∀ w ∈ prose.words.head?, w ≠ "import".toList ∧ w ≠ "export".toList

namespace Paragraph

def text (p : Paragraph) : Text := p.prose.text

/-- Whether a paragraph passes for an import: its first word begins with the letters of the keyword. -/
def isLost (p : Paragraph) : Bool := p.prose.words.head?.any (Text.beginsWith · "import".toList)

def narrated (p : Paragraph) : Text := if p.isLost then [] else p.text

/-- Paragraphs with a blank line between them. -/
def written (ps : List Paragraph) : Text := Text.join ['\n', '\n'] (ps.map text)

variable {scope : Scope} {inner : Inner} {rest : Text} {a : Nat}

theorem isPhrase_text (p : Paragraph) : IsPhrase Char.isAlpha p.text := p.prose.isPhrase

theorem isCellPhrase_text (p : Paragraph) : IsPhrase isCellChar p.text := p.isPhrase_text.imp fun _ => isCellChar_of_isAlpha

theorem newline_notMem_text (p : Paragraph) : '\n' ∉ p.text := p.isCellPhrase_text.notMem rfl

/-! ## How a paragraph is read -/

theorem beginsModules_eq (p : Paragraph) : beginsModules p.prose.words = p.isLost := by
  obtain ⟨w, v, hw, -⟩ := p.prose.exists_text_eq
  have hexport : w ≠ "export".toList := (p.notKeyword w hw).2
  rw [beginsModules, isLost, hw, Option.any_some, Option.any_some, decide_eq_false hexport, Bool.or_false]

/-- More letters follow those of the keyword, and this is enough for an import. -/
theorem isModules_of_isLost (p : Paragraph) (h : p.isLost) : LineForm.isModules p.text := by
  obtain ⟨w, v, hw, halpha, -, htext⟩ := p.prose.exists_text_eq
  rw [isLost, hw, Option.any_some] at h
  obtain ⟨u, rfl⟩ := Text.beginsWith_iff.1 h
  have hne : u ≠ [] := by
    rintro rfl
    exact (p.notKeyword _ hw).1 (List.append_nil _)
  obtain ⟨c, u, rfl⟩ := List.exists_cons_of_ne_nil hne
  have hc : c.isAlpha := halpha c (by simp)
  have hstart : Text.trimStart (c :: u ++ v) = c :: u ++ v := List.dropWhile_cons_of_neg (by simp [Text.isBlank_of_isAlpha hc])
  have hword : Text.isWord c := Text.isWord_of_isAlphanum (by simp [Char.isAlphanum, hc])
  have hafter : Text.after? "import".toList ("import".toList ++ c :: u ++ v) = some (c :: u ++ v) := by
    rw [List.append_assoc, Text.after?_append]
  rw [text, htext]
  unfold LineForm.isModules
  rw [hafter]
  dsimp only
  rw [hstart, List.cons_append, List.head?_cons, Option.any_some, hword, Bool.true_or]

theorem modulesLength_text (p : Paragraph) (hrest : EndsBlock rest) : modulesLength 0 0 (p.text ++ rest) = p.text.length := by
  have hplain : ∀ c ∈ p.text, Player.isPlain c := by
    intro c hc
    rcases p.isPhrase_text.chars c hc with h | rfl
    · exact Player.isPlain_of_isName (by rw [Char.isAlphanum, h]; rfl)
    · rfl
  rw [Player.modulesLength_plain hplain, modulesLength_of_endsLine hrest.endsLine]
  exact Nat.add_zero _

theorem next_lost (p : Paragraph) (h : p.isLost) (hrest : EndsBlock rest) :
    next scope inner true ⟨a, p.text ++ rest⟩ =
      .ok (scope.node (.modules p.text) a (a + p.text.length) [], a + p.text.length + 0) := by
  have hcell := p.isCellPhrase_text
  have hfirst : firstLine (p.text ++ rest) = p.text := by
    rw [hrest.endsLine.firstLine_append, firstLine, Text.takeWhile_lastLine p.newline_notMem_text]
  have hreader (table : Bool) : readerOf true p.text table = .modules := by
    rw [readerOf, earlyReader?, Text.indent_eq_zero hcell.trimStart_eq, p.isModules_of_isLost h]
    rfl
  rw [next_mk, hfirst, hreader, Reader.read, modules, p.modulesLength_text hrest, Stretch.take, List.take_left, hcell.trimEnd_eq]
  rfl

theorem readTo (p : Paragraph) (hprose : ReadsProse inner) (hrest : EndsBlock rest) :
    ReadTo scope inner a p.text rest p.narrated := by
  unfold narrated
  split
  · next h => exact ⟨.modules p.text, [], 0, Nat.zero_le _, p.next_lost h hrest, fun _ _ => rfl⟩
  · next h =>
    refine (Page.readAs_paragraph hprose hrest a p.prose ?_).readTo
    rw [beginsModules_eq]
    simpa using h

/-! ## What is narrated -/

variable (ps : List Paragraph)

theorem filter_narrated : (ps.map narrated).filter (!List.isEmpty ·) = (ps.filter (!·.isLost)).map text := by
  induction ps with
  | nil => rfl
  | cons p ps ih =>
    have hne : p.text.isEmpty = false := List.isEmpty_eq_false_iff.2 p.isPhrase_text.ne_nil
    cases h : p.isLost <;> simp [narrated, h, hne, ih]

theorem notMem_written {c : Char} (hc : isProse c = false) (hnewline : c ≠ '\n') : c ∉ written ps := by
  intro hmem
  rcases Text.mem_join hmem with hmem | ⟨t, ht, hmem⟩
  · simp [hnewline] at hmem
  · obtain ⟨p, -, rfl⟩ := List.mem_map.1 ht
    exact p.isCellPhrase_text.notMem hc hmem

theorem frontMatter?_paragraphs : frontMatter? (written ps) = none := by
  have hnone : hyphens? (written ps) = none := by
    rw [hyphens?, Option.map_eq_none_iff, ← Option.not_isSome_iff_eq_none]
    intro hsome
    obtain ⟨rest, hrest⟩ := Option.isSome_iff_exists.1 hsome
    exact notMem_written ps rfl (by decide) (List.mem_of_head? (LineForm.head?_of_after? hrest))
  rw [frontMatter?, hnone]
  rfl

theorem cleanUp_paragraphs : Spoken.cleanUp (written ps) = written ps := by
  by_cases hne : ps = []
  · rw [hne]
    rfl
  · refine (Spoken.Fluent.join Spoken.separates_gap (by simpa using hne) fun t ht => ?_).cleanUp_eq
    obtain ⟨p, -, rfl⟩ := List.mem_map.1 ht
    exact Spoken.fluent_phrase p.isCellPhrase_text

theorem extract_written_eq : Spoken.extract (written ps) = pure (written (ps.filter (!·.isLost))) := by
  have hfirst (p : Paragraph) : ∃ c, p.text.head? = some c ∧ Text.isBlank c = false := by
    obtain ⟨c, u, htext, hc⟩ := p.isCellPhrase_text.exists_cons
    exact ⟨c, by rw [htext, List.head?_cons], not_isBlank_of_isCellChar hc⟩
  have hread (p : Paragraph) (a : Nat) (rest : Text) (hrest : EndsBlock rest) :
      ReadTo (Scope.ofText (written ps) []) (innerOf 957 (Scope.ofText (written ps) [])) a p.text rest p.narrated :=
    p.readTo (Page.readsProse_innerOf _) hrest
  obtain ⟨ns, qs, hreads, hpassages, htexts, hpairs, -⟩ := Page.reads_join [] Spoken.flatteningBudget hfirst hread ps [] rfl
  have hwhole : Spoken.Says Tree.nestingBudget Spoken.flatteningBudget true (written ps) (written (ps.filter (!·.isLost))) :=
    ⟨ns, qs, readAll_eq_ok.2 hreads, hpassages, by rw [Spoken.joinBlocks_setOff hpairs, htexts, filter_narrated, written]⟩
  rw [hwhole.extract (notMem_written ps rfl (by decide)) (frontMatter?_paragraphs ps)
    (Reference.collect_of_notMem (notMem_written ps rfl (by decide))), cleanUp_paragraphs]

/-- Two line feeds stand between two paragraphs. -/
theorem count_written (hne : ps ≠ []) : (written ps).count '\n' + 2 = 2 * ps.length := by
  induction ps with
  | nil => exact absurd rfl hne
  | cons p ps ih =>
    have hcount : p.text.count '\n' = 0 := List.count_eq_zero.2 p.newline_notMem_text
    cases ps with
    | nil =>
      rw [written, List.map_singleton, Text.join_singleton, hcount]
      rfl
    | cons k ps =>
      have hgap : ['\n', '\n'].count '\n' = 2 := rfl
      have ih := ih (List.cons_ne_nil _ _)
      rw [written] at ih ⊢
      rw [List.map_cons, List.map_cons, Text.join_cons_cons, List.count_append, List.count_append, hcount, hgap, ← List.map_cons,
        List.length_cons]
      omega

theorem written_filter_eq_iff (q : Paragraph → Bool) : written (ps.filter q) = written ps ↔ ∀ p ∈ ps, q p := by
  refine ⟨fun h => List.length_filter_eq_length_iff.1 ?_, fun h => by rw [List.filter_eq_self.2 h]⟩
  by_cases hne : ps = []
  · rw [hne]
    rfl
  have hcount := count_written ps hne
  by_cases hnil : ps.filter q = []
  · -- nothing is left, while a paragraph has a letter
    obtain ⟨p, ps, rfl⟩ := List.exists_cons_of_ne_nil hne
    obtain ⟨rest, -, hjoin, -⟩ := Page.join_gap_cons p.text (ps.map text)
    have hempty : written (p :: ps) = [] := by rw [← h, hnil]; rfl
    rw [written, List.map_cons, hjoin] at hempty
    exact absurd (List.append_eq_nil_iff.1 hempty).1 p.isPhrase_text.ne_nil
  · have hkept := count_written _ hnil
    rw [h] at hkept
    omega

/-- A document of paragraphs is narrated word for word but for the paragraphs that pass for imports; it
is narrated as it stands exactly when there are none. -/
theorem extract_paragraphs : Spoken.extract (written ps) = pure (written (ps.filter (!·.isLost))) ∧
    (Spoken.extract (written ps) = pure (written ps) ↔ ∀ p ∈ ps, p.isLost = false) := by
  have hextract := extract_written_eq ps
  refine ⟨hextract, ?_⟩
  have hpure {s t : Text} : (pure s : Report Text) = pure t ↔ s = t := by
    refine ⟨fun h => ?_, fun h => by rw [h]⟩
    have houtcome : (pure s : Report Text).outcome = (pure t : Report Text).outcome := by rw [h]
    cases houtcome
    rfl
  rw [hextract, hpure, written_filter_eq_iff]
  simp only [Bool.not_eq_true']

/-- A paragraph whose first word begins with the letters of the keyword. -/
theorem extract_importantNews : (Spoken.extract "important news".toList).outcome.1.toOption = some [] ∧
    Spoken.extract "important news".toList ≠ pure "important news".toList := by
  have hempty : (Spoken.extract "important news".toList).outcome.1.toOption = some [] := by decide +kernel
  refine ⟨hempty, fun h => ?_⟩
  rw [h] at hempty
  cases hempty

end Paragraph
end Narration
