import Mathlib.Data.List.Infix
import Narration.Proofs.Markup.Inline.Plain
import Narration.Proofs.Text.Find
import Narration.Spoken

/-!
# Pages

A page is a sequence of headings, paragraphs, tables and code blocks, given by their words.

* `Phrase` : words with single spaces between them;
* `Grid`, `Page.Block` : tables, and the blocks of a page;
* `Page.written` : a page as a document;
* `Page.narrated` : what is read aloud of it;
* `IsPhrase` : the characters of a phrase;
* `not_isModules_of_beginsModules` : a line of words is neither an import nor an export.
-/

namespace Narration

/-- Words of certain characters. -/
structure Phrase (p : Char → Bool) where
  words : List Text
  words_ne_nil : words ≠ []
  word_ne_nil : ∀ w ∈ words, w ≠ []
  isWord : ∀ w ∈ words, ∀ c ∈ w, p c

/-- The words with single spaces between them. -/
def Phrase.text {p : Char → Bool} (phrase : Phrase p) : Text := Text.join [' '] phrase.words

/-- A letter, or a bar. -/
def isCellChar (c : Char) : Bool := c.isAlpha || c == '|'

/-- A cell of the rule of a table: one hyphen or more, perhaps with a colon at either end. -/
structure RuleCell where
  left : Bool
  more : Nat
  right : Bool

def RuleCell.text (cell : RuleCell) : Text :=
  (if cell.left then [':'] else []) ++ List.replicate (cell.more + 1) '-' ++ if cell.right then [':'] else []

theorem RuleCell.chars (cell : RuleCell) {c : Char} (h : c ∈ cell.text) : c = ':' ∨ c = '-' := by
  obtain ⟨left, more, right⟩ := cell
  cases left <;> cases right <;> simp [RuleCell.text] at h <;> tauto

theorem RuleCell.text_ne_nil (cell : RuleCell) : cell.text ≠ [] := by
  simp [RuleCell.text]

/-- A table: every line of it has as many cells as its head. -/
structure Grid where
  header : List (Phrase isCellChar)
  rule : List RuleCell
  rows : List (List (Phrase isCellChar))
  header_ne_nil : header ≠ []
  length_rule : rule.length = header.length
  length_row : ∀ row ∈ rows, row.length = header.length

/-- Whether the first of some words makes modules of a line. -/
def beginsModules (words : List Text) : Bool :=
  words.head?.any fun w => Text.beginsWith w "import".toList || w = "export".toList

/-- A line of a code block that is fenced by three backticks. -/
structure CodeLine where
  text : Text
  newline : '\n' ∉ text
  carriage : '\r' ∉ text
  inside : Markup.LineForm.closesFence '\x60' 3 (Text.trim text) = false

namespace Page

/-- A block of a page. -/
inductive Block where
  | heading (depth : Fin 6) (title : Phrase Char.isAlpha)
  | paragraph (prose : Phrase Char.isAlpha) (h : beginsModules prose.words = false)
  | table (grid : Grid)
  | code (lines : List CodeLine)

/-- A cell between spaces. -/
def padded (cell : Text) : Text := ' ' :: (cell ++ [' '])

/-- Cells between bars. -/
def barred (cells : List Text) : Text := '|' :: (Text.join ['|'] (cells.map padded) ++ ['|'])

/-- A row of a table, the bars in its cells escaped. -/
def rowLine (cells : List (Phrase isCellChar)) : Text := barred (cells.map fun cell => Markup.Content.escapeBars cell.text)

/-- The fence of a code block. -/
def fenceLine : Text := ['\x60', '\x60', '\x60']

/-- The lines of a block. -/
def Block.lines : Block → List Text
  | heading depth title => [List.replicate (depth + 1) '#' ++ ' ' :: title.text]
  | paragraph prose _ => [prose.text]
  | table grid => rowLine grid.header :: barred (grid.rule.map RuleCell.text) :: grid.rows.map rowLine
  | code lines => fenceLine :: lines.map CodeLine.text ++ [fenceLine]

/-- A row of a table as it is read aloud. -/
def rowText (cells : List (Phrase isCellChar)) : Text := Text.join [',', ' '] (cells.map Phrase.text)

/-- What is read aloud of a block. -/
def Block.narrated : Block → Text
  | heading _ title => title.text
  | paragraph prose _ => prose.text
  | table grid => Text.unlines ((grid.header :: grid.rows).map rowText)
  | code _ => []

/-- The blocks with a blank line between them. -/
def written (blocks : List Block) : Text := Text.join ['\n', '\n'] (blocks.map fun b => Text.unlines b.lines)

/-- What is read aloud of a page: the blocks that have something to say, with a blank line between them. -/
def narrated (blocks : List Block) : Text :=
  Text.join ['\n', '\n'] ((blocks.map Block.narrated).filter (!List.isEmpty ·))

end Page

/-! ## Characters of phrases -/

section Phrase
open Markup (isProse)

variable {p q : Char → Bool}

/-- A text of characters of one class, spaces only between them. -/
structure IsPhrase (p : Char → Bool) (t : Text) : Prop where
  ne_nil : t ≠ []
  head : ∀ c ∈ t.head?, p c
  last : ∀ c ∈ t.getLast?, p c
  chars : ∀ c ∈ t, p c ∨ c = ' '

theorem isPhrase_word {w : Text} (hne : w ≠ []) (h : ∀ c ∈ w, p c) : IsPhrase p w :=
  ⟨hne, fun c hc => h c (List.mem_of_head? hc), fun c hc => h c (List.mem_of_getLast? hc), fun c hc => .inl (h c hc)⟩

theorem Phrase.isPhrase (phrase : Phrase p) : IsPhrase p phrase.text := by
  obtain ⟨words, hwords, hne, hword⟩ := phrase
  change IsPhrase p (Text.join [' '] words)
  induction words with
  | nil => exact absurd rfl hwords
  | cons w words ih =>
    obtain ⟨hw, hne⟩ := List.forall_mem_cons.1 hne
    obtain ⟨hchars, hword⟩ := List.forall_mem_cons.1 hword
    have hfirst := isPhrase_word hw hchars
    cases words with
    | nil =>
      rw [Text.join_singleton]
      exact hfirst
    | cons v words =>
      obtain ⟨-, -, hlast, hrest⟩ := ih (by simp) hne hword
      have htext : Text.join [' '] (v :: words) ≠ [] := by
        rw [Text.join, List.intercalate]
        cases words <;> simp [hne v List.mem_cons_self]
      rw [Text.join_cons_cons]
      refine ⟨by simp, fun c hc => ?_, fun c hc => ?_, fun c hc => ?_⟩
      · rw [List.append_assoc, List.head?_append_of_ne_nil _ hw] at hc
        exact hfirst.head c hc
      · rw [List.getLast?_append_of_ne_nil _ htext] at hc
        exact hlast c hc
      · simp only [List.mem_append, List.mem_singleton] at hc
        rcases hc with (hc | rfl) | hc
        · exact hfirst.chars c hc
        · exact .inr rfl
        · exact hrest c hc

theorem isCellChar_of_isAlpha {c : Char} (h : c.isAlpha) : isCellChar c := by rw [isCellChar, h, Bool.true_or]

theorem not_isBlank_of_isCellChar {c : Char} (h : isCellChar c) : Text.isBlank c = false := by
  rcases Bool.or_eq_true_iff.1 h with h | h
  · exact Text.isBlank_of_isAlpha h
  · rw [eq_of_beq h]
    rfl

theorem isProse_of_isCellChar {c : Char} (h : isCellChar c) : isProse c := by
  rcases Bool.or_eq_true_iff.1 h with h | h
  · rw [isProse, h, Bool.true_or, Bool.true_or]
  · rw [eq_of_beq h]
    rfl

variable {t : Text}

theorem IsPhrase.imp (h : IsPhrase p t) (hpq : ∀ c, p c → q c) : IsPhrase q t :=
  ⟨h.ne_nil, fun c hc => hpq c (h.head c hc), fun c hc => hpq c (h.last c hc), fun c hc => (h.chars c hc).imp_left (hpq c)⟩

variable (h : IsPhrase isCellChar t)
include h

theorem IsPhrase.isProse_of_mem : ∀ c ∈ t, isProse c := by
  intro c hc
  rcases h.chars c hc with hc | rfl
  · exact isProse_of_isCellChar hc
  · rfl

/-- Characters that are not those of a phrase do not occur in it. -/
theorem IsPhrase.notMem {d : Char} (hd : isProse d = false) : d ∉ t := fun hmem => by
  rw [h.isProse_of_mem d hmem] at hd
  cases hd

theorem IsPhrase.notMem_escapeBars {d : Char} (hd : isProse d = false) (hslash : d ≠ '\\') :
    d ∉ Markup.Content.escapeBars t := fun hmem => by
  rcases Markup.Content.mem_escapeBars hmem with rfl | hmem
  · exact hslash rfl
  · exact h.notMem hd hmem

theorem IsPhrase.trimStart_eq : Text.trimStart t = t := by
  obtain ⟨c, u, rfl⟩ := List.exists_cons_of_ne_nil h.ne_nil
  exact List.dropWhile_cons_of_neg (by simp [not_isBlank_of_isCellChar (h.head c rfl)])

theorem IsPhrase.trimEnd_eq : Text.trimEnd t = t :=
  Text.trimEnd_eq_self fun c hc => not_isBlank_of_isCellChar (h.last c hc)

theorem IsPhrase.trim_eq : Text.trim t = t := by rw [Text.trim, h.trimStart_eq, h.trimEnd_eq]

theorem IsPhrase.exists_cons : ∃ c u, t = c :: u ∧ isCellChar c := by
  obtain ⟨c, u, rfl⟩ := List.exists_cons_of_ne_nil h.ne_nil
  exact ⟨c, u, rfl, h.head c rfl⟩

end Phrase

/-! ## The first word -/

/-- Letters at the front of words stand at the front of the first word. -/
theorem prefix_of_append_eq {q : Char → Bool} {w v p r : Text} (hp : ∀ c ∈ p, q c) (hv : ∀ c ∈ v.head?, q c = false)
    (h : w ++ v = p ++ r) : ∃ u, w = p ++ u ∧ r = u ++ v := by
  rcases List.append_eq_append_iff.1 h with ⟨a, rfl, rfl⟩ | ⟨u, rfl, rfl⟩
  · cases a with
    | nil => exact ⟨[], by simp, by simp⟩
    | cons c a =>
      have hc := hp c (by simp)
      rw [hv c rfl] at hc
      cases hc
  · exact ⟨u, rfl, rfl⟩

theorem Phrase.exists_text_eq {p : Char → Bool} (phrase : Phrase p) : ∃ w v, phrase.words.head? = some w ∧
    (∀ c ∈ w, p c) ∧ (v = [] ∨ ∃ u, v = ' ' :: u) ∧ phrase.text = w ++ v := by
  obtain ⟨words, hwords, hne, hword⟩ := phrase
  obtain ⟨w, words, rfl⟩ := List.exists_cons_of_ne_nil hwords
  cases words with
  | nil => exact ⟨w, [], rfl, hword w List.mem_cons_self, .inl rfl, by rw [Phrase.text, Text.join_singleton, List.append_nil]⟩
  | cons k words =>
    exact ⟨w, _, rfl, hword w List.mem_cons_self, .inr ⟨_, rfl⟩, by
      rw [Phrase.text, Text.join_cons_cons, List.append_assoc]
      rfl⟩

theorem not_isModules_of_beginsModules {phrase : Phrase Char.isAlpha} (h : beginsModules phrase.words = false) :
    Markup.LineForm.isModules phrase.text = false := by
  obtain ⟨w, v, hw, halpha, hv, htext⟩ := phrase.exists_text_eq
  rw [beginsModules, hw, Option.any_some, Bool.or_eq_false_iff, decide_eq_false_iff_not] at h
  have hhead : ∀ c ∈ v.head?, c.isAlpha = false := by
    rcases hv with rfl | ⟨u, rfl⟩
    · nofun
    · intro c hc
      cases hc
      rfl
  rw [htext]
  unfold Markup.LineForm.isModules
  split
  · next rest _ himport =>
    obtain ⟨u, rfl, -⟩ := prefix_of_append_eq (by decide) hhead ((Text.after?_eq_some).1 himport)
    rw [Text.beginsWith, Text.after?_append] at h
    cases h.1
  · next rest _ hexport =>
    obtain ⟨u, rfl, rfl⟩ := prefix_of_append_eq (by decide) hhead ((Text.after?_eq_some).1 hexport)
    cases u with
    | nil => exact absurd rfl h.2
    | cons d u =>
      have hd : d.isAlpha := halpha d (by simp)
      have hstart : Text.trimStart (d :: u ++ v) = d :: u ++ v :=
        List.dropWhile_cons_of_neg (by simp [Text.isBlank_of_isAlpha hd])
      have hne (c : Char) (hc : c.isAlpha = false) : (d :: u ++ v).head? ≠ some c := by
        rintro hsome
        cases hsome
        rw [hd] at hc
        cases hc
      have hbrace := hne '\x7b' rfl
      have hstar := hne '*' rfl
      simp only [hstart, hbrace, hstar, Nat.lt_irrefl, decide_false, Bool.false_and, Bool.or_false]
  · rfl

end Narration
