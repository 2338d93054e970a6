import Narration.Proofs.Markup.Body
import Narration.Proofs.Markup.Place
import Narration.Proofs.Player.Injected
import Narration.Proofs.Spoken.CleanUp
import Narration.Proofs.Spoken.PageBlocks

/-!
# What is read aloud of a page

* `Spoken.SetOff`, `Spoken.joinBlocks_setOff` : passages with gaps between them;
* `Page.reads_join`, `Page.reads_written` : blocks between blank lines are read one by one, those of a page so;
* `Spoken.Fluent` : texts that need no cleaning up, and that may stand in others;
* `Page.extract_written` : what is read aloud of a page is what its blocks say.
-/

namespace Narration
open Markup
open Text (firstLine)

/-! ## Passages with gaps between them -/

namespace Spoken

/-- Passages that are set off from each other in the source. -/
def SetOff (x y : Passage) : Prop := ∃ p q, x.2 = some p ∧ y.2 = some q ∧ p.endLine + 1 < q.startLine

theorem joinBlocks_setOff {ps : List Passage} (h : ps.Pairwise SetOff) :
    joinBlocks ps = Text.join ['\n', '\n'] ((ps.map (·.1)).filter (!List.isEmpty ·)) := by
  have hfilter : (ps.filter (!·.1.isEmpty)).map (·.1) = (ps.map (·.1)).filter (!List.isEmpty ·) := by
    rw [List.filter_map]
    rfl
  have hpairs : (ps.filter (!·.1.isEmpty)).Pairwise SetOff := h.filter _
  rw [joinBlocks, ← hfilter]
  generalize ps.filter (!·.1.isEmpty) = qs at hpairs
  cases qs with
  | nil => rfl
  | cons x qs =>
    obtain ⟨text, position⟩ := x
    dsimp only
    induction qs generalizing text position with
    | nil => rw [joinAfter, List.append_nil, List.map_singleton, Text.join_singleton]
    | cons y qs ih =>
      obtain ⟨text', position'⟩ := y
      obtain ⟨hfirst, hrest⟩ := List.pairwise_cons.1 hpairs
      obtain ⟨p, q, hp, hq, hlt⟩ := hfirst _ List.mem_cons_self
      dsimp only at hp hq
      subst hp hq
      have hgap : gapBetween (some p) (some q) = true := by simpa [gapBetween] using hlt
      rw [joinAfter, hgap, if_pos rfl, List.map_cons, Text.join_cons _ _ (by simp), ← ih _ _ hrest]
      simp only [List.append_assoc]

end Spoken

namespace Page
open Markup.Block
open Spoken (SetOff)

variable {inner : Inner}

/-- Text before a blank line and more text, or at the end. -/
theorem join_gap_cons (l : Text) (ls : List Text) : ∃ rest, EndsBlock rest ∧ Text.join ['\n', '\n'] (l :: ls) = l ++ rest ∧
    (ls = [] ∧ rest = [] ∨ rest = '\n' :: '\n' :: Text.join ['\n', '\n'] ls) := by
  cases ls with
  | nil => exact ⟨[], .inl rfl, by rw [Text.join_singleton, List.append_nil], .inl ⟨rfl, rfl⟩⟩
  | cons k ls =>
    refine ⟨_, .inr ⟨Text.join ['\n', '\n'] (k :: ls), rfl⟩, ?_, .inr rfl⟩
    rw [Text.join_cons_cons, List.append_assoc]
    rfl

theorem written_cons (b : Block) (bs : List Block) : ∃ rest, EndsBlock rest ∧ written (b :: bs) = Text.unlines b.lines ++ rest ∧
    (bs = [] ∧ rest = [] ∨ rest = '\n' :: '\n' :: written bs) := by
  obtain ⟨rest, hrest, hjoin, hbelow⟩ := join_gap_cons (Text.unlines b.lines) (bs.map fun b => Text.unlines b.lines)
  exact ⟨rest, hrest, hjoin, hbelow.imp_left (And.imp_left List.map_eq_nil_iff.1)⟩

/-- The reading of a block that ends with its last line or with the line feed after it, and what is narrated of it. -/
def ReadTo (scope : Scope) (inner : Inner) (a : Nat) (text rest narrated : Text) : Prop :=
  ∃ kind children gone, gone ≤ min 1 rest.length ∧
    next scope inner true ⟨a, text ++ rest⟩ = .ok (scope.node kind a (a + text.length) children, a + text.length + gone) ∧
    ∀ position budget, Spoken.blockText (.mk kind children position) budget = some narrated

theorem ReadAs.readTo {scope : Scope} {a : Nat} {text rest narrated : Text} (h : ReadAs scope inner a text rest narrated) :
    ReadTo scope inner a text rest narrated := by
  obtain ⟨kind, children, hnext, hnarrated⟩ := h
  exact ⟨kind, children, _, Nat.le_refl _, hnext, hnarrated⟩

/-- Blocks below a blank line are read from the line feed before it and from the one in it. -/
theorem reads_gap {scope : Scope} {a gone : Nat} {t : Text} {ns : List Node} (hgone : gone ≤ 1) (h : Reads scope inner true ⟨a + 2, t⟩ ns) :
    Reads scope inner true ⟨a + gone, ('\n' :: '\n' :: t).drop gone⟩ ns := by
  have hlast : Reads scope inner true ⟨a + 1, '\n' :: t⟩ ns := (reads_newline _ _).2 h
  obtain rfl | rfl : gone = 0 ∨ gone = 1 := by omega
  · exact (reads_newline _ _).2 hlast
  · exact hlast

/-- Blocks with a blank line between them are read one by one. -/
theorem reads_join {α : Type} {text said : α → Text} (references : List Reference) {doc : Text} (budget : Nat)
    (hfirst : ∀ b, ∃ c, (text b).head? = some c ∧ Text.isBlank c = false)
    (hread : ∀ (b : α) (a : Nat) (rest : Text), EndsBlock rest → ReadTo (Scope.ofText doc references) inner a (text b) rest (said b))
    (bs : List α) (pre : Text) (hdoc : doc = pre ++ Text.join ['\n', '\n'] (bs.map text)) :
    ∃ ns ps, Reads (Scope.ofText doc references) inner true ⟨pre.length, Text.join ['\n', '\n'] (bs.map text)⟩ ns ∧
      Spoken.passages ns budget = some ps ∧ ps.map (·.1) = bs.map said ∧ ps.Pairwise SetOff ∧
      ∀ x ∈ ps, ∃ p, x.2 = some p ∧ pre.count '\n' < p.startLine := by
  induction bs generalizing pre with
  | nil => exact ⟨[], [], ⟨1, rfl⟩, rfl, rfl, .nil, nofun⟩
  | cons b bs ih =>
    obtain ⟨rest, hrest, hjoin, hbelow⟩ := join_gap_cons (text b) (bs.map text)
    rw [List.map_cons, hjoin] at hdoc
    obtain ⟨kind, children, gone, hgone, hnext, hnarrated⟩ := hread b pre.length rest hrest
    obtain ⟨c, u, hhead, hblank⟩ : ∃ c u, text b = c :: u ∧ Text.isBlank c = false := by
      obtain ⟨c, hc, hblank⟩ := hfirst b
      obtain ⟨u, hu⟩ := List.head?_eq_some_iff.1 hc
      exact ⟨c, u, hu, hblank⟩
    have hline : (⟨pre.length, text b ++ rest⟩ : Stretch).lineBlank = false := by
      rw [lineBlank_mk, hhead, firstLine, List.cons_append, List.takeWhile_cons_of_pos]
      · rw [Text.allBlank, List.all_cons, hblank, Bool.false_and]
      · have : c ≠ '\n' := by
          rintro rfl
          cases hblank
        simpa using this
    have hsince : (⟨pre.length, text b ++ rest⟩ : Stretch).since (pre.length + (text b).length + gone) =
        ⟨pre.length + (text b).length + gone, rest.drop gone⟩ := by
      have hle : (text b).length + gone ≤ (text b ++ rest).length := by
        rw [List.length_append]
        omega
      rw [Nat.add_assoc, since_mk _ _ _ hle, List.drop_append, List.drop_eq_nil_of_le (by omega), List.nil_append,
        Nat.add_sub_cancel_left]
    have hstart : ((Scope.ofText doc references).position pre.length (pre.length + (text b).length)).startLine = pre.count '\n' + 1 := by
      rw [hdoc]
      exact Scope.lineOf_length pre _ references
    have hend : ((Scope.ofText doc references).position pre.length (pre.length + (text b).length)).endLine ≤
        (pre ++ text b).count '\n' + 1 := by
      have hlast := Scope.lineOf_length (pre ++ text b) rest references
      rw [List.append_assoc, ← hdoc] at hlast
      rw [← hlast]
      exact Scope.lineOf_mono _ (by rw [List.length_append]; omega)
    obtain ⟨ms, ps, hreads, hpassages, htexts, hpairs, hlines⟩ : ∃ ms ps, Reads (Scope.ofText doc references) inner true
        ⟨pre.length + (text b).length + gone, rest.drop gone⟩ ms ∧ Spoken.passages ms budget = some ps ∧
        ps.map (·.1) = bs.map said ∧ ps.Pairwise SetOff ∧
        ∀ x ∈ ps, ∃ p, x.2 = some p ∧ (pre ++ text b).count '\n' + 2 < p.startLine := by
      rcases hbelow with ⟨hnil, rfl⟩ | rfl
      · obtain rfl := List.map_eq_nil_iff.1 hnil
        exact ⟨[], [], (reads_nil List.drop_nil).2 rfl, rfl, rfl, .nil, nofun⟩
      · obtain ⟨ms, ps, hreads, hpassages, htexts, hpairs, hlines⟩ := ih (pre ++ text b ++ ['\n', '\n']) (by simp [hdoc])
        refine ⟨ms, ps, reads_gap (Nat.le_trans hgone (Nat.min_le_left _ _)) ?_, hpassages, htexts, hpairs, fun x hx => ?_⟩
        · simpa only [List.length_append, List.length_cons, List.length_nil] using hreads
        · obtain ⟨p, hp, hlt⟩ := hlines x hx
          refine ⟨p, hp, ?_⟩
          rw [List.count_append] at hlt
          exact hlt
    obtain ⟨node, hnode⟩ : ∃ node, node = (Scope.ofText doc references).node kind pre.length (pre.length + (text b).length) children :=
      ⟨_, rfl⟩
    obtain ⟨p, hp⟩ : ∃ p, p = (Scope.ofText doc references).position pre.length (pre.length + (text b).length) := ⟨_, rfl⟩
    rw [← hp] at hstart hend
    rw [← hnode] at hnext
    have hposition : node.position = some p := by rw [hnode, hp]; rfl
    have htext : Spoken.blockText node budget = some (said b) := by rw [hnode]; exact hnarrated _ _
    have hread : Reads (Scope.ofText doc references) inner true ⟨pre.length, Text.join ['\n', '\n'] ((b :: bs).map text)⟩ (node :: ms) := by
      rw [List.map_cons, hjoin, reads_block (by simp [hhead]) hline]
      exact ⟨node, _, ms, hnext, by rw [hsince]; exact hreads, rfl⟩
    refine ⟨node :: ms, (said b, some p) :: ps, hread, ?_, ?_, ?_, ?_⟩
    · rw [Spoken.passages, htext, hpassages, hposition]
      rfl
    · rw [List.map_cons, List.map_cons, htexts]
    · refine List.pairwise_cons.2 ⟨fun x hx => ?_, hpairs⟩
      obtain ⟨q, hq, hlt⟩ := hlines x hx
      exact ⟨p, q, rfl, hq, by omega⟩
    · intro x hx
      rcases List.mem_cons.1 hx with rfl | hx
      · exact ⟨p, rfl, by omega⟩
      · obtain ⟨q, hq, hlt⟩ := hlines x hx
        rw [List.count_append] at hlt
        exact ⟨q, hq, by omega⟩

/-- The blocks of a page are read one by one. -/
theorem reads_written (references : List Reference) {doc : Text} (hprose : ReadsProse inner) (budget : Nat) (bs : List Block) (pre : Text)
    (hdoc : doc = pre ++ written bs) : ∃ ns ps, Reads (Scope.ofText doc references) inner true ⟨pre.length, written bs⟩ ns ∧
      Spoken.passages ns budget = some ps ∧ ps.map (·.1) = bs.map Block.narrated ∧ ps.Pairwise SetOff ∧
      ∀ x ∈ ps, ∃ p, x.2 = some p ∧ pre.count '\n' < p.startLine := by
  refine reads_join references budget (fun b => ?_) (fun b a rest hrest => (readAs_block hprose hrest a b).readTo) bs pre hdoc
  obtain ⟨c, hc, hblank, -⟩ := head?_block b
  exact ⟨c, hc, hblank⟩

theorem readsProse_innerOf (scope : Scope) {budget : Nat} : ReadsProse (innerOf (budget + 2) scope) := fun _ _ hs hr hne =>
  Content.read_escapeBars budget hs hr hne

end Page

/-! ## Texts that need no cleaning up -/

namespace Spoken
open Text (isBlank)

/-- A text between other characters than blanks that may stand at the front of settled text. -/
structure Fluent (t : Text) : Prop where
  head : ∃ c u, t = c :: u ∧ isBlank c = false ∧ c ≠ ','
  last : ∀ c ∈ t.getLast?, isBlank c = false
  settled : ∀ v, Settled v → Settled (t ++ v)

/-- What may stand between two fluent texts. -/
def Separates (sep : Text) : Prop := ∀ c u, isBlank c = false → c ≠ ',' → Settled (c :: u) → Settled (sep ++ c :: u)

variable {t sep : Text} {ts : List Text}

theorem separates_comma : Separates [',', ' '] := fun _ _ hblank hcomma h => .comma hblank hcomma h

theorem separates_newline : Separates ['\n'] := fun c _ hblank _ h => .newline (by rintro rfl; cases hblank) h

theorem separates_gap : Separates ['\n', '\n'] := fun c _ hblank _ h => .gap (by rintro rfl; cases hblank) h

theorem Fluent.join (hsep : Separates sep) (hne : ts ≠ []) (h : ∀ t ∈ ts, Fluent t) : Fluent (Text.join sep ts) := by
  induction ts with
  | nil => exact absurd rfl hne
  | cons t ts ih =>
    obtain ⟨ht, hts⟩ := List.forall_mem_cons.1 h
    by_cases hnil : ts = []
    · rwa [hnil, Text.join_singleton]
    · obtain ⟨hrest, hlast, hsettled⟩ := ih hnil hts
      rw [Text.join_cons _ _ hnil, List.append_assoc]
      refine ⟨?_, fun c hc => ?_, fun v hv => ?_⟩
      · obtain ⟨c, u, rfl, hc⟩ := ht.head
        exact ⟨c, _, rfl, hc⟩
      · obtain ⟨d, w, hw, -⟩ := hrest
        rw [List.getLast?_append_of_ne_nil _ (by simp [hw]), List.getLast?_append_of_ne_nil _ (by simp [hw])] at hc
        exact hlast c hc
      · obtain ⟨d, w, hw, hblank, hcomma⟩ := hrest
        have hbelow := hsettled v hv
        rw [hw, List.cons_append] at hbelow
        have := ht.settled _ (hsep d (w ++ v) hblank hcomma hbelow)
        rw [hw]
        simpa only [List.append_assoc, List.cons_append] using this

theorem Fluent.cleanUp_eq (h : Fluent t) : cleanUp t = t := by
  obtain ⟨⟨c, u, hhead, hblank, -⟩, hlast, hsettled⟩ := h
  have ht := hsettled [] .nil
  rw [List.append_nil] at ht
  refine ht.cleanUp_eq (fun d hd => ?_) hlast
  rw [hhead] at hd
  cases hd
  exact hblank

theorem fluent_phrase (h : IsPhrase isCellChar t) : Fluent t := by
  obtain ⟨c, u, hcons, hc⟩ := h.exists_cons
  refine ⟨⟨c, u, hcons, not_isBlank_of_isCellChar hc, Page.isCellChar_ne hc rfl⟩,
    fun d hd => not_isBlank_of_isCellChar (h.last d hd), fun v hv => hv.append_left fun d hd => isMark_eq_false.2 ?_⟩
  have hprose := h.isProse_of_mem d hd
  exact ⟨Content.isProse_ne hprose rfl, Content.isProse_ne hprose rfl, Content.isProse_ne hprose rfl, Content.isProse_ne hprose rfl⟩

end Spoken

namespace Page
open Spoken (Fluent)

theorem fluent_rowText {cells : List (Phrase isCellChar)} (hne : cells ≠ []) : Fluent (rowText cells) := by
  refine Fluent.join Spoken.separates_comma (by simpa using hne) fun t ht => ?_
  obtain ⟨cell, -, rfl⟩ := List.mem_map.1 ht
  exact Spoken.fluent_phrase cell.isPhrase

/-- What is narrated of a block is nothing or fluent. -/
theorem fluent_block (b : Block) : b.narrated = [] ∨ Fluent b.narrated := by
  have hwords (phrase : Phrase Char.isAlpha) : Fluent phrase.text :=
    Spoken.fluent_phrase (phrase.isPhrase.imp fun _ => isCellChar_of_isAlpha)
  cases b with
  | heading depth title => exact .inr (hwords title)
  | paragraph prose h => exact .inr (hwords prose)
  | table grid =>
    refine .inr (Fluent.join Spoken.separates_newline (by simp) fun t ht => ?_)
    obtain ⟨cells, hcells, rfl⟩ := List.mem_map.1 ht
    refine fluent_rowText fun hnil => grid.header_ne_nil (List.length_eq_zero_iff.1 ?_)
    rcases List.mem_cons.1 hcells with rfl | hcells
    · rw [hnil, List.length_nil]
    · rw [← grid.length_row cells hcells, hnil, List.length_nil]
  | code lines => exact .inl rfl

theorem cleanUp_narrated (bs : List Block) : Spoken.cleanUp (narrated bs) = narrated bs := by
  by_cases hne : (bs.map Block.narrated).filter (!List.isEmpty ·) = []
  · rw [narrated, hne]
    rfl
  · refine (Fluent.join Spoken.separates_gap hne fun t ht => ?_).cleanUp_eq
    obtain ⟨ht, hsome⟩ := List.mem_filter.1 ht
    obtain ⟨b, -, rfl⟩ := List.mem_map.1 ht
    refine (fluent_block b).resolve_left fun hnil => ?_
    rw [hnil] at hsome
    cases hsome

/-! ## Pages -/

theorem carriage_notMem_line (b : Block) {l : Text} (hl : l ∈ b.lines) : '\r' ∉ l := by
  have hwords (phrase : Phrase Char.isAlpha) : '\r' ∉ phrase.text :=
    (phrase.isPhrase.imp fun _ => isCellChar_of_isAlpha).notMem rfl
  cases b with
  | heading depth title =>
    obtain rfl := List.mem_singleton.1 hl
    have := hwords title
    simp [this]
  | paragraph prose h =>
    obtain rfl := List.mem_singleton.1 hl
    exact hwords prose
  | table grid =>
    rw [Block.lines, List.mem_cons, List.mem_cons] at hl
    rcases hl with rfl | rfl | hl
    · exact notMem_rowLine (by decide) (by decide) _
    · exact notMem_rule (by decide) (by decide) (by decide) (by decide) _
    · obtain ⟨cells, -, rfl⟩ := List.mem_map.1 hl
      exact notMem_rowLine (by decide) (by decide) _
  | code lines =>
    rw [Block.lines, List.mem_append, List.mem_cons, List.mem_singleton] at hl
    rcases hl with (rfl | hl) | rfl
    · decide
    · obtain ⟨line, -, rfl⟩ := List.mem_map.1 hl
      exact line.carriage
    · decide

/-- A page has no carriage returns. -/
theorem carriage_notMem_written (bs : List Block) : '\r' ∉ written bs := by
  intro hmem
  rcases Text.mem_join hmem with hmem | ⟨t, ht, hmem⟩
  · simp at hmem
  · obtain ⟨b, -, rfl⟩ := List.mem_map.1 ht
    rcases Text.mem_join hmem with hmem | ⟨l, hl, hmem⟩
    · simp at hmem
    · exact carriage_notMem_line b hl hmem

/-- A page begins with no front matter. -/
theorem frontMatter?_written (bs : List Block) : Markup.Block.frontMatter? (written bs) = none := by
  have hhead : (written bs).head? ≠ some '-' := by
    cases bs with
    | nil => nofun
    | cons b bs =>
      obtain ⟨c, hc, -, hhyphen⟩ := head?_block b
      obtain ⟨rest, -, hwritten, -⟩ := written_cons b bs
      rw [hwritten, List.head?_append, hc, Option.some_or, ne_eq, Option.some.injEq]
      exact hhyphen
  have hnone : Markup.Block.hyphens? (written bs) = none := by
    rw [Markup.Block.hyphens?, Option.map_eq_none_iff, ← Option.not_isSome_iff_eq_none]
    intro hsome
    obtain ⟨rest, hrest⟩ := Option.isSome_iff_exists.1 hsome
    exact hhead (LineForm.head?_of_after? hrest)
  rw [Markup.Block.frontMatter?, hnone]
  rfl

/-- What is read aloud of a page is what its blocks say, with a blank line between them. -/
theorem extract_written (bs : List Block) : Spoken.extract (written bs) = pure (narrated bs) := by
  obtain ⟨scope, hscope⟩ : ∃ scope, scope = Scope.ofText (written bs) (Reference.collect (written bs)) := ⟨_, rfl⟩
  obtain ⟨ns, ps, hreads, hpassages, htexts, hpairs, -⟩ := reads_written (Reference.collect (written bs))
    (readsProse_innerOf scope) Spoken.flatteningBudget bs [] (List.nil_append _).symm
  rw [← hscope] at hreads
  have hread : Tree.read (written bs) = .ok (scope.node .root 0 (written bs).length ns) := by
    rw [Tree.read_eq_ok (List.nil_append _).symm (show Tree.HasFront _ [] none from ⟨rfl, frontMatter?_written bs⟩), ← hscope]
    exact ⟨ns, hreads, rfl⟩
  have hflat : Spoken.flatten? (scope.node .root 0 (written bs).length ns) = some (narrated bs) := by
    change (Spoken.passages ns _).map _ = _
    rw [hpassages, Option.map_some, Spoken.joinBlocks_setOff hpairs, htexts, narrated]
  rw [Spoken.extract_of_read (carriage_notMem_written bs) hread hflat, cleanUp_narrated]

end Page
end Narration
