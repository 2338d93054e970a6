import Narration.Proofs.Markup.Laid.Tree
import Narration.Proofs.Markup.Origin.Block
import Narration.Proofs.Spoken.CleanUp
import Narration.Spoken

/-!
# What narration consists of

* `Kind.Voices` : nodes whose texts and code consist of characters of some class;
* `Spoken.flatten?_voices`, `Spoken.cleanUp_voices` : narration adds commas, colons, full stops, spaces and line feeds only;
* `Spoken.extract_placeless` : no placeholder of a lifted node is narrated, unless code stands in a paragraph beside words
  that two scans read differently.
-/

namespace Narration

/-- What is narrated of a node of some kind itself consists of characters of some class. -/
def Kind.Voices (p : Char → Prop) : Kind → Prop
  | .text value | .inlineCode value => ∀ c ∈ value, p c
  | _ => True

namespace Spoken
open Text (Pattern substitute)

/-- The characters that narration adds. -/
def isAdded (c : Char) : Bool := c == ',' || c == ':' || c == '.' || c == ' ' || c == '\n'

/-- A class of characters with those that narration adds. -/
def Admits (p : Char → Prop) : Prop := ∀ c, isAdded c → p c

variable {p : Char → Prop} {t : Text}

/-! ## Cleaning up -/

theorem forall_mem_added (hp : Admits p) (ht : ∀ c ∈ t, isAdded c) : ∀ c ∈ t, p c := fun c hc => hp c (ht c hc)

/-- A substitution whose replacements consist of characters of a class keeps to it. -/
theorem substitute_voices {q : Pattern} (hq : ∀ c t n new, (∀ a ∈ c :: t, p a) → q (c :: t) = some (n, new) → ∀ a ∈ new, p a)
    (ht : ∀ c ∈ t, p c) : ∀ c ∈ substitute q t, p c := by
  induction t using substitute_induction (p := q) with
  | nil => exact ht
  | keep c t _ ih =>
    rw [List.forall_mem_cons] at ht ⊢
    exact ⟨ht.1, ih ht.2⟩
  | replace c t n new hmatch ih =>
    rw [List.forall_mem_append]
    exact ⟨hq c t n new ht hmatch, ih fun a ha => ht a (List.mem_cons_of_mem c (List.mem_of_mem_drop ha))⟩

theorem escape?_voices (c : Char) (t : Text) (n : Nat) (new : Text) (ht : ∀ a ∈ c :: t, p a) (h : escape? (c :: t) = some (n, new)) :
    ∀ a ∈ new, p a := by
  unfold escape? at h
  split at h
  · next d rest heq =>
    obtain ⟨-, heq⟩ := Option.ite_none_right_eq_some.1 h
    cases heq
    obtain ⟨rfl, rfl⟩ := List.cons.inj ‹c :: t = _›
    exact List.forall_mem_singleton.2 (ht d (by simp))
  · cases h

theorem trim_voices (ht : ∀ c ∈ t, p c) : ∀ c ∈ Text.trim t, p c := by
  obtain ⟨before, after, heq, -⟩ := Text.exists_trim t
  exact fun c hc => ht c (by rw [heq]; exact List.mem_append_left after (List.mem_append_right before hc))

theorem strayMark?_voices (hp : Admits p) (c : Char) (t : Text) (n : Nat) (new : Text) (h : strayMark? (c :: t) = some (n, new)) :
    ∀ a ∈ new, p a := by
  obtain ⟨-, h⟩ := Option.ite_none_right_eq_some.1 h
  split at h
  · cases h
    exact forall_mem_added hp (by decide)
  · cases h

/-- Cleaning up adds marks and blanks only. -/
theorem cleanUp_voices (hp : Admits p) (ht : ∀ c ∈ t, p c) : ∀ c ∈ cleanUp t, p c := by
  refine trim_voices ?_
  simp only [List.foldl_cons, List.foldl_nil]
  refine substitute_voices (fun c t n new _ h => ?_) (substitute_voices (fun c t n new _ h => ?_)
    (substitute_voices (fun c t n new _ h => ?_) (substitute_voices (fun c t n new _ h => ?_)
    (substitute_voices (fun c t n new _ h => strayMark?_voices hp c t n new h) (substitute_voices escape?_voices ht)))))
  · exact (wideGap?_eq_some h).2.1 ▸ forall_mem_added hp (by decide)
  · exact colonStop?_eq_some h ▸ forall_mem_added hp (by decide)
  · exact (colonCommas?_eq_some h).2.1 ▸ forall_mem_added hp (by decide)
  · exact (commas?_eq_some h).2.2 ▸ forall_mem_added hp (by decide)

/-! ## Flattening -/

mutual

theorem inlineText_voices (hp : Admits p) : (n : Node) → (∀ m ∈ n.walk, m.kind.Voices p) → ∀ c ∈ inlineText n, p c
  | .mk kind children position, h => by
    rw [Node.walk, List.forall_mem_cons] at h
    have hnil : ∀ c ∈ ([] : Text), p c := List.forall_mem_nil _
    cases kind with
    | text value | inlineCode value => exact h.1
    | lineBreak => exact List.forall_mem_singleton.2 (hp '\n' rfl)
    | emphasis | strong | strike | link | image => exact inlineTexts_voices hp children h.2
    | _ => exact hnil

theorem inlineTexts_voices (hp : Admits p) : (ns : List Node) → (∀ m ∈ Node.walkAll ns, m.kind.Voices p) →
    ∀ c ∈ inlineTexts ns, p c
  | [], _ => List.forall_mem_nil _
  | n :: ns, h => by
    rw [Node.walkAll, List.forall_mem_append] at h
    rw [inlineTexts, List.forall_mem_append]
    exact ⟨inlineText_voices hp n h.1, inlineTexts_voices hp ns h.2⟩

end

theorem join_voices (hp : Admits p) {sep : Text} {ts : List Text} (hsep : ∀ c ∈ sep, isAdded c) (hts : ∀ t ∈ ts, ∀ c ∈ t, p c) :
    ∀ c ∈ Text.join sep ts, p c := fun c hc => (Text.mem_join hc).elim (fun h => hp c (hsep c h)) fun ⟨t, ht, h⟩ => hts t ht c h

theorem unlines_voices (hp : Admits p) {ts : List Text} (hts : ∀ t ∈ ts, ∀ c ∈ t, p c) : ∀ c ∈ Text.unlines ts, p c :=
  join_voices hp (by decide) hts

theorem rowText_voices (hp : Admits p) {row : Node} (h : ∀ m ∈ row.walk, m.kind.Voices p) : ∀ c ∈ rowText row, p c := by
  unfold rowText
  dsimp only
  split
  · exact List.forall_mem_nil _
  · refine join_voices hp (by decide) (List.forall_mem_map.2 fun cell hcell => trim_voices (inlineTexts_voices hp _ fun m hm => h m ?_))
    obtain ⟨kind, cells, position⟩ := row
    obtain ⟨kind', children, position'⟩ := cell
    rw [Node.walk]
    refine List.mem_cons_of_mem _ ((Node.mem_walkAll cells).2 ⟨_, hcell, ?_⟩)
    rw [Node.walk]
    exact List.mem_cons_of_mem _ hm

theorem tableText_voices (hp : Admits p) {rows : List Node} (h : ∀ m ∈ Node.walkAll rows, m.kind.Voices p) :
    ∀ c ∈ tableText rows, p c := by
  refine unlines_voices hp fun t ht => ?_
  obtain ⟨row, hrow, rfl⟩ := List.mem_map.1 (List.mem_of_mem_filter ht)
  exact rowText_voices hp fun m hm => h m ((Node.mem_walkAll rows).2 ⟨row, hrow, hm⟩)

theorem joinAfter_voices (hp : Admits p) {before : Option Position} {ps : List Passage} (h : ∀ x ∈ ps, ∀ c ∈ x.1, p c) :
    ∀ c ∈ joinAfter before ps, p c := by
  induction ps generalizing before with
  | nil => exact List.forall_mem_nil _
  | cons x ps ih =>
    obtain ⟨text, position⟩ := x
    obtain ⟨htext, h⟩ := List.forall_mem_cons.1 h
    rw [joinAfter, List.forall_mem_append, List.forall_mem_append]
    refine ⟨⟨?_, htext⟩, ih h⟩
    split <;> exact forall_mem_added hp (by decide)

theorem joinBlocks_voices (hp : Admits p) {ps : List Passage} (h : ∀ x ∈ ps, ∀ c ∈ x.1, p c) : ∀ c ∈ joinBlocks ps, p c := by
  have hfilter : ∀ x ∈ ps.filter (!·.1.isEmpty), ∀ c ∈ x.1, p c := fun x hx => h x (List.mem_of_mem_filter hx)
  unfold joinBlocks
  split
  · exact List.forall_mem_nil _
  · next text position rest heq =>
    rw [heq, List.forall_mem_cons] at hfilter
    rw [List.forall_mem_append]
    exact ⟨hfilter.1, joinAfter_voices hp hfilter.2⟩

mutual

theorem blockText_voices (hp : Admits p) {budget : Nat} {text : Text} : (n : Node) →
    (∀ m ∈ n.walk, m.kind.Voices p) → blockText n budget = some text → ∀ c ∈ text, p c
  | .mk kind children position, h, htext => by
    rw [Node.walk, List.forall_mem_cons] at h
    cases kind with
    | heading | paragraph =>
      cases htext
      exact trim_voices (inlineTexts_voices hp children h.2)
    | list =>
      obtain ⟨-, htext⟩ := Option.ite_none_left_eq_some.1 htext
      obtain ⟨ps, hps, rfl⟩ := Option.map_eq_some_iff.1 htext
      refine unlines_voices hp fun t ht => ?_
      obtain ⟨x, hx, rfl⟩ := List.mem_map.1 (List.mem_of_mem_filter ht)
      exact passages_voices hp children h.2 hps x hx
    | listItem | quote =>
      obtain ⟨-, htext⟩ := Option.ite_none_left_eq_some.1 htext
      obtain ⟨ps, hps, rfl⟩ := Option.map_eq_some_iff.1 htext
      exact joinBlocks_voices hp (passages_voices hp children h.2 hps)
    | table =>
      cases htext
      exact tableText_voices hp h.2
    | _ =>
      cases htext
      exact List.forall_mem_nil _

theorem passages_voices (hp : Admits p) {budget : Nat} {ps : List Passage} : (ns : List Node) →
    (∀ m ∈ Node.walkAll ns, m.kind.Voices p) → passages ns budget = some ps → ∀ x ∈ ps, ∀ c ∈ x.1, p c
  | [], _, hps => by
    cases hps
    exact List.forall_mem_nil _
  | n :: ns, h, hps => by
    rw [Node.walkAll, List.forall_mem_append] at h
    rw [passages] at hps
    obtain ⟨text, htext, hps⟩ := Option.bind_eq_some_iff.1 hps
    obtain ⟨qs, hqs, hps⟩ := Option.bind_eq_some_iff.1 hps
    cases hps
    exact List.forall_mem_cons.2 ⟨blockText_voices hp n h.1 htext, passages_voices hp ns h.2 hqs⟩

end

/-- Flattening adds separators only. -/
theorem flatten?_voices (hp : Admits p) {tree : Node} {text : Text} (h : ∀ m ∈ tree.walk, m.kind.Voices p)
    (htext : flatten? tree = some text) : ∀ c ∈ text, p c := by
  obtain ⟨ps, hps, rfl⟩ := Option.map_eq_some_iff.1 htext
  obtain ⟨kind, children, position⟩ := tree
  rw [Node.walk, List.forall_mem_cons] at h
  exact joinBlocks_voices hp (passages_voices hp children h.2 hps)

/-! ## Placeholders -/

open Markup (Ordinary OrdinarySource Agreed Placeless isPlace placeless_iff)
open Markup.Content (openPlace closePlace)

/-- What is narrated is the flattened tree, or else the text itself, cleaned up. -/
theorem outcome_extract (t : Text) : (extract t).outcome.1 =
    (Tree.parse t).outcome.1.map fun tree => cleanUp ((flatten? tree).getD (Text.crlfToLf t)) := by
  change (Fallible.after (extract t) []).1 = (Fallible.after (Tree.parse t) []).1.map _
  rw [extract, Fallible.after_bind]
  rcases Fallible.after (Tree.parse t) [] with ⟨f | tree, ws⟩
  · rfl
  · change (Fallible.after _ ws).1 = .ok (cleanUp ((flatten? tree).getD _))
    cases flatten? tree <;> rfl

theorem admits_placeless : Admits fun c => isPlace c = false := by
  intro c hc
  simp only [isAdded, Bool.or_eq_true, beq_iff_eq, or_assoc] at hc
  rcases hc with rfl | rfl | rfl | rfl | rfl <;> decide

/-- The nodes of an ordinary text on which two scans agree hold no placeholders. -/
theorem voices_of_stems {tree : Node} (ht : Ordinary t) (hagreed : Agreed t) (h : tree.Stems t) :
    ∀ m ∈ tree.walk, m.kind.Voices fun c => isPlace c = false := by
  intro m hm
  have hstems := h m hm
  generalize m.kind = kind at hstems
  cases kind with
  | text value => exact hstems ht
  | inlineCode value => exact (hstems ht).2 hagreed
  | _ => trivial

/-- No placeholder of a lifted node is narrated of a text in whose paragraphs code stands beside no words that two scans read
differently. -/
theorem extract_placeless (ht : OrdinarySource t) (hagreed : Agreed (Text.crlfToLf t)) :
    (∃ text, (extract t).outcome.1 = .ok text ∧ openPlace ∉ text ∧ closePlace ∉ text) ∨
      ∃ k, (extract t).outcome.1 = .error (.tooManyDigits k) := by
  rw [outcome_extract]
  rcases Tree.exists_parse (Markup.Block.tidy_of_ordinary ht.ordinary) with ⟨tree, htree⟩ | ⟨k, hk⟩
  · left
    rw [htree]
    refine ⟨_, rfl, placeless_iff.1 (cleanUp_voices admits_placeless ?_)⟩
    cases hflat : flatten? tree with
    | none => exact placeless_iff.2 ⟨ht.ordinary.opening, ht.ordinary.closing⟩
    | some text =>
      exact flatten?_voices admits_placeless (voices_of_stems ht.ordinary hagreed (Tree.parse_stems htree)) hflat
  · exact .inr ⟨k, by rw [hk]; rfl⟩

/-- A page with code, an expression and a component in a link. -/
def codePage : Text := "Run \x60make\x60 for \x7bname\x7d, or read [<b>all</b> of it](/all).\n".toList

theorem extract_placeless_codePage : OrdinarySource codePage ∧ Agreed (Text.crlfToLf codePage) ∧
    ((∃ text, (extract codePage).outcome.1 = .ok text ∧ openPlace ∉ text ∧ closePlace ∉ text) ∨
      ∃ k, (extract codePage).outcome.1 = .error (.tooManyDigits k)) := by
  have ht : OrdinarySource codePage := ⟨by decide, by decide, ⟨by decide, by decide, by decide⟩, by decide, by decide⟩
  have hagreed : Agreed (Text.crlfToLf codePage) := (Markup.harmless_of_tails (by decide)).agreed
  exact ⟨ht, hagreed, extract_placeless ht hagreed⟩

/-- A backtick in the target of a link opens code where nodes are lifted, and none in inline content. The code that is read
there holds the placeholder of the expression. -/
theorem extract_backtickTarget :
    OrdinarySource "[a](\x60) \x60 \x7bx\x7d \x60".toList ∧
      (extract "[a](\x60) \x60 \x7bx\x7d \x60".toList).outcome.1.toOption = some ['a', ' ', openPlace, '0', closePlace] := by
  refine ⟨⟨by decide, by decide, ⟨by decide, by decide, by decide⟩, by decide, by decide⟩, by decide +kernel⟩

end Spoken
end Narration
