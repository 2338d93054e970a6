import Narration.Proofs.Markup.Tag
import Narration.Proofs.Spoken.PageBlocks
import Narration.Proofs.Spoken.Recited

/-!
# Components inside each other

* `Element` : a component with what stands in it, one that stands alone, or a paragraph;
* `Element.written`, `Element.nodes` : elements as a document, and the nodes that they are;
* `Closing.findFrom_text` : a search for a closing tag passes whole elements;
* `Closing.find?_closing` : it finds the tag that belongs to an open one;
* `Element.reads_text`, `Element.reads_written` : elements are read as what they are, by recursion on them;
* `Element.parse_forest` : the tree of a document of elements is the elements.
-/

namespace Narration
open Markup
open Text (EndsLine firstLine)

mutual

/-- A node and all below it without their places. -/
def Node.bare : Node → Node
  | .mk kind children _ => .mk kind.bare (Node.bareAll children) none

/-- Several nodes without their places. -/
def Node.bareAll : List Node → List Node
  | [] => []
  | n :: ns => n.bare :: Node.bareAll ns

end

/-- A part of a document that is made of components and paragraphs. -/
inductive Element where
  | component (name : Tag.Name) (entries : List Tag.Entry) (inside : List Element)
  | standing (name : Tag.Name) (entries : List Tag.Entry)
  | paragraph (prose : Phrase Char.isAlpha)

namespace Element

/-- The tag that closes a component. -/
def closing (name : Tag.Name) : Text := '<' :: '/' :: (name.text ++ ['>'])

mutual

/-- An element as it is written. -/
def text : Element → Text
  | component name entries inside =>
    Tag.written false name entries ++ '\n' :: (Text.join ['\n', '\n'] (texts inside) ++ '\n' :: closing name)
  | standing name entries => Tag.written true name entries
  | paragraph prose => prose.text

/-- Several elements as they are written. -/
def texts : List Element → List Text
  | [] => []
  | e :: es => text e :: texts es

end

/-- Elements with blank lines between them. -/
def written (es : List Element) : Text := Text.join ['\n', '\n'] (texts es)

mutual

/-- The node that an element is. -/
def node : Element → Node
  | component name entries inside => .mk (.component name.text (entries.map Tag.Entry.attribute)) (nodes inside) none
  | standing name entries => .leaf (.component name.text (entries.map Tag.Entry.attribute))
  | paragraph prose => .mk .paragraph [.leaf (.text prose.text)] none

/-- The nodes that elements are. -/
def nodes : List Element → List Node
  | [] => []
  | e :: es => node e :: nodes es

end

mutual

/-- What an element takes of the nesting budget. -/
def cost : Element → Nat
  | component _ _ inside => costAll inside + 2
  | standing _ _ => 3
  | paragraph _ => 5

/-- What elements side by side take of it. -/
def costAll : List Element → Nat
  | [] => 3
  | e :: es => max (cost e) (costAll es)

end

/-- Whether an element may be taken for an import or an export. -/
def beginsModules : Element → Bool
  | paragraph prose => Narration.beginsModules prose.words
  | _ => false

theorem three_le_costAll (es : List Element) : 3 ≤ costAll es := by
  induction es with
  | nil => exact Nat.le_refl 3
  | cons e es ih => exact Nat.le_trans ih (Nat.le_max_right _ _)

theorem written_cons (e : Element) (es : List Element) : ∃ rest, written (e :: es) = text e ++ rest ∧
    (es = [] ∧ rest = [] ∨ es ≠ [] ∧ rest = '\n' :: '\n' :: written es) := by
  cases es with
  | nil =>
    refine ⟨[], ?_, .inl ⟨rfl, rfl⟩⟩
    rw [written, texts, texts, Text.join_singleton, List.append_nil]
  | cons k ks =>
    refine ⟨_, ?_, .inr ⟨List.cons_ne_nil _ _, rfl⟩⟩
    rw [written, texts, Text.join_cons _ _ (by simp [texts]), List.append_assoc]
    rfl

end Element

/-! ## Closing tags -/

namespace Markup.Closing
open Element (closing)
open Tag (isNameChar)

variable {name other : Tag.Name} {entries : List Tag.Entry} {t u : Text} {c : Char} {depth o : Nat}

theorem findFrom_skip (name : Text) (depth o : Nat) (u t : Text) :
    findFrom name depth u.length o (u ++ t) = findFrom name depth 0 (o + u.length) t := by
  rw [findFrom_drop, List.drop_left]

theorem findFrom_of_notMem {u : Text} (hu : '<' ∉ u) (name : Text) (depth o : Nat) (t : Text) :
    findFrom name depth 0 o (u ++ t) = findFrom name depth 0 (o + u.length) t := by
  induction u generalizing o with
  | nil => rfl
  | cons c u ih =>
    have hc : c ≠ '<' := fun h => hu (h ▸ List.mem_cons_self)
    rw [List.cons_append, findFrom, if_pos hc, ih fun h => hu (List.mem_cons_of_mem c h), List.length_cons, Nat.add_assoc,
      Nat.add_comm 1]

theorem endsName_of_isNameChar (name : Text) (h : isNameChar c) : endsName name c = false := by
  have hne {d : Char} (hd : isNameChar d = false) : (c == d) = false := by
    refine beq_false_of_ne ?_
    rintro rfl
    rw [h] at hd
    cases hd
  rw [endsName, hne rfl, hne rfl, Tag.isBlank_of_isNameChar h, Bool.or_false, Bool.and_false, Bool.or_false]

theorem endsName_name (name : Tag.Name) (hc : c = ' ' ∨ c = '>') : endsName name.text c := by
  obtain ⟨d, u, hcons, -⟩ := name.exists_cons
  rw [endsName, hcons]
  rcases hc with rfl | rfl <;> rfl

/-- A name is found where it stands, and not where another one does. -/
theorem named?_append (name other : Tag.Name) (hc : c = ' ' ∨ c = '>') (t : Text) :
    named? name.text (other.text ++ c :: t) = if name.text = other.text then some (c :: t) else none := by
  by_cases heq : name.text = other.text
  · have hends := endsName_name name hc
    rw [if_pos heq, ← heq, named?, Text.after?_append, Option.bind_eq_bind, Option.bind_some, List.head?_cons, Option.any_some, hends]
    rfl
  rw [if_neg heq, named?]
  cases hafter : Text.after? name.text (other.text ++ c :: t) with
  | none => rfl
  | some rest =>
    have hout : isNameChar c = false := by rcases hc with rfl | rfl <;> rfl
    rw [Option.bind_eq_bind, Option.bind_some]
    -- the longer of the two names goes on where the shorter one ends
    rcases List.append_eq_append_iff.1 (Text.after?_eq_some.1 hafter) with ⟨a, hname, hrest⟩ | ⟨a, hname, hrest⟩
    · cases a with
      | nil => exact absurd (hname.trans (List.append_nil _)) heq
      | cons d a =>
        obtain ⟨rfl, -⟩ := List.cons.inj hrest
        exact absurd (hname ▸ List.mem_append_right _ List.mem_cons_self) (name.notMem hout)
    · cases a with
      | nil => exact absurd (hname.trans (List.append_nil _)).symm heq
      | cons d a =>
        have hd : isNameChar d := other.isNameChar_of_mem (hname ▸ List.mem_append_right _ List.mem_cons_self)
        rw [hrest, List.cons_append, List.head?_cons, Option.any_some, endsName_of_isNameChar _ hd]
        rfl

theorem after?_slash (name : Tag.Name) (t : Text) : Text.after? ['/'] (name.text ++ t) = none := by
  obtain ⟨c, u, hcons, hc, -⟩ := name.exists_cons
  rw [hcons, List.cons_append, Text.after?, if_neg]
  rintro rfl
  cases hc

theorem named?_slash (name : Tag.Name) (t : Text) : named? name.text ('/' :: t) = none := by
  obtain ⟨c, u, hcons, hc, -⟩ := name.exists_cons
  have hne : c ≠ '/' := by
    rintro rfl
    cases hc
  rw [named?, hcons, Text.after?, if_neg hne]
  rfl

/-- A tag mentions its name only. -/
theorem mention?_written (name other : Tag.Name) (b : Bool) (entries : List Tag.Entry) (t : Text) :
    mention? name.text (other.text ++ (Tag.entriesText entries ++ (Tag.finish b ++ t))) =
      if name.text = other.text then some (false, Tag.entriesText entries ++ (Tag.finish b ++ t)) else none := by
  obtain ⟨d, r, hdr, hd⟩ := Tag.exists_entries entries b t
  rw [mention?, after?_slash, hdr, named?_append name other hd]
  by_cases heq : name.text = other.text <;> simp [heq]

theorem mention?_closing (name other : Tag.Name) (t : Text) : mention? name.text ('/' :: (other.text ++ '>' :: t)) =
    if name.text = other.text then some (true, '>' :: t) else none := by
  have hafter : Text.after? ['/'] ('/' :: (other.text ++ '>' :: t)) = some (other.text ++ '>' :: t) := rfl
  rw [mention?, hafter, Option.bind_some, named?_append name other (.inr rfl), named?_slash]
  by_cases heq : name.text = other.text <;> simp [heq]

/-- A search passes a tag, and goes one deeper when the tag opens a component of the name. -/
theorem findFrom_written (name other : Tag.Name) (b : Bool) (entries : List Tag.Entry) (depth o : Nat) (t : Text) :
    findFrom name.text depth 0 o (Tag.written b other entries ++ t) =
      findFrom name.text (if name.text = other.text ∧ b = false then depth + 1 else depth) 0 (o + (Tag.written b other entries).length) t := by
  have hbody : '<' ∉ other.text ++ (Tag.entriesText entries ++ Tag.finish b) :=
    Tag.notMem_written b other entries rfl (fun e _ v hv => (e.isPlain v hv).2.1) (by decide)
  obtain ⟨body, hdef⟩ : ∃ body, body = other.text ++ (Tag.entriesText entries ++ Tag.finish b) := ⟨_, rfl⟩
  have hwritten : Tag.written b other entries = '<' :: body := by rw [hdef, Tag.written]
  have hmention : mention? name.text (body ++ t) = if name.text = other.text then
      some (false, Tag.entriesText entries ++ (Tag.finish b ++ t)) else none := by
    rw [← mention?_written, hdef, List.append_assoc, List.append_assoc]
  obtain ⟨as, hread, -⟩ := Tag.read?_written b other entries o t
  rw [← hdef] at hbody
  rw [hwritten, List.cons_append] at hread ⊢
  rw [findFrom, if_neg (by simp), hmention, hread]
  by_cases heq : name.text = other.text
  · have hskip : o + ('<' :: body).length - o - 1 = body.length := by
      rw [List.length_cons]
      omega
    simp only [hskip, findFrom_skip, heq, true_and]
    rw [List.length_cons, Nat.add_assoc, Nat.add_comm 1]
    cases b <;> rfl
  · simp only [heq, false_and, if_false, findFrom_of_notMem hbody]
    rw [List.length_cons, Nat.add_assoc, Nat.add_comm 1]

/-- A search ends with the tag that closes the innermost component of the name, and passes others. -/
theorem findFrom_closing (name other : Tag.Name) (depth o : Nat) (t : Text) : findFrom name.text depth 0 o (closing other ++ t) =
    if name.text = other.text then
      if depth ≤ 1 then some (o, o + (closing other).length)
      else findFrom name.text (depth - 1) 0 (o + (closing other).length) t
    else findFrom name.text depth 0 (o + (closing other).length) t := by
  obtain ⟨body, hbody⟩ : ∃ body, body = '/' :: (other.text ++ ['>']) := ⟨_, rfl⟩
  have hclosing : closing other = '<' :: body := by rw [hbody, closing]
  have htext : body ++ t = '/' :: (other.text ++ '>' :: t) := by simp [hbody]
  have hmention := mention?_closing name other t
  rw [← htext] at hmention
  rw [hclosing, List.cons_append, findFrom, if_neg (by simp), hmention]
  by_cases heq : name.text = other.text
  · have hfind : ('>' :: t).findIdx? (· = '>') = some 0 := rfl
    have hlength : (body ++ t).length - ('>' :: t).length + 0 + 1 = body.length := by
      rw [hbody]
      simp only [List.length_append, List.length_cons, List.length_nil]
      omega
    simp only [heq, if_true, hfind, hlength, findFrom_skip]
    rw [List.length_cons, Nat.add_assoc o 1, Nat.add_comm 1]
  · have hopen : '<' ∉ body := by
      rw [hbody]
      simp [other.notMem (d := '<') rfl]
    simp only [heq, if_false, findFrom_of_notMem hopen]
    rw [List.length_cons, Nat.add_assoc, Nat.add_comm 1]

/-- Lines around something that a search passes are passed with it. -/
theorem findFrom_between {name : Text} (h : ∀ o t, findFrom name depth 0 o (u ++ t) = findFrom name depth 0 (o + u.length) t)
    (o : Nat) (t : Text) : findFrom name depth 0 o ('\n' :: (u ++ '\n' :: t)) = findFrom name depth 0 (o + (u.length + 2)) t := by
  have hline (o : Nat) (t : Text) : findFrom name depth 0 o ('\n' :: t) = findFrom name depth 0 (o + 1) t :=
    findFrom_of_notMem (u := ['\n']) (by decide) name depth o t
  rw [hline, h, hline]
  congr 1
  omega

mutual

/-- A search for a closing tag passes a whole element. -/
theorem findFrom_text (name : Tag.Name) : (e : Element) → {depth : Nat} → 1 ≤ depth → (o : Nat) → (t : Text) →
    findFrom name.text depth 0 o (e.text ++ t) = findFrom name.text depth 0 (o + e.text.length) t
  | .component other entries inside, depth, hdepth, o, t => by
    have hinside {depth : Nat} (hdepth : 1 ≤ depth) := findFrom_between fun o t => findFrom_join name inside hdepth o t
    have htext : (Element.component other entries inside).text ++ t =
        Tag.written false other entries ++ '\n' :: (Element.written inside ++ '\n' :: (closing other ++ t)) := by
      simp [Element.text, Element.written]
    have hlength : o + (Element.component other entries inside).text.length =
        o + (Tag.written false other entries).length + ((Element.written inside).length + 2) + (closing other).length := by
      simp only [Element.text, Element.written, List.length_append, List.length_cons]
      omega
    rw [htext, hlength, findFrom_written, hinside (by split <;> omega), findFrom_closing]
    by_cases heq : name.text = other.text
    · simp only [heq, true_and, if_true]
      rw [if_neg (by omega), Nat.add_sub_cancel]
    · simp only [heq, false_and, if_false]
  | .standing other entries, depth, hdepth, o, t => by
    rw [Element.text, findFrom_written, if_neg (by simp)]
  | .paragraph prose, depth, hdepth, o, t => by
    have hopen : '<' ∉ prose.text := (prose.isPhrase.imp fun _ => isCellChar_of_isAlpha).notMem rfl
    rw [Element.text, findFrom_of_notMem hopen]

/-- A search for a closing tag passes elements side by side. -/
theorem findFrom_join (name : Tag.Name) : (es : List Element) → {depth : Nat} → 1 ≤ depth → (o : Nat) → (t : Text) →
    findFrom name.text depth 0 o (Element.written es ++ t) = findFrom name.text depth 0 (o + (Element.written es).length) t
  | [], depth, hdepth, o, t => rfl
  | e :: es, depth, hdepth, o, t => by
    obtain ⟨rest, hwritten, hrest⟩ := Element.written_cons e es
    rw [hwritten, List.append_assoc, findFrom_text name e hdepth]
    rcases hrest with ⟨-, rfl⟩ | ⟨-, rfl⟩
    · rw [List.append_nil, List.nil_append]
    · have hgap : '<' ∉ ['\n', '\n'] := by decide
      have htext : '\n' :: '\n' :: Element.written es ++ t = ['\n', '\n'] ++ (Element.written es ++ t) := rfl
      rw [htext, findFrom_of_notMem hgap, findFrom_join name es hdepth]
      congr 1
      simp only [List.length_append, List.length_cons, List.length_nil]
      omega

end

/-- The tag that closes an open component is the one that belongs to it. -/
theorem find?_closing (name : Tag.Name) (inside : List Element) (o : Nat) (t : Text) :
    find? name.text o ('\n' :: (Element.written inside ++ '\n' :: (closing name ++ t))) =
      some (o + ((Element.written inside).length + 2), o + ((Element.written inside).length + 2) + (closing name).length) := by
  rw [find?, findFrom_between fun o t => findFrom_join name inside (Nat.le_refl 1) o t, findFrom_closing, if_pos rfl, if_pos (Nat.le_refl 1)]

end Markup.Closing

/-! ## How elements are read -/

namespace Element
open Fallible
open Markup.Block (Reads innerOf next readAll Inner)

variable {scope : Scope} {inner : Inner} {name : Tag.Name} {entries : List Tag.Entry} {inside es : List Element} {rest : Text} {a b : Nat}
  {top : Bool}

/-- What may follow an element: nothing, a line feed at the end, or a blank line. -/
def Trails (rest : Text) : Prop := EndsLine rest ∧ EndsLine (rest.drop 1)

theorem head_text (e : Element) : ∃ c u, e.text = c :: u ∧ Text.isBlank c = false ∧ c ≠ '-' := by
  cases e with
  | component name entries inside => exact ⟨'<', _, by rw [text, Tag.written, List.cons_append], rfl, by decide⟩
  | standing name entries => exact ⟨'<', _, by rw [text, Tag.written], rfl, by decide⟩
  | paragraph prose =>
    obtain ⟨c, u, htext, hc⟩ := (prose.isPhrase.imp fun _ => isCellChar_of_isAlpha).exists_cons
    exact ⟨c, u, htext, not_isBlank_of_isCellChar hc, Page.isCellChar_ne hc rfl⟩

theorem next_component {b : Bool} {t : Text} (top : Bool) (a : Nat) (h : ∃ u, t = Tag.written b name entries ++ u) :
    next scope inner top ⟨a, t⟩ = Block.component? scope inner ⟨a, t⟩ >>= fun r => Block.orParagraph scope inner ⟨a, t⟩ r := by
  obtain ⟨u, rfl⟩ := h
  obtain ⟨c, v, hname, hc, -⟩ := name.exists_cons
  have htext : Tag.written b name entries ++ u = '<' :: c :: (v ++ (Tag.entriesText entries ++ Tag.finish b) ++ u) := by
    simp [Tag.written, hname]
  have hne : c ≠ '\n' := by
    rintro rfl
    cases hc
  have hfirst : firstLine (Tag.written b name entries ++ u) =
      '<' :: c :: firstLine (v ++ (Tag.entriesText entries ++ Tag.finish b) ++ u) := by
    rw [htext, firstLine, List.takeWhile_cons_of_pos (by decide), List.takeWhile_cons_of_pos (by simpa using hne)]
  have hstart : (⟨a, Tag.written b name entries ++ u⟩ : Stretch).trimStart = ⟨a, Tag.written b name entries ++ u⟩ := by
    refine Stretch.trimStart_eq_self ?_
    rw [htext]
    exact List.dropWhile_cons_of_neg (by decide)
  rw [Block.next_mk, hfirst, Block.readerOf_component hc, Block.Reader.read, hstart]

theorem lineBlank_of_endsLine (h : EndsLine rest) (a : Nat) : (⟨a, rest⟩ : Stretch).lineBlank := by
  rcases h with rfl | ⟨v, rfl⟩ <;> rfl

/-- A component that stands alone is read as what it is. -/
theorem next_standing (name : Tag.Name) (entries : List Tag.Entry) (top : Bool) (a : Nat) (h : EndsLine rest) :
    ∃ as, next scope inner top ⟨a, text (standing name entries) ++ rest⟩ =
      .ok (scope.node (.component name.text as) a (a + (text (standing name entries)).length), a + (text (standing name entries)).length) ∧
    as.map Attribute.bare = entries.map Tag.Entry.attribute := by
  obtain ⟨as, hread, has⟩ := Tag.read?_written true name entries a rest
  refine ⟨as, ?_, has⟩
  have hafter : (⟨a, Tag.written true name entries ++ rest⟩ : Stretch).since (a + (Tag.written true name entries).length) =
      ⟨a + (Tag.written true name entries).length, rest⟩ := by
    rw [Block.since_mk _ _ _ (by simp), List.drop_left]
  rw [text, next_component top a ⟨rest, rfl⟩, Block.component?, hread]
  simp only [hafter, lineBlank_of_endsLine h, Bool.false_eq_true, if_false, if_true]
  rfl

/-- A component is read with the blocks that stand in it. -/
theorem next_open (name : Tag.Name) (entries : List Tag.Entry) (inside : List Element) (top : Bool) (a : Nat) (h : EndsLine rest)
    {children : List Node} (hchildren : inner.blocks ⟨a + (Tag.written false name entries).length, '\n' :: (written inside ++ ['\n'])⟩ =
      .ok children) : ∃ as, next scope inner top ⟨a, text (component name entries inside) ++ rest⟩ =
      .ok (scope.node (.component name.text as) a (a + (text (component name entries inside)).length) children,
        a + (text (component name entries inside)).length) ∧
    as.map Attribute.bare = entries.map Tag.Entry.attribute := by
  obtain ⟨u, hu⟩ : ∃ u, u = '\n' :: (written inside ++ ['\n']) := ⟨_, rfl⟩
  obtain ⟨w, hw⟩ : ∃ w, w = Tag.written false name entries := ⟨_, rfl⟩
  have htext : text (component name entries inside) ++ rest = w ++ (u ++ (closing name ++ rest)) := by
    simp [text, written, hu, hw]
  have hlength : a + (text (component name entries inside)).length = a + (w.length + (u.length + (closing name).length)) := by
    simp only [text, written, hu, hw, List.length_append, List.length_cons, List.length_nil]
    omega
  obtain ⟨as, hread, has⟩ := Tag.read?_written false name entries a (u ++ (closing name ++ rest))
  have hfind : Closing.find? name.text (a + w.length) (u ++ (closing name ++ rest)) =
      some (a + w.length + u.length, a + w.length + u.length + (closing name).length) := by
    have hfound := Closing.find?_closing name inside (a + w.length) rest
    rw [hu]
    simpa using hfound
  have hafter : (⟨a, w ++ (u ++ (closing name ++ rest))⟩ : Stretch).since (a + w.length) = ⟨a + w.length, u ++ (closing name ++ rest)⟩ := by
    rw [Block.since_mk _ _ _ (by simp), List.drop_left]
  have hbehind : (⟨a, w ++ (u ++ (closing name ++ rest))⟩ : Stretch).since (a + w.length + u.length + (closing name).length) =
      ⟨a + (w ++ (u ++ closing name)).length, rest⟩ := by
    have hstop : a + w.length + u.length + (closing name).length = a + (w ++ (u ++ closing name)).length := by
      simp only [List.length_append]
      omega
    have hparts : w ++ (u ++ (closing name ++ rest)) = w ++ (u ++ closing name) ++ rest := by simp
    rw [hstop, hparts, Block.since_mk _ _ _ (by simp), List.drop_left]
  have hinside : (⟨a + w.length, u ++ (closing name ++ rest)⟩ : Stretch).till (a + w.length + u.length) = ⟨a + w.length, u⟩ := by
    rw [Stretch.till, Nat.add_sub_cancel_left, Stretch.take, List.take_left]
  have hlines : u.contains '\n' = true := by simp [hu]
  refine ⟨as, ?_, has⟩
  rw [← hu, ← hw] at hchildren
  rw [← hw] at hread
  rw [hlength, htext, next_component top a ⟨_, congrArg (· ++ _) hw⟩, Block.component?, hread]
  simp only [hafter, hfind, hbehind, hinside, lineBlank_of_endsLine h, hlines, hchildren, Bool.false_eq_true, if_false, if_true]
  have hstop : a + w.length + u.length + (closing name).length = a + (w.length + (u.length + (closing name).length)) := by omega
  rw [hstop]
  rfl

theorem trails_nil : Trails [] := ⟨.inl rfl, .inl rfl⟩

theorem trails_newline : Trails ['\n'] := ⟨.inr ⟨_, rfl⟩, .inl rfl⟩

theorem trails_gap (t : Text) : Trails ('\n' :: '\n' :: t) := ⟨.inr ⟨_, rfl⟩, .inr ⟨_, rfl⟩⟩

theorem Trails.paragraphEnd_eq (h : Trails rest) (a fuel last : Nat) :
    Block.paragraphEnd (fuel + 1) last ⟨a, rest.drop 1⟩ = (last, .other, ⟨a, rest.drop 1⟩) := by
  have hblank : (⟨a, rest.drop 1⟩ : Stretch).line.trim.chars = [] := by
    rcases h.2 with h | ⟨v, h⟩ <;> rw [h] <;> rfl
  rw [Block.paragraphEnd, if_pos (by rw [hblank]; simp)]

/-- The end of the line of an element is read with the element or after it. -/
theorem Trails.reads (h : Trails rest) (a : Nat) (ns : List Node) :
    Reads scope inner top ⟨a + min 1 rest.length, rest.drop 1⟩ ns ↔ Reads scope inner top ⟨a, rest⟩ ns := by
  rcases h.1 with rfl | ⟨v, rfl⟩
  · rfl
  · exact (Block.reads_newline a v).symm

mutual

/-- An element is read as what it is, at any place of a document. -/
theorem reads_text : (e : Element) → {b : Nat} → cost e ≤ b + 3 → (scope : Scope) → {top : Bool} → (top → e.beginsModules = false) →
    (a : Nat) → {rest : Text} → Trails rest → ∃ n stop, next scope (innerOf b scope) top ⟨a, e.text ++ rest⟩ = .ok (n, stop) ∧
      n.bare = e.node ∧ (stop = a + e.text.length ∨ stop = a + e.text.length + min 1 rest.length)
  | component name entries inside, b, hcost, scope, top, _, a, rest, h => by
    rw [cost] at hcost
    have hthree := three_le_costAll inside
    obtain ⟨b, rfl⟩ := Nat.exists_eq_add_of_le' (show 2 ≤ b by omega)
    obtain ⟨ns, hreads, hns⟩ := @reads_written inside b (by omega) scope false nofun
      (a + (Tag.written false name entries).length + 1) _ (.inr rfl)
    have hinside : readAll (b + 3) false scope ⟨a + (Tag.written false name entries).length, '\n' :: (written inside ++ ['\n'])⟩ = .ok ns :=
      Block.readAll_eq_ok.2 ((Block.reads_newline _ _).2 hreads)
    obtain ⟨as, hnext, has⟩ := @next_open scope (innerOf (b + 2) scope) _ name entries inside top a h.1 _ hinside
    refine ⟨_, _, hnext, ?_, .inl rfl⟩
    rw [Scope.node, Node.bare, Kind.bare, has, hns, node]
  | standing name entries, b, hcost, scope, top, _, a, rest, h => by
    obtain ⟨as, hnext, has⟩ := @next_standing scope (innerOf b scope) _ name entries top a h.1
    refine ⟨_, _, hnext, ?_, .inl rfl⟩
    rw [Scope.node, Node.bare, Kind.bare, has, node]
    rfl
  | paragraph prose, b, hcost, scope, top, htop, a, rest, h => by
    rw [cost] at hcost
    obtain ⟨b, rfl⟩ := Nat.exists_eq_add_of_le' (show 2 ≤ b by omega)
    exact ⟨_, _, Page.next_words (Page.readsProse_innerOf scope) prose.isPhrase (fun ht => not_isModules_of_beginsModules (htop ht)) h.1
      (h.paragraphEnd_eq _), rfl, .inr rfl⟩

/-- Elements side by side are read one by one. -/
theorem reads_written : (es : List Element) → {b : Nat} → costAll es ≤ b + 3 → (scope : Scope) → {top : Bool} →
    (top → ∀ e ∈ es, e.beginsModules = false) → (a : Nat) → {rest : Text} → rest = [] ∨ rest = ['\n'] →
    ∃ ns, Reads scope (innerOf b scope) top ⟨a, written es ++ rest⟩ ns ∧ Node.bareAll ns = nodes es
  | [], b, hcost, scope, top, _, a, rest, h => by
    refine ⟨[], ?_, rfl⟩
    rcases h with rfl | rfl
    · exact (Block.reads_nil rfl).2 rfl
    · exact (Block.reads_newline a []).2 ((Block.reads_nil rfl).2 rfl)
  | e :: es, b, hcost, scope, top, htop, a, rest, h => by
    rw [costAll] at hcost
    obtain ⟨below, hwritten, hbelow⟩ := written_cons e es
    have htrails : Trails (below ++ rest) := by
      rcases hbelow with ⟨-, rfl⟩ | ⟨-, rfl⟩
      · rcases h with rfl | rfl
        · exact trails_nil
        · exact trails_newline
      · exact trails_gap _
    obtain ⟨n, stop, hnext, hn, hstop⟩ := reads_text e (b := b) (by omega) scope (fun ht => htop ht e List.mem_cons_self) a htrails
    obtain ⟨ns, hreads, hns⟩ : ∃ ns, Reads scope (innerOf b scope) top ⟨a + e.text.length, below ++ rest⟩ ns ∧ Node.bareAll ns = nodes es := by
      rcases hbelow with ⟨rfl, rfl⟩ | ⟨-, rfl⟩
      · exact reads_written [] (b := b) (by omega) scope (fun _ => nofun) (a + e.text.length) h
      · obtain ⟨ns, hreads, hns⟩ := reads_written es (b := b) (by omega) scope (fun ht k hk => htop ht k (List.mem_cons_of_mem e hk))
          (a + e.text.length + 1 + 1) h
        exact ⟨ns, (Block.reads_newline _ _).2 ((Block.reads_newline _ _).2 hreads), hns⟩
    have hsince : Reads scope (innerOf b scope) top ((⟨a, e.text ++ (below ++ rest)⟩ : Stretch).since stop) ns := by
      rcases hstop with rfl | rfl
      · rwa [Block.since_mk _ _ _ (by simp), List.drop_left]
      · have hle : e.text.length + min 1 (below ++ rest).length ≤ (e.text ++ (below ++ rest)).length := by
          simp only [List.length_append]
          omega
        have hdrop : (e.text ++ (below ++ rest)).drop (e.text.length + min 1 (below ++ rest).length) = (below ++ rest).drop 1 := by
          rw [List.drop_length_add_append]
          rcases htrails.1 with hnil | ⟨v, hv⟩
          · rw [hnil]
            rfl
          · rw [hv, List.length_cons, Nat.min_eq_left (Nat.le_add_left 1 _)]
        rw [Nat.add_assoc, Block.since_mk _ _ _ hle, hdrop, ← Nat.add_assoc]
        exact (htrails.reads _ ns).2 hreads
    obtain ⟨c, u, hhead, hblank, -⟩ := head_text e
    have hline : (⟨a, e.text ++ (below ++ rest)⟩ : Stretch).lineBlank = false := by
      have hne : c ≠ '\n' := by
        rintro rfl
        cases hblank
      rw [Block.lineBlank_mk, hhead, List.cons_append, firstLine, List.takeWhile_cons_of_pos (by simpa using hne), Text.allBlank,
        List.all_cons, hblank, Bool.false_and]
    refine ⟨n :: ns, ?_, by rw [Node.bareAll, hn, hns, nodes]⟩
    rw [hwritten, List.append_assoc]
    exact (Block.reads_block (by simp [hhead]) hline).2 ⟨n, stop, ns, hnext, hsince, rfl⟩

end

/-! ## Documents of elements -/

mutual

theorem carriage_notMem_text : (e : Element) → '\r' ∉ e.text
  | component name entries inside => by
    have hname := name.notMem (d := '\r') rfl
    have htag := Tag.notMem_written (d := '\r') false name entries rfl (fun e _ v hv => (e.isPlain v hv).2.2) (by decide)
    have hinside := carriage_notMem_written inside
    rw [written] at hinside
    simp only [List.mem_append, not_or] at htag
    simp [text, Tag.written, closing, htag, hinside]
  | standing name entries => by
    have htag := Tag.notMem_written (d := '\r') true name entries rfl (fun e _ v hv => (e.isPlain v hv).2.2) (by decide)
    rw [text, Tag.written]
    simpa using htag
  | paragraph prose => (prose.isPhrase.imp fun _ => isCellChar_of_isAlpha).notMem rfl

theorem carriage_notMem_written : (es : List Element) → '\r' ∉ written es
  | [] => List.not_mem_nil
  | e :: es => by
    obtain ⟨rest, hwritten, hrest⟩ := written_cons e es
    have htext := carriage_notMem_text e
    have hbelow := carriage_notMem_written es
    rw [hwritten]
    rcases hrest with ⟨-, rfl⟩ | ⟨-, rfl⟩ <;> simp [htext, hbelow]

end

theorem frontMatter?_written (es : List Element) : Block.frontMatter? (written es) = none := by
  cases es with
  | nil => rfl
  | cons e es =>
    obtain ⟨rest, hwritten, -⟩ := written_cons e es
    obtain ⟨c, u, hhead, -, hhyphen⟩ := head_text e
    have hnone : Block.hyphens? (written (e :: es)) = none := by
      rw [hwritten, hhead, List.cons_append, Block.hyphens?, Text.after?, if_neg hhyphen.symm, Option.map_none]
    rw [Block.frontMatter?, hnone]
    rfl

/-- The tree of a document of elements is the elements: the same kinds, names, attributes and texts, inside each other in the same way. -/
theorem parse_forest (htop : ∀ e ∈ es, e.beginsModules = false) (hcost : costAll es ≤ Tree.nestingBudget) :
    ∃ tree, Tree.parse (written es) = pure tree ∧ tree.bare = .mk .root (nodes es) none := by
  obtain ⟨scope, hscope⟩ : ∃ scope, scope = Scope.ofText (written es) (Reference.collect (written es)) := ⟨_, rfl⟩
  obtain ⟨ns, hreads, hns⟩ := @reads_written es 957 hcost scope true (fun _ => htop) 0 _ (.inl rfl)
  rw [List.append_nil] at hreads
  have hread : Tree.read (written es) = .ok (scope.node .root 0 (written es).length ns) := by
    rw [Tree.read, ← hscope, Tree.blocks, frontMatter?_written]
    exact bind_eq_ok.2 ⟨ns, Block.readAll_eq_ok.2 hreads, rfl⟩
  refine ⟨_, Tree.parse_eq (by rw [Text.crlfToLf_of_notMem (carriage_notMem_written es), hread]), ?_⟩
  rw [Scope.node, Node.bare, hns]
  rfl

/-- A component inside one of its own name, next to one whose name begins alike; a value with a bracket and a line feed. -/
def tabs : List Element :=
  [component ⟨"Tab".toList, by decide⟩
    [⟨"title".toList, some "a>b\n\x7b".toList, by decide, by simp⟩, ⟨"open".toList, none, by decide, nofun⟩]
    [component ⟨"Tab".toList, by decide⟩ [] [], standing ⟨"Tab.Item".toList, by decide⟩ [⟨"last".toList, none, by decide, nofun⟩],
      paragraph ⟨["import".toList, "this".toList], by decide, by decide, by decide⟩]]

theorem parse_forest_tabs : (∀ e ∈ tabs, e.beginsModules = false) ∧ costAll tabs ≤ Tree.nestingBudget ∧
    ∃ tree, Tree.parse "<Tab title=\"a>b\n\x7b\" open>\n<Tab>\n\n</Tab>\n\n<Tab.Item last />\n\nimport this\n</Tab>".toList = pure tree ∧
      tree.bare = .mk .root [.mk (.component "Tab".toList [⟨"title".toList, some (.literal "a>b\n\x7b".toList), none⟩,
          ⟨"open".toList, none, none⟩])
        [.mk (.component "Tab".toList []) [] none, .leaf (.component "Tab.Item".toList [⟨"last".toList, none, none⟩]),
          .mk .paragraph [.leaf (.text "import this".toList)] none] none] none :=
  ⟨by decide, by decide, @parse_forest tabs (by decide) (by decide)⟩

end Element
end Narration
