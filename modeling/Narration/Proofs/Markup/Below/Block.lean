import Narration.Markup.Block
import Narration.Proofs.Markup.Below.Content
import Narration.Proofs.Markup.LineForm
import Narration.Proofs.Markup.Stretch

/-!
# Blocks further down in a text

Blocks are the same wherever the text stands in which they are read, up to their places.

* `Block.Reader` : the readers of blocks, and what each makes of a stretch;
* `Block.earlyReader?`, `Block.lateReader`, `Block.readerOf` : the reader that the first line asks for;
* `Block.next_eq` : the next block is what that reader makes;
* `Block.earlyReader?_of_head` : lines that do not tell their reader on their own;
* `Block.readerOf_isEarly` : lines that do;
* `Block.readerOf_component` : lines that begin with a tag;
* `Block.Inner.Below` : insides of containers that are read alike further down;
* `Block.next_below` : the next block;
* `Block.readAll_below` : all blocks of a text.
-/

/-! ## Readers of blocks -/

namespace Narration.Markup.Block

/-- The readers of blocks, each with what it takes from the first line. -/
inductive Reader where
  | modules
  | fence (mark : Char) (length : Nat)
  | comment
  | expression
  | component
  | heading (depth place length : Nat)
  | rawLine
  | table
  | quote
  | list
  | paragraph
  deriving DecidableEq

/-- The reader that a line asks for whatever the line below is. -/
def earlyReader? (top : Bool) (line : Text) : Option Reader :=
  let t := Text.trim line
  let near := Text.indent line < 4
  if top && Text.indent line = 0 && LineForm.isModules line then some .modules
  else match (if near then LineForm.fence? t else none) with
  | some (mark, length) => some (.fence mark length)
  | none =>
  if LineForm.isComment t then some .comment
  else if t.head? = some '\x7b' then some .expression
  else if LineForm.opensTag t then some .component
  else match (if near then LineForm.heading? t else none) with
  | some (depth, place, length) => some (.heading depth place length)
  | none => if near && LineForm.isRule t then some .rawLine else none

/-- The reader that another line asks for. `table` tells whether the line below makes a table. -/
def lateReader (line : Text) (table : Bool) : Reader :=
  let t := Text.trim line
  let near := Text.indent line < 4
  if table then .table
  else if near && t.head? = some '>' then .quote
  else if near && (LineForm.marker? t).isSome then .list
  else if near && LineForm.isDefinition t then .rawLine
  else .paragraph

/-- The reader that a line asks for. `table` tells whether the line below makes a table. -/
def readerOf (top : Bool) (line : Text) (table : Bool) : Reader :=
  (earlyReader? top line).getD (lateReader line table)

/-- Whether a reader is asked for by the first line alone. -/
def Reader.isEarly : Reader → Bool
  | modules | fence .. | comment | expression | component | heading .. => true
  | _ => false

/-- A reader that the first line alone asks for does not depend on the line below. -/
theorem readerOf_isEarly {top table : Bool} {line : Text} {r : Reader} (h : readerOf top line table = r) (hr : r.isEarly)
    (table' : Bool) : readerOf top line table' = r := by
  cases hearly : earlyReader? top line with
  | some r =>
    rw [readerOf, hearly, Option.getD_some] at h ⊢
    exact h
  | none =>
    rw [readerOf, hearly, Option.getD_none] at h
    subst h
    simp only [lateReader] at hr
    repeat' split at hr
    all_goals cases hr

variable (scope : Scope) (inner : Inner) (s : Stretch)

/-- The first line as a node of its own. -/
def rawLine : Result :=
  (scope.node (.raw (Text.trim s.line.chars)) s.trimStart.start s.line.stop, s.afterLine.start)

/-- A block, or a paragraph where there is none. -/
def orParagraph : Option Result → Except Fault Result
  | some result => .ok result
  | none => paragraph scope inner s

/-- What a reader makes of a stretch. -/
def Reader.read : Reader → Except Fault Result
  | modules => .ok (Block.modules scope s)
  | fence mark length => .ok (Block.fence scope s mark length)
  | comment => Block.orParagraph scope inner s (comment? scope s.trimStart)
  | expression => Block.orParagraph scope inner s (expression? scope s.trimStart)
  | component => do Block.orParagraph scope inner s (← component? scope inner s.trimStart)
  | heading depth place length => Block.heading scope inner s depth place length
  | rawLine => .ok (Block.rawLine scope s)
  | table => Block.table scope inner s
  | quote => Block.quote scope inner s
  | list => Block.list scope inner s
  | paragraph => Block.paragraph scope inner s

/-- The choice of a reader that looks at the first line only comes first. -/
theorem read_getD_ite (c : Prop) [Decidable c] (early early' : Option Reader) (late : Reader) :
    ((if c then early else early').getD late).read scope inner s =
      if c then (early.getD late).read scope inner s else (early'.getD late).read scope inner s := by
  split <;> rfl

theorem next_eq (top : Bool) :
    next scope inner top s = (readerOf top s.line.chars (isTable s)).read scope inner s := by
  have ht : s.line.trim.chars = Text.trim s.line.chars := s.line.chars_trim
  simp only [next, readerOf, earlyReader?, ht, read_getD_ite]
  refine ite_congr rfl (fun _ => rfl) fun _ => ?_
  cases if Text.indent s.line.chars < 4 then LineForm.fence? (Text.trim s.line.chars) else none with
  | some r => rfl
  | none =>
    dsimp only
    simp only [read_getD_ite]
    refine ite_congr rfl (fun _ => rfl) fun _ => ite_congr rfl (fun _ => rfl) fun _ => ?_
    refine ite_congr rfl (fun _ => rfl) fun _ => ?_
    cases if Text.indent s.line.chars < 4 then LineForm.heading? (Text.trim s.line.chars) else none with
    | some r => rfl
    | none =>
      simp only [read_getD_ite, Option.getD_some, Option.getD_none, lateReader, apply_ite (Reader.read scope inner s)]
      rfl

/-- The marks in front of lines that tell their reader on their own, modules and rules apart. -/
def earlyMarks : List Char := ['\x60', '~', '<', '\x7b', '#']

theorem earlyReader?_of_head {top : Bool} {line : Text} (hmodules : top → LineForm.isModules line = false)
    (hmarks : ∀ c ∈ earlyMarks, (Text.trim line).head? ≠ some c) (hrule : LineForm.isRule (Text.trim line) = false) :
    earlyReader? top line = none := by
  have hfirst : (top && decide (Text.indent line = 0) && LineForm.isModules line) = false := by
    cases top with
    | false => rfl
    | true => rw [hmodules rfl, Bool.and_false]
  have hfence : LineForm.fence? (Text.trim line) = none :=
    LineForm.fence?_eq_none (hmarks _ (by decide)) (hmarks _ (by decide))
  have hcomment : LineForm.isComment (Text.trim line) = false := by
    rw [← Bool.not_eq_true]
    exact fun h => hmarks '<' (by decide) (LineForm.head?_of_isComment h)
  have hopens : LineForm.opensTag (Text.trim line) = false := by
    rw [← Bool.not_eq_true]
    exact fun h => hmarks '<' (by decide) (LineForm.head?_of_opensTag h)
  have hheading : LineForm.heading? (Text.trim line) = none := by
    cases h : LineForm.heading? (Text.trim line) with
    | none => rfl
    | some r => exact absurd (LineForm.head?_of_heading? h) (hmarks _ (by decide))
  have hbrace : (Text.trim line).head? ≠ some '\x7b' := hmarks _ (by decide)
  simp only [earlyReader?, hfirst, hfence, hcomment, hopens, hheading, hrule, hbrace, Bool.and_false, Bool.false_eq_true,
    if_false, ite_self]

/-- A line whose mark is an angle bracket or a brace asks neither for modules nor for a fence. -/
theorem notModules_of_mark {top : Bool} {line : Text} {c : Char} (h : (Text.trim line).head? = some c) (hc : c = '<' ∨ c = '\x7b') :
    (top && decide (Text.indent line = 0) && LineForm.isModules line) = false ∧ LineForm.fence? (Text.trim line) = none := by
  have hne (d : Char) (hd : d ∉ ['<', '\x7b']) : c ≠ d := by
    rintro rfl
    simp only [List.mem_cons, List.not_mem_nil, or_false] at hd
    exact hd hc
  constructor
  · rw [← Bool.not_eq_true, Bool.and_eq_true, Bool.and_eq_true, decide_eq_true_eq]
    rintro ⟨⟨-, hindent⟩, hm⟩
    have hstart : Text.trimStart line = line := by rw [← Text.drop_indent, hindent, List.drop_zero]
    have hhead := Text.head?_of_trimEnd h
    rw [hstart] at hhead
    rcases LineForm.head?_of_isModules hm with hm | hm
    · exact hne _ (by decide) (Option.some.inj (hhead.symm.trans hm))
    · exact hne _ (by decide) (Option.some.inj (hhead.symm.trans hm))
  · refine LineForm.fence?_eq_none ?_ ?_ <;> rw [h, ne_eq, Option.some.injEq]
    · exact hne _ (by decide)
    · exact hne _ (by decide)

theorem readerOf_isComment {top table : Bool} {line : Text} (h : LineForm.isComment (Text.trim line)) :
    readerOf top line table = .comment := by
  obtain ⟨hmodules, hfence⟩ := @notModules_of_mark top line _ (LineForm.head?_of_isComment h) (.inl rfl)
  simp [readerOf, earlyReader?, hmodules, hfence, h]

/-- A line whose mark is a brace asks for an expression. -/
theorem readerOf_brace {top table : Bool} {line : Text} (h : (Text.trim line).head? = some '\x7b') :
    readerOf top line table = .expression := by
  obtain ⟨hmodules, hfence⟩ := @notModules_of_mark top line _ h (.inr rfl)
  have hcomment : LineForm.isComment (Text.trim line) = false := by
    rw [← Bool.not_eq_true]
    intro hcomment
    have hbracket := LineForm.head?_of_isComment hcomment
    rw [h] at hbracket
    cases hbracket
  simp [readerOf, earlyReader?, hmodules, hfence, hcomment, h]

theorem readerOf_opensTag {top table : Bool} {line : Text} (h : LineForm.opensTag (Text.trim line)) :
    readerOf top line table = .component := by
  have hhead := LineForm.head?_of_opensTag h
  obtain ⟨hmodules, hfence⟩ := @notModules_of_mark top line _ hhead (.inl rfl)
  have hcomment : LineForm.isComment (Text.trim line) = false := LineForm.isComment_of_opensTag h
  simp [readerOf, earlyReader?, hmodules, hfence, hcomment, hhead, h]

/-- A line that begins with a tag asks for a component. -/
theorem readerOf_component {d : Char} {u : Text} {top table : Bool} (hd : d.isAlpha) :
    readerOf top ('<' :: d :: u) table = .component := by
  have hblank := Text.isBlank_of_isAlpha hd
  obtain ⟨u', hu'⟩ := Text.trimEnd_cons_cons hblank '<' u
  have htrim : Text.trim ('<' :: d :: u) = '<' :: d :: u' := hu'
  refine readerOf_opensTag ?_
  rw [htrim]
  unfold LineForm.opensTag
  split
  · next heq =>
    cases heq
    cases hd
  · next heq =>
    cases heq
    rw [hd, Bool.true_or]
  · next hnot => exact absurd rfl (hnot d u')

end Narration.Markup.Block

namespace Narration.Markup.Block
open Fallible Node

/-- Readers of the insides of containers that make the same nodes further down. -/
structure Inner.Below (inner inner' : Inner) (k : Nat) (v : Position.Views) : Prop where
  content : ∀ s, Agree (Same v) (inner.content s) (inner'.content (s.shift k))
  blocks : ∀ s, Agree (Same v) (inner.blocks s) (inner'.blocks (s.shift k))
  parts : ∀ parts, Agree (Same v) (inner.parts parts) (inner'.parts (parts.map (·.shift k)))

/-- The same block further down. -/
def ResultBelow (k : Nat) (v : Position.Views) (r r' : Result) : Prop :=
  r'.1.outline v.there = r.1.outline v.here ∧ r'.2 = r.2 + k

variable {scope scope' : Scope} {k : Nat} {v : Position.Views} {inner inner' : Inner} (s : Stretch)

/-! ## Lines -/

theorem fenceEnd?_shift (mark : Char) (length fuel : Nat) :
    fenceEnd? mark length fuel (s.shift k) = (fenceEnd? mark length fuel s).map (·.shift k) := by
  induction fuel generalizing s with
  | zero => rfl
  | succ fuel ih =>
    simp only [fenceEnd?, Stretch.chars_shift, Stretch.line_shift, Stretch.trim_shift, Stretch.afterLine_shift, ih]
    split
    · rfl
    · split <;> rfl

theorem cells_shift (before : Char) (o : Nat) (cell t : Text) (ho : cell.length ≤ o) :
    cells before (o + k) cell t = (cells before o cell t).map (·.shift k) := by
  induction t generalizing before o cell with
  | nil => simp only [cells, List.map_cons, List.map_nil, Stretch.shift, Nat.sub_add_comm ho]
  | cons c t ih =>
    simp only [cells, Nat.add_right_comm o k]
    split
    · rw [List.map_cons, ih c _ [] (Nat.zero_le _), Nat.sub_add_comm ho, Stretch.shift]
    · exact ih c _ _ (Nat.succ_le_succ ho)

/-- What ended a paragraph, further down. -/
def ParagraphEnd.shift (k : Nat) : ParagraphEnd → ParagraphEnd
  | underline depth line => underline depth (line.shift k)
  | other => other

theorem paragraphEnd_shift (fuel last : Nat) :
    paragraphEnd fuel (last + k) (s.shift k) =
      (fun (last, ending, rest) => (last + k, ending.shift k, rest.shift k)) (paragraphEnd fuel last s) := by
  induction fuel generalizing last s with
  | zero => rfl
  | succ fuel ih =>
    simp only [paragraphEnd, Stretch.chars_shift, Stretch.line_shift, Stretch.trim_shift, Stretch.stop_shift,
      Stretch.afterLine_shift, ih]
    split
    · rfl
    · split
      · rfl
      · split <;> rfl

/-- What a line adds to a quote, if it goes on with it. -/
def quotePart? (first : Bool) (bare : Stretch) : Option Stretch :=
  match bare.chars with
  | '>' :: ' ' :: _ => some (bare.drop 2)
  | '>' :: _ => some (bare.drop 1)
  | _ => if first || LineForm.interrupts bare.trim.chars then none else some bare

theorem quotePart?_shift (first : Bool) : quotePart? first (s.shift k) = (quotePart? first s).map (·.shift k) := by
  simp only [quotePart?, Stretch.chars_shift, Stretch.drop_shift, Stretch.trim_shift]
  split
  · rfl
  · rfl
  · split <;> rfl

theorem quoteLines_succ (fuel : Nat) (first : Bool) : quoteLines (fuel + 1) first s =
    if s.chars.isEmpty || s.line.trimStart.trim.chars.isEmpty then ([], s)
    else match quotePart? first s.line.trimStart with
    | none => ([], s)
    | some part => (part :: (quoteLines fuel false s.afterLine).1, (quoteLines fuel false s.afterLine).2) := rfl

theorem quoteLines_shift (fuel : Nat) (first : Bool) :
    quoteLines fuel first (s.shift k) =
      (fun (parts, rest) => (parts.map (·.shift k), rest.shift k)) (quoteLines fuel first s) := by
  induction fuel generalizing first s with
  | zero => rfl
  | succ fuel ih =>
    simp only [quoteLines_succ, Stretch.chars_shift, Stretch.line_shift, Stretch.trimStart_shift,
      Stretch.trim_shift, Stretch.afterLine_shift, quotePart?_shift, ih]
    split
    · rfl
    · cases quotePart? first s.line.trimStart <;> rfl

theorem itemLines_shift (base width fuel last : Nat) :
    itemLines base width fuel (last + k) (s.shift k) =
      (fun (parts, last, rest) => (parts.map (·.shift k), last + k, rest.shift k))
        (itemLines base width fuel last s) := by
  induction fuel generalizing last s with
  | zero => rfl
  | succ fuel ih =>
    simp only [itemLines, Stretch.chars_shift, Stretch.line_shift, Stretch.trim_shift, Stretch.stop_shift,
      Stretch.drop_shift, Stretch.take_shift, Stretch.lineBlank_shift, Stretch.afterLine_shift,
      Stretch.skipBlankLines_shift, ih]
    split
    · rfl
    · split
      · split <;> rfl
      · split
        · next hends =>
          split
          · rfl
          · next hgoes => exact absurd hends hgoes
        · next hgoes =>
          split
          · next hends => exact absurd hends hgoes
          · rfl

/-! ## Code, comments, expressions and components -/

section Readers
variable (h : Scope.Seen scope scope' k v)

section
include h

theorem modules_below : ResultBelow k v (modules scope s) (modules scope' (s.shift k)) := by
  simp only [modules, Stretch.chars_shift, Stretch.take_shift, Stretch.start_shift, Stretch.stop_shift]
  exact ⟨h.outline_node rfl rfl _ _, rfl⟩

theorem fence_below (mark : Char) (length : Nat) :
    ResultBelow k v (fence scope s mark length) (fence scope' (s.shift k) mark length) := by
  simp only [fence, Stretch.afterLine_shift, Stretch.line_shift, Stretch.trim_shift, Stretch.chars_shift,
    fenceEnd?_shift]
  cases fenceEnd? mark length s.afterLine.chars.length s.afterLine with
  | none =>
    simp only [Option.map_none, Stretch.start_shift, Stretch.stop_shift]
    exact ⟨h.outline_node rfl rfl _ _, rfl⟩
  | some closing =>
    simp only [Option.map_some, Stretch.start_shift, Stretch.till_shift, Stretch.chars_shift, Stretch.line_shift,
      Stretch.stop_shift, Stretch.afterLine_shift]
    exact ⟨h.outline_node rfl rfl _ _, rfl⟩

theorem rawLine_below : ResultBelow k v (rawLine scope s) (rawLine scope' (s.shift k)) := by
  simp only [rawLine, Stretch.line_shift, Stretch.chars_shift, Stretch.trimStart_shift, Stretch.start_shift,
    Stretch.stop_shift, Stretch.afterLine_shift]
  exact ⟨h.outline_node rfl rfl _ _, rfl⟩

/-- Two optional blocks, the second further down. -/
def OptionBelow (k : Nat) (v : Position.Views) : Option Result → Option Result → Prop
  | none, none => True
  | some r, some r' => ResultBelow k v r r'
  | _, _ => False

theorem comment?_below : OptionBelow k v (comment? scope s) (comment? scope' (s.shift k)) := by
  simp only [comment?, Stretch.chars_shift]
  cases Text.find? s.chars ['-', '-', '>'] with
  | none => trivial
  | some n =>
    simp only [Option.bind_eq_bind, Option.bind_some, Stretch.take_shift, Stretch.chars_shift, Stretch.start_shift,
      Stretch.stop_shift]
    exact ⟨h.outline_node rfl rfl _ _, rfl⟩

theorem expression?_below : OptionBelow k v (expression? scope s) (expression? scope' (s.shift k)) := by
  simp only [expression?, Stretch.chars_shift]
  cases Tag.braced? s.chars with
  | none => trivial
  | some r =>
    simp only [Option.bind_eq_bind, Option.bind_some, Stretch.drop_shift, Stretch.lineBlank_shift,
      Stretch.start_shift]
    split
    · exact ⟨h.outline_node rfl rfl _ _, rfl⟩
    · trivial

end

variable (hi : inner.Below inner' k v)
include h hi

theorem component?_below :
    Agree (OptionBelow k v) (component? scope inner s) (component? scope' inner' (s.shift k)) := by
  simp only [component?, Stretch.chars_shift, Stretch.start_shift, Tag.read?_add]
  cases Tag.read? s.start s.chars with
  | none => exact .ok trivial
  | some tag =>
    simp only [Option.map_some, Tag.moved, Stretch.till_shift, Stretch.since_shift, Stretch.chars_shift,
      Stretch.start_shift, Closing.find?_add, Stretch.lineBlank_shift]
    have hkind := tag.bare_moved k
    refine .ite (fun _ => .ok ⟨h.outline_node rfl rfl _ _, rfl⟩) fun _ => ?_
    refine .ite (fun _ => ?_) fun _ => ?_
    · split
      · exact .ok ⟨h.outline_node hkind rfl _ _, rfl⟩
      · exact .ok trivial
    · cases Closing.find? tag.name (s.since tag.stop).start (s.since tag.stop).chars with
      | none => exact .ok ⟨h.outline_node rfl rfl _ _, rfl⟩
      | some r =>
        simp only [Option.map_some, Stretch.till_shift, Stretch.since_shift, Stretch.lineBlank_shift,
          Stretch.chars_shift]
        refine .ite (fun _ => ?_) fun _ => .ok trivial
        refine .ite (fun _ => ?_) fun _ => ?_
        · exact .bind (hi.blocks _) fun children children' hc => .pure ⟨h.outline_node hkind hc _ _, rfl⟩
        · exact .bind (hi.content _) fun children children' hc => .pure ⟨h.outline_node hkind hc _ _, rfl⟩

/-! ## Headings, tables and paragraphs -/

theorem heading_below (depth first length : Nat) :
    Agree (ResultBelow k v) (heading scope inner s depth first length)
      (heading scope' inner' (s.shift k) depth first length) := by
  simp only [heading, Stretch.line_shift, Stretch.trimStart_shift, Stretch.drop_shift, Stretch.take_shift,
    Stretch.start_shift, Stretch.stop_shift, Stretch.afterLine_shift]
  refine .ite (fun _ => ?_) fun _ => ?_
  · exact .pure ⟨h.outline_node rfl rfl _ _, rfl⟩
  · exact .bind (hi.content _) fun children children' hc => .pure ⟨h.outline_node rfl hc _ _, rfl⟩

theorem paragraph_below :
    Agree (ResultBelow k v) (paragraph scope inner s) (paragraph scope' inner' (s.shift k)) := by
  simp only [paragraph, Stretch.chars_shift, Stretch.line_shift, Stretch.stop_shift, Stretch.afterLine_shift,
    Stretch.trimStart_shift, paragraphEnd_shift]
  generalize paragraphEnd s.chars.length s.line.stop s.afterLine = r
  obtain ⟨last, ending, rest⟩ := r
  cases ending with
  | underline depth line =>
    simp only [ParagraphEnd.shift, Stretch.till_shift, Stretch.start_shift, Stretch.stop_shift]
    exact .bind (hi.content _) fun children children' hc => .pure ⟨h.outline_node rfl hc _ _, rfl⟩
  | other =>
    simp only [ParagraphEnd.shift, Stretch.till_shift, Stretch.trim_shift, Stretch.start_shift, Stretch.stop_shift]
    exact .bind (hi.content _) fun children children' hc => .pure ⟨h.outline_node rfl hc _ _, rfl⟩

theorem orParagraph_below {r r' : Option Result} (hr : OptionBelow k v r r') :
    Agree (ResultBelow k v) (orParagraph scope inner s r) (orParagraph scope' inner' (s.shift k) r') := by
  cases r with
  | none =>
    cases r' with
    | none => exact paragraph_below s h hi
    | some r' => exact hr.elim
  | some r =>
    cases r' with
    | none => exact hr.elim
    | some r' => exact .ok hr

/-- A row without the bar at its front, with the character before its first cell. -/
def afterBar (bare : Stretch) : Char × Stretch :=
  match bare.chars with
  | '|' :: _ => ('|', bare.drop 1)
  | _ => (' ', bare)

/-- A row without the bar at its end. -/
def beforeBar (s : Stretch) : Stretch :=
  if s.chars.getLast? = some '|' && s.chars.dropLast.getLast? ≠ some '\\' then s.take (s.chars.length - 1) else s

omit h hi in
theorem afterBar_shift : afterBar (s.shift k) = ((afterBar s).1, (afterBar s).2.shift k) := by
  simp only [afterBar, Stretch.chars_shift, Stretch.drop_shift]
  split <;> rfl

omit h hi in
theorem beforeBar_shift : beforeBar (s.shift k) = (beforeBar s).shift k := by
  rw [beforeBar, beforeBar, apply_ite (Stretch.shift · k)]
  rfl

omit h hi in
/-- A row is cut into cells between the bars at its ends. -/
theorem row_eq (scope : Scope) (inner : Inner) (s : Stretch) : row scope inner s = (do
    let inside := beforeBar (afterBar s.trim).2
    let nodes ← (cells (afterBar s.trim).1 inside.start [] inside.chars).mapM fun cell => do
      return Node.mk .tableCell (← if cell.trim.chars.isEmpty then pure [] else inner.content cell.trim) none
    return scope.node .tableRow s.trim.start s.stop nodes) := rfl

theorem row_below : Agree (fun n n' => n'.outline v.there = n.outline v.here) (row scope inner s)
    (row scope' inner' (s.shift k)) := by
  rw [row_eq, row_eq]
  simp only [Stretch.trim_shift, afterBar_shift, beforeBar_shift, Stretch.chars_shift, Stretch.start_shift,
    Stretch.stop_shift, cells_shift _ _ [] _ (Nat.zero_le _)]
  refine .bind (.mapM (R := fun n n' => n'.outline v.there = n.outline v.here) (T := fun c c' => c' = c.shift k)
    (List.forall₂_map_right_iff.2 (List.forall₂_same.2 fun _ _ => rfl)) ?_) fun nodes nodes' hn => .pure ?_
  · rintro c _ rfl
    simp only [Stretch.trim_shift, Stretch.chars_shift]
    refine .ite (fun _ => .pure rfl) fun _ => .bind (hi.content _) fun children children' hc => .pure ?_
    rw [outline, outline, hc]
    rfl
  · refine h.outline_node rfl ?_ _ _
    induction hn with
    | nil => rfl
    | cons hn _ ih => exact Same.cons hn ih

theorem rows_below (fuel n last : Nat) :
    Agree (fun r r' => Same v r.1 r'.1 ∧ r'.2.1 = r.2.1 + k ∧ r'.2.2 = r.2.2 + k)
      (rows scope inner fuel n last s) (rows scope' inner' fuel n (last + k) (s.shift k)) := by
  induction fuel generalizing n last s with
  | zero => exact .ok ⟨.nil, rfl, rfl⟩
  | succ fuel ih =>
    simp only [rows, Stretch.chars_shift, Stretch.line_shift, Stretch.start_shift, Stretch.stop_shift,
      Stretch.afterLine_shift]
    refine .ite (fun _ => .pure ⟨.nil, rfl, rfl⟩) fun _ => ?_
    have hrest (own own' : List Node) (hown : Same v own own') :
        Agree (fun r r' => Same v r.1 r'.1 ∧ r'.2.1 = r.2.1 + k ∧ r'.2.2 = r.2.2 + k)
          (rows scope inner fuel (n + 1) s.line.stop s.afterLine >>= fun r => pure (own ++ r.1, r.2.1, r.2.2))
          (rows scope' inner' fuel (n + 1) (s.line.stop + k) (s.afterLine.shift k) >>=
            fun r => pure (own' ++ r.1, r.2.1, r.2.2)) :=
      .bind (ih s.afterLine (n + 1) s.line.stop) fun r r' hr => .pure ⟨hown.append hr.1, hr.2⟩
    refine .ite (fun _ => hrest [] [] .nil) fun _ => ?_
    exact .bind ((row_below s.line h hi).map fun _ _ hn => Same.cons hn .nil) hrest

theorem table_below : Agree (ResultBelow k v) (table scope inner s) (table scope' inner' (s.shift k)) := by
  simp only [table, Stretch.chars_shift, Stretch.start_shift, Stretch.trimStart_shift]
  refine .bind (rows_below s h hi _ _ _) ?_
  rintro ⟨nodes, last, next⟩ ⟨nodes', last', next'⟩ ⟨hnodes, rfl, rfl⟩
  exact .pure ⟨h.outline_node rfl hnodes _ _, rfl⟩

/-! ## Quotes and lists -/

theorem quote_below : Agree (ResultBelow k v) (quote scope inner s) (quote scope' inner' (s.shift k)) := by
  simp only [quote, Stretch.chars_shift, Stretch.start_shift, Stretch.trimStart_shift, quoteLines_shift]
  generalize quoteLines s.chars.length true s = r
  obtain ⟨parts, rest⟩ := r
  have hlast : ((parts.map (·.shift k)).getLast?.map Stretch.stop).getD (s.start + k) =
      (parts.getLast?.map Stretch.stop).getD s.start + k := by
    rw [List.getLast?_map]
    cases parts.getLast? with
    | none => rfl
    | some p => exact p.stop_shift k
  dsimp only
  rw [hlast]
  exact .bind (hi.parts parts) fun children children' hc => .pure ⟨h.outline_node rfl hc _ _, rfl⟩

theorem items_below (base fuel last : Nat) :
    Agree (fun r r' => Same v r.1 r'.1 ∧ r'.2.1 = r.2.1 + k ∧ r'.2.2 = r.2.2 + k)
      (items scope inner base fuel last s) (items scope' inner' base fuel (last + k) (s.shift k)) := by
  induction fuel generalizing last s with
  | zero => exact .ok ⟨.nil, rfl, rfl⟩
  | succ fuel ih =>
    simp only [items, Stretch.chars_shift, Stretch.line_shift, Stretch.start_shift, Stretch.stop_shift,
      Stretch.afterLine_shift, itemLines_shift, Stretch.drop_shift]
    cases LineForm.marker? (s.line.chars.drop (Text.indent s.line.chars)) with
    | none => exact .ok ⟨.nil, rfl, rfl⟩
    | some r =>
      obtain ⟨marker, length⟩ := r
      dsimp only
      refine .ite (fun _ => .ok ⟨.nil, rfl, rfl⟩) fun _ => ?_
      generalize itemLines base (Text.indent s.line.chars + length) s.chars.length s.line.stop s.afterLine = r
      obtain ⟨parts, stop, rest⟩ := r
      dsimp only
      rw [← List.map_cons (f := fun p => Stretch.shift p k)]
      refine .bind (hi.parts _) fun children children' hc => ?_
      have hkind : Kind.bare .listItem = Kind.bare .listItem := rfl
      have hitem := h.outline_node hkind hc (s.start + Text.indent s.line.chars) stop
      rw [Nat.add_right_comm] at hitem
      simp only [Stretch.skipBlankLines_shift, Stretch.chars_shift, Stretch.line_shift, Stretch.start_shift,
        Nat.add_right_cancel_iff]
      refine .ite (fun _ => ?_) fun _ => .pure ⟨.cons hitem .nil, rfl, rfl⟩
      rw [← apply_ite (Stretch.shift · k)]
      exact .bind (ih _ stop) fun r r' hr => .pure ⟨.cons hitem hr.1, hr.2⟩

theorem list_below : Agree (ResultBelow k v) (list scope inner s) (list scope' inner' (s.shift k)) := by
  simp only [list, Stretch.chars_shift, Stretch.line_shift, Stretch.start_shift]
  refine .bind (items_below s h hi _ _ _) ?_
  rintro ⟨nodes, last, next⟩ ⟨nodes', last', next'⟩ ⟨hnodes, rfl, rfl⟩
  have hempty : nodes'.isEmpty = nodes.isEmpty := by
    cases nodes with
    | nil =>
      cases nodes' with
      | nil => rfl
      | cons n ns => cases hnodes
    | cons n ns =>
      cases nodes' with
      | nil => cases hnodes
      | cons n' ns' => rfl
  refine .pure ⟨?_, rfl⟩
  have hstart : (if nodes'.isEmpty then s.start + k else s.start + k + Text.indent s.line.chars) =
      (if nodes.isEmpty then s.start else s.start + Text.indent s.line.chars) + k := by
    rw [hempty, apply_ite (· + k), Nat.add_right_comm]
  dsimp only
  rw [hstart]
  exact h.outline_node rfl hnodes _ _

/-! ## Reading blocks -/

theorem read_below (reader : Reader) :
    Agree (ResultBelow k v) (reader.read scope inner s) (reader.read scope' inner' (s.shift k)) := by
  cases reader with
  | modules => exact .ok (modules_below s h)
  | fence mark length => exact .ok (fence_below s h mark length)
  | comment =>
    simp only [Reader.read, Stretch.trimStart_shift]
    exact orParagraph_below s h hi (comment?_below _ h)
  | expression =>
    simp only [Reader.read, Stretch.trimStart_shift]
    exact orParagraph_below s h hi (expression?_below _ h)
  | component =>
    simp only [Reader.read, Stretch.trimStart_shift]
    exact .bind (component?_below _ h hi) fun r r' hr => orParagraph_below s h hi hr
  | heading depth place length => exact heading_below s h hi depth place length
  | rawLine => exact .ok (rawLine_below s h)
  | table => exact table_below s h hi
  | quote => exact quote_below s h hi
  | list => exact list_below s h hi
  | paragraph => exact paragraph_below s h hi

omit h hi in
theorem isTable_shift : isTable (s.shift k) = isTable s := by
  simp only [isTable, Stretch.afterLine_shift, Stretch.line_shift, Stretch.chars_shift, Stretch.trim_shift]

theorem next_below (top : Bool) :
    Agree (ResultBelow k v) (next scope inner top s) (next scope' inner' top (s.shift k)) := by
  rw [next_eq, next_eq, isTable_shift, Stretch.line_shift, Stretch.chars_shift]
  exact read_below s h hi _

theorem sequence_below (top : Bool) (fuel : Nat) :
    Agree (Same v) (sequence scope inner top fuel s) (sequence scope' inner' top fuel (s.shift k)) := by
  induction fuel generalizing s with
  | zero => exact .error _
  | succ fuel ih =>
    simp only [sequence, Stretch.chars_shift, Stretch.lineBlank_shift, Stretch.afterLine_shift]
    refine .ite (fun _ => .ok .nil) fun _ => .ite (fun _ => ih _) fun _ => ?_
    refine .bind (next_below s h hi top) ?_
    rintro ⟨node, stop⟩ ⟨node', stop'⟩ ⟨hnode, rfl⟩
    dsimp only
    rw [Stretch.since_shift]
    exact .bind (ih _) fun nodes nodes' hn => .pure (.cons hnode hn)

end Readers

/-! ## Parts of lines -/

section Parts
variable {joined : Scope} {parts : List Stretch}

theorem outerOffset_shift (hparts : parts ≠ []) (offset : Nat) :
    outerOffset joined (parts.map (·.shift k)) offset = outerOffset joined parts offset + k := by
  have hlt : min (joined.lineOf offset - 1) (parts.length - 1) < parts.length := by
    have := List.length_pos_iff.2 hparts
    omega
  simp only [outerOffset, List.length_map, List.getElem?_map, List.getElem?_eq_getElem hlt, Option.map_some,
    Option.getD_some, Stretch.start_shift, Nat.add_right_comm _ k]

theorem outerStop_shift (hparts : parts ≠ []) (offset : Nat) :
    outerStop joined (parts.map (·.shift k)) offset = outerStop joined parts offset + k := by
  simp only [outerStop, outerOffset_shift hparts, Nat.add_right_comm _ k]
  split <;> rfl

theorem copies_times_outerPosition (n : Nat) (p : Position) :
    (times (outerPosition scope joined parts) n p).copies = p.copies := by
  induction n generalizing p with
  | zero => rfl
  | succ n ih => exact ih _

theorem bare_times_outerKind (n : Nat) (kind : Kind) : (times (outerKind joined parts) n kind).bare = kind.bare := by
  induction n generalizing kind with
  | zero => rfl
  | succ n ih =>
    rw [times, ih]
    cases kind with
    | component name attributes =>
      simp only [outerKind, Kind.bare, List.map_map]
      rfl
    | _ => rfl

theorem view_times_outerPosition (h : Scope.Seen scope scope' k v) (hparts : parts ≠ []) (p : Position) :
    v.there (times (outerPosition scope' joined (parts.map (·.shift k))) p.copies p) =
      v.here (times (outerPosition scope joined parts) p.copies p) := by
  by_cases hp : p.copies = 1
  · have hposition (scope : Scope) (parts : List Stretch) : outerPosition scope joined parts p =
        scope.position (outerOffset joined parts p.start)
          (max (outerOffset joined parts p.start) (outerStop joined parts p.stop)) := by
      rw [outerPosition, hp]
      rfl
    rw [hp, times, times, times, times, hposition, hposition, outerOffset_shift hparts, outerStop_shift hparts,
      Nat.add_max_add_right, h.position]
  · refine v.several _ _ ?_ ?_
    · rw [copies_times_outerPosition, copies_times_outerPosition]
    · rwa [copies_times_outerPosition]

mutual

theorem place_below (h : Scope.Seen scope scope' k v) (hparts : parts ≠ []) : (n : Node) →
    (place scope' joined (parts.map (·.shift k)) n).outline v.there = (place scope joined parts n).outline v.here
  | .mk kind children position => by
    rw [place, place, outline, outline, bare_times_outerKind, bare_times_outerKind,
      placeAll_below h hparts children]
    cases position with
    | none => rfl
    | some p => exact congrArg _ (congrArg some (view_times_outerPosition h hparts p))

theorem placeAll_below (h : Scope.Seen scope scope' k v) (hparts : parts ≠ []) : (ns : List Node) →
    Same v (placeAll scope joined parts ns) (placeAll scope' joined (parts.map (·.shift k)) ns)
  | [] => .nil
  | n :: ns => .cons (place_below h hparts n) (placeAll_below h hparts ns)

end

end Parts

theorem readParts_below (h : Scope.Seen scope scope' k v) (read : Scope → Stretch → Except Fault (List Node))
    (parts : List Stretch) :
    Agree (Same v) (readParts read scope parts) (readParts read scope' (parts.map (·.shift k))) := by
  simp only [readParts, List.isEmpty_map, List.map_map, Function.comp_def, Stretch.chars_shift, h.references]
  refine .ite (fun _ => .pure .nil) fun hparts => .bind (.refl _) ?_
  rintro nodes _ rfl
  exact .pure (placeAll_below h (by simpa using hparts) nodes)

/-- Blocks are the same wherever they stand in a text, up to their places. -/
theorem readAll_below (h : Scope.Seen scope scope' k v) (budget : Nat) (top : Bool) (s : Stretch) :
    Agree (Same v) (readAll budget top scope s) (readAll budget top scope' (s.shift k)) := by
  induction budget using Nat.strongRecOn generalizing top s with
  | _ budget ih =>
    unfold readAll
    split
    · next budget =>
      exact sequence_below s h
        ⟨Content.read_below h _, ih _ (by omega) false, readParts_below h _⟩ top _
    · exact .error _

end Narration.Markup.Block
