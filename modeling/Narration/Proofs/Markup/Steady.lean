import Narration.Proofs.Markup.Exchange
import Narration.Proofs.Markup.Modules
import Narration.Proofs.Markup.Within

/-!
# What is open above an exchange

A comment, an expression, a component or a tag that is not closed looks at all the text below it.

* `Block.Steady` : an exchange that closes nothing of what is open above it;
* `Block.comment?_fork`, `Block.expression?_fork`, `Block.component?_fork`, `Block.modules_fork` : blocks with a closing mark;
* `Block.next_fork` : a block that ends above a steady exchange is read as before;
* `Block.standsPlain`, `Block.steady_of_plain` : texts above in which nothing is open.
-/

namespace Narration.Markup.Block
open Fallible

variable {X : Exchange} {scope : Scope} {inner : Inner} {s s' : Stretch} {node : Node} {stop : Nat}

/-- An exchange that closes nothing of what is open above it. -/
structure Steady (X : Exchange) (scope : Scope) (inner : Inner) : Prop where
  modules {s s' : Stretch} : X.Fork s s' → LineForm.isModules s.line.chars → s.start + modulesLength 0 0 s.chars ≤ X.stop →
    modulesLength 0 0 s'.chars = modulesLength 0 0 s.chars
  comment {s s' : Stretch} : X.Fork s s' → LineForm.isComment s.chars → comment? scope s = none → comment? scope s' = none
  expression {s s' : Stretch} : X.Fork s s' → s.chars.head? = some '\x7b' → expression? scope s = none →
    expression? scope s' = none
  component {s s' : Stretch} : X.Fork s s' → LineForm.opensTag s.chars → component? scope inner s = .ok none →
    component? scope inner s' = .ok none
  tag {s s' : Stretch} : X.Fork s s' → Tag.read? s.start s.chars = none → Tag.read? s.start s'.chars = none
  closing {s s' : Stretch} {tag : Tag} : X.Fork s s' → Tag.read? s.start s.chars = some tag → tag.stop ≤ X.stop →
    Closing.find? tag.name tag.stop (s.since tag.stop).chars = none →
    Closing.find? tag.name tag.stop (s'.since tag.stop).chars = none

/-! ## Closing marks -/

section
variable (h : X.Fork s s')
include h

theorem comment?_fork (hr : comment? scope s = some (node, stop)) (hstop : stop ≤ X.stop) :
    comment? scope s' = some (node, stop) := by
  cases h with
  | @mk a q hq ha =>
    obtain ⟨n, hn, hr⟩ := Option.bind_eq_some_iff.1 hr
    cases hr
    have hend : (Stretch.take ⟨a, q ++ X.old⟩ (n + 3)).stop = a + (n + 3) := by
      have hle := Text.find?_le hn
      rw [List.length_cons, List.length_cons, List.length_singleton] at hle
      rw [Stretch.stop, Stretch.chars_take, List.length_take_of_le hle, Stretch.start_take]
    have hle : n + 3 ≤ q.length := by omega
    refine Option.bind_eq_some_iff.2 ⟨n, Text.find?_exchange (by simp) hn hle X.new, ?_⟩
    have hsame : Stretch.take ⟨a, q ++ X.new⟩ (n + 3) = Stretch.take ⟨a, q ++ X.old⟩ (n + 3) := by
      rw [Stretch.take, Stretch.take, List.take_append_of_le_length hle, List.take_append_of_le_length hle]
    dsimp only
    rw [hsame]
    rfl

theorem expression?_fork (hX : X.Begins) (hr : expression? scope s = some (node, stop)) (hstop : stop ≤ X.stop) :
    expression? scope s' = some (node, stop) := by
  obtain ⟨⟨source, n⟩, hn, hr⟩ := Option.bind_eq_some_iff.1 hr
  dsimp only at hr
  split at hr
  · next hends =>
    cases hr
    have hle : n ≤ s.chars.length := by
      obtain ⟨m, hm, hsome⟩ := Option.bind_eq_some_iff.1 hn
      cases hsome
      exact (Braces.scan_span hm).1
    have hstart : (s.drop n).start = s.start + n := by rw [Stretch.start_drop, Nat.min_eq_left hle]
    rw [hstart] at hstop ⊢
    have hrest := h.drop hstop
    refine Option.bind_eq_some_iff.2 ⟨(source, n), ?_, ?_⟩
    · cases h with
      | @mk a q hq ha =>
        dsimp only at hstop
        exact Tag.braced?_exchange hn (by omega) X.new
    · dsimp only
      rw [if_pos ((hrest.lineBlank hX).trans hends), h.start_eq, hrest.start_eq, hstart]
  · cases hr

/-- A comment above the exchange still begins as a comment. -/
theorem isComment_fork (hcomment : LineForm.isComment s.chars) (hr : comment? scope s = some (node, stop)) (hstop : stop ≤ X.stop) :
    LineForm.isComment s'.chars := by
  cases h with
  | @mk a q hq ha =>
    obtain ⟨n, hn, hr⟩ := Option.bind_eq_some_iff.1 hr
    cases hr
    have hle := Text.find?_le hn
    have hend : (Stretch.take ⟨a, q ++ X.old⟩ (n + 3)).stop = a + (n + 3) := by
      rw [List.length_cons, List.length_cons, List.length_singleton] at hle
      rw [Stretch.stop, Stretch.chars_take, List.length_take_of_le hle, Stretch.start_take]
    have hpos : 0 < n := by
      obtain ⟨u, hu⟩ := List.head?_eq_some_iff.1 (LineForm.head?_of_isComment hcomment)
      dsimp only at hu hn
      have hnot : ¬Text.beginsWith ('<' :: u) ['-', '-', '>'] := Bool.false_ne_true
      rw [hu, Text.find?, Text.findFrom, if_neg hnot] at hn
      exact Text.le_findFrom hn
    have hlength : ['<', '!', '-', '-'].length ≤ q.length := show 4 ≤ q.length by omega
    rw [LineForm.isComment, Text.beginsWith_append hlength] at hcomment ⊢
    exact hcomment

theorem tag_fork {tag : Tag} (htag : Tag.read? s.start s.chars = some tag) (hstop : tag.stop ≤ X.stop) :
    Tag.read? s'.start s'.chars = some tag := by
  rw [h.start_eq]
  cases h with
  | @mk a q hq ha => exact Tag.read?_exchange htag (by dsimp only; omega) X.new

/-- The tag that closes an open one above the exchange is found there. -/
theorem closing_fork (hsteady : Steady X scope inner) {name : Text} {first last : Nat}
    (hfind : Closing.find? name s.start s.chars = some (first, last)) (hstop : last ≤ X.stop) :
    Closing.find? name s'.start s'.chars = some (first, last) := by
  rw [h.start_eq]
  cases h with
  | @mk b y hy hb =>
    refine Closing.find?_exchange (fun z hz hnone => ?_) hfind (by dsimp only; omega)
    have hfork : X.Fork ⟨X.stop - z.length, z ++ X.old⟩ ⟨X.stop - z.length, z ++ X.new⟩ :=
      .mk (hz.trans hy) (Nat.sub_add_cancel (by have hzy := hz.length_le; omega))
    have hadd (e : Text) : Tag.read? (X.stop - z.length) (z ++ e) = none ↔ Tag.read? 0 (z ++ e) = none := by
      rw [← Nat.zero_add (X.stop - z.length), Tag.read?_add, Option.map_eq_none_iff]
    exact (hadd X.new).1 (hsteady.tag hfork ((hadd X.old).2 hnone))

theorem component?_fork (hX : X.Begins) (hsteady : Steady X scope inner) (hr : component? scope inner s = .ok (some (node, stop)))
    (hstop : stop ≤ X.stop) : component? scope inner s' = .ok (some (node, stop)) := by
  obtain ⟨tag, hread, hr⟩ := component?_eq_some.1 hr
  obtain ⟨hpast, hwithin⟩ := Tag.extent_of_read? hread
  have hpast : s.start ≤ tag.stop := by omega
  have hstart := s.start_since hpast hwithin
  refine component?_eq_some.2 ⟨tag, ?_⟩
  cases hr with
  | stray hstray =>
    refine ⟨tag_fork h hread hstop, ?_⟩
    rw [← h.till hstop, ← h.start_eq]
    refine .stray (hstray.imp_right (And.imp_right fun hnone => ?_))
    rw [hstart] at hnone
    rw [(h.since hpast hstop).start_eq, hstart]
    exact hsteady.closing h hread hstop hnone
  | single hopen hself hends =>
    refine ⟨tag_fork h hread hstop, ?_⟩
    rw [← h.start_eq]
    exact .single hopen hself (((h.since hpast hstop).lineBlank hX).trans hends)
  | @pair first last children hopen hself hfind hends hchildren =>
    obtain ⟨hfirst, hlt⟩ := Closing.find?_extent hfind
    rw [hstart] at hfirst
    have hafter := h.since hpast (show tag.stop ≤ X.stop by omega)
    refine ⟨tag_fork h hread (by omega), ?_⟩
    rw [← h.start_eq]
    refine .pair hopen hself (closing_fork hafter hsteady hfind hstop) (((h.since (by omega) hstop).lineBlank hX).trans hends) ?_
    rw [hafter.till (by omega)]
    exact hchildren

end

/-! ## Blocks -/

/-- The last character that a node stands for is the last one before the place where reading goes on. -/
def Exact (node : Node) (stop : Nat) : Prop := ∃ p, node.position = some p ∧ p.stop = stop

theorem exact_comment? (hr : comment? scope s = some (node, stop)) : Exact node stop := by
  obtain ⟨n, -, hr⟩ := Option.bind_eq_some_iff.1 hr
  cases hr
  exact ⟨_, rfl, rfl⟩

theorem exact_expression? (hr : expression? scope s = some (node, stop)) : Exact node stop := by
  obtain ⟨⟨source, n⟩, -, hr⟩ := Option.bind_eq_some_iff.1 hr
  dsimp only at hr
  split at hr
  · cases hr
    exact ⟨_, rfl, rfl⟩
  · cases hr

theorem exact_component? (hr : component? scope inner s = .ok (some (node, stop))) : Exact node stop := by
  obtain ⟨tag, -, hr⟩ := component?_eq_some.1 hr
  cases hr with
  | stray | single | pair => exact ⟨_, rfl, rfl⟩

theorem Exact.stop_le (hexact : Exact node stop) (hstop : X.Gap ∧ (∀ p ∈ node.position, p.stop ≤ X.stop) ∨ stop ≤ X.stop) :
    stop ≤ X.stop := by
  rcases hstop with ⟨-, hposition⟩ | hstop
  · obtain ⟨p, hp, rfl⟩ := hexact
    exact hposition p hp
  · exact hstop

/-- What is left of the first line without the blanks at its ends, and what a blank sets off from it. -/
theorem exists_trim_line (hblank : s.lineBlank = false) :
    ∃ z, s.trimStart.chars = Text.trim s.line.chars ++ z ∧ ∀ c ∈ z.head?, Text.isBlank c := by
  obtain ⟨v, hv, hend⟩ := Text.exists_afterFirstLine s.chars
  obtain ⟨after, hafter, hall⟩ := Text.dropEndWhile_append Text.isBlank (Text.trimStart s.line.chars)
  have hprose : ((Text.firstLine s.chars).dropWhile Text.isBlank).isEmpty = false := by
    rw [List.isEmpty_eq_false_iff, ne_eq, List.dropWhile_eq_nil_iff]
    intro hall
    have hblank : Text.allBlank (Text.firstLine s.chars) = false := hblank
    rw [Text.allBlank, List.all_eq_true.2 hall] at hblank
    cases hblank
  refine ⟨after ++ v, ?_, ?_⟩
  · rw [Stretch.chars_trimStart, Text.trimStart, hv, List.dropWhile_append, hprose, if_neg Bool.false_ne_true, ← List.append_assoc]
    exact congrArg (· ++ v) hafter
  · intro c hc
    cases after with
    | cons b after =>
      cases hc
      exact hall _ List.mem_cons_self
    | nil =>
      rcases hend with rfl | ⟨v, rfl⟩
      · cases hc
      · cases hc
        rfl

theorem trim_line_leads (hblank : s.lineBlank = false) : Text.trim s.line.chars <+: s.trimStart.chars := by
  obtain ⟨z, hz, -⟩ := exists_trim_line hblank
  exact ⟨z, hz.symm⟩

/-- A word in front stands on the first line. -/
theorem word_trim_line {w : Text} (hblank : s.lineBlank = false) (hw : w <+: s.trimStart.chars)
    (hword : ∀ c ∈ w, Text.isBlank c = false) : w <+: Text.trim s.line.chars := by
  obtain ⟨z, hz, hgap⟩ := exists_trim_line hblank
  rw [hz] at hw
  rcases List.prefix_or_prefix_of_prefix hw (List.prefix_append _ z) with hle | ⟨y, rfl⟩
  · exact hle
  · -- the word would go on with the blank behind the line
    obtain ⟨x, rfl⟩ := (List.prefix_append_right_inj _).1 hw
    cases y with
    | nil => rw [List.append_nil]
    | cons c y =>
      have hblank := hgap c (by simp)
      rw [hword c (by simp)] at hblank
      cases hblank

theorem isComment_of_leading {t u : Text} (h : LineForm.isComment t) (hp : t <+: u) : LineForm.isComment u := by
  rw [LineForm.isComment, Text.beginsWith_iff] at h ⊢
  exact h.trans hp

theorem opensTag_of_leading {t u : Text} (h : LineForm.opensTag t) (hp : t <+: u) : LineForm.opensTag u := by
  obtain ⟨w, rfl⟩ := hp
  unfold LineForm.opensTag at h
  split at h
  · exact h
  · next c v hslash =>
    rw [List.cons_append, List.cons_append]
    unfold LineForm.opensTag
    split
    · next heq =>
      cases (List.cons.inj (List.cons.inj heq).2).1
      cases h
    · next heq =>
      cases (List.cons.inj (List.cons.inj heq).2).1
      exact h
    · next hnot => exact absurd rfl (hnot _ _)
  · cases h

theorem head?_of_body? {o : Nat} {closing : Bool} {t : Text} {tag : Tag} (h : Tag.body? o closing t = some tag) :
    ∃ c u, t = c :: u ∧ (c.isAlpha ∨ c = '>') := by
  unfold Tag.body? at h
  dsimp only at h
  split at h
  · exact ⟨_, _, rfl, .inr rfl⟩
  · obtain ⟨⟨name, rest⟩, hname, -⟩ := Option.bind_eq_some_iff.1 h
    cases t with
    | nil => cases hname
    | cons c u =>
      rw [Tag.name?] at hname
      split at hname
      · next hc => exact ⟨c, u, rfl, .inl hc⟩
      · cases hname

/-- A tag begins with a word that opens a tag. -/
theorem exists_opensTag {o : Nat} {t : Text} {tag : Tag} (h : Tag.read? o t = some tag) :
    ∃ w, w <+: t ∧ LineForm.opensTag w ∧ ∀ c ∈ w, Text.isBlank c = false := by
  have hmark {c : Char} (hc : c.isAlpha ∨ c = '>') : Text.isBlank c = false := by
    rcases hc with hc | rfl
    · exact Text.isBlank_of_isAlpha hc
    · rfl
  unfold Tag.read? at h
  split at h
  · obtain ⟨c, u, rfl, hc⟩ := head?_of_body? h
    exact ⟨['<', '/', c], ⟨u, rfl⟩, by simpa [LineForm.opensTag] using hc, by simp [hmark hc]; decide⟩
  · obtain ⟨c, u, rfl, hc⟩ := head?_of_body? h
    refine ⟨['<', c], ⟨u, rfl⟩, ?_, by simp [hmark hc]; decide⟩
    rcases hc with hc | rfl
    · simp [LineForm.opensTag, hc]
    · rfl
  · cases h

/-- A line that a tag is in front of may start with a tag. -/
theorem opensTag_line {o : Nat} {tag : Tag} (hblank : s.lineBlank = false) (h : Tag.read? o s.trimStart.chars = some tag) :
    LineForm.opensTag (Text.trim s.line.chars) := by
  obtain ⟨w, hw, hopens, hword⟩ := exists_opensTag h
  exact opensTag_of_leading hopens (word_trim_line hblank hw hword)

theorem head?_of_leading {t u : Text} {c : Char} (h : t.head? = some c) (hp : t <+: u) : u.head? = some c := by
  obtain ⟨t, rfl⟩ := List.head?_eq_some_iff.1 h
  obtain ⟨w, rfl⟩ := hp
  rfl

theorem length_pos_of_fence? {t : Text} {mark : Char} {length : Nat} (h : LineForm.fence? t = some (mark, length)) : 0 < length := by
  obtain ⟨c, -, h⟩ := Option.bind_eq_some_iff.1 h
  dsimp only at h
  split at h
  · next hmark =>
    cases h
    omega
  · cases h

/-- What a reader recognises in the first line. -/
inductive Asks (line : Text) : Reader → Prop
  | modules (h : LineForm.isModules line) : Asks line .modules
  | fence {mark : Char} {length : Nat} (h : LineForm.fence? (Text.trim line) = some (mark, length)) : Asks line (.fence mark length)
  | comment (h : LineForm.isComment (Text.trim line)) : Asks line .comment
  | expression (h : (Text.trim line).head? = some '\x7b') : Asks line .expression
  | component (h : LineForm.opensTag (Text.trim line)) : Asks line .component
  | heading (depth place length : Nat) : Asks line (.heading depth place length)
  | rawLine : Asks line .rawLine
  | table : Asks line .table
  | quote (h : (Text.trim line).head? = some '>') : Asks line .quote
  | list (hnear : Text.indent line < 4) (h : (LineForm.marker? (Text.trim line)).isSome) : Asks line .list
  | paragraph : Asks line .paragraph

theorem lateReader_asks (line : Text) (table : Bool) : Asks line (lateReader line table) := by
  unfold lateReader
  dsimp only
  split
  · exact .table
  split
  · next h =>
    rw [Bool.and_eq_true, decide_eq_true_eq] at h
    exact .quote (by simpa using h.2)
  split
  · next h =>
    rw [Bool.and_eq_true, decide_eq_true_eq] at h
    exact .list h.1 h.2
  split
  · exact .rawLine
  · exact .paragraph

theorem readerOf_asks (top : Bool) (line : Text) (table : Bool) : Asks line (readerOf top line table) := by
  have of_near {α : Type} {p : Prop} [Decidable p] {o : Option α} {a : α} (h : (if p then o else none) = some a) : o = some a := by
    split at h
    · exact h
    · cases h
  unfold readerOf
  cases hearly : earlyReader? top line with
  | none => exact lateReader_asks line table
  | some reader =>
    rw [Option.getD_some]
    unfold earlyReader? at hearly
    dsimp only at hearly
    split at hearly
    · next h =>
      cases hearly
      simp only [Bool.and_eq_true] at h
      exact .modules h.2
    split at hearly
    · next h =>
      cases hearly
      exact .fence (of_near h)
    split at hearly
    · next h =>
      cases hearly
      exact .comment h
    split at hearly
    · next h =>
      cases hearly
      exact .expression h
    split at hearly
    · next h =>
      cases hearly
      exact .component h
    split at hearly
    · cases hearly
      exact .heading _ _ _
    split at hearly
    · cases hearly
      exact .rawLine
    · cases hearly

section
variable (hX : X.Begins) (hsteady : Steady X scope inner) (h : X.Fork s s') (hblank : s.lineBlank = false)
include hX hsteady h

omit hX in
theorem modules_fork (hmodules : LineForm.isModules s.line.chars) (hr : modules scope s = (node, stop))
    (hstop : X.Gap ∧ (∀ p ∈ node.position, p.stop ≤ X.stop) ∨ stop ≤ X.stop) : Kept X node stop (.ok (modules scope s')) := by
  have hexact : Exact node stop := by
    cases hr
    exact ⟨_, rfl, rfl⟩
  have hle := hexact.stop_le hstop
  have hwithin := modulesLength_le 0 s.chars
  have hend : stop = s.start + modulesLength 0 0 s.chars := by
    cases hr
    rw [Stretch.stop, Stretch.chars_take, List.length_take_of_le hwithin, Stretch.start_take]
  have hsame := hsteady.modules h hmodules (hend ▸ hle)
  have hsource : s'.take (modulesLength 0 0 s'.chars) = s.take (modulesLength 0 0 s.chars) := by
    have htill := h.till (hend ▸ hle)
    rw [hsame]
    rwa [Stretch.till, Stretch.till, h.start_eq, Nat.add_sub_cancel_left] at htill
  refine ⟨?_, hle⟩
  rw [modules, hsource, h.start_eq, ← hr]
  rfl

include hblank

omit hsteady in
/-- A block whose mark comes first, or a paragraph. -/
theorem orParagraph_fork {r : Option Result} (hr : orParagraph scope inner s r = .ok (node, stop))
    (hexact : ∀ result, r = some result → Exact result.1 result.2 ∧ s.trimStart.start < result.2)
    (hstop : X.Gap ∧ (∀ p ∈ node.position, p.stop ≤ X.stop) ∨ stop ≤ X.stop) :
    X.Fork s.trimStart s'.trimStart ∧ (∀ result, r = some result → result.2 ≤ X.stop) ∧
      Kept X node stop (orParagraph scope inner s' r) := by
  cases r with
  | some result =>
    cases hr
    obtain ⟨hexact, hlt⟩ := hexact _ rfl
    have hle := hexact.stop_le hstop
    refine ⟨h.trimStart (hlt.trans_le hle), fun result hresult => ?_, rfl, hle⟩
    cases hresult
    exact hle
  | none =>
    have hr : paragraph scope inner s = .ok (node, stop) := hr
    have hafter := h.step hX hblank (start_afterLine_le_paragraph hr) (hstop.imp_left And.left)
    exact ⟨h.trimStart (start_trimStart_lt_of_step hblank hafter), nofun, paragraph_fork hX h hblank hr (hstop.imp_left And.left)⟩

omit hX hsteady h hblank in
/-- An expression ends its line. -/
theorem lineBlank_expression (hr : expression? scope s = some (node, stop)) : (s.since stop).lineBlank := by
  obtain ⟨⟨source, n⟩, -, hr⟩ := Option.bind_eq_some_iff.1 hr
  dsimp only at hr
  split at hr
  · next hends =>
    cases hr
    rwa [s.since_start_drop]
  · cases hr

omit hX hsteady h hblank in
theorem since_trimStart {o : Nat} (ho : s.trimStart.start ≤ o) : s.trimStart.since o = s.since o := by
  have hindent := indent_le s.chars
  have hstart : s.trimStart.start = s.start + Text.indent s.chars := by
    rw [Stretch.trimStart, Stretch.start_drop, Nat.min_eq_left hindent]
  rw [Stretch.since, Stretch.since, hstart, Stretch.trimStart, Stretch.drop_drop]
  congr 1
  omega

omit hsteady in
/-- A block above an exchange is asked for by a line that is the same as before, or that a comment or a tag is in front of. -/
theorem readerOf_fork {top : Bool} (hnext : next scope inner top s = .ok (node, stop)) (hstranded : ¬Stranded s.line.chars)
    (hstop : X.Gap ∧ (∀ p ∈ node.position, p.stop ≤ X.stop) ∨ stop ≤ X.stop) :
    readerOf top s'.line.chars (isTable s') = readerOf top s.line.chars (isTable s) := by
  by_cases hafter : s.afterLine.start ≤ X.stop
  · have hfork := h.afterLine hX (Stretch.ne_nil_of_not_blank hblank) hafter
    rw [h.line_of_step hX hblank hfork, isTable_fork hX h hblank hfork]
  · have hlt : stop < s.afterLine.start := by
      rcases hstop with ⟨hgap, -⟩ | hstop
      · exact absurd (h.start_afterLine_le hgap (h.start_lt_of_gap hgap hblank)) hafter
      · omega
    have hle : stop ≤ X.stop := hstop.elim (fun hgap => absurd (h.start_afterLine_le hgap.1 (h.start_lt_of_gap hgap.1 hblank)) hafter) id
    have hparagraph {node : Node} (hr : paragraph scope inner s = .ok (node, stop)) : False :=
      Nat.lt_irrefl _ (hlt.trans_le (start_afterLine_le_paragraph hr))
    -- what a reader leaves of the line is blank
    have hsame {r : Reader} (hrest : (s.since stop).lineBlank) (hr : readerOf top s.line.chars (isTable s) = r) (hearly : r.isEarly) :
        readerOf top s'.line.chars (isTable s') = r := by
      rw [h.line_of_blank hX (n := stop - s.start) (by have := h.start_le; omega) hrest]
      exact readerOf_isEarly hr hearly _
    rw [next_eq] at hnext
    have hasks := readerOf_asks top s.line.chars (isTable s)
    generalize hreader : readerOf top s.line.chars (isTable s) = reader at hnext hasks
    cases hasks with
    | modules hmodules =>
      have hstart : stop = s.start + modulesLength 0 0 s.chars := by
        cases hnext
        rw [Stretch.stop, Stretch.chars_take, List.length_take_of_le (modulesLength_le 0 s.chars), Stretch.start_take]
      refine hsame ?_ hreader rfl
      rw [hstart, Stretch.since, Nat.add_sub_cancel_left, Stretch.lineBlank, Stretch.chars_line, Stretch.chars_drop]
      rcases (modulesLength_endsLine 0 s.chars).1 with hend | ⟨v, hend⟩ <;> rw [hend] <;> rfl
    | @fence mark length hfence =>
      have hend := start_afterLine_le_fence scope s mark length
      rw [Except.ok.inj hnext] at hend
      exact absurd hlt (Nat.not_lt.2 hend)
    | comment hcomment =>
      cases hr : comment? scope s.trimStart with
      | none =>
        rw [Reader.read, hr] at hnext
        exact absurd hnext hparagraph
      | some result =>
        rw [Reader.read, hr] at hnext
        cases hnext
        have hfork := h.trimStart ((start_lt_comment hr).trans_le hle)
        have hword := isComment_fork hfork (isComment_of_leading hcomment (trim_line_leads hblank)) hr hle
        refine readerOf_isComment ?_
        rw [LineForm.isComment, Text.beginsWith_iff] at hword ⊢
        exact word_trim_line ((h.lineBlank hX).trans hblank) hword (by decide)
    | expression hbrace =>
      cases hr : expression? scope s.trimStart with
      | none =>
        rw [Reader.read, hr] at hnext
        exact absurd hnext hparagraph
      | some result =>
        rw [Reader.read, hr] at hnext
        cases hnext
        have hend := lineBlank_expression hr
        rw [since_trimStart (Nat.le_of_lt (start_lt_expression hr))] at hend
        exact hsame hend hreader rfl
    | component hopens =>
      obtain ⟨r, hr, hnext⟩ := bind_eq_ok.1 hnext
      cases r with
      | none => exact absurd hnext hparagraph
      | some result =>
        cases hnext
        have hfork := h.trimStart ((start_lt_component hr).trans_le hle)
        have hpast := Nat.le_of_lt (start_lt_component hr)
        obtain ⟨tag, htag, hr⟩ := component?_eq_some.1 hr
        cases hr with
        | stray => exact readerOf_opensTag (opensTag_line ((h.lineBlank hX).trans hblank) (tag_fork hfork htag hle))
        | single _ _ hends => exact hsame (since_trimStart hpast ▸ hends) hreader rfl
        | pair _ _ _ hends => exact hsame (since_trimStart hpast ▸ hends) hreader rfl
    | heading depth place length =>
      obtain ⟨_, -, -, hend⟩ := exists_of_heading hnext
      omega
    | rawLine =>
      cases hnext
      exact absurd hlt (Nat.lt_irrefl _)
    | table => exact absurd hlt (Nat.not_lt.2 (start_afterLine_le_table hblank hnext))
    | quote hmark =>
      rw [← s.line.chars_trim] at hmark
      exact absurd hlt (Nat.not_lt.2 (start_afterLine_le_quote (Stretch.ne_nil_of_not_blank hblank) hmark hnext))
    | list hnear hmarker =>
      have hmarker := (marker?_isSome_or_stranded hnear hmarker).resolve_right hstranded
      exact absurd hlt (Nat.not_lt.2 (start_afterLine_le_list hmarker hnext))
    | paragraph => exact absurd hnext hparagraph

theorem next_fork {top : Bool} (hnext : next scope inner top s = .ok (node, stop)) (hstranded : ¬Stranded s.line.chars)
    (hstop : X.Gap ∧ (∀ p ∈ node.position, p.stop ≤ X.stop) ∨ stop ≤ X.stop) :
    Kept X node stop (next scope inner top s') ∨ RunsOn X scope s s' node stop (next scope inner top s') := by
  have hreader := readerOf_fork hX h hblank hnext hstranded hstop
  rw [next_eq] at hnext ⊢
  rw [hreader]
  have hprefix := trim_line_leads hblank
  have hasks := readerOf_asks top s.line.chars (isTable s)
  generalize readerOf top s.line.chars (isTable s) = reader at hnext hasks
  cases hasks with
  | modules hmodules => exact .inl (modules_fork hsteady h hmodules (Except.ok.inj hnext) hstop)
  | fence hfence => exact fence_fork hX h hblank (length_pos_of_fence? hfence) (Except.ok.inj hnext) hstop
  | comment hcomment =>
    obtain ⟨hfork, hle, hkept⟩ := orParagraph_fork hX h hblank hnext
      (fun result hresult => ⟨exact_comment? hresult, start_lt_comment hresult⟩) hstop
    have hsame : comment? scope s'.trimStart = comment? scope s.trimStart := by
      cases hresult : comment? scope s.trimStart with
      | none => exact hsteady.comment hfork (isComment_of_leading hcomment hprefix) hresult
      | some result => exact comment?_fork hfork hresult (hle _ hresult)
    rw [← hsame] at hkept
    exact .inl hkept
  | expression hbrace =>
    obtain ⟨hfork, hle, hkept⟩ := orParagraph_fork hX h hblank hnext
      (fun result hresult => ⟨exact_expression? hresult, start_lt_expression hresult⟩) hstop
    have hsame : expression? scope s'.trimStart = expression? scope s.trimStart := by
      cases hresult : expression? scope s.trimStart with
      | none => exact hsteady.expression hfork (head?_of_leading hbrace hprefix) hresult
      | some result => exact expression?_fork hfork hX hresult (hle _ hresult)
    rw [← hsame] at hkept
    exact .inl hkept
  | component hopens =>
    obtain ⟨r, hr, hnext⟩ := bind_eq_ok.1 hnext
    obtain ⟨hfork, hle, hkept⟩ := orParagraph_fork hX h hblank hnext (fun result hresult => by
      rw [hresult] at hr
      exact ⟨exact_component? hr, start_lt_component hr⟩) hstop
    have hsame : component? scope inner s'.trimStart = .ok r := by
      cases r with
      | none => exact hsteady.component hfork (opensTag_of_leading hopens hprefix) hr
      | some result => exact component?_fork hfork hX hsteady hr (hle _ rfl)
    exact .inl ⟨bind_eq_ok.2 ⟨r, hsame, hkept.1⟩, hkept.2⟩
  | heading depth place length =>
    exact .inl (heading_fork hX h hblank hnext (hstop.imp_left And.left))
  | rawLine => exact .inl (rawLine_fork hX h hblank (Except.ok.inj hnext) (hstop.imp_left And.left))
  | table => exact .inl (table_fork hX h hblank hnext (hstop.imp_left And.left))
  | quote hmark =>
    rw [← s.line.chars_trim] at hmark
    exact .inl (quote_fork hX h hblank hmark hnext (hstop.imp_left And.left))
  | list hnear hmarker =>
    exact .inl (list_fork hX h hblank ((marker?_isSome_or_stranded hnear hmarker).resolve_right hstranded) hnext hstop)
  | paragraph => exact .inl (paragraph_fork hX h hblank hnext (hstop.imp_left And.left))

end

/-! ## Plain texts -/

/-- Whether a text begins with an expression that ends its line. -/
def beginsExpression (t : Text) : Bool := (Tag.braced? t).any fun r => Text.allBlank (Text.firstLine (t.drop r.2))

/-- Whether nothing that begins with a text ends elsewhere when other text follows it: no markup in angle brackets begins here, an
expression begins here as before, and modules end here as before. -/
def standsPlain (q old new : Text) : Bool :=
  (q ++ old).head? ≠ some '<' && (q ++ new).head? ≠ some '<' && (!beginsExpression (q ++ new) || beginsExpression (q ++ old)) &&
    (!LineForm.isModules (Text.firstLine (q ++ old)) || q.length < modulesLength 0 0 (q ++ old) ||
      modulesLength 0 0 (q ++ new) = modulesLength 0 0 (q ++ old))

theorem expression?_eq_none_iff : expression? scope s = none ↔ beginsExpression s.chars = false := by
  have hline (n : Nat) : (s.drop n).lineBlank = Text.allBlank (Text.firstLine (s.chars.drop n)) := rfl
  rw [expression?, beginsExpression]
  cases Tag.braced? s.chars with
  | none => simp
  | some r =>
    obtain ⟨source, n⟩ := r
    simp [hline]

/-- Nothing is open above when nothing that begins there ends elsewhere. -/
theorem steady_of_plain (h : ∀ q ∈ X.above.tails, standsPlain q X.old X.new) : Steady X scope inner := by
  have hplain {s s' : Stretch} (hfork : X.Fork s s') : (s.chars.head? ≠ some '<' ∧ s'.chars.head? ≠ some '<') ∧
      (beginsExpression s'.chars → beginsExpression s.chars) ∧
      (LineForm.isModules s.line.chars → s.start + modulesLength 0 0 s.chars ≤ X.stop →
        modulesLength 0 0 s'.chars = modulesLength 0 0 s.chars) := by
    cases hfork with
    | @mk a q hq ha =>
      have hq' := h q ((List.mem_tails q _).2 hq)
      simp only [standsPlain, Bool.and_eq_true, decide_eq_true_eq, Bool.or_eq_true, Bool.not_eq_true'] at hq'
      obtain ⟨⟨⟨hold, hnew⟩, hexpression⟩, hmodules⟩ := hq'
      refine ⟨⟨hold, hnew⟩, fun hbegins => hexpression.resolve_left (by simp [hbegins]), fun hline hstop => ?_⟩
      rcases hmodules with (hmodules | hmodules) | hmodules
      · rw [show LineForm.isModules (Text.firstLine (q ++ X.old)) from hline] at hmodules
        cases hmodules
      · dsimp only at hstop
        omega
      · exact hmodules
  have hread {o : Nat} {t : Text} (ht : t.head? ≠ some '<') : Tag.read? o t = none := by
    cases hr : Tag.read? o t with
    | none => rfl
    | some tag => exact absurd (Tag.head?_of_read? hr) ht
  constructor
  case modules =>
    intro s s' hfork hmodules
    exact (hplain hfork).2.2 hmodules
  case comment =>
    intro s s' hfork hcomment
    exact absurd (LineForm.head?_of_isComment hcomment) (hplain hfork).1.1
  case expression =>
    intro s s' hfork _ hnone
    rw [expression?_eq_none_iff] at hnone ⊢
    rw [← Bool.not_eq_true] at hnone ⊢
    exact mt (hplain hfork).2.1 hnone
  case component =>
    intro s s' hfork hopens
    exact absurd (LineForm.head?_of_opensTag hopens) (hplain hfork).1.1
  case tag =>
    intro s s' hfork _
    exact hread (hplain hfork).1.2
  case closing =>
    intro s s' tag hfork htag
    rw [hread (hplain hfork).1.1] at htag
    cases htag

end Narration.Markup.Block
