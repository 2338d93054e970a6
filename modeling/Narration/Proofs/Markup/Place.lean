import Narration.Proofs.Markup.Passage

/-!
# The lines of blocks

* `Scope.lineOf_length`, `Scope.endLine_position` : the line of a place in a text, and the last line of a piece;
* `Block.IsPiece`, `Block.FromParts` : pieces of the lines of a stretch, and what is read from them;
* `Block.Made`, `Block.next_made` : what a block is, and what it holds;
* `Block.isEmbedded`, `Block.embedded_of_next` : which blocks are expressions and components;
* `Block.startLine_next` : a block begins on the first line of what it is read from.
-/

namespace Narration.Markup

theorem lt_of_mem_lineStartsAfter {o i : Nat} {t : Text} (h : i ∈ lineStartsAfter o t) : o < i := by
  induction t generalizing o with
  | nil => cases h
  | cons c t ih =>
    rw [lineStartsAfter] at h
    split at h
    · rcases List.mem_cons.1 h with rfl | h
      · exact Nat.lt_succ_self o
      · exact Nat.lt_of_succ_lt (ih h)
    · exact Nat.lt_of_succ_lt (ih h)

theorem Scope.lineOf_mono (scope : Scope) {o o' : Nat} (h : o ≤ o') : scope.lineOf o ≤ scope.lineOf o' :=
  List.countP_mono_left fun i _ hi => by
    simp only [decide_eq_true_eq] at hi ⊢
    exact Nat.le_trans hi h

theorem Scope.lineOf_length (u v : Text) (references : List Reference) :
    (ofText (u ++ v) references).lineOf u.length = u.count '\n' + 1 := by
  have hbelow := (below_ofText u v references).lineOf 0
  have hfirst : (ofText v references).lineOf 0 = 1 := by
    have hnone : (lineStartsAfter 0 v).countP (· ≤ 0) = 0 := by
      rw [List.countP_eq_zero]
      intro i hi
      have := lt_of_mem_lineStartsAfter hi
      simp only [decide_eq_true_eq]
      omega
    rw [lineOf, ofText, List.countP_cons, hnone]
    rfl
  rw [Nat.zero_add, hfirst] at hbelow
  rw [hbelow, Nat.add_comm]

/-- The line of an offset within a text. -/
theorem Scope.lineOf_eq {t : Text} {o : Nat} (h : o ≤ t.length) (references : List Reference) :
    (ofText t references).lineOf o = 1 + (t.take o).count '\n' := by
  have hlineOf := lineOf_length (t.take o) (t.drop o) references
  rwa [List.take_append_drop, List.length_take_of_le h, Nat.add_comm] at hlineOf

/-- A piece that does not end with a line feed ends on the line of its last character. -/
theorem Scope.endLine_position {m : Text} (hm : m ≠ []) (hlast : m.getLast? ≠ some '\n') (u v : Text)
    (references : List Reference) :
    ((ofText (u ++ m ++ v) references).position u.length (u.length + m.length)).endLine = (u ++ m).count '\n' + 1 := by
  obtain ⟨w, c, rfl⟩ : ∃ w c, m = w ++ [c] := ⟨m.dropLast, m.getLast hm, (List.dropLast_append_getLast hm).symm⟩
  have hc : c ≠ '\n' := by
    rintro rfl
    exact hlast (by simp)
  have hplace : max u.length (u.length + (w ++ [c]).length - 1) = (u ++ w).length := by
    simp only [List.length_append, List.length_singleton]
    omega
  have htext : u ++ (w ++ [c]) ++ v = u ++ w ++ (c :: v) := by simp
  have hcount : (u ++ (w ++ [c])).count '\n' = (u ++ w).count '\n' := by
    rw [← List.append_assoc, List.count_append, List.count_singleton, if_neg (by simpa using hc), Nat.add_zero]
  rw [position, hplace, htext, lineOf_length, hcount]

namespace Block
open Fallible
open Text (firstLine EndsLine)

variable {scope : Scope} {inner : Inner} {s : Stretch} {node : Node} {stop : Nat} {top : Bool}

/-- A place on the first line, among the blanks at its front. -/
def AtFront (s : Stretch) (o : Nat) : Prop := s.start ≤ o ∧ o ≤ s.trimStart.start

/-- Whether a kind is that of front matter. -/
def isFrontMatter : Kind → Bool
  | .frontMatter _ => true
  | _ => false

/-- Characters of one line of a stretch. -/
structure IsPiece (s p : Stretch) : Prop where
  line : '\n' ∉ p.chars
  stop_le : p.stop ≤ s.stop

/-- Blocks that are read from pieces of the lines of a stretch. -/
def FromParts (inner : Inner) (s : Stretch) (ns : List Node) : Prop :=
  ∃ parts, (∀ p ∈ parts, IsPiece s p) ∧ inner.parts parts = .ok ns

/-- What a block of some kind holds: a quote holds blocks of pieces of lines, a list items that do. Items are no blocks
themselves, nor is front matter. -/
def Holds (scope : Scope) (inner : Inner) (s : Stretch) : Kind → List Node → Prop
  | .quote, children => FromParts inner s children
  | .list _, children =>
    ∀ c ∈ children, ∃ first stop cs, c = scope.node .listItem first stop cs ∧ first ≤ s.stop ∧ FromParts inner s cs
  | .listItem, _ | .frontMatter _, _ => False
  | _, _ => True

/-- A block that is made from a stretch and begins on its first line. -/
def Made (scope : Scope) (inner : Inner) (s : Stretch) (node : Node) : Prop :=
  ∃ kind first stop children, node = scope.node kind first stop children ∧ AtFront s first ∧
    Holds scope inner s kind children

theorem made_node {kind : Kind} {children : List Node} {o : Nat} (h : AtFront s o) (stop : Nat)
    (hholds : Holds scope inner s kind children := by trivial) : Made scope inner s (scope.node kind o stop children) :=
  ⟨kind, o, stop, children, rfl, h, hholds⟩

theorem Made.isFrontMatter_eq (h : Made scope inner s node) : isFrontMatter node.kind = false := by
  obtain ⟨kind, first, stop, children, rfl, -, hholds⟩ := h
  cases kind <;> first | rfl | cases hholds

theorem Made.ne_listItem (h : Made scope inner s node) : node.kind ≠ .listItem := by
  obtain ⟨kind, first, stop, children, rfl, -, hholds⟩ := h
  rintro hkind
  obtain rfl : kind = .listItem := hkind
  exact hholds

theorem atFront_start (s : Stretch) : AtFront s s.start := ⟨Nat.le_refl _, s.start_le_trimStart⟩

theorem atFront_trimStart (s : Stretch) : AtFront s s.trimStart.start := ⟨s.start_le_trimStart, Nat.le_refl _⟩

theorem indent_line_le (s : Stretch) : Text.indent s.line.chars ≤ Text.indent s.chars := by
  obtain ⟨v, hv, -⟩ := Text.exists_afterFirstLine s.chars
  have hle := Text.indent_le_append (firstLine s.chars) v
  rwa [← hv] at hle

theorem atFront_line (s : Stretch) : AtFront s s.line.trimStart.start := by
  have hindent := indent_line_le s
  have hlength := s.length_line_le
  refine ⟨s.line.start_le_trimStart, ?_⟩
  simp only [Stretch.trimStart, Stretch.start_drop, Stretch.start_line]
  omega

/-- Nothing is left out at the front of a stretch that begins with a character. -/
theorem start_trim_till (s : Stretch) (o : Nat) : (s.trimStart.till o).trim.start = s.trimStart.start := by
  have hzero : Text.indent (s.trimStart.till o).chars = 0 := by
    rw [Stretch.chars_till, Stretch.chars_trimStart]
    generalize o - s.trimStart.start = n
    have hle := Text.indent_le_append ((Text.trimStart s.chars).take n) ((Text.trimStart s.chars).drop n)
    rw [List.take_append_drop, Text.indent_trimStart] at hle
    exact Nat.le_zero.1 hle
  rw [Stretch.trim, Stretch.trimStart, hzero, Stretch.start_drop, Nat.zero_min]
  rfl

theorem made_paragraph (h : paragraph scope inner s = .ok (node, stop)) : Made scope inner s node := by
  unfold paragraph at h
  dsimp only at h
  split at h
  · obtain ⟨children, -, h⟩ := bind_eq_ok.1 h
    cases h
    exact made_node (atFront_trimStart s) _
  · obtain ⟨children, -, h⟩ := bind_eq_ok.1 h
    cases h
    refine made_node ?_ _
    rw [start_trim_till]
    exact atFront_trimStart s

theorem made_component (h : component? scope inner s.trimStart = .ok (some (node, stop))) : Made scope inner s node := by
  obtain ⟨tag, -, h⟩ := component?_eq_some.1 h
  cases h with
  | stray | single | pair => exact made_node (atFront_trimStart s) _

/-! ## Pieces of lines -/

theorem IsPiece.mono {s' p : Stretch} (h : IsPiece s p) (hs : s.stop ≤ s'.stop) : IsPiece s' p :=
  ⟨h.line, h.stop_le.trans hs⟩

theorem isPiece_line (s : Stretch) : IsPiece s s.line := ⟨Text.newline_notMem_firstLine s.chars, s.stop_line_le⟩

theorem IsPiece.drop {p : Stretch} (h : IsPiece s p) (n : Nat) : IsPiece s (p.drop n) :=
  ⟨fun hc => h.line (List.mem_of_mem_drop hc), (p.stop_drop n).le.trans h.stop_le⟩

theorem Takes.isPiece {parts : List Stretch} {rest : Stretch} (h : Takes s parts rest) : ∀ p ∈ parts, IsPiece s p := by
  induction h with
  | nil => exact List.forall_mem_nil _
  | @line s _ _ _ n _ ih =>
    exact List.forall_mem_cons.2 ⟨(isPiece_line s).drop n, fun p hp => (ih p hp).mono s.stop_afterLine.le⟩
  | @blank s _ _ _ _ ih =>
    refine List.forall_mem_cons.2 ⟨⟨List.not_mem_nil, ?_⟩, fun p hp => (ih p hp).mono s.stop_afterLine.le⟩
    exact (s.line.stop_take_le 0).trans s.stop_line_le

/-! ## What blocks are -/

theorem ReadsItems.made {base last last' next : Nat} {nodes : List Node} (h : ReadsItems scope inner base last s nodes last' next) :
    ∀ c ∈ nodes, ∃ first stop cs, c = scope.node .listItem first stop cs ∧ first ≤ s.stop ∧ FromParts inner s cs := by
  have hfirst (s : Stretch) : s.start + Text.indent s.line.chars ≤ s.stop :=
    Nat.add_le_add_left ((indent_le _).trans s.length_line_le) s.start
  induction h with
  | none => exact List.forall_mem_nil _
  | last h _ => exact List.forall_mem_singleton.2 ⟨_, _, _, rfl, hfirst _, _, h.takes.isPiece, h.blocks⟩
  | @next _ _ _ _ _ s rest _ _ _ h _ _ ih =>
    refine List.forall_mem_cons.2 ⟨⟨_, _, _, rfl, hfirst _, _, h.takes.isPiece, h.blocks⟩, fun c hc => ?_⟩
    obtain ⟨first, stop, cs, rfl, hle, parts, hparts, hcs⟩ := ih c hc
    obtain ⟨n, hn⟩ := exists_drop_resume rest
    have hstop : (resume rest).stop = s.stop := by rw [hn, rest.stop_drop, h.takes.stop_eq]
    exact ⟨first, stop, cs, rfl, hle.trans hstop.le, parts, fun p hp => (hparts p hp).mono hstop.le, hcs⟩

/-- A block begins on the first line of what it is read from, and holds what its kind tells. -/
theorem next_made (h : next scope inner top s = .ok (node, stop)) : Made scope inner s node := by
  rw [next_eq] at h
  generalize readerOf top s.line.chars (isTable s) = r at h
  cases r with
  | modules =>
    cases h
    exact made_node (atFront_start s) _
  | fence mark length =>
    simp only [Reader.read, fence] at h
    split at h
    all_goals
      cases h
      exact made_node (atFront_line s) _
  | comment =>
    rw [Reader.read] at h
    cases hr : comment? scope s.trimStart with
    | none =>
      rw [hr] at h
      exact made_paragraph h
    | some r =>
      rw [hr] at h
      cases h
      obtain ⟨n, -, hn⟩ := Option.bind_eq_some_iff.1 hr
      cases hn
      exact made_node (atFront_trimStart s) _
  | expression =>
    rw [Reader.read] at h
    cases hr : expression? scope s.trimStart with
    | none =>
      rw [hr] at h
      exact made_paragraph h
    | some r =>
      rw [hr] at h
      cases h
      obtain ⟨n, -, hn⟩ := Option.bind_eq_some_iff.1 hr
      dsimp only at hn
      split at hn
      · cases hn
        exact made_node (atFront_trimStart s) _
      · cases hn
  | component =>
    obtain ⟨r, hr, h⟩ := bind_eq_ok.1 h
    cases r with
    | none => exact made_paragraph h
    | some r =>
      cases h
      exact made_component hr
  | heading depth place length =>
    simp only [Reader.read, heading] at h
    split at h
    all_goals
      obtain ⟨children, -, h⟩ := bind_eq_ok.1 h
      cases h
      exact made_node (atFront_line s) _
  | rawLine =>
    cases h
    exact made_node (atFront_trimStart s) _
  | table =>
    obtain ⟨⟨nodes, last, next⟩, -, h⟩ := bind_eq_ok.1 h
    cases h
    exact made_node (atFront_trimStart s) _
  | quote =>
    obtain ⟨children, hchildren, h⟩ := bind_eq_ok.1 h
    cases h
    exact made_node (atFront_trimStart s) _ ⟨_, (takes_quoteLines _ true s).isPiece, hchildren⟩
  | list =>
    obtain ⟨ordered, nodes, last, hitems, rfl⟩ := exists_items_of_list h
    refine made_node ?_ _ hitems.made
    split
    · exact atFront_start s
    · refine ⟨Nat.le_add_right _ _, ?_⟩
      have hindent := indent_line_le s
      have hlength := indent_le s.chars
      simp only [Stretch.trimStart, Stretch.start_drop]
      omega
  | paragraph => exact made_paragraph h

/-- Whether a kind is that of an expression or a component. -/
def isEmbedded : Kind → Bool
  | .expression _ | .component .. => true
  | _ => false

theorem isEmbedded_of_paragraph (h : paragraph scope inner s = .ok (node, stop)) : isEmbedded node.kind = false := by
  unfold paragraph at h
  dsimp only at h
  split at h
  all_goals
    obtain ⟨children, -, h⟩ := bind_eq_ok.1 h
    cases h
    rfl

/-- Expressions and components stand where they are looked for. -/
theorem embedded_of_next (h : next scope inner top s = .ok (node, stop)) (hkind : isEmbedded node.kind) :
    readerOf top s.line.chars (isTable s) = .expression ∧ expression? scope s.trimStart = some (node, stop) ∨
      component? scope inner s.trimStart = .ok (some (node, stop)) := by
  have hparagraph {p : Prop} (h : paragraph scope inner s = .ok (node, stop)) : p := by
    rw [isEmbedded_of_paragraph h] at hkind
    cases hkind
  rw [next_eq] at h
  generalize readerOf top s.line.chars (isTable s) = r at h ⊢
  cases r with
  | modules | rawLine =>
    cases h
    cases hkind
  | fence mark length =>
    simp only [Reader.read, fence] at h
    split at h
    all_goals
      cases h
      cases hkind
  | comment =>
    rw [Reader.read] at h
    cases hr : comment? scope s.trimStart with
    | none =>
      rw [hr] at h
      exact hparagraph h
    | some r =>
      rw [hr] at h
      cases h
      obtain ⟨n, -, hn⟩ := Option.bind_eq_some_iff.1 hr
      cases hn
      cases hkind
  | expression =>
    rw [Reader.read] at h
    cases hr : expression? scope s.trimStart with
    | none =>
      rw [hr] at h
      exact hparagraph h
    | some r =>
      rw [hr] at h
      cases h
      exact .inl ⟨rfl, rfl⟩
  | component =>
    obtain ⟨r, hr, h⟩ := bind_eq_ok.1 h
    cases r with
    | none => exact hparagraph h
    | some r =>
      cases h
      exact .inr hr
  | heading depth place length =>
    obtain ⟨children, -, rfl, -⟩ := exists_of_heading h
    cases hkind
  | table =>
    obtain ⟨nodes, last, -, rfl⟩ := exists_rows_of_table h
    cases hkind
  | quote =>
    obtain ⟨children, -, h⟩ := bind_eq_ok.1 h
    cases h
    cases hkind
  | list =>
    obtain ⟨ordered, nodes, last, -, rfl⟩ := exists_items_of_list h
    cases hkind
  | paragraph => exact hparagraph h

/-- Before the front of a block stands part of its first line. -/
theorem exists_atFront {a o : Nat} {c : Text} (hc : Text.allBlank (firstLine c) = false) (h : AtFront ⟨a, c⟩ o) :
    ∃ v w, c = v ++ w ∧ '\n' ∉ v ∧ o = a + v.length := by
  obtain ⟨hle, hge⟩ := h
  obtain ⟨j, rfl⟩ := Nat.exists_eq_add_of_le hle
  obtain ⟨v, hv, -⟩ := Text.exists_afterFirstLine c
  have hindent : Text.indent c ≤ (firstLine c).length := by
    rw [hv, Text.indent_append_of_not_allBlank hc, ← hv]
    exact indent_le _
  have hj : j ≤ (firstLine c).length := by
    simp only [Stretch.trimStart, Stretch.start_drop] at hge
    omega
  have hsame : c.take j = (firstLine c).take j := by
    conv_lhs => rw [hv]
    rw [List.take_append_of_le_length hj]
  refine ⟨c.take j, c.drop j, (List.take_append_drop j c).symm, ?_, ?_⟩
  · rw [hsame]
    exact fun hmem => Text.newline_notMem_firstLine c (List.mem_of_mem_take hmem)
  · rw [List.length_take_of_le (Nat.le_trans hj (List.takeWhile_sublist _).length_le)]

theorem lineOf_atFront {u c : Text} {o : Nat} (hc : Text.allBlank (firstLine c) = false) (references : List Reference)
    (h : AtFront ⟨u.length, c⟩ o) : (Scope.ofText (u ++ c) references).lineOf o = u.count '\n' + 1 := by
  obtain ⟨v, w, rfl, hv, rfl⟩ := exists_atFront hc h
  rw [← List.length_append, ← List.append_assoc, Scope.lineOf_length, List.count_append, List.count_eq_zero_of_not_mem hv,
    Nat.add_zero]

/-- The line on which a block begins. -/
theorem startLine_next {u c : Text} {references : List Reference} (hc : Text.allBlank (firstLine c) = false)
    (h : next (Scope.ofText (u ++ c) references) inner true ⟨u.length, c⟩ = .ok (node, stop)) :
    ∃ p, node.position = some p ∧ p.startLine = u.count '\n' + 1 := by
  obtain ⟨kind, first, last, children, rfl, hfirst, -⟩ := next_made h
  exact ⟨_, rfl, lineOf_atFront hc references hfirst⟩

end Block
end Narration.Markup
