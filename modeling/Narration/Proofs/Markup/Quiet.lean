import Narration.Player.Insertion
import Narration.Proofs.Fallible
import Narration.Proofs.Markup.Below.Block
import Narration.Proofs.Markup.Modules
import Narration.Proofs.Text.Find

/-!
# Blocks without content

Modules, code, comments, expressions and lines of their own are read from their own characters.

* `Block.quiet?` : such a block at the front of a text, with its length;
* `Block.next_of_quiet?`, `Block.quiet?_of_next` : it is the next block;
* `Block.quiet?_exchange` : the same block when what follows it is exchanged.
-/

namespace Narration.Markup.Block
open Fallible
open Text (firstLine EndsLine)
open Player (isContent)

/-- What a reader makes of the front of a text without looking into containers: the kind of the block and its
length. -/
def Reader.quiet? (t : Text) : Reader → Option (Kind × Nat)
  | modules => some (.modules (Text.trimEnd (t.take (modulesLength 0 0 t))), modulesLength 0 0 t)
  | fence mark length =>
    let r := Block.fence ⟨[], []⟩ ⟨0, t⟩ mark length
    some (r.1.kind, r.2)
  | comment =>
    (Text.find? (Text.trimStart t) ['-', '-', '>']).map fun n =>
      (.raw ((Text.trimStart t).take (n + 3)), Text.indent t + ((Text.trimStart t).take (n + 3)).length)
  | expression => do
    let (source, length) ← Tag.braced? (Text.trimStart t)
    if Text.allBlank (firstLine ((Text.trimStart t).drop length)) then
      some (.expression source, Text.indent t + min length (Text.trimStart t).length)
    else none
  | rawLine => some (.raw (Text.trim (firstLine t)), min ((firstLine t).length + 1) t.length)
  | _ => none

/-- A block without content at the front of a text: its kind and its length. -/
def quiet? (t : Text) : Option (Kind × Nat) :=
  (readerOf true (firstLine t) (isTable ⟨0, t⟩)).quiet? t

variable {scope scope' : Scope} {inner inner' : Inner} {a stop n : Nat} {t q e e' : Text} {kind : Kind} {node : Node}

/-! ## What readers make -/

theorem indent_le (t : Text) : Text.indent t ≤ t.length := (List.takeWhile_sublist _).length_le

theorem trimStart_mk (a : Nat) (t : Text) :
    (⟨a, t⟩ : Stretch).trimStart = ⟨a + Text.indent t, Text.trimStart t⟩ := by
  rw [Stretch.trimStart, Stretch.drop, Nat.min_eq_left (indent_le t), Text.drop_indent]

theorem fence_mk (scope : Scope) (a : Nat) (t : Text) (mark : Char) (length : Nat) : ∃ position,
    fence scope ⟨a, t⟩ mark length = (.mk (fence ⟨[], []⟩ ⟨0, t⟩ mark length).1.kind [] (some position),
      a + (fence ⟨[], []⟩ ⟨0, t⟩ mark length).2) := by
  have hshift : (⟨a, t⟩ : Stretch) = (⟨0, t⟩ : Stretch).shift a := by rw [Stretch.shift, Nat.zero_add]
  rw [hshift]
  simp only [fence, Stretch.afterLine_shift, Stretch.line_shift, Stretch.trim_shift, Stretch.chars_shift,
    fenceEnd?_shift]
  cases fenceEnd? mark length (⟨0, t⟩ : Stretch).afterLine.chars.length (⟨0, t⟩ : Stretch).afterLine with
  | none =>
    simp only [Option.map_none, Stretch.stop_shift, Nat.add_comm a]
    exact ⟨_, rfl⟩
  | some closing =>
    simp only [Option.map_some, Stretch.start_shift, Stretch.till_shift, Stretch.chars_shift, Stretch.afterLine_shift,
      Nat.add_comm a]
    exact ⟨_, rfl⟩

theorem read_of_quiet? {r : Reader} (h : r.quiet? t = some (kind, n)) (scope : Scope) (inner : Inner) (a : Nat) :
    ∃ position, r.read scope inner ⟨a, t⟩ = .ok (.mk kind [] (some position), a + n) := by
  cases r with
  | modules =>
    cases h
    simp only [Reader.read, modules, Stretch.take, Stretch.stop, List.length_take,
      Nat.min_eq_left (modulesLength_le 0 t)]
    exact ⟨_, rfl⟩
  | fence mark length =>
    cases h
    obtain ⟨position, hfence⟩ := fence_mk scope a t mark length
    exact ⟨position, congrArg _ hfence⟩
  | comment =>
    obtain ⟨m, hm, hk⟩ := Option.map_eq_some_iff.1 h
    cases hk
    simp only [Reader.read, trimStart_mk, comment?, hm, Option.bind_eq_bind, Option.bind_some, orParagraph,
      Stretch.take, Stretch.stop, Nat.add_assoc]
    exact ⟨_, rfl⟩
  | expression =>
    obtain ⟨⟨source, length⟩, hm, hk⟩ := Option.bind_eq_some_iff.1 h
    dsimp only at hk
    split at hk
    · next hblank =>
      cases hk
      simp only [Reader.read, trimStart_mk, expression?, hm, Option.bind_eq_bind, Option.bind_some, Stretch.lineBlank,
        Stretch.line, Stretch.drop, hblank, if_true, orParagraph, Nat.add_assoc]
      exact ⟨_, rfl⟩
    · cases hk
  | rawLine =>
    cases h
    exact ⟨_, rfl⟩
  | _ => cases h

theorem isContent_of_paragraph {s : Stretch} (h : paragraph scope inner s = .ok (node, stop)) :
    isContent node.kind := by
  unfold paragraph at h
  dsimp only at h
  split at h
  all_goals
    obtain ⟨children, -, h⟩ := bind_eq_ok.1 h
    cases h
    rfl

theorem Tag.read?_comment (o : Nat) (u : Text) : Tag.read? o ('<' :: '!' :: u) = none := rfl

/-- Markup that begins with a tag begins with a bracket and is no comment. -/
theorem tag_not_isComment {s : Stretch} {tag : Tag} (h : Tag.read? s.start s.chars = some tag) :
    (s.till tag.stop).chars.head? = some '<' ∧ ¬LineForm.isComment (s.till tag.stop).chars := by
  have hlt := Tag.lt_stop_of_read? h
  obtain ⟨n, hn⟩ : ∃ n, tag.stop - s.start = n + 1 := ⟨tag.stop - s.start - 1, by omega⟩
  rw [Stretch.chars_till, hn]
  cases hs : s.chars with
  | nil =>
    rw [hs] at h
    cases h
  | cons c t =>
    rw [hs] at h
    obtain rfl : c = '<' := Option.some.inj (Tag.head?_of_read? h)
    refine ⟨rfl, fun hcomment => ?_⟩
    obtain ⟨rest, hrest⟩ := Option.isSome_iff_exists.1 hcomment
    rw [List.take_succ_cons, Text.after?, if_pos rfl] at hrest
    have hhead := LineForm.head?_of_after? hrest
    cases t with
    | nil => simp at hhead
    | cons d t =>
      have hd : d = '!' := by
        cases n with
        | zero => simp at hhead
        | succ n => simpa using hhead
      rw [hd, Tag.read?_comment] at h
      cases h

/-- A tag at the front makes a component or raw markup that is no comment. -/
theorem isContent_or_tag {s : Stretch} (h : component? scope inner s = .ok (some (node, stop)))
    (hcontent : isContent node.kind = false)
    (hraw : ∀ source, node.kind = .raw source → source.head? = some '<' → LineForm.isComment source) : False := by
  obtain ⟨tag, htag, h⟩ := component?_eq_some.1 h
  cases h with
  | stray =>
    obtain ⟨hhead, hcomment⟩ := tag_not_isComment htag
    exact hcomment (hraw _ rfl hhead)
  | single | pair => cases hcontent

theorem start_le_stop_fenceEnd {mark : Char} {length fuel : Nat} {s closing : Stretch}
    (h : fenceEnd? mark length fuel s = some closing) : closing.stop = s.stop := by
  induction fuel generalizing s with
  | zero => cases h
  | succ fuel ih =>
    unfold fenceEnd? at h
    split at h
    · cases h
    · split at h
      · cases h
        rfl
      · exact (ih h).trans (s.stop_drop _)

theorem fence_le (scope : Scope) (s : Stretch) (mark : Char) (length : Nat) :
    (fence scope s mark length).2 ≤ s.stop := by
  unfold fence
  dsimp only
  split
  · next closing h =>
    rw [← s.stop_drop (s.line.chars.length + 1)]
    refine Nat.le_trans ?_ (Nat.le_of_eq (start_le_stop_fenceEnd h))
    exact Nat.add_le_add_left (Nat.min_le_right _ _) _
  · exact Nat.le_refl _

/-- A reader that makes a node without content makes it from the characters at the front. -/
theorem quiet?_of_read {r : Reader} (h : r.read scope inner ⟨a, t⟩ = .ok (node, stop))
    (hcontent : isContent node.kind = false)
    (hraw : ∀ source, node.kind = .raw source → source.head? = some '<' → LineForm.isComment source) :
    ∃ n, r.quiet? t = some (node.kind, n) ∧ stop = a + n ∧ n ≤ t.length := by
  have hparagraph {s : Stretch} (h : paragraph scope inner s = .ok (node, stop)) : False := by
    rw [isContent_of_paragraph h] at hcontent
    cases hcontent
  cases r with
  | modules =>
    cases h
    refine ⟨_, rfl, ?_, modulesLength_le 0 t⟩
    rw [Stretch.stop, Stretch.take, List.length_take, Nat.min_eq_left (modulesLength_le 0 t)]
  | fence mark length =>
    obtain ⟨position, hfence⟩ := fence_mk scope a t mark length
    rw [Reader.read, hfence] at h
    cases h
    exact ⟨_, rfl, rfl, by simpa [Stretch.stop] using fence_le ⟨[], []⟩ ⟨0, t⟩ mark length⟩
  | comment =>
    simp only [Reader.read, trimStart_mk, comment?] at h
    cases hm : Text.find? (Text.trimStart t) ['-', '-', '>'] with
    | none =>
      rw [hm] at h
      exact (hparagraph h).elim
    | some m =>
      rw [hm] at h
      cases h
      refine ⟨_, by rw [Reader.quiet?, hm]; rfl, Nat.add_assoc _ _ _, ?_⟩
      have hlength := congrArg List.length (Text.drop_indent t)
      rw [List.length_drop] at hlength
      have := indent_le t
      simp only [Stretch.chars_take, List.length_take]
      omega
  | expression =>
    simp only [Reader.read, trimStart_mk, expression?] at h
    cases hm : Tag.braced? (Text.trimStart t) with
    | none =>
      rw [hm] at h
      exact (hparagraph h).elim
    | some r =>
      obtain ⟨source, length⟩ := r
      rw [hm] at h
      by_cases hblank : Text.allBlank (firstLine ((Text.trimStart t).drop length))
      · simp only [Option.bind_eq_bind, Option.bind_some, Stretch.lineBlank, Stretch.line, Stretch.drop, hblank,
          if_true, orParagraph] at h
        cases h
        refine ⟨_, ?_, Nat.add_assoc _ _ _, ?_⟩
        · simp only [Reader.quiet?, hm, Option.bind_eq_bind, Option.bind_some, hblank, if_true]
          rfl
        · have hlength := congrArg List.length (Text.drop_indent t)
          rw [List.length_drop] at hlength
          have := indent_le t
          omega
      · simp only [Option.bind_eq_bind, Option.bind_some, Stretch.lineBlank, Stretch.line, Stretch.drop, hblank,
          orParagraph] at h
        exact (hparagraph h).elim
  | rawLine =>
    cases h
    refine ⟨_, rfl, rfl, Nat.min_le_right _ _⟩
  | component =>
    obtain ⟨r, hr, h⟩ := bind_eq_ok.1 h
    cases r with
    | none => exact (hparagraph h).elim
    | some r =>
      cases h
      exact (isContent_or_tag hr hcontent hraw).elim
  | heading depth place length =>
    simp only [Reader.read, heading] at h
    split at h
    all_goals
      obtain ⟨children, -, h⟩ := bind_eq_ok.1 h
      cases h
      cases hcontent
  | table =>
    obtain ⟨⟨nodes, last, next⟩, -, h⟩ := bind_eq_ok.1 h
    cases h
    cases hcontent
  | quote =>
    obtain ⟨children, -, h⟩ := bind_eq_ok.1 h
    cases h
    cases hcontent
  | list =>
    obtain ⟨⟨nodes, last, next⟩, -, h⟩ := bind_eq_ok.1 h
    cases h
    cases hcontent
  | paragraph => exact (hparagraph h).elim

theorem next_mk (top : Bool) (a : Nat) (t : Text) : next scope inner top ⟨a, t⟩ =
    (readerOf top (firstLine t) (isTable ⟨0, t⟩)).read scope inner ⟨a, t⟩ := by
  have hshift : (⟨a, t⟩ : Stretch) = (⟨0, t⟩ : Stretch).shift a := by rw [Stretch.shift, Nat.zero_add]
  rw [next_eq, hshift, isTable_shift]
  rfl

theorem next_of_quiet? (h : quiet? t = some (kind, n)) (scope : Scope) (inner : Inner) (a : Nat) :
    ∃ position, next scope inner true ⟨a, t⟩ = .ok (.mk kind [] (some position), a + n) := by
  rw [next_mk]
  exact read_of_quiet? h scope inner a

theorem quiet?_of_next (h : next scope inner true ⟨a, t⟩ = .ok (node, stop)) (hcontent : isContent node.kind = false)
    (hraw : ∀ source, node.kind = .raw source → source.head? = some '<' → LineForm.isComment source) :
    ∃ n, quiet? t = some (node.kind, n) ∧ stop = a + n ∧ n ≤ t.length := by
  rw [next_mk] at h
  exact quiet?_of_read h hcontent hraw

/-! ## Exchanging what follows -/

/-- The first line of a text lies within its first part when it is shorter than that part. -/
theorem exists_line {x : Text} (h : (firstLine (x ++ e)).length < x.length) :
    ∃ l x', x = l ++ '\n' :: x' ∧ '\n' ∉ l := by
  by_cases hx : '\n' ∈ x
  · exact Text.firstLine_of_mem hx
  · rw [Text.firstLine_append_of_notMem hx, List.length_append] at h
    omega

theorem fenceEnd?_exchange (e' : Text) {mark : Char} {length fuel fuel' : Nat} {x : Text} {closing : Stretch} (he : e ≠ [])
    (h : fenceEnd? mark length fuel ⟨a, x ++ e⟩ = some closing) (hstop : closing.afterLine.start = a + x.length)
    (hfuel : (x ++ e').length ≤ fuel') : ∃ closing', fenceEnd? mark length fuel' ⟨a, x ++ e'⟩ = some closing' ∧
      closing'.start = closing.start ∧ closing'.afterLine.start = a + x.length := by
  have hpos := List.length_pos_iff.2 he
  induction fuel generalizing a x fuel' with
  | zero => cases h
  | succ fuel ih =>
    have hle : (⟨a, x ++ e⟩ : Stretch).afterLine.start ≤ a + x.length := by
      unfold fenceEnd? at h
      split at h
      · cases h
      · split at h
        · cases h
          exact Nat.le_of_eq hstop
        · exact hstop ▸ Nat.le_trans (start_le_fenceEnd h) closing.start_le_afterLine
    have hlt : (firstLine (x ++ e)).length < x.length := by
      simp only [Stretch.afterLine, Stretch.start_drop, Stretch.chars_line, List.length_append] at hle
      unfold firstLine
      omega
    obtain ⟨l, x', rfl, hl⟩ := exists_line hlt
    cases fuel' with
    | zero => simp at hfuel
    | succ fuel' =>
      simp only [List.append_assoc, List.cons_append] at h hfuel ⊢
      unfold fenceEnd? at h ⊢
      rw [Stretch.line_mk hl, Stretch.afterLine_mk hl] at h ⊢
      rw [if_neg (by simp)] at h ⊢
      split at h
      · next hcloses =>
        cases h
        rw [Stretch.afterLine_mk hl] at hstop
        refine ⟨_, if_pos hcloses, rfl, ?_⟩
        rw [Stretch.afterLine_mk hl, hstop]
      · next hcloses =>
        rw [if_neg hcloses]
        have hlength : a + (l ++ '\n' :: x').length = a + (l.length + 1) + x'.length := by
          rw [List.length_append, List.length_cons]
          omega
        rw [hlength] at hstop ⊢
        exact ih h hstop (by simp only [List.length_append, List.length_cons] at hfuel ⊢; omega)

theorem fence_exchange (scope : Scope) (e' : Text) {mark : Char} {length : Nat} (he : e ≠ [])
    (h : (fence scope ⟨0, q ++ e⟩ mark length).2 = q.length) :
    (fence scope ⟨0, q ++ e'⟩ mark length).1.kind = (fence scope ⟨0, q ++ e⟩ mark length).1.kind ∧
      (fence scope ⟨0, q ++ e'⟩ mark length).2 = q.length := by
  have hpos := List.length_pos_iff.2 he
  unfold fence at h ⊢
  dsimp only at h ⊢
  cases hend : fenceEnd? mark length (⟨0, q ++ e⟩ : Stretch).afterLine.chars.length
      (⟨0, q ++ e⟩ : Stretch).afterLine with
  | none =>
    rw [hend] at h
    simp only [Stretch.stop, List.length_append] at h
    omega
  | some closing =>
    rw [hend] at h
    dsimp only at h
    have hle := start_le_fenceEnd hend
    have hlt : (firstLine (q ++ e)).length < q.length := by
      have := closing.start_le_afterLine
      simp only [Stretch.afterLine, Stretch.start_drop, Stretch.chars_line, List.length_append] at hle this h
      unfold firstLine
      omega
    obtain ⟨l, x, rfl, hl⟩ := exists_line hlt
    have hlength : (l ++ '\n' :: x).length = 0 + (l.length + 1) + x.length := by
      rw [List.length_append, List.length_cons]
      omega
    simp only [List.append_assoc, List.cons_append, hlength] at h hend ⊢
    rw [Stretch.afterLine_mk hl] at hend ⊢
    rw [Stretch.line_mk hl]
    obtain ⟨closing', hend', hstart, hstop⟩ := fenceEnd?_exchange e' he hend h (Nat.le_refl _)
    rw [Stretch.afterLine_mk hl, Stretch.line_mk hl, hend']
    have hinside : closing.start - (0 + (l.length + 1)) ≤ x.length := by
      have := closing.start_le_afterLine
      omega
    have hcode : (⟨0 + (l.length + 1), x ++ e'⟩ : Stretch).till closing'.start =
        (⟨0 + (l.length + 1), x ++ e⟩ : Stretch).till closing.start := by
      rw [hstart, Stretch.till, Stretch.till, Stretch.take, Stretch.take]
      dsimp only
      rw [List.take_append_of_le_length hinside, List.take_append_of_le_length hinside]
    dsimp only
    rw [hcode]
    exact ⟨rfl, hstop⟩

theorem Reader.quiet?_exchange {r : Reader} (h : r.quiet? (q ++ e) = some (kind, q.length)) (he : e ≠ [])
    (hfirst : firstLine (q ++ e) = firstLine (q ++ e'))
    (hblank : Text.allBlank (firstLine e) → Text.allBlank (firstLine e'))
    (hmodules : r = .modules → modulesLength 0 0 (q ++ e') = q.length) :
    r.quiet? (q ++ e') = some (kind, q.length) := by
  have hstart {m : Nat} (hm : q.length = Text.indent (q ++ e) + m) (hpos : 0 < m) :
      m = (Text.trimStart q).length ∧ ∀ e, Text.indent (q ++ e) = Text.indent q ∧
        Text.trimStart (q ++ e) = Text.trimStart q ++ e := by
    have hq := Text.not_allBlank_of_indent_lt (u := q) (v := e) (by omega)
    have hlength := congrArg List.length (Text.drop_indent q)
    rw [List.length_drop] at hlength
    rw [Text.indent_append_of_not_allBlank hq] at hm
    exact ⟨by omega, fun e => ⟨Text.indent_append_of_not_allBlank hq e, Text.trimStart_append_of_not_allBlank hq e⟩⟩
  cases r with
  | modules =>
    simp only [Reader.quiet?, Option.some.injEq, Prod.mk.injEq] at h ⊢
    rw [h.2, List.take_left] at h
    rw [hmodules rfl, List.take_left]
    exact ⟨h.1, rfl⟩
  | fence mark length =>
    simp only [Reader.quiet?, Option.some.injEq, Prod.mk.injEq] at h ⊢
    have hfence := fence_exchange ⟨[], []⟩ e' he h.2
    exact ⟨hfence.1.trans h.1, hfence.2⟩
  | comment =>
    obtain ⟨m, hm, hk⟩ := Option.map_eq_some_iff.1 h
    simp only [Prod.mk.injEq] at hk
    have hle : m + 3 ≤ (Text.trimStart (q ++ e)).length := Text.find?_le hm
    rw [List.length_take, Nat.min_eq_left hle] at hk
    obtain ⟨hlength, happend⟩ := hstart hk.2.symm (Nat.succ_pos _)
    rw [(happend e).2] at hm hk
    have hm' := Text.find?_exchange (by simp) hm (Nat.le_of_eq hlength) e'
    refine Option.map_eq_some_iff.2 ⟨m, by rw [(happend e').2]; exact hm', ?_⟩
    rw [hlength, List.take_left] at hk
    rw [(happend e').1, (happend e').2, hlength, List.take_left, ← hk.1, ← hk.2, (happend e).1]
  | expression =>
    obtain ⟨⟨source, m⟩, hm, hk⟩ := Option.bind_eq_some_iff.1 h
    obtain ⟨m, hbraces, hsource⟩ := Option.bind_eq_some_iff.1 hm
    cases hsource
    dsimp only at hk
    split at hk
    · next hrest =>
      simp only [Option.some.injEq, Prod.mk.injEq] at hk
      have hpos : 0 < min m (Text.trimStart (q ++ e)).length := by
        have := List.length_pos_iff.2 (Braces.balanced?_ne_nil hbraces)
        have := Braces.balanced?_pos hbraces
        omega
      obtain ⟨hlength, happend⟩ := hstart hk.2.symm hpos
      rw [(happend e).2] at hbraces hrest hk hlength
      have hmq : m = (Text.trimStart q).length := by
        have := List.length_pos_iff.2 he
        rw [List.length_append] at hlength
        omega
      subst hmq
      have hbraces' := Braces.balanced?_exchange hbraces (Nat.le_refl _) e'
      have hmin (e : Text) : min (Text.trimStart q).length (Text.trimStart q ++ e).length =
          (Text.trimStart q).length := by
        rw [List.length_append]
        omega
      have htake (e : Text) : (Text.trimStart q ++ e).take ((Text.trimStart q).length - 1) =
          (Text.trimStart q).take ((Text.trimStart q).length - 1) :=
        List.take_append_of_le_length (Nat.sub_le _ _)
      rw [List.drop_left] at hrest
      rw [hmin, htake, (happend e).1] at hk
      simp only [Reader.quiet?, (happend e').1, (happend e').2, Tag.braced?, hbraces', Option.bind_eq_bind,
        Option.bind_some, Option.pure_def, List.drop_left, hblank hrest, if_true, hmin, htake, hk.1, hk.2]
    · cases hk
  | rawLine =>
    simp only [Reader.quiet?, Option.some.injEq, Prod.mk.injEq, List.length_append] at h ⊢
    have := List.length_pos_iff.2 he
    rw [hfirst] at h
    exact ⟨h.1, by omega⟩
  | _ => cases h

theorem lateReader_of_quiet? {line : Text} {table : Bool} {r : Kind × Nat}
    (h : (lateReader line table).quiet? t = some r) : table = false ∧ lateReader line table = .rawLine := by
  unfold lateReader at h ⊢
  dsimp only at h ⊢
  split at h
  · cases h
  · next htable =>
    rw [if_neg htable]
    split at h
    · cases h
    · next hquote =>
      rw [if_neg hquote]
      split at h
      · cases h
      · next hlist =>
        rw [if_neg hlist]
        split at h
        · next hdefinition => exact ⟨by simpa using htable, if_pos hdefinition⟩
        · cases h

/-- A block without content is the same when what follows it is exchanged, provided that its line and the end of
its modules stay and that no table comes about. -/
theorem quiet?_exchange (h : quiet? (q ++ e) = some (kind, q.length)) (he : e ≠ [])
    (hfirst : firstLine (q ++ e) = firstLine (q ++ e'))
    (hblank : Text.allBlank (firstLine e) → Text.allBlank (firstLine e'))
    (hmodules : readerOf true (firstLine (q ++ e)) (isTable ⟨0, q ++ e⟩) = .modules →
      modulesLength 0 0 (q ++ e') = q.length)
    (htable : '\n' ∈ q → isTable ⟨0, q ++ e'⟩ → isTable ⟨0, q ++ e⟩) : quiet? (q ++ e') = some (kind, q.length) := by
  unfold quiet? at h ⊢
  have hreader : readerOf true (firstLine (q ++ e')) (isTable ⟨0, q ++ e'⟩) =
      readerOf true (firstLine (q ++ e)) (isTable ⟨0, q ++ e⟩) := by
    rw [← hfirst]
    cases hearly : earlyReader? true (firstLine (q ++ e)) with
    | some r => rw [readerOf, readerOf, hearly, Option.getD_some, Option.getD_some]
    | none =>
      rw [readerOf, hearly, Option.getD_none] at h
      rw [readerOf, readerOf, hearly, Option.getD_none, Option.getD_none]
      obtain ⟨htable', hraw⟩ := lateReader_of_quiet? h
      have hmem : '\n' ∈ q := by
        rw [hraw] at h
        have hlength := (Prod.mk.inj (Option.some.inj h)).2
        have := List.length_pos_iff.2 he
        rw [List.length_append] at hlength
        obtain ⟨l, x, rfl, -⟩ := exists_line (x := q) (e := e) (by omega)
        simp
      have hplain' : isTable ⟨0, q ++ e'⟩ = false := by
        rw [← Bool.not_eq_true]
        intro hnew
        rw [htable hmem hnew] at htable'
        cases htable'
      rw [htable', hplain']
  rw [hreader]
  exact Reader.quiet?_exchange h he hfirst hblank hmodules

end Narration.Markup.Block
