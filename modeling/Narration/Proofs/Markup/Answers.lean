import Narration.Markup.Block
import Narration.Proofs.Fallible
import Narration.Proofs.Markup.Stretch

/-!
# What the readers of blocks answer

Each reader is opened once, and what it answers is stated as one case for each way in which it may go.

* `Block.ReadsComponent`, `Block.exists_of_heading` : a tag at the front of a stretch, and a heading;
* `Block.ReadsRows` : the rows of a table;
* `Block.Takes` : pieces of the first lines of a stretch, one for each line, and what follows these lines;
* `Block.takes_quoteLines`, `Block.takes_itemLines` : the lines of a quote and of a list item;
* `Block.ReadsItem`, `Block.ReadsItems` : an item of a list, and items one after another;
* `Block.items_eq_ok`, `Block.exists_items_of_list` : what is answered for the items of a list, and for a list.
-/

namespace Narration.Markup
namespace Stretch

variable (s : Stretch)

theorem since_start_drop (n : Nat) : s.since (s.drop n).start = s.drop n := by
  rw [since, start_drop, Nat.add_sub_cancel_left]
  rcases Nat.le_total n s.chars.length with hle | hle
  · rw [Nat.min_eq_left hle]
  · rw [Nat.min_eq_right hle, drop, drop, List.drop_length, List.drop_of_length_le hle, Nat.min_self, Nat.min_eq_right hle]

theorem drop_drop (n m : Nat) : (s.drop n).drop m = s.drop (n + m) := by
  have hstart : s.start + min n s.chars.length + min m (s.chars.length - n) = s.start + min (n + m) s.chars.length := by omega
  rw [drop, drop, drop, List.drop_drop, List.length_drop, hstart]

theorem exists_drop_skipBlankLines (fuel : Nat) : ∃ n, skipBlankLines fuel s = s.drop n := by
  induction fuel generalizing s with
  | zero => exact ⟨0, s.drop_zero.symm⟩
  | succ fuel ih =>
    unfold skipBlankLines
    split
    · obtain ⟨n, hn⟩ := ih s.afterLine
      exact ⟨_, hn.trans (s.drop_drop _ _)⟩
    · exact ⟨0, s.drop_zero.symm⟩

end Stretch

namespace Block
open Fallible

variable {scope : Scope} {inner : Inner} {s rest : Stretch} {parts : List Stretch} {node : Node} {stop : Nat}

/-! ## Components and headings -/

/-- The reader of what stands between two tags. -/
def Inner.between (inner : Inner) (inside : Stretch) : Except Fault (List Node) :=
  if inside.chars.contains '\n' then inner.blocks inside else inner.content inside

/-- What a tag at the front of a stretch is read as: a tag that stands for nothing, a component of one tag, or a component from
one tag to another. -/
inductive ReadsComponent (scope : Scope) (inner : Inner) (s : Stretch) (tag : Tag) : Result → Prop
  | stray (h : tag.closing ∨ tag.selfClosing = false ∧
      Closing.find? tag.name (s.since tag.stop).start (s.since tag.stop).chars = none) :
      ReadsComponent scope inner s tag (scope.node (.raw (s.till tag.stop).chars) s.start tag.stop, tag.stop)
  | single (hopen : tag.closing = false) (hself : tag.selfClosing) (hends : (s.since tag.stop).lineBlank) :
      ReadsComponent scope inner s tag (scope.node (.component tag.name tag.attributes) s.start tag.stop, tag.stop)
  | pair {first stop : Nat} {children : List Node} (hopen : tag.closing = false) (hself : tag.selfClosing = false)
      (hfind : Closing.find? tag.name (s.since tag.stop).start (s.since tag.stop).chars = some (first, stop))
      (hends : (s.since stop).lineBlank) (hchildren : inner.between ((s.since tag.stop).till first) = .ok children) :
      ReadsComponent scope inner s tag (scope.node (.component tag.name tag.attributes) s.start stop children, stop)

theorem component?_eq_some {r : Result} : component? scope inner s = .ok (some r) ↔
    ∃ tag, Tag.read? s.start s.chars = some tag ∧ ReadsComponent scope inner s tag r := by
  have hbetween (inside : Stretch) (f : List Node → Except Fault (Option Result)) : (if inside.chars.contains '\n' then
      inner.blocks inside >>= f else inner.content inside >>= f) = inner.between inside >>= f := by
    unfold Inner.between
    split <;> rfl
  unfold component?
  constructor
  · intro h
    split at h
    · cases h
    · next tag htag =>
      refine ⟨tag, htag, ?_⟩
      dsimp only at h
      split at h
      · next hclosing =>
        cases h
        exact .stray (.inl hclosing)
      · next hopen =>
        rw [Bool.not_eq_true] at hopen
        split at h
        · next hself =>
          split at h
          · next hends =>
            cases h
            exact .single hopen hself hends
          · cases h
        · next hself =>
          rw [Bool.not_eq_true] at hself
          split at h
          · next hnone =>
            cases h
            exact .stray (.inr ⟨hself, hnone⟩)
          · next first stop hfind =>
            split at h
            · next hends =>
              obtain ⟨children, hchildren, h⟩ := bind_eq_ok.1 ((hbetween _ _).symm.trans h)
              cases h
              exact .pair hopen hself hfind hends hchildren
            · cases h
  · rintro ⟨tag, htag, h⟩
    rw [htag]
    dsimp only
    cases h with
    | stray h =>
      rcases h with hclosing | ⟨hself, hnone⟩
      · rw [if_pos hclosing]
      · rw [hself, hnone, if_neg Bool.false_ne_true, ite_self]
    | single hopen hself hends => rw [if_neg (by simp [hopen]), if_pos hself, if_pos hends]
    | @pair first stop children hopen hself hfind hends hchildren =>
      rw [if_neg (by simp [hopen]), if_neg (by simp [hself]), hfind]
      dsimp only
      rw [if_pos hends]
      exact (hbetween _ _).trans (bind_eq_ok.2 ⟨children, hchildren, rfl⟩)

theorem exists_of_heading {depth place length : Nat} (h : heading scope inner s depth place length = .ok (node, stop)) :
    ∃ children, (children = [] ∨ inner.content ((s.line.trimStart.drop place).take length) = .ok children) ∧
      node = scope.node (.heading depth) s.line.trimStart.start s.line.trimStart.stop children ∧ stop = s.afterLine.start := by
  unfold heading at h
  dsimp only at h
  split at h
  · obtain ⟨children, hchildren, h⟩ := bind_eq_ok.1 h
    cases hchildren
    cases h
    exact ⟨[], .inl rfl, rfl, rfl⟩
  · obtain ⟨children, hchildren, h⟩ := bind_eq_ok.1 h
    cases h
    exact ⟨children, .inr hchildren, rfl, rfl⟩

/-! ## Rows -/

/-- Whether the `n`-th line of a table is none of it. -/
def endsTable (n : Nat) (s : Stretch) : Bool := s.lineBlank || (1 < n && !s.line.chars.contains '|')

/-- The rows of a table from the `n`-th line on, with the end of the last line and the offset at which reading goes on. -/
inductive ReadsRows (scope : Scope) (inner : Inner) : Nat → Nat → Stretch → List Node → Nat → Nat → Prop
  | none {n last : Nat} {s : Stretch} (h : endsTable n s) : ReadsRows scope inner n last s [] last s.start
  | rule {last last' next : Nat} {s : Stretch} {nodes : List Node} (h : endsTable 1 s = false)
      (hrows : ReadsRows scope inner 2 s.line.stop s.afterLine nodes last' next) : ReadsRows scope inner 1 last s nodes last' next
  | row {n last last' next : Nat} {s : Stretch} {node : Node} {nodes : List Node} (hn : n ≠ 1) (h : endsTable n s = false)
      (hrow : row scope inner s.line = .ok node)
      (hrows : ReadsRows scope inner (n + 1) s.line.stop s.afterLine nodes last' next) :
      ReadsRows scope inner n last s (node :: nodes) last' next

theorem ne_nil_of_not_endsTable {n : Nat} (h : endsTable n s = false) : s.chars ≠ [] := by
  intro hnil
  rw [endsTable, Stretch.lineBlank, Stretch.chars_line, hnil] at h
  cases h

theorem length_afterLine_of_not_endsTable {n fuel : Nat} (h : endsTable n s = false) (hfuel : s.chars.length ≤ fuel + 1) :
    s.afterLine.chars.length ≤ fuel := by
  have hpos := List.length_pos_iff.2 (ne_nil_of_not_endsTable h)
  rw [Stretch.chars_afterLine, List.length_drop]
  omega

theorem rows_succ {fuel n last : Nat} : rows scope inner (fuel + 1) n last s =
    if endsTable n s then .ok ([], last, s.start)
    else (if n = 1 then pure [] else (row scope inner s.line).map ([·])) >>= fun own =>
      rows scope inner fuel (n + 1) s.line.stop s.afterLine >>= fun r => pure (own ++ r.1, r.2.1, r.2.2) := by
  have hends : (s.chars.isEmpty || Text.allBlank s.line.chars || (1 < n && !s.line.chars.contains '|')) = endsTable n s := by
    cases hs : s.chars.isEmpty with
    | false => rfl
    | true =>
      rw [List.isEmpty_iff] at hs
      rw [endsTable, Stretch.lineBlank, Stretch.chars_line, hs]
      rfl
  rw [rows]
  dsimp only
  rw [hends]
  refine ite_congr rfl (fun _ => rfl) fun _ => ?_
  split <;> rfl

/-- With a step for every character the rows of a table are read to their end. -/
theorem rows_eq_ok {fuel n last last' next : Nat} {nodes : List Node} (hfuel : s.chars.length ≤ fuel) :
    rows scope inner fuel n last s = .ok (nodes, last', next) ↔ ReadsRows scope inner n last s nodes last' next := by
  constructor
  · intro h
    induction fuel generalizing n last s nodes with
    | zero =>
      have hends : endsTable n s := by
        by_contra hgoes
        exact ne_nil_of_not_endsTable (Bool.not_eq_true _ ▸ hgoes) (List.length_eq_zero_iff.1 (Nat.le_zero.1 hfuel))
      cases h
      exact .none hends
    | succ fuel ih =>
      rw [rows_succ] at h
      split at h
      · next hends =>
        cases h
        exact .none hends
      · next hgoes =>
        rw [Bool.not_eq_true] at hgoes
        obtain ⟨own, hown, h⟩ := bind_eq_ok.1 h
        obtain ⟨⟨nodes, last, next⟩, hrows, h⟩ := bind_eq_ok.1 h
        cases h
        have hrows := ih (length_afterLine_of_not_endsTable hgoes hfuel) hrows
        split at hown
        · next hn =>
          subst hn
          cases hown
          exact .rule hgoes hrows
        · next hn =>
          obtain ⟨node, hrow, rfl⟩ := map_eq_ok.1 hown
          exact .row hn hgoes hrow hrows
  · intro h
    induction h generalizing fuel with
    | @none n last s hends =>
      cases fuel with
      | zero => rfl
      | succ fuel => rw [rows_succ, if_pos hends]
    | rule hgoes _ ih =>
      have hs := ne_nil_of_not_endsTable hgoes
      obtain ⟨fuel, rfl⟩ := Nat.exists_eq_succ_of_ne_zero (Nat.ne_of_gt ((List.length_pos_iff.2 hs).trans_le hfuel))
      rw [rows_succ, if_neg (by simp [hgoes])]
      exact bind_eq_ok.2 ⟨[], rfl, bind_eq_ok.2 ⟨_, ih (length_afterLine_of_not_endsTable hgoes hfuel), rfl⟩⟩
    | row hn hgoes hrow _ ih =>
      have hs := ne_nil_of_not_endsTable hgoes
      obtain ⟨fuel, rfl⟩ := Nat.exists_eq_succ_of_ne_zero (Nat.ne_of_gt ((List.length_pos_iff.2 hs).trans_le hfuel))
      rw [rows_succ, if_neg (by simp [hgoes]), if_neg hn, hrow]
      exact bind_eq_ok.2 ⟨_, rfl, bind_eq_ok.2 ⟨_, ih (length_afterLine_of_not_endsTable hgoes hfuel), rfl⟩⟩

theorem exists_rows_of_table (h : table scope inner s = .ok (node, stop)) : ∃ nodes last,
    ReadsRows scope inner 0 s.start s nodes last stop ∧ node = scope.node .table s.trimStart.start last nodes := by
  obtain ⟨⟨nodes, last, next⟩, hrows, h⟩ := bind_eq_ok.1 h
  cases h
  exact ⟨nodes, last, (rows_eq_ok (Nat.le_succ _)).1 hrows, rfl⟩

theorem ReadsRows.start_le {n last last' next : Nat} {nodes : List Node} (h : ReadsRows scope inner n last s nodes last' next) :
    s.start ≤ next := by
  induction h with
  | none => exact Nat.le_refl _
  | @rule _ _ _ s _ _ _ ih | @row _ _ _ _ s _ _ _ _ _ _ ih => exact s.start_le_afterLine.trans ih

/-! ## Lines -/

/-- Pieces of the first lines of a stretch, one for each line, and what follows these lines. A piece is the end of its line, or
nothing where the line counts as blank. -/
inductive Takes : Stretch → List Stretch → Stretch → Prop
  | nil (s : Stretch) : Takes s [] s
  | line {s rest : Stretch} {parts : List Stretch} (hs : s.chars ≠ []) (n : Nat) (h : Takes s.afterLine parts rest) :
      Takes s (s.line.drop n :: parts) rest
  | blank {s rest : Stretch} {parts : List Stretch} (hs : s.chars ≠ []) (h : Takes s.afterLine parts rest) :
      Takes s (s.line.take 0 :: parts) rest

theorem Takes.exists_drop (h : Takes s parts rest) : ∃ n, rest = s.drop n := by
  induction h with
  | nil s => exact ⟨0, s.drop_zero.symm⟩
  | @line s _ _ _ _ _ ih | @blank s _ _ _ _ ih =>
    obtain ⟨n, rfl⟩ := ih
    exact ⟨_, s.drop_drop _ _⟩

theorem Takes.start_le (h : Takes s parts rest) : s.start ≤ rest.start := by
  obtain ⟨n, rfl⟩ := h.exists_drop
  exact s.start_le_drop n

theorem Takes.stop_eq (h : Takes s parts rest) : rest.stop = s.stop := by
  obtain ⟨n, rfl⟩ := h.exists_drop
  exact s.stop_drop n

theorem Takes.ne_nil (h : Takes s parts rest) (hne : parts ≠ []) : s.chars ≠ [] := by
  cases h with
  | nil => exact absurd rfl hne
  | line hs _ _ | blank hs _ => exact hs

theorem takes_quoteLines (fuel : Nat) (first : Bool) (s : Stretch) :
    Takes s (quoteLines fuel first s).1 (quoteLines fuel first s).2 := by
  induction fuel generalizing first s with
  | zero => exact .nil s
  | succ fuel ih =>
    have hbare (n : Nat) : s.line.trimStart.drop n = s.line.drop (Text.indent s.line.chars + n) := s.line.drop_drop _ n
    unfold quoteLines
    dsimp only
    split
    · exact .nil s
    · next hempty =>
      have hs : s.chars ≠ [] := by
        intro hnil
        simp [hnil] at hempty
      split
      · exact .nil s
      · next part hpart =>
        obtain ⟨n, rfl⟩ : ∃ n, part = s.line.trimStart.drop n := by
          split at hpart
          · exact ⟨2, (Option.some.inj hpart).symm⟩
          · exact ⟨1, (Option.some.inj hpart).symm⟩
          · split at hpart
            · cases hpart
            · exact ⟨0, (Option.some.inj hpart).symm.trans (Stretch.drop_zero _).symm⟩
        rw [hbare]
        exact .line hs _ (ih false s.afterLine)

theorem takes_itemLines (base width fuel last : Nat) (s : Stretch) :
    Takes s (itemLines base width fuel last s).1 (itemLines base width fuel last s).2.2 := by
  induction fuel generalizing last s with
  | zero => exact .nil s
  | succ fuel ih =>
    unfold itemLines
    dsimp only
    split
    · exact .nil s
    · next hempty =>
      have hs : s.chars ≠ [] := by simpa using hempty
      split
      · split
        · exact .nil s
        · exact .blank hs (ih last s.afterLine)
      · split
        · exact .nil s
        · exact .line hs _ (ih s.line.stop s.afterLine)

/-! ## Items -/

/-- How wide the marker is that begins an item on the first line, with the blanks around it. -/
def markerWidth? (base : Nat) (s : Stretch) : Option Nat :=
  match LineForm.marker? (s.line.chars.drop (Text.indent s.line.chars)) with
  | none => none
  | some (_, length) => if base + 3 < Text.indent s.line.chars then none else some (Text.indent s.line.chars + length)

theorem isSome_markerWidth? {base : Nat} (hnear : Text.indent s.line.chars ≤ base + 3)
    (hmarker : (LineForm.marker? (s.line.chars.drop (Text.indent s.line.chars))).isSome) : (markerWidth? base s).isSome := by
  obtain ⟨⟨marker, length⟩, hmarker⟩ := Option.isSome_iff_exists.1 hmarker
  rw [markerWidth?, hmarker]
  dsimp only
  rw [if_neg (Nat.not_lt.2 hnear)]
  rfl

/-- Where reading goes on behind an item that another may follow. -/
def resume (rest : Stretch) : Stretch :=
  if (Stretch.skipBlankLines rest.chars.length rest).chars.isEmpty then rest else Stretch.skipBlankLines rest.chars.length rest

theorem exists_drop_resume (rest : Stretch) : ∃ n, resume rest = rest.drop n := by
  unfold resume
  split
  · exact ⟨0, rest.drop_zero.symm⟩
  · exact rest.exists_drop_skipBlankLines _

/-- Whether reading goes on in the list behind an item. -/
def continues (base : Nat) (rest : Stretch) : Bool :=
  let next := Stretch.skipBlankLines rest.chars.length rest
  let following := next.line.chars
  next.chars.isEmpty || next.start = rest.start ||
    ((LineForm.marker? (following.drop (Text.indent following))).isSome && Text.indent following ≤ base + 3)

variable {base width fuel last last' next : Nat} {children nodes : List Node}

/-- An item of a list: its marker, its lines, where the last one ends and what follows them, and the blocks in it. -/
structure ReadsItem (inner : Inner) (base : Nat) (s : Stretch) (width : Nat) (parts : List Stretch) (stop : Nat) (rest : Stretch)
    (children : List Node) : Prop where
  marker : markerWidth? base s = some width
  lines : itemLines base width s.chars.length s.line.stop s.afterLine = (parts, stop, rest)
  blocks : inner.parts (s.line.drop width :: parts) = .ok children

/-- The items of a list one after another, with the end of the last one and the offset at which reading goes on. -/
inductive ReadsItems (scope : Scope) (inner : Inner) (base : Nat) : Nat → Stretch → List Node → Nat → Nat → Prop
  | none {last : Nat} {s : Stretch} (h : markerWidth? base s = none) : ReadsItems scope inner base last s [] last s.start
  | last {last width stop : Nat} {s rest : Stretch} {parts : List Stretch} {children : List Node}
      (h : ReadsItem inner base s width parts stop rest children) (hends : continues base rest = false) :
      ReadsItems scope inner base last s [scope.node .listItem (s.start + Text.indent s.line.chars) stop children] stop rest.start
  | next {last last' next width stop : Nat} {s rest : Stretch} {parts : List Stretch} {children nodes : List Node}
      (h : ReadsItem inner base s width parts stop rest children) (hgoes : continues base rest)
      (hitems : ReadsItems scope inner base stop (resume rest) nodes last' next) :
      ReadsItems scope inner base last s
        (scope.node .listItem (s.start + Text.indent s.line.chars) stop children :: nodes) last' next

namespace ReadsItem

theorem exists_marker (h : ReadsItem inner base s width parts stop rest children) : ∃ marker length,
    LineForm.marker? (s.line.chars.drop (Text.indent s.line.chars)) = some (marker, length) ∧
      Text.indent s.line.chars ≤ base + 3 ∧ width = Text.indent s.line.chars + length := by
  have hwidth := h.marker
  unfold markerWidth? at hwidth
  split at hwidth
  · cases hwidth
  · next marker length hmarker =>
    split at hwidth
    · cases hwidth
    · next hnear => exact ⟨marker, length, hmarker, Nat.not_lt.1 hnear, (Option.some.inj hwidth).symm⟩

theorem ne_nil (h : ReadsItem inner base s width parts stop rest children) : s.chars ≠ [] := by
  intro hnil
  obtain ⟨marker, length, hmarker, -⟩ := h.exists_marker
  rw [Stretch.chars_line, hnil] at hmarker
  cases hmarker

theorem below (h : ReadsItem inner base s width parts stop rest children) : Takes s.afterLine parts rest := by
  have htakes := takes_itemLines base width s.chars.length s.line.stop s.afterLine
  rwa [h.lines] at htakes

theorem takes (h : ReadsItem inner base s width parts stop rest children) : Takes s (s.line.drop width :: parts) rest :=
  .line h.ne_nil width h.below

theorem length_resume_lt (h : ReadsItem inner base s width parts stop rest children) :
    (resume rest).chars.length < s.chars.length := by
  obtain ⟨n, hn⟩ := h.below.exists_drop
  obtain ⟨m, hm⟩ := exists_drop_resume rest
  have hpos := List.length_pos_iff.2 h.ne_nil
  rw [hm, hn, Stretch.chars_drop, Stretch.chars_drop, Stretch.chars_afterLine]
  simp only [List.length_drop]
  omega

end ReadsItem

theorem items_succ : items scope inner base (fuel + 1) last s =
    match markerWidth? base s with
    | none => .ok ([], last, s.start)
    | some width =>
      let r := itemLines base width s.chars.length s.line.stop s.afterLine
      inner.parts (s.line.drop width :: r.1) >>= fun children =>
        let item := scope.node .listItem (s.start + Text.indent s.line.chars) r.2.1 children
        if continues base r.2.2 then
          items scope inner base fuel r.2.1 (resume r.2.2) >>= fun r => pure (item :: r.1, r.2.1, r.2.2)
        else pure ([item], r.2.1, r.2.2.start) := by
  rw [items, markerWidth?]
  cases LineForm.marker? (s.line.chars.drop (Text.indent s.line.chars)) with
  | none => rfl
  | some r =>
    dsimp only
    split <;> rfl

/-- With a step for every character the items of a list are read to their end. -/
theorem items_eq_ok (hfuel : s.chars.length ≤ fuel) :
    items scope inner base fuel last s = .ok (nodes, last', next) ↔ ReadsItems scope inner base last s nodes last' next := by
  constructor
  · intro h
    induction fuel generalizing last s nodes with
    | zero =>
      have hnil : s.chars = [] := List.length_eq_zero_iff.1 (Nat.le_zero.1 hfuel)
      have hnone : markerWidth? base s = none := by
        rw [markerWidth?, Stretch.chars_line, hnil]
        rfl
      cases h
      exact .none hnone
    | succ fuel ih =>
      rw [items_succ] at h
      split at h
      · next hnone =>
        cases h
        exact .none hnone
      · next width hwidth =>
        dsimp only at h
        obtain ⟨children, hchildren, h⟩ := bind_eq_ok.1 h
        have hitem : ReadsItem inner base s width _ _ _ children := ⟨hwidth, rfl, hchildren⟩
        split at h
        · next hgoes =>
          obtain ⟨⟨nodes, last, next⟩, hitems, h⟩ := bind_eq_ok.1 h
          cases h
          have hlt := hitem.length_resume_lt
          exact .next hitem hgoes (ih (by omega) hitems)
        · next hends =>
          cases h
          exact .last hitem (by simpa using hends)
  · intro h
    induction h generalizing fuel with
    | @none last s hnone =>
      cases fuel with
      | zero => rfl
      | succ fuel => rw [items_succ, hnone]
    | last hitem hends =>
      have hlt := hitem.length_resume_lt
      obtain ⟨fuel, rfl⟩ := Nat.exists_eq_succ_of_ne_zero (show fuel ≠ 0 by omega)
      rw [items_succ, hitem.marker]
      dsimp only
      rw [hitem.lines, hitem.blocks]
      exact if_neg (by simp [hends])
    | next hitem hgoes _ ih =>
      have hlt := hitem.length_resume_lt
      obtain ⟨fuel, rfl⟩ := Nat.exists_eq_succ_of_ne_zero (show fuel ≠ 0 by omega)
      rw [items_succ, hitem.marker]
      dsimp only
      rw [hitem.lines, hitem.blocks]
      exact (if_pos hgoes).trans (bind_eq_ok.2 ⟨_, ih (by omega), rfl⟩)

theorem exists_items_of_list (h : list scope inner s = .ok (node, stop)) : ∃ ordered nodes last,
    ReadsItems scope inner (Text.indent s.line.chars) s.start s nodes last stop ∧
      node = scope.node (.list ordered) (if nodes.isEmpty then s.start else s.start + Text.indent s.line.chars) last nodes := by
  obtain ⟨⟨nodes, last, next⟩, hitems, h⟩ := bind_eq_ok.1 h
  cases h
  exact ⟨_, nodes, last, (items_eq_ok (Nat.le_refl _)).1 hitems, rfl⟩

theorem ReadsItems.start_le (h : ReadsItems scope inner base last s nodes last' next) :
    s.start ≤ next ∧ ((markerWidth? base s).isSome → s.afterLine.start ≤ next) := by
  induction h with
  | none h => exact ⟨Nat.le_refl _, fun hsome => by rw [h] at hsome; cases hsome⟩
  | @last _ _ _ s _ _ _ h _ => exact ⟨h.takes.start_le, fun _ => h.below.start_le⟩
  | @next _ _ _ _ _ s rest _ _ _ h _ _ ih =>
    obtain ⟨n, hn⟩ := exists_drop_resume rest
    have hresume : rest.start ≤ (resume rest).start := hn ▸ rest.start_le_drop n
    exact ⟨h.takes.start_le.trans (hresume.trans ih.1), fun _ => h.below.start_le.trans (hresume.trans ih.1)⟩

end Block
end Narration.Markup
