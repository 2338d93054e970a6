import Narration.Player.Insertion
import Narration.Proofs.Buffer

/-!
# Deleting nodes with their lines

* `Buffer.fills` : whether what stands at a position fills its lines;
* `Buffer.Alone` : positions one below another that fill their lines;
* `Buffer.without` : a buffer without the lines of such positions;
* `Buffer.filled_without` : all other lines stay, blank ones apart;
* `Player.dropNodes_eq` : nodes at such positions are deleted with their lines.
-/

namespace Narration

namespace Buffer
open Markup

variable {b b' : Buffer} {p : Position} {ps : List Position} {l : Text} {ls : List Text} {k n : Nat}

/-- Whether what stands at a position fills its lines. -/
def fills (b : Buffer) (p : Position) : Bool :=
  let rows := b.lines.take p.endLine
  0 < p.startLine && p.startLine ≤ p.endLine && p.endLine ≤ b.lines.length && p.stop ≤ (Text.unlines rows).length &&
    Text.trim (Text.unlines (rows.drop (p.startLine - 1))) = Text.trim (Text.slice (Text.unlines rows) p.start p.stop)

/-- Positions, each of which fills its lines, with the next one below it. -/
structure Alone (b : Buffer) (ps : List Position) : Prop where
  fills : ∀ p ∈ ps, b.fills p
  order : ps.Pairwise fun p q => p.endLine < q.startLine

instance (b : Buffer) (ps : List Position) : Decidable (b.Alone ps) :=
  decidable_of_iff ((∀ p ∈ ps, b.fills p) ∧ ps.Pairwise fun p q => p.endLine < q.startLine)
    ⟨fun h => ⟨h.1, h.2⟩, fun h => ⟨h.fills, h.order⟩⟩

/-- A buffer without the lines of a position. -/
def withoutRows (b : Buffer) (p : Position) : Buffer := (b.dropLines? (p.startLine - 1) (p.endLine - 1)).getD b

/-- A buffer without the lines of positions, the last of which go first. -/
def without (b : Buffer) (ps : List Position) : Buffer := ps.foldr (fun p b => b.withoutRows p) b

/-- The filled lines. -/
def filled (ls : List Text) : List Text := ls.filter (!Text.allBlank ·)

/-- The filled lines that no position takes in, the first line having number `k`. -/
def filledOutside (ps : List Position) (k : Nat) (ls : List Text) : List Text :=
  ((ls.zipIdx k).filter fun l => !Text.allBlank l.1 && ps.all fun p => l.2 < p.startLine || p.endLine < l.2).map Prod.fst

/-! ## Lines outside of positions -/

theorem filled_append (ls ms : List Text) : filled (ls ++ ms) = filled ls ++ filled ms := List.filter_append ..

theorem filledOutside_append (ps : List Position) (k : Nat) (ls ms : List Text) :
    filledOutside ps k (ls ++ ms) = filledOutside ps k ls ++ filledOutside ps (k + ls.length) ms := by
  rw [filledOutside, List.zipIdx_append, List.filter_append, List.map_append]
  rfl

/-- Above all positions nothing is taken in. -/
theorem filledOutside_above (h : ∀ p ∈ ps, k + ls.length ≤ p.startLine) : filledOutside ps k ls = filled ls := by
  have hall (l : Text × Nat) (hl : l ∈ ls.zipIdx k) : ps.all (fun p => l.2 < p.startLine || p.endLine < l.2) := by
    rw [List.all_eq_true]
    intro p hp
    have hlt := List.snd_lt_add_of_mem_zipIdx hl
    have hle := h p hp
    rw [decide_eq_true (by omega), Bool.true_or]
  have hfilter : (ls.zipIdx k).filter (fun l => !Text.allBlank l.1 && ps.all fun p => l.2 < p.startLine || p.endLine < l.2) =
      (ls.zipIdx k).filter ((!Text.allBlank ·) ∘ Prod.fst) :=
    List.filter_congr fun l hl => by rw [hall l hl, Bool.and_true]; rfl
  rw [filledOutside, hfilter, ← List.filter_map, List.zipIdx_map_fst]
  rfl

/-- Below a position it takes nothing in. -/
theorem filledOutside_below (h : p.endLine < k) : filledOutside (p :: ps) k ls = filledOutside ps k ls := by
  rw [filledOutside, filledOutside]
  congr 1
  refine List.filter_congr fun l hl => ?_
  have hle := List.le_snd_of_mem_zipIdx hl
  rw [List.all_cons, decide_eq_true (show p.endLine < l.2 by omega), Bool.or_true, Bool.true_and]

/-- A position takes in its own lines. -/
theorem filledOutside_rows (h : p.startLine ≤ k) (h' : k + ls.length ≤ p.endLine + 1) : filledOutside (p :: ps) k ls = [] := by
  rw [filledOutside, List.map_eq_nil_iff, List.filter_eq_nil_iff]
  intro l hl
  have hle := List.le_snd_of_mem_zipIdx hl
  have hlt := List.snd_lt_add_of_mem_zipIdx hl
  rw [List.all_cons, decide_eq_false (show ¬l.2 < p.startLine by omega), decide_eq_false (show ¬p.endLine < l.2 by omega)]
  simp

theorem filledOutside_split (hn : n ≤ ls.length) (h : ∀ p ∈ ps, n < p.startLine) :
    filledOutside ps 1 ls = filled (ls.take n) ++ filledOutside ps (1 + n) (ls.drop n) := by
  have hlength : (ls.take n).length = n := List.length_take_of_le hn
  have habove : filledOutside ps 1 (ls.take n) = filled (ls.take n) := by
    refine filledOutside_above fun p hp => ?_
    have := h p hp
    omega
  conv_lhs => rw [← List.take_append_drop n ls]
  rw [filledOutside_append, hlength, habove]

/-- The first of some positions takes in its lines. -/
theorem filledOutside_cons (hpos : 0 < p.startLine) (hle : p.startLine ≤ p.endLine) (hlength : p.endLine ≤ ls.length)
    (h : ∀ q ∈ ps, p.endLine < q.startLine) : filledOutside (p :: ps) 1 ls =
      filled (ls.take (p.startLine - 1)) ++ filledOutside ps (1 + p.endLine) (ls.drop p.endLine) := by
  obtain ⟨j, hj⟩ := Nat.exists_eq_add_of_le (show p.startLine - 1 ≤ p.endLine by omega)
  have hrows : ((ls.drop (p.startLine - 1)).take j).length = j := by
    rw [List.length_take, List.length_drop]
    omega
  have hown : filledOutside (p :: ps) (1 + (p.startLine - 1)) ((ls.drop (p.startLine - 1)).take j) = [] :=
    filledOutside_rows (by omega) (by omega)
  rw [filledOutside_split (n := p.startLine - 1) (by omega) fun q hq => ?_]
  · rw [← List.take_append_drop j (ls.drop (p.startLine - 1)), filledOutside_append, hown, List.nil_append, hrows,
      List.drop_drop, ← hj, Nat.add_assoc, ← hj, filledOutside_below (by omega)]
  · rcases List.mem_cons.1 hq with rfl | hq
    · omega
    · have := h q hq
      omega

/-! ## Deleting lines -/

theorem fills_iff (b : Buffer) (p : Position) : b.fills p ↔ 0 < p.startLine ∧ p.startLine ≤ p.endLine ∧
    p.endLine ≤ b.lines.length ∧ p.stop ≤ (Text.unlines (b.lines.take p.endLine)).length ∧
    Text.trim (Text.unlines ((b.lines.take p.endLine).drop (p.startLine - 1))) =
      Text.trim (Text.slice (Text.unlines (b.lines.take p.endLine)) p.start p.stop) := by
  simp only [fills, Bool.and_eq_true, decide_eq_true_eq, and_assoc]

/-- Lines below a position have no part in what fills it. -/
theorem fills_of_take (h : b.fills p) (hsame : b'.lines.take p.endLine = b.lines.take p.endLine) : b'.fills p := by
  rw [fills_iff] at h ⊢
  have hlength := congrArg List.length hsame
  rw [List.length_take, List.length_take] at hlength
  rw [hsame]
  exact ⟨h.1, h.2.1, by omega, h.2.2.2⟩

theorem lines_dropLines? {first last : Nat} (h : b.dropLines? first last = some b') : ∃ last',
    b' = b.splice first (last' + 1 - first) [] := by
  unfold dropLines? at h
  split at h
  · cases h
  · exact ⟨_, (Option.some.inj h).symm⟩

theorem newline_withoutRows (b : Buffer) (p : Position) : (b.withoutRows p).newline = b.newline := by
  unfold withoutRows
  cases h : b.dropLines? (p.startLine - 1) (p.endLine - 1) with
  | none => rfl
  | some b' =>
    obtain ⟨last, rfl⟩ := lines_dropLines? h
    rfl

theorem mem_lines_withoutRows (h : l ∈ (b.withoutRows p).lines) : l ∈ b.lines := by
  unfold withoutRows at h
  cases hb : b.dropLines? (p.startLine - 1) (p.endLine - 1) with
  | none => rwa [hb] at h
  | some b' =>
    obtain ⟨last, rfl⟩ := lines_dropLines? hb
    rw [hb, Option.getD_some, splice, List.append_nil] at h
    exact (List.mem_append.1 h).elim List.mem_of_mem_take List.mem_of_mem_drop

theorem newline_without (b : Buffer) (ps : List Position) : (b.without ps).newline = b.newline := by
  induction ps with
  | nil => rfl
  | cons p ps ih => exact (newline_withoutRows (b.without ps) p).trans ih

theorem mem_lines_without (h : l ∈ (b.without ps).lines) : l ∈ b.lines := by
  induction ps with
  | nil => exact h
  | cons p ps ih => exact ih (mem_lines_withoutRows h)

/-- Deleting the lines of a position leaves those above it and those below it, up to blank ones. -/
theorem exists_withoutRows (h : b.fills p) : b.dropLines? (p.startLine - 1) (p.endLine - 1) = some (b.withoutRows p) ∧
    ∃ gap below, b.lines.drop p.endLine = gap ++ below ∧ (∀ l ∈ gap, Text.allBlank l) ∧
      (b.withoutRows p).lines = b.lines.take (p.startLine - 1) ++ below := by
  obtain ⟨hpos, hle, hlength, -, -⟩ := (fills_iff b p).1 h
  have hnot : ¬(0 < p.startLine - 1 ∧ b.lines.length < p.startLine - 1) := by omega
  have hlast : p.endLine - 1 + 1 = p.endLine := by omega
  have hdrop (last : Nat) (hl : p.startLine - 1 ≤ last) : p.startLine - 1 + (last + 1 - (p.startLine - 1)) = last + 1 := by omega
  unfold withoutRows dropLines?
  rw [if_neg hnot, Option.getD_some]
  refine ⟨rfl, ?_⟩
  dsimp only [splice]
  split
  · next hblank =>
    rw [Bool.and_eq_true, lineBlank, lineBlank, hlast, Option.any_eq_true] at hblank
    obtain ⟨-, l, hl, hblank⟩ := hblank
    obtain ⟨hlt, rfl⟩ := List.getElem?_eq_some_iff.1 hl
    rw [hlast, hdrop _ (by omega), List.append_nil]
    refine ⟨[b.lines[p.endLine]], b.lines.drop (p.endLine + 1), List.drop_eq_getElem_cons hlt, ?_, rfl⟩
    intro l hl
    rwa [List.mem_singleton.1 hl]
  · rw [hdrop _ (by omega), hlast, List.append_nil]
    exact ⟨[], _, rfl, nofun, rfl⟩

theorem Alone.tail (h : b.Alone (p :: ps)) : b.Alone ps :=
  ⟨fun q hq => h.fills q (List.mem_cons_of_mem p hq), (List.pairwise_cons.1 h.order).2⟩

theorem Alone.below (h : b.Alone (p :: ps)) : ∀ q ∈ ps, p.endLine < q.startLine := (List.pairwise_cons.1 h.order).1

/-- Lines above all positions stay as they are. -/
theorem take_without (h : b.Alone ps) (hk : ∀ p ∈ ps, k < p.startLine) :
    (b.without ps).lines.take k = b.lines.take k := by
  induction ps generalizing k with
  | nil => rfl
  | cons p ps ih =>
    rw [List.forall_mem_cons] at hk
    have hp : (b.without ps).fills p := fills_of_take (h.fills p List.mem_cons_self) (ih h.tail h.below)
    obtain ⟨-, gap, below, -, -, hlines⟩ := exists_withoutRows hp
    obtain ⟨hpos, hle, hlength, -⟩ := (fills_iff _ p).1 hp
    have hmin : k ≤ ((b.without ps).lines.take (p.startLine - 1)).length := by
      rw [List.length_take]
      omega
    change ((b.without ps).withoutRows p).lines.take k = _
    rw [hlines, List.take_append_of_le_length hmin, List.take_take, Nat.min_eq_left (by omega), ih h.tail hk.2]

/-- The last position still fills its lines when those below it are gone. -/
theorem Alone.fills_without (h : b.Alone (p :: ps)) : (b.without ps).fills p :=
  fills_of_take (h.fills p List.mem_cons_self) (take_without h.tail h.below)

/-- The filled lines that are left are those that no position takes in. -/
theorem filled_without (h : b.Alone ps) : filled (b.without ps).lines = filledOutside ps 1 b.lines := by
  induction ps with
  | nil => exact (filledOutside_above fun p hp => absurd hp List.not_mem_nil).symm
  | cons p ps ih =>
    have hsame := take_without h.tail h.below
    obtain ⟨-, gap, below, hgap, hblank, hlines⟩ := exists_withoutRows h.fills_without
    obtain ⟨hpos, hle, hlength, -⟩ := (fills_iff b p).1 (h.fills p List.mem_cons_self)
    have habove := congrArg (List.take (p.startLine - 1)) hsame
    rw [List.take_take, List.take_take, Nat.min_eq_left (by omega)] at habove
    have hnone : filled gap = [] := List.filter_eq_nil_iff.2 fun l hl => by simp [hblank l hl]
    have hbelow : filled below = filledOutside ps (1 + p.endLine) (b.lines.drop p.endLine) := by
      have hall := ih h.tail
      rw [← List.take_append_drop p.endLine (b.without ps).lines, hsame, hgap, filled_append, filled_append, hnone,
        List.nil_append, filledOutside_split hlength h.below] at hall
      exact List.append_cancel_left hall
    change filled ((b.without ps).withoutRows p).lines = _
    rw [hlines, filled_append, habove, hbelow, filledOutside_cons hpos hle hlength h.below]

/-! ## Deleting what stands on lines -/

theorem take_text (h : 0 < n) (hn : n ≤ b.lines.length) {m : Nat}
    (hm : m ≤ (Text.unlines (b.lines.take n)).length) : b.text.take m = (Text.unlines (b.lines.take n)).take m := by
  have hne : b.lines.take n ≠ [] := by
    rw [← List.length_pos_iff, List.length_take]
    omega
  have htext : b.text = Text.unlines (b.lines.take n ++ b.lines.drop n) := by rw [List.take_append_drop]; rfl
  by_cases hd : b.lines.drop n = []
  · rw [htext, hd, List.append_nil]
  · rw [htext, Text.unlines_append hne hd, List.take_append_of_le_length hm]

end Buffer

namespace Player
open Markup

variable {b : Buffer} {p : Position} {nodes : List Node}

theorem dropAt_eq (h : b.fills p) : dropAt b p = .ok (b.withoutRows p) := by
  obtain ⟨hpos, hle, hlength, hstop, htrim⟩ := (Buffer.fills_iff b p).1 h
  obtain ⟨hdrop, -⟩ := Buffer.exists_withoutRows h
  have hlast : p.endLine - 1 + 1 = p.endLine := by omega
  have hslice : Text.slice b.text p.start p.stop = Text.slice (Text.unlines (b.lines.take p.endLine)) p.start p.stop := by
    rw [Text.slice, Text.slice, Buffer.take_text (by omega) hlength hstop]
  rw [dropAt, hlast, hslice, if_pos htrim, hdrop]
  rfl

/-- Nodes that fill their lines are deleted with them. -/
theorem dropNodes_eq (h : b.Alone (nodes.filterMap Node.position)) :
    dropNodes b nodes = .ok (b.without (nodes.filterMap Node.position)) := by
  rw [dropNodes]
  generalize nodes.filterMap Node.position = ps at h
  induction ps with
  | nil => rfl
  | cons p ps ih =>
    rw [List.reverse_cons, List.foldlM_append, ih h.tail]
    change (dropAt (b.without ps) p >>= pure) = _
    rw [bind_pure, dropAt_eq h.fills_without]
    rfl

end Player
end Narration
