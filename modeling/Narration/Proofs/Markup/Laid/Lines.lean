import Narration.Proofs.Markup.Placed
import Narration.Proofs.Markup.Progress
import Narration.Proofs.Markup.Span
import Narration.Proofs.Text.Lines

/-!
# The lines of quotes and list items

The blocks of pieces of lines are read from the text that these make together, and placed in the document.

* `Pieces` : pieces of lines of a text, one below the other;
* `Moves` : a way from the places of one text to those of another, over its line ends;
* `Pieces.moves` : the way from the joined pieces to the document;
* `Moves.fits_place`, `Pieces.laid` : nodes that fit the joined pieces fit the document;
* `Stretch.stop_line_le`, `Stretch.start_trimStart_lt` : where lines and what is in them begin and end;
* `Block.Collects` : pieces of the lines at the front of a stretch, and where they end;
* `Block.Takes.collects`, `Block.itemLines_last` : the lines of a quote and of a list item.
-/

namespace Narration

/-! ## Slices -/

namespace Text

variable {t : Text} {c : Char} {i j k : Nat}

theorem slice_succ (hc : t[j]? = some c) (hij : i ≤ j) : t.slice i (j + 1) = t.slice i j ++ [c] := by
  have hlt := (List.getElem?_eq_some_iff.1 hc).1
  rw [slice, slice, List.take_add_one, hc, List.drop_append_of_le_length (by rw [List.length_take]; omega)]
  rfl

theorem mem_slice : c ∈ t.slice i j ↔ ∃ k, i ≤ k ∧ k < j ∧ t[k]? = some c := by
  rw [slice, List.mem_iff_getElem?]
  constructor
  · rintro ⟨n, hn⟩
    rw [List.getElem?_drop, List.getElem?_take] at hn
    split at hn
    · next hlt => exact ⟨i + n, Nat.le_add_right i n, hlt, hn⟩
    · cases hn
  · rintro ⟨k, hi, hj, hk⟩
    refine ⟨k - i, ?_⟩
    rw [List.getElem?_drop, Nat.add_sub_cancel' hi, List.getElem?_take_of_lt hj, hk]

end Text

namespace Markup
open Block (outerOffset outerStop outerPosition outerAttribute outerKind place placeAll times)
open Stretch (In)
open Node (Before tops topsAll tops_placed tops_free topsAll_cons)

variable {t text : Text} {parts : List Stretch} {f : Nat → Nat} {first stop i j : Nat}

/-- Pieces of lines of a text, each below the one before. -/
structure Pieces (t : Text) (parts : List Stretch) : Prop where
  within : ∀ p ∈ parts, In t p
  line : ∀ p ∈ parts, '\n' ∉ p.chars
  below : parts.Pairwise fun p q => p.stop < q.start ∧ '\n' ∈ t.slice p.stop q.start

/-- The last piece ends no earlier than the first. -/
theorem Pieces.stop_le {p q : Stretch} (h : Pieces t (p :: parts)) (hq : (p :: parts).getLast? = some q) : p.stop ≤ q.stop := by
  rcases List.mem_cons.1 (List.mem_of_getLast? hq) with rfl | hmem
  · exact Nat.le_refl _
  · have hlt := ((List.pairwise_cons.1 h.below).1 q hmem).1
    exact Nat.le_trans (Nat.le_of_lt hlt) q.start_le_stop

/-! ## Ways between texts -/

/-- A way from the places of one text to those of another: the characters in a row stay in a row, only a line end may be
stretched. -/
structure Moves (text t : Text) (f : Nat → Nat) : Prop where
  step : ∀ (i : Nat) (c : Char), text[i]? = some c → c ≠ '\n' → t[f i]? = some c ∧ f (i + 1) = f i + 1
  turn : ∀ i : Nat, text[i]? = some '\n' → f i < f (i + 1) ∧ '\n' ∈ t.slice (f i) (f (i + 1))
  le : f text.length ≤ t.length

namespace Moves

variable (h : Moves text t f)
include h

theorem lt_succ (hi : i < text.length) : f i < f (i + 1) := by
  have hget := List.getElem?_eq_getElem hi
  by_cases hc : text[i] = '\n'
  · rw [hc] at hget
    exact (h.turn i hget).1
  · rw [(h.step i _ hget hc).2]
    exact Nat.lt_succ_self _

theorem mono (hij : i ≤ j) (hj : j ≤ text.length) : f i ≤ f j := by
  induction j, hij using Nat.le_induction with
  | base => exact Nat.le_refl _
  | succ j _ ih => exact Nat.le_trans (ih (Nat.le_of_succ_le hj)) (Nat.le_of_lt (h.lt_succ hj))

theorem lt (hij : i < j) (hj : j ≤ text.length) : f i < f j :=
  Nat.lt_of_lt_of_le (h.lt_succ (Nat.lt_of_lt_of_le hij hj)) (h.mono hij hj)

/-- A row of characters without a line end stays in a row. -/
theorem run {n : Nat} (hn : '\n' ∉ text.slice i (i + n)) (hle : i + n ≤ text.length) :
    f (i + n) = f i + n ∧ t.slice (f i) (f i + n) = text.slice i (i + n) := by
  induction n with
  | zero => simp [Text.slice]
  | succ n ih =>
    have hlt : i + n < text.length := hle
    have hslice : text.slice i (i + (n + 1)) = text.slice i (i + n) ++ [text[i + n]] :=
      Text.slice_succ (List.getElem?_eq_getElem hlt) (Nat.le_add_right i n)
    rw [hslice, List.mem_append, not_or, List.mem_singleton] at hn
    obtain ⟨hf, hsame⟩ := ih hn.1 (Nat.le_of_lt hlt)
    obtain ⟨hchar, hnext⟩ := h.step (i + n) _ (List.getElem?_eq_getElem hlt) (Ne.symm hn.2)
    refine ⟨by rw [← Nat.add_assoc, hnext, hf, Nat.add_assoc], ?_⟩
    rw [hf] at hchar
    rw [hslice, ← Nat.add_assoc, Text.slice_succ hchar (Nat.le_add_right _ n), hsame]

/-- A value between two marks stays one. -/
theorem wraps {a b : Char} {value : Text} (hw : text.Wraps first stop a value b) (ha : a ≠ '\n') (hb : b ≠ '\n') :
    t.Wraps (f first) (f (stop - 1) + 1) a value b := by
  obtain ⟨hlt, hhead, hlast, hslice⟩ := hw
  have hle : stop - 1 < text.length := (List.getElem?_eq_some_iff.1 hlast).1
  obtain ⟨hlast', hstop⟩ := h.step _ _ hlast hb
  rw [Nat.sub_add_cancel (by omega)] at hstop
  refine ⟨?_, (h.step _ _ hhead ha).1, hlast', fun hnone => ?_⟩
  · exact Nat.succ_lt_succ (h.lt (Nat.lt_sub_of_add_lt hlt) (Nat.le_of_lt hle))
  · have hnone' : '\n' ∉ text.slice first stop := by
      intro hmem
      obtain ⟨k, hfirst, hk, hnewline⟩ := Text.mem_slice.1 hmem
      have hne : k ≠ stop - 1 := by
        rintro rfl
        exact hb (Option.some.inj (hlast.symm.trans hnewline))
      obtain ⟨m, hm, hm', hmark⟩ := Text.mem_slice.1 (h.turn k hnewline).2
      refine hnone (Text.mem_slice.2 ⟨m, Nat.le_trans (h.mono hfirst (by omega)) hm, ?_, hmark⟩)
      exact Nat.lt_of_lt_of_le hm' (Nat.le_trans (h.mono (show k + 1 ≤ stop - 1 by omega) (Nat.le_of_lt hle)) (Nat.le_succ _))
    obtain ⟨n, rfl⟩ := Nat.exists_eq_add_of_lt (Nat.lt_of_succ_lt hlt)
    rw [Nat.add_assoc] at hstop hnone hnone' hslice
    obtain ⟨hf, hsame⟩ := h.run hnone' (by omega)
    rw [Nat.add_assoc, ← hstop, hf, hsame]
    exact hslice hnone'

end Moves

/-! ## Nodes on the way -/

namespace Moves

theorem outerStop_eq {joined : Scope} (hstop : 0 < stop) :
    outerStop joined parts stop = outerOffset joined parts (stop - 1) + 1 := if_neg (Nat.ne_of_gt hstop)

variable {joined : Scope} {references : List Reference} (h : Moves text t (outerOffset joined parts))
include h

theorem covers_attribute {a : Attribute} (ha : a.Covers text) : (outerAttribute joined parts a).Covers t := by
  intro first' stop' hspan
  obtain ⟨⟨first, stop⟩, hspan', heq⟩ := Option.map_eq_some_iff.1 hspan
  cases heq
  have hcovers := ha first stop hspan'
  unfold outerAttribute
  dsimp only
  cases hvalue : a.value with
  | none =>
    rw [hvalue] at hcovers
    exact hcovers
  | some value =>
    rw [hvalue] at hcovers
    cases value with
    | literal value =>
      obtain ⟨q, hq, hwraps⟩ := hcovers
      have hnewline : q ≠ '\n' := by rcases hq with rfl | rfl <;> decide
      refine ⟨q, hq, ?_⟩
      rw [outerStop_eq (Nat.lt_of_le_of_lt (Nat.zero_le _) hwraps.lt)]
      exact h.wraps hwraps hnewline hnewline
    | expression source =>
      dsimp only at hcovers ⊢
      rw [outerStop_eq (Nat.lt_of_le_of_lt (Nat.zero_le _) hcovers.lt)]
      exact h.wraps hcovers (by decide) (by decide)

theorem covers {kind : Kind} (hkind : kind.Covers text first stop) :
    (outerKind joined parts kind).Covers t (outerOffset joined parts first) (outerOffset joined parts (stop - 1) + 1) := by
  cases kind with
  | expression source => exact h.wraps hkind (by decide) (by decide)
  | component name attributes =>
    obtain ⟨hhead, hlast, hattributes⟩ := hkind
    refine ⟨(h.step _ _ hhead (by decide)).1, (h.step _ _ hlast (by decide)).1, ?_⟩
    exact List.forall_mem_map.2 fun a ha => h.covers_attribute (hattributes a ha)
  | _ => trivial

end Moves

theorem stands_outerKind (joined : Scope) (parts : List Stretch) (kind : Kind) :
    (outerKind joined parts kind).stands = kind.stands := by cases kind <;> rfl

mutual

theorem tops_place (scope joined : Scope) (parts : List Stretch) : ∀ n : Node,
    (place scope joined parts n).tops = n.tops.map (place scope joined parts)
  | .mk kind children (some p) => by
    rw [tops_placed, List.map_singleton, place, Option.map_some, tops_placed]
  | .mk kind children none => by
    have hplace : place scope joined parts (.mk kind children none) =
        .mk (outerKind joined parts kind) (placeAll scope joined parts children) none := by
      rw [place, Option.map_none]
      rfl
    have hstands := stands_outerKind joined parts kind
    rw [hplace, tops, tops, hstands]
    split
    · rw [List.map_singleton, hplace]
    · exact topsAll_placeAll scope joined parts children

/-- The outermost nodes are those placed. -/
theorem topsAll_placeAll (scope joined : Scope) (parts : List Stretch) : ∀ ns : List Node,
    topsAll (placeAll scope joined parts ns) = (topsAll ns).map (place scope joined parts)
  | [] => by rw [placeAll, Node.topsAll_nil, List.map_nil]
  | n :: ns => by
    rw [placeAll, topsAll_cons, topsAll_cons, tops_place scope joined parts n, topsAll_placeAll scope joined parts ns,
      List.map_append]

end

/-- Where a node of the joined pieces is placed. -/
structure Moved (joined : Scope) (parts : List Stretch) (p p' : Position) : Prop where
  start : p'.start = outerOffset joined parts p.start
  stop : p'.stop = outerOffset joined parts (p.stop - 1) + 1

namespace Moves

variable {joined : Scope} {references : List Reference} {n m : Node} {lo hi : Nat}
  (h : Moves text t (outerOffset joined parts)) (scope : Scope)
include h

theorem moved_outerPosition {p : Position} (hlt : p.start < p.stop) (hstop : p.stop ≤ text.length) :
    Moved joined parts p (outerPosition scope joined parts p) := by
  refine ⟨rfl, ?_⟩
  have hle := h.mono (Nat.le_sub_one_of_lt hlt) (Nat.le_trans (Nat.sub_le _ _) hstop)
  change max (outerOffset joined parts p.start) (outerStop joined parts p.stop) = _
  rw [outerStop_eq (Nat.zero_lt_of_lt hlt)]
  exact Nat.max_eq_right (Nat.le_succ_of_le hle)

theorem exists_moved (hn : Fits text n) (hstop : ∀ p ∈ n.position, p.stop ≤ text.length) :
    ∃ p p', n.position = some p ∧ (place scope joined parts n).position = some p' ∧ Moved joined parts p p' ∧
      p.start < p.stop ∧ p.stop ≤ text.length := by
  cases hn with
  | @mk kind children p hlt hcopies =>
    refine ⟨p, outerPosition scope joined parts p, rfl, ?_, h.moved_outerPosition scope hlt (hstop p rfl), hlt, hstop p rfl⟩
    rw [place]
    rw [Option.elim_some, hcopies, Option.map_some, times, times]
    rfl

theorem inside_place (hn : Fits text n) (hhi : hi ≤ text.length) (hinside : n.Inside lo hi) :
    (place scope joined parts n).Inside (outerOffset joined parts lo) (outerOffset joined parts (hi - 1) + 1) := by
  obtain ⟨p, p', hp, hp', ⟨hstart, hstop⟩, hlt, hle⟩ := h.exists_moved scope hn
    fun p hp => Nat.le_trans (hinside p hp).2 hhi
  intro q hq
  obtain rfl : q = p' := Option.some.inj ((Option.mem_def.1 hq).symm.trans hp')
  obtain ⟨hlo, hhi'⟩ := hinside p hp
  rw [hstart, hstop]
  exact ⟨h.mono hlo (by omega), Nat.succ_le_succ (h.mono (by omega) (by omega))⟩

theorem before_place (hn : Fits text n) (hm : Fits text m) (hnstop : ∀ p ∈ n.position, p.stop ≤ text.length)
    (hmstop : ∀ p ∈ m.position, p.stop ≤ text.length) (hbefore : n.Before m) :
    (place scope joined parts n).Before (place scope joined parts m) := by
  obtain ⟨p, p', hp, hp', ⟨-, hstop⟩, hlt, -⟩ := h.exists_moved scope hn hnstop
  obtain ⟨q, q', hq, hq', ⟨hstart, -⟩, hqlt, hqle⟩ := h.exists_moved scope hm hmstop
  intro x hx y hy
  obtain rfl : x = p' := Option.some.inj ((Option.mem_def.1 hx).symm.trans hp')
  obtain rfl : y = q' := Option.some.inj ((Option.mem_def.1 hy).symm.trans hq')
  have hle := hbefore p hp q hq
  rw [hstart, hstop]
  exact h.lt (by omega) (by omega)

/-- A node that fits the joined pieces fits the document. -/
theorem fits_place (hn : Fits text n) (hstop : ∀ p ∈ n.position, p.stop ≤ text.length) :
    Fits t (place (Scope.ofText t references) joined parts n) := by
  induction hn with
  | @mk kind children p hlt hcopies hline hcovers hfits hinside hbefore ih =>
    have hle := hstop p rfl
    have hchild : ∀ n ∈ topsAll children, ∀ q ∈ n.position, q.stop ≤ text.length :=
      fun n hn q hq => Nat.le_trans (hinside n hn q hq).2 hle
    obtain ⟨hstart', hstop'⟩ := h.moved_outerPosition (Scope.ofText t references) hlt hle
    rw [place]
    rw [Option.elim_some, hcopies, Option.map_some, times, times, times, times]
    have hmono := h.mono (Nat.le_sub_one_of_lt hlt) (Nat.le_trans (Nat.sub_le _ _) hle)
    refine .mk ?_ hcopies ?_ ?_ ?_ ?_ ?_
    · rw [hstart', hstop']
      exact Nat.lt_succ_of_le hmono
    · refine Scope.lineOf_eq (Nat.le_trans (h.mono ?_ (Nat.le_refl _)) h.le) references
      exact Nat.le_trans (Nat.le_of_lt hlt) hle
    · rw [hstart', hstop']
      exact h.covers hcovers
    · rw [topsAll_placeAll]
      exact List.forall_mem_map.2 fun n hn => ih n hn (hchild n hn)
    · rw [topsAll_placeAll, hstart', hstop']
      exact List.forall_mem_map.2 fun n hn => h.inside_place _ (hfits n hn) hle (hinside n hn)
    · rw [topsAll_placeAll]
      refine List.pairwise_map.2 (hbefore.imp_of_mem fun {a b} ha hb hab => ?_)
      exact h.before_place _ (hfits a ha) (hfits b hb) (hchild a ha) (hchild b hb) hab

/-- Nodes laid in the joined pieces are laid in the document. -/
theorem laid_placeAll {ns : List Node} (hlaid : Laid text 0 text.length ns) :
    Laid t (outerOffset joined parts 0) (outerOffset joined parts text.length)
      (placeAll (Scope.ofText t references) joined parts ns) := by
  have hstop : ∀ n ∈ topsAll ns, ∀ p ∈ n.position, p.stop ≤ text.length := fun n hn p hp => (hlaid.inside n hn p hp).2
  refine ⟨?_, ?_, ?_⟩
  all_goals rw [topsAll_placeAll]
  · exact List.forall_mem_map.2 fun n hn => h.fits_place (hlaid.fits n hn) (hstop n hn)
  · refine List.forall_mem_map.2 fun n hn => ?_
    have hinside := h.inside_place (Scope.ofText t references) (hlaid.fits n hn) (Nat.le_refl _) (hlaid.inside n hn)
    have hpos : 0 < text.length := by
      obtain ⟨p, -, hp, -, -, hlt, hle⟩ := h.exists_moved joined (hlaid.fits n hn) (hstop n hn)
      omega
    exact hinside.mono (Nat.le_refl _) (h.lt (by omega) (Nat.le_refl _))
  · refine List.pairwise_map.2 (hlaid.before.imp_of_mem fun {a b} ha hb hab => ?_)
    exact h.before_place _ (hlaid.fits a ha) (hlaid.fits b hb) (hstop a ha) (hstop b hb) hab

end Moves

/-! ## Joined pieces -/

/-- The way from the joined pieces to the document. -/
theorem Pieces.moves (h : Pieces t parts) (hparts : parts ≠ []) (references : List Reference) :
    Moves (joinedText parts) t (outerOffset (Scope.ofText (joinedText parts) references) parts) := by
  have hplace {i : Nat} {c : Char} (hc : (joinedText parts)[i]? = some c) : ∃ A p B u v, parts = A ++ p :: B ∧
      p.chars = u ++ v ∧ i = (stacked A ++ u).length ∧ (v ++ Text.led (B.map Stretch.chars)).head? = some c := by
    obtain ⟨A, p, B, u, v, rfl, hp, rfl⟩ := exists_part hparts (Nat.le_of_lt (List.getElem?_eq_some_iff.1 hc).1)
    refine ⟨A, p, B, u, v, rfl, hp, rfl, ?_⟩
    rw [joinedText_append, hp, ← List.append_assoc, List.append_assoc (stacked A ++ u),
      List.getElem?_append_right (Nat.le_refl _), Nat.sub_self, ← List.head?_eq_getElem?] at hc
    exact hc
  refine ⟨fun i c hc hne => ?_, fun i hc => ?_, ?_⟩
  · obtain ⟨A, p, B, u, v, rfl, hp, rfl, hhead⟩ := hplace hc
    cases v with
    | nil =>
      rcases Text.endsLine_led (B.map Stretch.chars) with hnil | ⟨w, hw⟩
      · rw [hnil] at hhead
        cases hhead
      · rw [hw] at hhead
        exact absurd (Option.some.inj hhead).symm hne
    | cons d v =>
      obtain rfl : d = c := Option.some.inj hhead
      have hnext : (stacked A ++ u).length + 1 = (stacked A ++ (u ++ [d])).length := by simp [Nat.add_assoc]
      rw [hnext, outerOffset_joined h.line hp, outerOffset_joined h.line (hp.trans (by simp : u ++ d :: v = u ++ [d] ++ v))]
      refine ⟨?_, by rw [List.length_append]; rfl⟩
      obtain ⟨o, chars⟩ := p
      obtain rfl := hp
      have hin : In t ⟨o, u ++ d :: v⟩ := h.within _ (List.mem_append_right _ List.mem_cons_self)
      exact (hin.append_right.getElem? (i := 0) (Nat.zero_lt_succ _)).trans rfl
  · obtain ⟨A, p, B, u, v, rfl, hp, rfl, hhead⟩ := hplace hc
    cases v with
    | cons d v =>
      obtain rfl : d = '\n' := Option.some.inj hhead
      exact absurd (hp ▸ by simp) (h.line p (by simp))
    | nil =>
      cases B with
      | nil => cases hhead
      | cons q B =>
        rw [List.append_nil] at hp
        have hnext : (stacked A ++ u).length + 1 = (stacked (A ++ [p]) ++ []).length := by
          rw [stacked, stacked, List.flatMap_append, ← hp]
          simp [Nat.add_assoc]
        have hq : A ++ p :: q :: B = (A ++ [p]) ++ q :: B := by simp
        have hstop : outerOffset (Scope.ofText (joinedText (A ++ p :: q :: B)) references) (A ++ p :: q :: B)
            (stacked A ++ u).length = p.stop := by
          rw [outerOffset_joined h.line (hp.trans (List.append_nil u).symm), ← hp]
          rfl
        have hstart : outerOffset (Scope.ofText (joinedText (A ++ p :: q :: B)) references) (A ++ p :: q :: B)
            (stacked (A ++ [p]) ++ []).length = q.start := by
          rw [hq]
          exact outerOffset_joined (hq ▸ h.line) (List.nil_append q.chars).symm
        rw [hnext, hstop, hstart]
        exact (List.pairwise_cons.1 (List.pairwise_append.1 h.below).2.1).1 q List.mem_cons_self
  · obtain ⟨A, p, B, u, v, rfl, hp, hlength⟩ := exists_part hparts (Nat.le_refl _)
    rw [hlength, outerOffset_joined h.line hp]
    refine Nat.le_trans (Nat.add_le_add_left ?_ p.start) (h.within p (by simp)).stop_le
    rw [hp, List.length_append]
    exact Nat.le_add_right _ _

/-- The nodes of pieces of lines are laid between the ends of the pieces. -/
theorem Pieces.laid {read : Scope → Stretch → Except Fault (List Node)} {references : List Reference} {ns : List Node}
    {p q : Stretch} (h : Pieces t parts) (hfirst : parts.head? = some p) (hlast : parts.getLast? = some q)
    (hread : ∀ ms, read (Scope.ofText (joinedText parts) references) ⟨0, joinedText parts⟩ = .ok ms →
      Laid (joinedText parts) 0 (joinedText parts).length ms)
    (hns : Block.readParts read (Scope.ofText t references) parts = .ok ns) : Laid t p.start q.stop ns := by
  have hparts : parts ≠ [] := by
    rintro rfl
    cases hfirst
  unfold Block.readParts at hns
  rw [if_neg (by simpa using hparts)] at hns
  obtain ⟨ms, hms, hplace⟩ := Fallible.bind_eq_ok.1 hns
  cases hplace
  have hlaid : Laid t _ _ (placeAll (Scope.ofText t references) _ parts ms) :=
    (h.moves hparts references).laid_placeAll (hread ms hms)
  have hstart : outerOffset (Scope.ofText (joinedText parts) references) parts 0 = p.start := by
    obtain ⟨rest, rfl⟩ := List.head?_eq_some_iff.1 hfirst
    exact outerOffset_joined (A := []) (u := []) h.line rfl
  have hstop : outerOffset (Scope.ofText (joinedText parts) references) parts (joinedText parts).length = q.stop := by
    obtain ⟨A, rfl⟩ := List.getLast?_eq_some_iff.1 hlast
    have hlength : (joinedText (A ++ [q])).length = (stacked A ++ q.chars).length := by
      rw [joinedText_append, List.map_nil, Text.led_nil, List.append_nil]
    rw [hlength]
    exact outerOffset_joined h.line (List.append_nil q.chars).symm
  rw [hstart, hstop] at hlaid
  exact hlaid

end Markup
end Narration

namespace Narration.Markup
open Stretch (In)

variable {t : Text} {s : Stretch}

/-! ## Lines -/

namespace Stretch

theorem newline_notMem_line (s : Stretch) : '\n' ∉ s.line.chars := Text.newline_notMem_firstLine s.chars

/-- A line that is followed by another ends with a line feed. -/
theorem break_of_afterLine (hin : In t s) (h : s.afterLine.chars ≠ []) :
    s.line.stop < s.afterLine.start ∧ t[s.line.stop]? = some '\n' := by
  obtain ⟨o, chars⟩ := s
  obtain ⟨v, hv, hends⟩ := Text.exists_afterFirstLine chars
  have hline := Text.newline_notMem_firstLine chars
  generalize Text.firstLine chars = u at hv hline
  rcases hends with rfl | ⟨w, rfl⟩
  · rw [List.append_nil] at hv
    rw [hv, afterLine_mk_last hline] at h
    exact absurd rfl h
  · subst hv
    rw [line_mk hline, afterLine_mk hline]
    exact ⟨Nat.add_lt_add_left (Nat.lt_succ_self _) o, hin.append_right.getElem? (i := 0) (Nat.zero_lt_succ _)⟩

/-- The first character of a line that is not blank. -/
theorem start_trimStart_lt (h : s.lineBlank = false) :
    s.line.trimStart.start = s.trimStart.start ∧ s.trimStart.start < s.line.stop := by
  obtain ⟨o, chars⟩ := s
  obtain ⟨v, hv, -⟩ := Text.exists_afterFirstLine chars
  have hindent : Text.indent chars = Text.indent (Text.firstLine chars) := by
    conv_lhs => rw [hv]
    exact Text.indent_append_of_not_allBlank h v
  have hlt : Text.indent (Text.firstLine chars) < (Text.firstLine chars).length := by
    refine Nat.lt_of_le_of_ne (Block.indent_le _) fun heq => ?_
    have hall : ∀ c ∈ Text.firstLine chars, Text.isBlank c := by
      have hself := (List.takeWhile_prefix Text.isBlank (l := Text.firstLine chars)).eq_of_length heq
      exact List.takeWhile_eq_self_iff.1 hself
    have hblank : Text.allBlank (Text.firstLine chars) = true := List.all_eq_true.2 hall
    exact absurd (h.symm.trans hblank) (by decide)
  have hle : (Text.firstLine chars).length ≤ chars.length := (List.takeWhile_prefix _).length_le
  have hline : (⟨o, chars⟩ : Stretch).line = ⟨o, Text.firstLine chars⟩ := rfl
  rw [hline]
  simp only [trimStart, start_drop, stop]
  omega

end Stretch

/-! ## Pieces of lines -/

namespace Block

variable {parts : List Stretch} {p rest : Stretch}

/-- Pieces of lines at the front of a stretch, and what follows those lines. -/
structure Collects (t : Text) (s : Stretch) (parts : List Stretch) (rest : Stretch) : Prop where
  within : In t rest
  stop : rest.stop = s.stop
  le_rest : s.start ≤ rest.start
  pieces : Pieces t parts
  start : ∀ p ∈ parts, s.start ≤ p.start
  le : ∀ p ∈ parts, p.stop ≤ rest.start
  ne_nil : parts ≠ [] → s.chars ≠ []

theorem Collects.nil (hin : In t s) : Collects t s [] s :=
  ⟨hin, rfl, Nat.le_refl _, ⟨nofun, nofun, .nil⟩, nofun, nofun, fun h => absurd rfl h⟩

/-- A piece of the first line, and pieces of the lines after it. -/
theorem Collects.cons (hin : In t s) (hs : s.chars ≠ []) (hp : In t p) (hline : '\n' ∉ p.chars) (hstart : s.start ≤ p.start)
    (hstop : p.stop ≤ s.line.stop) (h : Collects t s.afterLine parts rest) : Collects t s (p :: parts) rest := by
  refine ⟨h.within, h.stop.trans s.stop_afterLine, Nat.le_trans s.start_le_afterLine h.le_rest,
    ⟨List.forall_mem_cons.2 ⟨hp, h.pieces.within⟩, List.forall_mem_cons.2 ⟨hline, h.pieces.line⟩,
      List.pairwise_cons.2 ⟨fun q hq => ?_, h.pieces.below⟩⟩,
    List.forall_mem_cons.2 ⟨hstart, fun q hq => Nat.le_trans s.start_le_afterLine (h.start q hq)⟩,
    List.forall_mem_cons.2 ⟨?_, h.le⟩, fun _ => hs⟩
  · obtain ⟨hlt, hbreak⟩ := Stretch.break_of_afterLine hin (h.ne_nil (List.ne_nil_of_mem hq))
    have hq := h.start q hq
    exact ⟨by omega, Text.mem_slice.2 ⟨s.line.stop, hstop, by omega, hbreak⟩⟩
  · exact Nat.le_trans hstop (Nat.le_trans s.stop_line_le_afterLine h.le_rest)

theorem newline_notMem_drop_line (s : Stretch) (n : Nat) : '\n' ∉ (s.line.drop n).chars :=
  fun hc => s.newline_notMem_line (List.mem_of_mem_drop hc)

/-- A line without some characters at its front, and pieces of the lines after it. -/
theorem Collects.cons_drop (hin : In t s) (hs : s.chars ≠ []) (n : Nat) (h : Collects t s.afterLine parts rest) :
    Collects t s (s.line.drop n :: parts) rest :=
  .cons hin hs (hin.line.drop n) (newline_notMem_drop_line s n) (s.line.start_le_drop n) (Nat.le_of_eq (s.line.stop_drop n)) h

theorem Takes.collects (h : Takes s parts rest) (hin : In t s) : Collects t s parts rest := by
  induction h with
  | nil => exact .nil hin
  | line hs n _ ih => exact .cons_drop hin hs n (ih hin.afterLine)
  | @blank s _ _ hs _ ih =>
    exact .cons hin hs (hin.line.take 0) List.not_mem_nil (Nat.le_refl _) (Nat.add_le_add_left (Nat.zero_le _) _) (ih hin.afterLine)

variable {base width fuel last : Nat}

/-- Enough steps skip all blank lines. -/
theorem skipBlankLines_eq {n m : Nat} (hn : s.chars.length ≤ n) (hm : s.chars.length ≤ m) :
    Stretch.skipBlankLines n s = Stretch.skipBlankLines m s := by
  induction n generalizing s m with
  | zero =>
    have hs : s.chars = [] := List.length_eq_zero_iff.1 (Nat.le_zero.1 hn)
    cases m with
    | zero => rfl
    | succ m =>
      rw [Stretch.skipBlankLines, Stretch.skipBlankLines, if_neg (by simp [hs])]
  | succ n ih =>
    cases m with
    | zero =>
      have hs : s.chars = [] := List.length_eq_zero_iff.1 (Nat.le_zero.1 hm)
      rw [Stretch.skipBlankLines, Stretch.skipBlankLines, if_neg (by simp [hs])]
    | succ m =>
      rw [Stretch.skipBlankLines, Stretch.skipBlankLines]
      split
      · next hblank =>
        have hlength : s.afterLine.chars.length ≤ s.chars.length - 1 := by
          rw [Stretch.chars_afterLine, List.length_drop]
          omega
        exact ih (by omega) (by omega)
      · rfl

theorem skipBlankLines_blank (hs : s.chars ≠ []) (hblank : s.lineBlank) :
    Stretch.skipBlankLines s.chars.length s = Stretch.skipBlankLines s.chars.length s.afterLine := by
  obtain ⟨n, hn⟩ := Nat.exists_eq_succ_of_ne_zero (Nat.ne_of_gt (List.length_pos_iff.2 hs))
  have hlength : s.afterLine.chars.length ≤ n := by
    rw [Stretch.chars_afterLine, List.length_drop, hn]
    omega
  rw [hn, Stretch.skipBlankLines, if_pos (by simpa [hblank] using hs)]
  exact skipBlankLines_eq hlength (Nat.le_succ_of_le hlength)

theorem skipBlankLines_not_blank (hblank : s.lineBlank = false) (n : Nat) : Stretch.skipBlankLines n s = s := by
  cases n with
  | zero => rfl
  | succ n => rw [Stretch.skipBlankLines, if_neg (by simp [hblank])]

/-- Lines that are indented beyond the base of the list belong to the item, blank lines in front of them too. -/
theorem itemLines_ne_nil (hfuel : s.chars.length ≤ fuel) (hne : (Stretch.skipBlankLines s.chars.length s).chars ≠ [])
    (hbase : base < Text.indent (Stretch.skipBlankLines s.chars.length s).line.chars) :
    (itemLines base width fuel last s).1 ≠ [] := by
  have hs : s.chars ≠ [] := by
    intro hnil
    rw [hnil] at hne
    exact hne hnil
  obtain ⟨n, rfl⟩ := Nat.exists_eq_succ_of_ne_zero (Nat.ne_of_gt (Nat.lt_of_lt_of_le (List.length_pos_iff.2 hs) hfuel))
  unfold itemLines
  dsimp only
  rw [if_neg (by simpa using hs)]
  cases hblank : s.lineBlank with
  | true =>
    rw [skipBlankLines_blank hs hblank] at hne hbase
    rw [if_pos rfl, if_neg (by simpa using ⟨hne, hbase⟩)]
    exact List.cons_ne_nil _ _
  | false =>
    rw [skipBlankLines_not_blank hblank] at hbase
    rw [if_neg Bool.false_ne_true, if_neg (by simp [Nat.not_le.2 hbase])]
    exact List.cons_ne_nil _ _

/-- The lines of an item end with the last of them. -/
theorem itemLines_last (hfuel : s.chars.length ≤ fuel) :
    ((itemLines base width fuel last s).1 = [] → (itemLines base width fuel last s).2.1 = last) ∧
      ∀ p, (itemLines base width fuel last s).1.getLast? = some p → p.stop = (itemLines base width fuel last s).2.1 := by
  induction fuel generalizing last s with
  | zero => exact ⟨fun _ => rfl, by simp [itemLines]⟩
  | succ fuel ih =>
    have hafter (hs : s.chars ≠ []) : s.afterLine.chars.length ≤ fuel := by
      have hpos := List.length_pos_iff.2 hs
      rw [Stretch.chars_afterLine, List.length_drop]
      omega
    unfold itemLines
    dsimp only
    split
    · exact ⟨fun _ => rfl, by simp⟩
    · next hempty =>
      have hs : s.chars ≠ [] := by simpa using hempty
      split
      · split
        · exact ⟨fun _ => rfl, by simp⟩
        · next hnext =>
          rw [Bool.or_eq_true, not_or, decide_eq_true_eq, Nat.not_le, List.isEmpty_iff] at hnext
          have hlength : s.afterLine.chars.length ≤ s.chars.length := by
            rw [Stretch.chars_afterLine, List.length_drop]
            omega
          rw [skipBlankLines_eq hlength (Nat.le_refl _)] at hnext
          have hmore : (itemLines base width fuel last s.afterLine).1 ≠ [] := itemLines_ne_nil (hafter hs) hnext.1 hnext.2
          refine ⟨by simp, fun p hp => (ih (hafter hs)).2 p ?_⟩
          rwa [List.getLast?_cons_of_ne_nil hmore] at hp
      · split
        · exact ⟨fun _ => rfl, by simp⟩
        · refine ⟨by simp, fun p hp => ?_⟩
          obtain ⟨hnil, hlast⟩ := @ih s.afterLine s.line.stop (hafter hs)
          by_cases hmore : (itemLines base width fuel s.line.stop s.afterLine).1 = []
          · rw [hmore] at hp
            cases hp
            rw [hnil hmore]
            exact s.line.stop_drop _
          · rw [List.getLast?_cons_of_ne_nil hmore] at hp
            exact hlast p hp

end Block
end Narration.Markup
