import Narration.Proofs.Markup.Extent
import Narration.Proofs.Markup.Layout
import Narration.Proofs.Text.Find

/-!
# What the scanners cover

* `Stretch.In` : a stretch of a text;
* `Stretch.In.wraps` : a value between two marks;
* `Braces.balanced?_span` : an expression ends with its closing brace;
* `AttributeValue.Written`, `Attribute.Spelled` : values as they are written, and attributes that span theirs;
* `Tag.Row` : attributes that take up their values one after the other;
* `Tag.read?_span` : a tag ends with its bracket, and its attributes take up their values in order;
* `Closing.find?_span` : a closing tag ends with its bracket.
-/

namespace Narration.Markup

/-! ## Stretches of a text -/

namespace Stretch

/-- The stretch stands in the text at its offset. -/
structure In (t : Text) (s : Stretch) : Prop where
  start_le : s.start ≤ t.length
  chars : s.chars <+: t.drop s.start

variable {t u v : Text} {s : Stretch} {o : Nat}

theorem in_self (t : Text) : In t ⟨0, t⟩ := ⟨Nat.zero_le _, List.prefix_rfl⟩

namespace In

theorem stop_le (h : In t s) : s.stop ≤ t.length := by
  have hle := h.chars.length_le
  have hstart := h.start_le
  rw [List.length_drop] at hle
  rw [stop]
  omega

theorem isInfix (h : In t s) : s.chars <:+: t := h.chars.isInfix.trans (List.drop_suffix _ _).isInfix

/-- What stands before the end of a stretch stands in the text. -/
theorem append_left (h : In t ⟨o, u ++ v⟩) : In t ⟨o, u⟩ := ⟨h.start_le, (List.prefix_append u v).trans h.chars⟩

/-- What stands behind the front of a stretch stands in the text. -/
theorem append_right (h : In t ⟨o, u ++ v⟩) : In t ⟨o + u.length, v⟩ := by
  have hstop := h.stop_le
  rw [stop, List.length_append] at hstop
  obtain ⟨w, hw⟩ := h.chars
  refine ⟨by dsimp only at hstop ⊢; omega, w, ?_⟩
  dsimp only at hw ⊢
  rw [← List.drop_drop, ← hw, List.append_assoc, List.drop_left]

theorem drop (h : In t s) (n : Nat) : In t (s.drop n) := by
  obtain ⟨o, chars⟩ := s
  rw [← List.take_append_drop n chars] at h
  have hright := h.append_right
  rwa [List.length_take] at hright

theorem take (h : In t s) (n : Nat) : In t (s.take n) := ⟨h.start_le, (List.take_prefix n _).trans h.chars⟩

theorem line (h : In t s) : In t s.line := ⟨h.start_le, (List.takeWhile_prefix _).trans h.chars⟩

theorem afterLine (h : In t s) : In t s.afterLine := h.drop _

theorem trimStart (h : In t s) : In t s.trimStart := h.drop _

theorem since (h : In t s) (offset : Nat) : In t (s.since offset) := h.drop _

theorem till (h : In t s) (offset : Nat) : In t (s.till offset) := h.take _

theorem trim (h : In t s) : In t s.trim := ⟨h.trimStart.start_le, s.chars_trim_prefix.trans h.trimStart.chars⟩

theorem getElem? (h : In t ⟨o, u⟩) {i : Nat} (hi : i < u.length) : t[o + i]? = u[i]? := by
  obtain ⟨w, hw⟩ := h.chars
  dsimp only at hw
  rw [← List.getElem?_drop, ← hw, List.getElem?_append_left hi]

theorem slice (h : In t ⟨o, u⟩) : t.slice o (o + u.length) = u := by
  obtain ⟨w, hw⟩ := h.chars
  dsimp only at hw
  rw [Text.slice, List.drop_take, ← hw, Nat.add_sub_cancel_left, List.take_left]

theorem wraps {a b : Char} (h : In t ⟨o, a :: u ++ [b]⟩) : t.Wraps o (o + (u.length + 2)) a u b := by
  have hlength : (a :: u ++ [b]).length = u.length + 2 := by simp
  refine ⟨by omega, ?_, ?_, fun _ => ?_⟩
  · have hfirst := h.getElem? (i := 0) (by simp)
    rwa [Nat.add_zero] at hfirst
  · have hlast := h.getElem? (i := u.length + 1) (by simp)
    rw [show o + (u.length + 2) - 1 = o + (u.length + 1) by omega, hlast]
    simp
  · rw [← hlength]
    exact h.slice

end In
end Stretch
end Narration.Markup

namespace Narration
open Markup (Stretch)
open Markup.Stretch (In)

variable {doc t : Text} {o n : Nat}

/-! ## Values -/

/-- A value as it is written, in quotes or in braces. -/
def AttributeValue.Written (u : Text) : AttributeValue → Prop
  | .literal text => ∃ q, (q = '"' ∨ q = '\'') ∧ u = q :: text ++ [q]
  | .expression source => u = '\x7b' :: source ++ ['\x7d']

/-- An attribute whose span, if it has one, lies between two offsets and holds its value as it is written. -/
def Attribute.Spelled (t : Text) (lo hi : Nat) (a : Attribute) : Prop := ∀ first stop, a.span = some (first, stop) →
  lo ≤ first ∧ first < stop ∧ stop ≤ hi ∧ ∃ value, a.value = some value ∧ value.Written (t.slice first stop)

theorem Attribute.Spelled.mono {lo hi lo' hi' : Nat} {a : Attribute} (h : a.Spelled doc lo hi) (hlo : lo' ≤ lo) (hhi : hi ≤ hi') :
    a.Spelled doc lo' hi' := fun first stop hspan =>
  let ⟨hfirst, hlt, hstop, hvalue⟩ := h first stop hspan
  ⟨hlo.trans hfirst, hlt, hstop.trans hhi, hvalue⟩

theorem Text.wraps_of_slice {first stop : Nat} {a b : Char} {u : Text} (hle : stop ≤ t.length) (h : t.slice first stop = a :: u ++ [b]) :
    t.Wraps first stop a u b := by
  have hlength : stop - first = u.length + 2 := by
    have := congrArg List.length h
    simpa [slice, hle] using this
  have hget {i : Nat} (hi : first + i < stop) : t[first + i]? = (a :: u ++ [b])[i]? := by
    rw [← h, slice, List.getElem?_drop, List.getElem?_take_of_lt hi]
  refine ⟨by omega, hget (i := 0) (by omega), ?_, fun _ => h⟩
  rw [show stop - 1 = first + (u.length + 1) by omega, hget (by omega)]
  simp

theorem Attribute.Spelled.covers {lo hi : Nat} {a : Attribute} (h : a.Spelled doc lo hi) (hhi : hi ≤ doc.length) : a.Covers doc := by
  intro first stop hspan
  obtain ⟨-, -, hstop, value, hvalue, hwritten⟩ := h first stop hspan
  have hle := hstop.trans hhi
  rw [hvalue]
  cases value with
  | literal text =>
    obtain ⟨q, hq, hslice⟩ := hwritten
    exact ⟨q, hq, Text.wraps_of_slice hle hslice⟩
  | expression source => exact Text.wraps_of_slice hle hwritten

/-! ## Expressions -/

namespace Braces

theorem scan_span {depth skip : Nat} (h : scan depth skip t = some n) : n ≤ t.length ∧ t[n - 1]? = some '\x7d' := by
  induction t generalizing depth skip n with
  | nil =>
    rw [scan_nil] at h
    cases h
  | cons c t ih =>
    have hrec {depth skip : Nat} (h : (scan depth skip t).map (· + 1) = some n) :
        n ≤ (c :: t).length ∧ (c :: t)[n - 1]? = some '\x7d' := by
      obtain ⟨k, hk, rfl⟩ := Option.map_eq_some_iff.1 h
      obtain ⟨hle, hlast⟩ := ih hk
      obtain ⟨k, rfl⟩ := Nat.exists_eq_succ_of_ne_zero (Nat.ne_of_gt (scan_pos hk))
      exact ⟨Nat.succ_le_succ hle, hlast⟩
    cases skip with
    | succ skip => exact hrec h
    | zero =>
      unfold scan at h
      split at h
      · cases h
      · exact hrec h
      · split at h
        · exact hrec h
        · split at h
          · next hclose =>
            split at h
            · cases h
              exact ⟨Nat.succ_le_succ (Nat.zero_le _), congrArg some hclose⟩
            · exact hrec h
          · exact hrec h

/-- An expression in braces ends with a brace. -/
theorem balanced?_span (h : balanced? ('\x7b' :: t) = some n) : ∃ v w, t = v ++ '\x7d' :: w ∧ n = v.length + 2 := by
  have hscan : balanced? ('\x7b' :: t) = (scan 1 0 t).map (· + 1) := rfl
  rw [hscan] at h
  obtain ⟨k, hk, rfl⟩ := Option.map_eq_some_iff.1 h
  obtain ⟨hle, hlast⟩ := scan_span hk
  obtain ⟨k, rfl⟩ := Nat.exists_eq_succ_of_ne_zero (Nat.ne_of_gt (scan_pos hk))
  obtain ⟨hlt, hget⟩ := List.getElem?_eq_some_iff.1 hlast
  refine ⟨t.take k, t.drop (k + 1), ?_, ?_⟩
  · have hcut := (List.take_append_drop k t).symm
    rwa [List.drop_eq_getElem_cons (show k < t.length from hlt), show t[k] = '\x7d' from hget] at hcut
  · rw [List.length_take_of_le (Nat.le_of_succ_le hle)]

end Braces

/-! ## Tags -/

namespace Tag

theorem braced?_span {source : Text} (h : braced? ('\x7b' :: t) = some (source, n)) :
    ∃ w, '\x7b' :: t = '\x7b' :: source ++ '\x7d' :: w ∧ n = source.length + 2 := by
  obtain ⟨n, hn, h⟩ := Option.bind_eq_some_iff.1 h
  cases h
  obtain ⟨v, w, rfl, rfl⟩ := Braces.balanced?_span hn
  have hsource : (('\x7b' :: (v ++ '\x7d' :: w)).take (v.length + 2 - 1)).drop 1 = v := by
    rw [show v.length + 2 - 1 = v.length + 1 by omega, List.take_succ_cons, List.take_left, List.drop_one, List.tail_cons]
  rw [hsource]
  exact ⟨w, rfl, rfl⟩

/-- A braced expression at the front of a stretch covers its source. -/
theorem braced?_wraps {source : Text} (hin : In doc ⟨o, '\x7b' :: t⟩) (h : braced? ('\x7b' :: t) = some (source, n)) :
    doc.Wraps o (o + n) '\x7b' source '\x7d' ∧ n ≤ t.length + 1 := by
  obtain ⟨w, ht, rfl⟩ := braced?_span h
  have hlength := congrArg List.length ht
  rw [ht, show '\x7b' :: source ++ '\x7d' :: w = ('\x7b' :: source ++ ['\x7d']) ++ w by simp] at hin
  refine ⟨hin.append_left.wraps, ?_⟩
  simp only [List.length_cons, List.length_append] at hlength
  omega

/-- A braced expression at the front of a stretch, as it is written. -/
theorem braced?_slice {source : Text} (hin : In doc ⟨o, '\x7b' :: t⟩) (h : braced? ('\x7b' :: t) = some (source, n)) :
    doc.slice o (o + n) = '\x7b' :: source ++ ['\x7d'] ∧ 0 < n ∧ n ≤ t.length + 1 := by
  obtain ⟨w, ht, rfl⟩ := braced?_span h
  have hlength := congrArg List.length ht
  rw [ht, show '\x7b' :: source ++ '\x7d' :: w = ('\x7b' :: source ++ ['\x7d']) ++ w by simp] at hin
  have hslice := hin.append_left.slice
  simp only [List.length_cons, List.length_append, List.length_nil, List.cons_append] at hlength hslice ⊢
  exact ⟨hslice, by omega, by omega⟩

theorem value?_span {value : AttributeValue} (hin : In doc ⟨o, t⟩) (h : value? t = some (value, n)) :
    value.Written (doc.slice o (o + n)) ∧ 0 < n ∧ n ≤ t.length := by
  unfold value? at h
  split at h
  · obtain ⟨⟨source, length⟩, hbraced, h⟩ := Option.map_eq_some_iff.1 h
    cases h
    exact braced?_slice hin hbraced
  · split at h
    · next c rest _ hquote =>
      obtain ⟨⟨text, after⟩, hcut, h⟩ := Option.map_eq_some_iff.1 h
      cases h
      obtain rfl := Text.eq_of_cut? hcut
      rw [show c :: (text ++ c :: after) = (c :: text ++ [c]) ++ after by simp] at hin
      have hslice := hin.append_left.slice
      simp only [List.length_cons, List.length_append, List.length_nil, List.cons_append] at hslice ⊢
      exact ⟨⟨c, hquote, hslice⟩, by omega, by omega⟩
    · cases h
  · cases h

theorem length_spaces (t : Text) : (spaces t).1 + (spaces t).2.length = t.length := by
  rw [spaces, ← List.length_append, List.takeWhile_append_dropWhile]

theorem in_spaces (h : In doc ⟨o, t⟩) : In doc ⟨o + (spaces t).1, (spaces t).2⟩ := by
  rw [← List.takeWhile_append_dropWhile (p := isSpace) (l := t)] at h
  exact h.append_right

theorem name?_span {start part : Char → Bool} {name rest : Text} (h : name? start part t = some (name, rest)) :
    t = name ++ rest := by
  cases t with
  | nil => cases h
  | cons c t =>
    rw [name?] at h
    split at h
    · cases h
      rw [List.cons_append, List.takeWhile_append_dropWhile]
    · cases h

theorem attribute?_span {a : Attribute} (hin : In doc ⟨o, t⟩) (h : attribute? o t = some (a, n)) :
    a.Spelled doc o (o + n) ∧ n ≤ t.length := by
  unfold attribute? at h
  split at h
  · obtain ⟨⟨source, length⟩, hbraced, h⟩ := Option.map_eq_some_iff.1 h
    cases h
    obtain ⟨hslice, hpos, hle⟩ := braced?_slice hin hbraced
    refine ⟨fun first stop hspan => ?_, hle⟩
    cases hspan
    exact ⟨Nat.le_refl o, Nat.lt_add_of_pos_right hpos, Nat.le_refl _, _, rfl, hslice⟩
  · obtain ⟨⟨name, rest⟩, hname, hbody⟩ := Option.bind_eq_some_iff.1 h
    obtain rfl := name?_span hname
    have hrest := in_spaces hin.append_right
    have hlength := length_spaces rest
    dsimp only at hbody
    split at hbody
    · next rest' heq =>
      rw [heq] at hrest hlength
      have hvalue := in_spaces (o := o + name.length + (spaces rest).1 + 1) (t := rest') (hrest.append_right (u := ['=']))
      have hlength' := length_spaces rest'
      obtain ⟨⟨value, length⟩, hv, hresult⟩ := Option.bind_eq_some_iff.1 hbody
      cases hresult
      obtain ⟨hwritten, hpos, hle⟩ := value?_span hvalue hv
      rw [show o + name.length + (spaces rest).1 + 1 + (spaces rest').1 =
        o + (name.length + (spaces rest).1 + 1 + (spaces rest').1) by omega] at hwritten
      refine ⟨fun first stop hspan => ?_, ?_⟩
      · cases hspan
        exact ⟨Nat.le_add_right o _, Nat.lt_add_of_pos_right hpos, Nat.le_of_eq (Nat.add_assoc o _ _), value, rfl, hwritten⟩
      · rw [List.length_cons] at hlength
        rw [List.length_append]
        omega
    · cases hbody
      refine ⟨fun first stop hspan => (nomatch hspan), ?_⟩
      rw [List.length_append]
      omega

/-- What the attributes of a tag take up between two offsets: each its value, one after the other. -/
structure Row (doc : Text) (lo hi : Nat) (as : List Attribute) : Prop where
  spelled : ∀ a ∈ as, a.Spelled doc lo hi
  apart : (as.filterMap (·.span)).Pairwise fun p q => p.2 ≤ q.1

theorem row_nil (doc : Text) (lo hi : Nat) : Row doc lo hi [] := ⟨nofun, .nil⟩

theorem Row.mono {lo hi lo' : Nat} {as : List Attribute} (h : Row doc lo hi as) (hlo : lo' ≤ lo) : Row doc lo' hi as :=
  ⟨fun a ha => (h.spelled a ha).mono hlo (Nat.le_refl hi), h.apart⟩

theorem Row.cons {lo mid hi : Nat} {a : Attribute} {as : List Attribute} (ha : a.Spelled doc lo mid) (h : Row doc mid hi as)
    (hlo : lo ≤ mid) (hhi : mid ≤ hi) : Row doc lo hi (a :: as) := by
  refine ⟨List.forall_mem_cons.2 ⟨ha.mono (Nat.le_refl lo) hhi, (h.mono hlo).spelled⟩, ?_⟩
  rw [List.filterMap_cons]
  cases hspan : a.span with
  | none => exact h.apart
  | some p =>
    refine List.pairwise_cons.2 ⟨fun q hq => ?_, h.apart⟩
    obtain ⟨b, hb, hq⟩ := List.mem_filterMap.1 hq
    exact ((ha p.1 p.2 hspan).2.2.1).trans (h.spelled b hb q.1 q.2 hq).1

theorem tail?_span {closing : Bool} {fuel : Nat} {tail : Tail} (hin : In doc ⟨o, t⟩) (h : tail? closing fuel o t = some tail) :
    tail.stop ≤ o + t.length ∧ doc[tail.stop - 1]? = some '>' ∧ Row doc o tail.stop tail.attributes := by
  induction fuel generalizing o t tail with
  | zero => cases h
  | succ fuel ih =>
    unfold tail? at h
    have hrest := in_spaces hin
    have hlength := length_spaces t
    dsimp only at h
    generalize (spaces t).1 = gap at *
    split at h
    · cases h
    · next rest heq =>
      cases h
      rw [heq] at hrest hlength
      refine ⟨?_, ?_, row_nil ..⟩
      · simp only [List.length_cons] at hlength
        dsimp only
        omega
      · exact hrest.getElem? (i := 1) (by simp)
    · next rest heq =>
      cases h
      rw [heq] at hrest hlength
      refine ⟨?_, ?_, row_nil ..⟩
      · simp only [List.length_cons] at hlength
        dsimp only
        omega
      · exact hrest.getElem? (i := 0) (by simp)
    · split at h
      · cases h
      · obtain ⟨⟨a, length⟩, ha, h⟩ := Option.bind_eq_some_iff.1 h
        obtain ⟨rest, htail, h⟩ := Option.bind_eq_some_iff.1 h
        cases h
        obtain ⟨hspelled, hle⟩ := attribute?_span hrest ha
        have hdrop := hrest.drop length
        rw [Stretch.drop, Nat.min_eq_left hle] at hdrop
        obtain ⟨hstop, hlast, hattributes⟩ := ih hdrop htail
        have hrow := Row.cons hspelled hattributes (Nat.le_add_right _ length) (Nat.le_of_lt (lt_stop_of_tail? htail))
        refine ⟨?_, hlast, hrow.mono (Nat.le_add_right o gap)⟩
        rw [List.length_drop] at hstop
        dsimp only [Tail.cons] at hle hstop ⊢
        omega

/-- What a tag covers. -/
structure Spans (doc : Text) (o n : Nat) (tag : Tag) : Prop where
  start : tag.start = o
  stop_le : tag.stop ≤ o + n
  lt : tag.start + 1 < tag.stop
  head : doc[tag.start]? = some '<'
  last : doc[tag.stop - 1]? = some '>'
  row : Row doc tag.start tag.stop tag.attributes

/-- The attributes of a tag cover their values. -/
theorem Spans.attributes {tag : Tag} (h : Spans doc o n tag) : ∀ a ∈ tag.attributes, a.Covers doc := fun a ha =>
  (h.row.spelled a ha).covers (by
    have hlast := (List.getElem?_eq_some_iff.1 h.last).1
    omega)

theorem body?_span {tag : Tag} (closing : Bool) (hlt : doc[o]? = some '<')
    (hin : In doc ⟨o + (if closing then 2 else 1), t⟩) (h : body? o closing t = some tag) :
    Spans doc o ((if closing then 2 else 1) + t.length) tag := by
  have hpos : 0 < if closing then 2 else 1 := by split <;> decide
  unfold body? at h
  generalize (if closing then 2 else 1) = width at *
  dsimp only at h
  split at h
  · next rest =>
    cases h
    refine ⟨rfl, ?_, ?_, hlt, ?_, row_nil ..⟩
    · rw [List.length_cons]
      dsimp only
      omega
    · dsimp only
      omega
    · exact hin.getElem? (i := 0) (by simp)
  · obtain ⟨⟨name, rest⟩, hname, h⟩ := Option.bind_eq_some_iff.1 h
    obtain ⟨c, -, h⟩ := Option.bind_eq_some_iff.1 h
    split at h
    · obtain ⟨tail, htail, h⟩ := Option.bind_eq_some_iff.1 h
      cases h
      obtain rfl := name?_span hname
      obtain ⟨hstop, hlast, hattributes⟩ := tail?_span hin.append_right htail
      have hpast := lt_stop_of_tail? htail
      refine ⟨rfl, ?_, ?_, hlt, hlast, hattributes.mono ?_⟩
      · rw [List.length_append]
        dsimp only
        omega
      · dsimp only
        omega
      · dsimp only
        omega
    · cases h

/-- A tag ends with its bracket within the stretch. -/
theorem read?_span {tag : Tag} (hin : In doc ⟨o, t⟩) (h : read? o t = some tag) : Spans doc o t.length tag := by
  unfold read? at h
  split at h
  · next rest =>
    have hspan := body?_span true (hin.getElem? (i := 0) (by simp)) (hin.append_right (u := ['<', '/']) (v := rest)) h
    rwa [if_pos rfl, Nat.add_comm 2] at hspan
  · next rest _ =>
    have hspan := body?_span false (hin.getElem? (i := 0) (by simp)) (hin.append_right (u := ['<']) (v := rest)) h
    rwa [if_neg (by decide), Nat.add_comm 1] at hspan
  · cases h

end Tag

/-! ## Closing tags -/

namespace Markup.Closing

variable {name rest : Text}

theorem named?_span (h : named? name t = some rest) : ∃ u, t = u ++ rest := by
  obtain ⟨r, hr, h⟩ := Option.bind_eq_some_iff.1 h
  split at h
  · cases h
    exact ⟨name, Text.after?_eq_some.1 hr⟩
  · cases h

theorem mention?_span {closing : Bool} (h : mention? name t = some (closing, rest)) : ∃ u, t = u ++ rest := by
  unfold mention? at h
  split at h
  · next r hr =>
    cases h
    obtain ⟨v, hv, hnamed⟩ := Option.bind_eq_some_iff.1 hr
    obtain ⟨u, rfl⟩ := named?_span hnamed
    exact ⟨'/' :: u, (Text.after?_eq_some (p := ['/'])).1 hv⟩
  · obtain ⟨r, hr, h⟩ := Option.map_eq_some_iff.1 h
    cases h
    exact named?_span hr

theorem findFrom_span {depth skip first stop : Nat} (hin : In doc ⟨o, t⟩)
    (h : findFrom name depth skip o t = some (first, stop)) : stop ≤ o + t.length ∧ doc[stop - 1]? = some '>' := by
  fun_induction findFrom name depth skip o t
  case case1 | case5 => cases h
  case case6 depth o c t hc rest hmention n hfind length hdepth =>
    cases h
    obtain ⟨u, rfl⟩ := mention?_span hmention
    obtain ⟨hn, hmark, -⟩ := List.findIdx?_eq_some_iff_getElem.1 hfind
    have hrest := (hin.append_right (u := [c])).append_right.getElem? hn
    have hlength : length = u.length + n + 1 := by
      simp only [length, List.length_append]
      omega
    refine ⟨?_, ?_⟩
    · rw [hlength, List.length_cons, List.length_append]
      omega
    · rw [List.length_singleton, List.getElem?_eq_getElem hn] at hrest
      rw [hlength, show first + 1 + (u.length + n + 1) - 1 = first + 1 + u.length + n by omega, hrest]
      simpa using hmark
  all_goals
    next ih =>
      obtain ⟨hstop, hlast⟩ := ih (hin.append_right (u := [_])) h
      refine ⟨?_, hlast⟩
      rw [List.length_cons]
      omega

theorem find?_span {first stop : Nat} (hin : In doc ⟨o, t⟩) (h : find? name o t = some (first, stop)) :
    stop ≤ o + t.length ∧ doc[stop - 1]? = some '>' := findFrom_span hin h

end Markup.Closing
end Narration
