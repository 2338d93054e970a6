import Mathlib.Data.Nat.Digits.Defs
import Narration.Proofs.Fallible
import Narration.Proofs.Markup.Inline.Kept
import Narration.Proofs.Markup.Layout

/-!
# Lifted nodes put back

* `Text.decimal?_digits` : the digits of a number write it;
* `numbers_append` : the placeholders of a row hold those of its parts;
* `Content.picked` : the lifted nodes of some placeholders;
* `Content.topsAll_settle`, `Content.topsAll_nodesOf` : the nodes with positions among those that tokens make are lifted
  nodes, picked in the order of the placeholders.
-/

namespace Narration

/-! ## Digits -/

namespace Text

theorem digitValue?_of_isDigit {c : Char} (h : c.isDigit) : digitValue? c = some (c.toNat - '0'.toNat) := by
  rw [Char.isDigit, Bool.and_eq_true, decide_eq_true_eq, decide_eq_true_eq] at h
  have hsmall : c.val < 128 := UInt32.lt_of_le_of_lt h.2 (by decide)
  rw [digitValue?, if_pos hsmall]
  exact if_pos h

theorem isDigit_of_mem_toDigits {n : Nat} {c : Char} (h : c ∈ digits n) : c.isDigit :=
  Nat.isDigit_of_mem_toDigits (b := 10) (by decide) (by decide) h

theorem isDigit_of_mem_digits {n : Nat} {c : Char} (h : c ∈ digits n) : isDigit c := by
  rw [isDigit, digitValue?_of_isDigit (isDigit_of_mem_toDigits h)]
  rfl

theorem digits_ne_nil (n : Nat) : digits n ≠ [] := Nat.toDigits_ne_nil

/-- The digits of a number write it. -/
theorem decimal?_digits (n : Nat) : decimal? (digits n) = some n := by
  have hfold (t : Text) (ht : ∀ c ∈ t, c.isDigit) (m : Nat) :
      t.foldl (fun n? c => do return 10 * (← n?) + (← digitValue? c)) (some m) = some (Nat.ofDigitChars 10 t m) := by
    induction t generalizing m with
    | nil => rw [List.foldl_nil, Nat.ofDigitChars_nil]
    | cons c t ih =>
      obtain ⟨hc, ht⟩ := List.forall_mem_cons.1 ht
      rw [List.foldl_cons, Nat.ofDigitChars_cons, ← ih ht, digitValue?_of_isDigit hc]
      rfl
  have hwhole := hfold (digits n) (fun c hc => isDigit_of_mem_toDigits hc) 0
  rw [show Nat.ofDigitChars 10 (digits n) 0 = n from Nat.ofDigitChars_ten_toDigits] at hwhole
  rw [decimal?, hwhole]
  exact digits_ne_nil n

end Text

namespace Markup
open Fallible
open InlineToken (spelledAll)
open Content (openPlace closePlace)

/-! ## Placeholders in a row -/

section Numbers
variable {t : Text} {v : Spelled}

theorem numbers_some {c : Char} (hc : c ≠ openPlace) (d : Text) (v : Spelled) : numbers (some d) (some c :: v) =
    if Text.isDigit c then numbers (some (d ++ [c])) v
    else if c = closePlace ∧ d ≠ [] then d :: numbers none v
    else numbers none v := by
  rw [numbers, if_neg hc]

/-- A placeholder that is open in front of what is spelled may add one number. -/
theorem numbers_none_sublist (p : Option Text) (v : Spelled) : (numbers none v).Sublist (numbers p v) := by
  induction v generalizing p with
  | nil => cases p <;> exact .slnil
  | cons e v ih =>
    cases e with
    | none => rw [numbers_gap, numbers_gap]
    | some c =>
      by_cases hc : c = openPlace
      · rw [hc, numbers_opening, numbers_opening]
      · cases p with
        | none => exact List.Sublist.refl _
        | some d =>
          rw [numbers_char hc, numbers_some hc]
          split
          · exact ih _
          · split
            · exact List.sublist_cons_self _ _
            · exact List.Sublist.refl _

/-- The placeholders of a row hold those of its parts. -/
theorem numbers_append (p : Option Text) (v w : Spelled) : (numbers p v ++ numbers none w).Sublist (numbers p (v ++ w)) := by
  induction v generalizing p with
  | nil => cases p <;> exact numbers_none_sublist _ w
  | cons e v ih =>
    rw [List.cons_append]
    cases e with
    | none =>
      rw [numbers_gap, numbers_gap]
      exact ih none
    | some c =>
      by_cases hc : c = openPlace
      · rw [hc, numbers_opening, numbers_opening]
        exact ih _
      · cases p with
        | none =>
          rw [numbers_char hc, numbers_char hc]
          exact ih none
        | some d =>
          rw [numbers_some hc, numbers_some hc]
          split
          · exact ih _
          · split
            · exact (ih none).cons_cons _
            · exact ih none

theorem numbers_digits {u : Text} (hu : ∀ c ∈ u, Text.isDigit c) (d : Text) (v : Spelled) :
    numbers (some d) (u.map some ++ v) = numbers (some (d ++ u)) v := by
  induction u generalizing d with
  | nil => rw [List.append_nil, List.map_nil, List.nil_append]
  | cons c u ih =>
    obtain ⟨hc, hu⟩ := List.forall_mem_cons.1 hu
    rw [List.map_cons, List.cons_append, numbers_digit hc, ih hu, List.append_assoc, List.singleton_append]

/-- An open placeholder ends behind its digits or is none. -/
theorem numbers_open {u v : Text} (hu : ∀ c ∈ u, Text.isDigit c) (hv : ∀ c, v.head? = some c → Text.isDigit c = false) :
    numbers (some []) ((u ++ v).map some) =
      if u ≠ [] ∧ v.head? = some closePlace then u :: numbers none (v.tail.map some) else numbers none ((u ++ v).map some) := by
  have hchars (w : Text) (hw : ∀ c ∈ w, Text.isDigit c) (x : Spelled) : numbers none (w.map some ++ x) = numbers none x := by
    induction w with
    | nil => rfl
    | cons c w ih =>
      obtain ⟨hc, hw⟩ := List.forall_mem_cons.1 hw
      rw [List.map_cons, List.cons_append, numbers_char (LineForm.isDigit_ne hc isDigit_openPlace), ih hw]
  rw [List.map_append, numbers_digits hu, List.nil_append, hchars u hu]
  cases v with
  | nil =>
    rw [if_neg fun h => nomatch h.2]
    rfl
  | cons c v =>
    have hc := hv c rfl
    rw [List.map_cons, List.tail_cons]
    by_cases hopen : c = openPlace
    · rw [hopen, numbers_opening, numbers_opening, if_neg fun h => absurd (Option.some.inj h.2) (by decide)]
    · rw [numbers_some hopen, hc, if_neg Bool.false_ne_true, numbers_char hopen]
      simp only [List.head?_cons, Option.some.injEq, and_comm]

end Numbers

namespace Content
open Node (topsAll topsAll_nil topsAll_cons topsAll_append topsAll_singleton tops_leaf tops_free)

variable {lifted nodes : List Node} {t : Text}

/-! ## Texts cut at placeholders -/

/-- The number of a placeholder. -/
def Part.number? : Part → Option Nat
  | text _ => none
  | placeholder number => some number

theorem placeholderDigits?_run {u v : Text} (hu : ∀ c ∈ u, Text.isDigit c) (hv : ∀ c, v.head? = some c → Text.isDigit c = false) :
    placeholderDigits? (openPlace :: (u ++ v)) = if u ≠ [] ∧ v.head? = some closePlace then some u else none := by
  have htake : (u ++ v).takeWhile Text.isDigit = u := by
    cases v with
    | nil => rw [List.append_nil, Text.takeWhile_all hu]
    | cons c v => exact Text.takeWhile_run hu (hv c rfl)
  rw [placeholderDigits?]
  simp only [htake, List.drop_left, decide_true, Bool.true_and, Bool.and_eq_true, Bool.not_eq_true', List.isEmpty_eq_false_iff,
    decide_eq_true_eq, ne_eq]

/-- A text is cut at the placeholders that are spelled in it. -/
theorem partsFrom_numbers {skip : Nat} {before : Text} {ps : List Part} (h : partsFrom skip before t = .ok ps) :
    ps.filterMap Part.number? = (numbers none ((t.drop skip).map some)).filterMap Text.decimal? := by
  have htext (before : Text) : (textPart before).filterMap Part.number? = [] := by
    unfold textPart
    split <;> rfl
  induction t generalizing skip before ps with
  | nil =>
    cases h
    rw [htext, List.drop_nil]
    rfl
  | cons c t ih =>
    cases skip with
    | succ skip => exact ih h
    | zero =>
      obtain ⟨u, v, rfl, hu, hv⟩ := Text.exists_run Text.isDigit t
      have hv : ∀ d, v.head? = some d → Text.isDigit d = false := by
        rcases hv with rfl | ⟨d, v, rfl, hd⟩
        · exact nofun
        · rintro _ ⟨⟩
          exact hd
      rw [partsFrom] at h
      rw [List.drop_zero, List.map_cons]
      by_cases hc : c = openPlace
      · rw [hc, numbers_opening, numbers_open hu hv]
        rw [hc, placeholderDigits?_run hu hv] at h
        split at h
        · next heq =>
          rw [if_neg fun hcond => by rw [if_pos hcond] at heq; cases heq]
          exact ih h
        · next digits heq =>
          obtain ⟨hcond, heq⟩ := Option.ite_none_right_eq_some.1 heq
          obtain rfl := Option.some.inj heq
          rw [if_pos hcond]
          split at h
          · cases h
          · obtain ⟨rest, hrest, h⟩ := bind_eq_ok.1 h
            cases h
            have htail : (u ++ v).drop (u.length + 1) = v.tail := by
              rw [← List.drop_drop, List.drop_left, List.drop_one]
            rw [List.filterMap_append, List.filterMap_append, htext, List.nil_append, ih hrest, htail]
            cases hu : Text.decimal? u with
            | none => rw [List.filterMap_cons_none hu]; rfl
            | some n => rw [List.filterMap_cons_some hu]; rfl
      · have hnone : placeholderDigits? (c :: (u ++ v)) = none := by
          simp [placeholderDigits?, hc]
        rw [hnone] at h
        rw [numbers_char hc]
        exact ih h

/-! ## Nodes put back -/

/-- The lifted nodes of some placeholders. -/
def picked (lifted : List Node) (ds : List Text) : List Node := (ds.filterMap Text.decimal?).filterMap (lifted[·]?)

theorem picked_append (lifted : List Node) (ds es : List Text) : picked lifted (ds ++ es) = picked lifted ds ++ picked lifted es := by
  rw [picked, List.filterMap_append, List.filterMap_append]
  rfl

/-- The nodes with positions that a text makes are those of its placeholders. -/
theorem topsAll_settle (h : settle lifted t = .ok nodes) : topsAll nodes = topsAll (picked lifted (numbers none (t.map some))) := by
  obtain ⟨ps, hps, h⟩ := bind_eq_ok.1 h
  cases h
  have hnumbers := partsFrom_numbers hps
  rw [List.drop_zero] at hnumbers
  rw [picked, ← hnumbers]
  clear hnumbers hps h
  induction ps with
  | nil => rfl
  | cons part ps ih =>
    cases part with
    | text value =>
      change topsAll (.leaf (.text value) :: ps.filterMap (Part.node? lifted)) = _
      rw [topsAll_cons, tops_leaf rfl, List.nil_append, ih]
      rfl
    | placeholder number =>
      have hnumber : (Part.placeholder number :: ps).filterMap Part.number? = number :: ps.filterMap Part.number? := rfl
      rw [hnumber, List.filterMap_cons, List.filterMap_cons, show Part.node? lifted (.placeholder number) = lifted[number]? from rfl]
      cases lifted[number]? with
      | none => exact ih
      | some node => rw [topsAll_cons, topsAll_cons, ih]

namespace Open

variable {o : Open}

theorem stands_kindOf (mark : Mark) : (kindOf mark).stands = false := by cases mark <;> rfl

/-- The marks that are open end behind what stands in front of them. -/
theorem topsAll_close (o : Open) : topsAll o.close =
    topsAll (o.outer.reverse.flatMap fun x => x.2.reverse) ++ topsAll o.nodes.reverse := by
  obtain ⟨nodes, outer⟩ := o
  induction outer generalizing nodes with
  | nil => rfl
  | cons x outer ih =>
    refine (ih (.mk (kindOf x.1) nodes.reverse none :: x.2)).trans ?_
    simp [topsAll_append, topsAll_singleton, tops_free (stands_kindOf _)]

theorem topsAll_add (o : Open) (nodes : List Node) : topsAll (o.add nodes).close = topsAll o.close ++ topsAll nodes := by
  rw [topsAll_close, topsAll_close, add, List.reverse_append, List.reverse_reverse, topsAll_append, List.append_assoc]

theorem topsAll_enter (o : Open) (mark : Mark) : topsAll (o.enter mark).close = topsAll o.close := by
  rw [topsAll_close, topsAll_close, enter]
  simp [topsAll_append]

theorem topsAll_leave (o : Open) : topsAll o.leave.close = topsAll o.close := by
  unfold leave
  split
  · rfl
  · next mark nodes outer hout =>
    rw [topsAll_close, topsAll_close, hout]
    simp [topsAll_append, topsAll_singleton, tops_free (stands_kindOf _)]

end Open

mutual

theorem topsAll_addToken : ∀ (token : InlineToken) {o o' : Open}, addToken lifted token o = .ok o' →
    ∃ ds, ds.Sublist (numbers none token.spelled) ∧ topsAll o'.close = topsAll o.close ++ topsAll (picked lifted ds)
  | .text value, o, o', h => by
    rw [addToken] at h
    obtain ⟨nodes, hnodes, h⟩ := bind_eq_ok.1 h
    cases h
    exact ⟨_, .refl _, by rw [Open.topsAll_add, topsAll_settle hnodes, InlineToken.spelled_text]⟩
  | .special value, o, o', h => by
    rw [addToken] at h
    obtain ⟨nodes, hnodes, h⟩ := bind_eq_ok.1 h
    cases h
    exact ⟨_, .refl _, by rw [Open.topsAll_add, topsAll_settle hnodes, InlineToken.spelled_special]⟩
  | .lineBreak, o, o', h => by
    rw [addToken] at h
    cases h
    exact ⟨[], List.nil_sublist _, by rw [Open.topsAll_add, topsAll_singleton, tops_leaf rfl]; rfl⟩
  | .code value, o, o', h => by
    rw [addToken] at h
    cases h
    exact ⟨[], List.nil_sublist _, by rw [Open.topsAll_add, topsAll_singleton, tops_leaf rfl]; rfl⟩
  | .image target alternative, o, o', h => by
    rw [addToken] at h
    obtain ⟨inner, hinner, h⟩ := bind_eq_ok.1 h
    cases h
    obtain ⟨ds, hds, htops⟩ := topsAll_addTokens alternative hinner
    refine ⟨ds, ?_, ?_⟩
    · rw [InlineToken.spelled, numbers_gap]
      have happend := numbers_append none (spelledAll alternative) [none]
      exact hds.trans ((List.sublist_append_left _ _).trans happend)
    · rw [Open.topsAll_add, topsAll_singleton, tops_free rfl, htops]
      rfl
  | .opening mark, o, o', h => by
    rw [addToken] at h
    cases h
    exact ⟨[], List.nil_sublist _, by rw [Open.topsAll_enter]; exact (List.append_nil _).symm⟩
  | .closing mark, o, o', h => by
    rw [addToken] at h
    cases h
    exact ⟨[], List.nil_sublist _, by rw [Open.topsAll_leave]; exact (List.append_nil _).symm⟩

/-- The nodes with positions that tokens add are lifted ones, in the order of the placeholders. -/
theorem topsAll_addTokens : ∀ (tokens : List InlineToken) {o o' : Open}, addTokens lifted tokens o = .ok o' →
    ∃ ds, ds.Sublist (numbers none (spelledAll tokens)) ∧ topsAll o'.close = topsAll o.close ++ topsAll (picked lifted ds)
  | [], o, o', h => by
    rw [addTokens] at h
    cases h
    exact ⟨[], List.nil_sublist _, (List.append_nil _).symm⟩
  | token :: tokens, o, o', h => by
    rw [addTokens] at h
    obtain ⟨mid, hmid, h⟩ := bind_eq_ok.1 h
    obtain ⟨ds, hds, htops⟩ := topsAll_addToken token hmid
    obtain ⟨es, hes, htops'⟩ := topsAll_addTokens tokens h
    refine ⟨ds ++ es, ?_, ?_⟩
    · rw [InlineToken.spelledAll_cons]
      exact (hds.append hes).trans (numbers_append none _ _)
    · rw [htops', htops, picked_append, topsAll_append, List.append_assoc]

end

/-- The nodes with positions that tokens make are lifted ones, in the order of the placeholders. -/
theorem topsAll_nodesOf {tokens : List InlineToken} (h : nodesOf lifted tokens = .ok nodes) :
    ∃ ds, ds.Sublist (numbers none (spelledAll tokens)) ∧ topsAll nodes = topsAll (picked lifted ds) := by
  obtain ⟨o, ho, h⟩ := bind_eq_ok.1 h
  cases h
  exact topsAll_addTokens tokens ho

end Content
end Markup
end Narration
