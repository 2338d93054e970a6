import Narration.Proofs.Markup.Inline.Lifted

/-!
# Sources with whole placeholders

* `Whole` : texts in which placeholders stand whole, none of them behind an escaping backslash;
* `Closes` : the first run of backticks that is as long as the one that opens code, and where it ends;
* `Content.closingRun?_eq_some` : lifting looks for this run;
* `runsFrom` : the lengths of all runs of backticks;
* `codeLength_cases` : a code span ends behind the run that closes it, or is only the run that opens it.
-/

namespace Narration.Markup
open Content (openPlace closePlace placeholder closingRun? codeLength)

variable {c : Char} {t u v x y z d : Text} {n k : Nat}

/-! ## Whole placeholders in sources -/

/-- A source in which placeholders stand whole, none of them behind a backslash that escapes its beginning. -/
inductive Whole : Text → Prop
  | nil : Whole []
  | char {c : Char} {t : Text} (hc : isPlace c = false) (hslash : c ≠ '\\') (h : Whole t) : Whole (c :: t)
  | escape {c : Char} {t : Text} (hc : isPlace c = false) (h : Whole t) : Whole ('\\' :: c :: t)
  | backslash : Whole ['\\']
  | place {d t : Text} (hd : ∀ c ∈ d, Text.isDigit c) (hne : d ≠ []) (h : Whole t) :
      Whole (openPlace :: (d ++ closePlace :: t))

namespace Whole

theorem complete (h : Whole x) : Complete x := by
  induction h with
  | nil => exact .nil
  | char hc _ _ ih => exact .char hc ih
  | escape hc _ ih => exact .char (by decide) (.char hc ih)
  | backslash => exact .char (by decide) .nil
  | place hd hne _ ih => exact .place hd hne ih

theorem tail (h : Whole (c :: x)) (hslash : c ≠ '\\') (hc : c ≠ openPlace) : isPlace c = false ∧ Whole x := by
  cases h with
  | char hc _ h => exact ⟨hc, h⟩
  | escape => exact absurd rfl hslash
  | backslash => exact absurd rfl hslash
  | place => exact absurd rfl hc

theorem escaped (h : Whole ('\\' :: c :: x)) : isPlace c = false ∧ Whole x := by
  cases h with
  | char _ hslash _ => exact absurd rfl hslash
  | escape hc h => exact ⟨hc, h⟩

/-- A source that is cut off in front of a mark. -/
theorem cut_mark (h : Whole (u ++ c :: v)) (hdigit : Text.isDigit c = false) (hclose : c ≠ closePlace) : Whole u := by
  generalize hx : u ++ c :: v = x at h
  induction h generalizing u with
  | nil => cases u <;> cases hx
  | @char a t ha hslash _ ih =>
    cases u with
    | nil => exact .nil
    | cons b u =>
      rw [List.cons_append, List.cons.injEq] at hx
      obtain ⟨rfl, hx⟩ := hx
      exact .char ha hslash (ih hx)
  | @escape a t ha _ ih =>
    match u with
    | [] => exact .nil
    | [b] =>
      obtain ⟨rfl, -⟩ := List.cons.inj hx
      exact .backslash
    | b :: b' :: u =>
      rw [List.cons_append, List.cons_append, List.cons.injEq, List.cons.injEq] at hx
      obtain ⟨rfl, rfl, hx⟩ := hx
      exact .escape ha (ih hx)
  | backslash =>
    match u with
    | [] => exact .nil
    | [b] => cases hx
    | b :: b' :: u => cases hx
  | @place d t hd hne _ ih =>
    cases u with
    | nil => exact .nil
    | cons b u =>
      rw [List.cons_append, List.cons.injEq] at hx
      obtain ⟨rfl, hx⟩ := hx
      rcases List.append_eq_append_iff.1 hx with ⟨z, rfl, hz⟩ | ⟨z, rfl, hz⟩
      · cases z with
        | nil => exact absurd (List.cons.inj hz).1 hclose
        | cons b z =>
          rw [(List.cons.inj hz).1, hd b (by simp)] at hdigit
          cases hdigit
      · cases z with
        | nil => exact absurd (List.cons.inj hz).1.symm hclose
        | cons b z =>
          obtain ⟨rfl, rfl⟩ := List.cons.inj hz
          exact .place hd hne (ih rfl)

/-- Raw characters may stand in front when the last of them is no backslash. -/
theorem append (h : Whole x) : (u : Text) → Placeless u → u.getLast? ≠ some '\\' → Whole (u ++ x)
  | [], _, _ => h
  | [c], hu, hlast => .char (hu c List.mem_cons_self) (fun hc => hlast (by rw [hc]; rfl)) h
  | c :: c' :: u, hu, hlast => by
    obtain ⟨hc, hu'⟩ := List.forall_mem_cons.1 hu
    rw [List.getLast?_cons_cons] at hlast
    by_cases hslash : c = '\\'
    · obtain ⟨hc', hu''⟩ := List.forall_mem_cons.1 hu'
      rw [hslash]
      exact .escape hc' (append h u hu'' fun hl => hlast (by rw [List.getLast?_cons, hl]; rfl))
    · exact .char hc hslash (append h (c' :: u) hu' hlast)

end Whole

/-! ## Runs of backticks -/

/-- A text that does not begin with a backtick. -/
def Barred (t : Text) : Prop := t.head? ≠ some '\x60'

theorem Barred.exchange (h : Barred t) (ht : u ++ v = t) (hx : Barred x) : Barred (u ++ x) := by
  subst ht
  cases u with
  | nil => exact hx
  | cons c u => exact h

/-- A run of backticks. -/
abbrev ticks (n : Nat) : Text := List.replicate n '\x60'

/-- A text begins with characters that are no backticks; then comes a run of backticks, or nothing. -/
theorem exists_ticks (t : Text) : '\x60' ∉ t ∨ ∃ g f r, t = g ++ ticks (f + 1) ++ r ∧ '\x60' ∉ g ∧ Barred r := by
  by_cases ht : '\x60' ∈ t
  · obtain ⟨g, r, rfl, hg⟩ := List.eq_append_cons_of_mem ht
    obtain ⟨m, r, hr, hm, hend⟩ := Text.exists_run (· = '\x60') r
    have hm : m = ticks m.length := List.eq_replicate_iff.2 ⟨rfl, fun a ha => by simpa using hm a ha⟩
    refine .inr ⟨g, m.length, r, ?_, hg, ?_⟩
    · rw [ticks, List.replicate_succ, List.append_assoc, List.cons_append, ← ticks, ← hm, hr]
    · rcases hend with rfl | ⟨c, r, rfl, hc⟩
      · exact nofun
      · simpa [Barred] using hc
  · exact .inl ht

/-- The first run of exactly `n` backticks in a text ends after `k` characters. -/
inductive Closes (n : Nat) : Text → Nat → Prop
  | here {g r : Text} (hg : '\x60' ∉ g) (hr : Barred r) : Closes n (g ++ ticks n ++ r) (g.length + n)
  | later {g r : Text} {f k : Nat} (hg : '\x60' ∉ g) (hf : f + 1 ≠ n) (hr : Barred r) (h : Closes n r k) :
      Closes n (g ++ ticks (f + 1) ++ r) (g.length + (f + 1) + k)

theorem takeWhile_ticks (hr : Barred u) (n : Nat) : (ticks n ++ u).takeWhile (· = '\x60') = ticks n := by
  rw [List.takeWhile_append_of_pos (by simp)]
  cases u with
  | nil => simp
  | cons c u =>
    rw [List.takeWhile_cons_of_neg (by simpa [Barred] using hr), List.append_nil]

theorem closingRun?_of_notMem (h : '\x60' ∉ t) (fuel : Nat) : closingRun? n fuel t = none := by
  cases fuel with
  | zero => rfl
  | succ fuel =>
    have hall : t.takeWhile (· ≠ '\x60') = t := List.takeWhile_eq_self_iff.2 fun c hc => by
      simpa using fun hcc : c = '\x60' => h (hcc ▸ hc)
    simp only [closingRun?, hall, List.drop_length]
    rfl

theorem closingRun?_succ {g r : Text} {f fuel : Nat} (hg : '\x60' ∉ g) (hr : Barred r) :
    closingRun? n (fuel + 1) (g ++ ticks (f + 1) ++ r) = if f + 1 = n then some (g.length + (f + 1))
      else (closingRun? n fuel r).map (· + (g.length + (f + 1))) := by
  have hgap : (g ++ ticks (f + 1) ++ r).takeWhile (· ≠ '\x60') = g := by
    rw [List.append_assoc, ticks, List.replicate_succ, List.cons_append]
    exact Text.takeWhile_run (fun c hc => by simpa using fun hcc : c = '\x60' => hg (hcc ▸ hc)) (by decide)
  have hrun : ((g ++ ticks (f + 1) ++ r).drop g.length).takeWhile (· = '\x60') = ticks (f + 1) := by
    rw [List.append_assoc, List.drop_left]
    exact takeWhile_ticks hr _
  have hrest : (g ++ ticks (f + 1) ++ r).drop (g.length + (f + 1)) = r := by
    rw [← List.drop_drop, List.append_assoc, List.drop_left]
    exact List.drop_left' (by simp)
  simp only [closingRun?, hgap, hrun, List.length_replicate, hrest]
  rw [if_neg (Nat.succ_ne_zero f)]

theorem closingRun?_eq_some {fuel : Nat} (hn : 0 < n) (hfuel : t.length ≤ fuel) : closingRun? n fuel t = some k ↔ Closes n t k := by
  constructor
  · intro h
    induction fuel generalizing t k with
    | zero => cases h
    | succ fuel ih =>
      rcases exists_ticks t with ht | ⟨g, f, r, rfl, hg, hr⟩
      · rw [closingRun?_of_notMem ht] at h
        cases h
      · rw [closingRun?_succ hg hr] at h
        split at h
        · next hf =>
          cases h
          rw [hf]
          exact .here hg hr
        · next hf =>
          obtain ⟨k, hk, rfl⟩ := Option.map_eq_some_iff.1 h
          rw [Nat.add_comm k]
          exact .later hg hf hr (ih (by simp only [List.length_append, List.length_replicate] at hfuel; omega) hk)
  · intro h
    induction h generalizing fuel with
    | @here g r hg hr =>
      obtain ⟨fuel, rfl⟩ := Nat.exists_eq_add_of_lt (show 0 < fuel by
        simp only [List.length_append, List.length_replicate] at hfuel
        omega)
      obtain ⟨f, rfl⟩ := Nat.exists_eq_succ_of_ne_zero (Nat.ne_of_gt hn)
      rw [Nat.zero_add, closingRun?_succ hg hr, if_pos rfl]
    | @later g r f k hg hf hr _ ih =>
      obtain ⟨fuel, rfl⟩ := Nat.exists_eq_add_of_lt (show 0 < fuel by
        simp only [List.length_append, List.length_replicate] at hfuel
        omega)
      rw [Nat.zero_add, closingRun?_succ hg hr, if_neg hf,
        ih (by simp only [List.length_append, List.length_replicate] at hfuel; omega), Option.map_some, Nat.add_comm]

/-- Which run closes a code span does not depend on what follows the run. -/
theorem Closes.exchange (h : Closes n (u ++ v) u.length) (hx : Barred x) : Closes n (u ++ x) u.length := by
  generalize ht : u ++ v = t at h
  generalize hk : u.length = k at h
  induction h generalizing u with
  | @here g r hg hr =>
    have hu : u = g ++ ticks n := by
      refine (List.append_inj ht ?_).1
      rw [hk, List.length_append, List.length_replicate]
    rw [← hk, hu, List.length_append, List.length_replicate]
    exact .here hg hx
  | @later g r f k hg hf hr h ih =>
    obtain ⟨w, rfl⟩ : ∃ w, u = g ++ ticks (f + 1) ++ w := by
      refine (List.prefix_of_prefix_length_le ⟨r, rfl⟩ ⟨v, ht⟩ ?_).imp fun w hw => hw.symm
      rw [hk, List.length_append, List.length_replicate]
      omega
    rw [List.append_assoc _ w, List.append_cancel_left_eq] at ht
    rw [List.length_append, List.length_append, List.length_replicate, Nat.add_left_cancel_iff] at hk
    rw [List.append_assoc _ w]
    exact .later hg hf (hr.exchange ht hx) (ih ht hk)

/-! ## The lengths of all runs -/

/-- The lengths of the runs of backticks of a text in front of which `k` backticks stand. -/
def runsFrom : (k : Nat) → Text → List Nat
  | k, [] => if k = 0 then [] else [k]
  | k, c :: t => if c = '\x60' then runsFrom (k + 1) t else (if k = 0 then [] else [k]) ++ runsFrom 0 t

theorem runsFrom_ticks (k n : Nat) (t : Text) : runsFrom k (ticks n ++ t) = runsFrom (k + n) t := by
  induction n generalizing k with
  | zero => rfl
  | succ n ih => rw [ticks, List.replicate_succ, List.cons_append, runsFrom, if_pos rfl, ← ticks, ih, Nat.add_assoc, Nat.add_comm 1]

theorem runsFrom_barred (hr : Barred t) (k : Nat) : runsFrom k t = (if k = 0 then [] else [k]) ++ runsFrom 0 t := by
  cases t with
  | nil => rw [runsFrom, runsFrom, if_pos rfl, List.append_nil]
  | cons c t =>
    have hc : c ≠ '\x60' := by simpa [Barred] using hr
    rw [runsFrom, if_neg hc, runsFrom, if_neg hc, if_pos rfl, List.nil_append]

theorem runsFrom_append_of_notMem (hu : '\x60' ∉ u) (t : Text) : runsFrom 0 (u ++ t) = runsFrom 0 t := by
  induction u with
  | nil => rfl
  | cons c u ih =>
    rw [List.mem_cons, not_or] at hu
    rw [List.cons_append, runsFrom, if_neg (Ne.symm hu.1), if_pos rfl, List.nil_append, ih hu.2]

/-- Runs end where something else than a backtick stands. -/
theorem runsFrom_append_cons (hc : c ≠ '\x60') (k : Nat) (u t : Text) :
    runsFrom k (u ++ c :: t) = runsFrom k u ++ runsFrom 0 t := by
  induction u generalizing k with
  | nil => simp only [List.nil_append, runsFrom, if_neg hc]
  | cons a u ih =>
    rw [List.cons_append, runsFrom, runsFrom]
    split
    · exact ih (k + 1)
    · rw [ih 0, List.append_assoc]

theorem Closes.mem_runsFrom (hn : 0 < n) (h : Closes n t k) : n ∈ runsFrom 0 t := by
  induction h with
  | here hg hr =>
    rw [List.append_assoc, runsFrom_append_of_notMem hg, runsFrom_ticks, runsFrom_barred hr, Nat.zero_add, if_neg (Nat.ne_of_gt hn)]
    exact List.mem_append_left _ List.mem_cons_self
  | later hg _ hr _ ih =>
    rw [List.append_assoc, runsFrom_append_of_notMem hg, runsFrom_ticks, runsFrom_barred hr]
    exact List.mem_append_right _ ih

theorem exists_closes (h : n ∈ runsFrom 0 t) : ∃ k, Closes n t k := by
  induction hlength : t.length using Nat.strong_induction_on generalizing t with
  | h length ih =>
    subst hlength
    rcases exists_ticks t with ht | ⟨g, f, r, rfl, hg, hr⟩
    · rw [← List.append_nil t, runsFrom_append_of_notMem ht] at h
      cases h
    · rw [List.append_assoc, runsFrom_append_of_notMem hg, runsFrom_ticks, runsFrom_barred hr, Nat.zero_add,
        if_neg (Nat.succ_ne_zero f), List.singleton_append, List.mem_cons] at h
      by_cases hf : f + 1 = n
      · rw [hf]
        exact ⟨_, .here hg hr⟩
      · obtain ⟨k, hk⟩ := ih r.length (by simp only [List.length_append, List.length_replicate]; omega)
          (h.resolve_left (Ne.symm hf)) rfl
        exact ⟨_, .later hg hf hr hk⟩


/-! ## Code spans -/

theorem codeLength_ticks (hr : Barred t) (hn : 0 < n) (hk : Closes n t k) : codeLength (ticks n ++ t) = n + k := by
  have hclosing : closingRun? n (ticks n ++ t).length t = some k := (closingRun?_eq_some hn (by simp)).2 hk
  have hdrop : (ticks n ++ t).drop n = t := List.drop_left' (by simp)
  simp only [codeLength, takeWhile_ticks hr, List.length_replicate, hdrop, hclosing, Option.getD_some]

theorem codeLength_open (hr : Barred t) (hn : 0 < n) (hnone : n ∉ runsFrom 0 t) : codeLength (ticks n ++ t) = n := by
  have hclosing : closingRun? n (ticks n ++ t).length t = none := by
    cases h : closingRun? n (ticks n ++ t).length t with
    | none => rfl
    | some k => exact absurd (((closingRun?_eq_some hn (by simp)).1 h).mem_runsFrom hn) hnone
  have hdrop : (ticks n ++ t).drop n = t := List.drop_left' (by simp)
  simp only [codeLength, takeWhile_ticks hr, List.length_replicate, hdrop, hclosing, Option.getD_none, Nat.add_zero]

/-- Backticks begin a code span or nothing. -/
theorem codeLength_cases (t : Text) : ∃ n r, '\x60' :: t = ticks (n + 1) ++ r ∧ Barred r ∧
    (n + 1 ∉ runsFrom 0 r ∧ codeLength ('\x60' :: t) = n + 1 ∨
      ∃ k, Closes (n + 1) r k ∧ codeLength ('\x60' :: t) = n + 1 + k) := by
  obtain ⟨m, r, rfl, hm, hend⟩ := Text.exists_run (· = '\x60') t
  have hm : m = ticks m.length := List.eq_replicate_iff.2 ⟨rfl, fun a ha => by simpa using hm a ha⟩
  have hr : Barred r := by
    rcases hend with rfl | ⟨c, r, rfl, hc⟩
    · exact nofun
    · simpa [Barred] using hc
  have htext : '\x60' :: (m ++ r) = ticks (m.length + 1) ++ r := by
    rw [ticks, List.replicate_succ, List.cons_append, ← ticks, ← hm]
  refine ⟨m.length, r, htext, hr, ?_⟩
  rw [htext]
  by_cases hmem : m.length + 1 ∈ runsFrom 0 r
  · obtain ⟨k, hk⟩ := exists_closes hmem
    exact .inr ⟨k, hk, codeLength_ticks hr (Nat.succ_pos _) hk⟩
  · exact .inl ⟨hmem, codeLength_open hr (Nat.succ_pos _) hmem⟩

theorem codeLength_pos (t : Text) : 0 < codeLength ('\x60' :: t) := by
  obtain ⟨n, r, -, -, ⟨-, h⟩ | ⟨k, -, h⟩⟩ := codeLength_cases t
  · omega
  · omega

end Narration.Markup
