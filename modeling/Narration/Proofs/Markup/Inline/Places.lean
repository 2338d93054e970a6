import Narration.Proofs.Markup.Inline.Harmless

/-!
# Pieces of inline content end between units

* `Skipping.Lands`, `Memory.Known` : ways to skip a piece that lead from one place between units to the next;
* `Piece.Lands` : pieces with whole placeholders in their texts, and none in code, that end at such a place;
* `codeAt_lands`, `autolinkAt_lands`, `linkAt_lands`, `imageAt_lands` : each piece that needs an argument of its own;
* `pieceAt_lands`, `skip_lands` : any piece, and how it is skipped.
-/

namespace Narration.Markup
open Content (openPlace closePlace placeholder codeLength)

variable {c : Char} {t u v x y z d : Text} {n k : Nat}

/-- What was skipped before ends where no placeholder, escape or code span goes on. -/
def Memory.Known (P : Prop) (x : Text) (memory : Memory) : Prop :=
  ∀ i stop : Nat, memory.skips[i]?.join = some stop → At P x i → At P x stop

namespace Source

variable {P B : Prop} {s : Source} {i j limit stop : Nat} {memory : Memory} {skip : Skipping}

theorem known_empty (size : Nat) : (Memory.empty size).Known P x := by
  intro i stop h
  rw [Memory.empty, Array.getElem?_replicate] at h
  split at h <;> cases h

theorem known_setSkip (hmemory : memory.Known P x) (h : At P x i → At P x stop) :
    ({ memory with skips := memory.skips.setIfInBounds i (some stop) } : Memory).Known P x := by
  intro j n hn hj
  rw [Array.getElem?_setIfInBounds] at hn
  split at hn
  · next heq =>
    subst heq
    split at hn
    · cases hn
      exact h hj
    · cases hn
  · exact hmemory j n hn hj

/-! ## Labels -/

/-- A way to skip that ends where no placeholder, escape or code span goes on. -/
def Skipping.Lands (P : Prop) (s : Source) (skip : Skipping) : Prop :=
  ∀ memory i limit, memory.Known P s.text → At P s.text i → s.Bounds P limit → i < limit →
    At P s.text (skip memory i limit).1 ∧ (skip memory i limit).2.Known P s.text

theorem at_succ (h : At P s.text i) (hc : s.chars[i]? = some c) (hsingle : isSingle c) : At P s.text (i + 1) :=
  (h.single (drop_of_chars hc) hsingle).2

/-- Behind a target in parentheses, closed or not. -/
theorem at_inlineTarget? (hs : Sound P B s.text) {last : Nat} {t : Text} (hlast : At P s.text last)
    (hbracket : s.chars[last]? = some ']') (hparen : s.chars[last + 1]? = some '(')
    (hend : s.inlineTarget? (last + 2) limit = some (t, stop)) :
    (s.chars[stop]? = some ')' → At P s.text (stop + 1)) ∧ (s.chars[stop + 1]? = some '[' → At P s.text (stop + 1 + 1)) := by
  have hreach : P → Reach s.text (s.text.drop stop) ∧ ∀ c, s.chars[stop]? = some c → isSingle c := fun hP =>
    reach_inlineTarget? hs hbracket hparen hend hP ((at_succ (at_succ hlast hbracket (by decide)) hparen (by decide)).reach hP)
  have hnext {c : Char} (hc : s.chars[stop]? = some c) (hP : P) : Reach s.text (s.text.drop (stop + 1)) := by
    obtain ⟨hstop, hsingle⟩ := hreach hP
    rw [drop_of_chars hc] at hstop
    exact hstop.single (hsingle c hc)
  refine ⟨fun hc => .behind hs.intact (drop_of_chars hc) (by decide) (hnext hc), fun hc => ?_⟩
  refine .behind hs.intact (drop_of_chars hc) (by decide) fun hP => ?_
  have hlt : stop < s.chars.size := Nat.lt_of_succ_lt (Array.getElem?_eq_some_iff.1 hc).1
  have hplace := hnext (Array.getElem?_eq_getElem hlt) hP
  rw [drop_of_chars hc] at hplace
  exact hplace.single (by decide)

section Labels
variable (hskip : skip.Lands P s) (hlimit : s.Bounds P limit)
include hskip hlimit

theorem labelEndFrom_lands {alone : Bool} {fuel depth : Nat} (hmemory : memory.Known P s.text) (hdepth : 0 < depth)
    (hi : At P s.text i) :
    (s.labelEndFrom skip alone limit fuel i depth memory).2.Known P s.text ∧
      ∀ last, (s.labelEndFrom skip alone limit fuel i depth memory).1 = some last →
        At P s.text last ∧ s.chars[last]? = some ']' := by
  induction fuel generalizing i depth memory with
  | zero => exact ⟨hmemory, nofun⟩
  | succ fuel ih =>
    unfold labelEndFrom
    split
    · exact ⟨hmemory, nofun⟩
    · next c hc =>
      obtain ⟨hlt, hc⟩ := at?_eq_some.1 hc
      obtain ⟨d, hd, hbracket⟩ : ∃ d, (if c = ']' then depth - 1 else depth) = d ∧ (d = 0 → c = ']') := by
        refine ⟨_, rfl, fun hzero => ?_⟩
        split at hzero
        · next h => exact h
        · omega
      simp only [hd]
      split
      · next hzero =>
        refine ⟨hmemory, fun last hlast => ?_⟩
        cases hlast
        exact ⟨hi, hbracket hzero ▸ hc⟩
      · next hdepth' =>
        obtain ⟨hnext, hknown⟩ := hskip memory i limit hmemory hi hlimit hlt
        have hrest {depth : Nat} (hd : 0 < depth) := ih hknown hd hnext
        split
        · split
          · exact hrest (Nat.succ_pos _)
          · split
            · exact ⟨hknown, nofun⟩
            · exact hrest (Nat.pos_of_ne_zero hdepth')
        · exact hrest (Nat.pos_of_ne_zero hdepth')

theorem labelEnd?_lands {alone : Bool} (hmemory : memory.Known P s.text) (hi : At P s.text (i + 1)) :
    (s.labelEnd? skip alone memory i limit).2.Known P s.text ∧
      ∀ last, (s.labelEnd? skip alone memory i limit).1 = some last → At P s.text last ∧ s.chars[last]? = some ']' :=
  labelEndFrom_lands hskip hlimit hmemory Nat.one_pos hi

theorem referenceTarget?_lands {after first last : Nat} (hmemory : memory.Known P s.text) (hafter : At P s.text after)
    (hi : s.chars[i]? = some '[' → At P s.text (i + 1)) :
    (s.referenceTarget? skip memory i after first last limit).2.Known P s.text ∧
      ∀ t stop, (s.referenceTarget? skip memory i after first last limit).1 = some (t, stop) → At P s.text stop := by
  have hfound {memory : Memory} {label : Text} {n : Nat} (hm : memory.Known P s.text) (hn : At P s.text n) :
      memory.Known P s.text ∧ ∀ t stop, (Reference.find? s.references label).map (·, n) = some (t, stop) → At P s.text stop := by
    refine ⟨hm, fun t stop h => ?_⟩
    obtain ⟨target, -, heq⟩ := Option.map_eq_some_iff.1 h
    cases heq
    exact hn
  unfold referenceTarget?
  dsimp only
  split
  · next hbracket =>
    obtain ⟨hknown, hend⟩ : (s.labelEnd? skip false memory i limit).2.Known P s.text ∧ _ :=
      labelEnd?_lands hskip hlimit hmemory (hi (at?_eq_some.1 hbracket).2)
    split
    · next n memory' heq =>
      rw [heq] at hknown hend
      obtain ⟨hn, hbracket⟩ := hend n rfl
      exact hfound hknown (at_succ hn hbracket (by decide))
    · next memory' heq =>
      rw [heq] at hknown
      exact hfound hknown hafter
  · exact hfound hmemory hafter

end Labels



/-! ## Code spans -/

theorem drop_add (h : s.text.drop i = u ++ t) : s.text.drop (i + u.length) = t := by
  rw [← List.drop_drop, h, List.drop_left]

theorem chars_of_drop (h : s.text.drop i = c :: t) : s.chars[i]? = some c := by
  rw [getElem?_chars, h, List.head?_cons]

theorem lt_size_of_drop (h : s.text.drop i = c :: t) : i < s.chars.size :=
  (Array.getElem?_eq_some_iff.1 (chars_of_drop h)).1

theorem barred_head {q : Text} (h : Barred q) : ∀ c ∈ q.head?, decide (c = '\x60') = false := by
  intro c hc
  have hne : c ≠ '\x60' := by
    rintro rfl
    exact h hc
  simpa using hne

/-- The closing run of a length in what stands at a place, from its first to its last backtick. -/
inductive ClosingRun (n i : Nat) (q : Text) : Option (Nat × Nat) → Prop
  | found {k first last : Nat} (h : Closes n q k) (hfirst : first + n = i + k) (hlast : last = i + k) :
      ClosingRun n i q (some (first, last))
  | none (h : n ∉ runsFrom 0 q) : ClosingRun n i q none

/-- A search for a closing run finds the first one of its length. -/
theorem closingRun?_spec {q : Text} {n fuel : Nat} (hfuel : q.length < fuel) (hq : s.text.drop i = q) :
    ClosingRun n i q (s.closingRun? n fuel i) := by
  induction fuel generalizing i q with
  | zero => exact absurd hfuel (Nat.not_lt_zero _)
  | succ fuel ih =>
    unfold closingRun?
    dsimp only
    rcases exists_ticks q with htick | ⟨g, f, r, rfl, hg, hr⟩
    · have hpass : s.pass (· ≠ '\x60') i s.chars.size = i + q.length := by
        refine pass_run (v := []) (by rw [hq, List.append_nil]) (fun c hc => ?_) (by simp)
        simpa using fun hcc : c = '\x60' => htick (hcc ▸ hc)
      have hlength := congrArg List.length hq
      rw [List.length_drop, Array.length_toList] at hlength
      rw [hpass, if_neg (by omega)]
      have hnone := runsFrom_append_of_notMem htick []
      rw [List.append_nil] at hnone
      exact .none (hnone ▸ List.not_mem_nil)
    · rw [List.append_assoc] at hq
      have hgap : s.pass (· ≠ '\x60') i s.chars.size = i + g.length := by
        refine pass_run hq (fun c hc => ?_) ?_
        · simpa using fun hcc : c = '\x60' => hg (hcc ▸ hc)
        · rintro _ ⟨⟩
          rfl
      have hticks := drop_add hq
      have hrun : s.pass (· = '\x60') (i + g.length) s.chars.size = i + g.length + (f + 1) := by
        rw [pass_run hticks (fun c hc => by simpa using (List.mem_replicate.1 hc).2) (barred_head hr), List.length_replicate]
      rw [hgap, if_pos (lt_size_of_drop hticks), hrun, Nat.add_sub_cancel_left]
      by_cases hf : f + 1 = n
      · rw [if_pos hf, hf]
        exact .found (.here hg hr) (by omega) (by omega)
      · rw [if_neg hf]
        have hrest := drop_add hticks
        rw [List.length_replicate] at hrest
        simp only [List.length_append, List.length_replicate] at hfuel
        have hnext := ih (q := r) (by omega) hrest
        generalize s.closingRun? n fuel (i + g.length + (f + 1)) = run at hnext
        cases hnext with
        | found hk hfirst hlast => exact .found (.later hg hf hr hk) (by omega) (by omega)
        | none hnone =>
          refine .none ?_
          rw [List.append_assoc, runsFrom_append_of_notMem hg, runsFrom_ticks, runsFrom_barred hr, Nat.zero_add,
            if_neg (Nat.succ_ne_zero f), List.singleton_append, List.mem_cons, not_or]
          exact ⟨Ne.symm hf, hnone⟩

end Source

/-- A piece holds whole placeholders, none in code, and ends where no placeholder, escape or code span goes on. -/
def Piece.Lands (P B : Prop) (s : Source) : Piece → Prop
  | .text value stop | .special value stop => Complete value ∧ At P s.text stop
  | .lineEnd stop | .hardBreak stop => At P s.text stop
  | .code value stop => (B ∧ (P → Placeless value)) ∧ At P s.text stop
  | .delimiters marker stop => isPlace marker = false ∧ At P s.text stop
  | .link _ first last stop | .image _ first last stop => (At P s.text first ∧ s.Bounds P last) ∧ At P s.text stop
  | .autolink _ shown stop => Complete shown ∧ At P s.text stop

theorem Piece.Lands.stop {P B : Prop} {s : Source} : {piece : Piece} → piece.Lands P B s → At P s.text piece.stop
  | .text .., h | .special .., h | .code .., h | .delimiters .., h | .link .., h | .image .., h | .autolink .., h => h.2
  | .lineEnd _, h | .hardBreak _, h => h

theorem Placeless.codeText (h : Placeless t) : Placeless (Source.codeText t) := by
  have hmap : Placeless (t.map fun c => if c = '\n' then ' ' else c) := by
    refine List.forall_mem_map.2 fun c hc => ?_
    split
    · rfl
    · exact h c hc
  unfold Source.codeText
  dsimp only
  split
  · exact hmap.within ((List.dropLast_prefix _).isInfix.trans (List.tail_suffix _).isInfix)
  · exact hmap

namespace Source

variable {P B : Prop} {s : Source} {i j limit stop : Nat} {memory : Memory} {skip : Skipping}

/-- Within a part of a source a run of backticks stands whole. -/
theorem pass_ticks (hlimit : s.Bounds P limit) (hi : i < limit) {q : Text} (hq : s.text.drop i = ticks n ++ q) (hbarred : Barred q) :
    s.pass (· = '\x60') i limit = i + n := by
  have hlength := congrArg List.length hq
  rw [List.length_drop, Array.length_toList, List.length_append, List.length_replicate] at hlength
  have hle : n ≤ limit - i := by
    rcases hlimit.ends with rfl | hend
    · omega
    · by_contra hlt
      have hget : s.chars[limit]? = (s.text.drop i)[limit - i]? := by
        rw [List.getElem?_drop, Nat.add_sub_cancel' (Nat.le_of_lt hi), Array.getElem?_toList]
      rw [hend, hq, List.getElem?_append_left (by rw [List.length_replicate]; omega), List.getElem?_replicate_of_lt (by omega)] at hget
      cases hget
  have htail : Barred (q.take (limit - i - n)) := by
    rw [Barred, List.head?_take]
    split
    · simp
    · exact hbarred
  rw [pass_eq, hq, List.take_append, List.take_of_length_le (by rwa [List.length_replicate]), List.length_replicate,
    takeWhile_ticks htail, List.length_replicate]

/-- Behind a code span, or behind backticks that begin none. -/
theorem at_code (hs : Sound P B s.text) (hi : At P s.text i) (hc : s.chars[i]? = some '\x60') {u r : Text}
    (hsplit : s.text.drop i = u ++ ticks (n + 1) ++ r) (hcode : codeLength (s.text.drop i) = u.length + (n + 1)) :
    At P s.text (i + (u.length + (n + 1))) := by
  have hnext : s.text.drop (i + (u.length + (n + 1))) = r := by
    rw [← List.drop_drop, hsplit, List.drop_left' (by simp)]
  refine ⟨?_, fun hP => ?_⟩
  · rw [hnext]
    refine hs.intact.after (s.text.take i ++ u ++ ticks n) '\x60' r ?_ (by decide) (by decide) (by decide)
    rw [ticks, List.replicate_succ'] at hsplit
    calc s.text = s.text.take i ++ s.text.drop i := (List.take_append_drop _ _).symm
      _ = _ := by rw [hsplit]; simp only [List.append_assoc, List.singleton_append]
  · have hreach := (hi.reach hP).drop (by rw [drop_of_chars hc]; exact List.cons_ne_nil _ _)
    have hunit : unitLength (s.text.drop i) = codeLength (s.text.drop i) := by
      rw [drop_of_chars hc]
      rfl
    rwa [hunit, hcode, List.drop_drop] at hreach

theorem codeAt_lands (hs : Sound P B s.text) (hi : At P s.text i) (hlimit : s.Bounds P limit) (hlt : i < limit)
    (hc : s.chars[i]? = some '\x60') : (s.codeAt i limit).Lands P B s := by
  have hdrop := drop_of_chars hc
  obtain ⟨n, q, hticks, hq, hlength⟩ := codeLength_cases (s.text.drop (i + 1))
  rw [← hdrop] at hticks hlength
  have hstart := pass_ticks hlimit hlt hticks hq
  have hrest : s.text.drop (i + (n + 1)) = q := by
    rw [← List.drop_drop, hticks, List.drop_left' (by simp)]
  have hfuel : q.length < s.chars.size + 1 := by
    rw [← hrest, List.length_drop, Array.length_toList]
    omega
  have hspec := closingRun?_spec (n := n + 1) hfuel hrest
  unfold codeAt
  dsimp only
  rw [hstart, Nat.add_sub_cancel_left]
  generalize s.closingRun? (n + 1) (s.chars.size + 1) (i + (n + 1)) = run at hspec
  cases hspec with
  | none hnone =>
    have hopen : codeLength (s.text.drop i) = n + 1 := by
      rcases hlength with ⟨-, h⟩ | ⟨k, hk, -⟩
      · exact h
      · exact absurd (hk.mem_runsFrom (Nat.succ_pos n)) hnone
    have hat := at_code hs hi hc (u := []) hticks (by rw [hopen, List.length_nil, Nat.zero_add])
    rw [List.length_nil, Nat.zero_add] at hat
    refine ⟨.of_placeless ?_, hat⟩
    rw [slice_eq, hticks, Nat.add_sub_cancel_left, List.take_left' (by simp)]
    exact fun c hc => by rw [(List.mem_replicate.1 hc).2]; decide
  | @found k first last hk hfirst hlast =>
    have hcode : codeLength (s.text.drop i) = n + 1 + k := by
      rw [hticks]
      exact codeLength_ticks hq (Nat.succ_pos n) hk
    obtain ⟨u, r, hsplit, rfl, -⟩ := hk.split
    have hat := at_code hs hi hc (u := ticks (n + 1) ++ u) (n := n) (r := r)
      (by rw [hticks, hsplit]; simp only [List.append_assoc])
      (by rw [hcode, List.length_append, List.length_replicate]; omega)
    have hend : i + ((ticks (n + 1) ++ u).length + (n + 1)) = last := by
      rw [List.length_append, List.length_replicate]
      omega
    rw [hend] at hat
    refine ⟨⟨hs.ticks ?_, fun hP => Placeless.codeText ?_⟩, hat⟩
    · exact List.mem_of_getElem? (by rwa [Array.getElem?_toList])
    · have hclean := (hs.clean hP).1 (s.text.drop (i + 1)) (hdrop ▸ hi.reach hP)
      rw [← hdrop, hcode, hticks] at hclean
      refine hclean.within ?_
      have hsize : first - (i + (n + 1)) = u.length := by omega
      rw [slice_eq, hrest, hsize, hsplit, List.append_assoc, List.take_left]
      refine ⟨ticks (n + 1), ticks (n + 1), ?_⟩
      rw [← List.append_assoc, ← List.append_assoc]
      rw [List.take_left' (by simp only [List.length_append, List.length_replicate]; omega)]

/-! ## Addresses -/

theorem dropFinalNewline_cases (t : Text) : ∃ e, t = dropFinalNewline t ++ e ∧ (e = [] ∨ e = ['\n']) := by
  unfold dropFinalNewline
  split
  · next hlast => exact ⟨['\n'], (List.dropLast_append_getLast? _ hlast).symm, .inr rfl⟩
  · exact ⟨[], (List.append_nil t).symm, .inl rfl⟩

theorem isAddress_iff : isAddress c ↔ c ≠ '<' ∧ c ≠ '>' ∧ c ≠ ' ' ∧ c ≠ '\t' ∧ c ≠ '\n' := by
  rw [isAddress, Bool.not_eq_true', ← Bool.not_eq_true, List.contains_iff_mem]
  show c ∉ ['<', '>', ' ', '\t', '\n'] ↔ _
  simp only [List.mem_cons, List.not_mem_nil, or_false, not_or]

/-- A character of a list in which none is a part of a placeholder and all may stand in an address. -/
theorem isAddress_of_mem (cs : Text) (hcs : ∀ c ∈ cs, isAddress c ∧ isPlace c = false)
    (h : (c.isAlphanum || cs.contains c) = true) : isAddress c ∧ isPlace c = false := by
  rw [Bool.or_eq_true] at h
  rcases h with h | h
  · refine ⟨isAddress_iff.2 ⟨?_, ?_, ?_, ?_, ?_⟩, isPlace_eq_false.2 ⟨?_, ?_⟩⟩ <;>
    · rintro rfl
      exact absurd h (by decide)
  · exact hcs c (List.contains_iff_mem.1 h)

/-- What an address in angle brackets consists of: a scheme and more, or a mail address; a line feed may follow. -/
theorem exists_address (h : isAbsolute t ∨ isMail t) : ∃ w e, t = w ++ e ∧ (e = [] ∨ e = ['\n']) ∧ (∀ a ∈ w, isAddress a) ∧
    ((∃ scheme rest, w = scheme ++ ':' :: rest ∧ Placeless scheme) ∨ '@' ∈ w ∧ Placeless w) := by
  rcases h with h | h
  · unfold isAbsolute at h
    have hspan := List.takeWhile_append_dropWhile (p := (· ≠ ':')) (l := t)
    rw [List.span_eq_takeWhile_dropWhile] at h
    split at h
    · next scheme rest heq =>
      obtain ⟨hscheme, hrest⟩ := Prod.mk.inj heq
      rw [hscheme, hrest] at hspan
      simp only [Bool.and_eq_true, List.all_eq_true] at h
      obtain ⟨⟨-, hchars⟩, htail⟩ := h
      obtain ⟨e, he, hend⟩ := dropFinalNewline_cases rest
      have hlead : ∀ c ∈ scheme, isAddress c ∧ isPlace c = false := fun c hc => by
        refine isAddress_of_mem ['+', '.', '-'] (by decide) ?_
        have hchar := hchars c hc
        simp only [Bool.or_eq_true, beq_iff_eq] at hchar
        simp only [Bool.or_eq_true, List.contains_iff_mem, List.mem_cons, List.not_mem_nil, or_false]
        tauto
      refine ⟨scheme ++ ':' :: dropFinalNewline rest, e, ?_, hend, ?_, .inl ⟨scheme, _, rfl, fun c hc => (hlead c hc).2⟩⟩
      · rw [← hspan]
        conv_lhs => rw [he]
        rw [List.append_assoc, List.cons_append]
      · refine List.forall_mem_append.2 ⟨fun c hc => (hlead c hc).1, List.forall_mem_cons.2 ⟨by decide, fun c hc => ?_⟩⟩
        have hchar := htail c hc
        simp only [decide_eq_true_eq] at hchar
        refine isAddress_iff.2 ⟨hchar.1.1, hchar.1.2, ?_, ?_, ?_⟩ <;>
        · rintro rfl
          exact absurd hchar.2 (by decide)
    · cases h
  · unfold isMail at h
    split at h
    · next user host hcut =>
      simp only [Bool.and_eq_true, List.all_eq_true] at h
      obtain ⟨⟨-, huser⟩, hhost⟩ := h
      obtain ⟨e, he, hend⟩ := dropFinalNewline_cases t
      have htext := Text.eq_of_cut? hcut
      have hleft : ∀ c ∈ user, isAddress c ∧ isPlace c = false := fun c hc => isAddress_of_mem _ (by decide) (huser c hc)
      have hright : ∀ c ∈ host, isAddress c ∧ isPlace c = false := fun c hc => by
        by_cases hdot : c = '.'
        · rw [hdot]
          decide
        · obtain ⟨l, hl, hcl⟩ : ∃ l ∈ Text.splitOn '.' host, c ∈ l := by
            rw [← Text.join_splitOn '.' host] at hc
            exact (Text.mem_join hc).resolve_left fun hc => hdot (List.mem_singleton.1 hc)
          have hlabel := hhost l hl
          simp only [isMailLabel, Bool.and_eq_true, List.all_eq_true] at hlabel
          refine isAddress_of_mem ['-'] (by decide) ?_
          have hchar := hlabel.1.1.2 c hcl
          simp only [Bool.or_eq_true, beq_iff_eq] at hchar
          simpa only [Bool.or_eq_true, List.contains_iff_mem, List.mem_singleton] using hchar
      have hall : ∀ c ∈ user ++ '@' :: host, isAddress c ∧ isPlace c = false :=
        List.forall_mem_append.2 ⟨hleft, List.forall_mem_cons.2 ⟨by decide, hright⟩⟩
      refine ⟨_, e, by rw [← htext]; exact he, hend, fun c hc => (hall c hc).1, .inr ⟨by simp, fun c hc => (hall c hc).2⟩⟩
    · cases h

end Source

/-- An address in angle brackets holds no backticks. -/
theorem Calm.address (h : Calm x) {r : Text} (hx : v ++ '<' :: (t ++ '>' :: r) = x) (ht : Complete t)
    (haddress : Source.isAbsolute t ∨ Source.isMail t) : '\x60' ∉ t := by
  obtain ⟨w, e, rfl, he, hw, hkind⟩ := Source.exists_address haddress
  intro hmem
  have htick : '\x60' ∈ w := by
    rcases he with rfl | rfl
    · rwa [List.append_nil] at hmem
    · exact (List.mem_append.1 hmem).resolve_right (by decide)
  clear hmem
  have hmark : ':' ∈ w ∨ '@' ∈ w := by
    rcases hkind with ⟨scheme, rest, rfl, -⟩ | ⟨hat, -⟩
    · exact .inl (by simp)
    · exact .inr hat
  obtain ⟨m, r', hm, hplain, rfl | ⟨c, r', rfl, hc⟩⟩ := Text.exists_run (!isPlace ·) w
  · rw [List.append_nil] at hm
    subst hm
    have hplain : Placeless w := fun c hc => by simpa using hplain c hc
    rcases he with rfl | rfl
    · refine h ('<' :: (w ++ ['>'])) [] ?_ (.inl rfl) ⟨v, r, by rw [← hx]; simp⟩ ?_
      · exact List.forall_mem_cons.2 ⟨rfl, hplain.append (List.forall_mem_singleton.2 rfl)⟩
      · rintro e' ⟨⟩
        rw [List.append_nil]
        exact .address hw htick
    · refine h ('<' :: (w ++ ['\n'])) [] ?_ (.inl rfl) ⟨v, '>' :: r, by rw [← hx]; simp⟩ ?_
      · exact List.forall_mem_cons.2 ⟨rfl, hplain.append (List.forall_mem_singleton.2 rfl)⟩
      · rintro e' ⟨⟩
        rw [List.append_nil]
        exact .line hw htick hmark
  · have hplain : Placeless m := fun c hc => by simpa using hplain c hc
    have hplace : isPlace c = true := by simpa using hc
    obtain rfl : c = openPlace := by
      simp only [isPlace, Bool.or_eq_true, beq_iff_eq] at hplace
      refine hplace.resolve_right ?_
      rintro rfl
      rw [hm, List.append_assoc] at ht
      exact Complete.closePlace_notMem hplain ht
    have hcolon : ':' ∈ m := by
      rcases hkind with ⟨scheme, rest, rfl, hscheme⟩ | ⟨-, hplaceless⟩
      · rcases List.append_eq_append_iff.1 hm with ⟨z, rfl, hz⟩ | ⟨z, rfl, hz⟩
        · cases z with
          | nil => cases hz
          | cons b z => exact List.mem_append_right _ (by rw [(List.cons.inj hz).1]; exact List.mem_cons_self)
        · cases z with
          | nil => cases hz
          | cons b z =>
            rw [List.cons_append, List.cons.injEq] at hz
            exact absurd (hscheme b (by simp)) (by rw [← hz.1]; decide)
      · exact absurd (hplaceless openPlace (by rw [hm]; simp)) (by decide)
    have hm' : ∀ a ∈ m, isAddress a := fun a ha => hw a (by rw [hm]; exact List.mem_append_left _ ha)
    refine h ('<' :: m) [openPlace] (List.forall_mem_cons.2 ⟨rfl, hplain⟩) (.inr rfl) ⟨v, r' ++ e ++ '>' :: r, ?_⟩ ?_
    · rw [← hx, hm]
      simp only [List.append_assoc, List.cons_append, List.nil_append]
    · rintro e' (_ | _)
      · exact .markup hm' hcolon (.inl rfl)
      · exact .markup hm' hcolon (.inr rfl)

namespace Source

variable {P B : Prop} {s : Source} {i j limit stop : Nat} {memory : Memory} {skip : Skipping}

theorem slice_split (h : s.text.drop i = u ++ t) : s.slice i (i + u.length) = u := by
  rw [slice_eq, h, Nat.add_sub_cancel_left, List.take_left]

theorem autolinkAt_lands (hs : Sound P B s.text) (hi : At P s.text i) (hc : s.chars[i]? = some '<') {piece : Piece}
    (h : s.autolinkAt i limit = some piece) : piece.Lands P B s := by
  have hnext := at_succ hi hc (by decide)
  obtain ⟨u, r, hsplit, hu, hstop⟩ := s.pass_split (fun c => c ≠ '<' && c ≠ '>') (i + 1) limit
  unfold autolinkAt at h
  dsimp only at h
  rw [hstop, slice_split hsplit] at h
  split at h
  · next hend =>
    have hend := (at?_eq_some.1 hend).2
    have hr : r = '>' :: s.text.drop (i + 1 + u.length + 1) := by rw [← drop_of_chars hend, drop_add hsplit]
    rw [hr] at hsplit
    have hcomplete : Complete u := ((hsplit ▸ hnext.whole : Whole (u ++ '>' :: _)).cut_mark (by decide) (by decide)).complete
    have hstands : u <:+: s.text := (List.prefix_append u _).isInfix.trans (hsplit ▸ (List.drop_suffix _ _).isInfix)
    obtain ⟨full, hfull, h⟩ := Option.bind_eq_some_iff.1 h
    obtain ⟨target, -, h⟩ := Option.bind_eq_some_iff.1 h
    cases h
    have hkind : isAbsolute u ∨ isMail u := by
      split at hfull
      · next h => exact .inl h
      · split at hfull
        · next h => exact .inr h
        · cases hfull
    have hat : At P s.text (i + 1 + u.length + 1) := by
      refine .behind hs.intact (drop_of_chars hend) (by decide) fun hP => ?_
      have htick : '\x60' ∉ u := by
        refine (hs.clean hP).2.address (v := s.text.take i) (r := s.text.drop (i + 1 + u.length + 1)) ?_ hcomplete hkind
        rw [← hsplit, ← drop_of_chars hc, List.take_append_drop]
      have hreach := hnext.reach hP
      rw [hsplit] at hreach
      exact hreach.past htick (by decide) (by decide) (by decide) (hsplit ▸ hnext.whole)
    have hplain := hs.uncoded.within hstands
    exact ⟨LinkTarget.complete_readable hcomplete hplain.percent hplain.punycode, hat⟩
  · cases h

theorem escapeAt_lands (hi : At P s.text i) (hc : s.chars[i]? = some '\\') {piece : Piece}
    (h : s.escapeAt i limit = some piece) : piece.Lands P B s := by
  obtain ⟨c, hnext, h⟩ := Option.bind_eq_some_iff.1 h
  have hnext := (at?_eq_some.1 hnext).2
  have hdrop : s.text.drop i = '\\' :: c :: s.text.drop (i + 2) := by rw [drop_of_chars hc, drop_of_chars hnext]
  obtain ⟨hplace, hend⟩ := hi.escape hdrop
  split at h
  · cases h
    refine lands_pass hend (fun c hc => ?_) limit
    simp only [Text.isSpaceOrTab, Bool.or_eq_true, beq_iff_eq] at hc
    rcases hc with rfl | rfl <;> decide
  · split at h
    · cases h
      exact ⟨.of_placeless (List.forall_mem_singleton.2 hplace), hend⟩
    · cases h
      exact ⟨.of_placeless (List.forall_mem_cons.2 ⟨by decide, List.forall_mem_singleton.2 hplace⟩), hend⟩

theorem endsText_spec (h : endsText c) : isPlace c = false ∧ Text.isDigit c = false := by
  have hall : ∀ c ∈ "\n!#$%&*+-:<=>@[\\]^_\x60\x7b\x7d~".toList, isPlace c = false ∧ Text.isDigit c = false := by decide
  exact hall c (List.contains_iff_mem.1 h)

theorem textAt_lands (hi : At P s.text i) :
    (Piece.text (s.slice i (s.pass (!endsText ·) i s.chars.size)) (s.pass (!endsText ·) i s.chars.size)).Lands P B s := by
  obtain ⟨u, r, hsplit, hu, hr⟩ := Text.exists_run (!endsText ·) (s.text.drop i)
  have hend : ∀ c ∈ r.head?, (!endsText c) = false := by
    rcases hr with rfl | ⟨c, r, rfl, hc⟩
    · exact nofun
    · rintro _ ⟨⟩
      exact hc
  rw [pass_run hsplit hu hend, slice_split hsplit]
  have hplain : ∀ c ∈ u, c ≠ '\\' ∧ c ≠ '\x60' := fun c hc => by
    have hne := hu c hc
    refine ⟨?_, ?_⟩ <;>
    · rintro rfl
      exact absurd hne (by decide)
  have hmark : ∀ c ∈ r.head?, Text.isDigit c = false ∧ c ≠ closePlace := fun c hc => by
    obtain ⟨hplace, hdigit⟩ := endsText_spec (by simpa using hend c hc)
    exact ⟨hdigit, (isPlace_eq_false.1 hplace).2⟩
  obtain ⟨hcomplete, hwhole, hreach⟩ := Whole.plain (P := P) hplain hmark (hsplit ▸ hi.whole) fun hP => hsplit ▸ hi.reach hP
  refine ⟨hcomplete, ?_, fun hP => ?_⟩
  · rwa [drop_add hsplit]
  · rw [drop_add hsplit]
    exact hreach hP

/-! ## Links -/

section Links
variable (hs : Sound P B s.text) (hskip : skip.Lands P s) (hlimit : s.Bounds P limit)
include hs hskip hlimit

theorem linkAt_lands (hmemory : memory.Known P s.text) (hi : At P s.text i) (hc : s.chars[i]? = some '[') :
    (s.linkAt skip memory i limit).2.Known P s.text ∧
      ∀ piece, (s.linkAt skip memory i limit).1 = some piece → piece.Lands P B s := by
  have hfirst := at_succ hi hc (by decide)
  obtain ⟨hknown, hend⟩ : (s.labelEnd? skip true memory i limit).2.Known P s.text ∧ _ :=
    labelEnd?_lands hskip hlimit hmemory hfirst
  unfold linkAt
  split
  · next memory' heq =>
    rw [heq] at hknown
    exact ⟨hknown, nofun⟩
  · next last memory' heq =>
    rw [heq] at hknown hend
    obtain ⟨hlast, hbracket⟩ := hend last rfl
    have hbounds : s.Bounds P last := ⟨hlast, .inr hbracket⟩
    have hafter := at_succ hlast hbracket (by decide)
    have hreference {place : Nat} (hplace : s.chars[place]? = some '[' → At P s.text (place + 1)) :
        (linkTo (i + 1) last (s.referenceTarget? skip memory' place (last + 1) (i + 1) last limit)).2.Known P s.text ∧
        ∀ piece, (linkTo (i + 1) last (s.referenceTarget? skip memory' place (last + 1) (i + 1) last limit)).1 = some piece →
          piece.Lands P B s := by
      obtain ⟨hknown', hstop⟩ : (s.referenceTarget? skip memory' place (last + 1) (i + 1) last limit).2.Known P s.text ∧ _ :=
        referenceTarget?_lands hskip hlimit hknown hafter hplace
      unfold linkTo
      split
      · next target stop memory'' heq' =>
        rw [heq'] at hknown' hstop
        refine ⟨hknown', fun piece hpiece => ?_⟩
        cases hpiece
        have hat := hstop target stop rfl
        exact ⟨⟨hfirst, hbounds⟩, hat⟩
      · next memory'' heq' =>
        rw [heq'] at hknown'
        exact ⟨hknown', nofun⟩
    dsimp only
    split
    · next hparen =>
      have hparen := (at?_eq_some.1 hparen).2
      split
      · exact ⟨hknown, nofun⟩
      · next target stop htarget =>
        obtain ⟨hclosed, hopen⟩ := at_inlineTarget? hs hlast hbracket hparen htarget
        split
        · next hstop =>
          refine ⟨hknown, fun piece hpiece => ?_⟩
          cases hpiece
          have hat := hclosed (at?_eq_some.1 hstop).2
          exact ⟨⟨hfirst, hbounds⟩, hat⟩
        · exact hreference hopen
    · exact hreference fun hnext => at_succ hafter hnext (by decide)

theorem imageAt_lands (hmemory : memory.Known P s.text) (hi : At P s.text i) (hc : s.chars[i]? = some '!') :
    (s.imageAt skip memory i limit).2.Known P s.text ∧
      ∀ piece, (s.imageAt skip memory i limit).1 = some piece → piece.Lands P B s := by
  unfold imageAt
  split
  · exact ⟨hmemory, nofun⟩
  · next hnext =>
    have hnext := (at?_eq_some.1 (not_not.1 hnext)).2
    have hfirst := at_succ (at_succ hi hc (by decide)) hnext (by decide)
    obtain ⟨hknown, hend⟩ : (s.labelEnd? skip false memory (i + 1) limit).2.Known P s.text ∧ _ :=
      labelEnd?_lands hskip hlimit hmemory hfirst
    split
    · next memory' heq =>
      rw [heq] at hknown
      exact ⟨hknown, nofun⟩
    · next last memory' heq =>
      rw [heq] at hknown hend
      obtain ⟨hlast, hbracket⟩ := hend last rfl
      have hbounds : s.Bounds P last := ⟨hlast, .inr hbracket⟩
      have hafter := at_succ hlast hbracket (by decide)
      dsimp only
      split
      · next hparen =>
        have hparen := (at?_eq_some.1 hparen).2
        split
        · exact ⟨hknown, nofun⟩
        · next target stop htarget =>
          obtain ⟨hclosed, -⟩ := at_inlineTarget? hs hlast hbracket hparen htarget
          split
          · next hstop =>
            refine ⟨hknown, fun piece hpiece => ?_⟩
            cases hpiece
            have hat := hclosed (at?_eq_some.1 hstop).2
            exact ⟨⟨hfirst, hbounds⟩, hat⟩
          · exact ⟨hknown, nofun⟩
      · obtain ⟨hknown', hstop⟩ : (s.referenceTarget? skip memory' (last + 1) (last + 1) (i + 2) last limit).2.Known P s.text ∧ _ :=
          referenceTarget?_lands hskip hlimit hknown hafter fun hnext => at_succ hafter hnext (by decide)
        split
        · next target stop memory'' heq' =>
          rw [heq'] at hknown' hstop
          refine ⟨hknown', fun piece hpiece => ?_⟩
          cases hpiece
          have hat := hstop target stop rfl
          exact ⟨⟨hfirst, hbounds⟩, hat⟩
        · next memory'' heq' =>
          rw [heq'] at hknown'
          exact ⟨hknown', nofun⟩

end Links

/-! ## All pieces -/

/-- What is found at a place, and what stands behind a character that is no piece or a delimiter. -/
structure Found (P B : Prop) (s : Source) (i : Nat) (piece? : Option Piece) : Prop where
  lands : ∀ piece, piece? = some piece → piece.Lands P B s
  next : (piece? = none ∨ ∃ marker stop, piece? = some (.delimiters marker stop)) → At P s.text (i + 1)
  plain : piece? = none → Complete (s.slice i (i + 1))

theorem Found.stopAfter {piece? : Option Piece} (h : Found P B s i piece?) : At P s.text (stopAfter i piece?) := by
  unfold Source.stopAfter
  split
  · exact h.next (.inl rfl)
  · exact h.next (.inr ⟨_, _, rfl⟩)
  · next piece _ => exact (h.lands piece rfl).stop

/-- A mark that stands for itself. -/
theorem found_none (hi : At P s.text i) (hc : s.chars[i]? = some c) (hsingle : isSingle c) : Found P B s i none := by
  obtain ⟨hplace, hnext⟩ := hi.single (drop_of_chars hc) hsingle
  refine ⟨nofun, fun _ => hnext, fun _ => ?_⟩
  rw [slice_succ hc]
  exact .of_placeless (List.forall_mem_singleton.2 hplace)

/-- A run of delimiters. -/
theorem found_delimiters (hi : At P s.text i) (hc : s.chars[i]? = some c) (hsingle : isSingle c) (limit : Nat) :
    Found P B s i (some (.delimiters c (s.pass (· = c) i limit))) := by
  obtain ⟨hplace, hnext⟩ := hi.single (drop_of_chars hc) hsingle
  refine ⟨fun piece hpiece => ?_, fun _ => hnext, nofun⟩
  cases hpiece
  refine ⟨hplace, lands_pass hi (fun d hd => ?_) limit⟩
  rw [decide_eq_true_eq] at hd
  rwa [hd]

/-- A piece that begins with a mark, or the mark, which stands for itself. -/
theorem found_of_mark (hi : At P s.text i) (hc : s.chars[i]? = some c) (hsingle : isSingle c) {piece? : Option Piece}
    (hlands : ∀ piece, piece? = some piece → piece.Lands P B s) : Found P B s i piece? := by
  have h : Found P B s i none := found_none hi hc hsingle
  exact ⟨hlands, fun _ => h.next (.inl rfl), fun _ => h.plain rfl⟩

/-- A backslash in front of the limit stands for itself. -/
theorem found_escape (hlimit : s.Bounds P limit) (hi : At P s.text i) (hlt : i < limit) (hc : s.chars[i]? = some '\\') :
    Found P B s i (s.escapeAt i limit) := by
  refine ⟨fun piece => escapeAt_lands hi hc, fun h => ?_, fun h => ?_⟩
  · rcases h with h | ⟨marker, stop, h⟩
    · have hend : ¬i + 1 < limit := fun hnext => by
        have hsize : limit ≤ s.chars.size := by
          rcases hlimit.ends with rfl | hend
          · exact Nat.le_refl _
          · exact Nat.le_of_lt (Array.getElem?_eq_some_iff.1 hend).1
        have hget := Array.getElem?_eq_getElem (Nat.lt_of_lt_of_le hnext hsize)
        rw [escapeAt, at?_eq_some.2 ⟨hnext, hget⟩, Option.bind_eq_bind, Option.bind_some] at h
        split at h
        · cases h
        · split at h <;> cases h
      have heq : limit = i + 1 := by omega
      exact heq ▸ hlimit.at_
    · obtain ⟨c, -, h⟩ := Option.bind_eq_some_iff.1 h
      split at h
      · cases h
      · split at h <;> cases h
  · rw [slice_succ hc]
    exact .of_placeless (List.forall_mem_singleton.2 (by decide))

theorem pieceAt_lands (hs : Sound P B s.text) (hskip : skip.Lands P s) (hlimit : s.Bounds P limit)
    (hmemory : memory.Known P s.text) (hi : At P s.text i) (hlt : i < limit) :
    (s.pieceAt skip memory i limit).2.Known P s.text ∧ Found P B s i (s.pieceAt skip memory i limit).1 := by
  unfold pieceAt
  split
  · next hnone =>
    have hsize : s.text.length ≤ i := by
      rw [Array.length_toList]
      exact Array.getElem?_eq_none_iff.1 hnone
    refine ⟨hmemory, nofun, fun _ => .of_le (Nat.le_succ_of_le hsize), fun _ => ?_⟩
    rw [slice_eq, List.drop_eq_nil_of_le hsize, List.take_nil]
    exact .nil
  · next c hc =>
    split
    · refine ⟨hmemory, fun piece hpiece => ?_, nofun, nofun⟩
      cases hpiece
      exact textAt_lands hi
    · next hends =>
      split
      · refine ⟨hmemory, found_of_mark hi hc (by decide) fun piece hpiece => ?_⟩
        cases hpiece
        refine lands_pass (at_succ hi hc (by decide)) (fun c hc => ?_) limit
        simp only [Text.isSpaceOrTab, Bool.or_eq_true, beq_iff_eq] at hc
        rcases hc with rfl | rfl <;> decide
      · exact ⟨hmemory, found_escape hlimit hi hlt hc⟩
      · refine ⟨hmemory, fun piece hpiece => ?_, ?_, nofun⟩
        · cases hpiece
          exact codeAt_lands hs hi hlimit hlt hc
        · rintro (h | ⟨marker, stop, h⟩)
          · cases h
          · unfold codeAt at h
            dsimp only at h
            split at h <;> cases h
      · dsimp only
        refine ⟨hmemory, ?_⟩
        split
        · exact found_none hi hc (by decide)
        · exact found_delimiters hi hc (by decide) limit
      · exact ⟨hmemory, found_delimiters hi hc (by decide) limit⟩
      · exact ⟨hmemory, found_delimiters hi hc (by decide) limit⟩
      · obtain ⟨hknown, hlands⟩ := linkAt_lands hs hskip hlimit hmemory hi hc
        exact ⟨hknown, found_of_mark hi hc (by decide) hlands⟩
      · obtain ⟨hknown, hlands⟩ := imageAt_lands hs hskip hlimit hmemory hi hc
        exact ⟨hknown, found_of_mark hi hc (by decide) hlands⟩
      · exact ⟨hmemory, found_of_mark hi hc (by decide) fun piece => autolinkAt_lands hs hi hc⟩
      · exact absurd (List.mem_of_getElem? (by rwa [Array.getElem?_toList])) hs.uncoded.ampersand
      · next hslash htick _ _ _ _ _ _ _ =>
        refine ⟨hmemory, found_none hi hc ?_⟩
        have hopen : c ≠ openPlace := by
          rintro rfl
          exact hends (by decide)
        simp only [isSingle, Bool.and_eq_true, decide_eq_true_eq]
        exact ⟨⟨hslash, htick⟩, hopen⟩

theorem skip_lands (hs : Sound P B s.text) (room : Nat) : Skipping.Lands P s (s.skip room) := by
  induction room with
  | zero =>
    intro memory i limit hmemory hi hlimit hlt
    unfold Source.skip
    split
    · next stop hstop => exact ⟨hmemory i stop hstop hi, hmemory⟩
    · have hnext : At P s.text (limit + 1) := by
        rcases hlimit.ends with rfl | hend
        · refine .of_le ?_
          rw [Array.length_toList]
          exact Nat.le_succ _
        · exact at_succ hlimit.at_ hend (by decide)
      exact ⟨hnext, known_setSkip hmemory fun _ => hnext⟩
  | succ room ih =>
    intro memory i limit hmemory hi hlimit hlt
    unfold Source.skip
    split
    · next stop hstop => exact ⟨hmemory i stop hstop hi, hmemory⟩
    · obtain ⟨hknown, hfound⟩ := pieceAt_lands hs ih hlimit hmemory hi hlt
      exact ⟨hfound.stopAfter, known_setSkip hknown fun _ => hfound.stopAfter⟩

end Source
end Narration.Markup
