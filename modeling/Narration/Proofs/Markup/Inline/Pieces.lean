import Narration.Proofs.Markup.Inline.Readable

/-!
# Pieces of inline content

* `Source.pieceAt_forward` : a piece is not empty;
* `Uncoded` : texts that write no character by a code;
* `Source.EndsAt` : the places at which the scanned part of a source may end;
* `Piece.Sound`, `Source.pieceAt_sound` : where a piece ends, and what it keeps of the source.
-/

namespace Narration.Markup
open Content (openPlace closePlace)

/-- What was skipped before ends behind its beginning. -/
def Memory.Forward (memory : Memory) : Prop := ∀ i stop : Nat, memory.skips[i]?.join = some stop → i < stop

/-- A text whose inline content writes no character by a code. -/
structure Uncoded (t : Text) : Prop where
  ampersand : '&' ∉ t
  percent : '%' ∉ t
  punycode : ¬Punycode.mark <:+: t

theorem Uncoded.within {t u : Text} (h : Uncoded u) (htu : t <:+: u) : Uncoded t :=
  ⟨fun hc => h.ampersand (htu.subset hc), fun hc => h.percent (htu.subset hc), fun hm => h.punycode (hm.trans htu)⟩

namespace Source

variable {s : Source} {p : Char → Bool} {i j limit stop : Nat} {c : Char} {memory : Memory} {skip : Skipping}

/-! ## Runs -/

theorem le_pass (p : Char → Bool) (i limit : Nat) : i ≤ s.pass p i limit := by
  rw [pass_eq]
  exact Nat.le_add_right _ _

theorem pass_le (h : i ≤ limit) : s.pass p i limit ≤ limit := by
  have hlength := (List.takeWhile_prefix p (l := (s.text.drop i).take (limit - i))).length_le
  rw [List.length_take] at hlength
  rw [pass_eq]
  omega

theorem lt_pass (hc : s.chars[i]? = some c) (hp : p c) (hi : i < limit) : i < s.pass p i limit := by
  rw [getElem?_chars, List.head?_eq_some_iff] at hc
  obtain ⟨t, ht⟩ := hc
  obtain ⟨n, hn⟩ := Nat.exists_eq_succ_of_ne_zero (Nat.ne_of_gt (Nat.sub_pos_of_lt hi))
  rw [pass_eq, ht, hn, List.take_succ_cons, List.takeWhile_cons_of_pos hp, List.length_cons]
  omega

theorem slice_pass (p : Char → Bool) (i limit : Nat) : s.slice i (s.pass p i limit) =
    ((s.text.drop i).take (limit - i)).takeWhile p := by
  rw [slice_eq, pass_eq, Nat.add_sub_cancel_left]
  have hlead := (List.takeWhile_prefix p).trans (List.take_prefix (limit - i) (s.text.drop i))
  exact (List.prefix_iff_eq_take.1 hlead).symm

theorem forall_slice_pass : ∀ c ∈ s.slice i (s.pass p i limit), p c := by
  rw [slice_pass]
  exact fun c hc => List.mem_takeWhile_imp hc

theorem take_append_slice (h : i ≤ j) : s.text.take i ++ s.slice i j = s.text.take j := by
  obtain ⟨k, rfl⟩ := Nat.exists_eq_add_of_le h
  rw [slice_eq, Nat.add_sub_cancel_left, List.take_add]

theorem slice_append_slice {k : Nat} (h : i ≤ j) (h' : j ≤ k) : s.slice i j ++ s.slice j k = s.slice i k := by
  obtain ⟨a, rfl⟩ := Nat.exists_eq_add_of_le h
  obtain ⟨b, rfl⟩ := Nat.exists_eq_add_of_le h'
  rw [slice_eq, slice_eq, slice_eq, Nat.add_sub_cancel_left, Nat.add_sub_cancel_left, Nat.add_assoc, Nat.add_sub_cancel_left,
    List.take_add, List.drop_drop]

theorem slice_succ (hc : s.chars[i]? = some c) : s.slice i (i + 1) = [c] := by
  rw [getElem?_chars, List.head?_eq_some_iff] at hc
  obtain ⟨t, ht⟩ := hc
  rw [slice_eq, ht, Nat.add_sub_cancel_left, List.take_succ_cons, List.take_zero]

theorem slice_infix (i j : Nat) : s.slice i j <:+: s.text := by
  rw [slice_eq]
  exact (List.take_prefix _ _).isInfix.trans (List.drop_suffix _ _).isInfix

theorem at?_eq_some : s.at? limit i = some c ↔ i < limit ∧ s.chars[i]? = some c := by
  unfold at?
  split
  · next h => exact ⟨fun hc => ⟨h, hc⟩, And.right⟩
  · next h => exact ⟨nofun, fun hc => absurd hc.1 h⟩

/-! ## Steps forward -/

/-- Skipping leads behind the place where it begins. -/
def Skipping.Forward (skip : Skipping) : Prop :=
  ∀ memory i limit, memory.Forward → i < limit → i < (skip memory i limit).1 ∧ (skip memory i limit).2.Forward

theorem le_bracketedEnd? {fuel : Nat} (h : s.bracketedEnd? limit fuel i = some stop) : i ≤ stop := by
  induction fuel generalizing i with
  | zero => cases h
  | succ fuel ih =>
    unfold bracketedEnd? at h
    obtain ⟨c, -, h⟩ := Option.bind_eq_some_iff.1 h
    split at h
    · cases h
    · split at h
      · exact Nat.le_of_eq (Option.some.inj h)
      · split at h <;> exact Nat.le_of_succ_le (Nat.le_trans (by omega) (ih h))

theorem le_bareEnd? {fuel depth open' : Nat} (h : s.bareEnd? limit fuel i depth = some (stop, open')) : i ≤ stop := by
  have hsame {depth : Nat} (h : some (i, depth) = some (stop, open')) : i ≤ stop := by
    cases h
    exact Nat.le_refl _
  induction fuel generalizing i depth with
  | zero => exact hsame h
  | succ fuel ih =>
    have hnext {n : Nat} (hn : i ≤ n) {depth : Nat} (h : s.bareEnd? limit fuel n depth = some (stop, open')) : i ≤ stop := by
      refine Nat.le_trans hn (ih h ?_)
      intro depth h
      cases h
      exact Nat.le_refl _
    unfold bareEnd? at h
    split at h
    · exact hsame h
    · split at h
      · exact hsame h
      · split at h
        · split at h
          · exact hsame h
          · exact hnext (by omega) h
        · split at h
          · split at h
            · cases h
            · exact hnext (by omega) h
          · split at h
            · split at h
              · exact hsame h
              · exact hnext (by omega) h
            · exact hnext (by omega) h

theorem le_destination? {t : Text} (h : s.destination? i limit = some (t, stop)) : i ≤ stop := by
  unfold destination? at h
  split at h
  · obtain ⟨n, hn, h⟩ := Option.map_eq_some_iff.1 h
    cases h
    have := le_bracketedEnd? hn
    omega
  · split at h
    · next n hn =>
      split at h
      · cases h
      · cases h
        exact le_bareEnd? hn
    · cases h

theorem le_titleTail? {quote : Char} {fuel : Nat} (h : s.titleTail? quote limit fuel i = some stop) : i ≤ stop := by
  induction fuel generalizing i with
  | zero => cases h
  | succ fuel ih =>
    unfold titleTail? at h
    obtain ⟨c, -, h⟩ := Option.bind_eq_some_iff.1 h
    split at h
    · have := Option.some.inj h
      omega
    · split at h
      · cases h
      · split at h <;> exact Nat.le_of_succ_le (Nat.le_trans (by omega) (ih h))

theorem le_titleEnd? (h : s.titleEnd? i limit = some stop) : i ≤ stop := by
  unfold titleEnd? at h
  obtain ⟨c, -, h⟩ := Option.bind_eq_some_iff.1 h
  split at h
  · exact Nat.le_of_succ_le (le_titleTail? h)
  · split at h
    · exact Nat.le_of_succ_le (le_titleTail? h)
    · cases h

theorem le_passTitle (i limit : Nat) : i ≤ s.passTitle i limit := by
  have hle := le_pass (s := s) isLinkSpace i limit
  unfold passTitle
  dsimp only
  split
  · split
    · next stop hstop => exact Nat.le_trans hle (Nat.le_trans (le_titleEnd? hstop) (le_pass _ _ _))
    · exact hle
  · exact hle

theorem le_inlineTarget? {t : Text} (h : s.inlineTarget? i limit = some (t, stop)) : i ≤ stop := by
  have hle := le_pass (s := s) isLinkSpace i limit
  unfold inlineTarget? at h
  dsimp only at h
  split at h
  · cases h
  · split at h
    · next n hn =>
      split at h
      · cases h
        exact Nat.le_trans hle (Nat.le_trans (le_destination? hn) (le_passTitle _ _))
      · cases h
        exact hle
    · cases h
      exact hle

section Labels
variable (hskip : skip.Forward)
include hskip

/-- The label ends with a bracket within the limit. -/
theorem labelEndFrom_spec {alone : Bool} {fuel depth : Nat} (hmemory : memory.Forward) (hdepth : 0 < depth) :
    (s.labelEndFrom skip alone limit fuel i depth memory).2.Forward ∧
      ∀ last, (s.labelEndFrom skip alone limit fuel i depth memory).1 = some last →
        i ≤ last ∧ last < limit ∧ s.chars[last]? = some ']' := by
  induction fuel generalizing i depth memory with
  | zero => exact ⟨hmemory, nofun⟩
  | succ fuel ih =>
    unfold labelEndFrom
    split
    · exact ⟨hmemory, nofun⟩
    · next c hc =>
      obtain ⟨hi, hc⟩ := at?_eq_some.1 hc
      obtain ⟨d, hd, hbracket⟩ : ∃ d, (if c = ']' then depth - 1 else depth) = d ∧ (d = 0 → c = ']') := by
        refine ⟨_, rfl, fun hzero => ?_⟩
        split at hzero
        · next h => exact h
        · omega
      simp only [hd]
      split
      · next hzero =>
        refine ⟨hmemory, fun last hlast => ?_⟩
        cases hlast
        exact ⟨Nat.le_refl _, hi, hbracket hzero ▸ hc⟩
      · next hdepth' =>
        obtain ⟨hlt, hforward⟩ := hskip memory i limit hmemory hi
        have hnext {depth : Nat} (hd : 0 < depth) :
            (s.labelEndFrom skip alone limit fuel (skip memory i limit).1 depth (skip memory i limit).2).2.Forward ∧
              ∀ last, (s.labelEndFrom skip alone limit fuel (skip memory i limit).1 depth (skip memory i limit).2).1 = some last →
                i ≤ last ∧ last < limit ∧ s.chars[last]? = some ']' := by
          obtain ⟨hmem, hend⟩ := ih hforward hd
          exact ⟨hmem, fun last hlast => ⟨Nat.le_trans (Nat.le_of_lt hlt) (hend last hlast).1, (hend last hlast).2⟩⟩
        split
        · split
          · exact hnext (Nat.succ_pos _)
          · split
            · exact ⟨hforward, nofun⟩
            · exact hnext (Nat.pos_of_ne_zero hdepth')
        · exact hnext (Nat.pos_of_ne_zero hdepth')

theorem labelEnd?_spec {alone : Bool} (hmemory : memory.Forward) :
    (s.labelEnd? skip alone memory i limit).2.Forward ∧
      ∀ last, (s.labelEnd? skip alone memory i limit).1 = some last →
        i + 1 ≤ last ∧ last < limit ∧ s.chars[last]? = some ']' :=
  labelEndFrom_spec hskip hmemory Nat.one_pos

theorem referenceTarget?_spec {after first last : Nat} (hmemory : memory.Forward) (hafter : after ≤ limit) (hi : after ≤ i) :
    (s.referenceTarget? skip memory i after first last limit).2.Forward ∧
      ∀ t stop, (s.referenceTarget? skip memory i after first last limit).1 = some (t, stop) → after ≤ stop ∧ stop ≤ limit := by
  have hfound {memory : Memory} {label : Text} {n : Nat} (hm : memory.Forward) (hn : after ≤ n ∧ n ≤ limit) :
      memory.Forward ∧ ∀ t stop, (Reference.find? s.references label).map (·, n) = some (t, stop) →
        after ≤ stop ∧ stop ≤ limit := by
    refine ⟨hm, fun t stop h => ?_⟩
    obtain ⟨target, -, heq⟩ := Option.map_eq_some_iff.1 h
    cases heq
    exact hn
  unfold referenceTarget?
  dsimp only
  split
  · obtain ⟨hforward, hend⟩ : (s.labelEnd? skip false memory i limit).2.Forward ∧ _ := labelEnd?_spec hskip hmemory
    split
    · next n memory' heq =>
      rw [heq] at hforward hend
      obtain ⟨hlt, hle, -⟩ := hend n rfl
      exact hfound hforward (show after ≤ n + 1 ∧ n + 1 ≤ limit by omega)
    · next memory' heq =>
      rw [heq] at hforward
      exact hfound hforward ⟨Nat.le_refl _, hafter⟩
  · exact hfound hmemory ⟨Nat.le_refl _, hafter⟩

/-- A link to the target of a reference, if there is one. -/
def linkTo (first last : Nat) : Option (Text × Nat) × Memory → Option Piece × Memory
  | (some (target, stop), memory) => (some (.link target first last stop), memory)
  | (none, memory) => (none, memory)

/-- A link has a label in brackets, and ends behind it. -/
theorem linkAt_spec (hmemory : memory.Forward) : (s.linkAt skip memory i limit).2.Forward ∧
    ∀ piece, (s.linkAt skip memory i limit).1 = some piece → ∃ target last stop, piece = .link target (i + 1) last stop ∧
      i + 1 ≤ last ∧ last < stop ∧ stop ≤ limit ∧ s.chars[last]? = some ']' := by
  obtain ⟨hforward, hend⟩ : (s.labelEnd? skip true memory i limit).2.Forward ∧ _ := labelEnd?_spec hskip hmemory
  unfold linkAt
  split
  · next memory' heq =>
    rw [heq] at hforward
    exact ⟨hforward, nofun⟩
  · next last memory' heq =>
    rw [heq] at hforward hend
    obtain ⟨hlast, hlt, hbracket⟩ := hend last rfl
    have hreference {place : Nat} (hplace : last + 1 ≤ place) :
        (linkTo (i + 1) last (s.referenceTarget? skip memory' place (last + 1) (i + 1) last limit)).2.Forward ∧
        ∀ piece, (linkTo (i + 1) last (s.referenceTarget? skip memory' place (last + 1) (i + 1) last limit)).1 = some piece →
          ∃ target last stop, piece = .link target (i + 1) last stop ∧ i + 1 ≤ last ∧ last < stop ∧ stop ≤ limit ∧
            s.chars[last]? = some ']' := by
      obtain ⟨hforward', hstop⟩ : (s.referenceTarget? skip memory' place (last + 1) (i + 1) last limit).2.Forward ∧ _ :=
        referenceTarget?_spec hskip hforward hlt hplace
      unfold linkTo
      split
      · next target stop memory'' heq' =>
        rw [heq'] at hforward' hstop
        obtain ⟨hafter, hle⟩ := hstop target stop rfl
        refine ⟨hforward', fun piece hpiece => ?_⟩
        cases hpiece
        exact ⟨target, last, stop, rfl, hlast, hafter, hle, hbracket⟩
      · next memory'' heq' =>
        rw [heq'] at hforward'
        exact ⟨hforward', nofun⟩
    dsimp only
    split
    · split
      · exact ⟨hforward, nofun⟩
      · next target stop htarget =>
        have hle := le_inlineTarget? htarget
        split
        · next hparen =>
          obtain ⟨hstop, -⟩ := at?_eq_some.1 hparen
          refine ⟨hforward, fun piece hpiece => ?_⟩
          cases hpiece
          exact ⟨target, last, stop + 1, rfl, hlast, by omega, hstop, hbracket⟩
        · exact hreference (by omega)
    · exact hreference (Nat.le_refl _)

/-- An image has a label in brackets, and ends behind it. -/
theorem imageAt_spec (hmemory : memory.Forward) : (s.imageAt skip memory i limit).2.Forward ∧
    ∀ piece, (s.imageAt skip memory i limit).1 = some piece → ∃ target last stop, piece = .image target (i + 2) last stop ∧
      i + 2 ≤ last ∧ last < stop ∧ stop ≤ limit := by
  obtain ⟨hforward, hend⟩ : (s.labelEnd? skip false memory (i + 1) limit).2.Forward ∧ _ := labelEnd?_spec hskip hmemory
  unfold imageAt
  split
  · exact ⟨hmemory, nofun⟩
  · split
    · next memory' heq =>
      rw [heq] at hforward
      exact ⟨hforward, nofun⟩
    · next last memory' heq =>
      rw [heq] at hforward hend
      obtain ⟨hlast, hlt, -⟩ := hend last rfl
      dsimp only
      split
      · split
        · exact ⟨hforward, nofun⟩
        · next target stop htarget =>
          have hle := le_inlineTarget? htarget
          split
          · next hparen =>
            obtain ⟨hstop, -⟩ := at?_eq_some.1 hparen
            refine ⟨hforward, fun piece hpiece => ?_⟩
            cases hpiece
            exact ⟨target, last, stop + 1, rfl, hlast, by omega, hstop⟩
          · exact ⟨hforward, nofun⟩
      · obtain ⟨hforward', hstop⟩ : (s.referenceTarget? skip memory' (last + 1) (last + 1) (i + 2) last limit).2.Forward ∧ _ :=
          referenceTarget?_spec hskip hforward hlt (Nat.le_refl _)
        split
        · next target stop memory'' heq' =>
          rw [heq'] at hforward' hstop
          obtain ⟨hafter, hle⟩ := hstop target stop rfl
          refine ⟨hforward', fun piece hpiece => ?_⟩
          cases hpiece
          exact ⟨target, last, stop, rfl, hlast, hafter, hle⟩
        · next memory'' heq' =>
          rw [heq'] at hforward'
          exact ⟨hforward', nofun⟩

end Labels

theorem closingRun?_le {length fuel first last : Nat} (h : s.closingRun? length fuel i = some (first, last)) : i ≤ last := by
  induction fuel generalizing i with
  | zero => cases h
  | succ fuel ih =>
    have hfirst := le_pass (s := s) (· ≠ '\x60') i s.chars.size
    have hlast := le_pass (s := s) (· = '\x60') (s.pass (· ≠ '\x60') i s.chars.size) s.chars.size
    unfold closingRun? at h
    dsimp only at h
    split at h
    · split at h
      · cases h
        exact Nat.le_trans hfirst hlast
      · exact Nat.le_trans (Nat.le_trans hfirst hlast) (ih h)
    · cases h

theorem lt_codeAt (hc : s.chars[i]? = some '\x60') (hi : i < limit) : i < (s.codeAt i limit).stop := by
  have hstart := lt_pass (p := (· = '\x60')) hc (by decide) hi
  unfold codeAt
  dsimp only
  split
  · next hrun => exact Nat.lt_of_lt_of_le hstart (closingRun?_le hrun)
  · exact hstart

theorem lt_escapeAt {piece : Piece} (h : s.escapeAt i limit = some piece) : i < piece.stop := by
  obtain ⟨c, -, h⟩ := Option.bind_eq_some_iff.1 h
  split at h
  · cases h
    exact Nat.lt_of_lt_of_le (by omega) (le_pass _ _ _)
  · split at h <;> cases h <;> exact Nat.lt_add_of_pos_right Nat.two_pos

theorem lt_autolinkAt {piece : Piece} (h : s.autolinkAt i limit = some piece) : i < piece.stop := by
  have hle := le_pass (s := s) (fun c => c ≠ '<' && c ≠ '>') (i + 1) limit
  unfold autolinkAt at h
  dsimp only at h
  split at h
  · obtain ⟨full, -, h⟩ := Option.bind_eq_some_iff.1 h
    obtain ⟨target, -, h⟩ := Option.bind_eq_some_iff.1 h
    cases h
    exact Nat.lt_of_lt_of_le (Nat.lt_of_succ_le hle) (Nat.le_succ _)
  · cases h

/-- A piece is not empty. -/
theorem pieceAt_forward (hampersand : '&' ∉ s.text) (hskip : skip.Forward) (hmemory : memory.Forward) (hi : i < limit) :
    (s.pieceAt skip memory i limit).2.Forward ∧ ∀ piece, (s.pieceAt skip memory i limit).1 = some piece → i < piece.stop := by
  have hsingle {piece? : Option Piece} (h : ∀ piece, piece? = some piece → i < piece.stop) :
      (piece?, memory).2.Forward ∧ ∀ piece, (piece?, memory).1 = some piece → i < piece.stop := ⟨hmemory, h⟩
  have hsome {piece : Piece} (h : i < piece.stop) :
      (some piece, memory).2.Forward ∧ ∀ piece', (some piece, memory).1 = some piece' → i < piece'.stop :=
    hsingle fun piece' heq => Option.some.inj heq ▸ h
  unfold pieceAt
  split
  · exact hsingle nofun
  · next c hc =>
    have hsize : i < s.chars.size := (Array.getElem?_eq_some_iff.1 hc).1
    split
    · next htext => exact hsome (lt_pass hc htext hsize)
    · split
      · exact hsome (le_pass _ _ _)
      · exact hsingle fun piece h => lt_escapeAt h
      · exact hsome (lt_codeAt hc hi)
      · refine hsingle fun piece h => ?_
        split at h
        · cases h
        · cases h
          exact lt_pass (p := (· = '~')) hc (by decide) hi
      · exact hsome (lt_pass (p := (· = '*')) hc (by decide) hi)
      · exact hsome (lt_pass (p := (· = '_')) hc (by decide) hi)
      · obtain ⟨hforward, hpiece⟩ : (s.linkAt skip memory i limit).2.Forward ∧ _ := linkAt_spec hskip hmemory
        refine ⟨hforward, fun piece h => ?_⟩
        obtain ⟨target, last, stop, rfl, hlast, hstop, -, -⟩ := hpiece piece h
        exact Nat.lt_trans hlast hstop
      · obtain ⟨hforward, hpiece⟩ : (s.imageAt skip memory i limit).2.Forward ∧ _ := imageAt_spec hskip hmemory
        refine ⟨hforward, fun piece h => ?_⟩
        obtain ⟨target, last, stop, rfl, hlast, hstop, -⟩ := hpiece piece h
        exact Nat.lt_trans (Nat.lt_of_succ_lt hlast) hstop
      · exact hsingle fun piece h => lt_autolinkAt h
      · exact absurd (Array.mem_toList_iff.2 (Array.mem_of_getElem? hc)) hampersand
      · exact hsingle nofun

theorem forward_setSkip (hmemory : memory.Forward) (h : i < stop) :
    ({ memory with skips := memory.skips.setIfInBounds i (some stop) } : Memory).Forward := by
  intro j n hn
  rw [Array.getElem?_setIfInBounds] at hn
  split at hn
  · next hij =>
    split at hn
    · cases hn
      exact hij ▸ h
    · cases hn
  · exact hmemory j n hn

theorem skip_forward (hampersand : '&' ∉ s.text) (room : Nat) : Skipping.Forward (s.skip room) := by
  induction room with
  | zero =>
    intro memory i limit hmemory hi
    unfold skip
    split
    · next stop hstop => exact ⟨hmemory i stop hstop, hmemory⟩
    · exact ⟨Nat.lt_succ_of_lt hi, forward_setSkip hmemory (Nat.lt_succ_of_lt hi)⟩
  | succ room ih =>
    intro memory i limit hmemory hi
    unfold skip
    split
    · next stop hstop => exact ⟨hmemory i stop hstop, hmemory⟩
    · obtain ⟨hforward, hpiece⟩ := pieceAt_forward hampersand ih hmemory hi
      dsimp only
      generalize s.pieceAt (s.skip room) memory i limit = r at hforward hpiece ⊢
      obtain ⟨piece?, memory'⟩ := r
      have hstop : i < stopAfter i piece? := by
        unfold stopAfter
        split
        · exact Nat.lt_succ_self i
        · exact Nat.lt_succ_self i
        · exact hpiece _ rfl
      exact ⟨hstop, forward_setSkip hforward hstop⟩

/-! ## What a piece keeps -/

/-- The scanned part of a source ends with it, or at a character at which text stops. -/
def EndsAt (s : Source) (limit : Nat) : Prop := limit = s.chars.size ∨ ∃ c, s.chars[limit]? = some c ∧ endsText c

theorem EndsAt.le (h : s.EndsAt limit) : limit ≤ s.chars.size := by
  rcases h with rfl | ⟨c, hc, -⟩
  · exact Nat.le_refl _
  · exact Nat.le_of_lt (Array.getElem?_eq_some_iff.1 hc).1

end Source

/-- Where a piece from `i` on ends, and what it keeps of the source. Only a code span may go on behind the limit. -/
def Piece.Sound (s : Source) (i limit : Nat) : Piece → Prop
  | .text value stop => i < stop ∧ stop ≤ limit ∧ value = s.slice i stop
  | .lineEnd stop | .hardBreak stop => i < stop ∧ stop ≤ limit
  | .special value stop => i < stop ∧ stop ≤ limit ∧ Kept false (s.slice i stop) (value.map some)
  | .code _ stop => i < stop
  | .delimiters marker stop => i < stop ∧ stop ≤ limit ∧ isLoose marker ∧ ∀ c ∈ s.slice i stop, isLoose c
  | .link _ first last stop => i ≤ first ∧ first ≤ last ∧ last < stop ∧ stop ≤ limit ∧ s.chars[last]? = some ']'
  | .image _ first last stop => i ≤ first ∧ first ≤ last ∧ last < stop ∧ stop ≤ limit
  | .autolink _ shown stop => i < stop ∧ stop ≤ limit ∧
    Kept false (s.slice i stop) (none :: (shown.map some ++ [none]))

namespace Source

variable {s : Source} {i limit : Nat} {memory : Memory} {skip : Skipping}

theorem mem_slice {c : Char} {j k : Nat} (hc : s.chars[k]? = some c) (hi : i ≤ k) (hj : k < j) : c ∈ s.slice i j := by
  rw [slice_eq]
  refine List.mem_of_getElem? (i := k - i) ?_
  rw [List.getElem?_take_of_lt (by omega), List.getElem?_drop, Nat.add_sub_cancel' hi, Array.getElem?_toList, hc]

theorem EndsAt.pass_le (h : s.EndsAt limit) (hi : i ≤ limit) : s.pass (!endsText ·) i s.chars.size ≤ limit := by
  rcases h with rfl | ⟨c, hc, hends⟩
  · exact Source.pass_le hi
  · by_contra hlt
    have hplain := forall_slice_pass c (mem_slice hc hi (Nat.lt_of_not_le hlt))
    rw [hends] at hplain
    cases hplain

theorem escapeAt_sound {piece : Piece} (hc : s.chars[i]? = some '\\') (h : s.escapeAt i limit = some piece) :
    piece.Sound s i limit := by
  obtain ⟨c, hnext, h⟩ := Option.bind_eq_some_iff.1 h
  obtain ⟨hlt, hnext⟩ := at?_eq_some.1 hnext
  have hslice : s.slice i (i + 2) = ['\\', c] := by
    rw [← slice_append_slice (Nat.le_succ i) (Nat.le_succ (i + 1)), slice_succ hc, slice_succ hnext]
    rfl
  split at h
  · cases h
    exact ⟨Nat.lt_of_lt_of_le (by omega) (le_pass _ _ _), Source.pass_le hlt⟩
  · split at h
    · cases h
      refine ⟨by omega, hlt, ?_⟩
      rw [hslice]
      exact .drop false (by decide) (.apart (.keep false c (.nil false)))
    · cases h
      refine ⟨by omega, hlt, ?_⟩
      rw [hslice]
      exact .refl false _

theorem codeAt_sound (hc : s.chars[i]? = some '\x60') (hi : i < limit) : (s.codeAt i limit).Sound s i limit := by
  have hlt := lt_codeAt hc hi
  unfold codeAt at hlt ⊢
  dsimp only at hlt ⊢
  split at hlt
  · exact hlt
  · exact ⟨hlt, Source.pass_le (Nat.le_of_lt hi), rfl⟩

theorem delimiters_sound {marker : Char} (hc : s.chars[i]? = some marker) (hloose : isLoose marker) (hi : i < limit) :
    (Piece.delimiters marker (s.pass (· = marker) i limit)).Sound s i limit := by
  refine ⟨lt_pass hc (by simp) hi, Source.pass_le (Nat.le_of_lt hi), hloose, fun c hmem => ?_⟩
  have hc := forall_slice_pass c hmem
  rw [decide_eq_true_eq] at hc
  rw [hc]
  exact hloose

theorem autolinkAt_sound (hs : Uncoded s.text) {piece : Piece} (hc : s.chars[i]? = some '<') (h : s.autolinkAt i limit = some piece) :
    piece.Sound s i limit := by
  have hle := le_pass (s := s) (fun c => c ≠ '<' && c ≠ '>') (i + 1) limit
  unfold autolinkAt at h
  dsimp only at h
  generalize s.pass (fun c => c ≠ '<' && c ≠ '>') (i + 1) limit = stop at h hle
  split at h
  · next hend =>
    obtain ⟨hlt, hclose⟩ := at?_eq_some.1 hend
    obtain ⟨full, -, h⟩ := Option.bind_eq_some_iff.1 h
    obtain ⟨target, -, h⟩ := Option.bind_eq_some_iff.1 h
    cases h
    have hwithin := slice_infix (s := s) (i + 1) stop
    have hshown := LinkTarget.kept_readable (fun hmem => hs.percent (hwithin.subset hmem)) fun hm => hs.punycode (hm.trans hwithin)
    refine ⟨by omega, hlt, ?_⟩
    rw [← slice_append_slice (Nat.le_succ i) (Nat.le_succ_of_le hle), ← slice_append_slice hle (Nat.le_succ stop), slice_succ hc,
      slice_succ hclose]
    exact .put false rfl (.skip '<' (hshown.then_gap ['>']))
  · cases h

/-- A piece ends within the limit, and keeps the placeholders that it shows. -/
theorem pieceAt_sound (hs : Uncoded s.text) (hlimit : s.EndsAt limit) (hskip : skip.Forward) (hmemory : memory.Forward)
    (hi : i < limit) {piece : Piece} (h : (s.pieceAt skip memory i limit).1 = some piece) : piece.Sound s i limit := by
  unfold pieceAt at h
  split at h
  · cases h
  · next c hc =>
    have hsize : i < s.chars.size := (Array.getElem?_eq_some_iff.1 hc).1
    split at h
    · next htext =>
      cases h
      exact ⟨lt_pass hc htext hsize, hlimit.pass_le (Nat.le_of_lt hi), rfl⟩
    · split at h
      · cases h
        exact ⟨le_pass _ _ _, Source.pass_le hi⟩
      · exact escapeAt_sound hc h
      · cases h
        exact codeAt_sound hc hi
      · dsimp only at h
        split at h
        · cases h
        · cases h
          exact delimiters_sound hc (by decide) hi
      · cases h
        exact delimiters_sound hc (by decide) hi
      · cases h
        exact delimiters_sound hc (by decide) hi
      · obtain ⟨target, last, stop, rfl, hlast, hstop⟩ := (linkAt_spec hskip hmemory).2 piece h
        exact ⟨Nat.le_succ i, hlast, hstop⟩
      · obtain ⟨target, last, stop, rfl, hlast, hstop⟩ := (imageAt_spec hskip hmemory).2 piece h
        exact ⟨Nat.le_add_right i 2, hlast, hstop⟩
      · exact autolinkAt_sound hs hc h
      · exact absurd (Array.mem_toList_iff.2 (Array.mem_of_getElem? hc)) hs.ampersand
      · cases h

end Source
end Narration.Markup
