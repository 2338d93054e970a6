import Narration.Proofs.Fallible
import Narration.Proofs.Markup.Inline.Pieces
import Narration.Proofs.Markup.Inline.Recast

/-!
# Inline content is written in order

* `Variant` : text that is not written yet, as it may be spelled in the end;
* `Inline.Writer.Keeps` : what has been written goes together with the source up to a place;
* `Inline.writePiece_keeps`, `Inline.writePieces_keeps` : one piece after the other keeps it so;
* `Inline.read_kept`, `Inline.tokens_numbers` : the tokens of a text keep its placeholders in order.
-/

namespace Narration.Markup
open Fallible
open InlineToken (spelledAll)

/-- What a text may be spelled as in the end: as it is, or with other loose characters and gaps for loose ones at its
end. -/
def Variant (t : Text) (v : Spelled) : Prop :=
  ∃ a m : Text, ∃ e : Spelled, t = a ++ m ∧ (∀ c ∈ m, isLoose c) ∧ (∀ x ∈ e, isBreak x) ∧ v = a.map some ++ e

namespace Variant

variable {t u : Text} {v e : Spelled}

theorem refl (t : Text) : Variant t (t.map some) :=
  ⟨t, [], [], (List.append_nil t).symm, nofun, nofun, (List.append_nil _).symm⟩

theorem append_break (h : Variant t v) (he : ∀ x ∈ e, isBreak x) : Variant t (v ++ e) := by
  obtain ⟨a, m, e', rfl, hm, he', rfl⟩ := h
  exact ⟨a, m, e' ++ e, rfl, hm, fun x hx => (List.mem_append.1 hx).elim (he' x) (he x), List.append_assoc _ _ _⟩

theorem of_nil (h : Variant [] v) : ∀ x ∈ v, isBreak x := by
  obtain ⟨a, m, e, hnil, -, he, rfl⟩ := h
  rw [(List.append_eq_nil_iff.1 hnil.symm).1]
  exact he

theorem append_loose (h : Variant t v) (hu : ∀ c ∈ u, isLoose c) : Variant (t ++ u) v := by
  obtain ⟨a, m, e, rfl, hm, he, rfl⟩ := h
  exact ⟨a, m ++ u, e, List.append_assoc _ _ _, fun c hc => (List.mem_append.1 hc).elim (hm c) (hu c), he, rfl⟩

/-- A variant of two texts is a variant of the first and something that keeps the second. -/
theorem of_append (h : Variant (t ++ u) v) : ∃ v₁ v₂, v = v₁ ++ v₂ ∧ Variant t v₁ ∧ Kept false u v₂ := by
  obtain ⟨a, m, e, heq, hm, he, rfl⟩ := h
  rcases List.append_eq_append_iff.1 heq with ⟨w, rfl, rfl⟩ | ⟨w, rfl, rfl⟩
  · refine ⟨t.map some, w.map some ++ e, by rw [List.map_append, List.append_assoc], .refl t, ?_⟩
    exact (Kept.refl false w).append (.replace hm he false)
  · have hw : (∀ c ∈ w, isLoose c) ∧ ∀ c ∈ u, isLoose c :=
      ⟨fun c hc => hm c (List.mem_append_left _ hc), fun c hc => hm c (List.mem_append_right _ hc)⟩
    exact ⟨a.map some, e, rfl, (Variant.refl a).append_loose hw.1, .replace hw.2 he false⟩

/-- A text token is recast to a variant of its text. -/
theorem of_recast {b : InlineToken} (h : Recast (.text t) b) : Variant t b.spelled := by
  rcases h with rfl | ⟨⟨w, heq, hw⟩, hb⟩
  · rw [InlineToken.spelled_text]
    exact .refl t
  · cases heq
    exact ⟨[], t, b.spelled, rfl, hw, hb, rfl⟩

end Variant

namespace Recasts

variable {T U : Array InlineToken} {a : InlineToken}

theorem of_push (h : Recasts (T.push a) U) : ∃ V b, U = V.push b ∧ Recasts T V ∧ Recast a b := by
  have hsize := h.size
  rw [Array.size_push] at hsize
  obtain ⟨V, b, rfl⟩ := Array.size_pos_iff_exists_push.1 (show 0 < U.size by omega)
  rw [Array.size_push] at hsize
  have hV : V.size = T.size := Nat.succ.inj hsize
  refine ⟨V, b, rfl, ⟨hV, fun k x y hx hy => ?_⟩, ?_⟩
  · have hk := (Array.getElem?_eq_some_iff.1 hx).1
    refine h.recast k x y ?_ ?_
    · rw [Array.getElem?_push, if_neg (Nat.ne_of_lt hk), hx]
    · rw [Array.getElem?_push, if_neg (hV ▸ Nat.ne_of_lt hk), hy]
  · refine h.recast T.size a b ?_ ?_
    · rw [Array.getElem?_push, if_pos rfl]
    · rw [Array.getElem?_push, if_pos hV.symm]

end Recasts

namespace Inline

/-! ## Writing tokens -/

namespace Writer

/-- What has been written, and may still change, goes together with the source up to a place. -/
structure Keeps (s : Source) (i : Nat) (w : Writer) : Prop where
  kept : ∀ U, Recasts w.tokens U → ∀ v, Variant w.pending.reverse v →
    Kept false (s.text.take i) (spelledAll U.toList ++ v)
  forward : w.memory.Forward
  unjoined : Unjoined w.groups w.tokens

variable {s : Source} {w : Writer} {i j : Nat} {token : InlineToken}

theorem unjoined_push (h : Unjoined w.groups w.tokens) (token : InlineToken) (hstrike : Delimiter.isStrikeEnd token = false) :
    Unjoined w.groups (w.tokens.push token) := by
  refine ⟨h.closer, fun ds hds d hd => ?_, fun a ha => ?_⟩
  · obtain ⟨a, ha, hloose⟩ := h.loose ds hds d hd
    refine ⟨a, ?_, hloose⟩
    rw [Array.getElem?_push, if_neg (Nat.ne_of_lt (Array.getElem?_eq_some_iff.1 ha).1), ha]
  · rcases Array.mem_push.1 ha with ha | rfl
    · exact h.strikes a ha
    · exact hstrike

theorem pending_flush (w : Writer) : w.flush.pending = [] := by
  unfold flush
  split
  · next hnil => exact List.isEmpty_iff.1 hnil
  · rfl

theorem Keeps.flush (h : w.Keeps s i) : w.flush.Keeps s i := by
  unfold Writer.flush
  split
  · exact h
  · refine ⟨fun U hU v hv => ?_, h.forward, unjoined_push h.unjoined _ rfl⟩
    obtain ⟨V, b, rfl, hV, hb⟩ := hU.of_push
    rw [Array.toList_push, InlineToken.spelledAll_append, InlineToken.spelledAll_cons, InlineToken.spelledAll_nil,
      List.append_nil, List.append_assoc]
    exact h.kept V hV _ ((Variant.of_recast hb).append_break hv.of_nil)

theorem Keeps.addText (h : w.Keeps s i) (hij : i ≤ j) : (w.addText (s.slice i j)).Keeps s j := by
  refine ⟨fun U hU v hv => ?_, h.forward, h.unjoined⟩
  have hpending : (w.addText (s.slice i j)).pending.reverse = w.pending.reverse ++ s.slice i j := by simp [Writer.addText]
  rw [hpending] at hv
  obtain ⟨v₁, v₂, rfl, hv₁, hv₂⟩ := hv.of_append
  rw [← Source.take_append_slice hij, ← List.append_assoc]
  exact (h.kept U hU v₁ hv₁).append hv₂

/-- A token keeps its part of the source, however it is recast. -/
theorem Keeps.push (h : w.Keeps s i) (hij : i ≤ j) (hstrike : Delimiter.isStrikeEnd token = false)
    (hkept : ∀ b, Recast token b → Kept false (s.slice i j) b.spelled) : (w.push token).Keeps s j := by
  have hflush := h.flush
  refine ⟨fun U hU v hv => ?_, hflush.forward, unjoined_push hflush.unjoined _ hstrike⟩
  obtain ⟨V, b, rfl, hV, hb⟩ := hU.of_push
  have hnil : Variant w.flush.pending.reverse [] := by
    rw [pending_flush]
    exact .refl []
  have hbefore := hflush.kept V hV [] hnil
  have hv' : ∀ x ∈ v, isBreak x := by
    change Variant w.flush.pending.reverse v at hv
    rw [pending_flush] at hv
    exact hv.of_nil
  rw [List.append_nil] at hbefore
  rw [Array.toList_push, InlineToken.spelledAll_append, InlineToken.spelledAll_cons, InlineToken.spelledAll_nil,
    List.append_nil, List.append_assoc, ← Source.take_append_slice hij]
  refine hbefore.append ?_
  have hrest := (hkept b hb).append (Kept.replace (x := []) nofun hv' false)
  rwa [List.append_nil] at hrest

/-- A token that stays as it is keeps its part of the source. -/
theorem Keeps.push_fixed (h : w.Keeps s i) (hij : i ≤ j) (hstrike : Delimiter.isStrikeEnd token = false)
    (hfixed : ∀ v, token ≠ .text v) (hkept : Kept false (s.slice i j) token.spelled) : (w.push token).Keeps s j := by
  refine h.push hij hstrike fun b hb => ?_
  rcases hb with rfl | ⟨⟨v, rfl, -⟩, -⟩
  · exact hkept
  · exact absurd rfl (hfixed v)

/-- A gap may stand for any part of the source. -/
theorem Keeps.push_gap (h : w.Keeps s i) (token : InlineToken) (hij : i ≤ j) (hstrike : Delimiter.isStrikeEnd token = false)
    (hgap : token.spelled = [none]) : (w.push token).Keeps s j := by
  refine h.push_fixed hij hstrike ?_ ?_
  · rintro v rfl
    rw [InlineToken.spelled_text] at hgap
    cases v <;> cases hgap
  · rw [hgap]
    exact .gap false _

/-- A loose text may be added anywhere. -/
theorem Keeps.push_loose (h : w.Keeps s i) {t : Text} (ht : ∀ c ∈ t, isLoose c) : (w.push (.text t)).Keeps s i := by
  refine h.push (Nat.le_refl i) rfl fun b hb => ?_
  have hbreak : b.IsBreak := by
    rcases hb with rfl | ⟨-, hb⟩
    · exact InlineToken.isBreak_text ht
    · exact hb
  rw [Source.slice_eq, Nat.sub_self, List.take_zero]
  exact .replace (x := []) nofun hbreak false

/-- Loose characters of the source may be left out. -/
theorem Keeps.advance (h : w.Keeps s i) (hij : i ≤ j) (hloose : ∀ c ∈ s.slice i j, isLoose c) : w.Keeps s j := by
  refine ⟨fun U hU v hv => ?_, h.forward, h.unjoined⟩
  have hdrop : Kept false (s.slice i j) [] := .replace (v := []) hloose nofun false
  rw [← Source.take_append_slice hij, ← List.append_nil (spelledAll U.toList ++ v)]
  exact (h.kept U hU v hv).append hdrop

theorem Keeps.setMemory (h : w.Keeps s i) {memory : Memory} (hmemory : memory.Forward) : ({ w with memory } : Writer).Keeps s i :=
  ⟨h.kept, hmemory, h.unjoined⟩

/-- Spaces that are not written yet may be left out. -/
theorem Keeps.dropSpaces (h : w.Keeps s i) : ({ w with pending := w.pending.dropWhile (· = ' ') } : Writer).Keeps s i := by
  refine ⟨fun U hU v hv => h.kept U hU v ?_, h.forward, h.unjoined⟩
  have hsplit := List.takeWhile_append_dropWhile (p := (· = ' ')) (l := w.pending)
  rw [← hsplit, List.reverse_append]
  refine Variant.append_loose hv fun c hc => ?_
  have hspace := List.mem_takeWhile_imp (List.mem_reverse.1 hc)
  rw [decide_eq_true_eq] at hspace
  rw [hspace]
  decide

theorem Keeps.openMark (h : w.Keeps s i) (hij : i ≤ j) (mark : Mark) : (w.openMark mark).Keeps s j := by
  have hpush := h.push_gap (.opening mark) hij rfl (by rw [InlineToken.spelled])
  refine ⟨hpush.kept, hpush.forward, fun ds hds => ?_, fun ds hds => ?_, hpush.unjoined.strikes⟩
  · rcases Array.mem_push.1 hds with hds | rfl
    · exact hpush.unjoined.closer ds hds
    · exact nofun
  · rcases Array.mem_push.1 hds with hds | rfl
    · exact hpush.unjoined.loose ds hds
    · exact nofun

theorem Keeps.closeMark (h : w.Keeps s i) (hij : i ≤ j) {mark : Mark} (hmark : mark ≠ .strike) :
    (w.closeMark mark).Keeps s j := by
  have hstrike : Delimiter.isStrikeEnd (.closing mark) = false := by
    cases mark <;> first | rfl | exact absurd rfl hmark
  have hpush := h.push_gap (.closing mark) hij hstrike (by rw [InlineToken.spelled])
  exact ⟨hpush.kept, hpush.forward, hpush.unjoined⟩

theorem flush_of_nil (hnil : w.pending = []) : w.flush = w := by
  rw [Writer.flush, hnil, List.isEmpty_nil, if_pos rfl]

/-- A text between marks of its own keeps its part of the source. -/
theorem Keeps.push_marked (h : w.Keeps s i) (hij : i ≤ j) {mark : Mark} (hmark : mark ≠ .strike) {t : Text}
    (hkept : Kept false (s.slice i j) (none :: (t.map some ++ [none]))) :
    (((w.openMark mark).push (.text t)).closeMark mark).Keeps s j := by
  have hstrike : Delimiter.isStrikeEnd (.closing mark) = false := by
    cases mark <;> first | rfl | exact absurd rfl hmark
  have htext : ∀ b, Recast (.text t) b → Kept false (s.slice i j) (none :: (b.spelled ++ [none])) := by
    rintro b (rfl | ⟨-, hb⟩)
    · rwa [InlineToken.spelled_text]
    · exact .put false rfl (.breaks (List.forall_mem_append.2 ⟨hb, by simp [isBreak]⟩))
  have hopen := h.openMark (Nat.le_refl i) mark
  have hopened : (w.openMark mark).pending = [] := pending_flush w
  have hwritten : ((w.openMark mark).push (.text t)).pending = [] := pending_flush (w.openMark mark)
  refine ⟨fun U hU v hv => ?_, ?_, ?_⟩
  · change Recasts (((w.openMark mark).push (.text t)).flush.tokens.push (.closing mark)) U at hU
    change Variant (((w.openMark mark).push (.text t)).flush.pending.reverse) v at hv
    rw [flush_of_nil hwritten] at hU hv
    change Recasts (((w.openMark mark).flush.tokens.push (.text t)).push (.closing mark)) U at hU
    rw [flush_of_nil hopened] at hU
    rw [hwritten] at hv
    obtain ⟨V₃, b, rfl, hV₃, hb⟩ := hU.of_push
    obtain ⟨V₂, c, rfl, hV₂, hc⟩ := hV₃.of_push
    obtain ⟨V, a, rfl, hV, ha⟩ := hV₂.of_push
    have hfixed {a token : InlineToken} (h : Recast token a) (hne : ∀ v, token ≠ .text v) : a = token :=
      h.elim id fun ⟨⟨v, heq, _⟩, _⟩ => absurd heq (hne v)
    obtain rfl := hfixed ha nofun
    obtain rfl := hfixed hb nofun
    have hbefore := h.flush.kept V hV [] (by rw [pending_flush]; exact .refl [])
    have hwhole := (hbefore.append (htext c hc)).append (Kept.replace (x := []) nofun hv.of_nil false)
    rw [Source.take_append_slice hij] at hwhole
    simpa [InlineToken.spelled] using hwhole
  · change ((w.openMark mark).push (.text t)).flush.memory.Forward
    rw [flush_of_nil hwritten]
    change (w.openMark mark).flush.memory.Forward
    rw [flush_of_nil hopened]
    exact hopen.forward
  · have hunjoined := unjoined_push hopen.flush.unjoined (.text t) rfl
    change Unjoined ((w.openMark mark).push (.text t)).flush.groups
      (((w.openMark mark).push (.text t)).flush.tokens.push (.closing mark))
    rw [flush_of_nil hwritten]
    exact unjoined_push hunjoined _ hstrike

theorem Keeps.addDelimiter (h : w.Keeps s i) (marker : Char) {t : Text} (ht : ∀ c ∈ t, isLoose c) (length : Nat)
    (flanks : Flanks) : (w.addDelimiter marker t length flanks).Keeps s i := by
  have hpush := h.push_loose ht
  have hlast : (w.push (.text t)).tokens[(w.push (.text t)).tokens.size - 1]? = some (.text t) := by
    change (w.flush.tokens.push (.text t))[(w.flush.tokens.push (.text t)).size - 1]? = _
    rw [Array.size_push, Nat.add_sub_cancel, Array.getElem?_push, if_pos rfl]
  refine ⟨hpush.kept, hpush.forward, fun ds hds d hd => ?_, fun ds hds d hd => ?_, hpush.unjoined.strikes⟩
  all_goals
    obtain ⟨k, hk⟩ := Array.mem_iff_getElem?.1 hds
    rw [Writer.addDelimiter, Array.getElem?_modify] at hk
    split at hk
    · obtain ⟨ds', hds', rfl⟩ := Option.map_eq_some_iff.1 hk
      rcases Array.mem_push.1 hd with hd | rfl
      · first
          | exact hpush.unjoined.closer ds' (Array.mem_of_getElem? hds') d hd
          | exact hpush.unjoined.loose ds' (Array.mem_of_getElem? hds') d hd
      · first
          | rfl
          | exact ⟨_, hlast, t, rfl, ht⟩
    · first
        | exact hpush.unjoined.closer ds (Array.mem_of_getElem? hk) d hd
        | exact hpush.unjoined.loose ds (Array.mem_of_getElem? hk) d hd

theorem Keeps.foldl {α : Type} {f : Writer → α → Writer} (hf : ∀ w a, w.Keeps s i → (f w a).Keeps s i) (l : List α)
    (h : w.Keeps s i) : (l.foldl f w).Keeps s i := by
  induction l generalizing w with
  | nil => exact h
  | cons a l ih => exact ih (hf w a h)

theorem Keeps.addRun (h : w.Keeps s i) {marker : Char} (hmarker : isLoose marker) (length : Nat) (flanks : Flanks) :
    (w.addRun marker length flanks).Keeps s i := by
  have htilde : isLoose '~' := by decide
  unfold Writer.addRun
  split
  · refine Keeps.foldl (fun w _ hw => hw.addDelimiter '~' (List.forall_mem_cons.2 ⟨htilde, by simpa using htilde⟩) 0 flanks) _ ?_
    split
    · exact h.push_loose (by simpa using htilde)
    · exact h
  · exact Keeps.foldl (fun w _ hw => hw.addDelimiter marker (by simpa using hmarker) length flanks) _ h

end Writer

/-! ## Writing pieces -/

/-- A way to write parts of a source that keeps them. -/
def Keeping (s : Source) (inner : Writing) : Prop :=
  ∀ w i limit w', s.EndsAt limit → i ≤ limit → w.Keeps s i → inner w i limit = .ok w' → w'.Keeps s limit

variable {s : Source} {alternative : Alternative} {inner : Writing} {w w' : Writer} {i limit : Nat}

section Pieces
variable (halternative : ∀ t tokens, t <:+: s.text → alternative t = .ok tokens → Kept false t (spelledAll tokens))
include halternative

theorem writePiece_keeps (hinner : Keeping s inner) (hw : w.Keeps s i) (hi : i < limit) {piece : Piece}
    (hpiece : piece.Sound s i limit) (h : writePiece s alternative inner w i limit piece = .ok w') :
    w'.Keeps s (min piece.stop limit) := by
  have hcut {n : Nat} (hn : n ≤ limit) : min n limit = n := Nat.min_eq_left hn
  cases piece with
  | text value stop =>
    obtain ⟨hlt, hle, rfl⟩ := hpiece
    cases h
    rw [Piece.stop, hcut hle]
    exact hw.addText (Nat.le_of_lt hlt)
  | lineEnd stop =>
    obtain ⟨hlt, hle⟩ := hpiece
    cases h
    rw [Piece.stop, hcut hle]
    exact hw.dropSpaces.push_gap _ (Nat.le_of_lt hlt) rfl (by rw [InlineToken.spelled])
  | hardBreak stop =>
    obtain ⟨hlt, hle⟩ := hpiece
    cases h
    rw [Piece.stop, hcut hle]
    exact hw.push_gap _ (Nat.le_of_lt hlt) rfl (by rw [InlineToken.spelled])
  | special value stop =>
    obtain ⟨hlt, hle, hkept⟩ := hpiece
    cases h
    rw [Piece.stop, hcut hle]
    exact hw.push_fixed (Nat.le_of_lt hlt) rfl nofun (by rwa [InlineToken.spelled_special])
  | code value stop =>
    cases h
    exact hw.push_gap _ (Nat.le_min.2 ⟨Nat.le_of_lt hpiece, Nat.le_of_lt hi⟩) rfl (by rw [InlineToken.spelled])
  | delimiters marker stop =>
    obtain ⟨hlt, hle, hmarker, hloose⟩ := hpiece
    cases h
    rw [Piece.stop, hcut hle]
    exact (hw.addRun hmarker _ _).advance (Nat.le_of_lt hlt) hloose
  | link target first last stop =>
    obtain ⟨hfirst, hlast, hlt, hle, hbracket⟩ := hpiece
    obtain ⟨v, hv, h⟩ := bind_eq_ok.1 h
    cases h
    rw [Piece.stop, hcut hle]
    have hends : s.EndsAt last := .inr ⟨']', hbracket, by decide⟩
    exact (hinner _ first last v hends hlast (hw.openMark hfirst (.link target)) hv).closeMark (Nat.le_of_lt hlt) nofun
  | image target first last stop =>
    obtain ⟨hfirst, hlast, hlt, hle⟩ := hpiece
    obtain ⟨tokens, htokens, h⟩ := bind_eq_ok.1 h
    cases h
    rw [Piece.stop, hcut hle]
    refine hw.push_fixed (by omega) rfl nofun ?_
    rw [InlineToken.spelled, ← Source.slice_append_slice (show i ≤ first from hfirst) (show first ≤ stop by omega),
      ← Source.slice_append_slice hlast (Nat.le_of_lt hlt)]
    exact (Kept.gap false _).append
      ((halternative _ tokens (Source.slice_infix first last) htokens).append (Kept.gap false _))
  | autolink target shown stop =>
    obtain ⟨hlt, hle, hkept⟩ := hpiece
    cases h
    rw [Piece.stop, hcut hle]
    exact hw.push_marked (Nat.le_of_lt hlt) (show Mark.link target ≠ .strike from nofun) hkept

theorem writePieces_keeps (hs : Uncoded s.text) {skip : Source.Skipping} (hskip : skip.Forward) (hinner : Keeping s inner)
    (hlimit : s.EndsAt limit) {fuel : Nat} (hfuel : limit - i < fuel) (hw : w.Keeps s (min i limit))
    (h : writePieces s alternative skip inner limit fuel w i = .ok w') : w'.Keeps s limit := by
  induction fuel generalizing w i with
  | zero => exact absurd hfuel (Nat.not_lt_zero _)
  | succ fuel ih =>
    unfold writePieces at h
    split at h
    · next hi =>
      rw [Nat.min_eq_left (Nat.le_of_lt hi)] at hw
      obtain ⟨hforward, hstop⟩ := Source.pieceAt_forward hs.ampersand hskip hw.forward hi
      have hsound : ∀ piece, (s.pieceAt skip w.memory i limit).1 = some piece → piece.Sound s i limit :=
        fun piece => Source.pieceAt_sound hs hlimit hskip hw.forward hi
      split at h
      · next piece memory hpiece =>
        rw [hpiece] at hforward hstop hsound
        obtain ⟨v, hv, h⟩ := bind_eq_ok.1 h
        have hstop := hstop piece rfl
        exact ih (by omega) (writePiece_keeps halternative hinner (hw.setMemory hforward) hi (hsound piece rfl) hv) h
      · next memory hpiece =>
        rw [hpiece] at hforward
        have hnext := (hw.setMemory hforward).addText (Nat.le_succ i)
        exact ih (by omega) (by rwa [Nat.min_eq_left hi]) h
    · next hi =>
      cases h
      rw [Nat.min_eq_right (Nat.le_of_not_lt hi)] at hw
      exact hw.flush

/-- Every part of a source is written in order. -/
theorem write_keeps (hs : Uncoded s.text) (room : Nat) : Keeping s (write s alternative room) := by
  induction room with
  | zero =>
    intro w i limit w' _ hi hw h
    cases h
    exact (hw.addText hi).flush
  | succ room ih =>
    intro w i limit w' hlimit hi hw h
    refine writePieces_keeps halternative hs (Source.skip_forward hs.ampersand _) ih hlimit (Nat.lt_succ_self _) ?_ h
    rwa [Nat.min_eq_left hi]

end Pieces

/-- Nothing is left to be written in the end. -/
theorem writePieces_pending {skip : Source.Skipping} {fuel : Nat}
    (h : writePieces s alternative skip inner limit fuel w i = .ok w') : w'.pending = [] := by
  induction fuel generalizing w i with
  | zero =>
    cases h
    exact Writer.pending_flush w
  | succ fuel ih =>
    unfold writePieces at h
    split at h
    · split at h
      · obtain ⟨v, -, h⟩ := bind_eq_ok.1 h
        exact ih h
      · exact ih h
    · cases h
      exact Writer.pending_flush w

theorem write_pending {room : Nat} (h : write s alternative room w i limit = .ok w') : w'.pending = [] := by
  cases room with
  | zero =>
    cases h
    exact Writer.pending_flush _
  | succ room => exact writePieces_pending h

/-! ## Whole texts -/

theorem Writer.keeps_empty (s : Source) (size : Nat) : (Writer.empty size).Keeps s 0 := by
  have hgroups : ∀ ds ∈ (Writer.empty size).groups, ds = #[] := fun ds hds => Array.mem_singleton.1 hds
  refine ⟨fun U hU v hv => ?_, fun i stop hstop => ?_, ⟨fun ds hds => ?_, fun ds hds => ?_, nofun⟩⟩
  · rw [Array.eq_empty_of_size_eq_zero hU.size]
    exact .replace (x := []) nofun hv.of_nil false
  · rw [Writer.empty, Memory.empty, Array.getElem?_replicate] at hstop
    split at hstop <;> cases hstop
  · rw [hgroups ds hds]
    exact nofun
  · rw [hgroups ds hds]
    exact nofun

/-- The tokens of a text keep its placeholders in order. -/
theorem read_kept {references : List Reference} {budget : Nat} {t : Text} {tokens : List InlineToken} (ht : Uncoded t)
    (h : read references budget t = .ok tokens) : Kept false t (spelledAll tokens) := by
  induction budget using Nat.strong_induction_on generalizing t tokens with
  | _ budget ih =>
    unfold read at h
    split at h
    · next budget =>
      obtain ⟨w, hw, h⟩ := bind_eq_ok.1 h
      cases h
      have hkeeps := @write_keeps ⟨t.toArray, references⟩ (read references budget)
        (fun t' tokens hwithin htokens => ih budget (by omega) (ht.within hwithin) htokens) ht maxBracketDepth
        (Writer.empty t.length) 0 t.length w (.inl rfl) (Nat.zero_le _) (Writer.keeps_empty _ _) hw
      obtain ⟨U, hU, hfinish⟩ := finish_recasts hkeeps.unjoined
      have hkept := hkeeps.kept U hU [] (by rw [write_pending hw]; exact .refl [])
      rwa [List.append_nil, List.take_of_length_le (Nat.le_refl _), ← InlineToken.spelledAll_joinTexts, ← hfinish] at hkept
    · cases h

/-- The null character as inline content shows it. -/
def showNull (c : Char) : Char := if c = '\x00' then Char.ofNat 0xFFFD else c

theorem showNull_eq {c d : Char} (hd : d ≠ Char.ofNat 0xFFFD) (h : showNull c = d) : c = d := by
  unfold showNull at h
  split at h
  · exact absurd h.symm hd
  · exact h

theorem showNull_of_ne {c : Char} (h : c ≠ '\x00') : showNull c = c := if_neg h

theorem marked_showNull {p : Option Text} {t : Text} {ds : List Text} (h : Marked p t ds) :
    Marked p (t.map showNull) ds := by
  induction h with
  | nil => exact .nil
  | char hopen hclose _ ih =>
    exact .char (fun heq => hopen (showNull_eq (by decide) heq)) (fun heq => hclose (showNull_eq (by decide) heq)) ih
  | opening _ ih => exact .opening ih
  | @digit c _ _ _ hc _ ih =>
    have hsame : Inline.showNull c = c := showNull_of_ne (LineForm.isDigit_ne hc (by decide))
    rw [← hsame] at hc ih
    exact .digit hc ih
  | closing hd _ ih => exact .closing hd ih

theorem uncoded_showNull {t : Text} (h : Uncoded t) : Uncoded (t.map showNull) := by
  have hchar {c : Char} (hc : c ∉ t) (hne : c ≠ Char.ofNat 0xFFFD) : c ∉ t.map showNull := by
    intro hmem
    obtain ⟨d, hd, heq⟩ := List.mem_map.1 hmem
    exact hc (showNull_eq hne heq ▸ hd)
  refine ⟨hchar h.ampersand (by decide), hchar h.percent (by decide), fun ⟨a, b, hab⟩ => h.punycode ?_⟩
  obtain ⟨u, b', rfl, hu, -⟩ := List.map_eq_append_iff.1 hab.symm
  obtain ⟨a', m, rfl, -, hm⟩ := List.map_eq_append_iff.1 hu
  have hmark : m = Punycode.mark := by
    rw [← hm]
    refine ((List.map_congr_left fun c hc => showNull_of_ne ?_).trans (List.map_id m)).symm
    rintro rfl
    have hmem := List.mem_map_of_mem (f := showNull) hc
    rw [hm] at hmem
    revert hmem
    decide
  exact ⟨a', b', by rw [hmark]⟩

/-- The tokens of a text hold some of its placeholders, in order. -/
theorem tokens_numbers {references : List Reference} {budget : Nat} {t : Text} {tokens : List InlineToken} {ds : List Text}
    (ht : Uncoded t) (hreturn : '\r' ∉ t) (hm : Marked none t ds) (h : Inline.tokens references budget t = .ok tokens) :
    (numbers none (spelledAll tokens)).Sublist ds := by
  obtain ⟨read, hread, h⟩ := bind_eq_ok.1 h
  cases h
  rw [InlineToken.spelled_joinAll]
  rw [normalize, Text.anyNewlineToLf_of_notMem hreturn] at hread
  exact (read_kept (uncoded_showNull ht) hread).numbers_sublist (marked_showNull hm)

end Inline
end Narration.Markup
