import Narration.Markup.Inline
import Narration.Proofs.Markup.Inline.Kept

/-!
# Delimiters turned into marks

Only the tokens of delimiters change when delimiters are joined, and what they spell is no part of a placeholder before
and after.

* `Recast`, `Recasts` : a token that may have changed so, and an array of such tokens;
* `Delimiter.Tied` : delimiters with the tokens of others, joined to each other;
* `Delimiter.markStrikes_recasts`, `Delimiter.markEmphasis_recasts`, `Inline.finish_recasts` : what joining delimiters
  changes;
-/

namespace Narration.Markup

namespace InlineToken

/-- A text that is no part of a placeholder. -/
def IsLoose (token : InlineToken) : Prop := ∃ v : Text, token = .text v ∧ ∀ c ∈ v, isLoose c

/-- A token that spells no part of a placeholder. -/
def IsBreak (token : InlineToken) : Prop := ∀ e ∈ token.spelled, isBreak e

theorem isBreak_text {v : Text} (h : ∀ c ∈ v, isLoose c) : IsBreak (.text v) := by
  rw [IsBreak, spelled_text]
  exact List.forall_mem_map.2 h

theorem IsLoose.isBreak {token : InlineToken} (h : token.IsLoose) : token.IsBreak := by
  obtain ⟨v, rfl, hv⟩ := h
  exact isBreak_text hv

theorem isBreak_opening (mark : Mark) : IsBreak (.opening mark) := by
  rw [IsBreak, spelled]
  exact List.forall_mem_singleton.2 rfl

theorem isBreak_closing (mark : Mark) : IsBreak (.closing mark) := by
  rw [IsBreak, spelled]
  exact List.forall_mem_singleton.2 rfl

end InlineToken

open InlineToken (isBreak_text isBreak_opening isBreak_closing spelledAll)

/-- A token that is left alone, or a loose text that becomes a token which spells no part of a placeholder. -/
def Recast (a b : InlineToken) : Prop := b = a ∨ a.IsLoose ∧ b.IsBreak

/-- Tokens that are recast one by one. -/
structure Recasts (T U : Array InlineToken) : Prop where
  size : U.size = T.size
  recast : ∀ (k : Nat) a b, T[k]? = some a → U[k]? = some b → Recast a b

namespace Recasts

variable {T U : Array InlineToken}

theorem refl (T : Array InlineToken) : Recasts T T :=
  ⟨rfl, fun _ _ _ ha hb => .inl (Option.some.inj (hb.symm.trans ha))⟩

theorem isBreak (h : Recasts T U) {k : Nat} {a b : InlineToken} (ha : T[k]? = some a) (hb : U[k]? = some b)
    (hloose : a.IsLoose) : b.IsBreak := by
  rcases h.recast k a b ha hb with rfl | hrecast
  · exact hloose.isBreak
  · exact hrecast.2

/-- A loose token becomes another that spells no part of a placeholder. -/
theorem set! (h : Recasts T U) {k : Nat} (hloose : ∀ a, T[k]? = some a → a.IsLoose) {e : InlineToken} (he : e.IsBreak) :
    Recasts T (U.set! k e) := by
  refine ⟨by rw [Array.set!_eq_setIfInBounds, Array.size_setIfInBounds, h.size], fun i a b ha hb => ?_⟩
  rw [Array.set!_eq_setIfInBounds, Array.getElem?_setIfInBounds] at hb
  split at hb
  · next hk =>
    subst hk
    split at hb
    · cases hb
      exact .inr ⟨hloose a ha, he⟩
    · cases hb
  · exact h.recast i a b ha hb

end Recasts

/-! ## Joined delimiters -/

namespace Delimiter

/-- Delimiters with the tokens of others, joined to each other. -/
structure Tied (ds ds' : Array Delimiter) : Prop where
  size : ds'.size = ds.size
  token : ∀ k : Nat, ds'[k]?.map (·.token) = ds[k]?.map (·.token)
  closer : ∀ (k : Nat) d j, ds'[k]? = some d → d.closer = some j → j < ds.size

variable {ds ds' : Array Delimiter} {T U : Array InlineToken}

theorem Tied.modify (h : Tied ds ds') (k : Nat) {f : Delimiter → Delimiter} (htoken : ∀ d, (f d).token = d.token)
    (hcloser : ∀ d j, (f d).closer = some j → d.closer = some j ∨ j < ds.size) : Tied ds (ds'.modify k f) := by
  refine ⟨by rw [Array.size_modify, h.size], fun i => ?_, fun i d j hd hj => ?_⟩
  · rw [← h.token i, Array.getElem?_modify]
    split
    · cases ds'[i]? with
      | none => rfl
      | some d => exact congrArg some (htoken d)
    · rfl
  · rw [Array.getElem?_modify] at hd
    split at hd
    · obtain ⟨d', hd', rfl⟩ := Option.map_eq_some_iff.1 hd
      rcases hcloser d' j hj with hj | hj
      · exact h.closer i d' j hd' hj
      · exact hj
    · exact h.closer i d j hd hj

theorem join_tied {p : Pairing} (h : Tied ds p.delimiters) (i : Nat) {j : Nat} (hj : j < ds.size) :
    Tied ds (p.join i j).delimiters := by
  have hcloser : Tied ds (p.delimiters.modify j ({ · with canOpen := false })) :=
    h.modify j (fun _ => rfl) fun d k hk => .inl hk
  exact hcloser.modify i (f := ({ · with closer := some j, canClose := false })) (fun _ => rfl) fun d k hk =>
    .inr (Option.some.inj hk ▸ hj)

theorem visit_tied {p : Pairing} (h : Tied ds p.delimiters) {j : Nat} (hj : j < ds.size) :
    Tied ds (p.visit j).delimiters := by
  unfold Pairing.visit
  dsimp only
  split
  · exact h
  · split
    · exact join_tied h _ hj
    · simpa only [apply_ite Pairing.delimiters, ite_self] using h

theorem pair_tied (hnone : ∀ d ∈ ds, d.closer = none) : Tied ds (pair ds) := by
  have hfold (l : List Nat) (hl : ∀ j ∈ l, j < ds.size) (p : Pairing) (hp : Tied ds p.delimiters) :
      Tied ds (l.foldl Pairing.visit p).delimiters := by
    induction l generalizing p with
    | nil => exact hp
    | cons j l ih =>
      obtain ⟨hj, hl⟩ := List.forall_mem_cons.1 hl
      exact ih hl _ (visit_tied hp hj)
  refine hfold _ (fun j hj => List.mem_range.1 hj) _ ⟨rfl, fun _ => rfl, fun k d j hd hj => ?_⟩
  rw [hnone d (Array.mem_of_getElem? hd)] at hj
  cases hj

/-- The tokens of delimiters are loose texts. -/
def AreLoose (T : Array InlineToken) (ds : Array Delimiter) : Prop := ∀ d ∈ ds, ∃ a, T[d.token]? = some a ∧ a.IsLoose

theorem AreLoose.tied (h : AreLoose T ds) (htied : Tied ds ds') : AreLoose T ds' := by
  intro d hd
  obtain ⟨k, hk⟩ := Array.mem_iff_getElem?.1 hd
  have htoken := htied.token k
  rw [hk, Option.map_some, eq_comm] at htoken
  obtain ⟨d', hd', heq⟩ := Option.map_eq_some_iff.1 htoken
  rw [← heq]
  exact h d' (Array.mem_of_getElem? hd')

theorem AreLoose.of_mem (h : AreLoose T ds) {d : Delimiter} (hd : d ∈ ds) : ∀ a, T[d.token]? = some a → a.IsLoose := by
  intro a ha
  obtain ⟨b, hb, hloose⟩ := h d hd
  obtain rfl := Option.some.inj (hb.symm.trans ha)
  exact hloose

theorem AreLoose.isLoose (h : AreLoose T ds) {k : Nat} (hk : k < ds.size) :
    ∀ a, T[(ds[k]!).token]? = some a → a.IsLoose := by
  rw [getElem!_pos ds k hk]
  exact h.of_mem (Array.getElem_mem hk)

/-! ## Marks for delimiters -/

theorem moveBehindEnds_recasts (h : Recasts T U) (hT : ∀ a ∈ T, isStrikeEnd a = false) {i : Nat}
    (hi : ∀ a, T[i]? = some a → a.IsLoose) : Recasts T (moveBehindEnds U i) := by
  unfold moveBehindEnds
  dsimp only
  split
  · exact h
  · next hne =>
    generalize hends : (U.toList.drop (i + 1)).takeWhile isStrikeEnd = ends at hne ⊢
    have hpos : ends ≠ [] := fun hnil => hne (by rw [hnil]; rfl)
    -- the last of the ends that follow stands where a loose text stood
    obtain ⟨e, he, hend⟩ : ∃ e, U[i + ends.length]? = some e ∧ isStrikeEnd e := by
      have hlast := List.getLast_mem hpos
      have hlength := List.length_pos_iff.2 hpos
      refine ⟨ends.getLast hpos, ?_, ?_⟩
      · obtain ⟨w, hw⟩ : ends <+: U.toList.drop (i + 1) := hends ▸ List.takeWhile_prefix _
        have hget : (ends ++ w)[ends.length - 1]? = some (ends.getLast hpos) := by
          rw [List.getElem?_append_left (by omega), ← List.getLast?_eq_getElem?, List.getLast?_eq_some_getLast hpos]
        rw [hw, List.getElem?_drop, Array.getElem?_toList] at hget
        rw [← hget]
        congr 1
        omega
      · exact List.mem_takeWhile_imp (show ends.getLast hpos ∈ (U.toList.drop (i + 1)).takeWhile isStrikeEnd from hends ▸ hlast)
    have hloose : ∀ a, T[i + ends.length]? = some a → a.IsLoose := by
      intro a ha
      rcases h.recast _ a e ha he with rfl | hrecast
      · rw [hT e (Array.mem_of_getElem? ha)] at hend
        cases hend
      · exact hrecast.1
    have hlt : i + ends.length < U.size := (Array.getElem?_eq_some_iff.1 he).1
    obtain ⟨a, ha⟩ : ∃ a, T[i]? = some a := ⟨_, Array.getElem?_eq_getElem (by rw [← h.size]; omega)⟩
    have hmoved : U[i]!.IsBreak := by
      rw [getElem!_pos U i (by omega)]
      exact h.isBreak ha (Array.getElem?_eq_getElem _) (hi a ha)
    have hbehind : (U[i + ends.length]!).IsBreak := by
      rw [Array.getElem!_eq_getD, Array.getD_eq_getD_getElem?, he]
      cases e with
      | closing mark => exact isBreak_closing mark
      | _ => cases hend
    exact (h.set! hi hbehind).set! hloose hmoved

/-- A lone tilde stands where a loose text stood. -/
theorem isLoose_of_isLoneTilde (h : Recasts T U) {k : Nat} (hk : isLoneTilde U[k]!) : ∀ a, T[k]? = some a → a.IsLoose := by
  intro a ha
  have hlt : k < U.size := by
    rw [h.size]
    exact (Array.getElem?_eq_some_iff.1 ha).1
  rw [getElem!_pos U k hlt] at hk
  rcases h.recast k a _ ha (Array.getElem?_eq_getElem hlt) with heq | hrecast
  · rw [heq] at hk
    unfold isLoneTilde at hk
    split at hk
    · exact ⟨['~'], rfl, by decide⟩
    · cases hk
  · exact hrecast.1

theorem markStrikes_recasts (h : Recasts T U) (hT : ∀ a ∈ T, isStrikeEnd a = false) (htied : Tied ds ds')
    (hloose : AreLoose T ds) : Recasts T (markStrikes ds' U) := by
  have hloose' := hloose.tied htied
  have hmoves (lone : List Nat) (hlone : ∀ i ∈ lone, ∀ a, T[i]? = some a → a.IsLoose) (V : Array InlineToken)
      (hV : Recasts T V) : Recasts T (lone.foldl moveBehindEnds V) := by
    induction lone generalizing V with
    | nil => exact hV
    | cons i lone ih =>
      obtain ⟨hi, hlone⟩ := List.forall_mem_cons.1 hlone
      exact ih hlone _ (moveBehindEnds_recasts hV hT hi)
  unfold markStrikes
  split
  next tokens lone heq =>
  obtain ⟨hkept, hlone⟩ : Recasts T (tokens, lone).1 ∧ ∀ i ∈ (tokens, lone).2, ∀ a, T[i]? = some a → a.IsLoose := by
    rw [← heq]
    refine Array.foldl_induction (fun _ (r : Array InlineToken × List Nat) => Recasts T r.1 ∧ ∀ i ∈ r.2, ∀ a, T[i]? = some a → a.IsLoose) ⟨h, by simp⟩ ?_
    rintro k ⟨V, lone⟩ ⟨hV, hlone⟩
    dsimp only
    split
    · next j _ hcloser =>
      have hj : j < ds'.size := htied.size ▸ htied.closer k _ j (Array.getElem?_eq_getElem k.2) hcloser
      have hstep := (hV.set! (hloose'.of_mem (Array.getElem_mem k.2)) (isBreak_opening .strike)).set! (hloose'.isLoose hj) (isBreak_closing .strike)
      refine ⟨hstep, ?_⟩
      split
      · next htilde => exact List.forall_mem_cons.2 ⟨isLoose_of_isLoneTilde hstep htilde, hlone⟩
      · exact hlone
    · exact ⟨hV, hlone⟩
  exact hmoves lone hlone tokens hkept

theorem markEmphasis_recasts (h : Recasts T U) (htied : Tied ds ds') (hloose : AreLoose T ds) (n : Nat) (hn : n ≤ ds'.size)
    (skip : Bool) : Recasts T (markEmphasis ds' n skip U) := by
  have hloose' := hloose.tied htied
  induction n generalizing skip U with
  | zero =>
    rw [markEmphasis]
    exact h
  | succ i ih =>
    cases skip with
    | true =>
      rw [markEmphasis]
      exact ih h (by omega) false
    | false =>
      unfold markEmphasis
      dsimp only
      split
      · exact ih h (by omega) false
      · next j hcloser =>
        split
        · exact ih h (by omega) false
        · have hj : j < ds'.size := by
            rw [getElem!_pos ds' i hn] at hcloser
            exact htied.size ▸ htied.closer i _ j (Array.getElem?_eq_getElem hn) hcloser
          have hempty : (InlineToken.text []).IsBreak := isBreak_text nofun
          refine ih ?_ (by omega) _
          split
          · next hstrong =>
            simp only [Bool.and_eq_true, decide_eq_true_eq] at hstrong
            obtain ⟨⟨⟨⟨hpos, -⟩, -⟩, -⟩, hlast⟩ := hstrong
            have hnext : j + 1 < ds'.size := by
              by_contra hout
              rw [getElem!_neg ds' (j + 1) hout] at hlast
              exact absurd hlast (Nat.succ_ne_zero _).symm
            exact (((h.set! (hloose'.isLoose hn) (isBreak_opening _)).set! (hloose'.isLoose hj) (isBreak_closing _)).set!
              (hloose'.isLoose (by omega)) hempty).set! (hloose'.isLoose hnext) hempty
          · exact (h.set! (hloose'.isLoose hn) (isBreak_opening _)).set! (hloose'.isLoose hj) (isBreak_closing _)

end Delimiter

/-- Groups of delimiters with the tokens that have been written: they are not joined yet, their tokens are loose texts,
and no span of strikes is marked. -/
structure Inline.Unjoined (groups : Array (Array Delimiter)) (tokens : Array InlineToken) : Prop where
  closer : ∀ ds ∈ groups, ∀ d ∈ ds, d.closer = none
  loose : ∀ ds ∈ groups, Delimiter.AreLoose tokens ds
  strikes : ∀ a ∈ tokens, Delimiter.isStrikeEnd a = false

/-- The delimiters joined, the tokens are recast and joined. -/
theorem Inline.finish_recasts {w : Inline.Writer} (h : Inline.Unjoined w.groups w.tokens) :
    ∃ U, Recasts w.tokens U ∧ Inline.finish w = InlineToken.joinTexts U.toList := by
  refine ⟨_, ?_, rfl⟩
  have hgroups : ∀ ds' ∈ w.groups.map Delimiter.pair, ∃ ds, Delimiter.Tied ds ds' ∧ Delimiter.AreLoose w.tokens ds := by
    intro ds' hds'
    obtain ⟨ds, hds, rfl⟩ := Array.mem_map.1 hds'
    exact ⟨ds, Delimiter.pair_tied (h.closer ds hds), h.loose ds hds⟩
  have hstrikes := @Array.foldl_induction _ _ (w.groups.map Delimiter.pair) (fun _ U => Recasts w.tokens U) w.tokens
    (.refl w.tokens) (fun tokens ds => Delimiter.markStrikes ds tokens) fun k U hU => by
      obtain ⟨ds, htied, hloose⟩ := hgroups _ (Array.getElem_mem k.2)
      exact Delimiter.markStrikes_recasts hU h.strikes htied hloose
  refine Array.foldl_induction (motive := fun _ U => Recasts w.tokens U) hstrikes fun k U hU => ?_
  obtain ⟨ds, htied, hloose⟩ := hgroups _ (Array.getElem_mem k.2)
  exact Delimiter.markEmphasis_recasts hU htied hloose _ (Nat.le_refl _) false

end Narration.Markup
