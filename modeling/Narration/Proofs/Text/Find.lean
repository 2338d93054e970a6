import Mathlib.Data.List.Infix
import Narration.Proofs.Text.Runs

/-!
# Beginnings and occurrences

* `after?_eq_some` : what follows the beginning of a text;
* `has_iff` : whether a piece occurs;
* `find?_exchange` : the first occurrence of a piece, whatever follows it.
-/

namespace Narration.Text

variable {p t r x e : Text} {n o : Nat}

theorem after?_append (p r : Text) : after? p (p ++ r) = some r := by
  induction p with
  | nil => rfl
  | cons a p ih => rw [List.cons_append, after?, if_pos rfl, ih]

theorem after?_eq_some : after? p t = some r ↔ t = p ++ r := by
  refine ⟨fun h => ?_, fun h => h ▸ after?_append p r⟩
  induction p generalizing t with
  | nil => exact Option.some.inj h
  | cons a p ih =>
    cases t with
    | nil => cases h
    | cons c t =>
      rw [after?] at h
      split at h
      · next hac => rw [hac, ih h, List.cons_append]
      · cases h

/-- The beginning of a text without line feeds lies on its first line. -/
theorem EndsLine.after?_append {v : Text} (hv : EndsLine v) (hp : '\n' ∉ p) (u : Text) :
    after? p (u ++ v) = (after? p u).map (· ++ v) := by
  induction p generalizing u with
  | nil => rfl
  | cons a p ih =>
    rw [List.mem_cons, not_or] at hp
    cases u with
    | nil =>
      rcases hv with rfl | ⟨w, rfl⟩
      · rfl
      · have hnone : after? (a :: p) ('\n' :: w) = none := by rw [after?, if_neg (Ne.symm hp.1)]
        exact hnone
    | cons c u =>
      rw [List.cons_append, after?, after?]
      split
      · exact ih hp.2 u
      · rfl

theorem beginsWith_iff : beginsWith t p ↔ p <+: t := by
  rw [beginsWith, Option.isSome_iff_exists]
  exact ⟨fun ⟨r, h⟩ => ⟨r, (after?_eq_some.1 h).symm⟩, fun ⟨r, h⟩ => ⟨r, after?_eq_some.2 h.symm⟩⟩

theorem beginsWith_append (h : p.length ≤ x.length) (e : Text) : beginsWith (x ++ e) p = beginsWith x p := by
  rw [Bool.eq_iff_iff, beginsWith_iff, beginsWith_iff]
  exact ⟨fun hp => List.prefix_of_prefix_length_le hp (List.prefix_append x e) h,
    fun hp => hp.trans (List.prefix_append x e)⟩

theorem findFrom_isSome (hp : p ≠ []) (o : Nat) (t : Text) : (findFrom p o t).isSome ↔ p <:+: t := by
  induction t generalizing o with
  | nil =>
    rw [findFrom, if_neg (by simpa using hp), List.infix_nil]
    simpa using hp
  | cons c t ih =>
    rw [findFrom, List.infix_cons_iff, ← beginsWith_iff, ← ih (o + 1)]
    split
    · next h => simp [h]
    · next h => simp [h]

theorem has_iff (hp : p ≠ []) (t : Text) : has t p ↔ p <:+: t := findFrom_isSome hp 0 t

theorem le_findFrom (h : findFrom p o t = some n) : o ≤ n := by
  induction t generalizing o with
  | nil =>
    rw [findFrom] at h
    split at h
    · cases h
      exact Nat.le_refl _
    · cases h
  | cons c t ih =>
    rw [findFrom] at h
    split at h
    · cases h
      exact Nat.le_refl _
    · exact Nat.le_of_succ_le (ih h)

theorem findFrom_le (h : findFrom p o t = some n) : n + p.length ≤ o + t.length := by
  induction t generalizing o with
  | nil =>
    rw [findFrom] at h
    split at h
    · next hp =>
      cases h
      simp [List.isEmpty_iff.1 hp]
    · cases h
  | cons c t ih =>
    rw [findFrom] at h
    split at h
    · next hp =>
      cases h
      exact Nat.add_le_add_left (beginsWith_iff.1 hp).length_le _
    · have := ih h
      rw [List.length_cons]
      omega

theorem find?_le (h : find? t p = some n) : n + p.length ≤ t.length := by
  simpa using findFrom_le h

/-- The first occurrence of a piece within some characters is the first one whatever follows them. -/
theorem findFrom_exchange (hp : p ≠ []) (h : findFrom p o (x ++ e) = some n) (hn : n + p.length ≤ o + x.length)
    (e' : Text) : findFrom p o (x ++ e') = some n := by
  have hpos := List.length_pos_iff.2 hp
  induction x generalizing o with
  | nil =>
    have := le_findFrom h
    simp only [List.length_nil] at hn
    omega
  | cons c x ih =>
    have hle := le_findFrom h
    have hlength : p.length ≤ (c :: x).length := by omega
    have hbegins (e : Text) : beginsWith (c :: (x ++ e)) p = beginsWith (c :: x) p := beginsWith_append hlength e
    rw [List.cons_append, findFrom, hbegins] at h ⊢
    split at h
    · next hb => rw [if_pos hb, ← h]
    · next hb =>
      rw [if_neg hb]
      exact ih h (by rw [List.length_cons] at hn; omega)

theorem find?_exchange (hp : p ≠ []) (h : find? (x ++ e) p = some n) (hn : n + p.length ≤ x.length) (e' : Text) :
    find? (x ++ e') p = some n := findFrom_exchange hp h (by rwa [Nat.zero_add]) e'

end Narration.Text
