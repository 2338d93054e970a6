import Narration.Proofs.Markup.LastModules
import Narration.Proofs.Markup.Steady

/-!
# Code between fences

* `Block.fenceEnd?_lines`, `Block.fence_closed` : code up to the line that closes it;
* `Block.exists_fence` : code is read from a line that opens it.
-/

namespace Narration.Markup.Block
open Text (EndsLine unlines)

variable {scope : Scope} {inner : Inner} {s : Stretch} {node : Node} {mark : Char} {length a stop : Nat} {ls : List Text}
  {opening closing rest : Text}

section
variable (hls : ∀ l ∈ ls, '\n' ∉ l ∧ LineForm.closesFence mark length (Text.trim l) = false) (hclosing : '\n' ∉ closing)
  (hne : closing ≠ []) (hcloses : LineForm.closesFence mark length (Text.trim closing)) (hrest : EndsLine rest)
include hls hclosing hne hcloses hrest

/-- A fence is looked for line by line. -/
theorem fenceEnd?_lines {fuel : Nat} (hfuel : ls.length < fuel) (a : Nat) :
    ∃ b, fenceEnd? mark length fuel ⟨a, unlines (ls ++ [closing]) ++ rest⟩ = some ⟨b, closing ++ rest⟩ ∧
      b + closing.length = a + (unlines (ls ++ [closing])).length := by
  induction ls generalizing fuel a with
  | nil =>
    obtain ⟨fuel, rfl⟩ := Nat.exists_eq_succ_of_ne_zero (Nat.ne_of_gt hfuel)
    refine ⟨a, ?_, by rw [List.nil_append, Text.unlines_singleton]⟩
    rw [List.nil_append, Text.unlines_singleton, fenceEnd?, if_neg (by simp [hne]), Stretch.line_mk_endsLine hclosing hrest,
      Stretch.chars_trim, if_pos hcloses]
  | cons l ls ih =>
    obtain ⟨fuel, rfl⟩ := Nat.exists_eq_succ_of_ne_zero (Nat.ne_of_gt (Nat.zero_lt_of_lt hfuel))
    obtain ⟨⟨hl, hopen⟩, hls⟩ := List.forall_mem_cons.1 hls
    obtain ⟨b, hb, hlength⟩ := ih hls (show ls.length < fuel by simpa using hfuel) (a + (l.length + 1))
    have htext : unlines (l :: ls ++ [closing]) = l ++ '\n' :: unlines (ls ++ [closing]) := Text.unlines_cons l (by simp)
    refine ⟨b, ?_, ?_⟩
    · rw [htext, List.append_assoc, List.cons_append, fenceEnd?, if_neg (by simp), Stretch.line_mk hl, Stretch.chars_trim,
        if_neg (by simp [hopen]), Stretch.afterLine_mk hl, hb]
    · rw [hlength, htext, List.length_append, List.length_cons]
      omega

/-- Code is read up to the line that closes it. -/
theorem fence_closed (hopening : '\n' ∉ opening) (scope : Scope) (a : Nat) :
    ∃ info code, fence scope ⟨a, opening ++ '\n' :: unlines (ls ++ [closing]) ++ rest⟩ mark length =
      (scope.node (.codeBlock info code) (⟨a, opening⟩ : Stretch).trim.start
          (a + (opening ++ '\n' :: unlines (ls ++ [closing])).length),
        a + (opening ++ '\n' :: unlines (ls ++ [closing])).length + min 1 rest.length) := by
  have hfuel : ls.length < (unlines (ls ++ [closing]) ++ rest).length := by
    rw [List.length_append]
    exact Nat.lt_add_right _ (Text.length_lt_unlines _ hne)
  obtain ⟨b, hb, hlength⟩ := fenceEnd?_lines hls hclosing hne hcloses hrest hfuel (a + (opening.length + 1))
  have hstop : b + closing.length = a + (opening ++ '\n' :: unlines (ls ++ [closing])).length := by
    rw [hlength, List.length_append, List.length_cons]
    omega
  rw [fence, List.append_assoc, List.cons_append, Stretch.line_mk hopening, Stretch.afterLine_mk hopening]
  dsimp only
  rw [hb]
  simp only [Stretch.line_mk_endsLine hclosing hrest, Stretch.afterLine_mk_endsLine hclosing hrest, Stretch.stop, hstop]
  exact ⟨_, _, rfl⟩

end

theorem readerOf_of_quiet?_codeBlock {t info code : Text} {n : Nat} (h : quiet? t = some (.codeBlock info code, n)) :
    ∃ mark length, readerOf true (Text.firstLine t) (isTable ⟨0, t⟩) = .fence mark length := by
  unfold quiet? at h
  generalize readerOf true (Text.firstLine t) (isTable ⟨0, t⟩) = r at h ⊢
  cases r with
  | fence mark length => exact ⟨mark, length, rfl⟩
  | modules => cases h
  | comment =>
    obtain ⟨m, -, heq⟩ := Option.map_eq_some_iff.1 h
    cases heq
  | expression =>
    obtain ⟨⟨inside, m⟩, -, heq⟩ := Option.bind_eq_some_iff.1 h
    dsimp only at heq
    split at heq <;> cases heq
  | rawLine => cases h
  | _ => cases h

/-- Code is read from a line that opens it, whatever stands below. -/
theorem exists_fence {info code : Text} (h : next scope inner true s = .ok (node, stop)) (hkind : node.kind = .codeBlock info code) :
    ∃ mark length, LineForm.fence? (Text.trim s.line.chars) = some (mark, length) ∧
      ∀ table, readerOf true s.line.chars table = .fence mark length := by
  obtain ⟨a, t⟩ := s
  obtain ⟨n, hquiet, -⟩ := quiet?_of_next h (by rw [hkind]; rfl) (by rw [hkind]; nofun)
  rw [hkind] at hquiet
  obtain ⟨mark, length, hreader⟩ := readerOf_of_quiet?_codeBlock hquiet
  refine ⟨mark, length, ?_, readerOf_isEarly hreader rfl⟩
  have hasks := readerOf_asks true (Text.firstLine t) (isTable ⟨0, t⟩)
  rw [hreader] at hasks
  cases hasks with
  | fence hfence => exact hfence

end Narration.Markup.Block
