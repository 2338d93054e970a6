import Narration.Proofs.Markup.Passage

/-!
# The last modules

* `Block.UpToModules` : blocks without content, of which modules are the last;
* `Block.exists_upToModules` : the text of such blocks;
* `Block.UpToModules.exchange` : what becomes of them when the lines below are exchanged;
* `Block.UpToModules.enter` : text may enter below a blank line.
-/

namespace Narration.Markup.Block
open Text (firstLine EndsLine)
open Player (isContent)

/-- Blocks without content in `z` and modules in `m` after them, when `r` follows. -/
structure UpToModules (r z m : Text) (ks : List Kind) : Prop where
  before : Passes (m ++ r) z ks
  nonempty : m ≠ []
  line : Text.allBlank (firstLine (m ++ r)) = false
  reader : readerOf true (firstLine (m ++ r)) (isTable ⟨0, m ++ r⟩) = .modules
  length : modulesLength 0 0 (m ++ r) = m.length

variable {r e e' z m : Text} {ks : List Kind} {a : Nat}

theorem UpToModules.passes (h : UpToModules r z m ks) : Passes r (z ++ m) (ks ++ [.modules (Text.trimEnd m)]) := by
  have hquiet : quiet? (m ++ r) = some (.modules (Text.trimEnd m), m.length) := by
    rw [quiet?, h.reader, Reader.quiet?, h.length, List.take_left]
  have hblock : Passes r (m ++ []) [.modules (Text.trimEnd m)] := .block h.nonempty h.line hquiet .nil
  rw [List.append_nil] at hblock
  exact h.before.append hblock

/-! ## Reading up to modules -/

theorem fence_kind (scope : Scope) (s : Stretch) (mark : Char) (length : Nat) :
    ∃ info code, (fence scope s mark length).1.kind = .codeBlock info code := by
  unfold fence
  dsimp only
  split <;> exact ⟨_, _, rfl⟩

/-- A block of modules is read by the reader of modules. -/
theorem readerOf_of_quiet?_modules {t source : Text} {n : Nat} (h : quiet? t = some (.modules source, n)) :
    readerOf true (firstLine t) (isTable ⟨0, t⟩) = .modules ∧ source = Text.trimEnd (t.take n) ∧
      modulesLength 0 0 t = n := by
  unfold quiet? at h
  generalize readerOf true (firstLine t) (isTable ⟨0, t⟩) = r at h ⊢
  cases r with
  | modules =>
    cases h
    exact ⟨rfl, rfl, rfl⟩
  | fence mark length =>
    obtain ⟨info, code, hkind⟩ := fence_kind ⟨[], []⟩ ⟨0, t⟩ mark length
    have heq := (Prod.mk.inj (Option.some.inj h)).1
    rw [hkind] at heq
    cases heq
  | comment =>
    obtain ⟨m, -, heq⟩ := Option.map_eq_some_iff.1 h
    cases heq
  | expression =>
    obtain ⟨⟨inside, m⟩, -, heq⟩ := Option.bind_eq_some_iff.1 h
    dsimp only at heq
    split at heq <;> cases heq
  | rawLine => cases h
  | _ => cases h

variable {scope : Scope} {inner : Inner} {o : Nat}

/-- The text up to modules, when only blocks without content come before them. -/
theorem exists_upToModules {text t source : Text} {n : Node} {qs ms : List Node}
    (h : Reads scope inner true ⟨o, t⟩ (qs ++ n :: ms)) (ht : text.drop o = t)
    (hcontent : ∀ q ∈ qs, isContent q.kind = false) (hclear : ∀ q ∈ qs, isClear text q) (hn : n.kind = .modules source) :
    ∃ z m e, t = z ++ m ++ e ∧ EndsLine e ∧ UpToModules e z m (qs.map Node.kind) ∧ source = Text.trimEnd m ∧
      m.getLast? ≠ some '\n' ∧ n.position = some (scope.position (o + z.length) (o + z.length + m.length)) ∧
      Reads scope inner true ⟨o + (z ++ m).length, e⟩ ms := by
  obtain ⟨p, c, rfl, hp, hr, -⟩ := exists_passes h ht hcontent hclear
  obtain ⟨b, d, stop, rfl, hb, -, hd, hline, hnext, hlt, hrest⟩ := hr.head
  have hkind : isContent n.kind = false := by rw [hn]; rfl
  have hnoraw : ∀ source, n.kind = .raw source → source.head? = some '<' → LineForm.isComment source := by
    intro _ hraw
    rw [hn] at hraw
    cases hraw
  obtain ⟨k, hquiet, rfl, hk⟩ := quiet?_of_next hnext hkind hnoraw
  rw [hn] at hquiet
  obtain ⟨hreader, rfl, hlength⟩ := readerOf_of_quiet?_modules hquiet
  obtain ⟨hend, hlast⟩ := modulesLength_endsLine 0 d
  rw [hlength] at hend hlast
  have hplace : o + (p ++ b).length = o + p.length + b.length := by rw [List.length_append, Nat.add_assoc]
  have hm : (d.take k).length = k := List.length_take_of_le hk
  have hd' : d = d.take k ++ d.drop k := (List.take_append_drop k d).symm
  rw [next_mk, hreader, Reader.read, modules] at hnext
  have hposition : n.position = some (scope.position (o + (p ++ b).length) (o + (p ++ b).length + (d.take k).length)) := by
    have heq := congrArg Node.position (Prod.mk.inj (Except.ok.inj hnext)).1
    rw [← heq, hplace, hlength]
    rfl
  refine ⟨p ++ b, d.take k, d.drop k, by simp, hend, ?_, rfl, hlast, hposition, ?_⟩
  · have happend := hp.append hb
    rw [List.append_nil, hd'] at happend
    refine ⟨happend, ?_, ?_, ?_, ?_⟩
    · rw [ne_eq, ← List.length_eq_zero_iff, hm]
      omega
    · rwa [← hd']
    · rwa [← hd']
    · rw [← hd', hlength, hm]
  · rw [since_mk _ _ _ hk] at hrest
    have hstart : o + (p ++ b ++ d.take k).length = o + p.length + b.length + k := by
      rw [List.length_append, List.length_append, hm, Nat.add_assoc, Nat.add_assoc, Nat.add_assoc]
    rw [hstart]
    exact hrest

/-! ## Exchanging the lines below -/

/-- A table begins in the lines above if it does so whatever the lines below are. -/
theorem isTable_append_endsLine {y : Text} (hy : '\n' ∈ y) (hm : m ≠ []) (he : EndsLine e) (he' : EndsLine e')
    (h : isTable ⟨0, y ++ (m ++ e')⟩) : isTable ⟨0, y ++ (m ++ e)⟩ := by
  obtain ⟨l, v, rfl, hl⟩ := Text.firstLine_of_mem hy
  unfold isTable at h ⊢
  rw [List.append_assoc, List.cons_append, Stretch.line_mk hl, Stretch.afterLine_mk hl, ← List.append_assoc] at h
  rw [List.append_assoc, List.cons_append, Stretch.line_mk hl, Stretch.afterLine_mk hl, ← List.append_assoc]
  simp only [Bool.and_eq_true, Stretch.chars_trim, Stretch.chars_line, Bool.not_eq_eq_eq_not, Bool.not_true] at h ⊢
  obtain ⟨⟨hbar, -⟩, hrule⟩ := h
  have hsame {e : Text} (he : EndsLine e) : (v ++ m ++ e).takeWhile (· ≠ '\n') = firstLine (v ++ m) :=
    he.firstLine_append _
  rw [hsame he'] at hrule
  rw [hsame he]
  exact ⟨⟨hbar, by simp [hm]⟩, hrule⟩

/-- The lines below the last modules are exchanged. All stays, or some modules now take in everything up to a place in
the new lines. -/
theorem UpToModules.exchange (h : UpToModules e z m ks) (he : EndsLine e) (he' : EndsLine e')
    (hmodules : ∀ y, y <:+ z ++ m → modulesLength 0 0 (y ++ e) ≤ y.length →
      modulesLength 0 0 (y ++ e') = modulesLength 0 0 (y ++ e) ∨ modulesLength 0 0 (y ++ e') = y.length + a) :
    UpToModules e' z m ks ∨ ∃ u y ks', z ++ m = u ++ y ∧ y ≠ [] ∧ Passes (y ++ e') u ks' ∧ ks' ⊆ ks ∧
      Text.allBlank (firstLine (y ++ e')) = false ∧
      readerOf true (firstLine (y ++ e')) (isTable ⟨0, y ++ e'⟩) = .modules ∧
      modulesLength 0 0 (y ++ e') = y.length + a := by
  have hsame (y : Text) : firstLine (y ++ (m ++ e)) = firstLine (y ++ (m ++ e')) := by
    rw [← List.append_assoc, ← List.append_assoc, he.firstLine_append, he'.firstLine_append]
  have hextent (y : Text) (hy : y <:+ z) (hn : modulesLength 0 0 (y ++ (m ++ e)) ≤ y.length) :
      modulesLength 0 0 (y ++ (m ++ e')) = modulesLength 0 0 (y ++ (m ++ e)) ∨
        modulesLength 0 0 (y ++ (m ++ e')) = y.length + (m.length + a) := by
    obtain ⟨u, rfl⟩ := hy
    have hall := hmodules (y ++ m) ⟨u, (List.append_assoc u y m).symm⟩
    rw [List.append_assoc, List.append_assoc, List.length_append] at hall
    rw [← Nat.add_assoc]
    exact hall (Nat.le_trans hn (Nat.le_add_right _ _))
  have hblank : Text.allBlank (firstLine (m ++ e)) → Text.allBlank (firstLine (m ++ e')) := by
    rw [he.firstLine_append, he'.firstLine_append]
    exact id
  rcases h.before.exchange (by simp [h.nonempty]) (fun y _ _ => hsame y) hblank hextent
    (fun y _ hy => isTable_append_endsLine hy h.nonempty he he') with hz | ⟨u, y, ks', hu, hne, hpasses, hks, hline, hreader, hlength⟩
  · have hline : Text.allBlank (firstLine (m ++ e')) = false := by
      rw [he'.firstLine_append, ← he.firstLine_append m]
      exact h.line
    have hreader : readerOf true (firstLine (m ++ e')) (isTable ⟨0, m ++ e'⟩) = .modules := by
      have := readerOf_isEarly h.reader rfl (isTable ⟨0, m ++ e'⟩)
      rwa [he.firstLine_append, ← he'.firstLine_append] at this
    have hm := hmodules m (List.suffix_append z m) (Nat.le_of_eq h.length)
    rw [h.length] at hm
    rcases hm with hm | hm
    · exact .inl ⟨hz, h.nonempty, hline, hreader, hm⟩
    · exact .inr ⟨z, m, ks, rfl, h.nonempty, hz, List.Subset.refl _, hline, hreader, hm⟩
  · refine .inr ⟨u, y ++ m, ks', by rw [hu, List.append_assoc], by simp [hne], ?_, hks, ?_, ?_, ?_⟩
    · rwa [List.append_assoc]
    · rwa [List.append_assoc]
    · rwa [List.append_assoc]
    · rw [List.append_assoc, hlength, List.length_append, Nat.add_assoc]

/-- Text enters below a blank line after the last modules. -/
theorem UpToModules.enter (h : UpToModules e z m ks) (he : EndsLine e) {w : Text} (hw : '\x60' ∉ w)
    (hlast : w.getLast? ≠ some '\\') : UpToModules ('\n' :: '\n' :: (w ++ e)) z m ks := by
  have hends : EndsLine ('\n' :: '\n' :: (w ++ e)) := .inr ⟨_, rfl⟩
  have hnone {c : Char} (hc : Braces.isQuote c) (hback : c = '\x60' → Braces.stringTail? c e = none) :
      Braces.stringTail? c ('\n' :: (w ++ e)) = none := by
    by_cases hc' : c = '\x60'
    · subst hc'
      rw [Braces.stringTail?_cons (by decide), if_neg (by decide), if_neg (by decide),
        (Braces.stringTail?_backtick hw hlast _).2 (hback rfl), Option.map_none]
    · refine Braces.stringTail?_newline hc' ?_ _
      rintro rfl
      cases hc
  have hmodules (y : Text) (hy : y <:+ z ++ m) (hn : modulesLength 0 0 (y ++ e) ≤ y.length) :
      modulesLength 0 0 (y ++ '\n' :: '\n' :: (w ++ e)) = modulesLength 0 0 (y ++ e) ∨
        modulesLength 0 0 (y ++ '\n' :: '\n' :: (w ++ e)) = y.length + (('\n' :: '\n' :: (w ++ e)).length + 1) := by
    refine modulesLength_exchange (w := z ++ m) ?_ ?_ ?_ ?_ hy hn
    · intro depth _
      left
      rw [modulesLength_newline, if_pos]
      rw [endsModules, Bool.or_eq_true]
      exact .inr rfl
    · intro c y hc _ hopen
      left
      rcases stringTail?_open_lines hopen he hc ('\n' :: (w ++ e)) with h | ⟨hback, h⟩
      · exact h
      · rw [h, hnone hc hback, Option.map_none]
    · intro y _
      left
      rw [he.firstLine_append, hends.firstLine_append]
    · intro _
      rfl
  rcases h.exchange he hends hmodules with h | ⟨u, y, ks', -, -, -, -, -, -, hlength⟩
  · exact h
  · have := modulesLength_le 0 (y ++ '\n' :: '\n' :: (w ++ e))
    rw [hlength, List.length_append] at this
    omega

end Narration.Markup.Block
