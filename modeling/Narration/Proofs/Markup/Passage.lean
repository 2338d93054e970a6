import Narration.Proofs.Markup.Quiet
import Narration.Proofs.Markup.Sequence

/-!
# Passing over blocks without content

* `Block.Passes` : text that is read as blocks without content, up to what follows it;
* `Block.Passes.reads` : what such a text adds to the blocks that follow;
* `Block.exists_passes` : the text before a block, when only blocks without content come before it;
* `Block.Passes.exchange` : the same when what follows is exchanged.
-/

namespace Narration.Markup.Block
open Text (firstLine EndsLine)
open Player (isContent)

/-- Text that is read as blank lines and as blocks without content, of these kinds, when `r` follows it. -/
inductive Passes (r : Text) : Text → List Kind → Prop
  | nil : Passes r [] []
  | blank {l p : Text} {ks : List Kind} (hl : '\n' ∉ l) (hblank : Text.allBlank l) (h : Passes r p ks) :
      Passes r (l ++ '\n' :: p) ks
  | block {q p : Text} {k : Kind} {ks : List Kind} (hne : q ≠ [])
      (hline : Text.allBlank (firstLine (q ++ (p ++ r))) = false)
      (hq : quiet? (q ++ (p ++ r)) = some (k, q.length)) (h : Passes r p ks) : Passes r (q ++ p) (k :: ks)

variable {scope : Scope} {inner : Inner} {a : Nat} {r r' p p' t : Text} {ks ks' : List Kind}

theorem Passes.append (h : Passes (p' ++ r) p ks) (h' : Passes r p' ks') : Passes r (p ++ p') (ks ++ ks') := by
  induction h with
  | nil => exact h'
  | blank hl hblank _ ih =>
    rw [List.append_assoc, List.cons_append]
    exact .blank hl hblank ih
  | block hne hline hq _ ih =>
    rw [List.append_assoc]
    rw [← List.append_assoc _ p' r] at hline hq
    exact .block hne hline hq ih

/-- A line feed at the front is a blank line. -/
theorem Passes.tail (h : Passes r ('\n' :: p) ks) : Passes r p ks := by
  generalize hq : '\n' :: p = q at h
  cases h with
  | nil => cases hq
  | @blank l v _ hl _ h =>
    cases l with
    | nil =>
      cases hq
      exact h
    | cons c l =>
      obtain ⟨rfl, -⟩ := List.cons.inj hq
      exact absurd List.mem_cons_self hl
  | @block w v _ _ hne hline _ _ =>
    cases w with
    | nil => exact absurd rfl hne
    | cons c w =>
      obtain ⟨rfl, -⟩ := List.cons.inj hq
      cases hline

/-- Blank lines end with a line feed. -/
theorem Passes.getLast?_eq (h : Passes r p []) : p = [] ∨ p.getLast? = some '\n' := by
  generalize hks : ([] : List Kind) = ks at h
  induction h with
  | nil => exact .inl rfl
  | block => cases hks
  | @blank l p ks _ _ _ ih =>
    right
    rcases ih hks with rfl | hp
    · simp
    · rw [List.getLast?_append, List.getLast?_cons, hp]
      rfl

theorem lineBlank_mk (a : Nat) (t : Text) : (⟨a, t⟩ : Stretch).lineBlank = Text.allBlank (firstLine t) := rfl

theorem since_mk (a n : Nat) (t : Text) (hn : n ≤ t.length) :
    (⟨a, t⟩ : Stretch).since (a + n) = ⟨a + n, t.drop n⟩ := by
  rw [Stretch.since, Nat.add_sub_cancel_left, Stretch.drop, Nat.min_eq_left hn]

theorem since_append (o : Nat) (t u : Text) : (⟨o, t ++ u⟩ : Stretch).since (o + t.length) = ⟨o + t.length, u⟩ := by
  rw [since_mk _ _ _ (by simp), List.drop_left]

/-- Blocks without content stand before the blocks of what follows. -/
theorem Passes.reads (h : Passes r p ks) {ms : List Node} (hr : Reads scope inner true ⟨a + p.length, r⟩ ms) :
    ∃ ns, Reads scope inner true ⟨a, p ++ r⟩ (ns ++ ms) ∧ ns.map Node.kind = ks ∧
      ∀ n ∈ ns, n.children = [] ∧ n.position.isSome := by
  induction h generalizing a with
  | nil => exact ⟨[], hr, rfl, nofun⟩
  | @blank l p ks hl hblank _ ih =>
    have hlength : a + (l ++ '\n' :: p).length = a + (l.length + 1) + p.length := by
      rw [List.length_append, List.length_cons]
      omega
    rw [hlength] at hr
    obtain ⟨ns, hns, hkinds, hleaf⟩ := ih hr
    refine ⟨ns, ?_, hkinds, hleaf⟩
    rw [List.append_assoc, List.cons_append, reads_blank (by simp), Stretch.afterLine_mk hl]
    · exact hns
    · rw [lineBlank_mk, firstLine, Text.takeWhile_line hl]
      exact hblank
  | @block q p k ks hne hline hq _ ih =>
    rw [List.length_append, ← Nat.add_assoc] at hr
    obtain ⟨ns, hns, hkinds, hleaf⟩ := ih hr
    obtain ⟨position, hnext⟩ := next_of_quiet? hq scope inner a
    refine ⟨.mk k [] (some position) :: ns, ?_, congrArg _ hkinds, ?_⟩
    · rw [List.append_assoc, reads_block (by simp [hne]) (by rw [lineBlank_mk]; exact hline)]
      refine ⟨_, _, _, hnext, ?_, rfl⟩
      rw [since_mk _ _ _ (by simp), List.drop_left]
      exact hns
    · intro n hn
      rcases List.mem_cons.1 hn with rfl | hn
      · exact ⟨rfl, rfl⟩
      · exact hleaf n hn

/-! ## Exchanging what follows -/

/-- Blank lines are blank whatever follows them. -/
theorem Passes.blanks (h : Passes r p []) (r' : Text) : Passes r' p [] := by
  generalize hks : ([] : List Kind) = ks at h
  induction h with
  | nil => exact .nil
  | block => cases hks
  | blank hl hblank _ ih => exact hks ▸ .blank hl hblank (hks ▸ ih hks)

theorem Passes.reads_blanks (h : Passes r p []) (hr : Reads scope inner true ⟨a + p.length, r⟩ ns) :
    Reads scope inner true ⟨a, p ++ r⟩ ns := by
  obtain ⟨ms, hms, hkinds, -⟩ := h.reads hr
  rw [List.map_eq_nil_iff.1 hkinds] at hms
  exact hms

/-- What follows blocks without content is exchanged. They are the same, if their lines are, and if modules end where
they did; modules that now take in all up to some place in what follows end the blocks. -/
theorem Passes.exchange {n : Nat} (h : Passes r p ks) (hr : r ≠ [])
    (hfirst : ∀ y, y ≠ [] → y <:+ p → firstLine (y ++ r) = firstLine (y ++ r'))
    (hblank : Text.allBlank (firstLine r) → Text.allBlank (firstLine r'))
    (hmodules : ∀ y, y <:+ p → modulesLength 0 0 (y ++ r) ≤ y.length →
      modulesLength 0 0 (y ++ r') = modulesLength 0 0 (y ++ r) ∨ modulesLength 0 0 (y ++ r') = y.length + n)
    (htable : ∀ y, y <:+ p → '\n' ∈ y → isTable ⟨0, y ++ r'⟩ → isTable ⟨0, y ++ r⟩) :
    Passes r' p ks ∨ ∃ u y ks', p = u ++ y ∧ y ≠ [] ∧ Passes (y ++ r') u ks' ∧ ks' ⊆ ks ∧
      Text.allBlank (firstLine (y ++ r')) = false ∧
      readerOf true (firstLine (y ++ r')) (isTable ⟨0, y ++ r'⟩) = .modules ∧
      modulesLength 0 0 (y ++ r') = y.length + n := by
  induction h with
  | nil => exact .inl .nil
  | @blank l p ks hl hb _ ih =>
    have hsuffix : p <:+ l ++ '\n' :: p := ⟨l ++ ['\n'], by simp⟩
    rcases ih (fun y hne hy => hfirst y hne (hy.trans hsuffix)) (fun y hy => hmodules y (hy.trans hsuffix))
      (fun y hy => htable y (hy.trans hsuffix)) with h | ⟨u, y, ks', rfl, hne, hu, hks, hline, hq⟩
    · exact .inl (.blank hl hb h)
    · exact .inr ⟨l ++ '\n' :: u, y, ks', by simp, hne, .blank hl hb hu, hks, hline, hq⟩
  | @block q p k ks hne hline hq hp ih =>
    have hsuffix : p <:+ q ++ p := List.suffix_append q p
    have hlines : firstLine (q ++ (p ++ r)) = firstLine (q ++ (p ++ r')) := by
      rw [← List.append_assoc, ← List.append_assoc]
      exact hfirst _ (by simp [hne]) (List.suffix_refl _)
    by_cases habsorb : readerOf true (firstLine (q ++ (p ++ r))) (isTable ⟨0, q ++ (p ++ r)⟩) = .modules ∧
        modulesLength 0 0 (q ++ (p ++ r')) ≠ q.length
    · obtain ⟨hreader, hmod⟩ := habsorb
      have hlength : modulesLength 0 0 (q ++ (p ++ r)) = q.length := by
        rw [quiet?, hreader] at hq
        exact (Prod.mk.inj (Option.some.inj hq)).2
      have hmod' : modulesLength 0 0 (q ++ p ++ r') = (q ++ p).length + n := by
        have hall := hmodules (q ++ p) (List.suffix_refl _)
        rw [List.append_assoc, List.append_assoc, hlength] at hall
        rw [List.append_assoc]
        exact (hall (by simp)).resolve_left hmod
      refine .inr ⟨[], q ++ p, [], rfl, by simp [hne], .nil, List.nil_subset _, ?_, ?_, hmod'⟩
      · rw [List.append_assoc, ← hlines]
        exact hline
      · rw [hlines] at hreader
        rw [← List.append_assoc] at hreader
        exact readerOf_isEarly hreader rfl _
    · have hq' : quiet? (q ++ (p ++ r')) = some (k, q.length) := by
        refine quiet?_exchange hq (by simp [hr]) hlines ?_ ?_ ?_
        · by_cases hp : p = []
          · rw [hp]
            exact hblank
          · rw [hfirst p hp hsuffix]
            exact id
        · intro hreader
          by_contra hmod
          exact habsorb ⟨hreader, hmod⟩
        · intro hmem
          rw [← List.append_assoc, ← List.append_assoc]
          exact htable _ (List.suffix_refl _) (List.mem_append_left _ hmem)
      rcases ih (fun y hne hy => hfirst y hne (hy.trans hsuffix)) (fun y hy => hmodules y (hy.trans hsuffix))
        (fun y hy => htable y (hy.trans hsuffix)) with h | ⟨u, y, ks', rfl, hne', hu, hks, hline', hy⟩
      · exact .inl (.block hne (by rw [← hlines]; exact hline) hq' h)
      · have hline : Text.allBlank (firstLine (q ++ (u ++ (y ++ r')))) = false := by
          rw [← List.append_assoc u, ← hlines]
          exact hline
        rw [List.append_assoc] at hq'
        exact .inr ⟨q ++ u, y, k :: ks', by simp, hne', .block hne hline hq' hu, List.cons_subset_cons k hks, hline', hy⟩

theorem not_isTable_of_rule {y : Text} (hlast : y.getLast? = some '\n')
    (hrule : LineForm.isTableRule (Text.trim (firstLine r')) = false) (h : isTable ⟨0, y ++ r'⟩) :
    isTable ⟨0, y ++ r⟩ := by
  obtain ⟨l, v, rfl, hl⟩ := Text.firstLine_of_mem (List.mem_of_getLast? hlast)
  unfold isTable at h ⊢
  rw [List.append_assoc, List.cons_append, Stretch.line_mk hl, Stretch.afterLine_mk hl] at h
  rw [List.append_assoc, List.cons_append, Stretch.line_mk hl, Stretch.afterLine_mk hl]
  simp only [Bool.and_eq_true, Stretch.chars_trim, Stretch.chars_line, Bool.not_eq_eq_eq_not, Bool.not_true] at h ⊢
  obtain ⟨⟨hbar, -⟩, hsecond⟩ := h
  by_cases hv : v = []
  · rw [hv, List.nil_append] at hsecond
    rw [hsecond] at hrule
    cases hrule
  · rw [List.getLast?_append_of_ne_nil _ (by simp), List.getLast?_cons_of_ne_nil hv] at hlast
    have hmem := List.mem_of_getLast? hlast
    have hsame (e : Text) : (v ++ e).takeWhile (· ≠ '\n') = firstLine v := Text.firstLine_append_of_mem hmem e
    rw [hsame] at hsecond ⊢
    exact ⟨⟨hbar, by simp [hv]⟩, hsecond⟩

/-- Blocks without content are the same when text is put between them and a line that is not blank. -/
theorem Passes.exchange_line {c : Text} (h : Passes c p ks) (hc : Text.allBlank (firstLine c) = false)
    (hp : p = [] ∨ p.getLast? = some '\n') (hmem : '\n' ∈ r')
    (hrule : LineForm.isTableRule (Text.trim (firstLine r')) = false)
    (hplain : ∀ d ∈ firstLine r', Braces.isQuote d = false ∧ d ≠ '\\')
    (hback : Braces.stringTail? '\x60' c = none → Braces.stringTail? '\x60' r' = none) : Passes r' p ks := by
  obtain ⟨d, v, rfl, hd⟩ : ∃ d v, c = d :: v ∧ d ≠ '\n' := by
    cases c with
    | nil => cases hc
    | cons d v =>
      refine ⟨d, v, rfl, ?_⟩
      rintro rfl
      cases hc
  have hend {y : Text} (hne : y ≠ []) (hy : y <:+ p) : '\n' ∈ y ∧ y.getLast? = some '\n' := by
    obtain ⟨u, rfl⟩ := hy
    have hlast := hp.resolve_left (by simp [hne])
    rw [List.getLast?_append_of_ne_nil _ hne] at hlast
    exact ⟨List.mem_of_getLast? hlast, hlast⟩
  have hnone {q : Char} (hq : Braces.isQuote q) (h : Braces.stringTail? q (d :: v) = none) :
      Braces.stringTail? q r' = none := by
    by_cases hqb : q = '\x60'
    · subst hqb
      exact hback h
    · obtain ⟨l, w, rfl, hl⟩ := Text.firstLine_of_mem hmem
      rw [firstLine, Text.takeWhile_line hl] at hplain
      rw [Braces.stringTail?_plain _ _ (.inr hl), Braces.stringTail?_newline hqb, Option.map_none]
      · rintro rfl
        cases hq
      · intro hm
        rw [(hplain q hm).1] at hq
        cases hq
      · intro hm
        exact (hplain _ hm).2 rfl
  have hmodules (y : Text) (hy : y <:+ p) (hn : modulesLength 0 0 (y ++ d :: v) ≤ y.length) :
      modulesLength 0 0 (y ++ r') = modulesLength 0 0 (y ++ d :: v) ∨
        modulesLength 0 0 (y ++ r') = y.length + (r'.length + 1) := by
    refine modulesLength_exchange (w := p) ?_ ?_ ?_ ?_ hy hn
    · intro depth hzero
      exact absurd hzero (modulesLength_pos depth v hd).ne'
    · intro q y hq hy hopen
      left
      rcases Braces.stringTail?_open hopen r' with h | ⟨h, h'⟩ | ⟨hlast, -⟩
      · exact h
      · rw [h', hnone hq h, Option.map_none]
      · by_cases hne : y = []
        · rw [hne] at hlast
          cases hlast
        · rw [(hend hne hy).2] at hlast
          cases hlast
    · intro y hy
      by_cases hne : y = []
      · exact .inr ⟨hne, hc, fun depth => (modulesLength_pos depth v hd).ne'⟩
      · left
        rw [Text.firstLine_append_of_mem (hend hne hy).1, Text.firstLine_append_of_mem (hend hne hy).1]
    · intro hnil
      rw [hnil] at hc
      cases hc
  have hfirst (y : Text) (hne : y ≠ []) (hy : y <:+ p) : firstLine (y ++ d :: v) = firstLine (y ++ r') := by
    rw [Text.firstLine_append_of_mem (hend hne hy).1, Text.firstLine_append_of_mem (hend hne hy).1]
  have htable (y : Text) (hy : y <:+ p) (hmem : '\n' ∈ y) (h : isTable ⟨0, y ++ r'⟩) : isTable ⟨0, y ++ d :: v⟩ :=
    not_isTable_of_rule (hend (List.ne_nil_of_mem hmem) hy).2 hrule h
  rcases h.exchange (by simp) hfirst (by simp [hc]) hmodules htable with h | ⟨u, y, ks', -, -, -, -, -, -, hlength⟩
  · exact h
  · have := modulesLength_le 0 (y ++ r')
    rw [hlength, List.length_append] at this
    omega

/-! ## Splitting -/

/-- What follows a line begins after its line feed, or nothing follows. -/
theorem exists_afterLine (a : Nat) (t : Text) : ∃ l v, t = l ++ v ∧ (⟨a, t⟩ : Stretch).afterLine = ⟨a + l.length, v⟩ ∧
    (l.getLast? = some '\n' ∨ v = []) := by
  by_cases ht : '\n' ∈ t
  · obtain ⟨l, v, rfl, hl⟩ := Text.firstLine_of_mem ht
    refine ⟨l ++ ['\n'], v, by simp, ?_, .inl (by simp)⟩
    rw [Stretch.afterLine_mk hl, List.length_append, List.length_singleton]
  · exact ⟨t, [], (List.append_nil t).symm, Stretch.afterLine_mk_last ht, .inr rfl⟩

theorem exists_fenceEnd {mark : Char} {length fuel : Nat} {closing : Stretch}
    (h : fenceEnd? mark length fuel ⟨a, t⟩ = some closing) : ∃ u v, t = u ++ v ∧ closing = ⟨a + u.length, v⟩ := by
  induction fuel generalizing a t with
  | zero => cases h
  | succ fuel ih =>
    unfold fenceEnd? at h
    split at h
    · cases h
    · split at h
      · cases h
        exact ⟨[], t, rfl, rfl⟩
      · obtain ⟨l, v, rfl, hafter, -⟩ := exists_afterLine a t
        rw [hafter] at h
        obtain ⟨u, w, rfl, rfl⟩ := ih h
        exact ⟨l ++ u, w, by rw [List.append_assoc], by rw [List.length_append, Nat.add_assoc]⟩

/-- A code block ends with a line. -/
theorem fence_endsLine {mark : Char} {length : Nat} {q e : Text}
    (h : (fence ⟨[], []⟩ ⟨0, q ++ e⟩ mark length).2 = q.length) : q.getLast? = some '\n' ∨ e = [] := by
  unfold fence at h
  dsimp only at h
  split at h
  · next closing hclosing =>
    obtain ⟨l, v, hv, hafter, hl⟩ := exists_afterLine 0 (q ++ e)
    rw [hafter] at hclosing
    obtain ⟨u, w, rfl, rfl⟩ := exists_fenceEnd hclosing
    obtain ⟨m, x, rfl, hafter', hm⟩ := exists_afterLine (0 + l.length + u.length) w
    rw [hafter'] at h
    have hq : l ++ u ++ m = q ∧ x = e := by
      refine List.append_inj (by rw [hv]; simp) ?_
      simp only [List.length_append]
      dsimp only at h
      omega
    obtain ⟨rfl, rfl⟩ := hq
    rcases hm with hm | rfl
    · left
      rw [List.getLast?_append, hm]
      rfl
    · exact .inr rfl
  · right
    rw [Stretch.stop, List.length_append] at h
    exact List.length_eq_zero_iff.1 (by omega)

theorem isComment_of_readerOf {top table : Bool} {line : Text} (h : readerOf top line table = .comment) :
    LineForm.isComment (Text.trim line) := by
  cases hearly : earlyReader? top line with
  | some r =>
    rw [readerOf, hearly, Option.getD_some] at h
    subst h
    simp only [earlyReader?] at hearly
    repeat' split at hearly
    all_goals first | assumption | cases hearly
  | none =>
    rw [readerOf, hearly, Option.getD_none] at h
    simp only [lateReader] at h
    repeat' split at h
    all_goals cases h

/-- A comment is markup that begins with a bracket and ends where reading goes on. -/
theorem exists_comment {node : Node} {stop : Nat} (h : next scope inner true ⟨a, t⟩ = .ok (node, stop))
    (hcontent : isContent node.kind = false)
    (hreader : readerOf true (firstLine t) (isTable ⟨0, t⟩) = .comment) :
    ∃ source p, node.kind = .raw source ∧ source.head? = some '<' ∧ node.position = some p ∧ p.stop = stop := by
  rw [next_mk, hreader, Reader.read, trimStart_mk] at h
  cases hr : comment? scope ⟨a + Text.indent t, Text.trimStart t⟩ with
  | none =>
    rw [hr, orParagraph] at h
    rw [isContent_of_paragraph h] at hcontent
    cases hcontent
  | some r =>
    rw [hr] at h
    cases h
    obtain ⟨n, hn, hsource⟩ := Option.bind_eq_some_iff.1 hr
    cases hsource
    refine ⟨_, _, rfl, ?_, rfl, rfl⟩
    have hfirst := Text.head?_of_trimEnd (LineForm.head?_of_isComment (isComment_of_readerOf hreader))
    obtain ⟨v, hv, -⟩ := Text.exists_afterFirstLine t
    have hnot : Text.allBlank (firstLine t) = false := by
      rw [← Bool.not_eq_true]
      intro hblank
      rw [Text.trimStart, Text.dropWhile_all (List.all_eq_true.1 hblank)] at hfirst
      cases hfirst
    rw [Stretch.chars_take, hv, Text.trimStart_append_of_not_allBlank hnot, List.head?_take, if_neg (by omega),
      List.head?_append, hfirst]
    rfl

/-- A block without content ends with its line, if a comment does. -/
theorem quiet?_endsLine {q e : Text} {k : Kind} (h : quiet? (q ++ e) = some (k, q.length))
    (hcomment : readerOf true (firstLine (q ++ e)) (isTable ⟨0, q ++ e⟩) = .comment → Text.allBlank (firstLine e)) :
    q.getLast? = some '\n' ∨ Text.allBlank (firstLine e) := by
  unfold quiet? at h
  generalize hreader : readerOf true (firstLine (q ++ e)) (isTable ⟨0, q ++ e⟩) = r at h
  cases r with
  | modules =>
    have hlength : modulesLength 0 0 (q ++ e) = q.length := (Prod.mk.inj (Option.some.inj h)).2
    obtain ⟨hend, -⟩ := modulesLength_endsLine 0 (q ++ e)
    rw [hlength, List.drop_left] at hend
    right
    rcases hend with rfl | ⟨v, rfl⟩ <;> rfl
  | fence mark length =>
    have hlength : (fence ⟨[], []⟩ ⟨0, q ++ e⟩ mark length).2 = q.length := (Prod.mk.inj (Option.some.inj h)).2
    rcases fence_endsLine hlength with hend | rfl
    · exact .inl hend
    · exact .inr rfl
  | comment => exact .inr (hcomment hreader)
  | expression =>
    right
    obtain ⟨⟨source, m⟩, hm, hk⟩ := Option.bind_eq_some_iff.1 h
    dsimp only at hk
    split at hk
    · next hblank =>
      have hlength := (Prod.mk.inj (Option.some.inj hk)).2
      have hindent := congrArg List.length (Text.drop_indent (q ++ e))
      rw [List.length_drop, List.length_append] at hindent
      by_cases hm : m ≤ (Text.trimStart (q ++ e)).length
      · have hdrop : (Text.trimStart (q ++ e)).drop m = e := by
          rw [← Text.drop_indent, List.drop_drop]
          rw [Nat.min_eq_left hm] at hlength
          rw [hlength, List.drop_left]
        rwa [hdrop] at hblank
      · have he : e.length = 0 := by omega
        rw [List.length_eq_zero_iff.1 he]
        rfl
    · cases hk
  | rawLine =>
    have hlength : min ((firstLine (q ++ e)).length + 1) (q ++ e).length = q.length :=
      (Prod.mk.inj (Option.some.inj h)).2
    obtain ⟨l, v, hv, hafter, hl⟩ := exists_afterLine 0 (q ++ e)
    have hstart := congrArg Stretch.start hafter
    simp only [Stretch.afterLine, Stretch.start_drop, Stretch.chars_line, Nat.zero_add] at hstart
    have hq : l = q ∧ v = e := List.append_inj hv.symm (by rw [← hstart]; exact hlength)
    obtain ⟨rfl, rfl⟩ := hq
    rcases hl with hl | rfl
    · exact .inl hl
    · exact .inr rfl
  | _ => cases h

/-- Blank lines before a block are passed over. -/
theorem Reads.head {n : Node} {ms : List Node} (h : Reads scope inner true ⟨a, t⟩ (n :: ms)) :
    ∃ b c stop, t = b ++ c ∧ Passes c b [] ∧ (b = [] ∨ b.getLast? = some '\n') ∧ c ≠ [] ∧
      Text.allBlank (firstLine c) = false ∧ next scope inner true ⟨a + b.length, c⟩ = .ok (n, stop) ∧
      a + b.length < stop ∧ Reads scope inner true ((⟨a + b.length, c⟩ : Stretch).since stop) ms := by
  induction hl : t.length using Nat.strongRecOn generalizing a t with
  | _ l ih =>
    subst hl
    by_cases ht : t = []
    · cases (reads_nil ht).1 h
    · cases hblank : Text.allBlank (firstLine t) with
      | false =>
        obtain ⟨node, stop, ms', hnext, hrest, heq⟩ := (reads_block ht (by rw [lineBlank_mk, hblank])).1 h
        cases heq
        have hlt := start_lt_next (s := ⟨a, t⟩) ht (by rw [lineBlank_mk, hblank]) h.not_stranded hnext
        exact ⟨[], t, stop, rfl, .nil, .inl rfl, ht, hblank, hnext, hlt, hrest⟩
      | true =>
        rw [reads_blank ht (by rw [lineBlank_mk, hblank])] at h
        by_cases hmem : '\n' ∈ t
        · obtain ⟨l, v, rfl, hl⟩ := Text.firstLine_of_mem hmem
          rw [Stretch.afterLine_mk hl] at h
          rw [firstLine, Text.takeWhile_line hl] at hblank
          have hshort : v.length < (l ++ '\n' :: v).length := by
            rw [List.length_append, List.length_cons]
            omega
          obtain ⟨b, c, stop, rfl, hpasses, hb, hc, hnot, hnext, hlt, hrest⟩ := ih _ hshort h rfl
          have hlength : a + (l ++ '\n' :: b).length = a + (l.length + 1) + b.length := by
            rw [List.length_append, List.length_cons]
            omega
          refine ⟨l ++ '\n' :: b, c, stop, by simp, .blank hl hblank hpasses, .inr ?_, hc, hnot, ?_, ?_, ?_⟩
          · rcases hb with rfl | hb
            · simp
            · rw [List.getLast?_append, List.getLast?_cons, hb]
              rfl
          · rw [hlength]
            exact hnext
          · rw [hlength]
            exact hlt
          · rw [hlength]
            exact hrest
        · rw [Stretch.afterLine_mk_last hmem] at h
          cases (reads_nil rfl).1 h

/-- Whether a node is no markup in angle brackets, or is a comment that ends its line. -/
def isClear (text : Text) (node : Node) : Bool :=
  match node.kind with
  | .raw source => source.head? ≠ some '<' ||
    (LineForm.isComment source && node.position.any fun p => Text.allBlank (firstLine (text.drop p.stop)))
  | _ => true

/-- Whether what follows a text begins a line, or is blank up to the end of its line. -/
def StartsLine (p c : Text) : Prop := p = [] ∨ p.getLast? = some '\n' ∨ Text.allBlank (firstLine c)

/-- The text before a block, when only blocks without content come before it. -/
theorem exists_passes {text : Text} {qs ms : List Node} (h : Reads scope inner true ⟨a, t⟩ (qs ++ ms))
    (ht : text.drop a = t) (hcontent : ∀ n ∈ qs, isContent n.kind = false) (hclear : ∀ n ∈ qs, isClear text n) :
    ∃ p c, t = p ++ c ∧ Passes c p (qs.map Node.kind) ∧ Reads scope inner true ⟨a + p.length, c⟩ ms ∧ StartsLine p c := by
  induction qs generalizing a t with
  | nil => exact ⟨[], t, rfl, .nil, h, .inl rfl⟩
  | cons n qs ih =>
    obtain ⟨b, c, stop, rfl, hb, hbend, hc, hnot, hnext, hlt, hrest⟩ := h.head
    have hn := hcontent n List.mem_cons_self
    have hclearn := hclear n List.mem_cons_self
    have hraw : ∀ source, n.kind = .raw source → source.head? = some '<' → LineForm.isComment source ∧
        n.position.any fun p => Text.allBlank (firstLine (text.drop p.stop)) := by
      intro source hk hhead
      simp only [isClear, hk, hhead, ne_eq, not_true, decide_false, Bool.false_or, Bool.and_eq_true] at hclearn
      exact hclearn
    obtain ⟨m, hq, rfl, hm⟩ := quiet?_of_next hnext hn fun source hk hhead => (hraw source hk hhead).1
    rw [since_mk _ _ _ hm] at hrest
    obtain ⟨q, d, rfl, rfl⟩ : ∃ q d, c = q ++ d ∧ q.length = m :=
      ⟨c.take m, c.drop m, (List.take_append_drop m c).symm, List.length_take_of_le hm⟩
    rw [List.drop_left] at hrest
    have hd : text.drop (a + b.length + q.length) = d := by
      rw [Nat.add_assoc, ← List.drop_drop, ht, ← List.append_assoc, ← List.length_append, List.drop_left]
    obtain ⟨p, e, rfl, hp, hr, hstarts⟩ := ih hrest hd (fun n hn => hcontent n (List.mem_cons_of_mem _ hn))
      (fun n hn => hclear n (List.mem_cons_of_mem _ hn))
    have hne : q ≠ [] := List.length_pos_iff.1 (by omega)
    have hline : q.getLast? = some '\n' ∨ Text.allBlank (firstLine (p ++ e)) := by
      refine quiet?_endsLine hq fun hreader => ?_
      obtain ⟨source, position, hk, hhead, hposition, hstop⟩ := exists_comment hnext hn hreader
      obtain ⟨-, hblank⟩ := hraw source hk hhead
      rwa [hposition, Option.any_some, hstop, hd] at hblank
    refine ⟨b ++ (q ++ p), e, by simp, ?_, ?_, ?_⟩
    · have hblock : Passes e (q ++ p) (n.kind :: qs.map Node.kind) := .block hne hnot hq hp
      rw [← List.append_assoc] at hb
      exact hb.append hblock
    · rw [List.length_append, List.length_append, ← Nat.add_assoc, ← Nat.add_assoc]
      exact hr
    · rcases hstarts with rfl | hstarts
      · right
        rw [List.append_nil, List.getLast?_append]
        rcases hline with hline | hline
        · exact .inl (by rw [hline]; rfl)
        · exact .inr hline
      · right
        rcases hstarts with hlast | hblank
        · exact .inl (by rw [List.getLast?_append, List.getLast?_append, hlast]; rfl)
        · exact .inr hblank

end Narration.Markup.Block
