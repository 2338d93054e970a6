import Narration.Player.Removal
import Narration.Proofs.Buffer
import Narration.Proofs.Player.Import

/-!
# What removal deletes

Removal goes over a document three times. Text that holds neither the name of the component nor the label of a stamp stays
each time, whatever stands below it.

* `Text.WholeLines`, `Text.ended` : texts made of lines that all end;
* `Player.importLine?_eq_some`, `Player.stampText?_eq_some`, `Player.opensUse_iff` : what is deleted holds the name or the
  label;
* `Player.withoutImports_front`, `Player.withoutStamps_front`, `Player.withoutUses_front` : whole lines at the front stay.
-/

namespace Narration

/-! ## Whole lines -/

namespace Text

/-- Nothing, or lines that all end. -/
def WholeLines (t : Text) : Prop := t = [] ∨ t.getLast? = some '\n'

/-- Lines with a line end behind each. -/
def ended (newline : Text) (ls : List Text) : Text := ls.flatMap (· ++ newline)

/-- Lines with a line end before each. -/
def below (newline : Text) (ls : List Text) : Text := ls.flatMap (newline ++ ·)

variable {newline t u v w l : Text} {ls ms : List Text} {c : Char}

theorem IsNewline.exists_eq (h : IsNewline newline) : ∃ v, newline = v ++ ['\n'] ∧ '\n' ∉ v := by
  rcases h with rfl | rfl
  · exact ⟨[], rfl, List.not_mem_nil⟩
  · exact ⟨['\r'], rfl, by decide⟩

theorem IsNewline.isBlank (h : IsNewline newline) (hc : c ∈ newline) : isBlank c := by
  rcases h with rfl | rfl
  · rw [List.mem_singleton.1 hc]
    decide
  · rcases List.mem_pair.1 hc with rfl | rfl <;> decide

theorem IsNewline.ne_nil (h : IsNewline newline) : newline ≠ [] := by
  rcases h with rfl | rfl <;> simp

theorem ended_append (newline : Text) (ls ms : List Text) : ended newline (ls ++ ms) = ended newline ls ++ ended newline ms :=
  List.flatMap_append

theorem ended_cons (newline l : Text) (ls : List Text) : ended newline (l :: ls) = l ++ newline ++ ended newline ls :=
  List.flatMap_cons

theorem wholeLines_ended (h : IsNewline newline) (ls : List Text) : WholeLines (ended newline ls) := by
  obtain ⟨v, rfl, -⟩ := h.exists_eq
  rcases List.eq_nil_or_concat' ls with rfl | ⟨ls, l, rfl⟩
  · exact .inl rfl
  · right
    simp [ended, List.getLast?_append]

theorem WholeLines.suffix (h : WholeLines (u ++ v)) (hv : v ≠ []) : v.getLast? = some '\n' := by
  have hlast := h.resolve_left (by simp [hv])
  rwa [List.getLast?_append, List.getLast?_eq_some_getLast hv, Option.some_or, ← List.getLast?_eq_some_getLast hv] at hlast

theorem join_append_ended (newline : Text) (ls : List Text) (hms : ms ≠ []) :
    join newline (ls ++ ms) = ended newline ls ++ join newline ms := by
  induction ls with
  | nil => rfl
  | cons l ls ih => rw [List.cons_append, join_cons _ _ (by simp [hms]), ih, ended_cons, List.append_assoc, List.append_assoc,
      List.append_assoc]

theorem below_eq (newline : Text) (hls : ls ≠ []) : below newline ls = newline ++ join newline ls := by
  induction ls with
  | nil => exact absurd rfl hls
  | cons l ls ih =>
    rw [below, List.flatMap_cons, ← below]
    by_cases hnil : ls = []
    · subst hnil
      rw [join_singleton]
      simp [below]
    · rw [ih hnil, join_cons newline l hnil]
      simp

theorem join_cons_eq (newline l : Text) (ls : List Text) : join newline (l :: ls) = l ++ below newline ls := by
  by_cases hls : ls = []
  · subst hls
    rw [join_singleton]
    simp [below]
  · rw [join_cons newline l hls, below_eq newline hls, List.append_assoc]

theorem ended_eq_join (newline : Text) (hls : ls ≠ []) : ended newline ls = join newline ls ++ newline := by
  obtain ⟨ks, k, rfl⟩ := (List.eq_nil_or_concat' ls).resolve_left hls
  rw [join_append_ended newline ks (List.cons_ne_nil k []), join_singleton, ended_append, ended_cons, List.append_assoc]
  simp [ended]

/-- Lines among others, put together beforehand. -/
theorem join_append_join (newline : Text) (ls ks ms : List Text) (hks : ks ≠ []) :
    join newline (ls ++ ks ++ ms) = join newline (ls ++ join newline ks :: ms) := by
  obtain ⟨js, j, rfl⟩ := (List.eq_nil_or_concat' ks).resolve_left hks
  rw [List.append_assoc, List.append_assoc, List.singleton_append, join_append_ended newline ls (by simp),
    join_append_ended newline js (List.cons_ne_nil j ms), join_append_ended newline ls (List.cons_ne_nil _ ms), join_cons_eq,
    join_cons_eq, join_append_ended newline js (List.cons_ne_nil j []), join_singleton, List.append_assoc]

/-- Characters that stand in no line end stand in one of the lines. -/
theorem exists_infix_of_ended (hw : w ≠ []) (hn : ∀ c ∈ newline, c ∉ w) (hne : newline ≠ []) (h : w <:+: ended newline ls) :
    ∃ l ∈ ls, w <:+: l := by
  have hlead {v r : Text} (hv : ∀ c ∈ newline, c ∉ v) (h : v <+: newline ++ r) : v = [] := by
    obtain ⟨d, n, rfl⟩ := List.exists_cons_of_ne_nil hne
    cases v with
    | nil => rfl
    | cons c v => exact absurd (List.mem_cons.2 (.inl (List.cons_prefix_cons.1 h).1.symm)) (hv d List.mem_cons_self)
  have htail {v : Text} (hv : ∀ c ∈ newline, c ∉ v) (h : v <:+: newline) : v = [] := by
    refine List.eq_nil_iff_forall_not_mem.2 fun c hc => ?_
    exact hv c (h.subset hc) hc
  induction ls with
  | nil => exact absurd (List.infix_nil.1 h) hw
  | cons l ls ih =>
    rw [ended_cons, List.append_assoc] at h
    rcases List.infix_append_iff.1 h with h | h | ⟨v, r, rfl, hv, hr⟩
    · exact ⟨l, List.mem_cons_self, h⟩
    · rcases List.infix_append_iff.1 h with h | h | ⟨v, r, rfl, hv, hr⟩
      · exact absurd (htail hn h) hw
      · obtain ⟨k, hk, hwithin⟩ := ih h
        exact ⟨k, List.mem_cons_of_mem l hk, hwithin⟩
      · have hnil := htail (fun c hc hmem => hn c hc (List.mem_append_left r hmem)) hv.isInfix
        subst hnil
        obtain ⟨k, hk, hwithin⟩ := ih hr.isInfix
        exact ⟨k, List.mem_cons_of_mem l hk, hwithin⟩
    · have hnil := hlead (fun c hc hmem => hn c hc (List.mem_append_right v hmem)) hr
      subst hnil
      rw [List.append_nil]
      exact ⟨l, List.mem_cons_self, hv.isInfix⟩

theorem exists_infix_of_join (hw : w ≠ []) (hn : ∀ c ∈ newline, c ∉ w) (hne : newline ≠ []) (h : w <:+: join newline ls) :
    ∃ l ∈ ls, w <:+: l := by
  by_cases hls : ls = []
  · subst hls
    exact absurd (List.infix_nil.1 h) hw
  · refine exists_infix_of_ended hw hn hne (h.trans ?_)
    rw [ended_eq_join _ hls]
    exact (List.prefix_append _ _).isInfix

end Text

namespace Player
open Text (WholeLines ended IsNewline)

variable {name path t u v x l newline : Text} {ls : List Text} {n : Nat}

/-! ## What is deleted -/

theorem eq_of_afterBlanks? {r : Text} (h : afterBlanks? t = some r) : ∃ z, t = z ++ r ∧ ∀ c ∈ z, Text.isBlank c := by
  unfold afterBlanks? at h
  split at h
  · cases h
    exact ⟨_, (List.takeWhile_append_dropWhile (p := Text.isBlank)).symm, fun c hc => List.mem_takeWhile_imp hc⟩
  · cases h

theorem eq_of_afterBlanksAnd? {word r : Text} (h : afterBlanksAnd? word t = some r) :
    ∃ z, t = z ++ word ++ r ∧ ∀ c ∈ z, Text.isBlank c := by
  obtain ⟨i, hi, h⟩ := List.exists_of_findSome?_eq_some h
  rw [List.mem_reverse, List.mem_range] at hi
  refine ⟨t.take i, ?_, fun c hc => ?_⟩
  · rw [List.append_assoc, ← Text.after?_eq_some.1 h, List.take_append_drop]
  · have hfront : t.take i <+: t.takeWhile Text.isBlank := by
      refine List.prefix_of_prefix_length_le (List.take_prefix _ _) (List.takeWhile_prefix _) ?_
      rw [List.length_take]
      exact (Nat.min_le_left _ _).trans (Nat.le_of_lt_succ hi)
    exact List.mem_takeWhile_imp (hfront.subset hc)

/-- An import names the component, behind the word and a brace. -/
theorem importLine?_eq_some (h : importLine? name t = some n) : ∃ a z y, t = a ++ "import".toList ++ z ++ name ++ y ∧
    (∀ c ∈ a, Text.isSpaceOrTab c) ∧ ∀ c ∈ z, Text.isBlank c ∨ c = '\x7b' := by
  obtain ⟨r, hword, h⟩ := Option.bind_eq_some_iff.1 h
  obtain ⟨r', hgap, h⟩ := Option.bind_eq_some_iff.1 h
  obtain ⟨r'', hbrace, h⟩ := Option.bind_eq_some_iff.1 h
  obtain ⟨y, hname, -⟩ := Option.bind_eq_some_iff.1 h
  obtain ⟨z, rfl, hz⟩ := eq_of_afterBlanks? hgap
  obtain rfl := Text.after?_eq_some.1 hbrace
  obtain ⟨z', rfl, hz'⟩ := eq_of_afterBlanksAnd? hname
  refine ⟨t.takeWhile Text.isSpaceOrTab, z ++ '\x7b' :: z', y, ?_, fun c hc => List.mem_takeWhile_imp hc, ?_⟩
  · have hdrop := Text.after?_eq_some.1 hword
    conv_lhs => rw [← List.takeWhile_append_dropWhile (p := Text.isSpaceOrTab) (l := t), hdrop]
    simp
  · intro c hc
    rcases List.mem_append.1 hc with hc | hc
    · exact .inl (hz c hc)
    · rcases List.mem_cons.1 hc with rfl | hc
      · exact .inr rfl
      · exact .inl (hz' c hc)

theorem importLine?_eq_none (h : ∀ c ∈ (t.dropWhile Text.isSpaceOrTab).head?, c ≠ 'i') : importLine? name t = none := by
  have hnone : Text.after? "import".toList (t.dropWhile Text.isSpaceOrTab) = none := by
    rw [Option.eq_none_iff_forall_ne_some]
    intro r hr
    rw [Text.after?_eq_some.1 hr] at h
    exact h 'i' rfl rfl
  rw [importLine?, hnone]
  rfl

theorem eq_of_trimStart {r : Text} (h : Text.trimStart t = r) : ∃ z, t = z ++ r ∧ ∀ c ∈ z, Text.isBlank c :=
  ⟨t.takeWhile Text.isBlank, by rw [← h, Text.trimStart, List.takeWhile_append_dropWhile], fun c hc => List.mem_takeWhile_imp hc⟩

/-- A comment with a fingerprint, blanks around its parts. -/
theorem comment?_eq_some {digest r : Text} (h : comment? t = some (digest, r)) : ∃ z y z', t = ['/', '*'] ++ z ++ label ++
    [':'] ++ y ++ digest ++ z' ++ ['*', '/'] ++ r ∧ (∀ c ∈ z ++ y ++ z', Text.isBlank c) ∧ ∀ c ∈ digest, isDigestChar c := by
  obtain ⟨u, hopen, h⟩ := Option.bind_eq_some_iff.1 h
  obtain ⟨v, hlabel, h⟩ := Option.bind_eq_some_iff.1 h
  obtain ⟨w, hclose, h⟩ := Option.bind_eq_some_iff.1 h
  cases h
  obtain rfl := Text.after?_eq_some.1 hopen
  obtain ⟨z, rfl, hz⟩ := eq_of_trimStart (Text.after?_eq_some.1 hlabel)
  obtain ⟨y, hv, hy⟩ := eq_of_trimStart (t := v) rfl
  obtain ⟨z', hw, hz'⟩ := eq_of_trimStart (Text.after?_eq_some.1 hclose)
  have hdigest := List.prefix_iff_eq_append.1 (List.takeWhile_prefix (p := isDigestChar) (l := Text.trimStart v))
  refine ⟨z, y, z', ?_, ?_, fun c hc => List.mem_takeWhile_imp hc⟩
  · conv_lhs => rw [hv, ← hdigest, hw]
    simp
  · intro c hc
    rcases List.mem_append.1 hc with hc | hc
    · exact (List.mem_append.1 hc).elim (hz c) (hy c)
    · exact hz' c hc

theorem isBlank_of_isSpaceOrTab {c : Char} (h : Text.isSpaceOrTab c) : Text.isBlank c := by
  rw [Text.isSpaceOrTab, Bool.or_eq_true, beq_iff_eq, beq_iff_eq] at h
  rcases h with rfl | rfl <;> decide

theorem restOfLine_le (t : Text) : restOfLine t ≤ t.length := by
  have hrun : (t.takeWhile Text.isSpaceOrTab).length + (t.drop (t.takeWhile Text.isSpaceOrTab).length).length = t.length := by
    rw [List.length_drop]
    have := (List.takeWhile_prefix (p := Text.isSpaceOrTab) (l := t)).length_le
    omega
  unfold restOfLine
  dsimp only
  split
  · next h =>
    have hdrop := congrArg List.length h
    simp only [List.length_cons] at hdrop
    omega
  · next h =>
    have hdrop := congrArg List.length h
    simp only [List.length_cons] at hdrop
    omega
  · omega

theorem isBlank_of_mem_restOfLine {c : Char} (h : c ∈ t.take (restOfLine t)) : Text.isBlank c := by
  have hgap : ∀ c ∈ t.take (t.takeWhile Text.isSpaceOrTab).length, Text.isBlank c := by
    rw [← List.prefix_iff_eq_take.1 (List.takeWhile_prefix _)]
    exact fun d hd => isBlank_of_isSpaceOrTab (List.mem_takeWhile_imp hd)
  unfold restOfLine at h
  dsimp only at h
  split at h
  · next hend =>
    rw [List.take_add, List.mem_append, hend] at h
    rcases h with h | h
    · exact hgap c h
    · rcases List.mem_pair.1 h with rfl | rfl <;> decide
  · next hend =>
    rw [List.take_add, List.mem_append, hend] at h
    rcases h with h | h
    · exact hgap c h
    · rw [List.mem_singleton.1 h]
      decide
  · exact hgap c h

/-- A stamp bears the label, and neither double quotes nor backslashes stand in it. -/
theorem stampText?_eq_some {r : Nat × Text} (h : stampText? t = some r) : ∃ z u y, t = ['\x7b', '/', '*'] ++ z ++ label ++ u ++ y ∧
    r = ((['\x7b', '/', '*'] ++ z ++ label ++ u).length, []) ∧ (∀ c ∈ z, Text.isBlank c) ∧ '"' ∉ u ∧ '\\' ∉ u := by
  unfold stampText? at h
  split at h
  · next t =>
    obtain ⟨⟨digest, rest⟩, hcomment, h⟩ := Option.bind_eq_some_iff.1 h
    obtain ⟨e, hbrace, h⟩ := Option.bind_eq_some_iff.1 h
    obtain rfl := Text.after?_eq_some.1 hbrace
    obtain ⟨z, y, z', rfl, hblank, hdigest⟩ := comment?_eq_some hcomment
    cases h
    have hle := restOfLine_le e
    have hsplit := List.take_append_drop (restOfLine e) e
    have hnot {c : Char} (hc : Text.isBlank c = false) (hd : isDigestChar c = false) (hsigns : c ∉ [':', '*', '/', '\x7d']) :
        c ∉ [':'] ++ y ++ digest ++ z' ++ ['*', '/', '\x7d'] ++ e.take (restOfLine e) := by
      have hplain {x : Text} (hx : ∀ d ∈ x, Text.isBlank d) : c ∉ x := fun hmem => by rw [hx c hmem] at hc; cases hc
      have hy := hplain fun d hd => hblank d (List.mem_append_left _ (List.mem_append_right _ hd))
      have hz' := hplain fun d hd => hblank d (List.mem_append_right _ hd)
      have he := hplain fun d hd => isBlank_of_mem_restOfLine (t := e) hd
      have hdig : c ∉ digest := fun hmem => by rw [hdigest c hmem] at hd; cases hd
      simp only [List.mem_cons, List.not_mem_nil, or_false, not_or] at hsigns
      simp [hy, hz', he, hdig, hsigns]
    refine ⟨z, [':'] ++ y ++ digest ++ z' ++ ['*', '/', '\x7d'] ++ e.take (restOfLine e), e.drop (restOfLine e), ?_, ?_,
      fun c hc => hblank c (List.mem_append_left _ (List.mem_append_left _ hc)), hnot (by decide) (by decide) (by decide),
      hnot (by decide) (by decide) (by decide)⟩
    · conv_lhs => rw [← hsplit]
      simp
    · simp only [List.append_eq, List.nil_append, List.length_append, List.length_cons, List.length_nil, List.length_take,
        Nat.min_eq_left hle]
      congr 1
      omega
  · cases h

theorem stampText?_eq_none (h : ∀ c ∈ t.head?, c ≠ '\x7b') : stampText? t = none := by
  unfold stampText?
  split
  · exact absurd rfl (h '\x7b' rfl)
  · rfl

theorem opensUse_iff : opensUse name t ↔ ∃ c y, (Text.isBlank c || c == '/' || c == '>') ∧ t = '<' :: name ++ c :: y := by
  rw [opensUse, Option.any_eq_true]
  constructor
  · rintro ⟨rest, hrest, hend⟩
    obtain ⟨c, hc, hend⟩ := Option.any_eq_true _ _ |>.1 hend
    obtain ⟨y, rfl⟩ : ∃ y, rest = c :: y := by
      cases rest with
      | nil => cases hc
      | cons d y => exact ⟨y, by rw [Option.some.inj hc]⟩
    exact ⟨c, y, hend, Text.after?_eq_some.1 hrest⟩
  · rintro ⟨c, y, hend, rfl⟩
    exact ⟨c :: y, Text.after?_append _ _, hend⟩

/-! ## What stays -/

theorem withoutImports_append (lineStart : Bool) (h : ∀ q, q <:+ u → q ≠ [] → importLine? name (q ++ x) = none) :
    withoutImports name 0 lineStart (u ++ x) =
      u ++ withoutImports name 0 (u.getLast?.elim lineStart (· = '\n')) x := by
  induction u generalizing lineStart with
  | nil => rfl
  | cons c u ih =>
    have hnone : importLine? name (c :: (u ++ x)) = none := h (c :: u) (List.suffix_refl _) (List.cons_ne_nil c u)
    rw [List.cons_append, withoutImports, hnone, ite_self]
    dsimp only
    rw [ih _ fun q hq => h q (hq.trans (List.suffix_cons c u)), List.getLast?_cons]
    cases u.getLast? <;> rfl

theorem withoutImports_eq_self (h : ¬name <:+: t) (lineStart : Bool) : withoutImports name 0 lineStart t = t := by
  have hnone : ∀ q, q <:+ t → q ≠ [] → importLine? name (q ++ []) = none := by
    intro q hq _
    rw [Option.eq_none_iff_forall_ne_some]
    intro i hi
    obtain ⟨a, z, y, heq, -, -⟩ := importLine?_eq_some hi
    rw [List.append_nil] at heq
    subst heq
    exact h (List.IsInfix.trans ⟨_, y, rfl⟩ hq.isInfix)
  simpa [withoutImports] using withoutImports_append lineStart hnone

/-- Whole lines without the name stay in front of a text that does not go on with blanks, braces and the name, unless the
word that begins an import begins with the name. -/
theorem withoutImports_front (hu : WholeLines u) (hfree : ¬name <:+: u) (hn : '\n' ∉ name)
    (hx : ∀ z y, x = z ++ name ++ y → (∀ c ∈ z, Text.isBlank c ∨ c = '\x7b') → name <+: "import".toList) :
    withoutImports name 0 true (u ++ x) = u ++ withoutImports name 0 true x := by
  have hlast : u.getLast?.elim true (· = '\n') = true := by
    rcases hu with rfl | h
    · rfl
    · rw [h]
      rfl
  rw [withoutImports_append, hlast]
  intro q hq hne
  rw [Option.eq_none_iff_forall_ne_some]
  intro i hi
  obtain ⟨a, z, y, heq, ha, hz⟩ := importLine?_eq_some hi
  obtain ⟨p, rfl⟩ := hq
  have hlines := hu.suffix hne
  have hcut : (a ++ "import".toList ++ z) ++ name ++ y = q ++ x := heq.symm
  rcases Text.cut_whole_lines hcut (.inr hlines) (fun h => hn (List.mem_of_mem_dropLast h)) with hfront | ⟨z', hz', rfl⟩
  · exact hfree ((List.suffix_append _ name).isInfix.trans (hfront.isInfix.trans (List.suffix_append p q).isInfix))
  · -- the lines end behind the word, as none of its letters ends a line
    have hword : '\n' ∉ a ++ "import".toList := by
      rw [List.mem_append, not_or]
      refine ⟨fun h => absurd (ha _ h) (by decide), by decide⟩
    have hq : '\n' ∈ q := List.mem_of_getLast? hlines
    obtain ⟨r, rfl, hr⟩ : ∃ r, q = a ++ "import".toList ++ r ∧ z = r ++ z' := by
      rcases List.append_eq_append_iff.1 hz' with ⟨r, hq', hz⟩ | ⟨r, hword', -⟩
      · exact ⟨r, hq', hz⟩
      · rw [hword'] at hword
        exact absurd (List.mem_append_left r hq) hword
    have hname := hx z' y rfl fun c hc => hz c (hr ▸ List.mem_append_right r hc)
    exact hfree (hname.isInfix.trans (List.IsInfix.trans ⟨a, r, rfl⟩ (List.suffix_append p _).isInfix))

theorem substitute_append {p : Text.Pattern} (h : ∀ q, q <:+ u → q ≠ [] → p (q ++ x) = none) :
    Text.substitute p (u ++ x) = u ++ Text.substitute p x := by
  induction u with
  | nil => rfl
  | cons c u ih =>
    have hnone : p (c :: (u ++ x)) = none := h (c :: u) (List.suffix_refl _) (List.cons_ne_nil c u)
    rw [List.cons_append, Text.substitute, Text.substituteFrom, hnone]
    dsimp only
    rw [← Text.substitute, ih fun q hq => h q (hq.trans (List.suffix_cons c u)), List.cons_append]

theorem withoutStamps_eq_self (h : ¬label <:+: t) : Text.substitute stampText? t = t := by
  have happend := substitute_append (p := stampText?) (u := t) (x := []) fun q hq _ => by
    rw [Option.eq_none_iff_forall_ne_some]
    intro r hr
    obtain ⟨z, y, x, heq, -⟩ := stampText?_eq_some hr
    rw [List.append_nil] at heq
    subst heq
    refine h (List.IsInfix.trans ?_ hq.isInfix)
    rw [List.append_assoc _ y]
    exact ⟨_, y ++ x, rfl⟩
  simpa [Text.substitute, Text.substituteFrom] using happend

/-- Whole lines without the label stay in front of a text that does not go on with blanks and the label. -/
theorem withoutStamps_front (hu : WholeLines u) (hfree : ¬label <:+: u)
    (hx : ∀ z y, x = z ++ label ++ y → ¬∀ c ∈ z, Text.isBlank c) :
    Text.substitute stampText? (u ++ x) = u ++ Text.substitute stampText? x := by
  refine substitute_append fun q hq hne => ?_
  rw [Option.eq_none_iff_forall_ne_some]
  intro r hr
  obtain ⟨z, y, y', heq, -, hz, -⟩ := stampText?_eq_some hr
  obtain ⟨p, rfl⟩ := hq
  have hlines := hu.suffix hne
  have hcut : (['\x7b', '/', '*'] ++ z) ++ label ++ (y ++ y') = q ++ x := by rw [heq, List.append_assoc _ y]
  rcases Text.cut_whole_lines hcut (.inr hlines) (by decide) with hfront | ⟨z', hz', rfl⟩
  · exact hfree ((List.suffix_append _ label).isInfix.trans (hfront.isInfix.trans (List.suffix_append p q).isInfix))
  · have hq : '\n' ∈ q := List.mem_of_getLast? hlines
    obtain ⟨w, rfl, hw⟩ : ∃ w, q = ['\x7b', '/', '*'] ++ w ∧ z = w ++ z' := by
      rcases List.append_eq_append_iff.1 hz' with ⟨w, hq', hz⟩ | ⟨w, hopen, -⟩
      · exact ⟨w, hq', hz⟩
      · have hmem := List.mem_append_left w hq
        rw [← hopen] at hmem
        exact absurd hmem (by decide)
    exact hx z' (y ++ y') rfl fun c hc => hz c (hw ▸ List.mem_append_right w hc)

theorem withoutUses_append (before : Text) (h : ∀ q, q <:+ u → q ≠ [] → opensUse name (q ++ x) = false) :
    withoutUses name before 0 (u ++ x) = u ++ withoutUses name (u.reverse ++ before) 0 x := by
  induction u generalizing before with
  | nil => rfl
  | cons c u ih =>
    have hnone : opensUse name (c :: (u ++ x)) = false := h (c :: u) (List.suffix_refl _) (List.cons_ne_nil c u)
    rw [List.cons_append, withoutUses, hnone, if_neg Bool.false_ne_true]
    dsimp only
    rw [ih _ fun q hq => h q (hq.trans (List.suffix_cons c u)), List.reverse_cons, List.append_assoc, List.singleton_append]
    rfl

theorem withoutUses_eq_self (h : ¬name <:+: t) (before : Text) : withoutUses name before 0 t = t := by
  have hfalse : ∀ q, q <:+ t → q ≠ [] → opensUse name (q ++ []) = false := by
    intro q hq _
    rw [← Bool.not_eq_true, opensUse_iff]
    rintro ⟨c, y, -, heq⟩
    rw [List.append_nil] at heq
    subst heq
    exact h (List.IsInfix.trans ⟨['<'], c :: y, rfl⟩ hq.isInfix)
  simpa [withoutUses] using withoutUses_append before hfalse

/-- Whole lines without the name stay in front of every text. -/
theorem withoutUses_front (hu : WholeLines u) (hfree : ¬name <:+: u) (hn : '\n' ∉ name) (before : Text) :
    withoutUses name before 0 (u ++ x) = u ++ withoutUses name (u.reverse ++ before) 0 x := by
  refine withoutUses_append before fun q hq hne => ?_
  rw [← Bool.not_eq_true, opensUse_iff]
  rintro ⟨c, y, -, heq⟩
  obtain ⟨p, rfl⟩ := hq
  have hlines := hu.suffix hne
  have hcut : ['<'] ++ name ++ c :: y = q ++ x := heq.symm
  rcases Text.cut_whole_lines hcut (.inr hlines) (fun h => hn (List.mem_of_mem_dropLast h)) with hfront | ⟨z, hz, -⟩
  · exact hfree ((List.suffix_append _ name).isInfix.trans (hfront.isInfix.trans (List.suffix_append p q).isInfix))
  · have hq : '\n' ∈ ['<'] := by
      rw [hz]
      exact List.mem_append_left z (List.mem_of_getLast? hlines)
    exact absurd hq (by decide)

end Player
end Narration
