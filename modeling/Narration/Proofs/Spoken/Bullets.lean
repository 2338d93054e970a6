import Narration.Proofs.Spoken.Lined
import Narration.Proofs.Spoken.Recited

/-!
# Bullet lists

* `Bullet` : an item of a list, with the items below it;
* `Bullet.written`, `Bullet.narrated` : a list as a document, and what is read aloud of it;
* `Block.ReadsItem.items_next` : an item with the next one right below it;
* `Bullet.ItemsSay` : items are read one by one, at any place of a document;
* `Bullet.says_item`, `Bullet.itemsSay` : what an item and the items of a list say, by recursion on them;
* `Bullet.extract_bullets` : lists are narrated item by item.
-/

namespace Narration
open Markup
open Text (EndsLine firstLine led unlines)

/-- An item of a bullet list: its label, and the items below it. -/
inductive Bullet where
  | mk (label : Phrase Char.isAlpha) (below : List Bullet)

namespace Bullet

/-- The line of an item. -/
def bulletLine (label : Text) : Text := '-' :: ' ' :: label

/-- A line one level further in. -/
def deeper (l : Text) : Text := ' ' :: ' ' :: l

mutual

/-- The lines of an item and of the items below it. -/
def lines : Bullet → List Text
  | mk label below => bulletLine label.text :: (linesAll below).map deeper

/-- The lines of several items. -/
def linesAll : List Bullet → List Text
  | [] => []
  | item :: items => lines item ++ linesAll items

end

mutual

/-- The label of an item, and those of the items below it. -/
def labels : Bullet → List Text
  | mk label below => label.text :: labelsAll below

/-- The labels of several items. -/
def labelsAll : List Bullet → List Text
  | [] => []
  | item :: items => labels item ++ labelsAll items

end

mutual

/-- The number of levels of an item. -/
def depth : Bullet → Nat
  | mk _ below => depthAll below + 1

/-- The number of levels of several items. -/
def depthAll : List Bullet → Nat
  | [] => 0
  | item :: items => max (depth item) (depthAll items)

end

/-- Items as a document. -/
def written (items : List Bullet) : Text := unlines (linesAll items)

/-- What is read aloud of items: the labels, a line each. -/
def narrated (items : List Bullet) : Text := unlines (labelsAll items)

end Bullet

/-! ## The lines of a list -/

namespace Markup

section BulletLine
open Bullet (bulletLine deeper)

variable {t rest : Text} (h : IsPhrase Char.isAlpha t)
include h

theorem notMem_of_isAlpha {d : Char} (hd : d.isAlpha = false) (hspace : d ≠ ' ') : d ∉ t := fun hmem => by
  rcases h.chars d hmem with h | h
  · rw [h] at hd
    cases hd
  · exact hspace h

theorem trim_bulletLine : Text.trim (bulletLine t) = bulletLine t := by
  have hcell := h.imp fun _ => isCellChar_of_isAlpha
  have hstart : Text.trimStart (bulletLine t) = bulletLine t := List.dropWhile_cons_of_neg (by decide)
  rw [Text.trim, hstart, Text.trimEnd_eq_self fun c hc => ?_]
  rw [bulletLine, List.getLast?_cons_cons, List.getLast?_cons_of_ne_nil h.ne_nil] at hc
  exact not_isBlank_of_isCellChar (hcell.last c hc)

theorem marker?_bulletLine : LineForm.marker? (bulletLine t) = some (['-'], 2) := by
  obtain ⟨c, u, rfl, hc⟩ := (h.imp fun _ => isCellChar_of_isAlpha).exists_cons
  have hgap : LineForm.gap (' ' :: c :: u) = 1 := by
    rw [LineForm.gap, List.takeWhile_cons_of_pos (by decide),
      List.takeWhile_cons_of_neg (by simp [Page.isSpaceOrTab_of_isCellChar hc])]
    rfl
  have hmarker := LineForm.marker?_append (.mark '-' (by decide)) (' ' :: c :: u)
  rw [hgap] at hmarker
  exact hmarker

theorem allBlank_eq_false : Text.allBlank t = false := by
  obtain ⟨c, u, rfl, hc⟩ := (h.imp fun _ => isCellChar_of_isAlpha).exists_cons
  rw [Text.allBlank, List.all_cons, not_isBlank_of_isCellChar hc, Bool.false_and]

/-- The line of an item ends the paragraph above it. -/
theorem interrupts_bulletLine : LineForm.interrupts (bulletLine t) := by
  have hcontent : Text.allBlank ((bulletLine t).drop 2) = false := allBlank_eq_false h
  have hnumber : LineForm.isNumbered ['-'] = false := rfl
  simp only [LineForm.interrupts, marker?_bulletLine h, hcontent, hnumber, Bool.not_false, Bool.true_or, Bool.and_true, Bool.or_true]

theorem isRule_bulletLine : LineForm.isRule (bulletLine t) = false := by
  obtain ⟨c, u, rfl, hc⟩ := (h.imp fun _ => isCellChar_of_isAlpha).exists_cons
  have hchar : (c == '-' || Text.isSpaceOrTab c) = false := by
    rw [Page.isSpaceOrTab_of_isCellChar hc, beq_false_of_ne (Page.isCellChar_ne hc rfl), Bool.or_false]
  have hall : ('-' :: ' ' :: c :: u).all (fun x => x == '-' || Text.isSpaceOrTab x) = false :=
    List.all_eq_false.2 ⟨c, by simp, by simp [hchar]⟩
  rw [LineForm.isRule, bulletLine, List.head?_cons]
  dsimp only
  rw [hall, Bool.and_false]

theorem underline?_bulletLine : LineForm.underline? (bulletLine t) = none := by
  obtain ⟨c, u, rfl, hc⟩ := (h.imp fun _ => isCellChar_of_isAlpha).exists_cons
  have hdrop : (bulletLine (c :: u)).dropWhile (fun x => x = '-') = ' ' :: c :: u := rfl
  have hall : (' ' :: c :: u).all Text.isSpaceOrTab = false := by simp [Page.isSpaceOrTab_of_isCellChar hc]
  rw [LineForm.underline?, bulletLine, List.head?_cons, Option.bind_eq_bind, Option.bind_some, ← bulletLine, hdrop, hall,
    if_neg (by simp)]

theorem newline_notMem_bulletLine : '\n' ∉ bulletLine t := by
  have := notMem_of_isAlpha h (d := '\n') rfl (by decide)
  simpa [bulletLine] using this

theorem readerOf_bulletLine (top : Bool) : Block.readerOf top (bulletLine t) false = .list := by
  have hearly : Block.earlyReader? top (bulletLine t) = none := by
    refine Block.earlyReader?_of_head (fun _ => rfl) ?_ ?_
    · rw [trim_bulletLine h]
      exact fun c hc hhead => absurd (Option.some.inj hhead ▸ hc) (by decide)
    · rw [trim_bulletLine h]
      exact isRule_bulletLine h
  have hquote : (bulletLine t).head? ≠ some '>' := nofun
  have hindent : Text.indent (bulletLine t) = 0 := rfl
  simp [Block.readerOf, hearly, Block.lateReader, trim_bulletLine h, hquote, hindent, marker?_bulletLine h]

/-- A paragraph ends before the line of an item. -/
theorem paragraphEnd_bulletLine (hrest : EndsLine rest) (a fuel last : Nat) :
    Block.paragraphEnd (fuel + 1) last ⟨a, bulletLine t ++ rest⟩ = (last, .other, ⟨a, bulletLine t ++ rest⟩) := by
  have hline : (⟨a, bulletLine t ++ rest⟩ : Stretch).line.trim.chars = bulletLine t := by
    rw [Stretch.line_mk_endsLine (newline_notMem_bulletLine h) hrest, Stretch.chars_trim, trim_bulletLine h]
  rw [Block.paragraphEnd]
  simp only [hline]
  rw [if_neg (by simp [bulletLine]), underline?_bulletLine h]
  exact if_pos (interrupts_bulletLine h)

end BulletLine

namespace Block
open Fallible
open Bullet (bulletLine deeper)

variable {scope : Scope} {inner : Inner} {s rest : Stretch}

/-- An item with the next one right below it. -/
theorem ReadsItem.items_next {base width fuel last last' stop stop' : Nat} {parts : List Stretch} {children nodes : List Node}
    (h : ReadsItem inner base s width parts stop rest children) (hrest : rest.chars = [] ∨ rest.lineBlank = false)
    (hitems : items scope inner base fuel stop rest = .ok (nodes, last', stop')) :
    items scope inner base (fuel + 1) last s =
      .ok (scope.node .listItem (s.start + Text.indent s.line.chars) stop children :: nodes, last', stop') := by
  have hskip : Stretch.skipBlankLines rest.chars.length rest = rest := by
    rcases hrest with hnil | hblank
    · rw [hnil]
      rfl
    · exact skipBlankLines_not_blank hblank _
  have hresume : resume rest = rest := by rw [resume, hskip, ite_self]
  have hgoes : continues base rest := by simp [continues, hskip]
  rw [items_succ, h.marker]
  dsimp only
  rw [h.lines, h.blocks]
  dsimp only
  rw [hresume]
  exact (if_pos hgoes).trans (bind_eq_ok.2 ⟨_, hitems, rfl⟩)

/-- The lines of the items below an item are all that belongs to it. -/
theorem itemLines_deeper {ks ms : List Text} (hks : ∀ k ∈ ks, '\n' ∉ k ∧ Text.allBlank k = false)
    (hms : ms = [] ∨ ∃ t ms', IsPhrase Char.isAlpha t ∧ ms = bulletLine t :: ms') {fuel : Nat} (hfuel : ks.length < fuel) (a last : Nat) :
    ∃ last' o, itemLines 0 2 fuel last ⟨a, unlines (ks.map deeper ++ ms)⟩ = (inset a (ks.map deeper), last', ⟨o, unlines ms⟩) ∧
      o + (unlines ms).length = a + (unlines (ks.map deeper ++ ms)).length := by
  induction ks generalizing fuel a last with
  | nil =>
    obtain ⟨fuel, rfl⟩ := Nat.exists_eq_succ_of_ne_zero (Nat.ne_of_gt hfuel)
    refine ⟨last, a, ?_, rfl⟩
    rcases hms with rfl | ⟨t, ms, ht, rfl⟩
    · rfl
    · have hline : (⟨a, bulletLine t ++ led ms⟩ : Stretch).line = ⟨a, bulletLine t⟩ :=
        Stretch.line_mk_endsLine (newline_notMem_bulletLine ht) (Text.endsLine_led ms)
      have hindent : Text.indent (bulletLine t) = 0 := rfl
      have hblank : (⟨a, bulletLine t ++ led ms⟩ : Stretch).lineBlank = false := by
        rw [Stretch.lineBlank, hline]
        rfl
      rw [List.map_nil, List.nil_append, Text.unlines_cons_eq, itemLines, if_neg (by simp [bulletLine]), hblank, hline]
      simp only [hindent, List.drop_zero, marker?_bulletLine ht]
      rfl
  | cons k ks ih =>
    obtain ⟨fuel, rfl⟩ := Nat.exists_eq_succ_of_ne_zero (Nat.ne_of_gt (Nat.zero_lt_of_lt hfuel))
    obtain ⟨⟨hk, hblank⟩, hks⟩ := List.forall_mem_cons.1 hks
    have hdeeper : '\n' ∉ deeper k := by simpa [deeper] using hk
    have hled := Text.endsLine_led (ks.map deeper ++ ms)
    have hline : (⟨a, deeper k ++ led (ks.map deeper ++ ms)⟩ : Stretch).line = ⟨a, deeper k⟩ := Stretch.line_mk_endsLine hdeeper hled
    have hindent : 2 ≤ Text.indent (deeper k) := by
      rw [Text.indent, deeper, List.takeWhile_cons_of_pos (by decide), List.takeWhile_cons_of_pos (by decide)]
      exact Nat.le_add_left 2 _
    have hlineBlank : (⟨a, deeper k ++ led (ks.map deeper ++ ms)⟩ : Stretch).lineBlank = false := by
      rw [Stretch.lineBlank, hline]
      exact hblank
    have hpart : (⟨a, deeper k⟩ : Stretch).drop 2 = ⟨a + 2, k⟩ := by
      have hlength : 2 ≤ (deeper k).length := Nat.le_add_left 2 _
      change (⟨a + min 2 (deeper k).length, k⟩ : Stretch) = _
      rw [Nat.min_eq_left hlength]
    obtain ⟨b, hafter, hstart, hlength⟩ := afterLine_unlines hdeeper a (ks.map deeper ++ ms)
    have hinset : inset b (ks.map deeper) = inset (a + ((deeper k).length + 1)) (ks.map deeper) :=
      inset_congr fun hne => hstart (by simp [hne])
    rw [Text.unlines_cons_eq] at hafter
    obtain ⟨last', o, hrest, ho⟩ := ih hks (show ks.length < fuel by simpa using hfuel) b (a + (deeper k).length)
    refine ⟨last', o, ?_, ?_⟩
    · rw [List.map_cons, List.cons_append, Text.unlines_cons_eq, itemLines, if_neg (by simp [deeper]), hlineBlank, hline]
      simp only [Nat.min_eq_right hindent, hpart, hafter, Stretch.stop, hrest, hinset, inset]
      rw [if_neg (by simp), if_neg (by simp; omega)]
      rfl
    · rw [ho, hlength, List.map_cons, List.cons_append]

end Block
end Markup

/-! ## What items say -/

namespace Bullet
open Fallible
open Markup.Block (items innerOf inset readAll readParts)
open Spoken (Says passages joinBlocks blockText)

variable {b f : Nat} {label : Phrase Char.isAlpha} {below rest : List Bullet} {item : Bullet}

mutual

theorem mem_lines : (item : Bullet) → ∀ l ∈ lines item, ∃ n label, IsPhrase Char.isAlpha label ∧
    l = List.replicate n ' ' ++ bulletLine label
  | mk label below, l, h => by
    rw [lines, List.mem_cons, List.mem_map] at h
    rcases h with rfl | ⟨k, hk, rfl⟩
    · exact ⟨0, _, label.isPhrase, rfl⟩
    · obtain ⟨n, label, hlabel, rfl⟩ := mem_linesAll below k hk
      exact ⟨n + 2, label, hlabel, rfl⟩

/-- Every line of a list is the line of an item, some spaces further in. -/
theorem mem_linesAll : (items : List Bullet) → ∀ l ∈ linesAll items, ∃ n label, IsPhrase Char.isAlpha label ∧
    l = List.replicate n ' ' ++ bulletLine label
  | [], l, h => by simp [linesAll] at h
  | item :: items, l, h => by
    rw [linesAll, List.mem_append] at h
    rcases h with h | h
    · exact mem_lines item l h
    · exact mem_linesAll items l h

end

theorem notMem_linesAll {d : Char} (hd : d.isAlpha = false) (hspace : d ≠ ' ') (hhyphen : d ≠ '-') {l : Text} (h : l ∈ linesAll below) :
    d ∉ l := by
  obtain ⟨n, t, ht, rfl⟩ := mem_linesAll below l h
  have := notMem_of_isAlpha ht hd hspace
  simp [bulletLine, hspace, hhyphen, this]

theorem allBlank_linesAll {l : Text} (h : l ∈ linesAll below) : Text.allBlank l = false := by
  obtain ⟨n, t, ht, rfl⟩ := mem_linesAll below l h
  rw [Text.allBlank, List.all_append, bulletLine, List.all_cons]
  simp [Text.isBlank]

theorem linesAll_eq (items : List Bullet) : items = [] ∧ linesAll items = [] ∨
    ∃ label ls, IsPhrase Char.isAlpha label ∧ linesAll items = bulletLine label :: ls := by
  cases items with
  | nil => exact .inl ⟨rfl, rfl⟩
  | cons item items =>
    obtain ⟨label, below⟩ := item
    exact .inr ⟨label.text, _, label.isPhrase, by rw [linesAll, lines, List.cons_append]⟩

theorem two_le_lines : ∀ l ∈ lines item, '\n' ∉ l ∧ 2 ≤ l.length := by
  intro l hl
  obtain ⟨n, t, ht, rfl⟩ := mem_lines item l hl
  refine ⟨?_, ?_⟩
  · have := newline_notMem_bulletLine ht
    simp [this]
  · rw [List.length_append]
    exact Nat.le_add_left_of_le (Nat.le_add_left 2 _)

/-- The items of a list are read one by one, at any place of a document, and say what stands in them. -/
def ItemsSay (b f : Nat) (items : List Bullet) : Prop :=
  ∀ x fuel last, items.length ≤ fuel → ∃ nodes ps last',
    Block.items (Scope.ofText (x ++ written items) []) (innerOf b (Scope.ofText (x ++ written items) [])) 0 fuel last
      ⟨x.length, written items⟩ = .ok (nodes, last', (x ++ written items).length) ∧
    passages nodes f = some ps ∧ ps.map (·.1) = items.map fun item => unlines (labels item)

theorem itemsSay_nil (b f : Nat) : ItemsSay b f [] := by
  intro x fuel last _
  refine ⟨[], [], last, ?_, rfl, rfl⟩
  rw [written, linesAll, unlines, Text.join, List.intercalate_nil, List.append_nil]
  cases fuel <;> rfl

/-- What an item and those after it say. -/
theorem ItemsSay.cons (hitem : Says b f false (unlines ((lines item).map (·.drop 2))) (unlines (labels item)))
    (h : ItemsSay b (f + 2) rest) : ItemsSay b (f + 2) (item :: rest) := by
  intro x fuel last hfuel
  obtain ⟨fuel, rfl⟩ := Nat.exists_eq_succ_of_ne_zero (Nat.ne_of_gt (Nat.lt_of_lt_of_le (Nat.succ_pos _) hfuel))
  have hls : ∀ l ∈ lines item, '\n' ∉ l ∧ 2 ≤ l.length := two_le_lines
  obtain ⟨label, below⟩ := item
  have hline : '\n' ∉ bulletLine label.text := newline_notMem_bulletLine label.isPhrase
  have hwritten : written (mk label below :: rest) = unlines (bulletLine label.text :: ((linesAll below).map deeper ++ linesAll rest)) := by
    rw [written, linesAll, lines, List.cons_append]
  -- the text of the item, and that of the items after it
  have hparts : x ++ written (mk label below :: rest) = x ++ unlines (lines (mk label below)) ++ led (linesAll rest) := by
    rw [written, linesAll, Text.unlines_append_led (by simp [lines]), List.append_assoc]
  obtain ⟨x', hrest⟩ : ∃ x', x ++ written (mk label below :: rest) = x' ++ written rest := by
    rcases linesAll_eq rest with ⟨rfl, -⟩ | ⟨k, ks, -, hks⟩
    · exact ⟨_, (List.append_nil _).symm⟩
    · rw [hparts, Text.led_eq (by simp [hks]), ← written]
      exact ⟨_, List.append_cons _ _ _⟩
  obtain ⟨children, qs, hchildren, hqs, hsay⟩ := hitem.inset hls (by simp [lines]) x (led (linesAll rest))
  rw [← hparts] at hchildren
  obtain ⟨o, hafter, hstart, hlength⟩ := Block.afterLine_unlines hline x.length ((linesAll below).map deeper ++ linesAll rest)
  have hinset : inset x.length (lines (mk label below)) = ⟨x.length + 2, label.text⟩ :: inset o ((linesAll below).map deeper) := by
    rw [lines, inset, Block.inset_congr fun hne => hstart (by simp [hne])]
    rfl
  obtain ⟨stop, o', hitemLines, ho'⟩ := @Block.itemLines_deeper (linesAll below) (linesAll rest)
    (fun k hk => ⟨notMem_linesAll rfl (by decide) (by decide) hk, allBlank_linesAll hk⟩)
    ((linesAll_eq rest).imp And.right id)
    (written (mk label below :: rest)).length (by
      have := Text.length_le_led ((linesAll below).map deeper ++ linesAll rest)
      rw [List.length_append, List.length_map] at this
      rw [hwritten, Text.unlines_cons_eq, List.length_append, bulletLine, List.length_cons]
      omega) o (x.length + (bulletLine label.text).length)
  rw [hlength, ← hwritten, ← List.length_append, hrest, List.length_append] at ho'
  obtain rfl : o' = x'.length := Nat.add_right_cancel ho'
  obtain ⟨nodes, ps, last', hitems, hps, htexts⟩ := h x' fuel stop (Nat.le_of_succ_le_succ hfuel)
  rw [← hrest] at hitems
  have hfirst : (⟨x.length, written (mk label below :: rest)⟩ : Stretch).line = ⟨x.length, bulletLine label.text⟩ := by
    rw [hwritten, Text.unlines_cons_eq, Stretch.line_mk_endsLine hline (Text.endsLine_led _)]
  have hbelow : (⟨x'.length, written rest⟩ : Stretch).chars = [] ∨ (⟨x'.length, written rest⟩ : Stretch).lineBlank = false := by
    rcases linesAll_eq rest with ⟨rfl, -⟩ | ⟨k, ks, hk, hks⟩
    · exact .inl rfl
    · refine .inr ?_
      rw [Stretch.lineBlank, written, hks, Text.unlines_cons_eq, Stretch.line_mk_endsLine (newline_notMem_bulletLine hk) (Text.endsLine_led _)]
      rfl
  obtain ⟨scope, hscope⟩ : ∃ scope, scope = Scope.ofText (x ++ written (mk label below :: rest)) [] := ⟨_, rfl⟩
  rw [← hscope] at hchildren hitems ⊢
  obtain ⟨first, hall⟩ : ∃ first, Block.items scope (innerOf b scope) 0 (fuel + 1) last ⟨x.length, written (mk label below :: rest)⟩ =
      .ok (scope.node .listItem first stop children :: nodes, last', (x ++ written (mk label below :: rest)).length) := by
    have hitem : Block.ReadsItem (innerOf b scope) 0 ⟨x.length, written (mk label below :: rest)⟩ 2
        (inset o ((linesAll below).map deeper)) stop ⟨x'.length, written rest⟩ children := by
      refine ⟨?_, ?_, ?_⟩
      · have hindent : Text.indent (bulletLine label.text) = 0 := rfl
        rw [Block.markerWidth?, hfirst, hindent, List.drop_zero, marker?_bulletLine label.isPhrase]
        rfl
      · rw [hfirst, hwritten, hafter, ← hwritten]
        exact hitemLines
      · rw [hfirst]
        rw [hinset] at hchildren
        exact hchildren
    exact ⟨_, hitem.items_next hbelow hitems⟩
  refine ⟨_, (joinBlocks qs, some (scope.position first stop)) :: ps, last', hall, ?_, ?_⟩
  · rw [passages, Scope.node, blockText, if_neg (by omega), Nat.add_sub_cancel, hqs, hps]
    rfl
  · rw [List.map_cons, List.map_cons, htexts, hsay]

theorem labels_ne_nil (item : Bullet) : labels item ≠ [] := by
  cases item
  simp [labels]

theorem narrated_eq (items : List Bullet) : unlines (items.map fun item => unlines (labels item)) = narrated items := by
  induction items with
  | nil => rfl
  | cons item items ih =>
    rw [narrated, labelsAll]
    cases items with
    | nil => rw [List.map_singleton, Text.unlines_singleton, labelsAll, List.append_nil]
    | cons k ks =>
      rw [List.map_cons, Text.unlines_cons _ (by simp), ih, narrated, Text.unlines_append (labels_ne_nil item)]
      simp [labelsAll, labels_ne_nil]

theorem unlines_labels_ne_nil (item : Bullet) : unlines (labels item) ≠ [] := by
  obtain ⟨label, below⟩ := item
  rw [labels, Text.unlines_cons_eq]
  simp [label.isPhrase.ne_nil]

theorem length_le_written (items : List Bullet) : items.length ≤ (written items).length := by
  have hlines : items.length ≤ (linesAll items).length := by
    induction items with
    | nil => exact Nat.zero_le _
    | cons item items ih =>
      obtain ⟨label, below⟩ := item
      rw [linesAll, lines, List.length_append, List.length_cons, List.length_cons]
      omega
  refine Nat.le_trans hlines ?_
  rcases linesAll_eq items with ⟨-, h⟩ | ⟨t, ls, -, h⟩
  · simp [h]
  · have := Text.length_le_led ls
    rw [written, h, Text.unlines_cons_eq, List.length_append, bulletLine, List.length_cons, List.length_cons]
    omega

variable {items : List Bullet}

theorem labelsAll_ne_nil (hne : items ≠ []) : labelsAll items ≠ [] := by
  obtain ⟨item, items, rfl⟩ := List.exists_cons_of_ne_nil hne
  simp [labelsAll, labels_ne_nil]

theorem narrated_ne_nil (hne : items ≠ []) : narrated items ≠ [] := by
  obtain ⟨⟨label, below⟩, items, rfl⟩ := List.exists_cons_of_ne_nil hne
  rw [narrated, labelsAll, labels, List.cons_append, Text.unlines_cons_eq]
  simp [label.isPhrase.ne_nil]

theorem depthAll_pos (hne : items ≠ []) : 1 ≤ depthAll items := by
  obtain ⟨⟨label, below⟩, items, rfl⟩ := List.exists_cons_of_ne_nil hne
  rw [depthAll, depth]
  omega

theorem joinBlocks_pair {t u : Text} {p q : Option Position} (ht : t ≠ []) (hu : u ≠ []) (h : Spoken.gapBetween p q = false) :
    joinBlocks [(t, p), (u, q)] = t ++ '\n' :: u := by
  simp [joinBlocks, ht, hu, Spoken.joinAfter, h]

/-- Items at any place of a document are read as one list, which says what they say. -/
theorem ItemsSay.next (h : ItemsSay b f items) (hne : items ≠ []) (top : Bool) (x : Text) : ∃ last nodes,
    Block.next (Scope.ofText (x ++ written items) []) (innerOf b (Scope.ofText (x ++ written items) [])) top ⟨x.length, written items⟩ =
      .ok ((Scope.ofText (x ++ written items) []).node (.list false) x.length last nodes, (x ++ written items).length) ∧
    ∀ position, blockText (.mk (.list false) nodes position) (f + 2) = some (narrated items) := by
  obtain ⟨nodes, ps, last, hitems, hps, htexts⟩ := h x (written items).length x.length (length_le_written items)
  obtain ⟨t, ls, ht, hls⟩ := (linesAll_eq items).resolve_left fun h => hne h.1
  have hwritten : written items = bulletLine t ++ led ls := by rw [written, hls, Text.unlines_cons_eq]
  have hline : (⟨x.length, written items⟩ : Stretch).line = ⟨x.length, bulletLine t⟩ := by
    rw [hwritten, Stretch.line_mk_endsLine (newline_notMem_bulletLine ht) (Text.endsLine_led ls)]
  have htable (a : Nat) : Block.isTable ⟨a, written items⟩ = false := by
    have hbar : '|' ∉ bulletLine t := by
      have := notMem_of_isAlpha ht (d := '|') rfl (by decide)
      simpa [bulletLine] using this
    rw [hwritten, Page.isTable_eq_false hbar (newline_notMem_bulletLine ht) (Text.endsLine_led ls)]
  refine ⟨last, nodes, ?_, fun position => ?_⟩
  · have hmarker : (LineForm.marker? (bulletLine t)).any (fun m => LineForm.isNumbered m.1) = false := by
      rw [marker?_bulletLine ht]
      rfl
    have hindent : Text.indent (bulletLine t) = 0 := rfl
    rw [Block.next_eq, hline, htable, readerOf_bulletLine ht, Block.Reader.read, Block.list, hline]
    simp only [hindent, List.drop_zero, hmarker, Nat.add_zero, ite_self]
    exact bind_eq_ok.2 ⟨_, hitems, rfl⟩
  · have hfilter : (ps.map (·.1)).filter (!List.isEmpty ·) = ps.map (·.1) := by
      refine List.filter_eq_self.2 fun text htext => ?_
      rw [htexts] at htext
      obtain ⟨item, -, rfl⟩ := List.mem_map.1 htext
      simp [unlines_labels_ne_nil item]
    rw [blockText, if_neg (by omega), Nat.add_sub_cancel, hps, Option.map_some, hfilter, htexts, narrated_eq]

theorem lineBlank_written (hne : items ≠ []) (a : Nat) : (⟨a, written items⟩ : Stretch).chars ≠ [] ∧ (⟨a, written items⟩ : Stretch).lineBlank = false := by
  obtain ⟨t, ls, ht, hls⟩ := (linesAll_eq items).resolve_left fun h => hne h.1
  rw [written, hls, Text.unlines_cons_eq]
  refine ⟨List.cons_ne_nil _ _, ?_⟩
  rw [Stretch.lineBlank, Stretch.line_mk_endsLine (newline_notMem_bulletLine ht) (Text.endsLine_led ls)]
  rfl

/-- An item says its label and, on the lines below it, what the items below it say. -/
theorem says_mk (label : Phrase Char.isAlpha) (hbelow : below ≠ [] → 2 ≤ f ∧ ItemsSay (b + 2) (f - 2) below) :
    Says (b + 5) f false (label.text ++ led (linesAll below)) (unlines (labels (mk label below))) := by
  have hend : ∀ a fuel last, Block.paragraphEnd (fuel + 1) last ⟨a, (led (linesAll below)).drop 1⟩ =
      (last, .other, ⟨a, (led (linesAll below)).drop 1⟩) := by
    intro a fuel last
    rcases linesAll_eq below with ⟨-, h⟩ | ⟨t, ls, ht, h⟩
    · rw [h]
      rfl
    · rw [h, Text.led_eq (by simp), List.drop_one, List.tail_cons, Text.unlines_cons_eq]
      exact paragraphEnd_bulletLine ht (Text.endsLine_led ls) a fuel last
  obtain ⟨doc, hdoc⟩ : ∃ doc, doc = label.text ++ led (linesAll below) := ⟨_, rfl⟩
  have hnext := @Page.next_words (Scope.ofText doc []) (innerOf (b + 2) (Scope.ofText doc [])) label.text (led (linesAll below)) 0 false
    (Page.readsProse_innerOf _) label.isPhrase nofun (Text.endsLine_led _) (hend _)
  have hfirst : (⟨0, doc⟩ : Stretch).chars ≠ [] ∧ (⟨0, doc⟩ : Stretch).lineBlank = false := by
    rw [hdoc]
    refine ⟨by simp [label.isPhrase.ne_nil], ?_⟩
    rw [Stretch.lineBlank, Stretch.line_mk_endsLine (notMem_of_isAlpha label.isPhrase rfl (by decide)) (Text.endsLine_led _)]
    exact allBlank_eq_false label.isPhrase
  obtain ⟨p, hp⟩ : ∃ p, p = (Scope.ofText doc []).position 0 (0 + label.text.length) := ⟨_, rfl⟩
  have hsay (position : Option Position) : blockText (.mk .paragraph [.leaf (.text label.text)] position) f = some label.text :=
    Page.blockText_words label.isPhrase (fun _ => isCellChar_of_isAlpha) _ _
  rw [← hdoc, Scope.node, ← hp] at hnext
  rw [← hdoc]
  by_cases hnil : below = []
  · subst hnil
    obtain rfl : doc = label.text := hdoc.trans (List.append_nil _)
    refine ⟨_, [(label.text, some p)], Block.readAll_eq_ok.2 ((Block.reads_block hfirst.1 hfirst.2).2 ⟨_, _, [], hnext, ?_, rfl⟩), ?_, ?_⟩
    · refine (Block.reads_nil ?_).2 rfl
      simp [linesAll]
    · rw [passages, passages, hsay]
      rfl
    · rw [Spoken.joinBlocks_singleton, labels, labelsAll, Text.unlines_singleton]
  · obtain ⟨hf, hitems⟩ := hbelow hnil
    obtain ⟨f, rfl⟩ := Nat.exists_eq_add_of_le' hf
    have hled : led (linesAll below) = '\n' :: written below := by
      obtain ⟨t, ls, -, h⟩ := (linesAll_eq below).resolve_left fun h => hnil h.1
      rw [written, h, Text.led_eq (by simp)]
    have hsplit : doc = label.text ++ ['\n'] ++ written below := by rw [hdoc, hled, List.append_assoc]; rfl
    obtain ⟨last, nodes, hlist, hlistSay⟩ := hitems.next hnil false (label.text ++ ['\n'])
    obtain ⟨hne, hblank⟩ := lineBlank_written hnil (label.text ++ ['\n']).length
    obtain ⟨q, hq⟩ : ∃ q, q = (Scope.ofText doc []).position (label.text ++ ['\n']).length last := ⟨_, rfl⟩
    rw [← hsplit, Scope.node, ← hq] at hlist
    have hsince : (⟨0, doc⟩ : Stretch).since (0 + label.text.length + min 1 (led (linesAll below)).length) =
        ⟨(label.text ++ ['\n']).length, written below⟩ := by
      have hlength : 0 + label.text.length + min 1 (led (linesAll below)).length = 0 + (label.text ++ ['\n']).length := by
        rw [hled, List.length_append, List.length_cons]
        simp
      rw [hlength, Block.since_mk _ _ _ (by simp [hsplit]), hsplit, List.drop_left, Nat.zero_add]
    have hgap : Spoken.gapBetween (some p) (some q) = false := by
      have hlast : 1 ≤ p.endLine := by
        rw [hp]
        exact Scope.one_le_lineOf doc [] _
      have hstart : q.startLine = 2 := by
        have hcount : label.text.count '\n' = 0 :=
          List.count_eq_zero_of_not_mem (notMem_of_isAlpha label.isPhrase rfl (by decide))
        have hline := Scope.lineOf_length (label.text ++ ['\n']) (written below) []
        rw [← hsplit, List.count_append, hcount] at hline
        rw [hq]
        exact hline
      simp only [Spoken.gapBetween, hstart, decide_eq_false_iff_not]
      omega
    have hbelow : Block.Reads (Scope.ofText doc []) (innerOf (b + 2) (Scope.ofText doc [])) false
        ⟨(label.text ++ ['\n']).length, written below⟩ [.mk (.list false) nodes (some q)] := by
      refine (Block.reads_block hne hblank).2 ⟨_, _, [], hlist, (Block.reads_nil ?_).2 rfl, rfl⟩
      rw [Stretch.chars_since, hsplit, List.length_append, Nat.add_sub_cancel_left]
      exact List.drop_length
    rw [← hsince] at hbelow
    refine ⟨_, [(label.text, some p), (narrated below, some q)],
      Block.readAll_eq_ok.2 ((Block.reads_block hfirst.1 hfirst.2).2 ⟨_, _, _, hnext, hbelow, rfl⟩), ?_, ?_⟩
    · rw [Nat.add_sub_cancel] at hlistSay
      rw [passages, passages, passages, hsay, hlistSay]
      rfl
    · rw [joinBlocks_pair label.isPhrase.ne_nil (narrated_ne_nil hnil) hgap, labels,
        Text.unlines_cons _ (labelsAll_ne_nil hnil), narrated]

mutual

/-- An item says its labels. -/
theorem says_item {b f : Nat} : (item : Bullet) → 3 * depth item + 2 ≤ b → 4 * depth item ≤ f + 4 →
    Says b f false (unlines ((lines item).map (·.drop 2))) (unlines (labels item))
  | mk label below, hb, hf => by
    rw [depth] at hb hf
    obtain ⟨b, rfl⟩ := Nat.exists_eq_add_of_le' (show 5 ≤ b by omega)
    have hlines : (lines (mk label below)).map (·.drop 2) = label.text :: linesAll below := by
      rw [lines, List.map_cons, List.map_map]
      exact congrArg _ (List.map_id _)
    rw [hlines, Text.unlines_cons_eq]
    refine says_mk label fun hne => ?_
    have hdepth := depthAll_pos hne
    exact ⟨by omega, itemsSay below (by omega) (by omega)⟩

/-- The items of a list say their labels. -/
theorem itemsSay {b f : Nat} : (items : List Bullet) → 3 * depthAll items + 2 ≤ b → 4 * depthAll items ≤ f + 2 → ItemsSay b f items
  | [], _, _ => itemsSay_nil b f
  | item :: items, hb, hf => by
    have hdepth : 1 ≤ depth item := by
      cases item
      exact Nat.le_add_left 1 _
    rw [depthAll] at hb hf
    obtain ⟨f, rfl⟩ := Nat.exists_eq_add_of_le' (show 2 ≤ f by omega)
    exact ItemsSay.cons (says_item item (by omega) (by omega)) (itemsSay items (by omega) (by omega))

end

/-! ## Lists as documents -/

theorem notMem_written {d : Char} (hd : d.isAlpha = false) (hspace : d ≠ ' ') (hhyphen : d ≠ '-') (hnewline : d ≠ '\n') :
    d ∉ written items := by
  intro hmem
  rcases Text.mem_join hmem with hmem | ⟨l, hl, hmem⟩
  · exact hnewline (List.mem_singleton.1 hmem)
  · exact notMem_linesAll hd hspace hhyphen hl hmem

mutual

theorem fluent_labels : (item : Bullet) → ∀ l ∈ labels item, Spoken.Fluent l
  | mk label below, l, h => by
    rw [labels, List.mem_cons] at h
    rcases h with rfl | h
    · exact Spoken.fluent_phrase (label.isPhrase.imp fun _ => isCellChar_of_isAlpha)
    · exact fluent_labelsAll below l h

/-- Labels need no cleaning up. -/
theorem fluent_labelsAll : (items : List Bullet) → ∀ l ∈ labelsAll items, Spoken.Fluent l
  | [], l, h => by simp [labelsAll] at h
  | item :: items, l, h => by
    rw [labelsAll, List.mem_append] at h
    rcases h with h | h
    · exact fluent_labels item l h
    · exact fluent_labelsAll items l h

end

/-- Lists are narrated item by item, the labels in their order and a line each. -/
theorem extract_bullets (hne : items ≠ []) (hdepth : 4 * depthAll items ≤ Spoken.flatteningBudget) :
    Spoken.extract (written items) = pure (narrated items) := by
  have hflattening : Spoken.flatteningBudget = 970 := rfl
  obtain ⟨last, nodes, hlist, hsay⟩ := (itemsSay (b := 957) (f := 968) items (by omega) (by omega)).next hne true []
  obtain ⟨hchars, hblank⟩ := lineBlank_written hne 0
  have hwhole : Says Tree.nestingBudget Spoken.flatteningBudget true (written items) (narrated items) := by
    refine ⟨_, [(narrated items, some ((Scope.ofText (written items) []).position 0 last))], Block.readAll_eq_ok.2 ((Block.reads_block hchars hblank).2
      ⟨_, _, [], hlist, (Block.reads_nil ?_).2 rfl, rfl⟩), ?_, Spoken.joinBlocks_singleton _ _⟩
    · exact List.drop_length
    · have hbudget : Spoken.flatteningBudget = 968 + 2 := rfl
      rw [passages, passages, Scope.node, hbudget, hsay]
      rfl
  have hfront : Block.frontMatter? (written items) = none := by
    obtain ⟨t, ls, -, hls⟩ := (linesAll_eq items).resolve_left fun h => hne h.1
    rw [written, hls, Text.unlines_cons_eq]
    rfl
  rw [hwhole.extract (notMem_written rfl (by decide) (by decide) (by decide)) hfront
    (Reference.collect_of_notMem (notMem_written rfl (by decide) (by decide) (by decide)))]
  have hfluent : Spoken.Fluent (narrated items) := Spoken.Fluent.join Spoken.separates_newline (labelsAll_ne_nil hne) (fluent_labelsAll items)
  rw [hfluent.cleanUp_eq]

/-- A list of three levels; an item with two words comes last. -/
def shoppingList : List Bullet :=
  [mk ⟨["fruit".toList], by decide, by decide, by decide⟩
    [mk ⟨["apples".toList], by decide, by decide, by decide⟩ [mk ⟨["red".toList], by decide, by decide, by decide⟩ []],
      mk ⟨["pears".toList], by decide, by decide, by decide⟩ []],
    mk ⟨["brown".toList, "bread".toList], by decide, by decide, by decide⟩ []]

theorem extract_bullets_shoppingList : shoppingList ≠ [] ∧ 4 * depthAll shoppingList ≤ Spoken.flatteningBudget ∧
    Spoken.extract "- fruit\n  - apples\n    - red\n  - pears\n- brown bread".toList =
      pure "fruit\napples\nred\npears\nbrown bread".toList :=
  ⟨by decide, by decide, @extract_bullets shoppingList (by decide) (by decide)⟩

end Bullet
end Narration
