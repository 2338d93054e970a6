import Narration.Player.Insertion
import Narration.Proofs.Player.BlockLines
import Narration.Proofs.Player.Import
import Narration.Proofs.Player.Site

/-!
# Entering a narration block

* `Player.Imported`, `Player.exists_imported` : a site below modules that import the component;
* `Player.insertBlock_eq`, `Player.lines_enterBlock` : the lines of an insertion;
* `Player.Fresh` : a document that narration can enter;
* `Player.Carries` : a text in which a narration block stands among the nodes of another;
* `Player.exists_carries` : insertion gives such a text, and the text around the block depends on the name and the path
  only.
-/

namespace Narration.Player
open Markup
open Markup.Block
open Tree (HasFront Framed frontNodes before lead)
open Text (firstLine EndsLine led)

variable {t f x y p q e z m name path : Text} {front : Option Text} {nodes : List Node} {tree : Node} {ks : List Kind}
  {n : Narrated} {b : Buffer}

/-! ## The import -/

/-- Whether modules import a component. -/
def importsName (name : Text) : Kind → Bool
  | .modules source => imports source name
  | _ => false

theorem importsComponent_eq (nodes : List Node) (name : Text) :
    importsComponent nodes name = nodes.any fun n => importsName name n.kind := rfl

theorem isModules_of_importsName {k : Kind} (h : importsName name k) : isModules k := by
  cases k <;> first | rfl | cases h

/-- The line of the import, unless there is one already. -/
def importLines (nodes : List Node) (name path : Text) : List Text :=
  if importsComponent nodes name then [] else [importStatement name path]

/-- Blocks without content up to modules, of which some import the component; the others are modules too, or have
kinds that come before content elsewhere. -/
structure Imported (name : Text) (nodes : List Node) (e z m : Text) (ks : List Kind) : Prop where
  upTo : UpToModules e z m ks
  imports : ∃ k ∈ ks ++ [.modules (Text.trimEnd m)], importsName name k
  kinds : ∀ k ∈ ks ++ [.modules (Text.trimEnd m)], isModules k ∨ ∃ n ∈ opening nodes, n.kind = k

/-- The import enters a site. -/
theorem exists_imported (h : Ends nodes f x e) (he : EndsLine e) (hn : isName name) (hp : isPath path) :
    ∃ z m ks, before f ++ (z ++ m) = x ++ led (importLines nodes name path) ∧ Imported name nodes e z m ks := by
  have hled : led [importStatement name path] = '\n' :: importStatement name path := by
    rw [Text.led_cons, Text.led_nil, List.append_nil]
  cases h with
  | bare hx hnone =>
    have himports : importsComponent nodes name = false := by
      rw [importsComponent_eq, List.any_eq_false]
      intro n hmem himports
      have := isModules_of_importsName himports
      rw [hnone n hmem] at this
      cases this
    have hupTo := upToModules_importStatement hn hp he
    have htrim : Text.trimEnd (importStatement name path) = importStatement name path :=
      trimEnd_importStatement name path []
    refine ⟨['\n'], importStatement name path, [], ?_, hupTo, ?_, ?_⟩
    · rw [importLines, himports, if_neg (by decide), hled, hx]
      rfl
    · exact ⟨_, List.mem_singleton_self _, by rw [htrim]; exact imports_importStatement hn path⟩
    · intro k hk
      rw [List.mem_singleton.1 hk]
      exact .inl rfl
  | @modules z m ks hx hm hkinds hall =>
    by_cases himports : importsComponent nodes name
    · refine ⟨z, m, ks, ?_, hm, ?_, fun k hk => .inr (hkinds k hk)⟩
      · rw [importLines, if_pos himports, Text.led_nil, List.append_nil, hx]
      · rw [importsComponent_eq, List.any_eq_true] at himports
        obtain ⟨n, hn, himports⟩ := himports
        exact ⟨n.kind, hall n hn (isModules_of_importsName himports), himports⟩
    · obtain ⟨z', m', ks', htext, hks, hm', himports'⟩ := exists_import hm he hn hp
      refine ⟨z', m', ks', ?_, hm', ⟨_, List.mem_append_right _ (List.mem_singleton_self _), himports'⟩, ?_⟩
      · rw [importLines, if_neg himports, hled, hx, htext]
        simp only [List.append_assoc]
      · intro k hk
        rcases List.mem_append.1 hk with hk | hk
        · exact .inr (hkinds k (hks hk))
        · rw [List.mem_singleton.1 hk]
          exact .inl rfl

theorem inert_importLines (nodes : List Node) (hn : isName name) (hp : isPath path) :
    ∀ l ∈ importLines nodes name path, Inert l := by
  unfold importLines
  split
  · exact nofun
  · intro l hl
    rw [List.mem_singleton.1 hl]
    exact inert_importStatement hn hp

/-! ## The lines of an insertion -/

/-- A blank line towards a line that is filled. -/
def gap (filled : Bool) : List Text := if filled then [[]] else []

/-- The blank line below a text, if its last line is filled. -/
def gapAbove (p : Text) : List Text := gap ((Text.lines p).tail.getLast?.any (!Text.allBlank ·))

/-- The blank line above a text, if its first line is filled. -/
def gapBelow (q : Text) : List Text := gap ((Text.lines q).tail.head?.any (!Text.allBlank ·))

theorem inert_gap (filled : Bool) : ∀ l ∈ gap filled, Inert l := by
  cases filled with
  | false => exact nofun
  | true =>
    intro l hl
    rw [List.mem_singleton.1 hl]
    exact inert_nil

theorem backtick_notMem_gap (filled : Bool) : '\x60' ∉ led (gap filled) := by
  cases filled <;> decide

theorem led_gap_append (filled : Bool) : led (gap filled) ++ ['\n'] = ['\n'] ++ led (gap filled) := by
  cases filled <;> rfl

theorem passes_gap (filled : Bool) (r : Text) : Passes r (led (gap filled)) [] := by
  cases filled with
  | false => exact .nil
  | true => exact .blank (l := []) List.not_mem_nil rfl .nil

/-- The line at which a block enters, when no import does. -/
def entryLine (nodes : List Node) (afterImports : Bool) : Nat :=
  match firstContent? nodes with
  | some first => if afterImports then anchorLine nodes else first - 1
  | none => anchorLine nodes

theorem insertBlock_eq (b : Buffer) (tree : Node) (n : Narrated) {afterImports : Bool}
    (h : anchorLine tree.children ≤ entryLine tree.children afterImports) : insertBlock b tree n afterImports =
      enterBlock (b.splice (anchorLine tree.children) 0 (importLines tree.children n.name n.path))
        (entryLine tree.children afterImports + (importLines tree.children n.name n.path).length) (blockLines n) := by
  unfold insertBlock importLines
  dsimp only
  split
  · have hsame : b.splice (anchorLine tree.children) 0 [] = b := by
      rw [Buffer.splice, List.append_nil, Nat.add_zero, List.take_append_drop]
    rw [hsame]
    rfl
  · have hline : (if anchorLine tree.children ≤ entryLine tree.children afterImports then
        entryLine tree.children afterImports + 1 else entryLine tree.children afterImports) =
        entryLine tree.children afterImports + 1 := if_pos h
    exact congrArg (enterBlock (b.splice (anchorLine tree.children) 0 [importStatement n.name n.path]) · (blockLines n)) hline

theorem newline_insertBlock (b : Buffer) (tree : Node) (n : Narrated) (afterImports : Bool) :
    (insertBlock b tree n afterImports).newline = b.newline := by
  unfold insertBlock
  dsimp only
  split <;> rfl

/-- A block enters below some line, with blank lines around it. -/
theorem lines_enterBlock (ht : '\n' :: t = p ++ q) (hq : EndsLine q) (hb : b.lines = Text.lines t) (block : List Text) :
    (enterBlock b (p.count '\n') block).lines =
      (Text.lines p).tail ++ (gapAbove p ++ block ++ gapBelow q) ++ (Text.lines q).tail := by
  have hlines := hb.trans (Text.lines_of_append ht hq)
  have hlength := Text.length_tail_lines p
  have habove : (decide (0 < p.count '\n') && b.lines[p.count '\n' - 1]?.any fun t => !Text.allBlank t) =
      (Text.lines p).tail.getLast?.any (!Text.allBlank ·) := by
    rw [hlines, ← hlength]
    generalize (Text.lines p).tail = ls
    rcases List.eq_nil_or_concat ls with rfl | ⟨ls, l, rfl⟩
    · rfl
    · simp
  have hbelow : (b.lines[p.count '\n']?.any fun t => !Text.allBlank t) =
      (Text.lines q).tail.head?.any (!Text.allBlank ·) := by
    rw [hlines, ← hlength, List.getElem?_append_right (Nat.le_refl _), Nat.sub_self, List.head?_eq_getElem?]
  rw [enterBlock, Buffer.lines_splice ht hq hb]
  simp only [habove, hbelow]
  rfl

theorem inert_entry (hn : Writable n) (above below : Bool) : ∀ l ∈ gap above ++ blockLines n ++ gap below, Inert l := by
  intro l hl
  rw [List.mem_append, List.mem_append] at hl
  rcases hl with (hl | hl) | hl
  · exact inert_gap above l hl
  · exact inert_blockLines hn l hl
  · exact inert_gap below l hl

/-- The lines of a text with a block below a line `y`, and the import above it. -/
theorem lines_insertBlock {t' : Text} {afterImports : Bool} (ht : '\n' :: t = x ++ (y ++ q)) (he : EndsLine (y ++ q))
    (hq : EndsLine q) (hanchor : anchorLine tree.children = x.count '\n')
    (hline : entryLine tree.children afterImports = (x ++ y).count '\n') (hn : Writable n)
    (hp : p = x ++ led (importLines tree.children n.name n.path) ++ y)
    (ht' : '\n' :: t' = p ++ led (gapAbove p ++ blockLines n ++ gapBelow q) ++ q) (hb : b.lines = Text.lines t) :
    (insertBlock b tree n afterImports).lines = Text.lines t' := by
  have hnew (l : Text) (hl : l ∈ importLines tree.children n.name n.path) : '\n' ∉ l :=
    (inert_importLines tree.children hn.name hn.path l hl).newline
  obtain ⟨s, hs⟩ := Text.exists_enter ht (importLines tree.children n.name n.path)
  have hb' : (b.splice (anchorLine tree.children) 0 (importLines tree.children n.name n.path)).lines = Text.lines s := by
    rw [hanchor, Buffer.lines_splice ht he hb, lines_led hs he hnew]
  have hs' : '\n' :: s = p ++ q := by rw [hs, hp, List.append_assoc _ y q]
  have hcount : entryLine tree.children afterImports + (importLines tree.children n.name n.path).length =
      p.count '\n' := by
    rw [hline, hp, ← Text.count_led hnew, List.count_append, List.count_append, List.count_append]
    omega
  have hblock (l : Text) (hl : l ∈ gapAbove p ++ blockLines n ++ gapBelow q) : '\n' ∉ l :=
    (inert_entry hn _ _ l hl).newline
  rw [insertBlock_eq, hcount, lines_enterBlock hs' hq hb', lines_led ht' hq hblock]
  rw [hanchor, hline, List.count_append]
  exact Nat.le_add_right _ _

/-! ## Reading what was entered -/

/-- The nodes of a text that has a narration block between `a` and `b`: some without content, the block, and the nodes
of another text below it. -/
structure Carries (nodes : List Node) (n : Narrated) (a b : Text) (scope : Scope) (above below : List Node) : Prop where
  carriage : '\r' ∉ a ++ blockText n ++ b
  read : Tree.read (a ++ blockText n ++ b) = .ok (scope.node .root 0 (a ++ blockText n ++ b).length
    (above ++ (blockNodes scope a.length n ++ below)))
  leaf : ∀ q ∈ above, q.children = [] ∧
    (isModules q.kind ∨ isFrontMatter q.kind ∨ ∃ n ∈ opening nodes, n.kind = q.kind)
  imports : importsComponent above n.name
  below : ∃ qs, (∀ q ∈ qs, q ∈ opening nodes) ∧ Alike (qs ++ body nodes) below

variable {a b c u v : Text} {qs ms : List Node} {references : List Reference} {scope : Scope}

theorem leaf_frontNodes {q : Node} (h : q ∈ frontNodes scope f front) : q.children = [] ∧ isFrontMatter q.kind := by
  obtain ⟨source, rfl⟩ := Tree.exists_of_mem_frontNodes h
  exact ⟨rfl, rfl⟩

/-- A narration block below blocks without content. -/
theorem carries_of_passes (hframed : Framed (a ++ blockText n ++ b) f front references)
    (ha : '\n' :: a = before f ++ p) (hp : Passes (blockText n ++ b) p ks)
    (hkinds : ∀ k ∈ ks, isModules k ∨ ∃ n ∈ opening nodes, n.kind = k) (himports : ∃ k ∈ ks, importsName n.name k)
    (hb : EndsLine b) (hv : b = v ++ c) (hblank : Passes c v [])
    (hreads : Reads (Scope.ofText (u ++ c) references) (innerOf 957 (Scope.ofText (u ++ c) references)) true
      ⟨u.length, c⟩ (qs ++ body nodes))
    (hqs : ∀ q ∈ qs, q ∈ opening nodes) (hn : Writable n) :
    ∃ scope above below, Carries nodes n a b scope above below := by
  obtain ⟨ns, hns, hsame⟩ := hreads.exists_alike (a ++ blockText n ++ v)
  have htext : a ++ blockText n ++ v ++ c = a ++ blockText n ++ b := by rw [hv, List.append_assoc _ v]
  rw [htext, List.length_append] at hns
  obtain ⟨ps, hps, hnil, -⟩ := hblank.reads hns
  obtain rfl : ps = [] := List.map_eq_nil_iff.1 hnil
  rw [← hv, List.nil_append, List.length_append] at hps
  have hblock := (reads_narration hn.digest hn.name hb).2 ⟨_, hps, rfl⟩
  rw [List.append_assoc] at hframed hblock
  generalize hscope : Scope.ofText (a ++ (blockText n ++ b)) references = scope at hblock
  obtain ⟨ts, hread, hts, hleaf⟩ := Tree.exists_read ha hframed.front hp (by rw [hframed.references, hscope]) hblock
  refine ⟨scope, frontNodes scope f front ++ ts, ns, ?_, ?_, ?_, ?_, qs, hqs, hsame⟩
  · rw [List.append_assoc]
    exact hframed.carriage
  · rw [List.append_assoc a, List.append_assoc (frontNodes _ f front)]
    exact hread
  · intro q hq
    rcases List.mem_append.1 hq with hq | hq
    · obtain ⟨hchildren, hkind⟩ := leaf_frontNodes hq
      exact ⟨hchildren, .inr (.inl hkind)⟩
    · refine ⟨(hleaf q hq).1, ?_⟩
      rcases hkinds q.kind (hts ▸ List.mem_map_of_mem hq) with hkind | hkind
      · exact .inl hkind
      · exact .inr (.inr hkind)
  · obtain ⟨k, hk, himports⟩ := himports
    rw [← hts, List.mem_map] at hk
    obtain ⟨q, hq, rfl⟩ := hk
    rw [importsComponent_eq, List.any_eq_true]
    exact ⟨q, List.mem_append_right _ hq, himports⟩

/-- A block enters below `w`, all of which has no content. -/
theorem exists_carries_of {w : Text} {afterImports : Bool} (hframed : Framed t f front references)
    (hsite : Site t tree.children f x (y ++ q) front) (hq : EndsLine q)
    (hline : entryLine tree.children afterImports = (x ++ y).count '\n')
    (hw : before f ++ w = x ++ led (importLines tree.children name path) ++ y)
    (hpasses : ∀ n, Writable n → Passes (blockText n ++ (led (gapBelow q) ++ q))
      (w ++ led (gapAbove (before f ++ w)) ++ ['\n']) ks)
    (hkinds : ∀ k ∈ ks, isModules k ∨ ∃ n ∈ opening tree.children, n.kind = k) (himports : ∃ k ∈ ks, importsName name k)
    (hv : led (gapBelow q) ++ q = v ++ c) (hblank : Passes c v [])
    (hreads : Reads (Scope.ofText (u ++ c) references) (innerOf 957 (Scope.ofText (u ++ c) references)) true
      ⟨u.length, c⟩ (qs ++ body tree.children))
    (hqs : ∀ q ∈ qs, q ∈ opening tree.children) :
    ∃ a b, ∀ n, Writable n → n.name = name → n.path = path →
      (∀ buffer : Buffer, buffer.lines = Text.lines t →
        (insertBlock buffer tree n afterImports).lines = Text.lines (a ++ blockText n ++ b)) ∧
      ∃ scope above below, Carries tree.children n a b scope above below := by
  generalize hpw : before f ++ w = p at hw hpasses
  obtain ⟨s, hs⟩ := Text.exists_enter hsite.text (importLines tree.children name path)
  have hs' : '\n' :: s = p ++ q := by rw [hs, hw, List.append_assoc _ y q]
  obtain ⟨a, ha⟩ : ∃ a, '\n' :: a = p ++ led (gapAbove p) ++ ['\n'] := by
    cases p with
    | nil => exact ⟨[], rfl⟩
    | cons c p =>
      obtain ⟨rfl, -⟩ := List.cons.inj hs'
      exact ⟨_, rfl⟩
  have hb : EndsLine (led (gapBelow q) ++ q) := (Text.endsLine_led _).append hq
  refine ⟨a, led (gapBelow q) ++ q, fun n hn hname hpath => ?_⟩
  subst hname hpath
  have htext : '\n' :: (a ++ blockText n ++ (led (gapBelow q) ++ q)) =
      p ++ led (gapAbove p ++ blockLines n ++ gapBelow q) ++ q := by
    rw [Text.led_append, Text.led_append, led_blockLines, ← List.cons_append, ← List.cons_append, ha]
    simp only [List.append_assoc, List.cons_append, List.nil_append]
  have hbefore : before f <+: p := hpw ▸ List.prefix_append _ _
  have hframed' := (hframed.enter hsite.text hs hsite.ends (inert_importLines tree.children hn.name hn.path)
    hsite.below).enter hs' htext hq (inert_entry hn _ _) hbefore
  refine ⟨fun buffer hbuffer => lines_insertBlock hsite.text hsite.ends hq hsite.anchor hline hn hw htext hbuffer, ?_⟩
  refine carries_of_passes hframed' ?_ (hpasses n hn) hkinds himports hb hv hblank hreads hqs hn
  rw [ha, ← hpw]
  simp only [List.append_assoc]

theorem last_line_modules {g a b : Text} (h : UpToModules e z m ks) (he : EndsLine e) (hab : g ++ m = a ++ '\n' :: b)
    (hb : '\n' ∉ b) : Text.allBlank b = false := by
  have hlast {u : Text} (hm : m = u ++ '\n' :: b) : Text.allBlank b = false := by
    have htake : (m ++ e).take (modulesLength 0 0 (m ++ e)) = m := by rw [h.length, List.take_left]
    exact modulesLength_lastLine 0 (m ++ e) (htake.trans hm) hb
  rcases List.append_eq_append_iff.1 hab with ⟨a', -, hm⟩ | ⟨c, -, hc⟩
  · exact hlast hm
  · cases c with
    | nil => exact hlast (u := []) hc.symm
    | cons d c =>
      obtain ⟨-, rfl⟩ := List.cons.inj hc
      have hline : firstLine (m ++ e) = m := by
        rw [he.firstLine_append, firstLine, Text.takeWhile_lastLine fun hmem => hb (List.mem_append_right _ hmem)]
      have hfilled := h.line
      rw [hline] at hfilled
      rw [← Bool.not_eq_true, Text.allBlank, List.all_eq_true] at hfilled ⊢
      exact fun hall => hfilled fun x hx => hall x (List.mem_append_right _ hx)

/-- The last line of modules is filled. -/
theorem gapAbove_modules {w s : Text} (h : UpToModules e z m ks) (he : EndsLine e)
    (hs : '\n' :: s = w ++ (z ++ m) ++ e) : gapAbove (w ++ (z ++ m)) = [[]] := by
  have hmem : '\n' ∈ w ++ (z ++ m) := by
    cases hp : w ++ (z ++ m) with
    | nil =>
      simp only [List.append_eq_nil_iff] at hp
      exact absurd hp.2.2 h.nonempty
    | cons c p =>
      rw [hp] at hs
      rw [(List.cons.inj hs).1]
      exact List.mem_cons_self
  rcases exists_last (· = '\n') (w ++ (z ++ m)) with hnone | ⟨a, c, b, hab, hc, hb⟩
  · have := hnone _ hmem
    simp at this
  · obtain rfl : c = '\n' := by simpa using hc
    have hb : '\n' ∉ b := fun hmem => by simpa using hb _ hmem
    have hfilled := last_line_modules h he ((List.append_assoc w z m).trans hab) hb
    have hlast : (Text.lines (w ++ (z ++ m))).tail.getLast? = some b := by
      rw [hab, Text.lines_append (.inr ⟨b, rfl⟩), Text.lines_newline, List.tail_cons, Text.lines_of_notMem hb,
        List.tail_append_of_ne_nil (Text.lines_ne_nil a), List.getLast?_concat]
    rw [gapAbove, hlast, Option.any_some, hfilled]
    rfl

/-! ## Below the imports -/

theorem Below.exists_text {l r : Text} {o : Nat} (h : Below t nodes e l r o qs) : ∃ u, t = u ++ r ∧ u.length = o := by
  refine ⟨t.take o, ?_, List.length_take_of_le ?_⟩
  · rw [← h.start, List.take_append_drop]
  · have := h.stop
    omega

theorem getLast?_blockText_append (n : Narrated) {filled : Bool} :
    (blockText n ++ led (gap filled)).getLast? ≠ some '\\' := by
  rw [List.getLast?_append, getLast?_blockText]
  cases filled <;> decide

/-- A block enters below the imports. -/
theorem exists_carries_belowImports {l r : Text} {o : Nat} {afterImports : Bool}
    (hframed : Framed t f front (Reference.collect t)) (hsite : Site t tree.children f x e front)
    (hends : Ends tree.children f x e) (hbelow : Below t tree.children e l r o qs)
    (hline : entryLine tree.children afterImports = anchorLine tree.children) (hn : isName name) (hp : isPath path) :
    ∃ a b, ∀ n, Writable n → n.name = name → n.path = path →
      (∀ buffer : Buffer, buffer.lines = Text.lines t →
        (insertBlock buffer tree n afterImports).lines = Text.lines (a ++ blockText n ++ b)) ∧
      ∃ scope above below, Carries tree.children n a b scope above below := by
  obtain ⟨z, m, ks, htext, himported⟩ := exists_imported hends hsite.ends hn hp
  obtain ⟨s, hs⟩ := Text.exists_enter hsite.text (importLines tree.children name path)
  have habove : gapAbove (before f ++ (z ++ m)) = [[]] := gapAbove_modules himported.upTo hsite.ends (by rw [hs, htext])
  obtain ⟨u, rfl, rfl⟩ := hbelow.exists_text
  refine exists_carries_of (y := []) (w := z ++ m) (v := led (gapBelow e) ++ l) hframed hsite hsite.ends
    (by rw [List.append_nil, hline, hsite.anchor]) (by rw [List.append_nil, htext]) (fun n hn => ?_) himported.kinds
    himported.imports ?_ ?_ hbelow.reads hbelow.quiet
  · have hback : '\x60' ∉ blockText n ++ led (gapBelow e) := by
      rw [List.mem_append, not_or]
      exact ⟨backtick_notMem_blockText hn, backtick_notMem_gap _⟩
    have hpasses := (himported.upTo.enter hsite.ends hback (getLast?_blockText_append n)).passes
    have hgap : Passes (blockText n ++ (led (gapBelow e) ++ e)) ['\n', '\n'] [] :=
      .blank (l := []) List.not_mem_nil rfl (.blank (l := []) List.not_mem_nil rfl .nil)
    rw [List.append_assoc] at hpasses
    have hall : Passes (blockText n ++ (led (gapBelow e) ++ e)) (z ++ m ++ ['\n', '\n'])
        (ks ++ [.modules (Text.trimEnd m)] ++ []) := hpasses.append hgap
    rw [List.append_nil] at hall
    rw [habove, List.append_assoc]
    exact hall
  · rw [hbelow.text, List.append_assoc]
  · exact (passes_gap _ _).append hbelow.blank

/-! ## Above the first content -/

theorem find?_opening (nodes : List Node) :
    (opening nodes).find? (fun n => isContent n.kind && n.position.isSome) = none := by
  rw [List.find?_eq_none]
  intro n hn
  rw [isContent_of_mem_opening hn, Bool.false_and]
  decide

theorem firstContent?_eq {k : Node} {position : Position} (hbody : body nodes = k :: ms)
    (hposition : k.position = some position) : firstContent? nodes = some position.startLine := by
  have hk : isContent k.kind := by
    rcases body_cases nodes with hnil | ⟨n, ns, hns, hn⟩
    · rw [hbody] at hnil
      cases hnil
    · rw [hbody] at hns
      cases hns
      exact hn
  rw [firstContent?, ← append_body nodes, List.find?_append, find?_opening, Option.none_or, hbody,
    List.find?_cons_of_pos (by rw [hk, hposition]; rfl), Option.bind_some, hposition, Option.map_some]

/-- The text up to the line of the first content. -/
theorem exists_content {k : Node} {l r : Text} {o : Nat} (hbelow : Below t nodes e l r o qs) (he : EndsLine e)
    (hclear : ∀ n ∈ opening nodes, isClear t n) (hbody : body nodes = k :: ms) :
    ∃ y u c, e = y ++ '\n' :: c ∧ t = u ++ c ∧ Text.allBlank (firstLine c) = false ∧
      Passes c (y ++ ['\n']) (qs.map Node.kind) ∧
      Reads (Scope.ofText t (Reference.collect t)) (innerOf 957 (Scope.ofText t (Reference.collect t))) true
        ⟨u.length, c⟩ (body nodes) ∧ firstContent? nodes = some (u.count '\n' + 1) := by
  obtain ⟨p, d, rfl, hp, hreads, hstarts⟩ := exists_passes hbelow.reads hbelow.start
    (fun q hq => isContent_of_mem_opening (hbelow.quiet q hq)) fun q hq => hclear q (hbelow.quiet q hq)
  rw [hbody] at hreads
  obtain ⟨b, c, stop, rfl, hb, hbend, hc, hfilled, hnext, -, hrest⟩ := hreads.head
  have hall : Passes c (l ++ (p ++ b)) (qs.map Node.kind) := by
    have hpb := hp.append hb
    rw [List.append_nil] at hpb
    have hblank := hbelow.blank
    rw [← List.append_assoc] at hblank
    exact hblank.append hpb
  have hne : ¬EndsLine c := by
    rintro (hnil | ⟨v, rfl⟩)
    · exact hc hnil
    · cases hfilled
  have hlast : (l ++ (p ++ b)).getLast? = some '\n' := by
    rcases hbend with rfl | hb
    · rw [List.append_nil]
      rcases hstarts with rfl | hp | hblank
      · rw [List.append_nil]
        refine hbelow.blank.getLast?_eq.resolve_left fun hl => hne ?_
        rwa [hbelow.text, hl] at he
      · rw [List.getLast?_append, hp]
        rfl
      · rw [List.nil_append, hfilled] at hblank
        cases hblank
    · rw [List.getLast?_append, List.getLast?_append, hb]
      rfl
  obtain ⟨y, hy⟩ := List.getLast?_eq_some_iff.1 hlast
  obtain ⟨w, rfl, rfl⟩ := hbelow.exists_text
  have hlength : w.length + p.length + b.length = (w ++ (p ++ b)).length := by
    simp only [List.length_append, Nat.add_assoc]
  have htext : w ++ (p ++ (b ++ c)) = w ++ (p ++ b) ++ c := by simp only [List.append_assoc]
  rw [hlength, htext] at hnext
  refine ⟨y, w ++ (p ++ b), c, ?_, htext, hfilled, hy ▸ hall, ?_, ?_⟩
  · have he : e = l ++ (p ++ b) ++ c := by rw [hbelow.text, List.append_assoc l, List.append_assoc p]
    rw [he, hy, List.append_assoc, List.singleton_append]
  · rw [hbody, reads_block hc (by rw [lineBlank_mk, hfilled]), htext]
    rw [hlength, htext] at hrest
    exact ⟨k, stop, ms, hnext, hrest, rfl⟩
  · obtain ⟨position, hposition, hline⟩ := startLine_next hfilled hnext
    rw [firstContent?_eq hbody hposition, hline]

theorem isQuote_of_mem_stamp {digest : Text} (h : isDigest digest) {d : Char} (hd : d ∈ stamp digest) :
    Braces.isQuote d = false ∧ d ≠ '\\' := by
  have hnone {d : Char} (hc : isDigestChar d = false) (hsigns : d ∉ ['/', '*', ' ', ':']) (hlabel : d ∉ label)
      (hopen : d ≠ '\x7b') (hclose : d ≠ '\x7d') : d ∉ stamp digest := by
    rw [stamp_eq, List.mem_cons, List.mem_append, List.mem_singleton]
    rintro (rfl | hmem | rfl)
    · exact hopen rfl
    · exact notMem_stampSource h hc hsigns hlabel hmem
    · exact hclose rfl
  refine ⟨?_, fun heq => hnone (by decide) (by decide) (by decide) (by decide) (by decide) (heq ▸ hd)⟩
  rw [← Bool.not_eq_true]
  intro hq
  rcases (show d = '"' ∨ d = '\'' ∨ d = '\x60' by simpa [Braces.isQuote, or_assoc] using hq) with rfl | rfl | rfl
  all_goals exact hnone (by decide) (by decide) (by decide) (by decide) (by decide) hd

theorem firstLine_blockText (hn : Writable n) (x : Text) : firstLine (blockText n ++ x) = stamp n.digest := by
  have hline : '\n' ∉ stamp n.digest := (inert_blockLines hn _ List.mem_cons_self).newline
  rw [blockText, List.append_assoc, List.cons_append, firstLine, Text.takeWhile_line hline]

theorem isTableRule_stamp (digest : Text) : LineForm.isTableRule (Text.trim (stamp digest)) = false := by
  rw [trim_stamp, stamp_eq]
  exact LineForm.isTableRule_cons (by decide) (by decide) (by decide) (by decide) _

/-- Blocks without content are the same when a narration block comes after them. -/
theorem Passes.exchange_block {p c : Text} (h : Passes c (p ++ ['\n']) ks) (hc : Text.allBlank (firstLine c) = false)
    (filled : Bool) (hn : Writable n) :
    Passes (blockText n ++ '\n' :: '\n' :: c) (p ++ ['\n'] ++ led (gap filled)) ks := by
  have hgap := passes_gap filled (blockText n ++ '\n' :: '\n' :: c)
  have hfirst : firstLine (led (gap filled) ++ (blockText n ++ '\n' :: '\n' :: c)) = [] ∨
      firstLine (led (gap filled) ++ (blockText n ++ '\n' :: '\n' :: c)) = stamp n.digest := by
    cases filled with
    | false => exact .inr (firstLine_blockText hn _)
    | true => exact .inl rfl
  have hall : Passes (led (gap filled) ++ (blockText n ++ '\n' :: '\n' :: c)) (p ++ ['\n']) ks := by
    refine h.exchange_line hc (.inr (by simp)) (by simp) ?_ ?_ fun hback => ?_
    · rcases hfirst with hfirst | hfirst
      · rw [hfirst]
        rfl
      · rw [hfirst, trim_stamp, stamp_eq]
        exact LineForm.isTableRule_cons (by decide) (by decide) (by decide) (by decide) _
    · intro d hd
      rcases hfirst with hfirst | hfirst
      · rw [hfirst] at hd
        cases hd
      · rw [hfirst] at hd
        exact isQuote_of_mem_stamp hn.digest hd
    · have hparts : led (gap filled) ++ (blockText n ++ '\n' :: '\n' :: c) =
          led (gap filled) ++ blockText n ++ ['\n', '\n'] ++ c := by simp
      rw [hparts]
      refine (Braces.stringTail?_backtick ?_ (by simp) c).2 hback
      have hblock := backtick_notMem_blockText hn
      have hled := backtick_notMem_gap filled
      simp [hblock, hled]
  have happend := hall.append hgap
  rwa [List.append_nil] at happend

/-- A block enters above the first content. -/
theorem exists_carries_aboveContent {k : Node} {l r : Text} {o : Nat}
    (hframed : Framed t f front (Reference.collect t)) (hsite : Site t tree.children f x e front)
    (hends : Ends tree.children f x e) (hbelow : Below t tree.children e l r o qs)
    (hclear : ∀ n ∈ opening tree.children, isClear t n) (hbody : body tree.children = k :: ms)
    (hn : isName name) (hp : isPath path) :
    ∃ a b, ∀ n, Writable n → n.name = name → n.path = path →
      (∀ buffer : Buffer, buffer.lines = Text.lines t →
        (insertBlock buffer tree n false).lines = Text.lines (a ++ blockText n ++ b)) ∧
      ∃ scope above below, Carries tree.children n a b scope above below := by
  obtain ⟨z, m, ks, htext, himported⟩ := exists_imported hends hsite.ends hn hp
  obtain ⟨y, u, c, rfl, rfl, hfilled, hpasses, hreads, hfirst⟩ := exists_content hbelow hsite.ends hclear hbody
  have hgap : gapBelow ('\n' :: c) = [[]] := by
    rw [gapBelow, Text.lines_newline, List.tail_cons, Text.head?_lines, Option.any_some, hfilled]
    rfl
  have hline : entryLine tree.children false = (x ++ y).count '\n' := by
    have hu : '\n' :: u = x ++ y ++ ['\n'] := by
      have happend : '\n' :: u ++ c = x ++ y ++ ['\n'] ++ c := by simpa using hsite.text
      exact List.append_cancel_right happend
    have hcount : u.count '\n' + 1 = (x ++ y).count '\n' + ['\n'].count '\n' := by
      rw [← List.count_append, ← hu, List.count_cons_self]
    rw [entryLine, hfirst]
    exact Nat.succ.inj hcount
  have hall : Passes c (z ++ m ++ (y ++ ['\n'])) (ks ++ [.modules (Text.trimEnd m)] ++ qs.map Node.kind) := by
    have hmodules := himported.upTo.passes
    rw [← List.singleton_append, ← List.append_assoc] at hmodules
    exact hmodules.append hpasses
  have hblank : Passes c ['\n', '\n'] [] :=
    .blank (l := []) List.not_mem_nil rfl (.blank (l := []) List.not_mem_nil rfl .nil)
  have hnone : ∀ q ∈ ([] : List Node), q ∈ opening tree.children := fun q hq => nomatch hq
  have hblock (n : Narrated) (hn : Writable n) : Passes (blockText n ++ (led (gapBelow ('\n' :: c)) ++ '\n' :: c))
      (z ++ m ++ y ++ led (gapAbove (before f ++ (z ++ m ++ y))) ++ ['\n'])
      (ks ++ [.modules (Text.trimEnd m)] ++ qs.map Node.kind) := by
    rw [← List.append_assoc] at hall
    rw [hgap, List.append_assoc (z ++ m ++ y), gapAbove, led_gap_append, ← List.append_assoc (z ++ m ++ y)]
    exact Passes.exchange_block hall hfilled _ hn
  have hkinds (k : Kind) (hk : k ∈ ks ++ [.modules (Text.trimEnd m)] ++ qs.map Node.kind) :
      isModules k ∨ ∃ n ∈ opening tree.children, n.kind = k := by
    rcases List.mem_append.1 hk with hk | hk
    · exact himported.kinds k hk
    · obtain ⟨q, hq, rfl⟩ := List.mem_map.1 hk
      exact .inr ⟨q, hbelow.quiet q hq, rfl⟩
  obtain ⟨k, hk, himports⟩ := himported.imports
  have htext' : before f ++ (z ++ m ++ y) = x ++ led (importLines tree.children name path) ++ y := by
    rw [← htext]
    simp only [List.append_assoc]
  exact exists_carries_of hframed hsite (.inr ⟨c, rfl⟩) hline htext' hblock hkinds ⟨k, List.mem_append_left _ hk, himports⟩
    (by rw [hgap]; rfl) hblank hreads hnone

/-! ## Documents that narration can enter -/

/-- A document into which narration blocks of a component can be written: it has neither the component nor stamps, its
labels close, and its nodes are clear. -/
structure Fresh (t : Text) (tree : Node) (name : Text) : Prop where
  carriage : '\r' ∉ t
  read : Tree.read t = .ok tree
  absent : uses tree name = []
  unstamped : ∀ n ∈ tree.walk, isStamp n = false
  labels : ∀ l ∈ Text.lines t, Reference.closesLabel l
  clear : Clear t tree.children

/-- Whether narration can enter a document with some tree. -/
def isFresh (t name : Text) (tree : Node) : Bool :=
  !t.contains '\r' && (uses tree name).isEmpty && !tree.walk.any isStamp && (Text.lines t).all Reference.closesLabel &&
    !(body tree.children).any (isModules ·.kind) && (opening tree.children).all (isClear t)

theorem fresh_of_isFresh (hread : Tree.read t = .ok tree) (h : isFresh t name tree) : Fresh t tree name := by
  simp only [isFresh, Bool.and_eq_true, Bool.not_eq_true', List.contains_eq_mem, decide_eq_false_iff_not,
    List.isEmpty_iff, List.any_eq_false, List.all_eq_true, Bool.not_eq_true] at h
  obtain ⟨⟨⟨⟨⟨hcarriage, habsent⟩, hunstamped⟩, hlabels⟩, hmodules⟩, hmarkup⟩ := h
  exact ⟨hcarriage, hread, habsent, hunstamped, hlabels, hmodules, hmarkup⟩

/-- Narration enters a document, between texts that depend on the name and the path of the component only. -/
theorem exists_carries (h : Fresh t tree name) (hn : isName name) (hp : isPath path) (afterImports : Bool) :
    ∃ a b, ∀ n, Writable n → n.name = name → n.path = path →
      (∀ buffer : Buffer, buffer.lines = Text.lines t →
        (insertBlock buffer tree n afterImports).lines = Text.lines (a ++ blockText n ++ b)) ∧
      ∃ scope above below, Carries tree.children n a b scope above below := by
  obtain ⟨f, front, x, e, l, r, o, qs, hsite, hends, hbelow⟩ := exists_site h.carriage h.read h.clear
  have hframed : Framed t f front (Reference.collect t) := ⟨hsite.front, h.carriage, h.labels, rfl⟩
  rcases body_cases tree.children with hbody | ⟨k, ms, hbody, -⟩
  · have hnone : firstContent? tree.children = none := by
      rw [firstContent?, ← append_body tree.children, hbody, List.append_nil, find?_opening, Option.bind_none]
    refine exists_carries_belowImports hframed hsite hends hbelow ?_ hn hp
    rw [entryLine, hnone]
  · cases afterImports with
    | false => exact exists_carries_aboveContent hframed hsite hends hbelow h.clear.markup hbody hn hp
    | true =>
      refine exists_carries_belowImports hframed hsite hends hbelow ?_ hn hp
      unfold entryLine
      split <;> rfl

end Narration.Player
