import Narration.Proofs.Markup.Laid.Tree
import Narration.Proofs.Markup.Origin.Block
import Narration.Proofs.Player.Injected
import Narration.Proofs.Player.Pieces

/-!
# Removal undoes injection

* `Player.unmarked_of_free` : a document with neither the name of a component nor the label has no marks;
* `Player.remove_inject` : what removal makes of a document into which narration was injected;
* `Player.locate_remove` : nothing is found in a page from which narration was removed.
-/

namespace Narration

/-- A text in which all blanks are spaces, tabs and line feeds. -/
theorem Markup.tidy_of_blank {t : Text} (h : ∀ c ∈ t, Text.isBlank c → Text.isSpaceOrTab c ∨ c = '\n') : Tidy t := by
  refine List.Pairwise.isChain (List.pairwise_of_forall_mem_list ?_)
  intro a _ c hc _ hblank
  exact h c hc hblank

namespace Player
open Markup
open Text (IsNewline ended below Excerpt)
open Buffer (filled filled_append)

variable {d t name newline : Text} {tree m : Node} {n : Narrated} {b : Buffer} {ps : List Piece} {ls : List Text}

/-! ## Documents without narration -/

theorem label_infix_of_digest? {source : Text} (h : (digest? source).isSome) : label <:+: source := by
  induction source with
  | nil => cases h
  | cons c t ih =>
    rw [digest?] at h
    split at h
    · next digest r hcomment =>
      obtain ⟨z, y, z', heq, -, -⟩ := comment?_eq_some hcomment
      rw [heq]
      simp only [List.append_assoc]
      exact (List.prefix_append label _).isInfix.trans ((List.suffix_append _ _).trans (List.suffix_append _ _)).isInfix
    · exact List.infix_cons (ih h)

theorem infix_of_after? {u v : Text} (h : (Text.after? u t) = some v) : u <:+: t := by
  rw [Text.after?_eq_some.1 h]
  exact (List.prefix_append u v).isInfix

theorem infix_of_bracesHold {before : Char} (h : bracesHold name before t) : name <:+: t := by
  induction t generalizing before with
  | nil => cases h
  | cons c t ih =>
    rw [bracesHold, Bool.or_eq_true, Bool.and_eq_true] at h
    rcases h with h | ⟨-, h⟩
    · obtain ⟨v, hv, -⟩ := (Option.any_eq_true _ _).1 h
      obtain ⟨rest, hrest, -⟩ := Option.bind_eq_some_iff.1 hv
      exact infix_of_after? hrest
    · exact List.infix_cons (ih h)

theorem infix_of_clauseImports (h : clauseImports name t) : name <:+: t := by
  rw [clauseImports, Bool.or_eq_true] at h
  rcases h with h | h
  · obtain ⟨v, hv, -⟩ := (Option.any_eq_true _ _).1 h
    exact infix_of_after? hv
  · have hdrop {p : Char → Bool} (u : Text) : u.dropWhile p <:+: u := (List.dropWhile_suffix p).isInfix
    dsimp only at h
    split at h
    · next inside hinside =>
      refine (infix_of_bracesHold h).trans ((List.suffix_cons '\x7b' inside).isInfix.trans ?_)
      rw [← hinside]
      refine (hdrop _).trans ?_
      split
      · exact (List.tail_suffix _).isInfix.trans ((hdrop _).trans (hdrop t))
      · exact (hdrop _).trans (hdrop t)
    · cases h

theorem infix_of_importsAfter {before : Option Char} (h : importsAfter name before t) : name <:+: t := by
  induction t generalizing before with
  | nil => cases h
  | cons c t ih =>
    rw [importsAfter, Bool.or_eq_true, Bool.and_eq_true] at h
    rcases h with ⟨-, h⟩ | h
    · obtain ⟨rest, hrest, h⟩ := (Option.any_eq_true _ _).1 h
      rw [Bool.and_eq_true] at h
      have hwithin := (infix_of_clauseImports h.2).trans (List.dropWhile_suffix _).isInfix
      rw [Text.after?_eq_some.1 hrest]
      exact hwithin.trans (List.suffix_append _ rest).isInfix
    · exact List.infix_cons (ih h)

/-- A tree that stems from a text with neither the name of a component nor the label has no marks, and no module imports the
component. -/
theorem isMark_of_stems (h : m.Stems t) (hline : '\n' ∉ name) (hname : ¬name <:+: t) (hlabel : ¬label <:+: t) :
    ∀ k ∈ m.walk, isMark name k.kind = false := by
  intro k hk
  have hkind := h k hk
  unfold isMark
  split
  · next name' attributes heq =>
    rw [heq] at hkind
    obtain ⟨-, c, -, hopen⟩ := hkind
    rw [decide_eq_false_iff_not]
    rintro rfl
    exact hname (List.IsInfix.trans ⟨['<'], [c], rfl⟩ hopen)
  · next source heq =>
    rw [heq] at hkind
    rw [← Bool.not_eq_true]
    exact fun hdigest => hlabel (Excerpt.line hkind (by decide) (label_infix_of_digest? hdigest))
  · rfl

theorem importsComponent_of_stems (h : tree.Stems t) (hline : '\n' ∉ name) (hname : ¬name <:+: t) :
    importsComponent tree.children name = false := by
  rw [importsComponent, List.any_eq_false]
  intro m hm
  have hkind := h m (by
    cases tree with
    | mk kind children position =>
      rw [Node.walk]
      exact List.mem_cons_of_mem _ ((Node.mem_walkAll _).2 ⟨m, hm, Node.self_mem_walk m⟩))
  split
  · next source heq =>
    rw [heq] at hkind
    exact fun himports => hname (Excerpt.line hkind (fun hmem => hline (List.mem_of_mem_dropLast hmem)) (infix_of_importsAfter himports))
  · exact Bool.false_ne_true

/-- A document that holds neither the name of a component nor the label of a stamp, with spaces, tabs and line ends for
blanks. -/
structure Free (name d : Text) : Prop where
  blank : ∀ c ∈ d, Text.isBlank c → c = ' ' ∨ c = '\t' ∨ c = '\n' ∨ c = '\r'
  carriage : ∀ i < d.length, d[i]? = some '\r' → d[i + 1]? = some '\n'
  unnamed : ¬name <:+: d
  unlabelled : ¬label <:+: d

theorem Free.carriage_notMem (h : Free name d) : '\r' ∉ Text.crlfToLf d := carriage_notMem_crlfToLf h.carriage

theorem Free.isSpaceOrTab (h : Free name d) {c : Char} (hc : c ∈ Text.crlfToLf d) (hblank : Text.isBlank c) :
    Text.isSpaceOrTab c ∨ c = '\n' := by
  by_cases hline : c = '\n'
  · exact .inr hline
  · obtain ⟨u, v, huv⟩ := List.append_of_mem hc
    have hwithin : [c] <:+: Text.crlfToLf d := ⟨u, v, by rw [huv, List.append_assoc, List.singleton_append]⟩
    have hmem := ((infix_of_crlfToLf (by simpa using Ne.symm hline)).2 hwithin).subset List.mem_cons_self
    rcases h.blank c hmem hblank with rfl | rfl | rfl | rfl
    · exact .inl rfl
    · exact .inl rfl
    · exact .inr rfl
    · exact absurd hc h.carriage_notMem

theorem Free.tidy (h : Free name d) : Tidy (Text.crlfToLf d) := tidy_of_blank fun _ hc hblank => h.isSpaceOrTab hc hblank

theorem Free.not_occurs (h : Free name d) (hname : isName name) : ¬name <:+: Text.crlfToLf d ∧ ¬label <:+: Text.crlfToLf d :=
  ⟨fun hwithin => h.unnamed ((infix_of_crlfToLf (notMem_of_isName hname (by decide))).2 hwithin),
    fun hwithin => h.unlabelled ((infix_of_crlfToLf (by decide)).2 hwithin)⟩

theorem Free.bare (h : Free name d) (hname : isName name) {l : Text} (hl : l ∈ Text.lines (Text.crlfToLf d)) : Bare name l := by
  have hwithin : l <:+: Text.crlfToLf d := Text.infix_of_mem_splitOn hl
  have hfree := h.not_occurs hname
  refine ⟨fun c hc hblank => ?_, fun hw => hfree.1 (hw.trans hwithin), fun hw => hfree.2 (hw.trans hwithin)⟩
  refine (h.isSpaceOrTab (hwithin.subset hc) hblank).resolve_right ?_
  rintro rfl
  exact Text.newline_notMem_of_mem_lines hl hc

/-! ## Injection -/

theorem parse_ofText (h : '\r' ∉ Text.crlfToLf d) : Tree.parse (Buffer.ofText d).text = Tree.parse d := by
  simp only [Tree.parse, Buffer.text_ofText, Text.crlfToLf_of_notMem h]

/-- A block is inserted into a document without narration whenever that can be read. -/
theorem inject_free (h : Free n.name d) (hname : isName n.name) : (inject d n).outcome.1 = (Tree.parse d).outcome.1.map fun tree =>
    let text := (insertBlock (Buffer.ofText d) tree n false).render
    (text, if text = d then .unchanged else .inserted) := by
  have hline := notMem_of_isName hname (d := '\n') (by decide)
  have hfree := h.not_occurs hname
  rw [← parse_ofText h.carriage_notMem]
  refine Fallible.after_bind_pure (Tree.parse (Buffer.ofText d).text) fun tree htree => ?_
  rw [parse_ofText h.carriage_notMem] at htree
  have hstems := Tree.parse_stems htree
  have hmarks := isMark_of_stems hstems hline hfree.1 hfree.2
  have huses : uses tree n.name = [] := (usesIn_eq_nil_iff n.name [] tree).2 fun m hm => component?_eq_none (hmarks m hm)
  have hplacement : placementIn tree n.name = .absent := by
    rw [placementIn, huses]
    rfl
  simp only [hplacement, insertAfresh, withoutStamps_eq fun m hm => isStamp_eq_false (hmarks m hm), pure_bind]

theorem prose_map_line (ls : List Text) : prose (ls.map .line) = ls := by
  induction ls with
  | nil => rfl
  | cons l ls ih => rw [List.map_cons, prose, List.filterMap_cons, ← prose, ih]; rfl

theorem prose_append (ps qs : List Piece) : prose (ps ++ qs) = prose ps ++ prose qs := List.filterMap_append ..

theorem map_text_line (name : Text) (ls : List Text) : (ls.map Piece.line).map (·.text name) = ls := by
  rw [List.map_map]
  exact List.map_id ls

theorem broken_tag (newline : Text) (hname : '\n' ∉ name) (voices : List Voice) :
    Text.broken newline (tag voices name) = tagOf (Text.broken newline (Voice.payload voices)) name := by
  have hvoices : '\n' ∉ voicesAttribute := by decide
  have hhead : '\n' ∉ '<' :: name ++ ' ' :: voicesAttribute ++ ['=', '\x7b'] := by simp [hname, hvoices]
  have hend : Text.broken newline ['\x7d', ' ', '/', '>'] = ['\x7d', ' ', '/', '>'] := Text.broken_of_notMem newline (by decide)
  rw [tag, tagOf, Text.broken_append, Text.broken_append, Text.broken_of_notMem newline hhead, hend]

/-- The parts that injection adds to the lines of a document. -/
def Added (newline : Text) (n : Narrated) (p : Piece) : Prop :=
  p = .line [] ∨ p = .statement n.path ∨ p = .stamp n.digest ∨ p = .tag (Text.broken newline (Voice.payload n.voices))

/-- A document with the import, and a block at a line. -/
theorem exists_page_enterBlock (b : Buffer) (hname : '\n' ∉ n.name) (anchor line : Nat) : ∃ ps, ps ≠ [] ∧
    (enterBlock (b.splice anchor 0 [importStatement n.name n.path]) line (blockLines n)).render = page b.newline n.name ps ∧
    filled (prose ps) = filled b.lines ∧ ∀ p ∈ ps, Added b.newline n p ∨ ∃ l ∈ b.lines, p = .line l := by
  obtain ⟨g, g', hg, hg', heq⟩ : ∃ g g' : List Text, (∀ l ∈ g, l = []) ∧ (∀ l ∈ g', l = []) ∧
      enterBlock (b.splice anchor 0 [importStatement n.name n.path]) line (blockLines n) =
        (b.splice anchor 0 [importStatement n.name n.path]).splice line 0 (g ++ blockLines n ++ g') := by
    refine ⟨_, _, ?_, ?_, rfl⟩ <;>
    · intro l hl
      split at hl
      · exact List.mem_singleton.1 hl
      · cases hl
  -- the pieces of the document with the import
  obtain ⟨base, hbase⟩ : ∃ base, base = (b.lines.take anchor).map Piece.line ++ .statement n.path :: (b.lines.drop anchor).map .line :=
    ⟨_, rfl⟩
  have htext : base.map (·.text n.name) = (b.splice anchor 0 [importStatement n.name n.path]).lines := by
    rw [hbase, List.map_append, List.map_cons, map_text_line, map_text_line]
    simp [Buffer.splice, Piece.text]
  have hprose : prose base = b.lines := by
    rw [hbase, prose_append, prose_map_line, ← List.singleton_append, prose_append, prose_map_line]
    exact List.take_append_drop anchor b.lines
  have hmem : ∀ p ∈ base, Added b.newline n p ∨ ∃ l ∈ b.lines, p = .line l := by
    intro p hp
    rw [hbase, List.mem_append, List.mem_cons, List.mem_map, List.mem_map] at hp
    rcases hp with ⟨l, hl, rfl⟩ | rfl | ⟨l, hl, rfl⟩
    · exact .inr ⟨l, List.mem_of_mem_take hl, rfl⟩
    · exact .inl (.inr (.inl rfl))
    · exact .inr ⟨l, List.mem_of_mem_drop hl, rfl⟩
  refine ⟨base.take line ++ (g.map .line ++ [.stamp n.digest, .tag (Text.broken b.newline (Voice.payload n.voices))] ++
    g'.map .line) ++ base.drop line, by simp, ?_, ?_, ?_⟩
  · have hlines := Text.join_lines b.newline (tag n.voices n.name)
    rw [broken_tag b.newline hname] at hlines
    have hblock := Text.join_append_join b.newline ((base.map (·.text n.name)).take line ++ (g ++ [stamp n.digest]))
      (Text.lines (tag n.voices n.name)) (g' ++ (base.map (·.text n.name)).drop line) (Text.lines_ne_nil _)
    rw [hlines] at hblock
    rw [heq, Buffer.render, Buffer.splice, ← htext, Nat.add_zero, page]
    simp only [List.map_append, map_text_line, List.map_take, List.map_drop, List.map_cons, List.map_nil]
    simp only [blockLines, List.append_assoc, List.cons_append, List.nil_append] at hblock ⊢
    exact hblock
  · have hempty {g : List Text} (hg : ∀ l ∈ g, l = []) : filled g = [] := by
      refine List.filter_eq_nil_iff.2 fun l hl => ?_
      rw [hg l hl]
      decide
    rw [prose_append, prose_append, prose_append, prose_append, prose_map_line, prose_map_line, filled_append, filled_append,
      filled_append, filled_append, hempty hg, hempty hg', ← hprose]
    conv_rhs => rw [← List.take_append_drop line base, prose_append, filled_append]
    simp [prose, Piece.line?, filled]
  · intro p hp
    simp only [List.mem_append, List.mem_map, List.mem_cons, List.not_mem_nil, or_false] at hp
    rcases hp with (hp | (⟨l, hl, rfl⟩ | rfl | rfl) | ⟨l, hl, rfl⟩) | hp
    · exact hmem p (List.mem_of_mem_take hp)
    · exact .inl (.inl (by rw [hg l hl]))
    · exact .inl (.inr (.inr (.inl rfl)))
    · exact .inl (.inr (.inr (.inr rfl)))
    · exact .inl (.inl (by rw [hg' l hl]))
    · exact hmem p (List.mem_of_mem_drop hp)

/-! ## Removal -/

theorem isSeparator_of_isNewline (hn : IsNewline newline) : ∀ c ∈ newline, Voice.isSeparator c := by
  rcases hn with rfl | rfl <;> decide

/-- Lines that have nothing to do with narration, put together. -/
theorem bare_join (hname : isName name) (hn : IsNewline newline) (hls : ls ≠ []) (h : ∀ l ∈ ls, Bare name l) :
    ¬name <:+: Text.join newline ls ∧ ¬label <:+: Text.join newline ls ∧
      Text.crlfToLf (Text.join newline ls) = Text.unlines ls ∧ Text.lines (Text.crlfToLf (Text.join newline ls)) = ls := by
  have hcrlf := Text.crlfToLf_join hn fun l hl => (h l hl).carriage
  refine ⟨fun hwithin => ?_, fun hwithin => ?_, hcrlf, ?_⟩
  · obtain ⟨l, hl, hwithin⟩ := Text.exists_infix_of_join (ne_nil_of_isName hname) (newline_notMem_name hname hn) hn.ne_nil hwithin
    exact (h l hl).name hwithin
  · obtain ⟨l, hl, hwithin⟩ := Text.exists_infix_of_join (by decide) (newline_notMem_label hn) hn.ne_nil hwithin
    exact (h l hl).label hwithin
  · rw [hcrlf, Text.lines_unlines hls fun l hl => (h l hl).newline]

/-- Removal undoes injection up to blank lines: in a document without narration that can be read, narration is inserted, and
when it is removed again neither the name nor the label is left, and all lines that are not blank are those of the document,
in their order. -/
theorem remove_inject (hname : isName n.name) (hpath : isQuotable n.path) (hdigest : isDigest n.digest) (h : Free n.name d)
    (hdigits : ∀ k, (Tree.parse d).outcome.1 ≠ .error (.tooManyDigits k)) :
    ∃ t o, (inject d n).outcome.1 = .ok (t, o) ∧ ¬n.name <:+: remove t n.name ∧ ¬label <:+: remove t n.name ∧
      filled (Text.lines (Text.crlfToLf (remove t n.name))) = filled (Text.lines (Text.crlfToLf d)) := by
  have hline := notMem_of_isName hname (d := '\n') (by decide)
  have hnewline := Buffer.isNewline_ofText d
  obtain ⟨tree, htree⟩ := (Tree.exists_parse h.tidy).resolve_right (not_exists.2 hdigits)
  have himports := importsComponent_of_stems (Tree.parse_stems htree) hline (h.not_occurs hname).1
  have hinject := inject_free h hname
  rw [htree] at hinject
  refine ⟨_, _, hinject, ?_⟩
  rw [insertBlock, himports]
  obtain ⟨ps, hps, hrender, hfilled, hpieces⟩ := exists_page_enterBlock (Buffer.ofText d) hline (anchorLine tree.children) _
  have hfine : ∀ p ∈ ps, p.Fine n.name := by
    intro p hp
    rcases hpieces p hp with (rfl | rfl | rfl | rfl) | ⟨l, hl, rfl⟩
    · exact bare_nil hname
    · exact hpath
    · exact hdigest
    · exact (Voice.literal_payload n.voices).broken (isSeparator_of_isNewline hnewline)
    · exact h.bare hname hl
  obtain ⟨ls, hls, hbare, hlines, hremove⟩ := remove_page hname hnewline hps hfine
  obtain ⟨hunnamed, hunlabelled, -, hcut⟩ := bare_join hname hnewline hls hbare
  dsimp only
  rw [if_neg Bool.false_ne_true, hrender, hremove, hcut, hlines, hfilled]
  exact ⟨hunnamed, hunlabelled, rfl⟩

/-- A page with Windows line ends and markup that stays open. -/
def openPage : Text := "Text\r\n\r\n<b\r\n\r\n> it's \x60x\r\n\x7b\r\n".toList

theorem remove_inject_openPage : ∃ t o, (inject openPage narratedByAda).outcome.1 = .ok (t, o) ∧ ¬narratedByAda.name <:+: remove t narratedByAda.name ∧
    ¬label <:+: remove t narratedByAda.name ∧
      filled (Text.lines (Text.crlfToLf (remove t narratedByAda.name))) = filled (Text.lines (Text.crlfToLf openPage)) := by
  have hparsed : (Tree.parse openPage).outcome.1.toOption.any fun _ => true := by decide +kernel
  obtain ⟨tree, htree, -⟩ := Fallible.exists_of_any hparsed
  refine remove_inject (by decide) (by decide) (by decide) ⟨by decide, by decide, by decide +kernel, by decide +kernel⟩ fun k hk => ?_
  rw [htree] at hk
  cases hk

/-- Narration by Ada, under a name that does not begin with a letter. -/
def narratedByHiddenAda : Narrated := { narratedByAda with name := "_Ada".toList }

/-- A tag whose name begins with a low line is written, but is no tag when it is read: it stays. -/
theorem remove_inject_underscore : (inject "Hello\n".toList narratedByHiddenAda).outcome.1.toOption.map (fun r => Text.has (remove r.1 narratedByHiddenAda.name) narratedByHiddenAda.name) =
    some true := by decide +kernel

/-! ## Location -/

/-- A page that is narrated twice, once with a stamp in a voice. -/
def narratedTwice : List Piece :=
  [.statement defaultPath, .line "# Title <b".toList, .stamp "ab".toList, .tag ['[', ']'], .line [], .line "> it's".toList,
    .stamp "cd".toList, .tag "[\x7b\"id\": \"\x7b/* speak-mintlify-hash: ab */\x7d\"\x7d]".toList]

theorem fine_narratedTwice : ∀ p ∈ narratedTwice, p.Fine defaultName := by
  have hid : Voice.Inside ['i', 'd'] := Voice.inside_of_all (by decide)
  have hstamp : Voice.Inside (stamp "ab".toList) := Voice.inside_of_all (by decide)
  have htag : Voice.Literal "[\x7b\"id\": \"\x7b/* speak-mintlify-hash: ab */\x7d\"\x7d]".toList :=
    .sign rfl (.braces (.string hid (.sign rfl (.sign rfl (.string hstamp .nil)))) (.sign rfl .nil))
  have hline (l : Text) (hblank : l.all fun c => !Text.isBlank c || Text.isSpaceOrTab c) (hname : ¬defaultName <:+: l)
      (hlabel : ¬label <:+: l) : Bare defaultName l := by
    refine ⟨fun c hc hc' => ?_, hname, hlabel⟩
    have := List.all_eq_true.1 hblank c hc
    rwa [hc', Bool.not_true, Bool.false_or] at this
  intro p hp
  simp only [narratedTwice, List.mem_cons, List.not_mem_nil, or_false] at hp
  rcases hp with rfl | rfl | rfl | rfl | rfl | rfl | rfl | rfl
  · show isQuotable defaultPath
    decide
  · exact hline _ (by decide) (by decide) (by decide)
  · show isDigest _
    decide
  · exact .sign rfl (.sign rfl .nil)
  · exact hline _ (by decide) (by decide) (by decide)
  · exact hline _ (by decide) (by decide) (by decide)
  · show isDigest _
    decide
  · exact htag

end Player
end Narration
