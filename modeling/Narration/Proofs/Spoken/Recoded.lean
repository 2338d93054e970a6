import Mathlib.Data.List.Forall2
import Narration.Proofs.Markup.Fenced
import Narration.Proofs.Spoken.Retold

/-!
# Other code in a block

Prose does not depend on the code of a block, unless the document looks into that code for something else: front matter, link
definitions, or the end of what is open above the block.

* `Listing`, `Listing.around` : a document around the lines of a block of code;
* `Listing.next_around` : the block is read up to the line that closes it, whatever the code;
* `Listing.Shows`, `Listing.Blind` : the code is a block of the document, and nothing else of the document depends on it;
* `Spoken.extract_around` : what is narrated of such documents.
-/

namespace Narration
open Text (EndsLine firstLine led unlines)

/-- A document around a block of code. It is cut in front of the marks that open the block, into what stands above, the rest of
the opening line, the line that closes the block, and the lines below. -/
structure Listing where
  above : Text
  opening : Text
  closing : Text
  below : List Text
  mark : Char
  length : Nat
  opens : Markup.LineForm.fence? (Text.trim opening) = some (mark, length)
  closes : Markup.LineForm.closesFence mark length (Text.trim closing)
  lines : ∀ l ∈ opening :: closing :: below, '\n' ∉ l

namespace Listing
open Markup

variable {x : Listing} {code code' : List Text}

/-- The block around some lines, with the line feed behind it. -/
def block (x : Listing) (code : List Text) : Text := x.opening ++ '\n' :: unlines (code ++ [x.closing]) ++ (led x.below).take 1

/-- What follows the block. -/
def rest (x : Listing) : Text := (led x.below).drop 1

/-- The document around some lines. -/
def around (x : Listing) (code : List Text) : Text := x.above ++ (x.block code ++ x.rest)

/-- Lines that do not close the block. -/
def Fits (x : Listing) (code : List Text) : Prop :=
  ∀ l ∈ code, '\n' ∉ l ∧ LineForm.closesFence x.mark x.length (Text.trim l) = false

instance (x : Listing) (code : List Text) : Decidable (x.Fits code) :=
  inferInstanceAs (Decidable (∀ l ∈ code, '\n' ∉ l ∧ LineForm.closesFence x.mark x.length (Text.trim l) = false))

/-- Some lines of code in place of others. -/
def exchange (x : Listing) (code code' : List Text) : Exchange :=
  ⟨x.above, x.above.length, x.block code ++ x.rest, x.block code' ++ x.rest⟩

theorem block_append_rest (x : Listing) (code : List Text) :
    x.block code ++ x.rest = x.opening ++ '\n' :: unlines (code ++ [x.closing]) ++ led x.below := by
  rw [block, rest, List.append_assoc, List.take_append_drop]

theorem newline_notMem_opening (x : Listing) : '\n' ∉ x.opening := x.lines _ List.mem_cons_self

theorem newline_notMem_closing (x : Listing) : '\n' ∉ x.closing := x.lines _ (by simp)

theorem closing_ne_nil (x : Listing) : x.closing ≠ [] := by
  intro hnil
  have hcloses := x.closes
  have hpos := Block.length_pos_of_fence? x.opens
  rw [hnil, LineForm.closesFence, Bool.and_eq_true, decide_eq_true_eq] at hcloses
  exact absurd hcloses.1 (Nat.not_le.2 hpos)

theorem firstLine_block (x : Listing) (code : List Text) : firstLine (x.block code ++ x.rest) = x.opening := by
  rw [block_append_rest, List.append_assoc, List.cons_append, firstLine, Text.takeWhile_line x.newline_notMem_opening]

theorem not_blank_opening (x : Listing) : Text.allBlank x.opening = false := by
  rw [← Bool.not_eq_true]
  intro hblank
  have hopens := x.opens
  rw [Text.trim, Text.trimStart, Text.dropWhile_all (List.all_eq_true.1 hblank)] at hopens
  cases hopens

theorem begins_exchange (x : Listing) (code code' : List Text) : (x.exchange code code').Begins := by
  have hprose (code : List Text) : (⟨0, x.block code ++ x.rest⟩ : Stretch).prose = x.opening := by
    have hline : (⟨0, x.block code ++ x.rest⟩ : Stretch).line.chars = x.opening := x.firstLine_block code
    rw [Stretch.prose_not_blank, hline]
    rw [Stretch.lineBlank, hline, x.not_blank_opening]
  refine Exchange.begins_of_same ?_ ?_ fun hnil => ?_
  · exact (x.firstLine_block code').trans (x.firstLine_block code).symm
  · exact (hprose code').trans (hprose code).symm
  · have hempty : x.block code ++ x.rest = [] := hnil
    simp [block] at hempty

/-! ## The block -/

/-- Blanks in front of the marks that open the block. -/
theorem trim_append_opening (x : Listing) {q : Text} (hq : Text.allBlank q) : Text.trim (q ++ x.opening) = Text.trim x.opening := by
  rw [Text.trim, Text.trimStart, List.dropWhile_append_of_pos (List.all_eq_true.1 hq)]
  rfl

open Block in
/-- The block is read up to the line that closes it, and reading goes on behind it. -/
theorem next_around {q : Text} (hcode : x.Fits code) (hq : '\n' ∉ q)
    (hreader : ∀ table, readerOf true (q ++ x.opening) table = .fence x.mark x.length) (scope : Scope) (inner : Inner) (a : Nat) :
    ∃ info inside first last, next scope inner true ⟨a, q ++ (x.block code ++ x.rest)⟩ =
        .ok (scope.node (.codeBlock info inside) first last, a + (q ++ x.block code).length) ∧
      (⟨a, q ++ (x.block code ++ x.rest)⟩ : Stretch).since (a + (q ++ x.block code).length) =
        ⟨a + (q ++ x.block code).length, x.rest⟩ := by
  have hopening : '\n' ∉ q ++ x.opening := by
    rw [List.mem_append, not_or]
    exact ⟨hq, x.newline_notMem_opening⟩
  have hfirst : firstLine (q ++ (x.block code ++ x.rest)) = q ++ x.opening := by
    rw [Text.firstLine_append_of_notMem hq, x.firstLine_block]
  obtain ⟨info, inside, hread⟩ := fence_closed hcode x.newline_notMem_closing x.closing_ne_nil x.closes (Text.endsLine_led x.below)
    hopening scope a
  have htext : q ++ (x.block code ++ x.rest) = (q ++ x.opening) ++ '\n' :: unlines (code ++ [x.closing]) ++ led x.below := by
    rw [x.block_append_rest]
    simp only [List.append_assoc, List.cons_append]
  have hstop : a + (q ++ x.opening ++ '\n' :: unlines (code ++ [x.closing])).length + min 1 (led x.below).length =
      a + (q ++ x.block code).length := by
    simp only [block, List.length_append, List.length_cons, List.length_take]
    omega
  have hnext : next scope inner true ⟨a, q ++ (x.block code ++ x.rest)⟩ =
      .ok (scope.node (.codeBlock info inside) (⟨a, q ++ x.opening⟩ : Stretch).trim.start
        (a + (q ++ x.opening ++ '\n' :: unlines (code ++ [x.closing])).length), a + (q ++ x.block code).length) := by
    rw [next_mk, hfirst, hreader, Reader.read, htext, hread, hstop]
  refine ⟨info, inside, _, _, hnext, ?_⟩
  rw [since_mk _ _ _ (by simp only [List.length_append]; omega), ← List.append_assoc, List.drop_left]

theorem count_block (x : Listing) (code : List Text) (hcode : x.Fits code) (hbelow : x.below ≠ []) :
    (x.above ++ x.block code).count '\n' = x.above.count '\n' + code.length + 2 := by
  obtain ⟨l, ls, hls⟩ := List.exists_cons_of_ne_nil hbelow
  have hlines : (unlines (code ++ [x.closing])).count '\n' = code.length := by
    have hlength := Text.length_lines (unlines (code ++ [x.closing]))
    rw [Text.lines_unlines (by simp) fun l hl => ?_, List.length_append, List.length_singleton] at hlength
    · omega
    · rcases List.mem_append.1 hl with hl | hl
      · exact (hcode l hl).1
      · rw [List.mem_singleton.1 hl]
        exact x.newline_notMem_closing
  rw [block, hls, led, List.flatMap_cons, List.cons_append, List.take_succ_cons, List.take_zero]
  simp only [List.count_append, List.count_cons_self, List.count_nil, hlines, List.count_eq_zero_of_not_mem x.newline_notMem_opening]
  omega

section
open Block
open Spoken (Apart Retold retold_of_silent)

variable {references : List Reference} {as bs : List Node} {n : Node} {info inside v : Text} {a : Nat}

/-- The block is read from its marks, with some blanks in front of them. -/
theorem reader_of_codeBlock {scope : Scope} {inner : Inner} {q : Text} {stop : Nat}
    (hnext : next scope inner true ⟨a, q ++ (x.block code ++ x.rest)⟩ = .ok (n, stop)) (hkind : n.kind = .codeBlock info inside)
    (hblank : (⟨a, q ++ (x.block code ++ x.rest)⟩ : Stretch).lineBlank = false)
    (hindent : q.length ≤ Text.indent (q ++ (x.block code ++ x.rest))) :
    '\n' ∉ q ∧ ∀ table, readerOf true (q ++ x.opening) table = .fence x.mark x.length := by
  have hqblank := Text.allBlank_of_length_le_indent hindent
  have hq : '\n' ∉ q := Text.newline_notMem_of_allBlank hqblank hblank
  have hline : (⟨a, q ++ (x.block code ++ x.rest)⟩ : Stretch).line.chars = q ++ x.opening := by
    rw [Stretch.chars_line]
    exact (Text.firstLine_append_of_notMem hq _).trans (congrArg _ (x.firstLine_block code))
  obtain ⟨mark, length, hfence, hreader⟩ := exists_fence hnext hkind
  rw [hline, x.trim_append_opening hqblank, x.opens] at hfence
  cases hfence
  rw [hline] at hreader
  exact ⟨hq, hreader⟩

theorem exists_reads_rest (hcode : x.Fits code) (hcode' : x.Fits code') (h : Reads (Scope.ofText (x.around code) references)
      (innerOf 957 (Scope.ofText (x.around code) references)) true ⟨(x.above ++ x.block code).length, x.rest⟩ bs) (first budget : Nat) :
    ∃ bs', Reads (Scope.ofText (x.around code') references) (innerOf 957 (Scope.ofText (x.around code') references)) true
        ⟨(x.above ++ x.block code').length, x.rest⟩ bs' ∧
      List.Forall₂ (Retold (Apart first (x.above.count '\n' + code.length + 2) (x.above.count '\n' + code'.length + 2)) budget)
        bs bs' := by
  by_cases hbelow : x.below = []
  · have hrest : x.rest = [] := by rw [rest, hbelow, Text.led_nil, List.drop_nil]
    rw [hrest, reads_nil rfl] at h
    rw [hrest, h]
    exact ⟨[], (reads_nil rfl).2 rfl, .nil⟩
  · rw [around, ← List.append_assoc] at h
    rw [around, ← List.append_assoc, ← x.count_block code hcode hbelow, ← x.count_block code' hcode' hbelow]
    exact h.exists_retold (x.above ++ x.block code') first budget

/-- The blocks of a document with other code in one of them. -/
theorem exists_reads_around (hcode : x.Fits code) (hcode' : x.Fits code') (hv : v <:+ x.above) (ha : a + v.length = x.above.length)
    (hsteady : Steady (x.exchange code code') (Scope.ofText (x.around code) references)
      (innerOf 957 (Scope.ofText (x.around code) references)))
    (hns : Reads (Scope.ofText (x.around code) references) (innerOf 957 (Scope.ofText (x.around code) references)) true
      ⟨a, v ++ (x.block code ++ x.rest)⟩ (as ++ n :: bs)) (hkind : n.kind = .codeBlock info inside)
    (hplace : ∃ p ∈ n.position, p.start = x.above.length) (budget : Nat) :
    ∃ ns', Reads (Scope.ofText (x.around code') references) (innerOf 957 (Scope.ofText (x.around code') references)) true
        ⟨a, v ++ (x.block code' ++ x.rest)⟩ ns' ∧
      List.Forall₂ (Retold (Apart (x.above.count '\n' + 2) (x.above.count '\n' + code.length + 2)
        (x.above.count '\n' + code'.length + 2)) budget) (as ++ n :: bs) ns' := by
  obtain ⟨s₁, stop, hleads, hblank, hnext, hrest⟩ := hns.leads
  -- reading comes to the block no later than its marks
  obtain ⟨kind, first, last, children, hnode, hfirst, -⟩ := next_made hnext
  obtain rfl : first = x.above.length := by
    obtain ⟨p, hp, hplace⟩ := hplace
    rw [hnode] at hp
    cases hp
    exact hplace
  have hX := x.begins_exchange code code'
  have hfork : (x.exchange code code').Fork ⟨a, v ++ (x.block code ++ x.rest)⟩ ⟨a, v ++ (x.block code' ++ x.rest)⟩ := .mk hv ha
  have hline : (Scope.ofText (x.around code) references).lineOf x.above.length < x.above.count '\n' + 2 := by
    rw [around, Scope.lineOf_length]
    exact Nat.lt_succ_self _
  obtain ⟨as', s₁', hleads', hfork', hretold⟩ := hleads.exists_retold hX hsteady
    (Scope.seen_append x.above (x.block code ++ x.rest) (x.block code' ++ x.rest) references) (Scope.one_le_lineOf _ _) hfork
    (by simp [exchange, block]) hfirst.1 hline (x.above.count '\n' + code.length + 2) (x.above.count '\n' + code'.length + 2) budget
  cases hfork' with
  | @mk b q hq hb =>
    dsimp only [exchange] at hleads hblank hnext hrest hfirst hleads' hb
    obtain ⟨-, hfirst⟩ := hfirst
    have hindent : q.length ≤ Text.indent (q ++ (x.block code ++ x.rest)) := by
      simp only [Stretch.trimStart, Stretch.start_drop] at hfirst
      omega
    obtain ⟨hqline, hreader⟩ := reader_of_codeBlock hnext hkind hblank hindent
    obtain ⟨info₁, inside₁, first₁, last₁, hold, hsince⟩ := next_around hcode hqline hreader
      (Scope.ofText (x.around code) references) (innerOf 957 (Scope.ofText (x.around code) references)) b
    obtain ⟨info₂, inside₂, first₂, last₂, hnew, hsince'⟩ := next_around hcode' hqline hreader
      (Scope.ofText (x.around code') references) (innerOf 957 (Scope.ofText (x.around code') references)) b
    obtain ⟨rfl, rfl⟩ := Prod.mk.inj (Except.ok.inj (hnext.symm.trans hold))
    have hplace (code : List Text) : b + (q ++ x.block code).length = (x.above ++ x.block code).length := by
      rw [List.length_append, List.length_append]
      omega
    rw [hsince, hplace] at hrest
    obtain ⟨bs', hbs', hbelow⟩ := exists_reads_rest hcode hcode' hrest (x.above.count '\n' + 2) budget
    have hfork' : (x.exchange code code').Fork ⟨b, q ++ (x.block code ++ x.rest)⟩ ⟨b, q ++ (x.block code' ++ x.rest)⟩ := .mk hq hb
    have hblank' := (hfork'.lineBlank hX).trans hblank
    rw [← hplace, ← hsince'] at hbs'
    refine ⟨_, hleads'.reads ((reads_block (Stretch.ne_nil_of_not_blank hblank') hblank').2 ⟨_, _, bs', hnew, hbs', rfl⟩), ?_⟩
    exact List.rel_append hretold (.cons (retold_of_silent rfl rfl) hbelow)

end

/-! ## Documents -/

/-- Whether a node is code between fences, and its marks stand at an offset. -/
def isCodeAt (o : Nat) (n : Node) : Bool :=
  match n.kind with
  | .codeBlock _ _ => n.position.any (·.start = o)
  | _ => false

theorem exists_of_isCodeAt {o : Nat} {n : Node} (h : isCodeAt o n) :
    (∃ info inside, n.kind = .codeBlock info inside) ∧ ∃ p ∈ n.position, p.start = o := by
  unfold isCodeAt at h
  split at h
  · next info inside hkind =>
    obtain ⟨p, hp, hplace⟩ := (Option.any_eq_true _ _).1 h
    exact ⟨⟨info, inside, hkind⟩, p, hp, of_decide_eq_true hplace⟩
  · cases h

/-- Code that is a block of the document around it, which is not nested too deeply to be narrated. -/
structure Shows (x : Listing) (code : List Text) (tree : Node) : Prop where
  fits : x.Fits code
  carriage : '\r' ∉ x.around code
  read : Tree.read (x.around code) = .ok tree
  flat : (Spoken.flatten? tree).isSome
  block : tree.children.any (isCodeAt x.above.length)

/-- The document does not look into the code of the block for front matter, link definitions and ends of what is open above. -/
structure Blind (x : Listing) (code code' : List Text) : Prop where
  front : Block.frontMatter? (x.around code') = Block.frontMatter? (x.around code)
  references : Reference.collect (x.around code') = Reference.collect (x.around code)
  steady : Block.Steady (x.exchange code code') (Scope.ofText (x.around code) (Reference.collect (x.around code)))
    (Block.innerOf 957 (Scope.ofText (x.around code) (Reference.collect (x.around code))))

theorem exists_shows (hfits : x.Fits code) (hr : '\r' ∉ x.around code) (h : (Tree.read (x.around code)).toOption.any fun tree =>
    (Spoken.flatten? tree).isSome && tree.children.any (isCodeAt x.above.length)) : ∃ tree, x.Shows code tree := by
  obtain ⟨tree, hread, h⟩ := Fallible.exists_of_any h
  rw [Bool.and_eq_true] at h
  exact ⟨tree, hfits, hr, hread, h.1, h.2⟩

end Listing

namespace Spoken
open Markup

variable {x : Listing} {code code' : List Text} {tree : Node}

/-- Other code in a block leaves what is narrated as it is. -/
theorem extract_around (h : x.Shows code tree) (hfits : x.Fits code') (hr' : '\r' ∉ x.around code') (hblind : x.Blind code code') :
    Spoken.extract (x.around code') = Spoken.extract (x.around code) := by
  obtain ⟨n, hn, hcode⟩ := List.any_eq_true.1 h.block
  obtain ⟨⟨info, inside, hkind⟩, hplace⟩ := Listing.exists_of_isCodeAt hcode
  obtain ⟨f, r, front, ht, hfront, -⟩ := Tree.exists_front h.carriage
  obtain ⟨ns, hns, hchildren⟩ := Tree.children_of_read ht hfront h.read
  have hmem : n ∈ ns := by
    rw [hchildren, List.mem_append] at hn
    refine hn.resolve_left fun hn => ?_
    obtain ⟨source, rfl⟩ := Tree.exists_of_mem_frontNodes hn
    cases hkind
  obtain ⟨as, bs, rfl⟩ := List.append_of_mem hmem
  have hle : f.length ≤ x.above.length := hns.start_le hplace
  obtain ⟨v, hv, rfl⟩ := Text.exists_between ht.symm hle
  obtain ⟨ns', hns', hretold⟩ := Listing.exists_reads_around h.fits hfits (hv ▸ List.suffix_append f v)
    (by rw [hv, List.length_append]) hblind.steady hns hkind hplace flatteningBudget
  rw [← hblind.references] at hns'
  have ht' : x.around code' = f ++ (v ++ (x.block code' ++ x.rest)) := by rw [Listing.around, hv, List.append_assoc]
  exact extract_retold (keepsGaps_apart (by omega) (by omega)) h.carriage hr' ht' (hfront.congr hblind.front) h.read h.flat hchildren hns' hretold

/-- A page with code, above which nothing is open. -/
def buildPage : Listing where
  above := "Build it:\n\n".toList
  opening := "```sh".toList
  closing := "```".toList
  below := ["", "See [make].", "", "[make]: /make", ""].map String.toList
  mark := '\x60'
  length := 3
  opens := by decide
  closes := by decide
  lines := by decide

theorem extract_around_buildPage :
    Spoken.extract (buildPage.around ["make all".toList, "make <it>".toList]) = Spoken.extract (buildPage.around ["make".toList]) := by
  obtain ⟨tree, h⟩ := Listing.exists_shows (show buildPage.Fits ["make".toList] by decide) (by decide) (by decide +kernel)
  exact extract_around h (by decide) (by decide)
    ⟨by decide +kernel, by decide +kernel, Block.steady_of_plain (by decide +kernel)⟩

/-- A page that names a link without defining it. -/
def linkPage : Listing where
  above := "See [make].\n\n".toList
  opening := "```".toList
  closing := "```".toList
  below := ["".toList]
  mark := '\x60'
  length := 3
  opens := by decide
  closes := by decide
  lines := by decide

/-- A link definition in code makes a link of what names it above. -/
theorem extract_around_linkPage : (∃ tree, linkPage.Shows ["make".toList] tree) ∧ linkPage.Fits ["[make]: /make".toList] ∧
    '\r' ∉ linkPage.around ["[make]: /make".toList] ∧
    (Spoken.extract (linkPage.around ["make".toList])).outcome.1.toOption = some "See [make].".toList ∧
    (Spoken.extract (linkPage.around ["[make]: /make".toList])).outcome.1.toOption = some "See make.".toList :=
  ⟨Listing.exists_shows (by decide) (by decide) (by decide +kernel), by decide, by decide, by decide +kernel, by decide +kernel⟩

end Spoken
end Narration
