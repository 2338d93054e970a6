import Narration.Proofs.Player.Found
import Narration.Spoken

/-!
# Injection into a document without narration

A block that is injected into a document without narration is found again.

* `Player.written` : a text with the line ends of a document;
* `Player.exists_inject` : what injection into a document without narration gives;
* `Player.Carries.placement_eq`, `Player.Carries.locate?_eq` : where a block is found, and what it records.
-/

namespace Narration

theorem Tree.parse_eq {d : Text} {tree : Node} (h : Tree.read (Text.crlfToLf d) = .ok tree) : Tree.parse d = pure tree := by
  simp only [Tree.parse, h]

theorem Spoken.extract_of_read {d text : Text} {tree : Node} (hr : '\r' ∉ d) (hread : Tree.read d = .ok tree)
    (h : flatten? tree = some text) : extract d = pure (cleanUp text) := by
  have hparse : Tree.parse d = pure tree := Tree.parse_eq (by rw [Text.crlfToLf_of_notMem hr, hread])
  simp only [extract, hparse, pure_bind, h]

namespace Player
open Markup

variable {d t a b name path : Text} {tree : Node} {n : Narrated} {scope : Scope} {nodes above below : List Node}

/-- A text with the line ends of a document. -/
def written (d t : Text) : Text := Buffer.render ⟨(Buffer.ofText d).newline, Text.lines t⟩

theorem isWritten_written (d : Text) (h : '\r' ∉ t) : Buffer.IsWritten ⟨(Buffer.ofText d).newline, Text.lines t⟩ :=
  Buffer.isWritten_lines (Buffer.isNewline_ofText d) h

theorem crlfToLf_written (d : Text) (h : '\r' ∉ t) : Text.crlfToLf (written d t) = t :=
  (Buffer.crlfToLf_render (isWritten_written d h)).trans (Text.unlines_lines t)

theorem ofText_written (d : Text) (h : '\r' ∉ t) (hl : '\n' ∈ t) :
    Buffer.ofText (written d t) = ⟨(Buffer.ofText d).newline, Text.lines t⟩ := by
  refine Buffer.ofText_render (isWritten_written d h) ?_
  have hpos := List.count_pos_iff.2 hl
  rw [Text.length_lines]
  omega

theorem written_written (d : Text) (h : '\r' ∉ t) (hl : '\n' ∈ t) (t' : Text) : written (written d t) t' = written d t' := by
  rw [written, ofText_written d h hl, written]

/-! ## Insertion -/

theorem stamps_eq_nil (h : ∀ m ∈ tree.walk, isStamp m = false) : stamps tree = [] := by
  rw [stamps, List.filter_eq_nil_iff]
  intro m hm
  rw [h m hm, Bool.false_and]
  decide

theorem withoutStamps_eq (h : ∀ m ∈ tree.walk, isStamp m = false) (b : Buffer) :
    withoutStamps b tree = pure (b, tree) := by
  have hlift : (liftM (pure b : Except Fault Buffer) : Report Buffer) = pure b := rfl
  rw [withoutStamps, stamps_eq_nil h]
  simp only [dropNodes, List.filterMap_nil, List.reverse_nil, List.foldlM_nil, hlift, treeAfter, if_true, pure_bind]

theorem newline_mem_blockText (n : Narrated) (a b : Text) : '\n' ∈ a ++ blockText n ++ b := by
  simp [blockText]

/-- A document without narration is not the one that has it. -/
theorem Carries.ne (h : Carries tree.children n a b scope above below) (hfresh : Fresh t tree n.name) :
    a ++ blockText n ++ b ≠ t := by
  intro heq
  obtain ⟨habove, hbelow⟩ := h.unmarked hfresh.unmarked
  have hread := h.read
  rw [heq, hfresh.read] at hread
  have habsent := hfresh.absent
  rw [Except.ok.inj hread, uses_withBlock habove hbelow] at habsent
  cases habsent

/-- Injection into a document that narration can enter. -/
theorem exists_inject (h : Fresh (Text.crlfToLf d) tree name) (hn : isName name) (hp : isPath path) :
    ∃ a b, ∀ n, Writable n → n.name = name → n.path = path →
      (∃ scope above below, Carries tree.children n a b scope above below) ∧
        inject d n = pure (written d (a ++ blockText n ++ b), .inserted) := by
  obtain ⟨a, b, hall⟩ := exists_carries h hn hp false
  refine ⟨a, b, fun n hwritable hname hpath => ?_⟩
  obtain ⟨hlines, hcarries⟩ := hall n hwritable hname hpath
  refine ⟨hcarries, ?_⟩
  obtain ⟨scope, above, below, hcarries⟩ := hcarries
  subst hname hpath
  have hparse : Tree.parse (Buffer.ofText d).text = pure tree := by
    refine Tree.parse_eq ?_
    rw [Buffer.text_ofText, Text.crlfToLf_of_notMem h.carriage, h.read]
  have hplacement : placementIn tree n.name = .absent := by
    rw [placementIn, h.absent]
    rfl
  have hedited : insertBlock (Buffer.ofText d) tree n false =
      ⟨(Buffer.ofText d).newline, Text.lines (a ++ blockText n ++ b)⟩ := by
    rw [← hlines (Buffer.ofText d) rfl, ← newline_insertBlock (Buffer.ofText d) tree n false]
  have hne : written d (a ++ blockText n ++ b) ≠ d := by
    intro heq
    exact hcarries.ne h (by rw [← crlfToLf_written d hcarries.carriage, heq])
  simp only [inject, hparse, pure_bind, hplacement, insertAfresh, withoutStamps_eq h.unstamped, hedited]
  change pure (written d _, if written d _ = d then _ else _) = _
  rw [if_neg hne]

/-! ## Finding the block -/

theorem Carries.parse_eq (h : Carries nodes n a b scope above below) (ht : Text.crlfToLf t = a ++ blockText n ++ b) :
    Tree.parse t =
      pure (scope.node .root 0 (a ++ blockText n ++ b).length (withBlock scope a.length n above below)) :=
  Tree.parse_eq (by rw [ht, h.read])

theorem Carries.placementIn_eq (h : Carries nodes n a b scope above below) (hnodes : Unmarked n.name nodes) (stop : Nat) :
    placementIn (scope.node .root 0 stop (withBlock scope a.length n above below)) n.name = .wellPlaced := by
  obtain ⟨habove, hbelow⟩ := h.unmarked hnodes
  rw [placementIn, uses_withBlock habove hbelow]
  rfl

theorem Carries.placement_eq (h : Carries nodes n a b scope above below) (hnodes : Unmarked n.name nodes)
    (ht : Text.crlfToLf t = a ++ blockText n ++ b) : placement t n.name = pure .wellPlaced := by
  rw [placement, h.parse_eq ht, pure_bind, h.placementIn_eq hnodes]

theorem Carries.locate?_eq (h : Carries nodes n a b scope above below) (hnodes : Unmarked n.name nodes)
    (ht : Text.crlfToLf t = a ++ blockText n ++ b) (hd : isDigest n.digest) (hvoices : n.voices ≠ [])
    (hids : ∀ v ∈ n.voices, v.id ≠ []) : locate? t n.name = pure (some ⟨some n.digest, n.voices⟩) := by
  obtain ⟨habove, hbelow⟩ := h.unmarked hnodes
  have hcarrier (around : List Node) : [blockUse scope a.length n around].findSome? Use.voices? =
      some (voicesAt (tagPlace a.length n) n.voices n.name) := rfl
  have hpayload : Voice.ofPayload (voicesAt (tagPlace a.length n) n.voices n.name).value = pure n.voices :=
    Voice.ofPayload_payload hids
  have hfingerprint (stop : Nat) :
      fingerprint? (scope.node .root 0 stop (withBlock scope a.length n above below)) = some n.digest :=
    findSome?_withBlock habove hd
  simp only [locate?, h.parse_eq ht, pure_bind, uses_withBlock habove hbelow, hcarrier, hpayload, hfingerprint,
    List.isEmpty_eq_false_iff.2 hvoices]
  rfl

/-- A block that is injected into a document that narration can enter is found again: it is placed well, and its
fingerprint and voices are those injected. -/
theorem inject_found (h : Fresh (Text.crlfToLf d) tree n.name) (hn : Writable n) (hvoices : n.voices ≠ [])
    (hids : ∀ v ∈ n.voices, v.id ≠ []) :
    ∃ t, inject d n = pure (t, .inserted) ∧ placement t n.name = pure .wellPlaced ∧
      locate? t n.name = pure (some ⟨some n.digest, n.voices⟩) := by
  obtain ⟨a, b, hall⟩ := exists_inject h hn.name hn.path
  obtain ⟨⟨scope, above, below, hcarries⟩, hinject⟩ := hall n hn rfl rfl
  have ht := crlfToLf_written d hcarries.carriage
  exact ⟨_, hinject, hcarries.placement_eq h.unmarked ht, hcarries.locate?_eq h.unmarked ht hn.digest hvoices hids⟩

/-! ## Some pages -/

/-- Narration by Ada, with fingerprint `ab`. -/
def narratedByAda : Narrated :=
  ⟨[⟨"ada".toList, "Ada".toList, "https://audio/ada.mp3".toList⟩], "ab".toList, defaultName, defaultPath⟩

/-- Narration by Bob, with fingerprint `cd`. -/
def narratedByBob : Narrated := ⟨[⟨"bob".toList, "Bob".toList, []⟩], "cd".toList, defaultName, defaultPath⟩

theorem writable_narratedByAda : Writable narratedByAda := ⟨by decide, by decide, by decide, by decide⟩

theorem writable_narratedByBob : Writable narratedByBob := ⟨by decide, by decide, by decide, by decide⟩

/-- A page with modules below its first content, in which a quote stands open. -/
def openQuotePage : Text := "Text\n\n<Y>\n\n<Y a='\n\nimport a from \"b\"\n\n</Y>\n\nit's> foo </Y> bar\n".toList

/-- A page with front matter, modules and a comment before its text. -/
def guidePage : Text := "---\ntitle: Guide\n---\nimport A from \"a\"\n\n<!-- draft -->\n# Guide\n\nRead *me*.\n".toList

theorem exists_fresh_guidePage : ∃ tree, Fresh (Text.crlfToLf guidePage) tree defaultName := by
  obtain ⟨tree, hread, h⟩ := Fallible.exists_of_any
    (by decide +kernel : (Tree.read (Text.crlfToLf guidePage)).toOption.any (isFresh (Text.crlfToLf guidePage) defaultName))
  exact ⟨tree, fresh_of_isFresh hread h⟩

theorem inject_found_guidePage : ∃ tree t, Fresh (Text.crlfToLf guidePage) tree defaultName ∧ inject guidePage narratedByAda = pure (t, .inserted) ∧
    placement t defaultName = pure .wellPlaced ∧ locate? t defaultName = pure (some ⟨some "ab".toList, narratedByAda.voices⟩) := by
  obtain ⟨tree, h⟩ := exists_fresh_guidePage
  obtain ⟨t, ht⟩ := inject_found h writable_narratedByAda (by decide) (by decide)
  exact ⟨tree, t, h, ht⟩

/-- A comment that ends on the line of the first content takes in the block, which is not found again. -/
theorem inject_lost_inComment : ((inject "<!--\n--> text\n".toList narratedByAda).outcome.1.toOption.map Prod.snd =
      some .inserted) ∧
    ((inject "<!--\n--> text\n".toList narratedByAda).outcome.1.toOption.map fun r =>
      ((placement r.1 defaultName).outcome.1.toOption, (locate? r.1 defaultName).outcome.1.toOption)) =
        some (some .absent, some none) := by decide +kernel

end Player
end Narration
