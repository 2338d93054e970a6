import Narration.Player.Insertion
import Narration.Proofs.Buffer
import Narration.Proofs.Fallible
import Narration.Proofs.Player.Import
import Narration.Spoken

/-!
# Line ends do not matter

A document is read and edited as lines; its own line end comes back only when it is written. So a document with
carriage returns before its line feeds is read like the one without, and edited alike.

* `Text.lfToCrlf` : line feed becomes carriage return with line feed, and back again by `Text.crlfToLf`;
* `Tree.parse_congr` : texts that differ in their line ends have one tree;
* `Buffer.ending`, `Buffer.Cut` : a buffer with another line end, and one whose lines hold no line feed;
* `Player.edited` : injection before the lines are written;
* `Player.edited_ending`, `Player.yields_edited` : it does not see the line end, and leaves lines without line feeds;
* `Player.inject_lfToCrlf` : the same injection, in either kind of document.
-/

namespace Narration

namespace Text

variable {t d : Text} {ls : List Text}

/-- Line feed becomes carriage return with line feed. -/
def lfToCrlf (t : Text) : Text := broken ['\r', '\n'] t

theorem head?_lfToCrlf (t : Text) : (lfToCrlf t).head? ≠ some '\n' := by
  cases t with
  | nil => exact nofun
  | cons c t =>
    rw [lfToCrlf]
    by_cases hc : c = '\n'
    · rw [hc, broken_newline]
      exact fun h => absurd (Option.some.inj h) (by decide)
    · rw [broken_cons _ hc]
      exact fun h => hc (Option.some.inj h)

/-- Reading takes back what writing has added, whatever carriage returns there are besides. -/
theorem crlfToLf_lfToCrlf (t : Text) : crlfToLf (lfToCrlf t) = t := by
  induction t with
  | nil => rfl
  | cons c t ih =>
    by_cases hc : c = '\n'
    · rw [hc, lfToCrlf, broken_newline]
      exact congrArg ('\n' :: ·) ih
    · have hnext (u : Text) (_ : c = '\r') (hu : lfToCrlf t = '\n' :: u) : False := head?_lfToCrlf t (congrArg List.head? hu)
      rw [lfToCrlf, broken_cons _ hc]
      exact (crlfToLf.eq_3 c _ hnext).trans (congrArg (c :: ·) ih)

theorem lfToCrlf_inj {u : Text} : lfToCrlf t = lfToCrlf u ↔ t = u :=
  ⟨fun h => by rw [← crlfToLf_lfToCrlf t, h, crlfToLf_lfToCrlf], congrArg _⟩

theorem has_crlf_lfToCrlf (h : '\n' ∈ t) : has (lfToCrlf t) ['\r', '\n'] := by
  obtain ⟨u, v, rfl⟩ := List.append_of_mem h
  rw [has_iff (by simp), lfToCrlf, broken_append, broken_newline]
  exact ⟨_, _, List.append_assoc ..⟩

theorem join_eq_broken (newline : Text) (h : ∀ l ∈ ls, '\n' ∉ l) : join newline ls = broken newline (unlines ls) := by
  by_cases hls : ls = []
  · rw [hls]
    rfl
  · rw [← join_lines, lines_unlines hls h]

end Text

/-! ## Reading -/

variable {d u : Text}

/-- Texts that differ in their line ends have one tree. -/
theorem Tree.parse_congr (h : Text.crlfToLf d = Text.crlfToLf u) : Tree.parse d = Tree.parse u := by
  rw [Tree.parse, Tree.parse, h]

theorem Spoken.extract_congr (h : Text.crlfToLf d = Text.crlfToLf u) : Spoken.extract d = Spoken.extract u := by
  rw [Spoken.extract, Spoken.extract, h, Tree.parse_congr h]

theorem Player.locate?_congr (h : Text.crlfToLf d = Text.crlfToLf u) (name : Text) :
    Player.locate? d name = Player.locate? u name := by
  rw [Player.locate?, Player.locate?, Tree.parse_congr h]

theorem Player.placement_congr (h : Text.crlfToLf d = Text.crlfToLf u) (name : Text) :
    Player.placement d name = Player.placement u name := by
  rw [Player.placement, Player.placement, Tree.parse_congr h]

/-! ## Buffers -/

namespace Buffer

variable {b b' : Buffer} {newline new : Text} {news : List Text}

/-- A buffer with another line end. -/
def ending (newline : Text) (b : Buffer) : Buffer := { b with newline }

/-- No line of a buffer holds a line feed. -/
def Cut (b : Buffer) : Prop := ∀ l ∈ b.lines, '\n' ∉ l

theorem cut_ofText (d : Text) : (ofText d).Cut := fun _ => Text.newline_notMem_of_mem_lines

theorem cut_replaceSpan (b : Buffer) (start stop : Nat) (new : Text) : (b.replaceSpan start stop new).Cut :=
  fun _ => Text.newline_notMem_of_mem_lines

theorem Cut.splice (h : b.Cut) (hnew : ∀ l ∈ news, '\n' ∉ l) (index count : Nat) : (b.splice index count news).Cut := by
  intro l hl
  rcases List.mem_append.1 hl with hl | hl
  · rcases List.mem_append.1 hl with hl | hl
    · exact h l (List.mem_of_mem_take hl)
    · exact hnew l hl
  · exact h l (List.mem_of_mem_drop hl)

theorem Cut.dropLines? (h : b.Cut) {first last : Nat} (hdrop : b.dropLines? first last = some b') : b'.Cut := by
  unfold Buffer.dropLines? at hdrop
  split at hdrop
  · cases hdrop
  · cases hdrop
    exact h.splice (fun _ hl => absurd hl List.not_mem_nil) _ _

theorem dropLines?_ending (newline : Text) (b : Buffer) (first last : Nat) :
    (b.ending newline).dropLines? first last = (b.dropLines? first last).map (ending newline) := by
  unfold Buffer.dropLines?
  change (if 0 < first ∧ b.lines.length < first then none else _) = _
  split <;> rfl

/-- Lines without line feeds are written with any line end as their text with that line end. -/
theorem Cut.render_ending (h : b.Cut) (newline : Text) : (b.ending newline).render = Text.broken newline b.text :=
  Text.join_eq_broken newline h

end Buffer

/-! ## Edits -/

namespace Player
open Buffer Fallible

variable {b b' : Buffer} {n : Narrated} {newline : Text} {tree : Node} {α β : Type}

theorem dropAt_ending (newline : Text) (b : Buffer) (p : Position) :
    dropAt (b.ending newline) p = (dropAt b p).map (ending newline) := by
  unfold dropAt
  dsimp only
  rw [dropLines?_ending]
  change (if Text.trim (Text.unlines ((b.lines.take (p.endLine - 1 + 1)).drop (p.startLine - 1))) =
      Text.trim (Text.slice b.text p.start p.stop) then _ else _) = _
  split
  · cases b.dropLines? (p.startLine - 1) (p.endLine - 1) <;> rfl
  · rfl

theorem cut_dropAt (h : b.Cut) {p : Position} (hdrop : dropAt b p = .ok b') : b'.Cut := by
  unfold dropAt at hdrop
  dsimp only at hdrop
  split at hdrop
  · cases hlines : b.dropLines? (p.startLine - 1) (p.endLine - 1) with
    | none =>
      rw [hlines] at hdrop
      cases hdrop
    | some b₁ =>
      rw [hlines] at hdrop
      cases hdrop
      exact h.dropLines? hlines
  · cases hdrop
    exact cut_replaceSpan b p.start p.stop []

theorem dropNodes_ending (newline : Text) (b : Buffer) (nodes : List Node) :
    dropNodes (b.ending newline) nodes = (dropNodes b nodes).map (ending newline) := by
  unfold dropNodes
  induction (nodes.filterMap Node.position).reverse generalizing b with
  | nil => rfl
  | cons p ps ih =>
    rw [List.foldlM_cons, List.foldlM_cons, dropAt_ending]
    cases dropAt b p with
    | error f => rfl
    | ok b₁ => exact ih b₁

theorem cut_dropNodes (h : b.Cut) {nodes : List Node} (hdrop : dropNodes b nodes = .ok b') : b'.Cut := by
  unfold dropNodes at hdrop
  generalize (nodes.filterMap Node.position).reverse = ps at hdrop
  induction ps generalizing b with
  | nil =>
    cases hdrop
    exact h
  | cons p ps ih =>
    rw [List.foldlM_cons] at hdrop
    obtain ⟨b₁, hp, hps⟩ := bind_eq_ok.1 hdrop
    exact ih (cut_dropAt h hp) hps

theorem enterBlock_cut (h : b.Cut) {block : List Text} (hblock : ∀ l ∈ block, '\n' ∉ l) (line : Nat) :
    (enterBlock b line block).Cut := by
  refine h.splice (fun l hl => ?_) line 0
  have hgap {p : Bool} (hl : l ∈ if p then [[]] else ([] : List Text)) : '\n' ∉ l := by
    split at hl
    · rw [List.mem_singleton.1 hl]
      exact List.not_mem_nil
    · cases hl
  rcases List.mem_append.1 hl with hl | hl
  · rcases List.mem_append.1 hl with hl | hl
    · exact hgap hl
    · exact hblock l hl
  · exact hgap hl

/-- Name, path and fingerprint of what is written stand on one line each. -/
structure Narrated.OnLines (n : Narrated) : Prop where
  name : '\n' ∉ n.name
  path : '\n' ∉ n.path
  digest : '\n' ∉ n.digest

theorem Narrated.OnLines.newline_notMem (h : n.OnLines) : '\n' ∉ importStatement n.name n.path := by
  have hpath : '\n' ∉ '\'' :: (n.path ++ ['\'', ';']) := by simp [h.path]
  rw [importStatement_eq, importHead, List.mem_append, not_or, List.mem_append, not_or, List.mem_append, not_or]
  exact ⟨⟨⟨by decide, h.name⟩, by decide⟩, hpath⟩

theorem Narrated.OnLines.newline_notMem_block (h : n.OnLines) : ∀ l ∈ blockLines n, '\n' ∉ l := by
  refine List.forall_mem_cons.2 ⟨?_, fun _ => Text.newline_notMem_of_mem_lines⟩
  simp only [stamp, List.mem_append, not_or]
  exact ⟨⟨⟨⟨by decide, by decide⟩, by decide⟩, h.digest⟩, by decide⟩

theorem insertBlock_ending (newline : Text) (b : Buffer) (tree : Node) (n : Narrated) (afterImports : Bool) :
    insertBlock (b.ending newline) tree n afterImports = (insertBlock b tree n afterImports).ending newline := by
  unfold insertBlock
  dsimp only
  split <;> rfl

theorem cut_insertBlock (hn : n.OnLines) (h : b.Cut) (tree : Node) (afterImports : Bool) :
    (insertBlock b tree n afterImports).Cut := by
  unfold insertBlock
  dsimp only
  split
  · exact enterBlock_cut h hn.newline_notMem_block _
  · exact enterBlock_cut (h.splice (List.forall_mem_singleton.2 hn.newline_notMem) _ 0) hn.newline_notMem_block _

theorem applyEdits_ending (newline : Text) (b : Buffer) (edits : List Edit) :
    applyEdits (b.ending newline) edits = (applyEdits b edits).ending newline :=
  List.foldl_hom (ending newline) fun _ _ => rfl

theorem cut_applyEdits (h : b.Cut) (edits : List Edit) : (applyEdits b edits).Cut := by
  unfold applyEdits
  induction edits.mergeSort (fun x y => !y.after x) generalizing b with
  | nil => exact h
  | cons e es ih => exact ih (cut_replaceSpan b e.start e.stop e.new)

/-! ## Injection -/

/-- A lifted computation with another result. -/
theorem liftM_map (g : α → β) (x : Except Markup.Fault α) : (liftM (x.map g) : Report β) = g <$> (liftM x : Report α) := by
  cases x <;> rfl

theorem withoutStamps_ending (newline : Text) (b : Buffer) (tree : Node) :
    withoutStamps (b.ending newline) tree = Prod.map (ending newline) id <$> withoutStamps b tree := by
  rw [withoutStamps, withoutStamps, dropNodes_ending, liftM_map, bind_map_left, map_bind]
  refine bind_congr fun bare => ?_
  rw [map_bind]
  exact bind_congr fun tree => (map_pure _ _).symm

theorem insertAfresh_ending (newline : Text) (b : Buffer) (tree : Node) (n : Narrated) (afterImports : Bool) :
    insertAfresh (b.ending newline) tree n afterImports = ending newline <$> insertAfresh b tree n afterImports := by
  rw [insertAfresh, insertAfresh, withoutStamps_ending, bind_map_left, map_bind]
  refine bind_congr fun r => ?_
  rw [map_pure]
  exact congrArg pure (insertBlock_ending newline r.1 r.2 n afterImports)

theorem updateInPlace_ending (newline : Text) (b : Buffer) (tree : Node) (n : Narrated) :
    updateInPlace (b.ending newline) tree n = ending newline <$> updateInPlace b tree n := by
  rw [updateInPlace, updateInPlace, applyEdits_ending, map_bind]
  refine bind_congr fun tree => ?_
  split <;> exact (map_pure _ _).symm

/-- The lines of a document with its narration inserted, replaced or relocated, and what was done. -/
def edited (b : Buffer) (n : Narrated) : Report (Buffer × Outcome) := do
  let tree ← Tree.parse b.text
  match placementIn tree n.name with
  | .misplaced => do
    let bare ← dropNodes b ((uses tree n.name).map (·.node))
    let edited ← insertAfresh bare (← treeAfter b bare tree) n true
    pure (edited, Outcome.relocated)
  | .wellPlaced => do pure (← updateInPlace b tree n, Outcome.replaced)
  | .absent => do pure (← insertAfresh b tree n false, Outcome.inserted)

theorem inject_eq (d : Text) (n : Narrated) : inject d n = edited (ofText d) n >>= fun r =>
    pure (r.1.render, if r.1.render = d then .unchanged else r.2) := by
  rw [inject, edited, bind_assoc]
  refine bind_congr fun tree => ?_
  dsimp only
  cases placementIn tree n.name <;> simp only [bind_assoc, pure_bind]

theorem edited_ending (newline : Text) (b : Buffer) (n : Narrated) :
    edited (b.ending newline) n = Prod.map (ending newline) id <$> edited b n := by
  rw [edited, edited, map_bind]
  refine bind_congr fun tree => ?_
  split
  · rw [dropNodes_ending, liftM_map, bind_map_left, map_bind]
    refine bind_congr fun bare => ?_
    rw [map_bind]
    refine bind_congr fun tree => ?_
    rw [insertAfresh_ending, bind_map_left, map_bind]
    exact bind_congr fun _ => (map_pure _ _).symm
  · rw [updateInPlace_ending, bind_map_left, map_bind]
    exact bind_congr fun _ => (map_pure _ _).symm
  · rw [insertAfresh_ending, bind_map_left, map_bind]
    exact bind_congr fun _ => (map_pure _ _).symm

theorem yields_dropNodes (h : b.Cut) (nodes : List Node) : Yields Cut (liftM (dropNodes b nodes) : Report Buffer) := by
  intro warnings bare hbare
  cases hdrop : dropNodes b nodes with
  | error f =>
    rw [hdrop] at hbare
    cases hbare
  | ok b₁ =>
    rw [hdrop] at hbare
    cases hbare
    exact cut_dropNodes h hdrop

theorem yields_withoutStamps (h : b.Cut) (tree : Node) : Yields (·.1.Cut) (withoutStamps b tree) :=
  (yields_dropNodes h _).bind fun bare hbare => (Yields.trivial (treeAfter b bare tree)).bind fun _ _ => .pure hbare

theorem yields_insertAfresh (hn : n.OnLines) (h : b.Cut) (tree : Node) (afterImports : Bool) :
    Yields Cut (insertAfresh b tree n afterImports) :=
  (yields_withoutStamps h tree).bind fun r hr => .pure (cut_insertBlock hn hr r.2 afterImports)

theorem yields_updateInPlace (hn : n.OnLines) (h : b.Cut) (tree : Node) : Yields Cut (updateInPlace b tree n) := by
  have hedited := cut_applyEdits h (updates b.text n (uses tree n.name))
  refine (Yields.trivial _).bind fun tree _ => ?_
  split
  · exact .pure hedited
  · exact .pure (hedited.splice (List.forall_mem_singleton.2 hn.newline_notMem) _ 0)

/-- Injection leaves lines without line feeds, whichever way it takes. -/
theorem yields_edited (hn : n.OnLines) (h : b.Cut) : Yields (·.1.Cut) (edited b n) := by
  refine (Yields.trivial (Tree.parse b.text)).bind fun tree _ => ?_
  cases placementIn tree n.name with
  | misplaced =>
    refine (yields_dropNodes h _).bind fun bare hbare => ?_
    refine (Yields.trivial (treeAfter b bare tree)).bind fun tree _ => ?_
    exact (yields_insertAfresh hn hbare tree true).bind fun _ hb => .pure hb
  | wellPlaced => exact (yields_updateInPlace hn h tree).bind fun _ hb => .pure hb
  | absent => exact (yields_insertAfresh hn h tree false).bind fun _ hb => .pure hb

theorem ofText_of_notMem (hr : '\r' ∉ d) : ofText d = (ofText d).ending ['\n'] := by
  rw [ofText, Text.not_has_crlf hr]
  rfl

theorem ofText_lfToCrlf (hr : '\r' ∉ d) (hlf : '\n' ∈ d) : ofText (Text.lfToCrlf d) = (ofText d).ending ['\r', '\n'] := by
  rw [ofText, if_pos (Text.has_crlf_lfToCrlf hlf), Text.crlfToLf_lfToCrlf, ofText, Text.crlfToLf_of_notMem hr]
  rfl

/-- Lines, with either line end, as a document and what was done to it. -/
theorem inject_ending (hn : n.OnLines) {e : Text} (h : ofText e = b.ending newline) (hb : b.Cut) :
    inject e n = edited b n >>= fun r => pure (Text.broken newline r.1.text,
      if Text.broken newline r.1.text = e then .unchanged else r.2) := by
  rw [inject_eq, h, edited_ending, bind_map_left]
  refine (yields_edited hn hb).bind_congr fun r hr => ?_
  rw [Prod.map_fst, hr.render_ending]
  rfl

/-- Injection sees no difference between a document and the same with carriage returns before its line feeds, and neither do the
spoken text, the recorded narration and the placement. -/
theorem inject_lfToCrlf (hr : '\r' ∉ d) (hlf : '\n' ∈ d) (hname : '\n' ∉ n.name) (hpath : '\n' ∉ n.path)
    (hdigest : '\n' ∉ n.digest) :
    inject (Text.lfToCrlf d) n = Prod.map Text.lfToCrlf id <$> inject d n ∧
      Spoken.extract (Text.lfToCrlf d) = Spoken.extract d ∧
      ∀ name, locate? (Text.lfToCrlf d) name = locate? d name ∧ placement (Text.lfToCrlf d) name = placement d name := by
  have hn : n.OnLines := ⟨hname, hpath, hdigest⟩
  have hsame : Text.crlfToLf (Text.lfToCrlf d) = Text.crlfToLf d := by
    rw [Text.crlfToLf_lfToCrlf, Text.crlfToLf_of_notMem hr]
  refine ⟨?_, Spoken.extract_congr hsame, fun name => ⟨locate?_congr hsame name, placement_congr hsame name⟩⟩
  rw [inject_ending hn (ofText_lfToCrlf hr hlf) (cut_ofText d), inject_ending hn (ofText_of_notMem hr) (cut_ofText d), map_bind]
  refine bind_congr fun r => ?_
  rw [map_pure, Text.broken_self]
  exact congrArg pure (Prod.ext rfl (if_congr Text.lfToCrlf_inj rfl rfl))

/-- What is written into a greeting. -/
def greetingNarrated : Narrated :=
  ⟨[⟨"ada".toList, "Ada".toList, "https://audio/ada.mp3".toList⟩], "ab".toList, defaultName, defaultPath⟩

theorem inject_lfToCrlf_greeting : Text.lfToCrlf "Hello\n".toList = "Hello\r\n".toList ∧
    inject "Hello\r\n".toList greetingNarrated = Prod.map Text.lfToCrlf id <$> inject "Hello\n".toList greetingNarrated ∧
      Spoken.extract "Hello\r\n".toList = Spoken.extract "Hello\n".toList ∧
      ∀ name, locate? "Hello\r\n".toList name = locate? "Hello\n".toList name ∧
        placement "Hello\r\n".toList name = placement "Hello\n".toList name := by
  have hcrlf : Text.lfToCrlf "Hello\n".toList = "Hello\r\n".toList := by decide
  rw [← hcrlf]
  exact ⟨rfl, inject_lfToCrlf (by decide) (by decide) (by decide) (by decide) (by decide)⟩

end Player
end Narration
