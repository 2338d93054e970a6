import Narration.Proofs.Player.Dropped
import Narration.Proofs.Player.Repeated

/-!
# Relocating narration

Injection moves a misplaced narration below the imports, and leaves all else.

* `Player.Movable` : a document in which narration is misplaced, and whose uses of the component and stamps can be deleted
  with their lines;
* `Player.exists_lines_belowImports` : the lines of a document with a block below its imports;
* `Player.Movable.inject_eq` : what injection into such a document does.
-/

namespace Narration.Player
open Markup
open Buffer (filled filledOutside)

variable {d t : Text} {name : Text} {tree tree' bare : Node} {n : Narrated} {b b' : Buffer}

/-- Where the uses of a component stand. -/
def usePlaces (tree : Node) (name : Text) : List Position := ((uses tree name).map (·.node)).filterMap Node.position

/-- Where the stamps stand. -/
def stampPlaces (tree : Node) : List Position := (stamps tree).filterMap Node.position

/-- A document without the uses of a component. -/
def unused (d : Text) (tree : Node) (name : Text) : Buffer := (Buffer.ofText d).without (usePlaces tree name)

/-- A document without the uses of a component and without stamps; `tree'` is its tree without the uses. -/
def emptied (d : Text) (tree tree' : Node) (name : Text) : Buffer := (unused d tree name).without (stampPlaces tree')

/-- A document in which a component is misplaced. Its uses stand alone on their lines, so do the stamps when these are gone,
and what is left then is a document that narration can enter. -/
structure Movable (d name : Text) (tree tree' bare : Node) : Prop where
  carriage : '\r' ∉ Text.crlfToLf d
  read : Tree.read (Text.crlfToLf d) = .ok tree
  misplaced : placementIn tree name = .misplaced
  alone : (Buffer.ofText d).Alone (usePlaces tree name)
  readUnused : Tree.read (unused d tree name).text = .ok tree'
  aloneStamps : (unused d tree name).Alone (stampPlaces tree')
  rest : (emptied d tree tree' name).lines ≠ []
  fresh : Fresh (emptied d tree tree' name).text bare name

/-! ## Deleting -/

theorem treeAfter_eq (hread : Tree.read b.text = .ok tree) (hread' : Tree.read b'.text = .ok tree') (hr : '\r' ∉ b'.text) :
    treeAfter b b' tree = pure tree' := by
  rw [treeAfter]
  split
  · next hlines =>
    rw [Buffer.text, hlines, ← Buffer.text, hread'] at hread
    rw [Except.ok.inj hread]
  · exact Tree.parse_eq (by rw [Text.crlfToLf_of_notMem hr, hread'])

theorem withoutStamps_alone (h : b.Alone (stampPlaces tree)) (hread : Tree.read b.text = .ok tree)
    (hread' : Tree.read (b.without (stampPlaces tree)).text = .ok tree') (hr : '\r' ∉ (b.without (stampPlaces tree)).text) :
    withoutStamps b tree = pure (b.without (stampPlaces tree), tree') := by
  have hdrop : dropNodes b (stamps tree) = .ok (b.without (stampPlaces tree)) := dropNodes_eq h
  rw [withoutStamps, hdrop]
  change (treeAfter b (b.without (stampPlaces tree)) tree >>= fun t => pure (b.without (stampPlaces tree), t)) = _
  rw [treeAfter_eq hread hread' hr, pure_bind]

theorem carriage_notMem_without {ps : List Position} (h : '\r' ∉ b.text) : '\r' ∉ (b.without ps).text := by
  rw [Buffer.text, Text.mem_unlines (by decide)] at h ⊢
  rintro ⟨l, hl, hmem⟩
  exact h ⟨l, Buffer.mem_lines_without hl, hmem⟩

/-! ## Inserting -/

/-- Lines that enter one below another. -/
theorem splice_splice (b : Buffer) (k : Nat) (new new' : List Text) : ((b.splice k 0 new).splice (k + new.length) 0 new').lines =
    b.lines.take k ++ (new ++ new') ++ b.lines.drop k := by
  simp only [Buffer.splice, Nat.add_zero]
  by_cases hk : k ≤ b.lines.length
  · have hlength : (b.lines.take k ++ new).length = k + new.length := by rw [List.length_append, List.length_take_of_le hk]
    rw [← hlength, List.take_left, List.drop_left]
    simp only [List.append_assoc]
  · have hlength : (b.lines.take k ++ new).length ≤ k + new.length := by
      rw [List.length_append, List.length_take]
      omega
    have hnone : b.lines.drop k = [] := List.drop_of_length_le (by omega)
    rw [hnone, List.append_nil, List.take_of_length_le hlength, List.drop_of_length_le hlength, List.append_nil,
      List.append_nil, List.append_assoc]

/-- The lines of a document with a block below its imports. -/
theorem exists_lines_belowImports (b : Buffer) (tree : Node) (n : Narrated) : ∃ above below,
    (insertBlock b tree n true).lines = b.lines.take (anchorLine tree.children) ++
      (importLines tree.children n.name n.path ++ (gap above ++ blockLines n ++ gap below)) ++
        b.lines.drop (anchorLine tree.children) := by
  have hentry : entryLine tree.children true = anchorLine tree.children := by
    unfold entryLine
    split <;> rfl
  rw [insertBlock_eq b tree n (Nat.le_of_eq hentry.symm), hentry]
  exact ⟨_, _, splice_splice b _ _ _⟩

/-! ## Relocating -/

theorem Movable.isWritten (h : Movable d name tree tree' bare) : (emptied d tree tree' name).IsWritten := by
  have hwritten := Buffer.isWritten_ofText h.carriage
  refine ⟨?_, fun l hl => hwritten.line l (Buffer.mem_lines_without (Buffer.mem_lines_without hl)), h.rest⟩
  rw [emptied, unused, Buffer.newline_without, Buffer.newline_without]
  exact hwritten.newline

/-- Injection takes a misplaced component out of its document, and enters a block below the imports. -/
theorem Movable.inject_eq (h : Movable d n.name tree tree' bare) : inject d n =
    pure ((insertBlock (emptied d tree tree' n.name) bare n true).render,
      if (insertBlock (emptied d tree tree' n.name) bare n true).render = d then .unchanged else .relocated) := by
  have hparse : Tree.parse (Buffer.ofText d).text = pure tree :=
    Tree.parse_eq (by rw [Buffer.text_ofText, Text.crlfToLf_of_notMem h.carriage, h.read])
  have hread : Tree.read (Buffer.ofText d).text = .ok tree := by rw [Buffer.text_ofText, h.read]
  have hcarriage : '\r' ∉ (unused d tree n.name).text :=
    carriage_notMem_without (by rw [Buffer.text_ofText]; exact h.carriage)
  have hdrop : dropNodes (Buffer.ofText d) ((uses tree n.name).map (·.node)) = .ok (unused d tree n.name) := dropNodes_eq h.alone
  have hlift : (liftM (.ok (unused d tree n.name) : Except Fault Buffer) : Report Buffer) = pure (unused d tree n.name) := rfl
  have hbare : withoutStamps (unused d tree n.name) tree' = pure (emptied d tree tree' n.name, bare) :=
    withoutStamps_alone h.aloneStamps h.readUnused h.fresh.read (carriage_notMem_without hcarriage)
  simp only [inject, hparse, pure_bind, h.misplaced, hdrop, hlift, treeAfter_eq hread h.readUnused hcarriage, insertAfresh, hbare]

/-- Injection into a document in which narration is misplaced moves it below the imports: it is the only use of its
component there, it is found again, and a second injection changes nothing. Apart from it and the import, the lines are those
of the document that are not taken in by the uses and the stamps. -/
theorem inject_relocated (h : Movable d n.name tree tree' bare) (hn : Writable n) (hvoices : n.voices ≠ [])
    (hids : ∀ v ∈ n.voices, v.id ≠ []) : ∃ t above below,
      inject d n = pure (t, .relocated) ∧ inject t n = pure (t, .unchanged) ∧
      (∃ (scope : Scope) (place : Nat) (ns ms : List Node), Tree.read (Text.crlfToLf t) =
          .ok (scope.node .root 0 (Text.crlfToLf t).length (withBlock scope place n ns ms)) ∧
        Unmarked n.name ns ∧ Unmarked n.name ms) ∧
      placement t n.name = pure .wellPlaced ∧ locate? t n.name = pure (some ⟨some n.digest, n.voices⟩) ∧
      Text.lines (Text.crlfToLf t) = (emptied d tree tree' n.name).lines.take (anchorLine bare.children) ++
        (importLines bare.children n.name n.path ++ (gap above ++ blockLines n ++ gap below)) ++
        (emptied d tree tree' n.name).lines.drop (anchorLine bare.children) ∧
      filled (unused d tree n.name).lines = filledOutside (usePlaces tree n.name) 1 (Text.lines (Text.crlfToLf d)) ∧
      filled (emptied d tree tree' n.name).lines = filledOutside (stampPlaces tree') 1 (unused d tree n.name).lines := by
  have hwritten := h.isWritten
  obtain ⟨a, b, hall⟩ := exists_carries h.fresh hn.name hn.path true
  obtain ⟨hlines, scope, ns, ms, hcarries⟩ := hall n hn rfl rfl
  obtain ⟨above, below, hinserted⟩ := exists_lines_belowImports (emptied d tree tree' n.name) bare n
  have hbuffer : insertBlock (emptied d tree tree' n.name) bare n true =
      ⟨(Buffer.ofText d).newline, Text.lines (a ++ blockText n ++ b)⟩ := by
    rw [← hlines _ (Buffer.lines_text hwritten).symm]
    have hnewline := newline_insertBlock (emptied d tree tree' n.name) bare n true
    rw [emptied, unused, Buffer.newline_without, Buffer.newline_without] at hnewline
    rw [← hnewline]
    rfl
  have hrender : (insertBlock (emptied d tree tree' n.name) bare n true).render = written d (a ++ blockText n ++ b) := by
    rw [hbuffer]
    rfl
  have ht := crlfToLf_written d hcarries.carriage
  have hplacement := hcarries.placement_eq h.fresh.unmarked ht
  have hne : written d (a ++ blockText n ++ b) ≠ d := by
    intro heq
    rw [heq] at ht
    have hread := hcarries.read
    rw [← ht, h.read] at hread
    have hmisplaced := h.misplaced
    rw [Except.ok.inj hread, hcarries.placementIn_eq h.fresh.unmarked] at hmisplaced
    cases hmisplaced
  have hinject := h.inject_eq
  rw [hrender, if_neg hne] at hinject
  refine ⟨_, above, below, hinject, ?_, ⟨scope, a.length, ns, ms, ?_, hcarries.unmarked h.fresh.unmarked⟩, hplacement,
    hcarries.locate?_eq h.fresh.unmarked ht hn.digest hvoices hids, ?_, Buffer.filled_without h.alone,
    Buffer.filled_without h.aloneStamps⟩
  · rw [inject_carries ht hcarries hcarries h.fresh.unmarked hn.digest rfl,
      written_written d hcarries.carriage (newline_mem_blockText n a b), if_pos rfl]
  · rw [ht]
    exact hcarries.read
  · rw [ht, ← hinserted, hbuffer]

/-- Whether a component can be moved in a document with some trees. -/
def isMovable (d name : Text) (tree tree' bare : Node) : Bool :=
  !(Text.crlfToLf d).contains '\r' && placementIn tree name = .misplaced &&
    decide ((Buffer.ofText d).Alone (usePlaces tree name)) && decide ((unused d tree name).Alone (stampPlaces tree')) &&
    !(emptied d tree tree' name).lines.isEmpty && isFresh (emptied d tree tree' name).text name bare

theorem movable_of_isMovable (hread : Tree.read (Text.crlfToLf d) = .ok tree)
    (hread' : Tree.read (unused d tree name).text = .ok tree') (hread'' : Tree.read (emptied d tree tree' name).text = .ok bare)
    (h : isMovable d name tree tree' bare) : Movable d name tree tree' bare := by
  simp only [isMovable, Bool.and_eq_true, Bool.not_eq_true', List.contains_eq_mem, decide_eq_false_iff_not,
    decide_eq_true_eq, List.isEmpty_eq_false_iff] at h
  obtain ⟨⟨⟨⟨⟨hcarriage, hmisplaced⟩, halone⟩, halone'⟩, hrest⟩, hfresh⟩ := h
  exact ⟨hcarriage, hread, hmisplaced, halone, hread', halone', hrest, fresh_of_isFresh hread'' hfresh⟩

/-- A page with narration inside another component. -/
def cardPage : Text :=
  "import A from \"a\"\n\n<Card>\n\x7b/* speak-mintlify-hash: 12 */\x7d\n<AudioTranscript voices=\x7b[]\x7d />\n</Card>\n\nText.\n".toList

theorem exists_movable_cardPage : ∃ tree tree' bare, Movable cardPage defaultName tree tree' bare := by
  obtain ⟨tree, hread, h⟩ := Fallible.exists_of_any (by decide +kernel :
    (Tree.read (Text.crlfToLf cardPage)).toOption.any fun tree =>
      (Tree.read (unused cardPage tree defaultName).text).toOption.any fun tree' =>
        (Tree.read (emptied cardPage tree tree' defaultName).text).toOption.any fun bare =>
          isMovable cardPage defaultName tree tree' bare)
  obtain ⟨tree', hread', h⟩ := Fallible.exists_of_any h
  obtain ⟨bare, hread'', h⟩ := Fallible.exists_of_any h
  exact ⟨tree, tree', bare, movable_of_isMovable hread hread' hread'' h⟩

theorem inject_relocated_cardPage : ∃ tree tree' bare t above below, Movable cardPage defaultName tree tree' bare ∧
    inject cardPage narratedByAda = pure (t, .relocated) ∧ inject t narratedByAda = pure (t, .unchanged) ∧
      placement t defaultName = pure .wellPlaced ∧
      locate? t defaultName = pure (some ⟨some "ab".toList, narratedByAda.voices⟩) ∧
      Text.lines (Text.crlfToLf t) = (emptied cardPage tree tree' defaultName).lines.take (anchorLine bare.children) ++
        (importLines bare.children defaultName defaultPath ++ (gap above ++ blockLines narratedByAda ++ gap below)) ++
        (emptied cardPage tree tree' defaultName).lines.drop (anchorLine bare.children) := by
  obtain ⟨tree, tree', bare, h⟩ := exists_movable_cardPage
  obtain ⟨t, above, below, hinject, hagain, -, hplacement, hlocate, hlines, -⟩ :=
    inject_relocated h writable_narratedByAda (by decide) (by decide)
  exact ⟨tree, tree', bare, t, above, below, h, hinject, hagain, hplacement, hlocate, hlines⟩

/-- Text that looks like one of the placeholders of the reader makes the component stand there twice. Deleting it twice takes
in the lines below it. -/
theorem inject_relocated_placeholder :
    ((placement "A \ue0000\ue001\n<Card>\n<AudioTranscript voices=\x7b[]\x7d />\n</Card>\nB\nC\n".toList
      defaultName).outcome.1.toOption = some .misplaced) ∧
    ((inject "A \ue0000\ue001\n<Card>\n<AudioTranscript voices=\x7b[]\x7d />\n</Card>\nB\nC\n".toList
      narratedByAda).outcome.1.toOption.map fun r => ["</Card>".toList, ['B'], ['C']].map fun l => (Text.lines r.1).contains l) =
        some [false, false, false] := by decide +kernel

end Narration.Player
