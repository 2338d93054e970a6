import Narration.Proofs.Player.Injected

/-!
# Several injections

The last of several injections is the one that counts.

* `Player.inOrder` : edits in the order in which they are made;
* `Player.applyEdits_pair` : two edits exchange two parts of a text;
* `Player.applyEdits_updates` : the edits of a block exchange its voices and its fingerprint;
* `Player.inject_carries` : injection into a document that has a block;
* `Player.injectAll_carries` : several injections into such a document.
-/

namespace Narration

theorem Buffer.replaceSpan_eq {newline u v w : Text} (new : Text) :
    replaceSpan ⟨newline, Text.lines (u ++ v ++ w)⟩ u.length (u.length + v.length) new =
      ⟨newline, Text.lines (u ++ new ++ w)⟩ := by
  have hdrop : (u ++ v ++ w).drop (u.length + v.length) = w := by rw [← List.length_append, List.drop_left]
  have htake : (u ++ v ++ w).take u.length = u := by rw [List.append_assoc, List.take_left]
  rw [replaceSpan, text, Text.unlines_lines, hdrop, htake]

namespace Player
open Markup

variable {d t a b : Text} {tree : Node} {n n' : Narrated} {ns : List Narrated} {scope scope' : Scope}
  {nodes above below above' below' : List Node}

/-! ## Edits -/

/-- Edits in the order in which they are made, found by entering one after another. -/
def inOrder (edits : List Edit) : List Edit :=
  edits.foldr (fun e es => es.takeWhile (·.after e) ++ e :: es.dropWhile (·.after e)) []

theorem mergeSort_eq_inOrder (edits : List Edit) : edits.mergeSort (fun x y => !y.after x) = inOrder edits := by
  have htrans (x y z : Edit) (h : !y.after x) (h' : !z.after y) : !z.after x := by
    simp [Edit.after] at h h' ⊢
    omega
  have htotal (x y : Edit) : !y.after x || !x.after y := by
    simp [Edit.after]
    omega
  induction edits with
  | nil => exact List.mergeSort_nil
  | cons e edits ih =>
    obtain ⟨l, r, hall, hedits, hl⟩ := List.mergeSort_cons htrans htotal e edits
    have hr : ∀ x ∈ r, x.after e = false := by
      have hsorted := List.pairwise_mergeSort htrans htotal (e :: edits)
      rw [hall, List.pairwise_append, List.pairwise_cons] at hsorted
      intro x hx
      simpa using hsorted.2.1.1 x hx
    have hl' : ∀ x ∈ l, x.after e := fun x hx => by simpa using hl x hx
    have htake : r.takeWhile (·.after e) = [] ∧ r.dropWhile (·.after e) = r := by
      cases r with
      | nil => exact ⟨rfl, rfl⟩
      | cons x r => simp [hr x List.mem_cons_self]
    change _ = (inOrder edits).takeWhile (·.after e) ++ e :: (inOrder edits).dropWhile (·.after e)
    rw [← ih, hedits, hall, List.takeWhile_append_of_pos hl', List.dropWhile_append_of_pos hl', htake.1, htake.2,
      List.append_nil]

theorem applyEdits_eq (b : Buffer) (edits : List Edit) :
    applyEdits b edits = (inOrder edits).foldl (fun b e => b.replaceSpan e.start e.stop e.new) b := by
  rw [applyEdits, mergeSort_eq_inOrder]

/-- Two edits, the second one in front of the first, exchange two parts of a text. -/
theorem applyEdits_pair {newline s g v e s' v' : Text} (hg : g ≠ []) :
    applyEdits ⟨newline, Text.lines (a ++ (s ++ (g ++ (v ++ e))))⟩
      [⟨(a ++ s ++ g).length, (a ++ s ++ g ++ v).length, v'⟩, ⟨a.length, (a ++ s).length, s'⟩] =
      ⟨newline, Text.lines (a ++ (s' ++ (g ++ (v' ++ e))))⟩ := by
  have hsorted (e e' : Edit) (h : e'.start < e.start) : inOrder [e, e'] = [e, e'] := by
    have hnot : e'.after e = false := by
      simp [Edit.after]
      omega
    simp [inOrder, hnot]
  have hlt : a.length < (a ++ s ++ g).length := by
    have hpos := List.length_pos_iff.2 hg
    simp only [List.length_append]
    omega
  have htext : a ++ (s ++ (g ++ (v ++ e))) = a ++ s ++ g ++ v ++ e := by simp only [List.append_assoc]
  have htext' : a ++ s ++ g ++ v' ++ e = a ++ s ++ (g ++ (v' ++ e)) := by simp only [List.append_assoc]
  rw [applyEdits_eq, hsorted _ _ hlt, List.foldl_cons, List.foldl_cons, List.foldl_nil, htext, @List.length_append _ (a ++ s ++ g) v,
    Buffer.replaceSpan_eq, htext', @List.length_append _ a s, Buffer.replaceSpan_eq]
  simp only [List.append_assoc]

/-- A tag up to its voices. -/
def tagHead (name : Text) : Text := '<' :: name ++ ' ' :: voicesAttribute ++ ['=']

theorem length_tagHead (name : Text) : (tagHead name).length = voicesPlace name := by
  simp [tagHead, voicesPlace, voicesAttribute]

theorem tag_eq (voices : List Voice) (name : Text) :
    tag voices name = tagHead name ++ ('\x7b' :: Voice.payload voices ++ ['\x7d']) ++ [' ', '/', '>'] := by
  simp [tag, tagHead]

/-- The edits of the only block of a document. -/
theorem updates_blockUse {root : Node} (t : Text) (hroot : root.children = withBlock scope a.length n above below)
    (habove : Unmarked n.name above) (hd : isDigest n.digest) :
    updates t n' [blockUse scope a.length n [root]] =
      [⟨(a ++ stamp n.digest ++ '\n' :: tagHead n.name).length,
        (a ++ stamp n.digest ++ '\n' :: tagHead n.name).length + ('\x7b' :: Voice.payload n.voices ++ ['\x7d']).length,
        '\x7b' :: Voice.payload n'.voices ++ ['\x7d']⟩,
      ⟨a.length, a.length + (stamp n.digest).length, stamp n'.digest⟩] := by
  have hplace : tagPlace a.length n + voicesPlace n.name = (a ++ stamp n.digest ++ '\n' :: tagHead n.name).length := by
    rw [tagPlace, ← length_tagHead]
    simp
    omega
  have hlength : ('\x7b' :: Voice.payload n.voices ++ ['\x7d']).length = (Voice.payload n.voices).length + 2 := by simp
  have hvoices : (blockUse scope a.length n [root]).voices?.bind (·.span) =
      some (tagPlace a.length n + voicesPlace n.name,
        tagPlace a.length n + (voicesPlace n.name + (Voice.payload n.voices).length + 2)) := rfl
  have hposition : (blockUse scope a.length n [root]).node.position =
      some (scope.position (tagPlace a.length n) (tagPlace a.length n + (tag n.voices n.name).length)) := rfl
  have hstamp : (blockUse scope a.length n [root]).stamp?.bind Node.position =
      some (scope.position a.length (a.length + (stamp n.digest).length)) := by
    rw [stamp?_blockUse habove hd hroot]
    rfl
  rw [updates, hposition]
  simp only [voicesEdit, digestEdit, hvoices, hstamp, List.flatMap_nil, List.append_nil]
  rw [hlength, Nat.add_assoc (voicesPlace n.name), ← Nat.add_assoc (tagPlace a.length n), hplace]
  rfl

/-- The edits of a block put another one in its place. -/
theorem applyEdits_updates {newline : Text} {root : Node} (t : Text)
    (hroot : root.children = withBlock scope a.length n above below) (habove : Unmarked n.name above)
    (hd : isDigest n.digest) (hname : n'.name = n.name) :
    applyEdits ⟨newline, Text.lines (a ++ blockText n ++ b)⟩ (updates t n' [blockUse scope a.length n [root]]) =
      ⟨newline, Text.lines (a ++ blockText n' ++ b)⟩ := by
  have htext (m : Narrated) (hm : m.name = n.name) : a ++ blockText m ++ b = a ++ (stamp m.digest ++ ('\n' :: tagHead n.name ++
      ('\x7b' :: Voice.payload m.voices ++ ['\x7d'] ++ ([' ', '/', '>'] ++ b)))) := by
    rw [blockText, tag_eq, hm]
    simp
  rw [updates_blockUse t hroot habove hd, ← List.length_append, ← List.length_append, htext n rfl, htext n' hname]
  exact applyEdits_pair (by simp)

/-! ## Injection where there is a block -/

theorem importsComponent_append (name : Text) (ns ms : List Node) :
    importsComponent (ns ++ ms) name = (importsComponent ns name || importsComponent ms name) := List.any_append

/-- Injection where there is a block puts another one in its place. -/
theorem inject_carries (hd : Text.crlfToLf d = a ++ blockText n ++ b) (h : Carries nodes n a b scope above below)
    (h' : Carries nodes n' a b scope' above' below') (hnodes : Unmarked n.name nodes) (hdigest : isDigest n.digest)
    (hname : n'.name = n.name) : inject d n' = pure (written d (a ++ blockText n' ++ b),
      if written d (a ++ blockText n' ++ b) = d then .unchanged else .replaced) := by
  obtain ⟨habove, hbelow⟩ := h.unmarked hnodes
  have hbuffer : Buffer.ofText d = ⟨(Buffer.ofText d).newline, Text.lines (a ++ blockText n ++ b)⟩ := by
    rw [← hd]
    rfl
  have htext (newline t : Text) : (Buffer.mk newline (Text.lines t)).text = t := Text.unlines_lines t
  have hparse : Tree.parse (Buffer.ofText d).text =
      pure (scope.node .root 0 (a ++ blockText n ++ b).length (withBlock scope a.length n above below)) := by
    rw [hbuffer, htext]
    exact h.parse_eq (Text.crlfToLf_of_notMem h.carriage)
  have himports : importsComponent (withBlock scope' a.length n' above' below') n.name := by
    rw [withBlock, importsComponent_append, ← hname, h'.imports, Bool.true_or]
  have hedited (t : Text) (stop : Nat) : applyEdits (Buffer.ofText d)
      (updates t n' [blockUse scope a.length n [scope.node .root 0 stop (withBlock scope a.length n above below)]]) =
      ⟨(Buffer.ofText d).newline, Text.lines (a ++ blockText n' ++ b)⟩ := by
    rw [hbuffer]
    exact applyEdits_updates t rfl habove hdigest hname
  have hchildren (stop : Nat) : (scope'.node .root 0 stop (withBlock scope' a.length n' above' below')).children =
      withBlock scope' a.length n' above' below' := rfl
  simp only [inject, hparse, htext, pure_bind, hname, h.placementIn_eq hnodes, updateInPlace, uses_withBlock habove hbelow,
    hedited, h'.parse_eq (Text.crlfToLf_of_notMem h'.carriage), hchildren, himports, if_true]
  rfl

/-! ## Several injections -/

/-- Several injections, one after another. -/
def injectAll (d : Text) (ns : List Narrated) : Report Text := ns.foldlM (fun t n => Prod.fst <$> inject t n) d

theorem injectAll_cons {m : Narrated} {o : Outcome} (h : inject d m = pure (t, o)) (ns : List Narrated) :
    injectAll d (m :: ns) = injectAll t ns := by
  rw [injectAll, List.foldlM_cons, h, map_pure, pure_bind]
  rfl

/-- Each of several injections puts its block in the place of the one before. -/
theorem injectAll_carries {name path : Text} (hall : ∀ n, Writable n → n.name = name → n.path = path →
      ∃ scope above below, Carries nodes n a b scope above below) (hnodes : Unmarked name nodes)
    (hns : ∀ m ∈ ns, Writable m ∧ m.name = name ∧ m.path = path) (hn : Writable n ∧ n.name = name ∧ n.path = path)
    (hn' : Writable n' ∧ n'.name = name ∧ n'.path = path) :
    injectAll (written d (a ++ blockText n' ++ b)) (ns ++ [n]) = pure (written d (a ++ blockText n ++ b)) := by
  have hstep {m m' : Narrated} (hm : Writable m ∧ m.name = name ∧ m.path = path)
      (hm' : Writable m' ∧ m'.name = name ∧ m'.path = path) :
      ∃ o, inject (written d (a ++ blockText m ++ b)) m' = pure (written d (a ++ blockText m' ++ b), o) := by
    obtain ⟨_, _, _, hcarries⟩ := hall m hm.1 hm.2.1 hm.2.2
    obtain ⟨_, _, _, hcarries'⟩ := hall m' hm'.1 hm'.2.1 hm'.2.2
    have hinject := inject_carries (crlfToLf_written d hcarries.carriage) hcarries hcarries' (hm.2.1 ▸ hnodes) hm.1.digest
      (hm'.2.1.trans hm.2.1.symm)
    rw [written_written d hcarries.carriage (newline_mem_blockText m a b)] at hinject
    exact ⟨_, hinject⟩
  induction ns generalizing n' with
  | nil =>
    obtain ⟨o, ho⟩ := hstep hn' hn
    rw [List.nil_append, injectAll_cons ho]
    rfl
  | cons m ns ih =>
    rw [List.forall_mem_cons] at hns
    obtain ⟨o, ho⟩ := hstep hn' hns.1
    rw [List.cons_append, injectAll_cons ho]
    exact ih hns.2 hns.1

/-- The last of several injections into a document that narration can enter leaves what it alone would have written, and
another one with the same narration changes nothing. -/
theorem lastInjection (h : Fresh (Text.crlfToLf d) tree n.name) (hn : Writable n)
    (hns : ∀ m ∈ ns, Writable m ∧ m.name = n.name ∧ m.path = n.path) :
    ∃ t, inject d n = pure (t, .inserted) ∧ injectAll d (ns ++ [n]) = pure t ∧ inject t n = pure (t, .unchanged) := by
  obtain ⟨a, b, hall⟩ := exists_inject h hn.name hn.path
  obtain ⟨⟨scope, above, below, hcarries⟩, hinject⟩ := hall n hn rfl rfl
  refine ⟨_, hinject, ?_, ?_⟩
  · cases ns with
    | nil => exact injectAll_cons hinject []
    | cons m ns =>
      rw [List.forall_mem_cons] at hns
      obtain ⟨-, hfirst⟩ := hall m hns.1.1 hns.1.2.1 hns.1.2.2
      rw [List.cons_append, injectAll_cons hfirst]
      exact injectAll_carries (fun m hm hname hpath => (hall m hm hname hpath).1) h.unmarked hns.2 ⟨hn, rfl, rfl⟩ hns.1
  · rw [inject_carries (crlfToLf_written d hcarries.carriage) hcarries hcarries h.unmarked hn.digest rfl,
      written_written d hcarries.carriage (newline_mem_blockText n a b), if_pos rfl]

theorem lastInjection_guidePage : ∃ tree t, Fresh (Text.crlfToLf guidePage) tree defaultName ∧
    inject guidePage narratedByBob = pure (t, .inserted) ∧ injectAll guidePage [narratedByAda, narratedByBob] = pure t ∧
      inject t narratedByBob = pure (t, .unchanged) := by
  obtain ⟨tree, h⟩ := exists_fresh_guidePage
  have hfirst : ∀ m ∈ [narratedByAda], Writable m ∧ m.name = narratedByBob.name ∧ m.path = narratedByBob.path := by
    intro m hm
    rw [List.mem_singleton.1 hm]
    exact ⟨writable_narratedByAda, rfl, rfl⟩
  obtain ⟨t, ht⟩ := lastInjection h writable_narratedByBob hfirst
  exact ⟨tree, t, h, ht⟩

/-- Below content the import can end up inside a tag, whose open quote its own quotes close. There a second injection does not
find it, and adds another one. -/
theorem injectAll_ne_openQuotePage :
    ((Tree.read openQuotePage).toOption.any fun tree => (uses tree defaultName).isEmpty && (stamps tree).isEmpty) ∧
    (injectAll openQuotePage [narratedByBob]).outcome.1.toOption.isSome ∧
    (injectAll openQuotePage [narratedByAda, narratedByBob]).outcome.1.toOption.isSome ∧
    (injectAll openQuotePage [narratedByAda, narratedByBob]).outcome.1.toOption ≠
      (injectAll openQuotePage [narratedByBob]).outcome.1.toOption := by
  simp only [injectAll, inject, updateInPlace, applyEdits_eq]
  decide +kernel

end Player
end Narration
