import Narration.Proofs.Player.Deleted
import Narration.Proofs.Player.Dropped

/-!
# Pages with narration on lines of its own

* `Player.Piece` : a line without narration, or a part of narration as it is written;
* `Player.withoutImports_page`, `Player.withoutStamps_page`, `Player.withoutUses_page` : what going over such a page once
  makes of it;
* `Player.remove_page` : the lines remain, apart from empty ones.
-/

namespace Narration.Player
open Text (WholeLines ended IsNewline)
open Buffer (filled filled_append)

/-- A line that has nothing to do with narration, with spaces and tabs for blanks. -/
structure Bare (name l : Text) : Prop where
  blank : ∀ c ∈ l, Text.isBlank c → Text.isSpaceOrTab c
  name : ¬name <:+: l
  label : ¬label <:+: l

theorem Bare.newline {name l : Text} (h : Bare name l) : '\n' ∉ l := fun hmem => absurd (h.blank _ hmem (by decide)) (by decide)

theorem Bare.carriage {name l : Text} (h : Bare name l) : '\r' ∉ l := fun hmem => absurd (h.blank _ hmem (by decide)) (by decide)

/-- A line, or a part of narration that stands on lines of its own. -/
inductive Piece where
  | line (l : Text)
  | statement (path : Text)
  | stamp (digest : Text)
  | tag (source : Text)

namespace Piece

/-- What is written. -/
def text (name : Text) : Piece → Text
  | line l => l
  | statement path => importStatement name path
  | stamp digest => Player.stamp digest
  | tag source => tagOf source name

/-- A line without narration, or a part of narration as injection writes it. -/
def Fine (name : Text) : Piece → Prop
  | line l => Bare name l
  | statement path => isQuotable path
  | stamp digest => isDigest digest
  | tag source => Voice.Literal source

def line? : Piece → Option Text
  | line l => some l
  | _ => none

def isStatement : Piece → Bool
  | statement _ => true
  | _ => false

def isStamp : Piece → Bool
  | stamp _ => true
  | _ => false

end Piece

/-- Pieces with line ends between them. -/
def page (newline name : Text) (ps : List Piece) : Text := Text.join newline (ps.map (·.text name))

/-- The lines that are no narration. -/
def prose (ps : List Piece) : List Text := ps.filterMap Piece.line?

variable {name path newline w x y z : Text} {p : Piece} {ps : List Piece} {ts : List Text}

theorem page_cons (newline name : Text) (p : Piece) (hps : ps ≠ []) :
    page newline name (p :: ps) = p.text name ++ newline ++ page newline name ps :=
  Text.join_cons newline (p.text name) (by simpa using hps)

theorem page_singleton (newline name : Text) (p : Piece) : page newline name [p] = p.text name := Text.join_singleton newline _

theorem bare_nil (hname : isName name) : Bare name [] := by
  obtain ⟨c, u, rfl, -, -⟩ := exists_of_isName hname
  exact ⟨by simp, by simp, by decide⟩

theorem filled_prose_cons (p : Piece) (ps : List Piece) : filled (prose (p :: ps)) = filled (prose [p]) ++ filled (prose ps) := by
  rw [← filled_append, prose, prose, prose, ← List.filterMap_append, List.singleton_append]

theorem ne_nil_of_isName (hname : isName name) : name ≠ [] := by
  rintro rfl
  cases hname

/-! ## Going over a page -/

/-- What going over a page does with a piece: alone it gives a piece, and in front of others it gives one or goes with its
line. -/
def Keeps (f : Text → Text) (newline name : Text) (kept : Piece → Prop) (p : Piece) (ps : List Piece) : Prop :=
  (∃ q, kept q ∧ filled (prose [q]) = filled (prose [p]) ∧ f (p.text name) = q.text name) ∧
  ((∃ q, kept q ∧ filled (prose [q]) = filled (prose [p]) ∧
      f (p.text name ++ newline ++ page newline name ps) = q.text name ++ newline ++ f (page newline name ps)) ∨
    (filled (prose [p]) = [] ∧ f (p.text name ++ newline ++ page newline name ps) = f (page newline name ps)))

theorem exists_page {f : Text → Text} {given kept : Piece → Prop}
    (hstep : ∀ p ps, (∀ q ∈ p :: ps, given q) → Keeps f newline name kept p ps) (hps : ps ≠ []) (h : ∀ p ∈ ps, given p) :
    ∃ ps', ps' ≠ [] ∧ (∀ p ∈ ps', kept p) ∧ filled (prose ps') = filled (prose ps) ∧
      f (page newline name ps) = page newline name ps' := by
  induction ps with
  | nil => exact absurd rfl hps
  | cons p ps ih =>
    obtain ⟨⟨q, hq, hfilled, heq⟩, hfront⟩ := hstep p ps h
    by_cases hnil : ps = []
    · subst hnil
      exact ⟨[q], by simp, by simpa using hq, hfilled, by rw [page_singleton, page_singleton, heq]⟩
    · obtain ⟨ps', hps', hkept, hfilled', heq'⟩ := ih hnil fun p hp => h p (List.mem_cons_of_mem _ hp)
      rw [page_cons newline name p hnil, filled_prose_cons p ps, ← hfilled']
      rcases hfront with ⟨q, hq, hfilled, heq⟩ | ⟨hfilled, heq⟩
      · refine ⟨q :: ps', by simp, List.forall_mem_cons.2 ⟨hq, hkept⟩, ?_, ?_⟩
        · rw [filled_prose_cons q ps', hfilled]
        · rw [heq, heq', page_cons newline name q hps']
      · exact ⟨ps', hps', hkept, by rw [hfilled, List.nil_append], by rw [heq, heq']⟩

/-! ## Lines in front -/

theorem newline_notMem_name (hname : isName name) (hn : IsNewline newline) : ∀ c ∈ newline, c ∉ name := by
  intro c hc
  refine notMem_of_isName hname ?_
  rcases hn with rfl | rfl
  · rw [List.mem_singleton.1 hc]
    decide
  · rcases List.mem_pair.1 hc with rfl | rfl <;> decide

theorem newline_notMem_label (hn : IsNewline newline) : ∀ c ∈ newline, c ∉ label := by
  intro c hc
  rcases hn with rfl | rfl
  · rw [List.mem_singleton.1 hc]
    decide
  · rcases List.mem_pair.1 hc with rfl | rfl <;> decide

theorem wholeLines_line (hn : IsNewline newline) (l : Text) : WholeLines (l ++ newline) := by
  have h := Text.wholeLines_ended hn [l]
  rwa [Text.ended_cons, ended, List.flatMap_nil, List.append_nil] at h

theorem not_infix_line (hw : w ≠ []) (hnot : ∀ c ∈ newline, c ∉ w) (hn : IsNewline newline) {l : Text} (h : ¬w <:+: l) :
    ¬w <:+: l ++ newline := by
  intro hwithin
  have hended : ended newline [l] = l ++ newline := by simp [ended]
  obtain ⟨k, hk, hwithin⟩ := Text.exists_infix_of_ended hw hnot hn.ne_nil (hended ▸ hwithin)
  exact h (List.mem_singleton.1 hk ▸ hwithin)

/-- Characters that stand in no line, with some others before them, stand at the front of another piece. -/
theorem front_of_join {q : Char → Prop} {r : Prop} (hn : IsNewline newline) (hw : w ≠ []) (hnot : ∀ c ∈ newline, c ∉ w)
    (h : ∀ t ∈ ts, ¬w <:+: t ∨ ∀ z v y, t ++ v = z ++ w ++ y → (∀ c ∈ z, q c) → r)
    (heq : Text.join newline ts = z ++ w ++ y) (hz : ∀ c ∈ z, q c) : r := by
  induction ts generalizing z with
  | nil =>
    have hnil := congrArg List.length heq
    have hpos := List.length_pos_iff.2 hw
    simp only [Text.join, List.intercalate_nil, List.length_append, List.length_nil] at hnil
    omega
  | cons t ts ih =>
    rcases h t List.mem_cons_self with hfree | hfront
    · by_cases hts : ts = []
      · subst hts
        rw [Text.join_singleton] at heq
        exact absurd ⟨z, y, heq.symm⟩ hfree
      · rw [Text.join_cons newline t hts] at heq
        have hline : '\n' ∉ w.dropLast := by
          obtain ⟨v, rfl, -⟩ := hn.exists_eq
          exact fun hmem => hnot '\n' (by simp) (List.mem_of_mem_dropLast hmem)
        rcases Text.cut_whole_lines heq.symm (wholeLines_line hn t) hline with hfront | ⟨z', rfl, htail⟩
        · exact absurd ((List.suffix_append z w).isInfix.trans hfront.isInfix) (not_infix_line hw hnot hn hfree)
        · refine ih (fun t ht => h t (List.mem_cons_of_mem _ ht)) htail fun c hc => hz c (List.mem_append_right _ hc)
    · rw [Text.join_cons_eq] at heq
      exact hfront z _ y heq hz

/-! ## Imports -/

theorem withoutImports_newline (hn : IsNewline newline) (lineStart : Bool) (x : Text) :
    withoutImports name 0 lineStart (newline ++ x) = newline ++ withoutImports name 0 true x := by
  rcases hn with rfl | rfl
  · exact withoutImports_cons (.inr (unimporting_cons (by decide) (by decide) x))
  · have hreturn : Unimporting ('\r' :: '\n' :: x) := unimporting_cons (by decide) (by decide) _
    have hline : Unimporting ('\n' :: x) := unimporting_cons (by decide) (by decide) x
    exact (withoutImports_cons (.inr hreturn)).trans (congrArg ('\r' :: ·) (withoutImports_cons (.inr hline)))

theorem withoutImports_stamp {digest : Text} (hd : isDigest digest) (x : Text) :
    withoutImports name 0 true (stamp digest ++ x) = stamp digest ++ withoutImports name 0 false x := by
  have hsource := notMem_stampSource hd (c := '\n') (by decide) (by decide) (by decide)
  have hline : '\n' ∉ stampSource digest ++ ['\x7d'] := by simpa using hsource
  rw [stamp_eq, List.cons_append, withoutImports_cons (.inr (unimporting_cons (by decide) (by decide) _)),
    decide_eq_false (by decide), withoutImports_line hline, List.cons_append]

/-- No piece goes on from blanks and braces to the name, but that an import does so from its first word. -/
theorem front_of_piece (hname : isName name) (hp : p.Fine name) : ¬name <:+: p.text name ∨ ∀ z v y,
    p.text name ++ v = z ++ name ++ y → (∀ c ∈ z, Text.isBlank c ∨ c = '\x7b') → name <+: "import".toList := by
  obtain ⟨c, u, hcons, hc, -⟩ := exists_of_isName hname
  have hfirst {d : Char} {t z y : Text} (hd : ¬(Text.isBlank d ∨ d = '\x7b')) (heq : d :: t = z ++ name ++ y)
      (hz : ∀ c ∈ z, Text.isBlank c ∨ c = '\x7b') : z = [] ∧ d = c := by
    cases z with
    | nil =>
      rw [hcons] at heq
      exact ⟨rfl, (List.cons.inj heq).1⟩
    | cons b z => exact absurd ((List.cons.inj heq).1 ▸ hz b List.mem_cons_self) hd
  cases p with
  | line l => exact .inl hp.name
  | statement path =>
    right
    intro z v y heq hz
    obtain ⟨rfl, -⟩ := hfirst (d := 'i') (by decide) heq hz
    obtain ⟨r, hr⟩ : ∃ r, importStatement name path ++ v = "import".toList ++ ' ' :: r := ⟨_, rfl⟩
    have hspace := notMem_of_isName hname (d := ' ') (by decide)
    rcases List.append_eq_append_iff.1 (hr.symm.trans heq) with ⟨a, rfl, ha⟩ | ⟨a, ha, -⟩
    · cases a with
      | nil => rw [List.append_nil]
      | cons d a =>
        cases ha
        simp at hspace
    · exact ⟨a, ha.symm⟩
  | stamp digest =>
    right
    intro z v y heq hz
    cases z with
    | nil =>
      rw [hcons] at heq
      obtain rfl : '\x7b' = c := (List.cons.inj heq).1
      cases hc
    | cons b z =>
      obtain ⟨-, rfl⟩ := hfirst (d := '/') (by decide) (List.cons.inj heq).2 fun d hd => hz d (List.mem_cons_of_mem b hd)
      cases hc
  | tag source =>
    right
    intro z v y heq hz
    obtain ⟨-, rfl⟩ := hfirst (d := '<') (by decide) heq hz
    cases hc

/-- Imports are deleted from a page, and nothing else is. -/
theorem withoutImports_page (hname : isName name) (hn : IsNewline newline) (hps : ps ≠ []) (h : ∀ p ∈ ps, p.Fine name) :
    ∃ ps', ps' ≠ [] ∧ (∀ p ∈ ps', p.Fine name ∧ p.isStatement = false) ∧ filled (prose ps') = filled (prose ps) ∧
      withoutImports name 0 true (page newline name ps) = page newline name ps' := by
  refine exists_page (fun p ps h => ?_) hps h
  rw [List.forall_mem_cons] at h
  have hmarkup (hp : p.isStatement = false)
      (hpiece : ∀ x, withoutImports name 0 true (p.text name ++ x) = p.text name ++ withoutImports name 0 false x) :
      Keeps (withoutImports name 0 true) newline name (fun p => p.Fine name ∧ p.isStatement = false) p ps := by
    refine ⟨⟨p, ⟨h.1, hp⟩, rfl, ?_⟩, .inl ⟨p, ⟨h.1, hp⟩, rfl, ?_⟩⟩
    · have halone := hpiece []
      rwa [withoutImports, List.append_nil] at halone
    · rw [List.append_assoc, hpiece, withoutImports_newline hn, List.append_assoc]
  cases p with
  | line l =>
    have hne := ne_nil_of_isName hname
    refine ⟨⟨.line l, ⟨h.1, rfl⟩, rfl, withoutImports_eq_self h.1.name true⟩, .inl ⟨.line l, ⟨h.1, rfl⟩, rfl, ?_⟩⟩
    refine withoutImports_front (wholeLines_line hn l) (not_infix_line hne (newline_notMem_name hname hn) hn h.1.name)
      (notMem_of_isName hname (by decide)) fun z y heq hz => ?_
    refine front_of_join hn hne (newline_notMem_name hname hn) (fun t ht => ?_) heq hz
    obtain ⟨p, hp, rfl⟩ := List.mem_map.1 ht
    exact front_of_piece hname (h.2 p hp)
  | statement path =>
    refine ⟨⟨.line [], ⟨bare_nil hname, rfl⟩, rfl, withoutImports_importStatement_last hname h.1⟩, .inr ⟨rfl, ?_⟩⟩
    rw [List.append_assoc]
    exact withoutImports_importStatement hname h.1 hn _
  | stamp digest => exact hmarkup rfl (withoutImports_stamp h.1)
  | tag source => exact hmarkup rfl (withoutImports_tagOf (notMem_of_isName hname (by decide)) h.1 true)

/-! ## Stamps -/

theorem withoutStamps_stamp_last {digest : Text} (hd : isDigest digest) : Text.substitute stampText? (stamp digest) = [] := by
  have hstamp := stampText?_stamp hd []
  have hmatch := substitute_match (p := stampText?) (m := stamp digest) (x := []) (r := []) (by simp [stamp]) hstamp
  rwa [List.append_nil] at hmatch

/-- No piece but a line goes on from blanks to the label. -/
theorem label_of_piece (hp : p.Fine name) (hstatement : p.isStatement = false) : ¬label <:+: p.text name ∨ ∀ z v y,
    p.text name ++ v = z ++ label ++ y → (∀ c ∈ z, Text.isBlank c) → False := by
  have hfirst {d : Char} {t z y : Text} (hd : Text.isBlank d = false) (hs : d ≠ 's') (heq : d :: t = z ++ label ++ y)
      (hz : ∀ c ∈ z, Text.isBlank c) : False := by
    cases z with
    | nil => exact hs (List.cons.inj heq).1
    | cons b z =>
      have := hz b List.mem_cons_self
      rw [← (List.cons.inj heq).1, hd] at this
      cases this
  cases p with
  | line l => exact .inl hp.label
  | statement path => cases hstatement
  | stamp digest => exact .inr fun z v y heq hz => hfirst (d := '\x7b') (by decide) (by decide) heq hz
  | tag source => exact .inr fun z v y heq hz => hfirst (d := '<') (by decide) (by decide) heq hz

/-- Stamps are deleted from a page, also those in the voices of tags. -/
theorem withoutStamps_page (hname : isName name) (hn : IsNewline newline) (hps : ps ≠ [])
    (h : ∀ p ∈ ps, p.Fine name ∧ p.isStatement = false) : ∃ ps', ps' ≠ [] ∧
      (∀ p ∈ ps', (p.Fine name ∧ p.isStatement = false) ∧ p.isStamp = false) ∧ filled (prose ps') = filled (prose ps) ∧
      Text.substitute stampText? (page newline name ps) = page newline name ps' := by
  refine exists_page (fun p ps h => ?_) hps h
  rw [List.forall_mem_cons] at h
  have hbrace : '\x7b' ∉ newline := by
    rcases hn with rfl | rfl <;> decide
  cases p with
  | line l =>
    refine ⟨⟨.line l, ⟨h.1, rfl⟩, rfl, withoutStamps_eq_self h.1.1.label⟩, .inl ⟨.line l, ⟨h.1, rfl⟩, rfl, ?_⟩⟩
    refine withoutStamps_front (wholeLines_line hn l) (not_infix_line (by decide) (newline_notMem_label hn) hn h.1.1.label)
      fun z y heq hz => ?_
    refine front_of_join hn (by decide) (newline_notMem_label hn) (fun t ht => ?_) heq hz
    obtain ⟨p, hp, rfl⟩ := List.mem_map.1 ht
    exact label_of_piece (h.2 p hp).1 (h.2 p hp).2
  | statement path => cases h.1.2
  | stamp digest =>
    exact ⟨⟨.line [], ⟨⟨bare_nil hname, rfl⟩, rfl⟩, rfl, withoutStamps_stamp_last h.1.1⟩, .inr ⟨rfl, withoutStamps_stamp h.1.1 hn _⟩⟩
  | tag source =>
    have htag := withoutStamps_tagOf (notMem_of_isName hname (by decide)) h.1.1
    constructor
    · obtain ⟨source', hsource', heq⟩ := htag []
      refine ⟨.tag source', ⟨⟨hsource', rfl⟩, rfl⟩, rfl, ?_⟩
      have hnil : Text.substitute stampText? [] = [] := rfl
      rwa [List.append_nil, hnil, List.append_nil] at heq
    · obtain ⟨source', hsource', heq⟩ := htag (newline ++ page newline name ps)
      refine .inl ⟨.tag source', ⟨⟨hsource', rfl⟩, rfl⟩, rfl, ?_⟩
      rw [withoutStamps_plain hbrace] at heq
      rw [List.append_assoc, List.append_assoc]
      exact heq

/-! ## Tags -/

/-- Tags are deleted from a page of lines and tags, and perhaps an empty line below each. -/
theorem withoutUses_page (hname : isName name) (hn : IsNewline newline) (before : Text)
    (h : ∀ p ∈ ps, (p.Fine name ∧ p.isStatement = false) ∧ p.isStamp = false) : ∃ ls, ls ≠ [] ∧ (∀ l ∈ ls, Bare name l) ∧
      filled ls = filled (prose ps) ∧ withoutUses name before 0 (page newline name ps) = Text.join newline ls := by
  have hempty : [([] : Text)] ≠ [] ∧ (∀ l ∈ [([] : Text)], Bare name l) ∧ filled [([] : Text)] = [] :=
    ⟨by simp, by simpa using bare_nil hname, rfl⟩
  induction hlength : ps.length using Nat.strong_induction_on generalizing ps before with
  | h n ih =>
    cases ps with
    | nil => exact ⟨[[]], hempty.1, hempty.2.1, hempty.2.2, rfl⟩
    | cons p ps =>
      rw [List.forall_mem_cons] at h
      cases p with
      | line l =>
        by_cases hnil : ps = []
        · subst hnil
          refine ⟨[l], by simp, List.forall_mem_singleton.2 h.1.1.1, rfl, ?_⟩
          rw [page_singleton, Text.join_singleton]
          exact withoutUses_eq_self h.1.1.1.name before
        · obtain ⟨ls, hls, hbare, hfilled, heq⟩ := ih ps.length (by rw [← hlength, List.length_cons]; omega) ((l ++ newline).reverse ++ before) h.2 rfl
          refine ⟨l :: ls, by simp, List.forall_mem_cons.2 ⟨h.1.1.1, hbare⟩, ?_, ?_⟩
          · rw [filled_prose_cons, ← hfilled, ← List.singleton_append, filled_append]
            rfl
          · rw [page_cons newline name _ hnil, Text.join_cons newline l hls, ← heq]
            exact withoutUses_front (wholeLines_line hn l)
              (not_infix_line (ne_nil_of_isName hname) (newline_notMem_name hname hn) hn h.1.1.1.name)
              (notMem_of_isName hname (by decide)) before
      | statement path => cases h.1.1.2
      | stamp digest => cases h.1.2
      | tag source =>
        have hhead : ∀ t ∈ (ps.map (·.text name)).head?, ∀ c ∈ t.head?, c ≠ '\r' ∧ c ≠ '\n' := by
          intro t ht c hc
          rw [List.head?_map] at ht
          obtain ⟨q, hq, rfl⟩ := Option.map_eq_some_iff.1 ht
          have hfine := h.2 q (List.mem_of_mem_head? hq)
          cases q with
          | line l =>
            have hmem := List.mem_of_mem_head? hc
            exact ⟨fun heq => hfine.1.1.carriage (heq ▸ hmem), fun heq => hfine.1.1.newline (heq ▸ hmem)⟩
          | statement path => cases hfine.1.2
          | stamp digest => cases hfine.2
          | tag source =>
            cases hc
            decide
        obtain ⟨before', ts', hts', heq⟩ := withoutUses_tagOf (isTagName_of_isName hname) h.1.1.1 hn before hhead
        rw [page, List.map_cons, Text.join_cons_eq, Piece.text, heq]
        rcases hts' with rfl | hts'
        · obtain ⟨ls, hls, hbare, hfilled, heq'⟩ := ih ps.length (by rw [← hlength, List.length_cons]; omega) before' h.2 rfl
          exact ⟨ls, hls, hbare, hfilled, heq'⟩
        · -- the empty line below goes with the tag
          obtain ⟨q, qs, rfl, hq, rfl⟩ := List.map_eq_cons_iff.1 hts'
          rw [List.forall_mem_cons] at h
          obtain ⟨ls, hls, hbare, hfilled, heq'⟩ := ih qs.length (by rw [← hlength, List.length_cons, List.length_cons]; omega) before' h.2.2 rfl
          refine ⟨ls, hls, hbare, ?_, heq'⟩
          rw [hfilled]
          cases q with
          | line l =>
            obtain rfl : l = [] := hq
            rfl
          | statement path => cases hq
          | stamp digest => cases hq
          | tag source => cases hq

/-! ## All three -/

/-- What remains of a page is its lines, apart from empty ones. -/
theorem remove_page (hname : isName name) (hn : IsNewline newline) (hps : ps ≠ []) (h : ∀ p ∈ ps, p.Fine name) :
    ∃ ls, ls ≠ [] ∧ (∀ l ∈ ls, Bare name l) ∧ filled ls = filled (prose ps) ∧
      remove (page newline name ps) name = Text.join newline ls := by
  obtain ⟨ps₁, hps₁, h₁, hfilled₁, heq₁⟩ := withoutImports_page hname hn hps h
  obtain ⟨ps₂, -, h₂, hfilled₂, heq₂⟩ := withoutStamps_page hname hn hps₁ h₁
  obtain ⟨ls, hls, hbare, hfilled, heq⟩ := withoutUses_page hname hn [] h₂
  refine ⟨ls, hls, hbare, by rw [hfilled, hfilled₂, hfilled₁], ?_⟩
  rw [remove, heq₁, heq₂, heq]

end Narration.Player
