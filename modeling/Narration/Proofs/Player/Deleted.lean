import Narration.Proofs.Player.Removal
import Narration.Proofs.Player.Written

/-!
# The parts of narration in front of a text

* `Player.importLine?_importStatement`, `Player.withoutImports_importStatement` : the import is deleted with its line;
* `Player.stampText?_stamp`, `Player.withoutStamps_stamp` : a stamp is deleted with its line;
* `Player.withoutImports_tagOf`, `Player.withoutStamps_tagOf` : what the first two times of going over a document make of a
  tag: nothing, and a tag with other voices;
* `Player.withoutUses_tagOf` : a tag is deleted with its line, and with an empty line below it perhaps.
-/

namespace Narration.Player
open Text (IsNewline)
open Voice (Inside Literal)

variable {name path digest s t u v x e newline source : Text} {ts : List Text} {c : Char} {lineStart : Bool}

/-! ## Ends of lines -/

theorem restOfLine_nil : restOfLine [] = 0 := rfl

theorem restOfLine_newline (hn : IsNewline newline) (x : Text) : restOfLine (newline ++ x) = newline.length := by
  rcases hn with rfl | rfl <;> rfl

/-! ## The import -/

/-- A path that can stand between single quotes on one line. -/
def isQuotable (path : Text) : Bool := !path.isEmpty && path.all fun c => !isQuoteMark c && c != '\n'

theorem afterBlanksAnd?_space (hname : ∀ c ∈ name.head?, Text.isBlank c = false) (hne : name ≠ []) (t : Text) :
    afterBlanksAnd? name (' ' :: (name ++ t)) = some t := by
  have hindent : Text.indent (' ' :: (name ++ t)) = 1 := by
    obtain ⟨c, u, rfl⟩ := List.exists_cons_of_ne_nil hne
    rw [Text.indent, List.takeWhile_cons_of_pos (by decide), List.cons_append,
      List.takeWhile_cons_of_neg (by simpa using hname c rfl)]
    rfl
  have hrange : (List.range (1 + 1)).reverse = [1, 0] := rfl
  have hdrop : (' ' :: (name ++ t)).drop 1 = name ++ t := rfl
  rw [afterBlanksAnd?, hindent, hrange, List.findSome?_cons, hdrop, Text.after?_append]

theorem afterQuoted?_path (hpath : isQuotable path) (t : Text) : afterQuoted? ('\'' :: (path ++ '\'' :: t)) = some t := by
  rw [isQuotable, Bool.and_eq_true, List.all_eq_true] at hpath
  obtain ⟨hne, hall⟩ := hpath
  have hrun : (path ++ '\'' :: t).takeWhile (!isQuoteMark ·) = path := by
    refine Text.takeWhile_run (fun c hc => ?_) (by decide)
    have := hall c hc
    rw [Bool.and_eq_true] at this
    exact this.1
  have hdrop : (path ++ '\'' :: t).drop (path.length + 1) = t := by
    rw [← List.drop_drop, List.drop_left]
    rfl
  have hlength : path.length < (path ++ '\'' :: t).length := by simp
  have hquote : isQuoteMark '\'' = true := rfl
  rw [afterQuoted?]
  simp only [List.head?_cons, Option.bind_eq_bind, Option.bind_some, List.tail_cons, hrun, hquote, hne, hlength, decide_true,
    Bool.and_self, if_true, hdrop]

theorem importLine?_importStatement (hname : isName name) (hpath : isQuotable path) (e : Text) :
    importLine? name (importStatement name path ++ e) = some ((importStatement name path).length + restOfLine e) := by
  obtain ⟨c, u, hcons, hc, -⟩ := exists_of_isName hname
  have hne : name ≠ [] := by simp [hcons]
  have hblank : ∀ d ∈ name.head?, Text.isBlank d = false := by
    rw [hcons]
    rintro d hd
    cases hd
    exact Text.isBlank_of_isAlpha hc
  have hparts : importStatement name path ++ e = "import".toList ++ (' ' :: '\x7b' :: ' ' :: (name ++ (' ' :: '\x7d' :: ' ' ::
      ("from".toList ++ (' ' :: '\'' :: (path ++ '\'' :: ';' :: e)))))) := by
    rw [importStatement_eq]
    simp [importHead]
  have hdrop : (importStatement name path ++ e).dropWhile Text.isSpaceOrTab = importStatement name path ++ e := by
    rw [hparts]
    rfl
  have hgap {t : Text} (d : Char) (hd : Text.isBlank d = false) : afterBlanks? (' ' :: d :: t) = some (d :: t) := by
    have htrim : Text.trimStart (' ' :: d :: t) = d :: t := by
      rw [Text.trimStart, List.dropWhile_cons_of_pos (by decide), List.dropWhile_cons_of_neg (by simp [hd])]
    have hspace : Text.isBlank ' ' = true := by decide
    rw [afterBlanks?, htrim, List.head?_cons, Option.any_some, hspace, if_pos rfl]
  have hbrace {t : Text} : Text.trimStart (' ' :: '\x7d' :: t) = '\x7d' :: t := rfl
  have hone {t : Text} (d : Char) : Text.after? [d] (d :: t) = some t := Text.after?_append [d] t
  have hfrom (t : Text) : afterBlanks? (' ' :: ("from".toList ++ t)) = some ("from".toList ++ t) := hgap 'f' (by decide)
  have hlength := congrArg List.length hparts
  have hle := restOfLine_le e
  rw [List.length_append] at hlength
  simp only [importLine?, hdrop, Option.bind_eq_bind]
  rw [hparts]
  simp only [Text.after?_append, Option.bind_some, hgap '\x7b' (by decide), hone, afterBlanksAnd?_space hblank hne, hbrace, hfrom,
    hgap '\'' (by decide), afterQuoted?_path hpath, List.head?_cons, if_true, List.tail_cons, Option.pure_def, ← hlength]
  congr 1
  omega

theorem withoutImports_skip (name v r : Text) (lineStart : Bool) :
    withoutImports name v.length lineStart (v ++ r) = withoutImports name 0 (v.getLast?.elim lineStart (· = '\n')) r := by
  induction v generalizing lineStart with
  | nil => rfl
  | cons c v ih =>
    rw [List.cons_append, List.length_cons, withoutImports, ih, List.getLast?_cons]
    cases v.getLast? <;> rfl

/-- The import is deleted with its line. -/
theorem withoutImports_importStatement (hname : isName name) (hpath : isQuotable path) (hn : IsNewline newline) (x : Text) :
    withoutImports name 0 true (importStatement name path ++ (newline ++ x)) = withoutImports name 0 true x := by
  have hline := importLine?_importStatement hname hpath (newline ++ x)
  obtain ⟨v, hv, -⟩ := hn.exists_eq
  have hhead : importStatement name path ++ (newline ++ x) = 'i' :: ((importStatement name path).tail ++ newline ++ x) := by
    rw [List.append_assoc]
    rfl
  have hlength : (importStatement name path).length = (importStatement name path).tail.length + 1 := rfl
  rw [restOfLine_newline hn] at hline
  rw [hhead] at hline ⊢
  rw [withoutImports, if_pos rfl, hline]
  have hskip : (importStatement name path).length + newline.length - 1 = ((importStatement name path).tail ++ newline).length := by
    rw [List.length_append, hlength]
    omega
  have hlast : ((importStatement name path).tail ++ newline).getLast? = some '\n' := by
    rw [hv]
    simp [List.getLast?_append]
  dsimp only
  rw [hskip, withoutImports_skip, hlast]
  rfl

/-- The import is deleted at the end of a document. -/
theorem withoutImports_importStatement_last (hname : isName name) (hpath : isQuotable path) :
    withoutImports name 0 true (importStatement name path) = [] := by
  have hline := importLine?_importStatement hname hpath []
  have hhead : importStatement name path = 'i' :: (importStatement name path).tail := rfl
  have hlength : (importStatement name path).length = (importStatement name path).tail.length + 1 := rfl
  have hskip := withoutImports_skip name (importStatement name path).tail [] ('i' = '\n')
  rw [List.append_nil] at hline hskip
  rw [hhead] at hline ⊢
  rw [withoutImports, if_pos rfl, hline]
  dsimp only
  rw [restOfLine_nil, Nat.add_zero, ← hhead, hlength, Nat.add_sub_cancel, hskip]
  rfl

/-! ## The stamp -/

theorem substituteFrom_skip (p : Text.Pattern) (v r : Text) : Text.substituteFrom p v.length (v ++ r) = Text.substitute p r := by
  induction v with
  | nil => rfl
  | cons c v ih => rw [List.cons_append, List.length_cons, Text.substituteFrom, ih]

theorem substitute_match {p : Text.Pattern} {m r : Text} (hm : m ≠ []) (h : p (m ++ x) = some (m.length, r)) :
    Text.substitute p (m ++ x) = r ++ Text.substitute p x := by
  obtain ⟨c, m, rfl⟩ := List.exists_cons_of_ne_nil hm
  rw [List.cons_append] at h ⊢
  rw [Text.substitute, Text.substituteFrom, h]
  dsimp only
  rw [List.length_cons, Nat.add_sub_cancel, substituteFrom_skip]

theorem stampText?_stamp (hd : isDigest digest) (e : Text) :
    stampText? (stamp digest ++ e) = some ((stamp digest).length + restOfLine e, []) := by
  have hparts : stamp digest ++ e = '\x7b' :: (stampSource digest ++ '\x7d' :: e) := by
    rw [stamp_eq]
    simp
  have hbrace : Text.after? ['\x7d'] ('\x7d' :: e) = some e := Text.after?_append ['\x7d'] e
  have hlength : (stamp digest).length = (stampSource digest).length + 2 := by
    rw [stamp_eq]
    simp
  have hle := restOfLine_le e
  rw [hparts, stampText?, comment?_stampSource hd]
  simp only [Option.bind_eq_bind, Option.bind_some, hbrace, Option.pure_def, List.length_append, List.length_cons]
  congr 2
  omega

/-- A stamp is deleted with its line. -/
theorem withoutStamps_stamp (hd : isDigest digest) (hn : IsNewline newline) (x : Text) :
    Text.substitute stampText? (stamp digest ++ newline ++ x) = Text.substitute stampText? x := by
  have hstamp := stampText?_stamp hd (newline ++ x)
  rw [restOfLine_newline hn, ← List.append_assoc, ← List.length_append] at hstamp
  rw [substitute_match (by simp [stamp]) hstamp, List.nil_append]

/-! ## Literals -/

/-- No import begins at the front of a text. -/
def Unimporting (t : Text) : Prop := ∀ c ∈ (t.dropWhile Text.isSpaceOrTab).head?, c ≠ 'i'

theorem unimporting_cons (hc : Text.isSpaceOrTab c = false) (hi : c ≠ 'i') (t : Text) : Unimporting (c :: t) := by
  intro d hd
  rw [List.dropWhile_cons_of_neg (by simpa using hc)] at hd
  cases hd
  exact hi

theorem withoutImports_cons (h : lineStart = false ∨ Unimporting (c :: t)) :
    withoutImports name 0 lineStart (c :: t) = c :: withoutImports name 0 (c = '\n') t := by
  rw [withoutImports]
  rcases h with rfl | h
  · rfl
  · rw [importLine?_eq_none h, ite_self]

theorem withoutImports_line (hu : '\n' ∉ u) (x : Text) :
    withoutImports name 0 false (u ++ x) = u ++ withoutImports name 0 false x := by
  induction u with
  | nil => rfl
  | cons c u ih =>
    rw [List.mem_cons, not_or] at hu
    rw [List.cons_append, withoutImports_cons (.inl rfl), decide_eq_false (Ne.symm hu.1), ih hu.2, List.cons_append]

theorem unimporting_literal (h : Literal s) (hx : Unimporting x) : Unimporting (s ++ x) := by
  induction h with
  | nil => exact hx
  | @sign c t hc _ ih =>
    by_cases hspace : Text.isSpaceOrTab c
    · rw [List.cons_append, Unimporting, List.dropWhile_cons_of_pos hspace]
      exact ih
    · refine unimporting_cons (by simpa using hspace) ?_ _
      rintro rfl
      cases hc
  | string _ _ _ => exact unimporting_cons (by decide) (by decide) _
  | braces _ _ _ _ => exact unimporting_cons (by decide) (by decide) _

/-- No import is in a literal: none of its lines begins with a letter. -/
theorem withoutImports_literal (name : Text) (h : Literal s) (lineStart : Bool) (hx : Unimporting x) :
    ∃ lineStart', withoutImports name 0 lineStart (s ++ x) = s ++ withoutImports name 0 lineStart' x := by
  induction h generalizing lineStart x with
  | nil => exact ⟨lineStart, rfl⟩
  | @sign c t hc ht ih =>
    obtain ⟨lineStart', heq⟩ := ih (c = '\n') hx
    have hfront : Unimporting (c :: (t ++ x)) := unimporting_literal (.sign hc ht) hx
    exact ⟨lineStart', by rw [List.cons_append, withoutImports_cons (.inr hfront), heq, List.cons_append]⟩
  | @string s t hinside _ ih =>
    obtain ⟨lineStart', heq⟩ := ih false hx
    refine ⟨lineStart', ?_⟩
    have hopen : Unimporting ('"' :: (s ++ '"' :: (t ++ x))) := unimporting_cons (by decide) (by decide) _
    rw [List.cons_append, List.append_assoc, List.cons_append, withoutImports_cons (.inr hopen), decide_eq_false (by decide),
      withoutImports_line hinside.newline_notMem, withoutImports_cons (.inl rfl), decide_eq_false (by decide), heq]
    simp
  | @braces s t _ _ ih ih' =>
    have hclose : Unimporting ('\x7d' :: (t ++ x)) := unimporting_cons (by decide) (by decide) _
    have hopen : Unimporting ('\x7b' :: (s ++ '\x7d' :: (t ++ x))) := unimporting_cons (by decide) (by decide) _
    obtain ⟨between, hbody⟩ := ih false hclose
    obtain ⟨lineStart', heq⟩ := ih' false hx
    refine ⟨lineStart', ?_⟩
    rw [List.cons_append, List.append_assoc, List.cons_append, withoutImports_cons (.inr hopen), decide_eq_false (by decide),
      hbody, withoutImports_cons (.inr hclose), decide_eq_false (by decide), heq]
    simp

/-- The characters of a stamp. -/
theorem exists_of_stampText? {r : Nat × Text} (h : stampText? t = some r) :
    ∃ m y, t = m ++ y ∧ r = (m.length, []) ∧ m ≠ [] ∧ '"' ∉ m ∧ '\\' ∉ m := by
  obtain ⟨z, u, y, heq, hr, hz, hquote, hslash⟩ := stampText?_eq_some h
  have hblank {c : Char} (hc : Text.isBlank c = false) : c ∉ z := fun hmem => by rw [hz c hmem] at hc; cases hc
  have hquote' := hblank (c := '"') (by decide)
  have hslash' := hblank (c := '\\') (by decide)
  have hlabel : '"' ∉ label ∧ '\\' ∉ label := by decide
  exact ⟨_, y, heq, hr, by simp, by simp [hquote, hquote', hlabel], by simp [hslash, hslash', hlabel]⟩

theorem withoutStamps_cons (h : stampText? (c :: t) = none) :
    Text.substitute stampText? (c :: t) = c :: Text.substitute stampText? t := by
  rw [Text.substitute, Text.substituteFrom, h]
  rfl

/-- Stamps that stand in a string stand in it as a whole. -/
theorem withoutStamps_inside (h : Inside s) (x : Text) : ∃ s', Inside s' ∧
    Text.substitute stampText? (s ++ '"' :: x) = s' ++ '"' :: Text.substitute stampText? x := by
  have hplain {c : Char} {t : Text} (hc : c ≠ '\x7b') : stampText? (c :: t) = none := stampText?_eq_none fun d hd => by
    cases hd
    exact hc
  induction hlength : s.length using Nat.strong_induction_on generalizing s with
  | h n ih =>
    cases h with
    | nil => exact ⟨[], .nil, withoutStamps_cons (hplain (by decide))⟩
    | @plain c t hquote hslash hline ht =>
      rcases hstamp : stampText? (c :: t ++ '"' :: x) with _ | r
      · obtain ⟨s', hs', heq⟩ := ih t.length (by simp [← hlength]) ht rfl
        refine ⟨c :: s', .plain hquote hslash hline hs', ?_⟩
        rw [List.cons_append] at hstamp ⊢
        rw [withoutStamps_cons hstamp, heq, List.cons_append]
      · obtain ⟨m, y, heq, rfl, hm, hmquote, hmslash⟩ := exists_of_stampText? hstamp
        obtain ⟨a, ha, rfl⟩ : ∃ a, c :: t = m ++ a ∧ y = a ++ '"' :: x := by
          rcases List.append_eq_append_iff.1 heq with ⟨a, rfl, ha⟩ | ⟨a, ha, hy⟩
          · cases a with
            | nil => exact ⟨[], by simp, ha.symm⟩
            | cons d a =>
              cases ha
              simp at hmquote
          · exact ⟨a, ha, hy⟩
        have hinside : Inside (m ++ a) := ha ▸ .plain hquote hslash hline ht
        have hlt : a.length < n := by
          have := List.length_pos_iff.2 hm
          rw [← hlength, ha, List.length_append]
          omega
        obtain ⟨s', hs', heq'⟩ := ih a.length hlt (hinside.rest hmslash) rfl
        refine ⟨s', hs', ?_⟩
        rw [heq] at hstamp ⊢
        rw [substitute_match hm hstamp, heq', List.nil_append]
    | @escape c t hbrace hline ht =>
      obtain ⟨s', hs', heq⟩ := ih t.length (by rw [← hlength, List.length_cons, List.length_cons]; omega) ht rfl
      refine ⟨'\\' :: c :: s', .escape hbrace hline hs', ?_⟩
      rw [List.cons_append, List.cons_append, withoutStamps_cons (hplain (by decide)), withoutStamps_cons (hplain hbrace), heq]
      rfl

/-- Braces around a literal are no stamp. -/
theorem stampText?_braces (h : Literal s) (x : Text) : stampText? ('\x7b' :: (s ++ '\x7d' :: x)) = none := by
  rw [Option.eq_none_iff_forall_ne_some]
  intro r hr
  obtain ⟨z, u, y, hstamp, -⟩ := stampText?_eq_some hr
  have hslash : (s ++ '\x7d' :: x).head? = some '/' := congrArg (·.tail.head?) hstamp
  cases h with
  | nil => cases hslash
  | sign hc _ =>
    cases hslash
    cases hc
  | string _ _ => cases hslash
  | braces _ _ => cases hslash

/-- What remains of a literal without stamps is a literal. -/
theorem withoutStamps_literal (h : Literal s) (x : Text) : ∃ s', Literal s' ∧
    Text.substitute stampText? (s ++ x) = s' ++ Text.substitute stampText? x := by
  have hplain {c : Char} (hc : c ≠ '\x7b') (t : Text) :
      Text.substitute stampText? (c :: t) = c :: Text.substitute stampText? t :=
    withoutStamps_cons (stampText?_eq_none fun d hd => by cases hd; exact hc)
  induction h generalizing x with
  | nil => exact ⟨[], .nil, rfl⟩
  | @sign c t hc _ ih =>
    obtain ⟨s', hs', heq⟩ := ih x
    have hbrace : c ≠ '\x7b' := by
      rintro rfl
      cases hc
    exact ⟨c :: s', .sign hc hs', by rw [List.cons_append, hplain hbrace, heq, List.cons_append]⟩
  | @string s t hinside _ ih =>
    obtain ⟨t', ht', heq⟩ := ih x
    obtain ⟨s', hs', heq'⟩ := withoutStamps_inside hinside (t ++ x)
    refine ⟨_, .string hs' ht', ?_⟩
    rw [List.cons_append, List.append_assoc, List.cons_append, hplain (by decide), heq', heq]
    simp
  | @braces s t hs _ ih ih' =>
    obtain ⟨t', ht', heq⟩ := ih' x
    obtain ⟨s', hs', heq'⟩ := ih ('\x7d' :: (t ++ x))
    refine ⟨_, .braces hs' ht', ?_⟩
    rw [List.cons_append, List.append_assoc, List.cons_append, withoutStamps_cons (stampText?_braces hs _), heq', hplain (by decide), heq]
    simp

/-! ## The tag -/

/-- A tag up to its voices, in braces, and up to its end. -/
theorem tagOf_append (source name x : Text) : tagOf source name ++ x =
    '<' :: ((name ++ ' ' :: voicesAttribute ++ ['=', '\x7b']) ++ (source ++ '\x7d' :: ([' ', '/', '>'] ++ x))) := by
  simp [tagOf]

theorem withoutImports_tagOf (hname : '\n' ∉ name) (hsource : Literal source) (lineStart : Bool) (x : Text) :
    withoutImports name 0 lineStart (tagOf source name ++ x) = tagOf source name ++ withoutImports name 0 false x := by
  have hvoices : '\n' ∉ voicesAttribute := by decide
  have hhead : '\n' ∉ name ++ ' ' :: voicesAttribute ++ ['=', '\x7b'] := by simp [hname, hvoices]
  have hopen (t : Text) : Unimporting ('<' :: t) := unimporting_cons (by decide) (by decide) t
  have hclose : Unimporting ('\x7d' :: ([' ', '/', '>'] ++ x)) := unimporting_cons (by decide) (by decide) _
  obtain ⟨between, hbody⟩ := withoutImports_literal name hsource false hclose
  rw [tagOf_append, tagOf_append, withoutImports_cons (.inr (hopen _)), decide_eq_false (by decide), withoutImports_line hhead, hbody,
    withoutImports_cons (.inr hclose), decide_eq_false (by decide), withoutImports_line (by decide)]

theorem withoutStamps_plain (hu : '\x7b' ∉ u) (x : Text) : Text.substitute stampText? (u ++ x) = u ++ Text.substitute stampText? x := by
  refine substitute_append fun q hq hne => stampText?_eq_none fun c hc => ?_
  rw [List.head?_append_of_ne_nil q hne] at hc
  rintro rfl
  exact hu (hq.subset (List.mem_of_mem_head? hc))

theorem withoutStamps_tagOf (hname : '\x7b' ∉ name) (hsource : Literal source) (x : Text) : ∃ source', Literal source' ∧
    Text.substitute stampText? (tagOf source name ++ x) = tagOf source' name ++ Text.substitute stampText? x := by
  have hvoices : '\x7b' ∉ voicesAttribute := by decide
  have hhead : '\x7b' ∉ '<' :: (name ++ ' ' :: voicesAttribute ++ ['=']) := by simp [hname, hvoices]
  have hparts (source x : Text) : tagOf source name ++ x = '<' :: (name ++ ' ' :: voicesAttribute ++ ['=']) ++
      '\x7b' :: (source ++ '\x7d' :: ([' ', '/', '>'] ++ x)) := by simp [tagOf]
  obtain ⟨source', hsource', hbody⟩ := withoutStamps_literal hsource ('\x7d' :: ([' ', '/', '>'] ++ x))
  have hend := withoutStamps_plain (u := ['\x7d', ' ', '/', '>']) (by decide) x
  refine ⟨source', hsource', ?_⟩
  rw [hparts, hparts, withoutStamps_plain hhead, withoutStamps_cons (stampText?_braces hsource _), hbody]
  exact congrArg (fun y => _ ++ '\x7b' :: (source' ++ y)) hend

/-- An empty line that is found in front of others. -/
theorem exists_emptyLine (hn : IsNewline newline) (h : ∀ t ∈ ts.head?, ∀ c ∈ t.head?, c ≠ '\r' ∧ c ≠ '\n')
    (he : (if Text.beginsWith (Text.join newline ts) ['\r', '\n'] then ['\r', '\n'] else ['\n']) = e)
    (hbegins : Text.beginsWith (Text.join newline ts) e) :
    e = newline ∧ ∃ ts', ts = [] :: ts' ∧ Text.join newline ts = newline ++ Text.join newline ts' := by
  cases ts with
  | nil =>
    subst he
    cases hbegins
  | cons t ts =>
    cases t with
    | cons c u =>
      obtain ⟨hr, hl⟩ := h (c :: u) rfl c rfl
      have hnot {d : Char} {v : Text} (hd : d ≠ c) : Text.beginsWith (Text.join newline ((c :: u) :: ts)) (d :: v) = false := by
        rw [Text.join_cons_eq, List.cons_append, Text.beginsWith, Text.after?, if_neg hd]
        rfl
      rw [hnot (Ne.symm hr), if_neg Bool.false_ne_true] at he
      subst he
      rw [hnot (Ne.symm hl)] at hbegins
      cases hbegins
    | nil =>
      by_cases hts : ts = []
      · subst hts he
        cases hbegins
      · rw [Text.join_cons newline [] hts, List.nil_append] at he ⊢
        refine ⟨?_, ts, rfl, rfl⟩
        rw [← he]
        rcases hn with rfl | rfl <;> rfl

/-- The length of a tag goes up to the end of its line, or up to the end of an empty line below it. -/
theorem useLength?_tagOf (hname : isTagName name) (hsource : Literal source) (hn : IsNewline newline) (before : Text)
    (h : ∀ t ∈ ts.head?, ∀ c ∈ t.head?, c ≠ '\r' ∧ c ≠ '\n') : ∃ v ts', (ts' = ts ∨ ts = [] :: ts') ∧
      Text.below newline ts = v ++ Text.join newline ts' ∧
      useLength? name before (tagOf source name ++ Text.below newline ts) = some (tagOf source name ++ v).length := by
  have hread := read?_tagOf hname hsource.passive 0 (Text.below newline ts)
  have hdrop : (tagOf source name ++ Text.below newline ts).drop (0 + (tagOf source name).length) = Text.below newline ts := by
    rw [Nat.zero_add, List.drop_left]
  simp only [useLength?, hread, Option.bind_eq_bind, Option.bind_some, if_true, Option.pure_def, hdrop]
  by_cases hts : ts = []
  · subst hts
    refine ⟨[], [], .inl rfl, rfl, ?_⟩
    have hbelow : Text.below newline [] = [] := rfl
    have hempty : Text.beginsWith [] ['\n'] = false := rfl
    have hempty' : Text.beginsWith [] ['\r', '\n'] = false := rfl
    simp only [hbelow, restOfLine_nil, List.append_nil, Nat.zero_add, Nat.add_zero, List.drop_length, hempty, hempty',
      Bool.false_eq_true, if_false, Bool.and_false]
  · have hstop : (tagOf source name ++ (newline ++ Text.join newline ts)).drop (0 + (tagOf source name).length + newline.length) =
        Text.join newline ts := by
      rw [Nat.zero_add, ← List.length_append, ← List.append_assoc, List.drop_left]
    simp only [Text.below_eq newline hts, restOfLine_newline hn, hstop]
    generalize he : (if Text.beginsWith (Text.join newline ts) ['\r', '\n'] then ['\r', '\n'] else ['\n']) = e
    split
    · next hempty =>
      rw [Bool.and_eq_true] at hempty
      obtain ⟨rfl, ts', rfl, hjoin⟩ := exists_emptyLine hn h he hempty.2
      refine ⟨e ++ e, ts', .inr rfl, by rw [hjoin, List.append_assoc], ?_⟩
      rw [List.length_append, List.length_append]
      congr 1
      omega
    · refine ⟨newline, ts, .inl rfl, rfl, ?_⟩
      rw [List.length_append, Nat.zero_add]

theorem opensUse_tagOf (source name x : Text) : opensUse name (tagOf source name ++ x) := by
  refine opensUse_iff.2 ⟨' ', voicesAttribute ++ ['=', '\x7b'] ++ (source ++ '\x7d' :: ([' ', '/', '>'] ++ x)), rfl, ?_⟩
  rw [tagOf_append]
  simp

theorem withoutUses_skip (name before v r : Text) :
    withoutUses name before v.length (v ++ r) = withoutUses name (v.reverse ++ before) 0 r := by
  induction v generalizing before with
  | nil => rfl
  | cons c v ih => rw [List.cons_append, List.length_cons, withoutUses, ih, List.reverse_cons, List.append_assoc,
      List.singleton_append]

/-- A tag is deleted with its line, and with an empty line below it perhaps. -/
theorem withoutUses_tagOf (hname : isTagName name) (hsource : Literal source) (hn : IsNewline newline) (before : Text)
    (h : ∀ t ∈ ts.head?, ∀ c ∈ t.head?, c ≠ '\r' ∧ c ≠ '\n') : ∃ before' ts', (ts' = ts ∨ ts = [] :: ts') ∧
      withoutUses name before 0 (tagOf source name ++ Text.below newline ts) = withoutUses name before' 0 (Text.join newline ts') := by
  obtain ⟨v, ts', hts', hbelow, hlength⟩ := useLength?_tagOf hname hsource hn before h
  have huse := opensUse_tagOf source name (Text.below newline ts)
  rw [hbelow] at hlength huse ⊢
  have hskip := withoutUses_skip name ('<' :: before) ((tagOf source name).tail ++ v) (Text.join newline ts')
  refine ⟨_, ts', hts', Eq.trans ?_ hskip⟩
  have hhead : tagOf source name = '<' :: (tagOf source name).tail := rfl
  rw [hhead] at hlength huse ⊢
  rw [List.cons_append] at hlength huse ⊢
  rw [withoutUses, huse, if_pos rfl, hlength]
  simp only [List.cons_append, List.length_cons, Nat.add_sub_cancel, List.append_assoc, List.tail_cons]

end Narration.Player
