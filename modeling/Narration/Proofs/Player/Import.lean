import Narration.Proofs.Markup.LastModules

/-!
# The import statement

* `Player.isName`, `Player.isPath` : the names and paths that can be written;
* `Player.isModules_importStatement`, `Player.modulesLength_importStatement` : the statement is one of modules, and how
  far it goes;
* `Player.imports_importStatement` : it imports the component, whatever stands before it;
* `Player.upToModules_importStatement`, `Player.exists_import` : the statement as the only modules, and after others.
-/

namespace Narration.Player
open Markup
open Markup.Block
open Text (firstLine EndsLine)

/-- A name of the component that can be written: a letter, then letters, digits and underscores, all of ASCII. -/
def isName (name : Text) : Bool := name.head?.any Char.isAlpha && name.all fun c => c.isAlphanum || c == '_'

/-- A path that can be written between quotes. -/
def isPath (path : Text) : Bool := path.all fun c => !"'\"\\\x60<>\n\r".toList.contains c

variable {name path e t u v w : Text} {c : Char} {depth : Nat}

theorem exists_of_isName (h : isName name) : ∃ c t, name = c :: t ∧ c.isAlpha ∧ ∀ d ∈ name, d.isAlphanum || d == '_' := by
  cases name with
  | nil => cases h
  | cons c t =>
    simp only [isName, List.head?_cons, Option.any_some, Bool.and_eq_true, List.all_eq_true] at h
    exact ⟨c, t, rfl, h.1, h.2⟩

theorem notMem_of_isName (h : isName name) {d : Char} (hd : (d.isAlphanum || d == '_') = false) : d ∉ name := by
  obtain ⟨c, t, -, -, hall⟩ := exists_of_isName h
  intro hmem
  rw [hall d hmem] at hd
  cases hd

theorem notMem_of_isPath (h : isPath path) {d : Char} (hd : "'\"\\\x60<>\n\r".toList.contains d) : d ∉ path := by
  intro hmem
  have := List.all_eq_true.1 h d hmem
  rw [hd] at this
  cases this

/-- The statement up to its quote. -/
def importHead (name : Text) : Text :=
  ['i', 'm', 'p', 'o', 'r', 't', ' ', '\x7b', ' '] ++ name ++ [' ', '\x7d', ' ', 'f', 'r', 'o', 'm', ' ']

theorem importStatement_eq (name path : Text) :
    importStatement name path = importHead name ++ '\'' :: (path ++ ['\'', ';']) := by
  have hparts : importStatement name path = ['i', 'm', 'p', 'o', 'r', 't', ' ', '\x7b', ' '] ++ name ++
      [' ', '\x7d', ' ', 'f', 'r', 'o', 'm', ' ', '\''] ++ path ++ ['\'', ';'] := rfl
  rw [hparts, importHead]
  simp only [List.append_assoc, List.cons_append, List.nil_append]

/-! ## Its extent -/

/-- A character that module statements pass over. -/
def isPlain (c : Char) : Bool :=
  !Braces.isQuote c && c != '\n' && !"(\x7b[".toList.contains c && !")\x7d]".toList.contains c

theorem modulesLength_plain (h : ∀ d ∈ u, isPlain d) (t : Text) :
    modulesLength depth 0 (u ++ t) = u.length + modulesLength depth 0 t := by
  induction u with
  | nil => simp
  | cons d u ih =>
    have hd := h d List.mem_cons_self
    simp only [isPlain, Bool.and_eq_true, Bool.not_eq_true', bne_iff_ne, ne_eq] at hd
    obtain ⟨⟨⟨hq, hne⟩, hopen⟩, hclose⟩ := hd
    have hdepth : bracketsAfter depth d = depth := by
      rw [bracketsAfter, hopen, hclose]
      rfl
    rw [List.cons_append, modulesLength_step hq hne, hdepth, ih fun d hd => h d (List.mem_cons_of_mem _ hd),
      List.length_cons]
    omega

theorem isPlain_of_isName (h : c.isAlphanum || c == '_') : isPlain c := by
  have hne {d : Char} (hd : (d.isAlphanum || d == '_') = false) : c ≠ d := by
    rintro rfl
    rw [h] at hd
    cases hd
  have hopen : "(\x7b[".toList = ['(', '\x7b', '['] := rfl
  have hclose : ")\x7d]".toList = [')', '\x7d', ']'] := rfl
  rw [isPlain, hopen, hclose]
  simp [Braces.isQuote, hne (d := '"') (by decide), hne (d := '\'') (by decide), hne (d := '\x60') (by decide),
    hne (d := '\n') (by decide), hne (d := '(') (by decide), hne (d := '\x7b') (by decide),
    hne (d := '[') (by decide), hne (d := ')') (by decide), hne (d := '\x7d') (by decide), hne (d := ']') (by decide)]

theorem modulesLength_importHead (hn : isName name) (t : Text) :
    modulesLength depth 0 (importHead name ++ t) = (importHead name).length + modulesLength depth 0 t := by
  have hname : ∀ d ∈ name, isPlain d := by
    obtain ⟨c, u, -, -, hall⟩ := exists_of_isName hn
    exact fun d hd => isPlain_of_isName (hall d hd)
  have hparts : importHead name ++ t = ['i', 'm', 'p', 'o', 'r', 't', ' '] ++ '\x7b' :: ([' '] ++ (name ++ ([' '] ++
      '\x7d' :: ([' ', 'f', 'r', 'o', 'm', ' '] ++ t)))) := by
    simp [importHead]
  have hopen : bracketsAfter depth '\x7b' = depth + 1 := rfl
  have hclose : bracketsAfter (depth + 1) '\x7d' = depth := rfl
  rw [hparts, modulesLength_plain (by decide), modulesLength_step rfl (by decide), modulesLength_plain (by decide),
    modulesLength_plain hname, modulesLength_plain (by decide), modulesLength_step rfl (by decide),
    modulesLength_plain (by decide), hopen, hclose]
  simp only [importHead, List.length_append, List.length_cons, List.length_nil]
  omega

/-- What follows the first quote goes to the end of the line: the quote after the path opens a string that does not
close. -/
theorem modulesLength_path (hp : isPath path) (he : EndsLine e) :
    modulesLength depth 0 (path ++ '\'' :: ';' :: e) = path.length + 2 := by
  have hopen : Braces.stringTail? '\'' (';' :: e) = none := by
    rw [Braces.stringTail?_cons (by decide), if_neg (by decide), if_neg (by decide)]
    rcases he with rfl | ⟨v, rfl⟩
    · rfl
    · rw [Braces.stringTail?_newline (by decide) (by decide), Option.map_none]
  have hline : firstLine ('\'' :: ';' :: e) = ['\'', ';'] := by
    have := he.firstLine_append ['\'', ';']
    exact this
  induction path generalizing depth with
  | nil =>
    rw [List.nil_append, modulesLength_open rfl hopen, hline]
    rfl
  | cons c path ih =>
    have hc (d : Char) (hd : "'\"\\\x60<>\n\r".toList.contains d) : c ≠ d := by
      rintro rfl
      exact notMem_of_isPath hp hd List.mem_cons_self
    have hquote : Braces.isQuote c = false := by
      simp [Braces.isQuote, hc '"' (by decide), hc '\'' (by decide), hc '\x60' (by decide)]
    have hpath : isPath path := by
      rw [isPath, List.all_cons, Bool.and_eq_true] at hp
      exact hp.2
    rw [List.cons_append, modulesLength_step hquote (hc '\n' (by decide)), ih hpath, List.length_cons]

theorem stringTail?_path (hp : isPath path) (e : Text) :
    Braces.stringTail? '\'' (path ++ '\'' :: ';' :: e) = some (path.length + 1) := by
  rw [Braces.stringTail?_plain (notMem_of_isPath hp (by decide)) (notMem_of_isPath hp (by decide))
    (.inr (notMem_of_isPath hp (by decide))), Braces.stringTail?_cons (by decide), if_pos rfl, Option.map_some,
    Nat.add_comm]

/-- Where no statement goes on behind it, the import goes to its end. -/
theorem modulesLength_importStatement (hn : isName name) (hp : isPath path) (hzero : modulesLength depth 0 e = 0) :
    modulesLength depth 0 (importStatement name path ++ e) = (importStatement name path).length := by
  have hparts : importStatement name path ++ e = importHead name ++ '\'' :: (path ++ '\'' :: ';' :: e) := by
    rw [importStatement_eq]
    simp
  have hdrop : (path ++ '\'' :: ';' :: e).drop (path.length + 1) = ';' :: e := by
    rw [← List.drop_drop, List.drop_left]
    rfl
  have hsemicolon : bracketsAfter depth ';' = depth := rfl
  rw [hparts, modulesLength_importHead hn, modulesLength_string rfl (stringTail?_path hp e), hdrop,
    modulesLength_step rfl (by decide), hsemicolon, hzero, importStatement_eq]
  simp only [List.length_append, List.length_cons, List.length_nil]

/-! ## Strings that are open before it -/

/-- Words, blanks and braces stand before the first quote. -/
theorem notMem_importHead (hn : isName name) {d : Char} (hd : (d.isAlphanum || d == '_') = false)
    (hsigns : d ∉ [' ', '\x7b', '\x7d']) : d ∉ importHead name := by
  have hbefore : ∀ x ∈ ['i', 'm', 'p', 'o', 'r', 't', ' ', '\x7b', ' '],
      (x.isAlphanum || x == '_') ∨ x ∈ [' ', '\x7b', '\x7d'] := by decide
  have hafter : ∀ x ∈ [' ', '\x7d', ' ', 'f', 'r', 'o', 'm', ' '],
      (x.isAlphanum || x == '_') ∨ x ∈ [' ', '\x7b', '\x7d'] := by decide
  have hnot : ¬((d.isAlphanum || d == '_') ∨ d ∈ [' ', '\x7b', '\x7d']) := by simp [hd, hsigns]
  rw [importHead, List.mem_append, List.mem_append, not_or, not_or]
  exact ⟨⟨fun h => hnot (hbefore d h), notMem_of_isName hn hd⟩, fun h => hnot (hafter d h)⟩

theorem notMem_importStatement (hn : isName name) (hp : isPath path) {d : Char} (hd : (d.isAlphanum || d == '_') = false)
    (hsigns : d ∉ [' ', '\x7b', '\x7d', '\'', ';']) (hpath : "'\"\\\x60<>\n\r".toList.contains d) :
    d ∉ importStatement name path := by
  simp only [List.mem_cons, List.not_mem_nil, or_false, not_or] at hsigns
  have hhead := notMem_importHead hn hd (by simp [hsigns])
  have hinside := notMem_of_isPath hp hpath
  rw [importStatement_eq]
  simp [hhead, hinside, hsigns]

theorem stringTail?_importStatement (hn : isName name) (hp : isPath path) (he : EndsLine e)
    (hback : c = '\x60' → Braces.stringTail? c e = none) (hc : Braces.isQuote c) (hne : c ≠ '\'') :
    Braces.stringTail? c (importStatement name path ++ e) = none := by
  have hslash : '\\' ∉ importStatement name path := notMem_importStatement hn hp (by decide) (by decide) (by decide)
  rcases (show c = '"' ∨ c = '\x60' by simpa [Braces.isQuote, hne] using hc) with rfl | rfl
  · have hline : '\n' ∉ importStatement name path := notMem_importStatement hn hp (by decide) (by decide) (by decide)
    have hquote : '"' ∉ importStatement name path := notMem_importStatement hn hp (by decide) (by decide) (by decide)
    rw [Braces.stringTail?_plain hquote hslash (.inr hline)]
    rcases he with rfl | ⟨v, rfl⟩
    · rfl
    · rw [Braces.stringTail?_newline (by decide) (by decide), Option.map_none]
  · have hquote : '\x60' ∉ importStatement name path := notMem_importStatement hn hp (by decide) (by decide) (by decide)
    rw [Braces.stringTail?_plain hquote hslash (.inl rfl), hback rfl, Option.map_none]

/-- A string in single quotes closes at the first quote. -/
theorem stringTail?_importHead (hn : isName name) (t : Text) :
    Braces.stringTail? '\'' (importHead name ++ '\'' :: t) = some ((importHead name).length + 1) := by
  have hslash : '\\' ∉ importHead name := notMem_importHead hn (by decide) (by decide)
  have hquote : '\'' ∉ importHead name := notMem_importHead hn (by decide) (by decide)
  have hline : '\n' ∉ importHead name := notMem_importHead hn (by decide) (by decide)
  rw [Braces.stringTail?_plain hquote hslash (.inr hline), Braces.stringTail?_cons (by decide), if_pos rfl,
    Option.map_some, Nat.add_comm]

/-! ## What it imports -/

theorem isModules_importStatement (name path : Text) : LineForm.isModules (importStatement name path) := by
  rfl

theorem importsAfter_append {before : Option Char} {c : Char} (h : importsAfter name (some c) v) :
    importsAfter name before (u ++ c :: v) := by
  induction u generalizing before with
  | nil =>
    rw [List.nil_append, importsAfter, h, Bool.or_true]
  | cons d u ih =>
    rw [List.cons_append, importsAfter, ih, Bool.or_true]

theorem nameAt?_name (hn : isName name) (t : Text) : nameAt? name (some ' ') (name ++ ' ' :: t) = some (' ' :: t) := by
  obtain ⟨c, u, rfl, hc, hall⟩ := exists_of_isName hn
  have hfirst : Text.isWord c := Text.isWord_of_isAlphanum (hall c List.mem_cons_self)
  have hlast : (c :: u).getLast?.any Text.isWord := by
    rw [List.getLast?_eq_some_getLast (by simp), Option.any_some]
    exact Text.isWord_of_isAlphanum (hall _ (List.getLast_mem _))
  have hspace : Text.isWord ' ' = false := by decide
  have hrest := Text.after?_append (c :: u) (' ' :: t)
  rw [List.cons_append] at hrest ⊢
  simp only [nameAt?, hrest, Option.bind_eq_bind, Option.bind_some, wordBoundary, List.head?_cons, Option.any_some,
    hspace, hfirst, hlast]
  rfl

theorem bracesHold_name (hn : isName name) {t : Text} (ht : '\x7d' ∈ t) :
    bracesHold name '\x7b' (' ' :: (name ++ ' ' :: t)) := by
  have hat := nameAt?_name hn t
  obtain ⟨c, u, rfl, hc, hall⟩ := exists_of_isName hn
  rw [List.cons_append] at hat ⊢
  have hinner : bracesHold (c :: u) ' ' (c :: (u ++ ' ' :: t)) := by
    rw [bracesHold, hat, Option.any_some]
    simp [ht]
  rw [bracesHold, hinner]
  simp

theorem importsAfter_importStatement {before : Option Char} (hb : before.any Text.isWord = false) (hn : isName name) :
    importsAfter name before (importStatement name path) := by
  have hrest : Text.after? "import".toList (importStatement name path) = some (' ' :: '\x7b' :: ' ' :: (name ++ ' ' ::
      ('\x7d' :: ' ' :: 'f' :: 'r' :: 'o' :: 'm' :: ' ' :: '\'' :: (path ++ ['\'', ';'])))) := by
    rw [Text.after?_eq_some, importStatement_eq, importHead]
    simp
  have hclause : clauseImports name ('\x7b' :: ' ' :: (name ++ ' ' ::
      ('\x7d' :: ' ' :: 'f' :: 'r' :: 'o' :: 'm' :: ' ' :: '\'' :: (path ++ ['\'', ';'])))) := by
    rw [clauseImports, Bool.or_eq_true]
    exact .inr (bracesHold_name hn (by simp))
  have hstart : importStatement name path = 'i' :: ((importStatement name path).tail) := rfl
  rw [hstart, importsAfter, ← hstart, hrest, hb, Option.any_some, Bool.or_eq_true]
  left
  exact hclause

/-- The statement imports the component, alone or as the last of several lines. -/
theorem imports_importStatement (hn : isName name) (path : Text) : imports (importStatement name path) name :=
  importsAfter_importStatement rfl hn

theorem imports_append (hn : isName name) (path u : Text) :
    imports (u ++ '\n' :: importStatement name path) name :=
  importsAfter_append (importsAfter_importStatement (by decide) hn)

/-! ## The statement among other modules -/

theorem trimEnd_importStatement (name path u : Text) :
    Text.trimEnd (u ++ importStatement name path) = u ++ importStatement name path := by
  refine Text.trimEnd_eq_self fun c hc => ?_
  rw [importStatement_eq] at hc
  simp only [List.getLast?_append, List.getLast?_cons] at hc
  cases hc
  rfl

theorem readerOf_importStatement (hn : isName name) (hp : isPath path) (he : EndsLine e) (table : Bool) :
    readerOf true (firstLine (importStatement name path ++ e)) table = .modules ∧
      Text.allBlank (firstLine (importStatement name path ++ e)) = false := by
  have hline : '\n' ∉ importStatement name path := notMem_importStatement hn hp (by decide) (by decide) (by decide)
  rw [he.firstLine_append, firstLine, Text.takeWhile_lastLine hline]
  constructor
  · rw [readerOf, earlyReader?, isModules_importStatement]
    rfl
  · rfl

/-- The statement when there are no modules. -/
theorem upToModules_importStatement (hn : isName name) (hp : isPath path) (he : EndsLine e) :
    UpToModules e ['\n'] (importStatement name path) [] := by
  have hzero := modulesLength_of_endsLine he
  exact ⟨.blank (l := []) List.not_mem_nil rfl .nil, by simp [importStatement_eq], (readerOf_importStatement hn hp he false).2,
    (readerOf_importStatement hn hp he _).1, modulesLength_importStatement hn hp hzero⟩

/-- The statement enters below the last modules: it is the last one then, or the end of others. -/
theorem exists_import {z m : Text} {ks : List Kind} (h : UpToModules e z m ks) (he : EndsLine e) (hn : isName name)
    (hp : isPath path) : ∃ z' m' ks', z' ++ m' = z ++ m ++ '\n' :: importStatement name path ∧
      ks' ⊆ ks ++ [.modules (Text.trimEnd m)] ∧ UpToModules e z' m' ks' ∧ imports (Text.trimEnd m') name := by
  have hends : EndsLine ('\n' :: (importStatement name path ++ e)) := .inr ⟨_, rfl⟩
  have hmodules (y : Text) (hy : y <:+ z ++ m) (hlength : modulesLength 0 0 (y ++ e) ≤ y.length) :
      modulesLength 0 0 (y ++ '\n' :: (importStatement name path ++ e)) = modulesLength 0 0 (y ++ e) ∨
        modulesLength 0 0 (y ++ '\n' :: (importStatement name path ++ e)) =
          y.length + ((importStatement name path).length + 1) := by
    refine modulesLength_exchange (w := z ++ m) ?_ ?_ ?_ ?_ hy hlength
    · intro depth hzero
      rw [modulesLength_newline]
      split
      · exact .inl rfl
      · exact .inr (by rw [modulesLength_importStatement hn hp hzero])
    · intro c y hc _ hopen
      rcases stringTail?_open_lines hopen he hc (importStatement name path ++ e) with h | ⟨hback, h⟩
      · exact .inl h
      · by_cases hquote : c = '\''
        · subst hquote
          have hparts : importStatement name path ++ e = importHead name ++ '\'' :: (path ++ '\'' :: ';' :: e) := by
            rw [importStatement_eq]
            simp
          have hlength := congrArg List.length (importStatement_eq name path)
          simp only [List.length_append, List.length_cons, List.length_nil] at hlength
          right
          rw [hparts] at h ⊢
          rw [stringTail?_importHead hn, Option.map_some] at h
          refine ⟨(importHead name).length + 2, by rw [h]; congr 1; omega, fun depth => ?_⟩
          have hdrop : ('\n' :: (importHead name ++ '\'' :: (path ++ '\'' :: ';' :: e))).drop
              ((importHead name).length + 2) = path ++ '\'' :: ';' :: e := by
            rw [List.drop_succ_cons, ← List.drop_drop, List.drop_left]
            rfl
          rw [hdrop, modulesLength_path hp he]
          omega
        · left
          rw [h, stringTail?_importStatement hn hp he hback hc hquote, Option.map_none]
    · intro y _
      left
      rw [he.firstLine_append, hends.firstLine_append]
    · intro _
      rfl
  rcases h.exchange he hends hmodules with h | ⟨u, y, ks', hu, hne, hpasses, hks, hline, hreader, hlength⟩
  · have hzero := modulesLength_of_endsLine he
    have hpasses : Passes (importStatement name path ++ e) (z ++ m ++ ['\n']) (ks ++ [.modules (Text.trimEnd m)]) := by
      have hblank : Passes (importStatement name path ++ e) ['\n'] [] := .blank (l := []) List.not_mem_nil rfl .nil
      have hall : Passes (['\n'] ++ (importStatement name path ++ e)) (z ++ m) _ := h.passes
      have happend := hall.append hblank
      rwa [List.append_nil] at happend
    refine ⟨z ++ m ++ ['\n'], importStatement name path, _, by simp, List.Subset.refl _, ?_, ?_⟩
    · exact ⟨hpasses, by simp [importStatement_eq], (readerOf_importStatement hn hp he false).2,
        (readerOf_importStatement hn hp he _).1, modulesLength_importStatement hn hp hzero⟩
    · have htrim := trimEnd_importStatement name path []
      rw [List.nil_append] at htrim
      rw [htrim]
      exact imports_importStatement hn path
  · have happend : y ++ '\n' :: (importStatement name path ++ e) = (y ++ '\n' :: importStatement name path) ++ e := by
      simp
    rw [happend] at hpasses hline hreader hlength
    refine ⟨u, y ++ '\n' :: importStatement name path, ks', by rw [← List.append_assoc, ← hu], ?_, ?_, ?_⟩
    · exact fun k hk => List.mem_append_left _ (hks hk)
    · exact ⟨hpasses, by simp, hline, hreader, by rw [hlength]; simp⟩
    · have htrim := trimEnd_importStatement name path (y ++ ['\n'])
      rw [List.append_assoc, List.singleton_append] at htrim
      rw [htrim]
      exact imports_append hn path y

end Narration.Player
