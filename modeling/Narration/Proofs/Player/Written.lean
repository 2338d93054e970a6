import Narration.Proofs.Markup.Braced
import Narration.Proofs.Markup.Tag
import Narration.Proofs.Player.Import
import Narration.Proofs.Voice.Payload
import Narration.Proofs.Voice.RoundTrip

/-!
# Reading what is written

* `Player.isDigest`, `Player.isPlainVoice` : the fingerprints and voices that can be written;
* `Player.next_stamp`, `Player.digest?_stampSource` : a stamp is an expression, and holds its fingerprint;
* `Player.next_tag` : a tag is a component with the voices;
* `Player.reads_block` : a narration block is these two;
* `Player.tag_roundTrip` : a tag is read back with its voices, whatever stands around it.
-/

namespace Narration.Player
open Markup
open Markup.Block
open Text (firstLine EndsLine)

/-- A fingerprint that can be written. -/
def isDigest (digest : Text) : Bool := !digest.isEmpty && digest.all isDigestChar

/-- A voice that can be written: no angle bracket opens in its texts, and no backtick stands there. -/
def isPlainVoice (v : Voice) : Bool :=
  (v.id ++ v.name ++ v.url).all fun c => c != '<' && c != '\x60'

variable {name path digest t u x : Text} {voices : List Voice} {c : Char} {scope : Scope} {inner : Inner} {a : Nat}

/-! ## The stamp -/

/-- The source of a stamp. -/
def stampSource (digest : Text) : Text :=
  '/' :: '*' :: ((' ' :: label ++ ':' :: ' ' :: digest ++ [' ']) ++ ['*', '/'])

theorem stamp_eq (digest : Text) : stamp digest = '\x7b' :: (stampSource digest ++ ['\x7d']) := by
  simp [stamp, stampSource]

theorem notMem_of_isDigest (h : isDigest digest) (hc : isDigestChar c = false) : c ∉ digest := by
  intro hmem
  rw [isDigest, Bool.and_eq_true] at h
  rw [List.all_eq_true.1 h.2 c hmem] at hc
  cases hc

theorem notMem_stampSource (h : isDigest digest) (hc : isDigestChar c = false)
    (hsigns : c ∉ ['/', '*', ' ', ':']) (hlabel : c ∉ label) : c ∉ stampSource digest := by
  have hdigest := notMem_of_isDigest h hc
  simp only [List.mem_cons, List.not_mem_nil, or_false, not_or] at hsigns
  simp [stampSource, hdigest, hsigns, hlabel]

theorem notMem_stamp (h : isDigest digest) (hc : isDigestChar c = false) (hsigns : c ∉ ['/', '*', ' ', ':', '\x7b', '\x7d'])
    (hlabel : c ∉ label) : c ∉ stamp digest := by
  simp only [List.mem_cons, List.not_mem_nil, or_false, not_or] at hsigns
  have hsource := notMem_stampSource h hc (by simp [hsigns]) hlabel
  rw [stamp_eq]
  simp [hsource, hsigns]

theorem trim_stamp (digest : Text) : Text.trim (stamp digest) = stamp digest := by
  have hend : Text.trimEnd (stamp digest) = stamp digest := by
    refine Text.trimEnd_eq_self fun c hc => ?_
    rw [stamp_eq, List.getLast?_cons, List.getLast?_append] at hc
    cases hc
    rfl
  rw [Text.trim, Text.trimStart, stamp_eq, List.dropWhile_cons_of_neg (by decide), ← stamp_eq, hend]

theorem passive_stampSource (h : isDigest digest) : Braces.Passive (stampSource digest) := by
  refine Braces.passive_comment ?_
  have hdigest := notMem_of_isDigest h (c := '*') (by decide)
  have hlabel : '*' ∉ label := by decide
  simp [hdigest, hlabel]

/-- Code in braces whose own braces are balanced. -/
theorem braced?_passive {source : Text} (h : Braces.Passive source) (t : Text) :
    Tag.braced? ('\x7b' :: (source ++ '\x7d' :: t)) = some (source, source.length + 2) := by
  have hinside : (('\x7b' :: (source ++ '\x7d' :: t)).take (source.length + 2 - 1)).drop 1 = source := by
    rw [Nat.add_sub_assoc (by omega), List.take_succ_cons, List.take_left, List.drop_one, List.tail_cons]
  rw [Tag.braced?, h.balanced? t, Option.bind_eq_bind, Option.bind_some, hinside]
  rfl

/-- A stamp with blanks in front of it, and none but blanks behind it on its line. -/
theorem next_indented_stamp {q : Text} (h : isDigest digest) (hq : Text.allBlank q) (hline : '\n' ∉ q) (hx : Text.allBlank (firstLine x))
    (scope : Scope) (inner : Inner) (a : Nat) : next scope inner true ⟨a, q ++ (stamp digest ++ x)⟩ =
      .ok (scope.node (.expression (stampSource digest)) (a + q.length) (a + q.length + (stamp digest).length),
        a + q.length + (stamp digest).length) := by
  have hlength : (stamp digest).length = (stampSource digest).length + 2 := by
    rw [stamp_eq]
    simp
  have hbraced := braced?_passive (passive_stampSource h) x
  have htext : stamp digest ++ x = '\x7b' :: (stampSource digest ++ '\x7d' :: x) := by
    rw [stamp_eq]
    simp
  have hrest : ('\x7b' :: (stampSource digest ++ '\x7d' :: x)).drop ((stampSource digest).length + 2) = x := by
    rw [← htext, ← hlength, List.drop_left]
  rw [htext, hlength]
  exact next_braced hq hline hbraced (by rw [hrest, hx]) scope inner true

theorem next_stamp (h : isDigest digest) (scope : Scope) (inner : Inner) (a : Nat) (he : EndsLine x) :
    next scope inner true ⟨a, stamp digest ++ x⟩ = .ok (scope.node (.expression (stampSource digest)) a
      (a + (stamp digest).length), a + (stamp digest).length) :=
  next_indented_stamp h rfl List.not_mem_nil (by rcases he with rfl | ⟨v, rfl⟩ <;> rfl) scope inner a

theorem isBlank_of_isDigestChar (h : isDigestChar c) : Text.isBlank c = false := by
  have ha : 'a'.val.toNat = 97 := rfl
  have hf : 'f'.val.toNat = 102 := rfl
  have h0 : '0'.val.toNat = 48 := rfl
  have h9 : '9'.val.toNat = 57 := rfl
  have hc : c.toNat = c.val.toNat := rfl
  simp only [isDigestChar, Bool.or_eq_true, Bool.and_eq_true, decide_eq_true_eq, Char.le_def, UInt32.le_iff_toNat_le] at h
  simp only [Text.isBlank, Bool.or_eq_false_iff, Bool.and_eq_false_iff, decide_eq_false_iff_not, beq_eq_false_iff_ne]
  omega

/-- The comment of a stamp is read up to its end, whatever follows it. -/
theorem comment?_stampSource (h : isDigest digest) (t : Text) : comment? (stampSource digest ++ t) = some (digest, t) := by
  rw [isDigest, Bool.and_eq_true] at h
  obtain ⟨hne, hall⟩ := h
  have hopen : Text.after? ['/', '*'] (stampSource digest ++ t) =
      some (' ' :: (label ++ [':'] ++ (' ' :: (digest ++ ' ' :: '*' :: '/' :: t)))) := by
    rw [Text.after?_eq_some, stampSource]
    simp
  have hlabel : Text.trimStart (' ' :: (label ++ [':'] ++ (' ' :: (digest ++ ' ' :: '*' :: '/' :: t)))) =
      label ++ [':'] ++ (' ' :: (digest ++ ' ' :: '*' :: '/' :: t)) := rfl
  have hdigest : Text.trimStart (' ' :: (digest ++ ' ' :: '*' :: '/' :: t)) = digest ++ ' ' :: '*' :: '/' :: t := by
    rw [Text.trimStart, List.dropWhile_cons_of_pos (by decide)]
    cases digest with
    | nil => cases hne
    | cons d u =>
      rw [List.all_cons, Bool.and_eq_true] at hall
      rw [List.cons_append, List.dropWhile_cons_of_neg (by simp [isBlank_of_isDigestChar hall.1])]
  have hrun : (digest ++ ' ' :: '*' :: '/' :: t).takeWhile isDigestChar = digest :=
    Text.takeWhile_run (List.all_eq_true.1 hall) (by decide)
  have hclose : Text.after? ['*', '/'] (Text.trimStart (' ' :: '*' :: '/' :: t)) = some t := by
    rw [Text.trimStart, List.dropWhile_cons_of_pos (by decide), List.dropWhile_cons_of_neg (by decide)]
    rfl
  simp only [comment?, hopen, Option.bind_eq_bind, Option.bind_some, hlabel, Text.after?_append, hdigest, hrun,
    List.drop_left, hclose, Option.pure_def]

theorem digest?_stampSource (h : isDigest digest) : digest? (stampSource digest) = some digest := by
  have hcomment := comment?_stampSource h []
  rw [List.append_nil, stampSource] at hcomment
  rw [stampSource, digest?, hcomment]
  cases digest with
  | nil => cases h
  | cons d t => rfl

/-! ## The tag -/

/-- Where the voices stand in a tag. -/
def voicesPlace (name : Text) : Nat := name.length + 9

/-- The voices of a tag that begins at an offset. -/
def voicesAt (a : Nat) (voices : List Voice) (name : Text) : Attribute :=
  ⟨voicesAttribute, some (.expression (Voice.payload voices)),
    some (a + voicesPlace name, a + (voicesPlace name + (Voice.payload voices).length + 2))⟩

/-- A tag with a text in place of the voices. -/
def tagOf (source name : Text) : Text :=
  '<' :: name ++ ' ' :: voicesAttribute ++ ['=', '\x7b'] ++ source ++ ['\x7d', ' ', '/', '>']

theorem length_tagOf (source name : Text) : (tagOf source name).length = voicesPlace name + source.length + 5 := by
  simp [tagOf, voicesPlace, voicesAttribute]
  omega

theorem value?_passive {source : Text} (h : Braces.Passive source) (t : Text) :
    Tag.value? ('\x7b' :: (source ++ '\x7d' :: t)) = some (.expression source, source.length + 2) := by
  rw [Tag.value?, braced?_passive h]
  rfl

theorem attribute?_voices {source : Text} (hsource : Braces.Passive source) (o : Nat) (t : Text) :
    Tag.attribute? o (voicesAttribute ++ '=' :: '\x7b' :: (source ++ '\x7d' :: t)) =
      some (⟨voicesAttribute, some (.expression source), some (o + 7, o + 7 + (source.length + 2))⟩, 7 + (source.length + 2)) := by
  have hvalue := value?_passive hsource t
  have hname : Tag.name? Tag.isAttributeStart Tag.isAttributePart
      (voicesAttribute ++ '=' :: '\x7b' :: (source ++ '\x7d' :: t)) =
      some (voicesAttribute, '=' :: '\x7b' :: (source ++ '\x7d' :: t)) := rfl
  have hequals : Tag.spaces ('=' :: '\x7b' :: (source ++ '\x7d' :: t)) = (0, '=' :: '\x7b' :: (source ++ '\x7d' :: t)) := rfl
  have hopen : Tag.spaces ('\x7b' :: (source ++ '\x7d' :: t)) = (0, '\x7b' :: (source ++ '\x7d' :: t)) := rfl
  have hlength : voicesAttribute.length = 6 := rfl
  have hhead : voicesAttribute ++ '=' :: '\x7b' :: (source ++ '\x7d' :: t) =
      'v' :: ("oices".toList ++ '=' :: '\x7b' :: (source ++ '\x7d' :: t)) := rfl
  rw [hhead, Tag.attribute?, ← hhead, hname]
  · simp only [Option.bind_eq_bind, Option.bind_some, hequals, hopen, hvalue, Option.pure_def, hlength]
  · rintro u hu
    cases hu

/-- What follows the name of a tag, up to its end. -/
theorem tail?_voices {source : Text} (hsource : Braces.Passive source) (o fuel : Nat) (x : Text) :
    Tag.tail? false (fuel + 2) o (' ' :: (voicesAttribute ++ '=' :: '\x7b' :: (source ++ '\x7d' :: ' ' :: '/' :: '>' :: x))) =
    some ⟨[⟨voicesAttribute, some (.expression source), some (o + 8, o + 8 + (source.length + 2))⟩], true,
      o + source.length + 13⟩ := by
  have hattribute := attribute?_voices hsource (o + 1) (' ' :: '/' :: '>' :: x)
  have hdrop : (voicesAttribute ++ '=' :: '\x7b' :: (source ++ '\x7d' :: ' ' :: '/' :: '>' :: x)).drop
      (7 + (source.length + 2)) = ' ' :: '/' :: '>' :: x := by
    have hparts : voicesAttribute ++ '=' :: '\x7b' :: (source ++ '\x7d' :: ' ' :: '/' :: '>' :: x) =
        (voicesAttribute ++ ['=', '\x7b'] ++ source ++ ['\x7d']) ++ ' ' :: '/' :: '>' :: x := by simp
    rw [hparts, List.drop_left' (by simp [voicesAttribute]; omega)]
  have hspace : Tag.spaces (' ' :: (voicesAttribute ++ '=' :: '\x7b' :: (source ++ '\x7d' :: ' ' :: '/' :: '>' :: x))) =
      (1, voicesAttribute ++ '=' :: '\x7b' :: (source ++ '\x7d' :: ' ' :: '/' :: '>' :: x)) := rfl
  have hend (o : Nat) : Tag.tail? false (fuel + 1) o (' ' :: '/' :: '>' :: x) = some ⟨[], true, o + 3⟩ := rfl
  have hhead (t : Text) : voicesAttribute ++ t = 'v' :: ("oices".toList ++ t) := rfl
  rw [Tag.tail?, hspace]
  rw [hhead] at hattribute hdrop ⊢
  change ((Tag.attribute? (o + 1) _).bind fun r => (Tag.tail? false (fuel + 1) (o + 1 + r.2) (List.drop r.2 _)).bind
    fun tail => some (tail.cons r.1)) = _
  have hstop : o + 1 + (7 + (source.length + 2)) + 3 = o + source.length + 13 := by omega
  rw [hattribute, Option.bind_some, hdrop, hend, Option.bind_some, hstop]
  rfl

/-- A name that tags have: a letter, then word characters, dots and hyphens. -/
def isTagName (name : Text) : Bool := name.head?.any Tag.isNameStart && name.tail.all Tag.isNamePart

theorem isTagName_of_isName (h : isName name) : isTagName name := by
  obtain ⟨c, u, rfl, hc, hall⟩ := exists_of_isName h
  have hpart : ∀ d ∈ u, Tag.isNamePart d := by
    intro d hd
    rw [Tag.isNamePart, Text.isWord_of_isAlphanum (hall d (List.mem_cons_of_mem c hd))]
    rfl
  rw [isTagName, List.head?_cons, Option.any_some, Tag.isNameStart, hc, List.tail_cons, List.all_eq_true.2 hpart]
  rfl

theorem read?_tagOf (hn : isTagName name) {source : Text} (hsource : Braces.Passive source) (a : Nat) (x : Text) :
    Tag.read? a (tagOf source name ++ x) = some ⟨name, a, a + (tagOf source name).length, false, true,
      [⟨voicesAttribute, some (.expression source), some (a + voicesPlace name, a + (voicesPlace name + source.length + 2))⟩]⟩ := by
  obtain ⟨c, u, rfl⟩ : ∃ c u, name = c :: u := by
    cases name with
    | nil => cases hn
    | cons c u => exact ⟨c, u, rfl⟩
  rw [isTagName, List.head?_cons, Option.any_some, List.tail_cons, Bool.and_eq_true] at hn
  obtain ⟨hc, hall⟩ := hn
  have hpart := List.all_eq_true.1 hall
  have hparts : tagOf source (c :: u) ++ x = '<' :: c :: (u ++ ' ' :: (voicesAttribute ++ '=' :: '\x7b' ::
      (source ++ '\x7d' :: ' ' :: '/' :: '>' :: x))) := by
    simp [tagOf]
  have hstop : a + 1 + (c :: u).length + source.length + 13 = a + (tagOf source (c :: u)).length := by
    rw [length_tagOf, voicesPlace]
    omega
  have hfirst : a + 1 + (c :: u).length + 8 = a + voicesPlace (c :: u) := by
    rw [voicesPlace]
    omega
  rw [hparts, Tag.read?_cons hc hpart (by decide) (by decide), tail?_voices hsource, Option.map_some, hstop, hfirst]
  simp only [Nat.add_assoc]

theorem read?_tag (hn : isTagName name) (a : Nat) (voices : List Voice) (x : Text) : Tag.read? a (tag voices name ++ x) =
    some ⟨name, a, a + (tag voices name).length, false, true, [voicesAt a voices name]⟩ :=
  read?_tagOf hn (Voice.passive_payload voices) a x

theorem next_tag (hn : isName name) (scope : Scope) (inner : Inner) (a : Nat) (voices : List Voice) (he : EndsLine x) :
    next scope inner true ⟨a, tag voices name ++ x⟩ = .ok (scope.node (.component name [voicesAt a voices name]) a
      (a + (tag voices name).length), a + (tag voices name).length) := by
  obtain ⟨c, u, hname, hc, hall⟩ := exists_of_isName hn
  obtain ⟨t, ht⟩ : ∃ t, tag voices name ++ x = '<' :: c :: t := by
    rw [hname]
    exact ⟨_, rfl⟩
  have hblank := Text.isBlank_of_isAlpha hc
  have hne : c ≠ '\n' := by
    rintro rfl
    cases hc
  have hline : firstLine (tag voices name ++ x) = '<' :: c :: firstLine t := by
    rw [ht, firstLine, List.takeWhile_cons_of_pos (by decide), List.takeWhile_cons_of_pos (by simpa using hne)]
  have hstart : (⟨a, tag voices name ++ x⟩ : Stretch).trimStart = ⟨a, tag voices name ++ x⟩ := by
    rw [trimStart_mk, ht, Text.indent, Text.trimStart, List.takeWhile_cons_of_neg (by decide),
      List.dropWhile_cons_of_neg (by decide), List.length_nil, Nat.add_zero]
  have hafter : (⟨a, tag voices name ++ x⟩ : Stretch).since (a + (tag voices name).length) =
      ⟨a + (tag voices name).length, x⟩ := by
    rw [Stretch.since, Nat.add_sub_cancel_left, Stretch.drop, Nat.min_eq_left (by simp), List.drop_left]
  have hrest : (⟨a + (tag voices name).length, x⟩ : Stretch).lineBlank := by
    rcases he with rfl | ⟨v, rfl⟩ <;> rfl
  rw [next_mk, hline, readerOf_component hc, Reader.read, hstart, component?, read?_tag (isTagName_of_isName hn)]
  simp only [hafter, hrest, Bool.false_eq_true, if_false, if_true]
  rfl

/-! ## The block -/

/-- A narration block with its line feeds inside. -/
def blockText (n : Narrated) : Text := stamp n.digest ++ '\n' :: tag n.voices n.name

/-- The stamp of a narration block at an offset. -/
def stampNode (scope : Scope) (a : Nat) (n : Narrated) : Node :=
  scope.node (.expression (stampSource n.digest)) a (a + (stamp n.digest).length)

/-- Where the tag of a narration block at an offset begins. -/
def tagPlace (a : Nat) (n : Narrated) : Nat := a + (stamp n.digest).length + 1

/-- The tag of a narration block at an offset. -/
def tagNode (scope : Scope) (a : Nat) (n : Narrated) : Node :=
  scope.node (.component n.name [voicesAt (tagPlace a n) n.voices n.name]) (tagPlace a n)
    (tagPlace a n + (tag n.voices n.name).length)

/-- The nodes of a narration block at an offset. -/
def blockNodes (scope : Scope) (a : Nat) (n : Narrated) : List Node := [stampNode scope a n, tagNode scope a n]

/-- A narration block stands before the nodes of what follows it. -/
theorem reads_narration {n : Narrated} (hd : isDigest n.digest) (hn : isName n.name) (he : EndsLine x) {ns : List Node} :
    Reads scope inner true ⟨a, blockText n ++ x⟩ ns ↔ ∃ ms,
      Reads scope inner true ⟨a + (blockText n).length, x⟩ ms ∧ ns = blockNodes scope a n ++ ms := by
  have hlength : a + (blockText n).length = a + (stamp n.digest).length + 1 + (tag n.voices n.name).length := by
    rw [blockText, List.length_append, List.length_cons]
    omega
  have hparts : blockText n ++ x = stamp n.digest ++ '\n' :: (tag n.voices n.name ++ x) := by
    rw [blockText, List.append_assoc, List.cons_append]
  have hstamp (t : Text) : (⟨a, stamp n.digest ++ t⟩ : Stretch).lineBlank = false := by
    rw [stamp_eq]
    rfl
  have htag (b : Nat) (t : Text) : (⟨b, tag n.voices n.name ++ t⟩ : Stretch).lineBlank = false := rfl
  have hnext := next_stamp hd scope inner a (x := '\n' :: (tag n.voices n.name ++ x)) (.inr ⟨_, rfl⟩)
  have hnext' := next_tag hn scope inner (a + (stamp n.digest).length + 1) n.voices he
  rw [hlength, hparts, reads_block (by simp [stamp_eq]) (hstamp _)]
  constructor
  · rintro ⟨node, stop, ms, hnode, hms, rfl⟩
    rw [hnext] at hnode
    cases hnode
    rw [since_mk _ _ _ (by simp), List.drop_left, reads_newline, reads_block (by simp [tag]) (htag _ _)] at hms
    obtain ⟨node, stop, ms, hnode, hms, rfl⟩ := hms
    rw [hnext'] at hnode
    cases hnode
    rw [since_mk _ _ _ (by simp), List.drop_left] at hms
    exact ⟨ms, hms, rfl⟩
  · rintro ⟨ms, hms, rfl⟩
    refine ⟨_, _, _, hnext, ?_, rfl⟩
    rw [since_mk _ _ _ (by simp), List.drop_left]
    refine (reads_newline _ _).2 ((reads_block (by simp [tag]) (htag _ _)).2 ?_)
    refine ⟨_, _, _, hnext', ?_, rfl⟩
    rw [since_mk _ _ _ (by simp), List.drop_left]
    exact hms

/-! ## A tag and its voices -/

/-- The voices of a written tag stand in braces. -/
theorem slice_voicesAt (voices : List Voice) (name p s : Text) :
    Text.slice (p ++ tag voices name ++ s) (p.length + voicesPlace name)
      (p.length + (voicesPlace name + (Voice.payload voices).length + 2)) = '\x7b' :: Voice.payload voices ++ ['\x7d'] := by
  have hparts : p ++ tag voices name ++ s = (p ++ '<' :: name ++ ' ' :: voicesAttribute ++ ['=']) ++
      ('\x7b' :: Voice.payload voices ++ ['\x7d']) ++ ([' ', '/', '>'] ++ s) := by
    simp [tag]
  have hfirst : (p ++ '<' :: name ++ ' ' :: voicesAttribute ++ ['=']).length = p.length + voicesPlace name := by
    have hlength : voicesAttribute.length = 6 := rfl
    simp only [List.length_append, List.length_cons, List.length_nil, hlength, voicesPlace]
    omega
  have hstop : ((p ++ '<' :: name ++ ' ' :: voicesAttribute ++ ['=']) ++ ('\x7b' :: Voice.payload voices ++ ['\x7d'])).length =
      p.length + (voicesPlace name + (Voice.payload voices).length + 2) := by
    rw [List.length_append, hfirst]
    simp only [List.length_append, List.length_cons, List.length_nil]
    omega
  rw [Text.slice, hparts, ← hstop, List.take_left, ← hfirst, List.drop_left]

/-- A written tag is read back, wherever it stands: its name, its extent and its one attribute, whose source is the
payload between its braces; and the payload gives back the voices. -/
theorem tag_roundTrip (hn : isTagName name) (hids : ∀ v ∈ voices, v.id ≠ []) (p s : Text) :
    ∃ first stop, Tag.read? p.length ((p ++ tag voices name ++ s).drop p.length) =
        some ⟨name, p.length, p.length + (tag voices name).length, false, true,
          [⟨"voices".toList, some (.expression (Voice.payload voices)), some (first, stop)⟩]⟩ ∧
      Text.slice (p ++ tag voices name ++ s) first stop = '\x7b' :: Voice.payload voices ++ ['\x7d'] ∧
      (Voice.ofPayload (some (.expression (Voice.payload voices)))).outcome = (.ok voices, []) := by
  refine ⟨_, _, ?_, slice_voicesAt voices name p s, ?_⟩
  · rw [List.append_assoc, List.drop_left]
    exact read?_tag hn p.length voices s
  · rw [Voice.ofPayload_payload hids]
    rfl

/-- A voice with a quote, a backslash and a brace, and without an address. -/
def quotedVoice : Voice := ⟨['"', '\\'], ['\x7d', '*', '/', '\n'], []⟩

theorem tag_roundTrip_quotedVoice : ∃ first stop,
    Tag.read? 2 ((['a', ' '] ++ tag [quotedVoice] ['A', '.', 'b'] ++ ['z']).drop 2) =
        some ⟨['A', '.', 'b'], 2, 2 + (tag [quotedVoice] ['A', '.', 'b']).length, false, true,
          [⟨"voices".toList, some (.expression (Voice.payload [quotedVoice])), some (first, stop)⟩]⟩ ∧
      Text.slice (['a', ' '] ++ tag [quotedVoice] ['A', '.', 'b'] ++ ['z']) first stop =
        '\x7b' :: Voice.payload [quotedVoice] ++ ['\x7d'] ∧
      (Voice.ofPayload (some (.expression (Voice.payload [quotedVoice])))).outcome = (.ok [quotedVoice], []) :=
  tag_roundTrip (by decide) (by decide) ['a', ' '] ['z']

end Narration.Player
