import Narration.Documents
import Narration.Text.Utf8

/-!
# Files, and what is written over them

* `Utf8.character_encode`, `Utf8.decode_encode` : what is written in UTF-8 is read back;
* `Files.entry?_put`, `Files.resolve_put` : a file put in place of another changes that entry alone;
* `Files.read_eq_ok` : what can be read;
* `Files.exists_write` : a file that can be read can be written;
* `Files.read_write` : what was written over a file is read back;
* `Documents.exists_write`, `Documents.write_eq_put`, `Documents.read_write` : the same for the text of a document.
-/

namespace Narration.Utf8

/-! ## Single bytes -/

/-- A continuation byte with six bits of a code point. -/
abbrev continuationByte (n : Nat) : UInt8 := UInt8.ofNat (n + 128)

theorem continuationByte_spec : ∀ n < 64, isContinuation (continuationByte n) ∧
    (continuationByte n &&& 0x3F).toNat = n ∧ 0x80 ≤ continuationByte n ∧ continuationByte n ≤ 0xBF ∧
    (0x20 ≤ n → 0xA0 ≤ continuationByte n) ∧ (0x10 ≤ n → 0x90 ≤ continuationByte n) ∧
    (n < 0x20 → continuationByte n ≤ 0x9F) ∧ (n < 0x10 → continuationByte n ≤ 0x8F) := by decide

theorem follow?_one : ∀ n < 128, follow? (UInt8.ofNat n) = some (0, 0, 0) := by decide

theorem follow?_two : ∀ n < 32, 2 ≤ n → follow? (UInt8.ofNat (n + 192)) = some (1, 0x80, 0xBF) ∧
    (UInt8.ofNat (n + 192) &&& 0x1F).toNat = n := by decide

theorem follow?_three : ∀ n < 16, follow? (UInt8.ofNat (n + 224)) =
      some (2, if n = 0 then 0xA0 else 0x80, if n = 13 then 0x9F else 0xBF) ∧
    (UInt8.ofNat (n + 224) &&& 0x0F).toNat = n := by decide

theorem follow?_four : ∀ n ≤ 4, follow? (UInt8.ofNat (n + 240)) =
      some (3, if n = 0 then 0x90 else 0x80, if n = 4 then 0x8F else 0xBF) ∧
    (UInt8.ofNat (n + 240) &&& 0x07).toNat = n := by decide

theorem continuation_cons {more got code n : Nat} {bs : List UInt8} (hn : n < 64) :
    continuation (more + 1) got code (continuationByte n :: bs) =
      continuation more (got + 1) (code * 64 + n) bs := by
  obtain ⟨hcont, hbits, -⟩ := continuationByte_spec n hn
  rw [continuation, if_pos hcont, hbits]

/-! ## Sequences of bytes -/

theorem in_range {low high b : UInt8} (hlow : low ≤ b) (hhigh : b ≤ high) :
    (decide (low ≤ b) && decide (b ≤ high)) = true := by
  rw [Bool.and_eq_true, decide_eq_true_eq, decide_eq_true_eq]
  exact ⟨hlow, hhigh⟩

theorem character_one {v : Nat} (hv : v < 128) (bs : List UInt8) :
    character (UInt8.ofNat v) bs = .ok (v, 0) := by
  simp only [character, follow?_one v hv, UInt8.toNat_ofNat']
  rw [Nat.mod_eq_of_lt (by omega)]

theorem character_two {lead n : Nat} (hlead : lead < 32) (hlow : 2 ≤ lead) (hn : n < 64)
    (bs : List UInt8) :
    character (UInt8.ofNat (lead + 192)) (continuationByte n :: bs) = .ok (lead * 64 + n, 1) := by
  obtain ⟨hfollow, hbits⟩ := follow?_two lead hlead hlow
  obtain ⟨-, -, hmin, hmax, -⟩ := continuationByte_spec n hn
  simp only [character, hfollow]
  rw [if_pos (in_range hmin hmax), if_pos trivial, hbits, continuation_cons hn]
  rfl

theorem character_three {lead m n : Nat} (hlead : lead < 16) (hm : m < 64) (hn : n < 64)
    (hlow : lead = 0 → 0x20 ≤ m) (hhigh : lead = 13 → m < 0x20) (bs : List UInt8) :
    character (UInt8.ofNat (lead + 224)) (continuationByte m :: continuationByte n :: bs) =
      .ok ((lead * 64 + m) * 64 + n, 2) := by
  obtain ⟨hfollow, hbits⟩ := follow?_three lead hlead
  obtain ⟨-, -, hmin, hmax, hmin', -, hmax', -⟩ := continuationByte_spec m hm
  have hlow : (if lead = 0 then 0xA0 else 0x80) ≤ continuationByte m := by
    split
    · next h => exact hmin' (hlow h)
    · exact hmin
  have hhigh : continuationByte m ≤ if lead = 13 then 0x9F else 0xBF := by
    split
    · next h => exact hmax' (hhigh h)
    · exact hmax
  simp only [character, hfollow]
  rw [if_pos (in_range hlow hhigh), if_neg (by decide), if_pos trivial, hbits, continuation_cons hm,
    continuation_cons hn]
  rfl

theorem character_four {lead k m n : Nat} (hlead : lead ≤ 4) (hk : k < 64) (hm : m < 64) (hn : n < 64)
    (hlow : lead = 0 → 0x10 ≤ k) (hhigh : lead = 4 → k < 0x10) (bs : List UInt8) :
    character (UInt8.ofNat (lead + 240))
        (continuationByte k :: continuationByte m :: continuationByte n :: bs) =
      .ok (((lead * 64 + k) * 64 + m) * 64 + n, 3) := by
  obtain ⟨hfollow, hbits⟩ := follow?_four lead hlead
  obtain ⟨-, -, hmin, hmax, -, hmin', -, hmax'⟩ := continuationByte_spec k hk
  have hlow : (if lead = 0 then 0x90 else 0x80) ≤ continuationByte k := by
    split
    · next h => exact hmin' (hlow h)
    · exact hmin
  have hhigh : continuationByte k ≤ if lead = 4 then 0x8F else 0xBF := by
    split
    · next h => exact hmax' (hhigh h)
    · exact hmax
  simp only [character, hfollow]
  rw [if_pos (in_range hlow hhigh), if_neg (by decide), if_neg (by decide), hbits, continuation_cons hk,
    continuation_cons hm, continuation_cons hn]
  rfl

/-! ## Characters and texts -/

/-- The bytes of a character are a first byte and continuation bytes, from which it is read back. -/
theorem character_encode (c : Char) (bs : List UInt8) :
    ∃ b more, String.utf8EncodeChar c = b :: more ∧
      character b (more ++ bs) = .ok (c.toNat, more.length) := by
  have hvalid : c.toNat < 0xD800 ∨ (0xDFFF < c.toNat ∧ c.toNat < 0x110000) := c.valid
  unfold String.utf8EncodeChar
  simp only [Char.toNat] at hvalid ⊢
  generalize c.val.toNat = v at hvalid
  split
  · exact ⟨_, _, rfl, character_one (by omega) _⟩
  split
  · refine ⟨_, _, rfl, (character_two (by omega) (by omega) (by omega) _).trans ?_⟩
    congr 2
    omega
  split
  · refine ⟨_, _, rfl, (character_three (by omega) (by omega) (by omega) (by omega) (by omega) _).trans ?_⟩
    congr 2
    omega
  · refine ⟨_, _, rfl, (character_four (by omega) (by omega) (by omega) (by omega) (by omega) (by omega)
      _).trans ?_⟩
    congr 2
    omega

theorem decodeFrom_skip (offset : Nat) (text : Text) (more bs : List UInt8) :
    decodeFrom offset text more.length (more ++ bs) = decodeFrom (offset + more.length) text 0 bs := by
  induction more generalizing offset with
  | nil => rfl
  | cons b more ih =>
    rw [List.length_cons, List.cons_append, decodeFrom, ih]
    congr 1
    omega

theorem decodeFrom_encode (offset : Nat) (text t : Text) :
    decodeFrom offset text 0 (encode t) = .ok (text.reverse ++ t) := by
  induction t generalizing offset text with
  | nil => rw [List.append_nil]; rfl
  | cons c t ih =>
    obtain ⟨b, more, hc, hread⟩ := character_encode c (encode t)
    have hencode : encode (c :: t) = b :: (more ++ encode t) := by
      rw [encode, List.flatMap_cons, hc, List.cons_append]
      rfl
    rw [hencode, decodeFrom]
    simp only [hread]
    rw [decodeFrom_skip, ih, Char.ofNat_toNat, List.reverse_cons, List.append_assoc, List.singleton_append]

theorem decode_encode (t : Text) : decode (encode t) = .ok t := decodeFrom_encode 0 [] t

end Narration.Utf8

/-! ## Files -/

namespace Narration

theorem lookup_replace {α β : Type} [BEq α] [LawfulBEq α] [DecidableEq α] (l : List (α × β)) (k q : α)
    (b : β) : (l.map fun (a, old) => (a, if a = k then b else old)).lookup q =
      if q = k then (l.lookup q).map fun _ => b else l.lookup q := by
  induction l with
  | nil => simp
  | cons p l ih =>
    obtain ⟨a, old⟩ := p
    rw [List.map_cons, List.lookup_cons, List.lookup_cons, ih]
    by_cases hqa : q = a
    · subst hqa
      by_cases hqk : q = k <;> simp [hqk]
    · simp only [beq_false_of_ne hqa]

namespace Files

variable {f g : Files} {segments : List Text} {old new : List UInt8}

theorem lookup_of_entry? (h : f.entry? segments = some (.file old)) :
    segments ≠ [] ∧ f.holds segments = false ∧ f.entries.lookup segments = some (.file old) := by
  unfold entry? at h
  split at h
  · cases h
  · next hdir =>
    simp only [Bool.or_eq_true, not_or, Bool.not_eq_true, List.isEmpty_eq_false_iff] at hdir
    exact ⟨hdir.1, hdir.2, h⟩

theorem entries_put (h : f.entry? segments = some (.file old)) (e : Entry) :
    (f.put segments e).entries =
      f.entries.map fun (path, old) => (path, if path = segments then e else old) := by
  obtain ⟨-, -, hlookup⟩ := lookup_of_entry? h
  have hsome : (f.entries.lookup segments).isSome := by rw [hlookup]; rfl
  obtain ⟨p, hp, hpath⟩ := List.lookup_isSome_iff.1 hsome
  rw [put, if_pos (List.any_eq_true.2 ⟨p, hp, by rw [eq_of_beq hpath, decide_eq_true rfl]⟩)]

theorem entry?_put (h : f.entry? segments = some (.file old)) (q : List Text) :
     entry? (f.put segments (.file new)) q = if q = segments then some (.file new) else f.entry? q := by
  obtain ⟨hne, hholds, hlookup⟩ := lookup_of_entry? h
  have hholds_put : (f.put segments (.file new)).holds q = f.holds q := by
    rw [holds, entries_put h, List.any_map]
    rfl
  rw [ entry?, hholds_put, entries_put h, lookup_replace]
  by_cases hq : q = segments
  · subst hq
    rw [if_neg (by simp [hne, hholds]), if_pos rfl, if_pos rfl, hlookup, Option.map_some]
  · rw [if_neg hq, if_neg hq, entry?]

theorem resolve_put (h : f.entry? segments = some (.file old)) (path : Text) :
    (f.put segments (.file new)).resolve path = f.resolve path := by
  have hstep : (f.put segments (.file new)).step = f.step := by
    funext place segment
    rw [step, entry?_put h, step]
    by_cases hp : place = segments
    · rw [if_pos hp, hp, h]
    · rw [if_neg hp]
  rw [resolve, hstep, resolve]

theorem read_eq_ok {path : Text} {content : List UInt8} : f.read path = .ok content ↔
    ∃ segments, f.resolve path = .ok segments ∧ f.entry? segments = some (.file content) := by
  unfold read
  cases hresolve : f.resolve path with
  | error cause => exact ⟨nofun, fun ⟨_, h, _⟩ => nomatch h⟩
  | ok segments =>
    dsimp only
    constructor
    · intro h
      split at h
      · next hentry => exact ⟨segments, rfl, Except.ok.inj h ▸ hentry⟩
      · cases h
      · cases h
    · rintro ⟨_, hsegments, hentry⟩
      cases hsegments
      rw [hentry]

/-- A path is read alike when it leads to one place with one entry. -/
theorem read_congr {path : Text} (hresolve : f.resolve path = g.resolve path)
    (hentry : ∀ place, g.resolve path = .ok place → f.entry? place = g.entry? place) : f.read path = g.read path := by
  unfold read
  rw [hresolve]
  cases hplace : g.resolve path with
  | error cause => rfl
  | ok place =>
    dsimp only
    rw [hentry place hplace]

/-- What can be read is there. -/
theorem doesExist_of_read {path : Text} {content : List UInt8} (h : f.read path = .ok content) : f.doesExist path := by
  obtain ⟨segments, hresolve, hentry⟩ := read_eq_ok.1 h
  rw [doesExist, at?, hresolve]
  change (f.entry? segments).isSome
  rw [hentry]
  rfl

theorem read_write {path : Text} (hread : f.read path = .ok old) (hwrite : f.write path new = .ok g) :
    g.read path = .ok new := by
  unfold read at hread
  unfold write at hwrite
  split at hread
  · cases hread
  · next segments hresolve =>
    split at hread
    · next content hentry =>
      simp only [hresolve] at hwrite
      rw [if_neg (by simp [hentry])] at hwrite
      split at hwrite
      · cases hwrite
      · cases hwrite
        rw [read, resolve_put hentry, hresolve]
        dsimp only
        rw [ entry?_put hentry, if_pos rfl]
    · cases hread
    · cases hread

/-- What a file lies in is a directory. -/
theorem entry?_dropLast (h : f.entry? segments = some (.file old)) : f.entry? segments.dropLast = some .directory := by
  obtain ⟨hne, -, hlookup⟩ := lookup_of_entry? h
  have hholds : f.holds segments.dropLast := by
    have hsome : (f.entries.lookup segments).isSome := by rw [hlookup]; rfl
    obtain ⟨⟨path, e⟩, hp, hpath⟩ := List.lookup_isSome_iff.1 hsome
    obtain rfl : segments = path := eq_of_beq hpath
    refine List.any_eq_true.2 ⟨(segments, e), hp, ?_⟩
    rw [Bool.and_eq_true, decide_eq_true_iff, List.isPrefixOf_iff_prefix, List.length_dropLast]
    exact ⟨Nat.sub_one_lt (mt List.eq_nil_of_length_eq_zero hne), List.dropLast_prefix segments⟩
  rw [ entry?, hholds, Bool.or_true, if_pos rfl]

/-- A file that can be read can be written. -/
theorem exists_write {path : Text} (hread : f.read path = .ok old) (new : List UInt8) : ∃ g, f.write path new = .ok g := by
  unfold read at hread
  unfold write
  split at hread
  · cases hread
  · next segments hresolve =>
    split at hread
    · next content hentry =>
      refine ⟨f.put segments (.file new), ?_⟩
      rw [if_neg (by simp [hentry]), if_neg (by simp [ entry?_dropLast hentry])]
    · cases hread
    · cases hread

end Files

/-- A document that can be read can be written. -/
theorem Documents.exists_write {f : Files} {directory path old : Text} (hread : read f directory path = .ok old) (new : Text) :
    ∃ g, write f directory path new = .ok g := by
  unfold read at hread
  cases hbytes : f.read (Path.join directory path) with
  | error e =>
    rw [hbytes] at hread
    cases hread
  | ok bytes =>
    obtain ⟨g, hg⟩ := Files.exists_write hbytes (Utf8.encode new)
    exact ⟨g, by rw [write, hg]; rfl⟩

theorem Documents.read_congr {f g : Files} {directory path : Text}
    (hresolve : f.resolve (Path.join directory path) = g.resolve (Path.join directory path))
    (hentry : ∀ place, g.resolve (Path.join directory path) = .ok place → f.entry? place = g.entry? place) :
    read f directory path = read g directory path := by
  rw [read, read, Files.read_congr hresolve hentry]

/-- Writing over a document puts a file where it is, and changes nothing else. -/
theorem Documents.write_eq_put {f g : Files} {directory path old new : Text} (hread : read f directory path = .ok old)
    (hwrite : write f directory path new = .ok g) : ∃ place content, f.resolve (Path.join directory path) = .ok place ∧
      f.entry? place = some (.file content) ∧ g = f.put place (.file (Utf8.encode new)) := by
  unfold read at hread
  cases hbytes : f.read (Path.join directory path) with
  | error e =>
    rw [hbytes] at hread
    cases hread
  | ok content =>
    obtain ⟨place, hresolve, hentry⟩ := Files.read_eq_ok.1 hbytes
    refine ⟨place, content, hresolve, hentry, ?_⟩
    have hput : f.write (Path.join directory path) (Utf8.encode new) = .ok (f.put place (.file (Utf8.encode new))) := by
      rw [Files.write, hresolve]
      dsimp only
      rw [if_neg (by simp [hentry]), if_neg (by simp [Files.entry?_dropLast hentry])]
    rw [write, hput] at hwrite
    exact (Except.ok.inj hwrite).symm

theorem Documents.read_write {f g : Files} {directory path old new : Text}
    (hread : read f directory path = .ok old) (hwrite : write f directory path new = .ok g) :
    read g directory path = .ok new := by
  unfold read at hread ⊢
  unfold write at hwrite
  cases hbytes : f.read (Path.join directory path) with
  | error e => rw [hbytes] at hread; cases hread
  | ok bytes =>
    cases hfiles : f.write (Path.join directory path) (Utf8.encode new) with
    | error e => rw [hfiles] at hwrite; cases hwrite
    | ok files =>
      rw [hfiles] at hwrite
      cases hwrite
      rw [Files.read_write hbytes hfiles]
      exact congrArg (·.mapError Fault.encoding) (Utf8.decode_encode new)

end Narration
