import Narration.Proofs.Voice.Payload

/-!
# Reading a payload

* `Json.string_quoteChar`, `Json.value_quote` : a written string is read back, character by character;
* `Json.members_fields`, `Json.value_object`, `Json.elements_allLines` : the fields of an object, an object, and the
  objects of a list;
* `Voice.read_payload`, `Voice.ofPayload_payload` : a payload is the list of its voices.
-/

namespace Narration

namespace Voice

/-- A voice as it is read from a payload. -/
def written (v : Voice) : Value := .mapping (v.fields.map fun (key, value) => (.str key, .str value))

theorem written_eq (v : Voice) :
    v.written = .mapping (v.fields.foldl (fun es f => Value.enter es (.str f.1) (.str f.2)) []) := by
  unfold written fields
  split <;> rfl

theorem exists_separated (l : Text) (ls : List Text) : ∃ y, Text.unlines (separated (l :: ls)) = l ++ y := by
  cases ls with
  | nil => exact ⟨[], by rw [separated, Text.unlines_singleton, List.append_nil]⟩
  | cons k ls => exact ⟨_, unlines_separated l k ls⟩

end Voice

namespace Json
open Voice (quote quoteChar quoteChar_cases hexadecimal_control member indented separated object allLines)

variable {c d : Char} {t u : Text} {v : Voice} {voices : List Voice} {fuel depth : Nat}

/-! ## Strings -/

theorem escaped?_letter (hd : d ≠ 'u') (h : escape? d = some c) (t : Text) : escaped? ('\\' :: d :: t) = some (c, 2) := by
  have hnone : unitAt? ('\\' :: d :: t) = none := by
    unfold unitAt?
    split
    · next heq =>
      cases heq
      exact absurd rfl hd
    · rfl
  rw [escaped?, hnone]
  simp only [h, Option.map_some]

theorem escaped?_control {n : Nat} (h : n < 0x20) (t : Text) :
    escaped? ('\\' :: 'u' :: (Text.hexadecimal 4 n ++ t)) = some (Char.ofNat n, 6) := by
  obtain ⟨hlength, hnumber, -⟩ := hexadecimal_control n h
  have hunit : unitAt? ('\\' :: 'u' :: (Text.hexadecimal 4 n ++ t)) = some n := by
    generalize Text.hexadecimal 4 n = digits at hlength hnumber
    match digits, hlength with
    | [_, _, _, _], _ => exact hnumber
  have hchar : ofUnit n = Char.ofNat n := if_neg (by omega)
  rw [escaped?, hunit]
  dsimp only
  split
  · rw [if_neg (by omega), hchar]
  · rw [hchar]

theorem string_skip (u t : Text) : string u.length (u ++ t) = string 0 t := by
  induction u with
  | nil => rfl
  | cons c u ih => exact ih

/-- A character that is written in a string is read back. -/
theorem string_quoteChar (c : Char) (t : Text) :
    string 0 (quoteChar c ++ t) = (string 0 t).map fun (s, rest) => (c :: s, rest) := by
  rcases quoteChar_cases c with ⟨d, h, hescape, hd⟩ | ⟨hlt, h⟩ | ⟨h, hquote, hslash, hle⟩
  · have hne : d ≠ 'u' := by
      rintro rfl
      revert hd
      decide
    have hskip : string 1 (d :: t) = string 0 t := string_skip [d] t
    rw [h, List.cons_append, List.singleton_append, string, if_neg (by decide), if_pos rfl, escaped?_letter hne hescape]
    simp only [hskip, Nat.add_one_sub_one]
  · obtain ⟨hlength, -, -⟩ := hexadecimal_control _ hlt
    have hskip : string 5 ('u' :: (Text.hexadecimal 4 c.toNat ++ t)) = string 0 t := by
      have := string_skip ('u' :: Text.hexadecimal 4 c.toNat) t
      rwa [List.length_cons, hlength] at this
    have hparts : quoteChar c ++ t = '\\' :: 'u' :: (Text.hexadecimal 4 c.toNat ++ t) := by
      rw [h, List.append_assoc]
      rfl
    rw [hparts, string, if_neg (by decide), if_pos rfl, escaped?_control hlt]
    simp only [Char.ofNat_toNat, hskip, Nat.add_one_sub_one]
  · rw [h, List.singleton_append, string, if_neg hquote, if_neg hslash, if_neg (Nat.not_lt.2 hle)]

theorem string_quote (t u : Text) : string 0 (t.flatMap quoteChar ++ '"' :: u) = .ok (t, u) := by
  induction t with
  | nil => rfl
  | cons c t ih =>
    rw [List.flatMap_cons, List.append_assoc, string_quoteChar, ih]
    rfl

theorem quote_append (t u : Text) : quote t ++ u = '"' :: (t.flatMap quoteChar ++ '"' :: u) := by
  simp [quote]

theorem value_quote (fuel depth : Nat) (t u : Text) : value (fuel + 1) depth (quote t ++ u) = .ok (.str t, u) := by
  rw [quote_append, value, string_quote]
  rfl

/-! ## Objects -/

theorem skipSpace_indented (hc : isSpace c = false) (n : Nat) (t : Text) : skipSpace (indented n (c :: t)) = c :: t := by
  have hspaces : ∀ a ∈ List.replicate n ' ', isSpace a := by
    intro a ha
    rw [List.eq_of_mem_replicate ha]
    decide
  rw [skipSpace, indented, Text.dropWhile_run hspaces hc]

theorem indented_append (n : Nat) (t u : Text) : indented n t ++ u = indented n (t ++ u) := List.append_assoc _ _ _

theorem members_member (field : Text × Text) (entries : List (Value × Value)) (u : Text) :
    members (fuel + 2) depth entries (member field ++ u) =
      match skipSpace u with
      | ',' :: rest => members (fuel + 1) depth (Value.enter entries (.str field.1) (.str field.2)) (skipSpace rest)
      | '\x7d' :: rest => .ok (Value.enter entries (.str field.1) (.str field.2), rest)
      | _ => .error .malformed := by
  have hcolon (t : Text) : skipSpace (':' :: t) = ':' :: t := rfl
  have hvalue : skipSpace (' ' :: (quote field.2 ++ u)) = quote field.2 ++ u := by
    rw [quote_append]
    rfl
  have hok {α β : Type} (a : α) (f : α → Except Fault β) : Except.ok a >>= f = f a := rfl
  rw [member, List.append_assoc, quote_append, members, string_quote, hok]
  dsimp only [List.cons_append]
  simp only [hcolon, hvalue, value_quote, hok]
  rfl

theorem skipSpace_member (n : Nat) (field : Text × Text) (u : Text) :
    skipSpace (indented n (member field) ++ u) = member field ++ u := by
  rw [indented_append, member, List.append_assoc, quote_append]
  exact skipSpace_indented (by decide) n _

/-- The fields of an object are entered one after another. -/
theorem members_fields (depth : Nat) (field : Text × Text) (fs : List (Text × Text)) (entries : List (Value × Value)) (u : Text)
    (hfuel : fs.length + 1 < fuel) :
    members fuel depth entries (skipSpace (Text.unlines (separated ((field :: fs).map fun f => indented 6 (member f))) ++
      '\n' :: indented 4 ('\x7d' :: u))) =
      .ok ((field :: fs).foldl (fun es f => Value.enter es (.str f.1) (.str f.2)) entries, u) := by
  induction fs generalizing field entries fuel with
  | nil =>
    obtain ⟨n, rfl⟩ : ∃ n, fuel = n + 2 := ⟨fuel - 2, by omega⟩
    have hclose : skipSpace ('\n' :: indented 4 ('\x7d' :: u)) = '\x7d' :: u := rfl
    rw [List.map_singleton, separated, Text.unlines_singleton, skipSpace_member, members_member, hclose]
    rfl
  | cons next fs ih =>
    obtain ⟨n, rfl⟩ : ∃ n, fuel = n + 2 := ⟨fuel - 2, by rw [List.length_cons] at hfuel; omega⟩
    have hcomma (x : Text) : skipSpace (',' :: x) = ',' :: x := rfl
    have hrest := ih next (Value.enter entries (.str field.1) (.str field.2)) (by simpa using hfuel : fs.length + 1 < n + 1)
    rw [List.map_cons, List.map_cons, Voice.unlines_separated, List.append_assoc, skipSpace_member, members_member,
      List.cons_append, List.cons_append, hcomma]
    exact hrest

/-- An object is read as its fields. -/
theorem value_object (hfuel : 4 < fuel) (hdepth : depth < maxDepth) (v : Voice) (u : Text) :
    value fuel depth (object v ++ u) = .ok (v.written, u) := by
  obtain ⟨n, rfl⟩ : ∃ n, fuel = n + 1 := ⟨fuel - 1, by omega⟩
  obtain ⟨field, fs, hfields, hlength⟩ : ∃ field fs, v.fields = field :: fs ∧ fs.length ≤ 2 := by
    unfold Voice.fields
    split <;> exact ⟨_, _, rfl, by simp⟩
  have hmembers := members_fields (depth + 1) field fs [] u (by omega : fs.length + 1 < n)
  have hparts : object v ++ u = '\x7b' :: '\n' :: (Text.unlines (separated ((field :: fs).map fun f =>
      indented 6 (member f))) ++ '\n' :: indented 4 ('\x7d' :: u)) := by
    rw [object, hfields]
    simp [indented]
  have hline (x : Text) : skipSpace ('\n' :: x) = skipSpace x := rfl
  obtain ⟨x, hx⟩ : ∃ x, skipSpace (Text.unlines (separated ((field :: fs).map fun f => indented 6 (member f))) ++
      '\n' :: indented 4 ('\x7d' :: u)) = '"' :: x := by
    obtain ⟨y, hy⟩ := Voice.exists_separated (indented 6 (member field)) (fs.map fun f => indented 6 (member f))
    rw [List.map_cons, hy, List.append_assoc, skipSpace_member, member, List.append_assoc, quote_append]
    exact ⟨_, rfl⟩
  rw [hx] at hmembers
  rw [hparts, value, if_neg (Nat.not_le.2 hdepth), hline, hx]
  change (members n (depth + 1) [] ('"' :: x)).map (fun r => (Value.mapping r.1, r.2)) = _
  rw [hmembers, Voice.written_eq, hfields]
  rfl

/-! ## Lists -/

theorem skipSpace_object (n : Nat) (v : Voice) (u : Text) :
    skipSpace (indented n (object v) ++ u) = object v ++ u := by
  rw [indented_append]
  exact skipSpace_indented (by decide) n _

/-- The objects of a list are read one after another. -/
theorem elements_allLines (v : Voice) (vs : List Voice) (u : Text) (hfuel : vs.length + 5 < fuel)
    (hdepth : depth < maxDepth) :
    elements fuel depth (skipSpace (Text.unlines (allLines (v :: vs)) ++ '\n' :: indented 2 (']' :: u))) =
      .ok ((v :: vs).map Voice.written, u) := by
  obtain ⟨n, rfl⟩ : ∃ n, fuel = n + 1 := ⟨fuel - 1, by omega⟩
  have hok {α β : Type} (a : α) (f : α → Except Fault β) : Except.ok a >>= f = f a := rfl
  induction vs generalizing v n with
  | nil =>
    have hclose : skipSpace ('\n' :: indented 2 (']' :: u)) = ']' :: u := rfl
    rw [allLines, Voice.unlines_lines, skipSpace_object, elements, value_object (Nat.lt_of_succ_lt_succ hfuel) hdepth, hok]
    dsimp only
    rw [hclose]
    rfl
  | cons w vs ih =>
    have hcomma (x : Text) : skipSpace (',' :: x) = ',' :: x := rfl
    have hfuel' : vs.length + 5 < n := by
      rw [List.length_cons] at hfuel
      omega
    obtain ⟨m, rfl⟩ : ∃ m, n = m + 1 := ⟨n - 1, by omega⟩
    have hrest : elements (m + 1) depth (skipSpace ('\n' :: (Text.unlines (allLines (w :: vs)) ++
        '\n' :: indented 2 (']' :: u)))) = .ok ((w :: vs).map Voice.written, u) := ih w m hfuel'
    rw [Voice.unlines_allLines, List.append_assoc, skipSpace_object, elements, value_object (by omega) hdepth, hok]
    dsimp only
    rw [List.cons_append, List.cons_append, hcomma]
    change elements (m + 1) depth _ >>= _ = _
    rw [hrest]
    rfl

end Json

namespace Voice
open Json

variable {voices : List Voice}

theorem length_le_allLines (voices : List Voice) : voices.length ≤ (Text.unlines (allLines voices)).length := by
  match voices with
  | [] => exact Nat.zero_le _
  | [v] =>
    rw [allLines, unlines_lines]
    simp [indented]
  | v :: w :: vs =>
    have hrest := length_le_allLines (w :: vs)
    rw [unlines_allLines]
    simp only [List.length_append, List.length_cons] at hrest ⊢
    omega

/-- A payload is read as the list of its voices. -/
theorem read_payload (voices : List Voice) : Json.read (payload voices) = .ok (.list (voices.map written)) := by
  cases voices with
  | nil => rfl
  | cons v vs =>
    have hok {α β : Type} (a : α) (f : α → Except Json.Fault β) : Except.ok a >>= f = f a := rfl
    have hopen (x : Text) : skipSpace ('[' :: x) = '[' :: x := rfl
    have hline (x : Text) : skipSpace ('\n' :: x) = skipSpace x := rfl
    have hparts : payload (v :: vs) =
        '[' :: '\n' :: (Text.unlines (allLines (v :: vs)) ++ '\n' :: indented 2 [']']) := payload_cons v vs
    have hfuel : vs.length + 5 < (payload (v :: vs)).length := by
      have hlength := length_le_allLines (v :: vs)
      rw [hparts]
      simp only [List.length_cons, List.length_append, indented, List.length_replicate] at hlength ⊢
      omega
    obtain ⟨x, hx⟩ : ∃ x, skipSpace (Text.unlines (allLines (v :: vs)) ++ '\n' :: indented 2 [']']) = '\x7b' :: x := by
      obtain ⟨y, hy⟩ : ∃ y, Text.unlines (allLines (v :: vs)) = indented 4 (object v) ++ y := by
        cases vs with
        | nil => exact ⟨[], by rw [allLines, unlines_lines, List.append_nil]⟩
        | cons w vs => exact ⟨_, unlines_allLines v w vs⟩
      rw [hy, List.append_assoc, skipSpace_object]
      exact ⟨_, rfl⟩
    have helements := elements_allLines v vs [] hfuel (by decide : 1 < maxDepth)
    rw [hx, hparts] at helements
    rw [Json.read, hparts, hopen, value, if_neg (by decide), hline, hx]
    generalize ('[' :: '\n' :: (Text.unlines (allLines (v :: vs)) ++ '\n' :: indented 2 [']'])).length = fuel at helements ⊢
    change (elements fuel 1 ('\x7b' :: x)).map _ >>= _ = _
    rw [helements]
    rfl

theorem ofEntry?_written (v : Voice) (h : v.id ≠ []) : ofEntry? v.written = some v := by
  have hid : (Value.str v.id).isTrue := by simpa [Value.isTrue] using h
  obtain ⟨id, name, url⟩ := v
  unfold written fields
  split
  · next hurl =>
    obtain rfl : url = [] := List.isEmpty_iff.1 hurl
    simp [ ofEntry?, fieldText, Value.get?, Value.same, Value.text, hid]
  · simp [ ofEntry?, fieldText, Value.get?, Value.same, Value.text, hid]

/-- The voices that a payload records are those it was made of. -/
theorem ofPayload_payload (h : ∀ v ∈ voices, v.id ≠ []) : ofPayload (some (.expression (payload voices))) = pure voices := by
  have hentries : ofEntries (voices.map written) = pure voices := by
    induction voices with
    | nil => rfl
    | cons v vs ih =>
      rw [List.map_cons, ofEntries, ofEntry?_written v (h v List.mem_cons_self), ih fun w hw => h w (List.mem_cons_of_mem v hw)]
      rfl
  rw [ofPayload, ofSource, read_payload]
  exact hentries

end Voice
end Narration
