import Narration.Proofs.Markup.Inline.Kept
import Narration.Proofs.Text.Find
import Narration.Proofs.Text.Lines

/-!
# Link targets as they are shown

A link target without percent escapes and coded labels is shown as it stands, save for blanks at its ends, for the
marks that set off host and service, and for a host that is too long. The service may move before what follows a bad
label of the host.

* `Shown` : how a link target and what is shown of it go together;
* `Punycode.shown_toUnicode?` : host names without coded labels;
* `LinkTarget.shown_cutHost` : a host, the service and what follows;
* `LinkTarget.kept_readable` : a target is shown with the placeholders that it holds, in their order;
* `LinkTarget.complete_readable` : placeholders that stand whole in a target are shown whole.
-/

namespace Narration
open Markup (Kept isLoose isBreak Spelled)
open Markup.Content (openPlace closePlace)

/-! ## Percent escapes -/

theorem Url.decode_of_notMem {t : Text} (h : '%' ∉ t) : decode t = t := by
  rw [decode]
  induction t with
  | nil => rfl
  | cons c t ih =>
    rw [List.mem_cons, not_or] at h
    have hescapes : escapes (c :: t) = [] := by
      unfold escapes
      split
      · next heq =>
        cases heq
        exact absurd rfl h.1
      · rfl
    rw [decodeFrom, hescapes]
    exact congrArg _ (ih h.2)

/-! ## What is shown -/

/-- A text and what is shown of it. No percent sign is added. -/
structure Shown (apart : Bool) (t v : Text) : Prop where
  kept : Kept apart t (v.map some)
  percent : '%' ∉ t → '%' ∉ v

namespace Shown

variable {b : Bool} {c : Char} {t u v w : Text}

theorem refl (b : Bool) (t : Text) : Shown b t t := ⟨.refl b t, id⟩

theorem append (h : Shown b t v) (h' : Shown false u w) : Shown b (t ++ u) (v ++ w) := by
  refine ⟨?_, fun hnot => ?_⟩
  · rw [List.map_append]
    exact h.kept.append h'.kept
  · rw [List.mem_append, not_or] at hnot ⊢
    exact ⟨h.percent hnot.1, h'.percent hnot.2⟩

theorem weaken (h : Shown false t v) : Shown b t v := ⟨h.kept.weaken, h.percent⟩

theorem pass (hc : isLoose c) (h : Shown true t v) : Shown b (c :: t) (c :: v) := by
  refine ⟨.pass b hc h.kept, fun hnot => ?_⟩
  rw [List.mem_cons, not_or] at hnot ⊢
  exact ⟨hnot.1, h.percent hnot.2⟩

theorem drop (hc : isLoose c) (h : Shown true t v) : Shown b (c :: t) v :=
  ⟨.drop b hc h.kept, fun hnot => h.percent fun hmem => hnot (List.mem_cons_of_mem c hmem)⟩

theorem put (hc : isLoose c) (hne : c ≠ '%') (h : Shown true t v) : Shown b t (c :: v) := by
  refine ⟨.put b (show isBreak (some c) from hc) h.kept, fun hnot => ?_⟩
  rw [List.mem_cons, not_or]
  exact ⟨hne.symm, h.percent hnot⟩

/-- Anything may be left out where nothing goes on. -/
theorem skips (u : Text) (h : Shown true t v) : Shown true (u ++ t) v := by
  induction u with
  | nil => exact h
  | cons c u ih => exact ⟨.skip c ih.kept, fun hnot => ih.percent fun hmem => hnot (List.mem_cons_of_mem c hmem)⟩

/-- Digits of ASCII may be added where nothing goes on. -/
theorem adds (hu : ∀ c ∈ u, c.isDigit) (h : Shown true t v) : Shown true t (u ++ v) := by
  induction u with
  | nil => exact h
  | cons c u ih =>
    obtain ⟨hc, hu⟩ := List.forall_mem_cons.1 hu
    have hopen : c ≠ openPlace := by
      rintro rfl
      exact absurd hc (by decide)
    have hpercent : c ≠ '%' := by
      rintro rfl
      exact absurd hc (by decide)
    refine ⟨.add hopen (ih hu).kept, fun hnot => ?_⟩
    rw [List.cons_append, List.mem_cons, not_or]
    exact ⟨hpercent.symm, (ih hu).percent hnot⟩

end Shown

/-! ## Host names -/

theorem Text.splitOn_eq_cons {c : Char} {t u : Text} {us : List Text} (h : splitOn c t = u :: us) :
    t = u ∧ us = [] ∨ ∃ v, t = u ++ c :: v ∧ splitOn c v = us := by
  by_cases hc : c ∈ t
  · obtain ⟨a, v, rfl, ha⟩ := List.eq_append_cons_of_mem hc
    rw [splitOn_append ha] at h
    cases h
    exact .inr ⟨v, rfl, rfl⟩
  · rw [splitOn_of_notMem hc] at h
    cases h
    exact .inl ⟨rfl, rfl⟩

namespace Punycode

variable {b : Bool} {host host' t : Text}

/-- Every full stop as that of ASCII. -/
def withStops (t : Text) : Text := t.map fun c => if isSeparator c then '.' else c

theorem isLoose_of_isSeparator {c : Char} (h : isSeparator c) : isLoose c := by
  simp only [isSeparator, List.contains_eq_mem, List.mem_cons, List.not_mem_nil, or_false, decide_eq_true_eq] at h
  have hc : c = Char.ofNat c.toNat := (Char.ofNat_toNat c).symm
  rcases h with h | h | h | h <;> rw [h] at hc <;> rw [hc] <;> decide

theorem shown_withStops (b : Bool) (t : Text) : Shown b t (withStops t) := by
  induction t generalizing b with
  | nil => exact .refl b []
  | cons c t ih =>
    rw [withStops, List.map_cons]
    split
    · next hc => exact .drop (isLoose_of_isSeparator hc) (.put (by decide) (by decide) (ih true))
    · exact (Shown.refl b [c]).append (ih false)

/-- The mark of coded labels does not come about. -/
theorem mark_infix_withStops (h : mark <:+: withStops t) : mark <:+: t := by
  obtain ⟨m, hm, heq⟩ := List.infix_map_iff.1 h
  have hsame : withStops m = m := by
    refine (List.map_congr_left fun c hc => ?_).trans (List.map_id m)
    have hmem : (if isSeparator c then '.' else c) ∈ mark := heq ▸ List.mem_map_of_mem hc
    split
    · next hsep =>
      rw [if_pos hsep] at hmem
      exact absurd hmem (by decide)
    · rfl
  rwa [heq, show List.map _ m = m from hsame]

theorem mapM_labels {f : Text → Option Text} {ls : List Text} (h : ∀ l ∈ ls, f l = some l) : ls.mapM f = some ls := by
  induction ls with
  | nil => rfl
  | cons l ls ih =>
    obtain ⟨hl, hls⟩ := List.forall_mem_cons.1 h
    rw [List.mapM_cons, hl, ih hls]
    rfl

/-- A host name without coded labels is read as it is, but for its full stops and what follows a second at sign. -/
theorem toUnicode?_cases (hmark : ¬mark <:+: host) (h : toUnicode? host = some host') : host' = withStops host ∨
    ∃ user domain w, host = user ++ '@' :: (domain ++ w) ∧ (w = [] ∨ ∃ w', w = '@' :: w') ∧
      host' = user ++ '@' :: withStops domain := by
  have hlabels (f : Text → Option Text) (hf : ∀ l, Text.after? mark l = none → f l = some l) (domain : Text)
      (hdomain : domain <:+: host) :
      (Text.splitOn '.' (withStops domain)).mapM f = some (Text.splitOn '.' (withStops domain)) := by
    refine mapM_labels fun l hl => hf l ?_
    cases hafter : Text.after? mark l with
    | none => rfl
    | some code =>
      have hlead : mark <+: l := ⟨code, (Text.after?_eq_some.1 hafter).symm⟩
      have hwithin := mark_infix_withStops (hlead.isInfix.trans (Text.infix_of_mem_splitOn hl))
      exact absurd (hwithin.trans hdomain) hmark
  unfold toUnicode? mapDomain at h
  obtain ⟨user, rest, hsplit⟩ := List.exists_cons_of_ne_nil (Text.splitOn_ne_nil '@' host)
  rw [hsplit] at h
  rcases Text.splitOn_eq_cons hsplit with ⟨rfl, rfl⟩ | ⟨v, rfl, hrest⟩
  · obtain ⟨labels, hmap, h⟩ := Option.bind_eq_some_iff.1 h
    have hkeep := (hlabels _ (fun l hl => by simp only [hl]) host List.infix_rfl).symm.trans hmap
    cases hkeep
    cases h
    rw [List.nil_append, Text.join_splitOn]
    exact .inl rfl
  · obtain ⟨domain, rest, rfl⟩ := List.exists_cons_of_ne_nil (hrest ▸ Text.splitOn_ne_nil '@' v)
    obtain ⟨w, rfl, hw⟩ : ∃ w, v = domain ++ w ∧ (w = [] ∨ ∃ w', w = '@' :: w') := by
      rcases Text.splitOn_eq_cons hrest with ⟨rfl, -⟩ | ⟨w, rfl, -⟩
      · exact ⟨[], (List.append_nil _).symm, .inl rfl⟩
      · exact ⟨'@' :: w, rfl, .inr ⟨w, rfl⟩⟩
    obtain ⟨labels, hmap, h⟩ := Option.bind_eq_some_iff.1 h
    have hkeep := (hlabels _ (fun l hl => by simp only [hl]) domain ⟨user ++ ['@'], w, by simp⟩).symm.trans hmap
    cases hkeep
    cases h
    rw [Text.join_splitOn, List.append_assoc]
    exact .inr ⟨user, domain, w, rfl, hw, rfl⟩

theorem shown_toUnicode? (hmark : ¬mark <:+: host) (h : toUnicode? host = some host') : Shown true host host' := by
  obtain rfl | ⟨user, domain, w, rfl, hw, rfl⟩ := toUnicode?_cases hmark h
  · exact shown_withStops true host
  · refine (Shown.refl true user).append (.pass (by decide) ?_)
    have hend : Shown false w [] := by
      rcases hw with rfl | ⟨w', rfl⟩
      · exact .refl false []
      · have hskip := (Shown.refl true []).skips w'
        rw [List.append_nil] at hskip
        exact .drop (by decide) hskip
    have hdomain := (shown_withStops true domain).append hend
    rwa [List.append_nil] at hdomain

end Punycode

/-! ## Parts of a target -/

namespace LinkTarget

variable {b : Bool} {t host host' service rest : Text}

theorem isLoose_of_isBlank {c : Char} (h : Text.isBlank c) : isLoose c := by
  have hdigit : Text.isDigit c = false := by
    by_contra hc
    rw [Markup.LineForm.not_isBlank_of_isDigit (by simpa using hc)] at h
    cases h
  have hopen : c ≠ openPlace := by
    rintro rfl
    exact absurd h (by decide)
  have hclose : c ≠ closePlace := by
    rintro rfl
    exact absurd h (by decide)
  simp [isLoose, hopen, hclose, hdigit]

/-- A host as it is shown. -/
def hostText (host : Text) : Text := if host.contains ':' then '[' :: host ++ [']'] else host

/-- The number of the service as it is shown. -/
def serviceText (service : Text) : Text := if service.isEmpty then [] else ':' :: service

theorem shown_hostText (h : Shown true host host') : Shown true host (hostText host') := by
  unfold hostText
  split
  · have hend := h.append (Shown.put (c := ']') (by decide) (by decide) (Shown.refl true []))
    rw [List.append_nil] at hend
    exact .put (by decide) (by decide) hend
  · exact h

/-- The colon and the digits of a service, which may be shown before what stands in front of them. -/
theorem shown_service (hservice : ∀ c ∈ service, c.isDigit) (bad rest : Text) :
    Shown false (bad ++ ':' :: service ++ rest) (serviceText service ++ bad ++ rest) := by
  have hrest (b : Bool) : Shown b (bad ++ ':' :: service ++ rest) (bad ++ rest) := by
    rw [List.append_assoc, List.cons_append]
    exact (Shown.refl b bad).append (.drop (by decide) ((Shown.refl true rest).skips service))
  unfold serviceText
  split
  · exact hrest false
  · rw [List.append_assoc (':' :: service), List.cons_append]
    exact .put (by decide) (by decide) (.adds hservice (hrest true))

theorem cutService_cases (host : Text) : cutService host = (host, []) ∨
    host = (cutService host).1 ++ ':' :: (cutService host).2 ∧ ∀ c ∈ (cutService host).2, c.isDigit := by
  obtain ⟨front, digits, hhost, hdigits, heq⟩ : ∃ front digits : Text, host = front ++ digits ∧ (∀ c ∈ digits, c.isDigit) ∧
      (host.reverse.takeWhile Char.isDigit).reverse = digits := by
    refine ⟨(host.reverse.dropWhile Char.isDigit).reverse, (host.reverse.takeWhile Char.isDigit).reverse, ?_, ?_, rfl⟩
    · rw [← List.reverse_append, List.takeWhile_append_dropWhile, List.reverse_reverse]
    · intro c hc
      exact List.mem_takeWhile_imp (List.mem_reverse.1 hc)
  have htake : host.take (host.length - digits.length) = front := by
    rw [hhost, List.length_append, Nat.add_sub_cancel, List.take_left]
  rw [cutService]
  simp only [heq, htake]
  split
  · next hlast =>
    refine .inr ⟨?_, hdigits⟩
    have hne : front ≠ [] := by
      rintro rfl
      cases hlast
    have hdrop := List.dropLast_append_getLast? ':' hlast
    rw [hhost]
    conv_lhs => rw [← hdrop]
    rw [List.append_assoc]
    rfl
  · exact .inl rfl

theorem join_append (sep u v : Text) (ls : List Text) : Text.join sep ((u ++ v) :: ls) = u ++ Text.join sep (v :: ls) := by
  cases ls with
  | nil => rw [Text.join_singleton, Text.join_singleton]
  | cons l ls => rw [Text.join_cons_cons, Text.join_cons_cons, List.append_assoc, List.append_assoc, List.append_assoc]

theorem cutBadLabel_join {labels good : List Text} {bad : Text} (h : cutBadLabel labels = some (good, bad)) :
    good ≠ [] ∧ Text.join ['.'] labels = Text.join ['.'] good ++ bad := by
  induction labels generalizing good bad with
  | nil => cases h
  | cons label labels ih =>
    rw [cutBadLabel] at h
    split at h
    · obtain ⟨⟨good, bad⟩, hgood, h⟩ := Option.map_eq_some_iff.1 h
      cases h
      obtain ⟨hne, hjoin⟩ := ih hgood
      have hlabels : labels ≠ [] := by
        rintro rfl
        cases hgood
      refine ⟨List.cons_ne_nil _ _, ?_⟩
      rw [Text.join_cons _ _ hlabels, Text.join_cons _ _ hne, hjoin, List.append_assoc, List.append_assoc, List.append_assoc]
    · cases h
      refine ⟨List.cons_ne_nil _ _, ?_⟩
      rw [Text.join_singleton, ← join_append]
      congr 2
      have hlead : (label.takeWhile isHostChar).take 63 <+: label :=
        (List.take_prefix _ _).trans (List.takeWhile_prefix _)
      exact (List.prefix_iff_eq_append.1 hlead).symm

/-- A host, the number of its service and what follows. -/
theorem shown_cutHost (h : cutHost t = (host, service, rest)) (hmark : ¬Punycode.mark <:+: t)
    (hhost : host' = host ∨ Punycode.toUnicode? host = some host') :
    Shown true t (hostText host' ++ (serviceText service ++ rest)) := by
  have hshow (hwithin : host <:+: t) : Shown true host (hostText host') := by
    refine shown_hostText ?_
    rcases hhost with rfl | hhost
    · exact .refl true _
    · exact Punycode.shown_toUnicode? (fun hm => hmark (hm.trans hwithin)) hhost
  unfold cutHost at h
  obtain ⟨front, hfront, hlead⟩ : ∃ front, (if (t.takeWhile (!endsHost ·)).getLast? = some ':' then
      (t.takeWhile (!endsHost ·)).dropLast else t.takeWhile (!endsHost ·)) = front ∧ front <+: t := by
    refine ⟨_, rfl, ?_⟩
    split
    · exact (List.dropLast_prefix _).trans (List.takeWhile_prefix _)
    · exact List.takeWhile_prefix _
  obtain ⟨after, rfl⟩ := hlead
  simp only [hfront, List.drop_left] at h
  -- the service, wherever it stands in what is shown
  obtain ⟨name, mark, digits, rfl, hcut, hservice⟩ : ∃ name mark digits : Text, front = name ++ mark ∧
      cutService front = (name, digits) ∧
      ∀ bad, Shown false (bad ++ mark ++ after) (serviceText digits ++ bad ++ after) := by
    rcases cutService_cases front with heq | ⟨heq, hdigits⟩
    · refine ⟨front, [], [], (List.append_nil _).symm, heq, fun bad => ?_⟩
      rw [List.append_nil]
      exact .refl false _
    · exact ⟨_, _, _, heq, rfl, fun bad => shown_service hdigits bad after⟩
  rw [hcut] at h
  dsimp only at h
  split at h
  · next hbrackets =>
    rw [Bool.and_eq_true, decide_eq_true_eq, decide_eq_true_eq] at hbrackets
    obtain ⟨inner, rfl⟩ : ∃ inner, name = '[' :: inner ++ [']'] := by
      obtain ⟨tail, rfl⟩ := List.head?_eq_some_iff.1 hbrackets.1
      obtain ⟨init, hinit⟩ := List.getLast?_eq_some_iff.1 hbrackets.2
      cases init with
      | nil => cases hinit
      | cons c init =>
        cases hinit
        exact ⟨init, rfl⟩
    obtain ⟨rfl, hrest⟩ := Prod.mk.inj h
    obtain ⟨rfl, rfl⟩ := Prod.mk.inj hrest
    have hinner : Shown true inner (hostText host') := by
      split at hshow
      · have hskip := (hshow List.nil_infix).skips inner
        rwa [show ([] : Text).tail.dropLast = [] from rfl, List.append_nil] at hskip
      · rw [show ('[' :: inner ++ [']']).tail.dropLast = inner by simp] at hshow
        exact hshow ⟨['['], ']' :: (mark ++ after), by simp⟩
    have htext : '[' :: inner ++ [']'] ++ mark ++ after = '[' :: (inner ++ ']' :: ([] ++ mark ++ after)) := by simp
    have hafter := hservice []
    rw [List.append_nil] at hafter
    rw [htext]
    exact .drop (by decide) (hinner.append (.drop (by decide) hafter.weaken))
  · have hplain (good bad : Text) (hname : name = good ++ bad)
        (h : ((if good.length > 255 then [] else good), digits, bad ++ after) = (host, service, rest)) :
        Shown true (name ++ mark ++ after) (hostText host' ++ (serviceText service ++ rest)) := by
      obtain ⟨rfl, hrest⟩ := Prod.mk.inj h
      obtain ⟨rfl, rfl⟩ := Prod.mk.inj hrest
      subst hname
      have hgood : Shown true good (hostText host') := by
        split at hshow
        · have hskip := (hshow List.nil_infix).skips good
          rwa [List.append_nil] at hskip
        · exact hshow ⟨[], bad ++ mark ++ after, by simp⟩
      have hwhole := hgood.append (hservice bad)
      rwa [List.append_assoc (serviceText digits), ← List.append_assoc good, ← List.append_assoc good] at hwhole
    cases hlabels : cutBadLabel (Text.splitOn '.' name) with
    | none =>
      rw [hlabels] at h
      exact hplain name [] (List.append_nil _).symm h
    | some r =>
      obtain ⟨good, bad⟩ := r
      obtain ⟨-, hjoin⟩ := cutBadLabel_join hlabels
      rw [Text.join_splitOn] at hjoin
      rw [hlabels] at h
      exact hplain _ bad hjoin h

/-! ## Whole targets -/

theorem withTail_text (target : LinkTarget) (t : Text) :
    (withTail target t).path ++ (withTail target t).query ++ (withTail target t).fragment = t := by
  have hcut (p : Char → Bool) (u : Text) : u.takeWhile p ++ u.drop (u.takeWhile p).length = u :=
    List.prefix_iff_eq_append.1 (List.takeWhile_prefix p)
  simp only [withTail, hcut]

theorem cutAuth_cases (t : Text) : (cutAuth t).1 = [] ∧ t = (cutAuth t).2 ∨ t = (cutAuth t).1 ++ '@' :: (cutAuth t).2 := by
  unfold cutAuth
  have hlead : t.takeWhile (fun c => c ≠ '/' && c ≠ '?' && c ≠ '#') <+: t := List.takeWhile_prefix _
  generalize t.takeWhile (fun c => c ≠ '/' && c ≠ '?' && c ≠ '#') = authority at hlead ⊢
  dsimp only
  split
  · next n hn =>
    right
    obtain ⟨i, hi, rfl⟩ := Option.map_eq_some_iff.1 hn
    obtain ⟨hlt, hat, -⟩ := List.findIdx?_eq_some_iff_getElem.1 hi
    rw [List.getElem_reverse, decide_eq_true_eq] at hat
    rw [List.length_reverse] at hlt
    have hplace : authority.length - 1 - i < authority.length := by omega
    have hget := hlead.getElem hplace
    rw [← hat, hget, ← List.drop_eq_getElem_cons, List.take_append_drop]
  · exact .inl ⟨rfl, rfl⟩

/-- The parts of a target put together, the host being read or left as it is. -/
theorem exists_toText (f : Text → Option Text) (target : LinkTarget) : ∃ host', (host' = target.host ∨ f target.host = some host') ∧
    toText (recodeHost f target) =
      target.front ++ (hostText host' ++ (serviceText target.service ++ (target.path ++ target.query ++ target.fragment))) := by
  unfold recodeHost
  dsimp only
  split
  · refine ⟨target.host, .inl rfl, ?_⟩
    simp only [toText, back, hostText, serviceText, List.append_assoc]
  · refine ⟨(f target.host).getD target.host, ?_, ?_⟩
    · cases f target.host with
      | none => exact .inl rfl
      | some host' => exact .inr rfl
    · simp only [toText, front, back, hostText, serviceText, List.append_assoc]

/-- What follows the scheme and the slashes. -/
theorem shown_authority (hmark : ¬Punycode.mark <:+: t) (hhost : (cutHost (cutAuth t).2).1 = host ∧
      (host' = host ∨ Punycode.toUnicode? host = some host')) :
    Shown true t ((if (cutAuth t).1.isEmpty then [] else (cutAuth t).1 ++ ['@']) ++
      (hostText host' ++ (serviceText (cutHost (cutAuth t).2).2.1 ++ (cutHost (cutAuth t).2).2.2))) := by
  obtain ⟨rfl, hhost⟩ := hhost
  have hafter (hwithin : (cutAuth t).2 <:+: t) : Shown true (cutAuth t).2
      (hostText host' ++ (serviceText (cutHost (cutAuth t).2).2.1 ++ (cutHost (cutAuth t).2).2.2)) :=
    shown_cutHost rfl (fun hm => hmark (hm.trans hwithin)) hhost
  rcases cutAuth_cases t with ⟨hnil, heq⟩ | heq
  · rw [hnil, List.isEmpty_nil, if_pos rfl, List.nil_append]
    conv => arg 2; rw [heq]
    exact hafter (heq ▸ List.infix_rfl)
  · have hwithin : (cutAuth t).2 <:+: t := by
      conv_rhs => rw [heq]
      exact ⟨(cutAuth t).1 ++ ['@'], [], by simp⟩
    generalize (cutAuth t).1 = auth at heq ⊢
    generalize (cutAuth t).2 = after at heq hafter hwithin ⊢
    subst heq
    split
    · next hempty =>
      rw [List.isEmpty_iff.1 hempty]
      exact .drop (by decide) (hafter hwithin)
    · rw [List.append_assoc]
      exact (Shown.refl true auth).append (.pass (by decide) (hafter hwithin))

theorem scheme?_eq_some {r : Text × Text} (h : scheme? t = some r) : ∃ scheme v, t = scheme ++ ':' :: v ∧ r = (scheme ++ [':'], v) := by
  unfold scheme? at h
  have hspan := List.takeWhile_append_dropWhile (p := isSchemeChar) (l := t)
  rw [List.span_eq_takeWhile_dropWhile] at h
  split at h
  · cases h
  · next scheme v _ heq =>
    cases h
    obtain ⟨hscheme, hrest⟩ := Prod.mk.inj heq
    rw [hscheme, hrest] at hspan
    exact ⟨scheme, v, hspan.symm, rfl⟩
  · cases h

/-- What follows the scheme and the slashes, the host being read or left as it is. -/
inductive Follows (f : Text → Option Text) (w : Text) : Text → Prop
  | same : Follows f w w
  | authority {host' : Text} (h : host' = (cutHost (cutAuth w).2).1 ∨ f (cutHost (cutAuth w).2).1 = some host') :
      Follows f w ((if (cutAuth w).1.isEmpty then [] else (cutAuth w).1 ++ ['@']) ++
        (hostText host' ++ (serviceText (cutHost (cutAuth w).2).2.1 ++ (cutHost (cutAuth w).2).2.2)))

/-- The parts of a target put together: scheme and slashes as they are, then what follows them. -/
theorem toText_cases {f : Text → Option Text} (hf : ∀ u, f [] = some u → u = []) (t : Text) : ∃ protocol slashes w x,
    Text.trim t = protocol ++ (slashes ++ w) ∧ (protocol = [] ∨ ∃ scheme, protocol = scheme ++ [':']) ∧
      (slashes = [] ∨ slashes = ['/', '/']) ∧ Follows f w x ∧ toText (recodeHost f (ofText t)) = protocol ++ (slashes ++ x) := by
  unfold ofText
  dsimp only
  generalize Text.trim t = u
  obtain ⟨protocol, v, rfl, hscheme, hprotocol⟩ : ∃ protocol v, u = protocol ++ v ∧ (scheme? u).getD ([], u) = (protocol, v) ∧
      (protocol = [] ∨ ∃ scheme, protocol = scheme ++ [':']) := by
    cases hscheme : scheme? u with
    | none => exact ⟨[], u, rfl, rfl, .inl rfl⟩
    | some r =>
      obtain ⟨scheme, v, hu, hr⟩ := scheme?_eq_some hscheme
      refine ⟨scheme ++ [':'], v, ?_, by rw [Option.getD_some, hr], .inr ⟨scheme, rfl⟩⟩
      rw [hu, List.append_assoc]
      rfl
  rw [hscheme]
  dsimp only
  obtain ⟨slashes, w, rfl, htwo, hslashes⟩ : ∃ (slashes : Bool) (w : Text), v = (if slashes then ['/', '/'] else []) ++ w ∧
      (Text.beginsWith v ['/', '/'] && !decide (protocol = hostlessScheme)) = slashes ∧
      (if slashes then v.drop 2 else v) = w := by
    refine ⟨_, _, ?_, rfl, rfl⟩
    split
    · next htwo =>
      rw [Bool.and_eq_true, Text.beginsWith_iff] at htwo
      obtain ⟨w, rfl⟩ := htwo.1
      rfl
    · rfl
  rw [htwo, hslashes]
  have hfront (target : LinkTarget) (hp : target.protocol = protocol) (hs : target.slashes = slashes) {x y : Text}
      (hx : (if target.auth.isEmpty then [] else target.auth ++ ['@']) ++ x = y) (hy : Follows f w y) :
      ∃ protocol' slashes' w' x', protocol ++ ((if slashes then ['/', '/'] else []) ++ w) = protocol' ++ (slashes' ++ w') ∧
        (protocol' = [] ∨ ∃ scheme, protocol' = scheme ++ [':']) ∧ (slashes' = [] ∨ slashes' = ['/', '/']) ∧
        Follows f w' x' ∧ target.front ++ x = protocol' ++ (slashes' ++ x') := by
    refine ⟨protocol, if slashes then ['/', '/'] else [], w, y, rfl, hprotocol, ?_, hy, ?_⟩
    · cases slashes
      · exact .inl rfl
      · exact .inr rfl
    · rw [LinkTarget.front, hp, hs, List.append_assoc, List.append_assoc, hx]
  by_cases hauthority : (!decide (protocol = hostlessScheme) && (Text.beginsWith ((if slashes then ['/', '/'] else []) ++ w) ['/', '/'] ||
      !List.isEmpty protocol && !slashedSchemes.contains protocol)) = true
  · rw [if_pos hauthority]
    obtain ⟨host', hhost, htext⟩ := exists_toText f
      (withTail ⟨protocol, slashes, (cutAuth w).1, (cutHost (cutAuth w).2).1, (cutHost (cutAuth w).2).2.1, [], [], []⟩
        (cutHost (cutAuth w).2).2.2)
    rw [htext, withTail_text]
    exact hfront _ rfl rfl rfl (.authority hhost)
  · rw [if_neg hauthority]
    obtain ⟨host', hhost, htext⟩ := exists_toText f (withTail ⟨protocol, slashes, [], [], [], [], [], []⟩ w)
    have hnil : host' = [] := hhost.elim id (hf host')
    rw [htext, withTail_text, hnil]
    exact hfront _ rfl rfl rfl .same

theorem toUnicode?_nil {u : Text} (h : Punycode.toUnicode? [] = some u) : u = [] := (Option.some.inj h).symm

/-- The parts of a target are put together with the placeholders that it holds. -/
theorem shown_toText (hmark : ¬Punycode.mark <:+: t) : Shown true t (toText (recodeHost Punycode.toUnicode? (ofText t))) := by
  obtain ⟨before, after, ht, -, hbefore, hafter⟩ := Text.exists_trim t
  obtain ⟨protocol, slashes, w, x, htrim, hprotocol, hslashes, hx, heq⟩ := toText_cases (fun _ => toUnicode?_nil) t
  have hshown : Shown true w x := by
    cases hx with
    | same => exact .refl true w
    | authority hhost =>
      refine shown_authority (fun hm => hmark ?_) ⟨rfl, hhost⟩
      exact hm.trans ⟨before ++ (protocol ++ slashes), after, by rw [ht, htrim]; simp only [List.append_assoc]⟩
  have hslash : Shown true (slashes ++ w) (slashes ++ x) := by
    rcases hslashes with rfl | rfl
    · exact hshown
    · exact .pass (by decide) (.pass (by decide) hshown)
  have hwhole : Shown true (Text.trim t) (protocol ++ (slashes ++ x)) := by
    rw [htrim]
    rcases hprotocol with rfl | ⟨scheme, rfl⟩
    · exact hslash
    · rw [List.append_assoc, List.append_assoc]
      exact (Shown.refl true scheme).append (.pass (by decide) hslash)
  have hend : Shown false after [] :=
    ⟨Kept.replace (v := []) (fun c hc => isLoose_of_isBlank (hafter c hc)) nofun false, fun _ => List.not_mem_nil⟩
  have h := (hwhole.append hend).skips before
  rwa [List.append_nil, ← List.append_assoc, ← ht, ← heq] at h

/-- A target is shown with the placeholders that it holds, in their order. -/
theorem kept_readable (hpercent : '%' ∉ t) (hmark : ¬Punycode.mark <:+: t) : Kept true t ((readable t).map some) := by
  have h := shown_toText hmark
  rw [readable, Url.decode_of_notMem (h.percent hpercent)]
  exact h.kept

end LinkTarget

/-! ## Whole placeholders in what is shown -/

section Whole
open Markup (Complete Placeless isPlace)

theorem Markup.isPlace_of_isLoose {c : Char} (h : isLoose c) : isPlace c = false :=
  Markup.isPlace_eq_false.2 ⟨Markup.ne_openPlace h, Markup.ne_closePlace h⟩

namespace Markup.Complete

variable {c : Char} {t u v : Text}

/-- At a mark a text is cut into texts with whole placeholders. -/
theorem mark (h : Complete (u ++ c :: v)) (hc : isLoose c) : Complete u ∧ Complete v := by
  obtain ⟨hu, hv⟩ := h.cut (by
    rintro _ ⟨⟩
    exact ⟨isDigit_of_isLoose hc, ne_closePlace hc⟩)
  exact ⟨hu, hv.tail (ne_openPlace hc)⟩

theorem loose (h : Complete t) (hc : isLoose c) : Complete (c :: t) := .char (isPlace_of_isLoose hc) h

theorem behind (hu : Placeless u) (h : Complete (u ++ v)) : Complete v := by
  induction u with
  | nil => exact h
  | cons c u ih =>
    obtain ⟨hc, hu⟩ := List.forall_mem_cons.1 hu
    refine ih hu (h.tail ?_)
    rintro rfl
    exact absurd hc (by decide)

theorem withStops (h : Complete t) : Complete (Punycode.withStops t) := by
  have hkeep {c : Char} (hc : isLoose c = false) : (if Punycode.isSeparator c then '.' else c) = c := by
    refine if_neg fun hsep => ?_
    rw [Punycode.isLoose_of_isSeparator hsep] at hc
    cases hc
  induction h with
  | nil => exact .nil
  | @char c t hc _ ih =>
    rw [Punycode.withStops, List.map_cons]
    split
    · exact .char (by decide) ih
    · exact .char hc ih
  | @place d t hd hne _ ih =>
    have hdigits : d.map (fun c => if Punycode.isSeparator c then '.' else c) = d := by
      refine (List.map_congr_left fun c hc => hkeep ?_).trans (List.map_id d)
      simp [isLoose, hd c hc]
    rw [Punycode.withStops, List.map_cons, List.map_append, List.map_cons, hdigits, hkeep (by decide), hkeep (by decide)]
    exact .place hd hne ih

theorem toUnicode? {host host' : Text} (h : Complete host) (hmark : ¬Punycode.mark <:+: host)
    (hhost : Punycode.toUnicode? host = some host') : Complete host' := by
  obtain rfl | ⟨user, domain, w, rfl, hw, rfl⟩ := Punycode.toUnicode?_cases hmark hhost
  · exact h.withStops
  · obtain ⟨huser, hrest⟩ := h.mark (by decide)
    refine huser.append (.loose (withStops ?_) (by decide))
    rcases hw with rfl | ⟨w, rfl⟩
    · rwa [List.append_nil] at hrest
    · exact (hrest.mark (by decide)).1

theorem splitOn (h : Complete t) (hc : isLoose c) : ∀ l ∈ Text.splitOn c t, Complete l := by
  induction hlength : t.length using Nat.strong_induction_on generalizing t with
  | h length ih =>
    subst hlength
    by_cases hmem : c ∈ t
    · obtain ⟨u, v, rfl, hu⟩ := List.eq_append_cons_of_mem hmem
      obtain ⟨hfirst, hrest⟩ := h.mark hc
      rw [Text.splitOn_append hu]
      refine List.forall_mem_cons.2 ⟨hfirst, ih v.length ?_ hrest rfl⟩
      simp only [List.length_append, List.length_cons]
      omega
    · rw [Text.splitOn_of_notMem hmem]
      exact List.forall_mem_singleton.2 h

theorem join {ls : List Text} (h : ∀ l ∈ ls, Complete l) : Complete (Text.join ['.'] ls) := by
  induction ls with
  | nil => exact .nil
  | cons l ls ih =>
    obtain ⟨hl, hls⟩ := List.forall_mem_cons.1 h
    cases ls with
    | nil => rwa [Text.join_singleton]
    | cons l' ls =>
      rw [Text.join_cons_cons, List.append_assoc]
      exact hl.append (.loose (ih hls) (by decide))

end Markup.Complete

namespace LinkTarget

variable {t host host' service rest : Text}

theorem complete_hostText (h : Complete host) : Complete (hostText host) := by
  unfold hostText
  split
  · exact .loose (h.append (.of_placeless (List.forall_mem_singleton.2 (by decide)))) (by decide)
  · exact h

theorem isPlace_of_isDigit {c : Char} (h : c.isDigit) : isPlace c = false := by
  refine Markup.isPlace_eq_false.2 ⟨?_, ?_⟩ <;>
  · rintro rfl
    exact absurd h (by decide)

theorem complete_serviceText (h : ∀ c ∈ service, c.isDigit) : Complete (serviceText service) := by
  unfold serviceText
  split
  · exact .nil
  · exact .loose (.of_placeless fun c hc => isPlace_of_isDigit (h c hc)) (by decide)

theorem complete_cutBadLabel {labels good : List Text} {bad : Text} (hlabels : ∀ l ∈ labels, Complete l)
    (h : cutBadLabel labels = some (good, bad)) : (∀ l ∈ good, Complete l) ∧ Complete bad := by
  induction labels generalizing good bad with
  | nil => cases h
  | cons label labels ih =>
    obtain ⟨hlabel, hlabels⟩ := List.forall_mem_cons.1 hlabels
    rw [cutBadLabel] at h
    split at h
    · obtain ⟨⟨good, bad⟩, hgood, h⟩ := Option.map_eq_some_iff.1 h
      cases h
      obtain ⟨hgood, hbad⟩ := ih hlabels hgood
      exact ⟨List.forall_mem_cons.2 ⟨hlabel, hgood⟩, hbad⟩
    · cases h
      have hlead : (label.takeWhile isHostChar).take 63 <+: label :=
        (List.take_prefix _ _).trans (List.takeWhile_prefix _)
      have hplaceless : Placeless ((label.takeWhile isHostChar).take 63) := fun c hc => by
        have hhost := List.mem_takeWhile_imp (List.mem_of_mem_take hc)
        refine Markup.isPlace_eq_false.2 ⟨?_, ?_⟩ <;>
        · rintro rfl
          exact absurd hhost (by decide)
      rw [← List.prefix_iff_eq_append.1 hlead] at hlabel
      exact ⟨List.forall_mem_singleton.2 (.of_placeless hplaceless),
        .join (List.forall_mem_cons.2 ⟨.behind hplaceless hlabel, hlabels⟩)⟩

theorem isLoose_of_endsHost {c : Char} (h : endsHost c) : isLoose c := by
  have hall : ∀ c ∈ "%/?;#'\x7b\x7d|\\^\x60<>\" \r\n\t".toList, isLoose c := by decide
  exact hall c (List.contains_iff_mem.1 h)

/-- What stands in front of the characters that end a host name, and of a colon before them. -/
theorem exists_hostRun (t : Text) : ∃ front after, (if (t.takeWhile (!endsHost ·)).getLast? = some ':' then
    (t.takeWhile (!endsHost ·)).dropLast else t.takeWhile (!endsHost ·)) = front ∧ t = front ++ after ∧
    ∀ c ∈ after.head?, isLoose c := by
  obtain ⟨run, rest, rfl, hrun, hrest⟩ := Text.exists_run (!endsHost ·) t
  have htake : (run ++ rest).takeWhile (!endsHost ·) = run := by
    rcases hrest with rfl | ⟨c, rest, rfl, hc⟩
    · rw [List.append_nil, Text.takeWhile_all hrun]
    · exact Text.takeWhile_run hrun hc
  rw [htake]
  split
  · next hlast =>
    have hcolon := List.dropLast_append_getLast? ':' hlast
    refine ⟨_, ':' :: rest, rfl, ?_, ?_⟩
    · conv_lhs => rw [← hcolon]
      rw [List.append_assoc]
      rfl
    · rintro _ ⟨⟩
      decide
  · refine ⟨_, rest, rfl, rfl, ?_⟩
    rcases hrest with rfl | ⟨c, rest, rfl, hc⟩
    · exact nofun
    · rintro _ ⟨⟩
      exact isLoose_of_endsHost (by simpa using hc)

theorem complete_cutHost (ht : Complete t) (h : cutHost t = (host, service, rest)) :
    (Complete host ∧ host <:+: t) ∧ Complete (serviceText service) ∧ Complete rest := by
  unfold cutHost at h
  obtain ⟨front, after, hfront, rfl, hafter⟩ := exists_hostRun t
  simp only [hfront, List.drop_left] at h
  obtain ⟨hhost, hrest⟩ := ht.cut fun c hc => ⟨Markup.isDigit_of_isLoose (hafter c hc), Markup.ne_closePlace (hafter c hc)⟩
  obtain ⟨name, digits, hcut, hname, hservice, hlead⟩ : ∃ name digits : Text, cutService front = (name, digits) ∧ Complete name ∧
      Complete (serviceText digits) ∧ name <+: front := by
    rcases cutService_cases front with heq | ⟨heq, hdigits⟩
    · exact ⟨front, [], heq, hhost, .nil, List.prefix_rfl⟩
    · have hmark := hhost
      rw [heq] at hmark
      exact ⟨_, _, rfl, (hmark.mark (by decide)).1, complete_serviceText hdigits, _, heq.symm⟩
  have hwithin : name <:+: front ++ after := (hlead.trans (List.prefix_append front after)).isInfix
  rw [hcut] at h
  dsimp only at h
  split at h
  · next hbrackets =>
    rw [Bool.and_eq_true, decide_eq_true_eq, decide_eq_true_eq] at hbrackets
    obtain ⟨inner, rfl⟩ : ∃ inner, name = '[' :: inner ++ [']'] := by
      obtain ⟨tail, rfl⟩ := List.head?_eq_some_iff.1 hbrackets.1
      obtain ⟨init, hinit⟩ := List.getLast?_eq_some_iff.1 hbrackets.2
      cases init with
      | nil => cases hinit
      | cons c init =>
        cases hinit
        exact ⟨init, rfl⟩
    obtain ⟨rfl, hrest'⟩ := Prod.mk.inj h
    obtain ⟨rfl, rfl⟩ := Prod.mk.inj hrest'
    refine ⟨?_, hservice, hrest⟩
    split
    · exact ⟨.nil, List.nil_infix⟩
    · rw [show ('[' :: inner ++ [']']).tail.dropLast = inner by simp]
      refine ⟨((hname.tail (by decide)).mark (by decide)).1, List.IsInfix.trans ⟨['['], [']'], by simp⟩ hwithin⟩
  · have hplain (good bad : Text) (hsplit : name = good ++ bad) (hgood : Complete good) (hbad : Complete bad)
        (h : ((if good.length > 255 then [] else good), digits, bad ++ after) = (host, service, rest)) :
        (Complete host ∧ host <:+: front ++ after) ∧ Complete (serviceText service) ∧ Complete rest := by
      obtain ⟨rfl, hrest'⟩ := Prod.mk.inj h
      obtain ⟨rfl, rfl⟩ := Prod.mk.inj hrest'
      refine ⟨?_, hservice, hbad.append hrest⟩
      split
      · exact ⟨.nil, List.nil_infix⟩
      · exact ⟨hgood, List.IsInfix.trans (hsplit ▸ (List.prefix_append good bad).isInfix) hwithin⟩
    cases hlabels : cutBadLabel (Text.splitOn '.' name) with
    | none =>
      rw [hlabels] at h
      exact hplain name [] (List.append_nil _).symm hname .nil h
    | some r =>
      obtain ⟨good, bad⟩ := r
      obtain ⟨hgood, hbad⟩ := complete_cutBadLabel (hname.splitOn (by decide)) hlabels
      obtain ⟨-, hjoin⟩ := cutBadLabel_join hlabels
      rw [Text.join_splitOn] at hjoin
      rw [hlabels] at h
      exact hplain _ bad hjoin (.join hgood) hbad h

theorem complete_follows {w x : Text} (hw : Complete w) (hmark : ¬Punycode.mark <:+: w)
    (h : Follows Punycode.toUnicode? w x) : Complete x := by
  cases h with
  | same => exact hw
  | @authority host' hhost =>
    obtain ⟨hauth, hafter, hwithin⟩ : Complete (if (cutAuth w).1.isEmpty then [] else (cutAuth w).1 ++ ['@']) ∧
        Complete (cutAuth w).2 ∧ (cutAuth w).2 <:+: w := by
      rcases cutAuth_cases w with ⟨hnil, heq⟩ | heq
      · rw [hnil]
        exact ⟨.nil, heq ▸ hw, by conv_rhs => rw [heq]⟩
      · have hparts := hw
        rw [heq] at hparts
        obtain ⟨hauth, hafter⟩ := hparts.mark (by decide)
        refine ⟨?_, hafter, ?_⟩
        · split
          · exact .nil
          · exact hauth.append (.of_placeless (List.forall_mem_singleton.2 (by decide)))
        · conv_rhs => rw [heq]
          exact ⟨(cutAuth w).1 ++ ['@'], [], by simp⟩
    obtain ⟨⟨hcut, hstands⟩, hservice, hrest⟩ := complete_cutHost (t := (cutAuth w).2) hafter rfl
    have hhost' : Complete host' := by
      rcases hhost with rfl | hhost
      · exact hcut
      · exact hcut.toUnicode? (fun hm => hmark ((hm.trans hstands).trans hwithin)) hhost
    exact hauth.append ((complete_hostText hhost').append (hservice.append hrest))

/-- A target is shown with whole placeholders. -/
theorem complete_readable (ht : Complete t) (hpercent : '%' ∉ t) (hmark : ¬Punycode.mark <:+: t) : Complete (readable t) := by
  rw [readable, Url.decode_of_notMem ((shown_toText hmark).percent hpercent)]
  obtain ⟨before, after, hsplit, -, hbefore, hafter⟩ := Text.exists_trim t
  obtain ⟨protocol, slashes, w, x, htrim, hprotocol, hslashes, hx, heq⟩ := toText_cases (fun _ => toUnicode?_nil) t
  have hblank {u : Text} (hu : ∀ b ∈ u, Text.isBlank b) : Placeless u := fun c hc =>
    Markup.isPlace_of_isLoose (isLoose_of_isBlank (hu c hc))
  have hmark' : ¬Punycode.mark <:+: w := fun hm =>
    hmark (hm.trans ⟨before ++ (protocol ++ slashes), after, by rw [hsplit, htrim]; simp only [List.append_assoc]⟩)
  have htext : Complete (Text.trim t) := by
    rw [hsplit, List.append_assoc] at ht
    refine ((Complete.behind (hblank hbefore) ht).cut fun c hc => ?_).1
    have hloose := isLoose_of_isBlank (hafter c (List.mem_of_mem_head? hc))
    exact ⟨Markup.isDigit_of_isLoose hloose, Markup.ne_closePlace hloose⟩
  rw [htrim] at htext
  have hslashed : Placeless slashes := by
    rcases hslashes with rfl | rfl
    · exact List.forall_mem_nil _
    · exact List.forall_mem_cons.2 ⟨rfl, List.forall_mem_singleton.2 rfl⟩
  obtain ⟨hfront, hrest⟩ : Complete protocol ∧ Complete (slashes ++ w) := by
    rcases hprotocol with rfl | ⟨scheme, rfl⟩
    · exact ⟨.nil, htext⟩
    · rw [List.append_assoc] at htext
      obtain ⟨hscheme, hrest⟩ := htext.mark (by decide)
      exact ⟨hscheme.append (.of_placeless (List.forall_mem_singleton.2 (by decide))), hrest⟩
  rw [heq]
  exact hfront.append ((Complete.of_placeless hslashed).append (complete_follows (.behind hslashed hrest) hmark' hx))

end LinkTarget

end Whole
end Narration
