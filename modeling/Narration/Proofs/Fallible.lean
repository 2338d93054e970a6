import Mathlib.Data.List.Forall2

/-!
# Computations that may fail

* `Fallible.bind_eq_ok`, `Fallible.mem_mapM` : a sequence succeeds when all of its parts do;
* `Fallible.after_bind`, `Fallible.after_bind_pure` : sequences of steps with a state;
* `Fallible.Yields` : whatever a sequence of steps gives has some property;
* `Fallible.Avoids` : a computation that does not fail in a given way;
* `Fallible.Agree` : two computations with the same error or with related results.
-/

namespace Narration.Fallible

variable {ε α β : Type} {e : ε} {x : Except ε α} {f : α → Except ε β}

theorem bind_eq_ok {b : β} : x >>= f = .ok b ↔ ∃ a, x = .ok a ∧ f a = .ok b := by
  cases x with
  | error e => exact ⟨nofun, fun ⟨_, h, _⟩ => nomatch h⟩
  | ok a => exact ⟨fun h => ⟨a, rfl, h⟩, fun ⟨_, h, hf⟩ => Except.ok.inj h ▸ hf⟩

theorem pure_eq_ok {a b : α} : (pure a : Except ε α) = .ok b ↔ a = b := ⟨Except.ok.inj, congrArg _⟩

theorem map_eq_ok {g : α → β} {b : β} : x.map g = .ok b ↔ ∃ a, x = .ok a ∧ g a = b := by
  cases x with
  | error e => exact ⟨nofun, fun ⟨_, h, _⟩ => nomatch h⟩
  | ok a => exact ⟨fun h => ⟨a, rfl, Except.ok.inj h⟩, fun ⟨_, h, hg⟩ => congrArg _ (Except.ok.inj h ▸ hg)⟩

theorem mapError_eq_ok {ε' : Type} {wrap : ε → ε'} {a : α} : x.mapError wrap = .ok a ↔ x = .ok a := by
  cases x with
  | error e => exact ⟨nofun, nofun⟩
  | ok b => exact ⟨fun h => congrArg _ (Except.ok.inj h), fun h => congrArg _ (Except.ok.inj h)⟩

theorem toOption_eq_some {a : α} : x.toOption = some a ↔ x = .ok a := by
  cases x with
  | error e => exact ⟨nofun, nofun⟩
  | ok b => exact ⟨fun h => congrArg _ (Option.some.inj h), fun h => congrArg _ (Except.ok.inj h)⟩

theorem exists_of_any {p : α → Bool} (h : x.toOption.any p) : ∃ a, x = .ok a ∧ p a := by
  obtain ⟨a, ha, hp⟩ := Option.any_eq_true _ _ |>.1 h
  exact ⟨a, toOption_eq_some.1 ha, hp⟩

/-- What is in the results of several computations is the result of one of them. -/
theorem mem_mapM {g : α → Except ε β} {as : List α} {bs : List β} {b : β} (h : as.mapM g = .ok bs) : b ∈ bs ↔ ∃ a ∈ as, g a = .ok b := by
  induction as generalizing bs with
  | nil =>
    cases h
    simp
  | cons a as ih =>
    rw [List.mapM_cons] at h
    obtain ⟨c, ha, h⟩ := bind_eq_ok.1 h
    obtain ⟨cs, has, h⟩ := bind_eq_ok.1 h
    cases h
    rw [List.mem_cons, List.exists_mem_cons_iff, ha, ih has, Except.ok.injEq, eq_comm]

theorem exists_ok_of_mapM {g : α → Except ε β} {as : List α} {bs : List β} (h : as.mapM g = .ok bs) : ∀ a ∈ as, ∃ b, g a = .ok b := by
  induction as generalizing bs with
  | nil => simp
  | cons a as ih =>
    rw [List.mapM_cons] at h
    obtain ⟨c, ha, h⟩ := bind_eq_ok.1 h
    obtain ⟨cs, has, -⟩ := bind_eq_ok.1 h
    exact List.forall_mem_cons.2 ⟨⟨c, ha⟩, ih has⟩

theorem exists_mapM {g : α → Except ε β} {as : List α} (h : ∀ a ∈ as, ∃ b, g a = .ok b) : ∃ bs, as.mapM g = .ok bs := by
  induction as with
  | nil => exact ⟨[], rfl⟩
  | cons a as ih =>
    obtain ⟨⟨b, hb⟩, has⟩ := List.forall_mem_cons.1 h
    obtain ⟨bs, hbs⟩ := ih has
    rw [List.mapM_cons]
    exact ⟨b :: bs, bind_eq_ok.2 ⟨b, hb, bind_eq_ok.2 ⟨bs, hbs, rfl⟩⟩⟩

/-- A sequence of computations fails when one of them does. -/
theorem exists_error_of_mapM {g : α → Except ε β} {as : List α} (h : as.mapM g = .error e) :
    ∃ a ∈ as, g a = .error e := by
  induction as with
  | nil => cases h
  | cons a as ih =>
    rw [List.mapM_cons] at h
    cases ha : g a with
    | error d =>
      rw [ha] at h
      cases h
      exact ⟨a, List.mem_cons_self, ha⟩
    | ok b =>
      cases has : as.mapM g with
      | error d =>
        rw [ha, has] at h
        cases h
        obtain ⟨c, hc, he⟩ := ih has
        exact ⟨c, List.mem_cons_of_mem a hc, he⟩
      | ok bs =>
        rw [ha, has] at h
        cases h

/-- The result of a step with a state, and the state after it. -/
abbrev after {σ : Type} (w : ExceptT ε (StateM σ) α) (s : σ) : Except ε α × σ := w.run.run s

/-- The second of two steps starts where the first leaves off, unless that fails. -/
theorem after_bind {σ : Type} (w : ExceptT ε (StateM σ) α) (f : α → ExceptT ε (StateM σ) β) (s : σ) :
    after (w >>= f) s = match after w s with
      | (.ok a, t) => after (f a) t
      | (.error e, t) => (.error e, t) := by
  change (do let r ← w.run; ExceptT.bindCont f r : StateM σ _).run s = _
  rw [StateT.run_bind]
  rcases h : after w s with ⟨_ | a, t⟩ <;> simp only [h] <;> rfl

/-- The second of two steps only makes something of the result of the first. -/
theorem after_bind_pure {σ : Type} (w : ExceptT ε (StateM σ) α) {f : α → ExceptT ε (StateM σ) β} {g : α → β} {s : σ}
    (h : ∀ a, (after w s).1 = .ok a → f a = pure (g a)) : (after (w >>= f) s).1 = (after w s).1.map g := by
  rw [after_bind]
  rcases hw : after w s with ⟨_ | a, t⟩
  · rfl
  · rw [hw] at h
    dsimp only
    rw [h a rfl]
    rfl

/-- Whatever the computation gives has this property. -/
def Yields {σ : Type} (P : α → Prop) (w : ExceptT ε (StateM σ) α) : Prop := ∀ s a, (after w s).1 = .ok a → P a

namespace Yields
variable {σ : Type} {P : α → Prop} {Q : β → Prop} {w : ExceptT ε (StateM σ) α} {f g : α → ExceptT ε (StateM σ) β}

theorem pure {a : α} (h : P a) : Yields P (Pure.pure a : ExceptT ε (StateM σ) α) := fun _ _ hr => Except.ok.inj hr ▸ h

theorem trivial (w : ExceptT ε (StateM σ) α) : Yields (fun _ => True) w := fun _ _ _ => True.intro

theorem bind (hw : Yields P w) (hf : ∀ a, P a → Yields Q (f a)) : Yields Q (w >>= f) := by
  intro s b hb
  rw [after_bind] at hb
  rcases hr : after w s with ⟨e | a, t⟩
  · rw [hr] at hb
    cases hb
  · rw [hr] at hb
    exact hf a (hw s a (congrArg Prod.fst hr)) t b hb

/-- What follows matters only for what the computation can give. -/
theorem bind_congr (hw : Yields P w) (h : ∀ a, P a → f a = g a) : w >>= f = w >>= g := by
  refine funext fun s => ?_
  change after (w >>= f) s = after (w >>= g) s
  rw [after_bind, after_bind]
  rcases hr : after w s with ⟨e | a, t⟩
  · rfl
  · exact congrFun (congrArg ExceptT.run (h a (hw s a (congrArg Prod.fst hr)))) t

end Yields

/-- The computation does not fail with this error. -/
def Avoids (e : ε) (x : Except ε α) : Prop := x ≠ .error e

theorem Avoids.ok (a : α) : Avoids e (.ok a) := nofun

theorem Avoids.error {d : ε} (h : e ≠ d) : Avoids e (.error d : Except ε α) := fun hd => h (Except.error.inj hd).symm

theorem Avoids.pure (a : α) : Avoids e (Pure.pure a : Except ε α) := nofun

theorem Avoids.bind (hx : Avoids e x) (hf : ∀ a, x = .ok a → Avoids e (f a)) : Avoids e (x >>= f) := by
  cases x with
  | error d => exact fun h => hx (by cases h; rfl)
  | ok a => exact hf a rfl

theorem Avoids.map {g : α → β} (hx : Avoids e x) : Avoids e (g <$> x) := by
  cases x with
  | error d => exact fun h => hx (by cases h; rfl)
  | ok a => exact nofun

theorem Avoids.mapM {γ : Type} {g : γ → Except ε β} {l : List γ} (h : ∀ c ∈ l, Avoids e (g c)) :
    Avoids e (l.mapM g) := by
  induction l with
  | nil => exact .pure []
  | cons c l ih =>
    rw [List.mapM_cons]
    refine .bind (h c List.mem_cons_self) fun b _ => ?_
    exact .bind (ih fun d hd => h d (List.mem_cons_of_mem c hd)) fun bs _ => .pure (b :: bs)

/-! ## Two computations -/

/-- Two computations end with the same error, or with related results. -/
def Agree {α' : Type} (R : α → α' → Prop) : Except ε α → Except ε α' → Prop
  | .ok a, .ok a' => R a a'
  | .error e, .error e' => e = e'
  | _, _ => False

namespace Agree
variable {α' β' : Type} {R : α → α' → Prop} {S : β → β' → Prop} {x' : Except ε α'} {f' : α' → Except ε β'}

theorem ok {a : α} {a' : α'} (h : R a a') : Agree R (.ok a : Except ε α) (.ok a') := h

theorem pure {a : α} {a' : α'} (h : R a a') : Agree R (Pure.pure a : Except ε α) (Pure.pure a') := h

theorem error (e : ε) : Agree R (.error e) (.error e) := rfl

theorem refl (x : Except ε α) : Agree Eq x x := by
  cases x <;> rfl

theorem ite {c : Prop} [Decidable c] {y : Except ε α} {y' : Except ε α'} (hx : c → Agree R x x')
    (hy : ¬c → Agree R y y') : Agree R (if c then x else y) (if c then x' else y') := by
  split
  · next hc => exact hx hc
  · next hc => exact hy hc

theorem bind (hx : Agree R x x') (hf : ∀ a a', R a a' → Agree S (f a) (f' a')) :
    Agree S (x >>= f) (x' >>= f') := by
  cases x with
  | error e =>
    cases x' with
    | error e' => exact hx
    | ok a' => exact hx.elim
  | ok a =>
    cases x' with
    | error e' => exact hx.elim
    | ok a' => exact hf a a' hx

theorem map {g : α → β} {g' : α' → β'} (hx : Agree R x x') (hg : ∀ a a', R a a' → S (g a) (g' a')) :
    Agree S (x.map g) (x'.map g') := by
  cases x with
  | error e =>
    cases x' with
    | error e' => exact hx
    | ok a' => exact hx.elim
  | ok a =>
    cases x' with
    | error e' => exact hx.elim
    | ok a' => exact hg a a' hx

theorem exists_ok {a : α} (h : Agree R x x') (hx : x = .ok a) : ∃ a', x' = .ok a' ∧ R a a' := by
  subst hx
  cases x' with
  | error e' => exact h.elim
  | ok a' => exact ⟨a', rfl, h⟩

theorem exists_ok_left {a' : α'} (h : Agree R x x') (hx : x' = .ok a') : ∃ a, x = .ok a ∧ R a a' := by
  subst hx
  cases x with
  | error e => exact h.elim
  | ok a => exact ⟨a, rfl, h⟩

theorem mapM {γ γ' : Type} {T : γ → γ' → Prop} {g : γ → Except ε α} {g' : γ' → Except ε α'} {l : List γ}
    {l' : List γ'} (h : List.Forall₂ T l l') (hg : ∀ c c', T c c' → Agree R (g c) (g' c')) :
    Agree (List.Forall₂ R) (l.mapM g) (l'.mapM g') := by
  induction h with
  | nil => exact .pure .nil
  | cons hc _ ih =>
    rw [List.mapM_cons, List.mapM_cons]
    refine .bind (hg _ _ hc) fun a a' ha => ?_
    exact .bind ih fun as as' has => .pure (.cons ha has)

end Agree
end Narration.Fallible
