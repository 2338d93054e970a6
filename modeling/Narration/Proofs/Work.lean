import Narration.Proofs.Fallible
import Narration.Studio

/-!
# Laws of work

* `Work.after` : the result of a step and the studio after it;
* `Work.bind_eq_ok` : a sequence of steps succeeds when all of them do;
* `Work.Keeps` : what a step leaves as it is, whether it fails or not;
* `Work.Consults` : steps that ask the files and change nothing but the warnings;
* `Work.Requests` : what a step asks the store, whether it fails or not.
-/

namespace Narration.Work

variable {α β γ : Type} {w : Work α} {f : α → Work β} {σ τ : Studio}

/-- The result of a step, and the studio after it. -/
abbrev after (w : Work α) (σ : Studio) : Except Failure α × Studio := w.run.run σ

theorem after_bind (w : Work α) (f : α → Work β) (σ : Studio) :
    (w >>= f).after σ = match w.after σ with
      | (.ok a, τ) => (f a).after τ
      | (.error e, τ) => (.error e, τ) := by
  change (do let r ← w.run; ExceptT.bindCont f r : StateM Studio _).run σ = _
  rw [StateT.run_bind]
  rcases h : w.after σ with ⟨_ | a, τ⟩ <;> simp only [h] <;> rfl

theorem bind_eq_ok {b : β} : (w >>= f).after σ = (.ok b, τ) ↔
    ∃ a ρ, w.after σ = (.ok a, ρ) ∧ (f a).after ρ = (.ok b, τ) := by
  rw [after_bind]
  rcases w.after σ with ⟨e | a, ρ⟩
  · exact ⟨fun h => (nomatch congrArg Prod.fst h), fun ⟨_, _, h, _⟩ => nomatch congrArg Prod.fst h⟩
  · refine ⟨fun h => ⟨a, ρ, rfl, h⟩, fun ⟨_, _, h, hf⟩ => ?_⟩
    cases h
    exact hf

@[simp] theorem after_pure (a : α) : (pure a : Work α).after σ = (.ok a, σ) := rfl

@[simp] theorem after_throw (e : Failure) : (throw e : Work α).after σ = (.error e, σ) := rfl

theorem after_tryCatch (w : Work α) (handle : Failure → Work α) (σ : Studio) :
    (tryCatch w handle).after σ = match w.after σ with
      | (.ok a, τ) => (.ok a, τ)
      | (.error e, τ) => (handle e).after τ := by
  change StateT.run (ExceptT.tryCatch w handle) σ = _
  rcases h : w.after σ with ⟨e | a, τ⟩
  all_goals
    rw [ExceptT.tryCatch, ExceptT.mk, StateT.run_bind, show StateT.run w σ = _ from h]
    rfl

theorem after_ofExcept {ε : Type} (wrap : ε → Failure) (x : Except ε α) :
    (ofExcept wrap x).after σ = (x.mapError wrap, σ) := by cases x <;> rfl

theorem after_ofReport (r : Report α) : (ofReport r).after σ =
    (r.outcome.1.mapError .markup, { σ with warnings := σ.warnings ++ r.outcome.2 }) :=
  after_ofExcept .markup r.outcome.1

theorem after_ofStore (action : Store.Action α) (σ : Studio) : (ofStore action).after σ =
    ((Fallible.after action σ.store).1.mapError .store, { σ with store := (Fallible.after action σ.store).2 }) :=
  after_ofExcept .store (Fallible.after action σ.store).1

theorem after_read (directory path : Text) : (read directory path).after σ =
    ((Documents.read σ.files directory path).mapError .document, σ) :=
  after_ofExcept .document (Documents.read σ.files directory path)

theorem ofReport_eq_ok {r : Report α} {a : α} : (ofReport r).after σ = (.ok a, τ) ↔
    r.outcome.1 = .ok a ∧ τ = { σ with warnings := σ.warnings ++ r.outcome.2 } := by
  rw [after_ofReport, Prod.mk.injEq, Fallible.mapError_eq_ok]
  exact and_congr_right fun _ => eq_comm

theorem read_eq_ok {directory path t : Text} : (read directory path).after σ = (.ok t, τ) ↔
    Documents.read σ.files directory path = .ok t ∧ τ = σ := by
  rw [after_read, Prod.mk.injEq, Fallible.mapError_eq_ok]
  exact and_congr_right fun _ => eq_comm

theorem files_of_write {directory path t : Text} (h : (write directory path t).after σ = (.ok (), τ)) :
    Documents.write σ.files directory path t = .ok τ.files := by
  obtain ⟨_, _, hget, h₁⟩ := bind_eq_ok.1 h
  cases hget
  obtain ⟨files, ρ, hwrite, h₂⟩ := bind_eq_ok.1 h₁
  rw [after_ofExcept, Prod.mk.injEq, Fallible.mapError_eq_ok] at hwrite
  cases h₂
  exact hwrite.1

theorem after_say (line : Text) :
    (say line).after σ = (.ok (), { σ with output := σ.output ++ line ++ ['\n'] }) := rfl

/-! ## What steps leave as it is -/

/-- A step leaves some part of the studio as it is. -/
def Keeps (part : Studio → γ) (w : Work α) : Prop := ∀ σ, part (w.after σ).2 = part σ

namespace Keeps
variable {part : Studio → γ}

theorem pure (a : α) : Keeps part (Pure.pure a : Work α) := fun _ => rfl

theorem throw (e : Failure) : Keeps part (MonadExcept.throw e : Work α) := fun _ => rfl

theorem bind (hw : Keeps part w) (hf : ∀ a, Keeps part (f a)) : Keeps part (w >>= f) := by
  intro σ
  have h := hw σ
  rw [after_bind]
  rcases hr : w.after σ with ⟨e | a, τ⟩
  · rwa [hr] at h
  · rw [hr] at h
    exact (hf a τ).trans h

theorem modify {g : Studio → Studio} (h : ∀ σ, part (g σ) = part σ) :
    Keeps part (modify g : Work Unit) := h

theorem get : Keeps part (MonadState.get : Work Studio) := fun _ => rfl

theorem ofExcept {ε : Type} (wrap : ε → Failure) (x : Except ε α) : Keeps part (Work.ofExcept wrap x) := by
  cases x <;> exact fun _ => rfl

theorem tryCatch {handle : Failure → Work α} (hw : Keeps part w) (hh : ∀ e, Keeps part (handle e)) :
    Keeps part (MonadExcept.tryCatch w handle) := by
  intro σ
  have h := hw σ
  rw [after_tryCatch]
  rcases hr : w.after σ with ⟨e | a, τ⟩
  · rw [hr] at h
    exact (hh e τ).trans h
  · rwa [hr] at h

theorem say {part : Studio → γ} (line : Text)
    (h : ∀ σ output, part { σ with output } = part σ) : Keeps part (Work.say line) := fun σ => h σ _

theorem ofReport {r : Report α} (h : ∀ σ warnings, part { σ with warnings } = part σ) :
    Keeps part (Work.ofReport r) := fun σ => by
  rw [after_ofReport]
  exact h σ _

theorem map {g : α → β} (hw : Keeps part w) : Keeps part (g <$> w) := by
  rw [← bind_pure_comp]
  exact hw.bind fun a => pure (g a)

theorem mapM {l : List α} (hf : ∀ a, Keeps part (f a)) : Keeps part (l.mapM f) := by
  induction l with
  | nil => exact pure []
  | cons a l ih =>
    rw [List.mapM_cons]
    exact (hf a).bind fun b => ih.bind fun bs => pure (b :: bs)

end Keeps

/-! ## Steps that consult the files -/

/-- On these files a step gives a certain result and changes nothing but the warnings. -/
def Consults (files : Files) (w : Work α) (x : Except Failure α) : Prop :=
  ∀ σ : Studio, σ.files = files → ∃ warnings, w.after σ = (x, { σ with warnings })

namespace Consults
variable {files : Files} {x : Except Failure α} {g : α → Except Failure β}

theorem pure (a : α) : Consults files (Pure.pure a) (.ok a) := fun σ _ => ⟨σ.warnings, rfl⟩

theorem bind (hw : Consults files w x) (hf : ∀ a, Consults files (f a) (g a)) : Consults files (w >>= f) (x >>= g) := by
  intro σ hσ
  obtain ⟨warnings, hafter⟩ := hw σ hσ
  rw [after_bind, hafter]
  cases x with
  | error e => exact ⟨warnings, rfl⟩
  | ok a => exact hf a { σ with warnings } hσ

theorem ofExcept {ε : Type} (wrap : ε → Failure) (x : Except ε α) : Consults files (Work.ofExcept wrap x) (x.mapError wrap) :=
  fun σ _ => ⟨σ.warnings, after_ofExcept wrap x⟩

theorem ofReport (r : Report α) : Consults files (Work.ofReport r) (r.outcome.1.mapError .markup) :=
  fun _ _ => ⟨_, after_ofReport r⟩

theorem read (directory path : Text) : Consults files (Work.read directory path)
    ((Documents.read files directory path).mapError .document) := by
  rintro σ rfl
  exact ⟨σ.warnings, after_read directory path⟩

theorem map {h : α → β} (hw : Consults files w x) : Consults files (h <$> w) (x >>= fun a => .ok (h a)) := by
  rw [← bind_pure_comp]
  exact hw.bind fun a => pure (h a)

theorem discard (hw : Consults files w x) : Consults files (Functor.discard w) (x >>= fun _ => .ok ()) := by
  rw [Functor.discard, map_const]
  exact hw.map

theorem mapM {as : List α} (h : ∀ a ∈ as, Consults files (f a) (g a)) : Consults files (as.mapM f) (as.mapM g) := by
  induction as with
  | nil => exact pure []
  | cons a as ih =>
    obtain ⟨ha, has⟩ := List.forall_mem_cons.1 h
    rw [List.mapM_cons, List.mapM_cons]
    exact ha.bind fun b => (ih has).bind fun bs => pure (b :: bs)

end Consults

/-! ## What steps ask the store -/

/-- What a step asks the store is of a certain kind; the requests made before stay. -/
def Requests (P : Store.Request → Prop) (w : Work α) : Prop :=
  ∀ σ, ∃ made, (w.after σ).2.store.requests = σ.store.requests ++ made ∧ ∀ r ∈ made, P r

namespace Requests
variable {P Q : Store.Request → Prop}

theorem of_keeps (h : Keeps Studio.store w) : Requests P w := fun σ => ⟨[], by rw [h σ, List.append_nil], nofun⟩

theorem imp (hw : Requests P w) (h : ∀ r, P r → Q r) : Requests Q w := fun σ =>
  have ⟨made, hmade, hP⟩ := hw σ
  ⟨made, hmade, fun r hr => h r (hP r hr)⟩

/-- One step after another, the second from the studio that the first leaves. -/
theorem next (hw : Requests P w) {w' : Work β} (hw' : Requests P w') (σ : Studio) :
    ∃ made, (w'.after (w.after σ).2).2.store.requests = σ.store.requests ++ made ∧ ∀ r ∈ made, P r := by
  obtain ⟨first, hfirst, hP⟩ := hw σ
  obtain ⟨second, hsecond, hP'⟩ := hw' (w.after σ).2
  refine ⟨first ++ second, by rw [hsecond, hfirst, List.append_assoc], fun r hr => ?_⟩
  exact (List.mem_append.1 hr).elim (hP r) (hP' r)

theorem bind (hw : Requests P w) (hf : ∀ a, Requests P (f a)) : Requests P (w >>= f) := by
  intro σ
  rw [after_bind]
  rcases hr : w.after σ with ⟨e | a, τ⟩
  · simpa only [hr] using hw σ
  · simpa only [hr] using hw.next (hf a) σ

theorem ofExcept_bind {ε : Type} {wrap : ε → Failure} {x : Except ε α} (hf : ∀ a, x = .ok a → Requests P (f a)) :
    Requests P (Work.ofExcept wrap x >>= f) := by
  cases x with
  | error e => exact of_keeps fun _ => rfl
  | ok a => exact hf a rfl

theorem tryCatch {handle : Failure → Work α} (hw : Requests P w) (hh : ∀ e, Requests P (handle e)) :
    Requests P (MonadExcept.tryCatch w handle) := by
  intro σ
  rw [after_tryCatch]
  rcases hr : w.after σ with ⟨e | a, τ⟩
  · simpa only [hr] using hw.next (hh e) σ
  · simpa only [hr] using hw σ

theorem map {g : α → β} (hw : Requests P w) : Requests P (g <$> w) := by
  rw [← bind_pure_comp]
  exact hw.bind fun a => of_keeps (.pure (g a))

theorem mapM {l : List α} (hf : ∀ a ∈ l, Requests P (f a)) : Requests P (l.mapM f) := by
  induction l with
  | nil => exact of_keeps (.pure [])
  | cons a l ih =>
    obtain ⟨ha, hl⟩ := List.forall_mem_cons.1 hf
    rw [List.mapM_cons]
    exact ha.bind fun b => (ih hl).bind fun bs => of_keeps (.pure (b :: bs))

end Requests
end Narration.Work
