import Reanalysis.Harness.Workflow

/-!
# Actions that come to a result

`Gives x w a w'` says that the action `x` takes the state `w` to `w'` and returns `a`. An action that
is put together from others gives a result exactly when each of them does.
-/

namespace Reanalysis

variable {ε σ α β : Type}

def Gives (x : ExceptT ε (StateM σ) α) (w : σ) (a : α) (w' : σ) : Prop := x.run.run w = (.ok a, w')

namespace Gives

variable {w w' : σ} {a b : α}

theorem unique {x : ExceptT ε (StateM σ) α} {w'' : σ} (h : Gives x w a w') (h' : Gives x w b w'') :
    a = b := by
  rw [Gives, h] at h'
  cases h'
  rfl

theorem exists_of_isOk {x : ExceptT ε (StateM σ) α} (h : (x.run.run w).1.isOk = true) :
    ∃ a, Gives x w a (x.run.run w).2 := by
  rcases hRun : x.run.run w with ⟨e | a, w'⟩
  · rw [hRun] at h
    cases h
  · exact ⟨a, hRun⟩

theorem of_toOption {x : ExceptT ε (StateM σ) α} (h : (x.run.run w).1.toOption = some a) :
    Gives x w a (x.run.run w).2 := by
  rcases hRun : x.run.run w with ⟨e | b, w'⟩
  · rw [hRun] at h
    cases h
  · rw [hRun] at h
    cases h
    exact hRun

theorem exists_of_any {x : ExceptT ε (StateM σ) α} {p : α → Bool}
    (h : (x.run.run w).1.toOption.any p = true) : ∃ a w', Gives x w a w' ∧ p a = true := by
  rcases hRun : x.run.run w with ⟨e | a, w'⟩
  · rw [hRun] at h
    cases h
  · rw [hRun] at h
    exact ⟨a, w', hRun, h⟩

theorem isOk {x : ExceptT ε (StateM σ) α} (h : Gives x w a w') : (x.run.run w).1.isOk = true := by
  rw [h]
  rfl

@[simp] theorem pure_iff : Gives (pure a : ExceptT ε (StateM σ) α) w b w' ↔ a = b ∧ w = w' := by
  change ((Except.ok a, w) : Except ε α × σ) = (.ok b, w') ↔ _
  simp

@[simp] theorem bind_iff {x : ExceptT ε (StateM σ) α} {f : α → ExceptT ε (StateM σ) β} {c : β} :
    Gives (x >>= f) w c w' ↔ ∃ a w₁, Gives x w a w₁ ∧ Gives (f a) w₁ c w' := by
  have hBind : (x >>= f).run.run w = match x.run.run w with
      | (.ok a, w₁) => (f a).run.run w₁
      | (.error e, w₁) => (.error e, w₁) := by
    change (match (x.run.run w).1 with
      | .ok a => (f a).run
      | .error e => Pure.pure (Except.error e) : StateM σ (Except ε β)) (x.run.run w).2 = _
    rcases x.run.run w with ⟨_ | _, _⟩ <;> rfl
  simp only [Gives, hBind]
  constructor
  · intro h
    split at h
    · rename_i a w₁ hx
      exact ⟨a, w₁, hx, h⟩
    · cases h
  · rintro ⟨a, w₁, hx, hf⟩
    rw [hx]
    exact hf

/-- What follows a part that has come to a result goes on from there, whether it fails or not. -/
theorem run_bind {x : ExceptT ε (StateM σ) α} (h : Gives x w a w')
    (f : α → ExceptT ε (StateM σ) β) : (x >>= f).run.run w = (f a).run.run w' := by
  change (match (x.run.run w).1 with
    | .ok a => (f a).run
    | .error e => Pure.pure (Except.error e) : StateM σ (Except ε β)) (x.run.run w).2 = _
  rw [h]
  rfl

@[simp] theorem get_iff {v : σ} :
    Gives (get : ExceptT ε (StateM σ) σ) w v w' ↔ w = v ∧ w = w' := by
  change ((Except.ok w, w) : Except ε σ × σ) = (.ok v, w') ↔ _
  simp

theorem get_bind_iff {f : σ → ExceptT ε (StateM σ) α} :
    Gives (get >>= f) w a w' ↔ Gives (f w) w a w' := Iff.rfl

@[simp] theorem set_iff {v : σ} {u : PUnit} :
    Gives (set v : ExceptT ε (StateM σ) PUnit) w u w' ↔ v = w' := by
  change ((Except.ok ⟨⟩, v) : Except ε PUnit × σ) = (.ok u, w') ↔ _
  simp

@[simp] theorem modify_iff {f : σ → σ} {u : PUnit} :
    Gives (modify f : ExceptT ε (StateM σ) PUnit) w u w' ↔ f w = w' := by
  change ((Except.ok ⟨⟩, f w) : Except ε PUnit × σ) = (.ok u, w') ↔ _
  simp

@[simp] theorem not_throw {e : ε} : ¬ Gives (throw e : ExceptT ε (StateM σ) α) w a w' := by
  change ¬ ((Except.error e, w) : Except ε α × σ) = (.ok a, w')
  simp

@[simp] theorem lift_iff {x : StateM σ α} :
    Gives (liftM x : ExceptT ε (StateM σ) α) w a w' ↔ x.run w = (a, w') := by
  change ((Except.ok (x.run w).1, (x.run w).2) : Except ε α × σ) = (.ok a, w') ↔ _
  rw [Prod.ext_iff, Prod.ext_iff]
  simp

@[simp] theorem forM_nil_iff {f : β → ExceptT ε (StateM σ) PUnit} {u : PUnit} :
    Gives (([] : List β).forM f) w u w' ↔ w = w' :=
  pure_iff.trans (and_iff_right rfl)

@[simp] theorem forM_cons_iff {f : β → ExceptT ε (StateM σ) PUnit} {c : β} {cs : List β}
    {u : PUnit} :
    Gives ((c :: cs).forM f) w u w' ↔ ∃ w₁, Gives (f c) w ⟨⟩ w₁ ∧ Gives (cs.forM f) w₁ u w' := by
  change Gives (f c >>= fun _ => cs.forM f) w u w' ↔ _
  rw [bind_iff]
  exact ⟨fun ⟨_, w₁, hHead, hTail⟩ => ⟨w₁, hHead, hTail⟩,
    fun ⟨w₁, hHead, hTail⟩ => ⟨⟨⟩, w₁, hHead, hTail⟩⟩

@[simp] theorem mapM_nil_iff {f : β → ExceptT ε (StateM σ) α} {as : List α} :
    Gives (([] : List β).mapM f) w as w' ↔ as = [] ∧ w = w' := by
  rw [List.mapM_nil, pure_iff, eq_comm]

@[simp] theorem mapM_cons_iff {f : β → ExceptT ε (StateM σ) α} {c : β} {cs : List β} {as : List α} :
    Gives ((c :: cs).mapM f) w as w' ↔
      ∃ b w₁ rest, Gives (f c) w b w₁ ∧ Gives (cs.mapM f) w₁ rest w' ∧ as = b :: rest := by
  rw [List.mapM_cons]
  simp only [bind_iff, pure_iff]
  constructor
  · rintro ⟨b, w₁, hHead, rest, _, hTail, rfl, rfl⟩
    exact ⟨b, w₁, rest, hHead, hTail, rfl⟩
  · rintro ⟨b, w₁, rest, hHead, hTail, rfl⟩
    exact ⟨b, w₁, hHead, rest, w', hTail, rfl, rfl⟩

end Gives

/-- The action breaks off with an error. -/
def Fails (x : ExceptT ε (StateM σ) α) (w : σ) (e : ε) (w' : σ) : Prop := x.run.run w = (.error e, w')

namespace Fails

variable {w w' : σ} {e : ε} {x : ExceptT ε (StateM σ) α}

theorem exists_of_isOk (h : (x.run.run w).1.isOk = false) : ∃ e, Fails x w e (x.run.run w).2 := by
  rcases hRun : x.run.run w with ⟨e | a, w'⟩
  · exact ⟨e, hRun⟩
  · rw [hRun] at h
    cases h

theorem of_fst (h : (x.run.run w).1 = .error e) : Fails x w e (x.run.run w).2 := Prod.ext h rfl

theorem not_gives {a : α} {w'' : σ} (h : Fails x w e w') : ¬ Gives x w a w'' := by
  intro hGives
  rw [Gives, h] at hGives
  cases hGives

theorem of_bind {f : α → ExceptT ε (StateM σ) β} (h : Fails (x >>= f) w e w') :
    Fails x w e w' ∨ ∃ a w₁, Gives x w a w₁ ∧ Fails (f a) w₁ e w' := by
  change (match (x.run.run w).1 with
    | .ok a => (f a).run
    | .error e => Pure.pure (Except.error e) : StateM σ (Except ε β)) (x.run.run w).2 = _ at h
  rcases hx : x.run.run w with ⟨e' | a, w₁⟩
  · rw [hx] at h
    cases h
    exact .inl hx
  · rw [hx] at h
    exact .inr ⟨a, w₁, hx, h⟩

theorem get_bind_iff {f : σ → ExceptT ε (StateM σ) α} :
    Fails (get >>= f) w e w' ↔ Fails (f w) w e w' := Iff.rfl

theorem bind (h : Fails x w e w') (f : α → ExceptT ε (StateM σ) β) : Fails (x >>= f) w e w' := by
  change (match (x.run.run w).1 with
    | .ok a => (f a).run
    | .error e => Pure.pure (Except.error e) : StateM σ (Except ε β)) (x.run.run w).2 = _
  rw [h]
  rfl

theorem gives_bind {f : α → ExceptT ε (StateM σ) β} {a : α} {w₁ : σ} (hx : Gives x w a w₁)
    (h : Fails (f a) w₁ e w') : Fails (x >>= f) w e w' := (hx.run_bind f).trans h

theorem of_gives_bind {f : α → ExceptT ε (StateM σ) β} {a : α} {w₁ : σ} (hx : Gives x w a w₁)
    (h : Fails (x >>= f) w e w') : Fails (f a) w₁ e w' := by
  rcases h.of_bind with hFails | ⟨b, w₂, hGives, hFails⟩
  · exact absurd hx hFails.not_gives
  · rw [Gives, hx] at hGives
    cases hGives
    exact hFails

end Fails

theorem run_bind_pure_snd (x : ExceptT ε (StateM σ) α) (f : α → β) (w : σ) :
    ((x >>= fun a => pure (f a)).run.run w).2 = (x.run.run w).2 := by
  rcases hx : x.run.run w with ⟨e | a, w'⟩
  · rw [Fails.bind hx]
  · rw [Gives.run_bind hx]
    rfl

/-! ## What an action does to the state -/

/-- The action relates the state before and after it, whether it fails or not. -/
def Within (R : σ → σ → Prop) (x : ExceptT ε (StateM σ) α) : Prop := ∀ w, R w (x.run.run w).2

namespace Within

variable {R : σ → σ → Prop}

theorem pure (hRefl : ∀ w, R w w) (a : α) : Within R (Pure.pure a : ExceptT ε (StateM σ) α) :=
  fun w => hRefl w

theorem throw (hRefl : ∀ w, R w w) (e : ε) :
    Within R (MonadExcept.throw e : ExceptT ε (StateM σ) α) := fun w => hRefl w

theorem get_bind {f : σ → ExceptT ε (StateM σ) α} (h : ∀ w, R w ((f w).run.run w).2) :
    Within R (get >>= f) := h

theorem bind (hTrans : ∀ u v w, R u v → R v w → R u w) {x : ExceptT ε (StateM σ) α}
    {f : α → ExceptT ε (StateM σ) β} (hx : Within R x) (hf : ∀ a, Within R (f a)) :
    Within R (x >>= f) := by
  intro w
  have hw := hx w
  change R w ((match (x.run.run w).1 with
    | .ok a => (f a).run
    | .error e => Pure.pure (Except.error e) : StateM σ (Except ε β)) (x.run.run w).2).2
  cases (x.run.run w).1 with
  | ok a => exact hTrans _ _ _ hw (hf a _)
  | error e => exact hw

theorem forM (hRefl : ∀ w, R w w) (hTrans : ∀ u v w, R u v → R v w → R u w)
    {f : β → ExceptT ε (StateM σ) PUnit} (hf : ∀ b, Within R (f b)) (bs : List β) :
    Within R (bs.forM f) := by
  induction bs with
  | nil => exact pure hRefl _
  | cons b bs ih => exact bind hTrans (hf b) fun _ => ih

theorem of_gives {x : ExceptT ε (StateM σ) α} (hx : Within R x) {w w' : σ} {a : α}
    (h : Gives x w a w') : R w w' := by
  have hw := hx w
  rw [h] at hw
  exact hw

theorem of_fails {x : ExceptT ε (StateM σ) α} (hx : Within R x) {w w' : σ} {e : ε}
    (h : Fails x w e w') : R w w' := by
  have hw := hx w
  rw [h] at hw
  exact hw

end Within

/-- The action leaves the state as it is. -/
def ReadOnly (x : ExceptT ε (StateM σ) α) : Prop := Within (fun w w' => w' = w) x

namespace ReadOnly

theorem pure (a : α) : ReadOnly (Pure.pure a : ExceptT ε (StateM σ) α) :=
  fun _ => rfl

theorem throw (e : ε) : ReadOnly (MonadExcept.throw e : ExceptT ε (StateM σ) α) :=
  fun _ => rfl

theorem get_bind {f : σ → ExceptT ε (StateM σ) α} (h : ∀ w, ReadOnly (f w)) : ReadOnly (get >>= f) :=
  Within.get_bind fun w => h w w

theorem bind {x : ExceptT ε (StateM σ) α} {f : α → ExceptT ε (StateM σ) β} (hx : ReadOnly x)
    (hf : ∀ a, ReadOnly (f a)) : ReadOnly (x >>= f) :=
  Within.bind (fun _ _ _ h h' => h'.trans h) hx hf

theorem gives_of_eq {x : ExceptT ε (StateM σ) α} (hx : ReadOnly x) {w : σ} {a : α}
    (h : (x.run.run w).1 = .ok a) : Gives x w a w := Prod.ext h (hx w)

end ReadOnly

/-- The action breaks off only with errors of a kind. -/
def Raises (P : ε → Prop) (x : ExceptT ε (StateM σ) α) : Prop := ∀ w e w', Fails x w e w' → P e

namespace Raises

variable {P : ε → Prop}

theorem pure (a : α) : Raises P (Pure.pure a : ExceptT ε (StateM σ) α) := by
  intro w e w' hFails
  cases hFails

theorem throw {e : ε} (he : P e) : Raises P (MonadExcept.throw e : ExceptT ε (StateM σ) α) := by
  intro w e' w' hFails
  cases hFails
  exact he

theorem bind {x : ExceptT ε (StateM σ) α} {f : α → ExceptT ε (StateM σ) β} (hx : Raises P x)
    (hf : ∀ a, Raises P (f a)) : Raises P (x >>= f) := by
  intro w e w' hFails
  rcases hFails.of_bind with hFirst | ⟨a, w₁, -, hRest⟩
  · exact hx w e w' hFirst
  · exact hf a w₁ e w' hRest

theorem get_bind {f : σ → ExceptT ε (StateM σ) α} (h : ∀ w, Raises P (f w)) : Raises P (get >>= f) :=
  fun w => h w w

theorem lift (x : StateM σ α) : Raises P (liftM x : ExceptT ε (StateM σ) α) := by
  intro w e w' hFails
  cases hFails

theorem forM {f : β → ExceptT ε (StateM σ) PUnit} (hf : ∀ b, Raises P (f b)) (bs : List β) :
    Raises P (bs.forM f) := by
  induction bs with
  | nil => exact pure _
  | cons b bs ih => exact bind (hf b) fun _ => ih

theorem mapM {f : β → ExceptT ε (StateM σ) α} (hf : ∀ b, Raises P (f b)) (bs : List β) :
    Raises P (bs.mapM f) := by
  induction bs with
  | nil => exact pure _
  | cons b bs ih =>
    rw [List.mapM_cons]
    exact bind (hf b) fun _ => bind ih fun _ => pure _

end Raises

/-- The action gives the same answer in both states, and leaves them as they are. -/
def Concurs (w w' : σ) (x : ExceptT ε (StateM σ) α) : Prop :=
  ∃ r, x.run.run w = (r, w) ∧ x.run.run w' = (r, w')

namespace Concurs

variable {w w' : σ}

theorem pure (a : α) : Concurs w w' (Pure.pure a : ExceptT ε (StateM σ) α) := ⟨_, rfl, rfl⟩

theorem throw (e : ε) : Concurs w w' (MonadExcept.throw e : ExceptT ε (StateM σ) α) := ⟨_, rfl, rfl⟩

theorem bind {x : ExceptT ε (StateM σ) α} {f : α → ExceptT ε (StateM σ) β} (hx : Concurs w w' x)
    (hf : ∀ a, Concurs w w' (f a)) : Concurs w w' (x >>= f) := by
  obtain ⟨r, hRun, hRun'⟩ := hx
  cases r with
  | error e => exact ⟨.error e, Fails.bind hRun f, Fails.bind hRun' f⟩
  | ok a =>
    obtain ⟨r, hNext, hNext'⟩ := hf a
    exact ⟨r, (Gives.run_bind hRun f).trans hNext, (Gives.run_bind hRun' f).trans hNext'⟩

theorem get_bind {f : σ → ExceptT ε (StateM σ) α} (hSame : f w' = f w) (hf : Concurs w w' (f w)) :
    Concurs w w' (get >>= f) := by
  obtain ⟨r, hRun, hRun'⟩ := hf
  rw [← hSame] at hRun'
  exact ⟨r, hRun, hRun'⟩

end Concurs

theorem StoreAction.gives_perform_iff {fs fs' : Files} {step : FileStep} {u : Unit} :
    Gives (perform step) fs u fs' ↔ step.run fs = (fs', none) := by
  rw [perform, Gives.get_bind_iff]
  simp only [Gives.bind_iff, Gives.set_iff]
  constructor
  · rintro ⟨_, _, rfl, hRun⟩
    rcases hStep : step.run fs with ⟨fs₁, _ | ⟨path, e⟩⟩
    · rw [hStep] at hRun
      exact Prod.ext (Gives.pure_iff.mp hRun).2 rfl
    · rw [hStep] at hRun
      exact absurd hRun Gives.not_throw
  · intro hStep
    refine ⟨(), fs', ?_, ?_⟩ <;> rw [hStep]
    exact Gives.pure_iff.mpr ⟨rfl, rfl⟩

end Reanalysis
