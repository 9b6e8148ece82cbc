/-!
# Outcomes one after the other

How results and failures pass through a sequence of steps that may fail.
-/

namespace SoapClient.Outcome

variable {ε α β : Type}

@[simp] theorem ok_bind (a : α) (f : α → Except ε β) : (Except.ok a >>= f) = f a := rfl

@[simp] theorem error_bind (e : ε) (f : α → Except ε β) :
    (Except.error e >>= f) = Except.error e := rfl

@[simp] theorem mapError_ok {δ : Type} (a : α) (f : ε → δ) :
    (Except.ok a : Except ε α).mapError f = .ok a := rfl

@[simp] theorem mapError_error {δ : Type} (e : ε) (f : ε → δ) :
    (Except.error e : Except ε α).mapError f = .error (f e) := rfl

/-- A result that is changed comes from a result. -/
theorem map_eq_ok_iff {x : Except ε α} {f : α → β} {b : β} :
    x.map f = .ok b ↔ ∃ a, x = .ok a ∧ f a = b := by
  cases x with
  | error e => simp [Except.map]
  | ok a => simp [Except.map]

/-- A failure is the same where results are the same but for what a change takes away. -/
theorem eq_error_iff_of_map_eq {x x' : Except ε α} {f : α → β} (h : x.map f = x'.map f) {e : ε} :
    x = .error e ↔ x' = .error e := by
  cases x with
  | error cause =>
    cases x' with
    | error cause' => rw [Except.error.inj h]
    | ok a' => cases h
  | ok a =>
    cases x' with
    | error cause' => cases h
    | ok a' => simp

/-- Two sequences of two steps have the same outcome, but for what a change takes away, where the
steps have. -/
theorem map_bind_congr {γ δ : Type} {x x' : Except ε α} {f : α → β} {k k' : α → Except ε γ}
    {g : γ → δ} (h : x.map f = x'.map f)
    (hk : ∀ a a', f a = f a' → (k a).map g = (k' a').map g) :
    (x >>= k).map g = (x' >>= k').map g := by
  cases x with
  | error cause =>
    cases x' with
    | error cause' => exact congrArg Except.error (Except.error.inj h)
    | ok a' => cases h
  | ok a =>
    cases x' with
    | error cause' => cases h
    | ok a' => exact hk a a' (Except.ok.inj h)

/-- A sequence of two steps has a result where both have. -/
theorem bind_eq_ok_iff {x : Except ε α} {f : α → Except ε β} {b : β} :
    x >>= f = .ok b ↔ ∃ a, x = .ok a ∧ f a = .ok b := by
  cases x with
  | error e => simp
  | ok a => simp

/-- The same for steps that change a state. -/
theorem run_bind_eq_ok_iff {σ : Type} {x : StateT σ (Except ε) α} {f : α → StateT σ (Except ε) β}
    {s : σ} {result : β × σ} :
    (x >>= f) s = .ok result ↔ ∃ a s', x s = .ok (a, s') ∧ f a s' = .ok result := by
  have hbind : (x >>= f) s = x s >>= fun p => f p.1 p.2 := rfl
  rw [hbind, bind_eq_ok_iff, Prod.exists]

/-- What every step keeps holds behind a whole row of steps. -/
theorem foldlM_keeps {I : β → Prop} {f : β → α → Except ε β} {as : List α} {b b' : β}
    (hstep : ∀ a ∈ as, ∀ b b', I b → f b a = .ok b' → I b') (hb : I b)
    (h : as.foldlM f b = .ok b') : I b' := by
  induction as generalizing b with
  | nil =>
    obtain rfl := Except.ok.inj h
    exact hb
  | cons a rest ih =>
    rw [List.forall_mem_cons] at hstep
    rw [List.foldlM_cons, bind_eq_ok_iff] at h
    obtain ⟨b₁, hfirst, hrest⟩ := h
    exact ih hstep.2 (hstep.1 b b₁ hb hfirst) hrest

end SoapClient.Outcome
