/-! # How a computation ends

A computation over a state ends with an answer or with an error, and leaves a state either way. What
holds in the end follows part by part, whatever the state is. -/
namespace Autotile

variable {ε σ α β : Type} {s t : σ} {done done' : α → σ → Prop} {failed failed' : ε → σ → Prop}

theorem bind_of_ok {x : EStateM ε σ β} {b : β} (h : x s = .ok b t) (f : β → EStateM ε σ α) :
    (x >>= f) s = f b t := by
  change EStateM.bind x f s = f b t
  rw [EStateM.bind, h]

theorem bind_of_error {x : EStateM ε σ β} {e : ε} (h : x s = .error e t) (f : β → EStateM ε σ α) :
    (x >>= f) s = .error e t := by
  change EStateM.bind x f s = .error e t
  rw [EStateM.bind, h]

theorem tryCatch_of_ok {x : EStateM ε σ α} {a : α} (h : x s = .ok a t)
    (handle : ε → EStateM ε σ α) : (tryCatch x handle) s = .ok a t := by
  change EStateM.tryCatch x handle s = .ok a t
  unfold EStateM.tryCatch
  rw [h]

theorem tryCatch_of_error {x : EStateM ε σ α} {e : ε} (h : x s = .error e t)
    (handle : ε → EStateM ε σ α) : (tryCatch x handle) s = handle e t := by
  change EStateM.tryCatch x handle s = handle e t
  unfold EStateM.tryCatch
  rw [h]
  rfl

/-- What a computation leaves: `done` holds where it answers, `failed` where it fails. -/
structure Ends (x : EStateM ε σ α) (s : σ) (done : α → σ → Prop) (failed : ε → σ → Prop) :
    Prop where
  of_ok : ∀ {a t}, x s = .ok a t → done a t
  of_error : ∀ {e t}, x s = .error e t → failed e t

theorem ends_iff_of_ok {x : EStateM ε σ α} {a : α} (h : x s = .ok a t) :
    Ends x s done failed ↔ done a t := by
  refine ⟨fun hx => hx.of_ok h, fun hd => ⟨fun hx => ?_, fun hx => ?_⟩⟩
  · rw [h] at hx
    cases hx
    exact hd
  · rw [h] at hx
    cases hx

theorem ends_iff_of_error {x : EStateM ε σ α} {e : ε} (h : x s = .error e t) :
    Ends x s done failed ↔ failed e t := by
  refine ⟨fun hx => hx.of_error h, fun hf => ⟨fun hx => ?_, fun hx => ?_⟩⟩
  · rw [h] at hx
    cases hx
  · rw [h] at hx
    cases hx
    exact hf

theorem ends_congr {x y : EStateM ε σ α} {s' : σ} (h : x s = y s') :
    Ends x s done failed ↔ Ends y s' done failed :=
  ⟨fun hx => ⟨fun hy => hx.of_ok (h.trans hy), fun hy => hx.of_error (h.trans hy)⟩,
    fun hy => ⟨fun hx => hy.of_ok (h.symm.trans hx), fun hx => hy.of_error (h.symm.trans hx)⟩⟩

@[simp] theorem ends_pure (a : α) : Ends (pure a : EStateM ε σ α) s done failed ↔ done a s :=
  ends_iff_of_ok rfl

@[simp] theorem ends_throw (e : ε) :
    Ends (throw e : EStateM ε σ α) s done failed ↔ failed e s :=
  ends_iff_of_error rfl

@[simp] theorem ends_bind (x : EStateM ε σ β) (f : β → EStateM ε σ α) :
    Ends (x >>= f) s done failed ↔ Ends x s (fun b t => Ends (f b) t done failed) failed := by
  cases hx : x s with
  | ok b t => rw [ends_iff_of_ok hx, ends_congr (bind_of_ok hx f)]
  | error e t => rw [ends_iff_of_error hx, ends_iff_of_error (bind_of_error hx f)]

@[simp] theorem ends_tryCatch (x : EStateM ε σ α) (handle : ε → EStateM ε σ α) :
    Ends (tryCatch x handle) s done failed ↔
      Ends x s done fun e t => Ends (handle e) t done failed := by
  cases hx : x s with
  | ok a t => rw [ends_iff_of_ok hx, ends_iff_of_ok (tryCatch_of_ok hx handle)]
  | error e t => rw [ends_iff_of_error hx, ends_congr (tryCatch_of_error hx handle)]

@[simp] theorem ends_get {done : σ → σ → Prop} :
    Ends (get : EStateM ε σ σ) s done failed ↔ done s s :=
  ends_iff_of_ok rfl

@[simp] theorem ends_modify {done : Unit → σ → Prop} (f : σ → σ) :
    Ends (modify f : EStateM ε σ Unit) s done failed ↔ done () (f s) :=
  ends_iff_of_ok rfl

@[simp] theorem ends_modifyGet (f : σ → α × σ) :
    Ends (modifyGet f : EStateM ε σ α) s done failed ↔ done (f s).1 (f s).2 :=
  ends_iff_of_ok rfl

theorem ends_get_bind {f : σ → EStateM ε σ α} :
    Ends (get >>= f) s done failed ↔ Ends (f s) s done failed := by
  rw [ends_bind, ends_get]

theorem ends_modify_bind {g : σ → σ} {f : Unit → EStateM ε σ α} :
    Ends (modify g >>= f) s done failed ↔ Ends (f ()) (g s) done failed := by
  rw [ends_bind, ends_modify]

theorem Ends.mono {x : EStateM ε σ α} (h : Ends x s done failed)
    (hd : ∀ a t, done a t → done' a t) (hf : ∀ e t, failed e t → failed' e t) :
    Ends x s done' failed' :=
  ⟨fun hx => hd _ _ (h.of_ok hx), fun hx => hf _ _ (h.of_error hx)⟩

theorem Ends.and {x : EStateM ε σ α} (h : Ends x s done failed) (h' : Ends x s done' failed') :
    Ends x s (fun a t => done a t ∧ done' a t) (fun e t => failed e t ∧ failed' e t) :=
  ⟨fun run => ⟨h.of_ok run, h'.of_ok run⟩, fun run => ⟨h.of_error run, h'.of_error run⟩⟩

theorem Ends.bind {x : EStateM ε σ β} {f : β → EStateM ε σ α} {mid : β → σ → Prop}
    (hx : Ends x s mid failed) (hf : ∀ b t, mid b t → Ends (f b) t done failed) :
    Ends (x >>= f) s done failed :=
  (ends_bind x f).mpr (hx.mono hf fun _ _ h => h)

theorem Ends.answered {x : EStateM ε σ α} (h : Ends x s done fun _ _ => False) :
    ∃ a t, x s = .ok a t ∧ done a t := by
  cases hx : x s with
  | ok a t => exact ⟨a, t, rfl, h.of_ok hx⟩
  | error e t => exact (h.of_error hx).elim

theorem run_of_ends {x : EStateM ε σ α} {a : α}
    (h : Ends x s (fun b u => b = a ∧ u = t) fun _ _ => False) : x s = .ok a t := by
  obtain ⟨b, u, run, rfl, rfl⟩ := h.answered
  exact run

theorem error_of_ends {x : EStateM ε σ α} {e : ε}
    (h : Ends x s (fun _ _ => False) fun f u => f = e ∧ u = t) : x s = .error e t := by
  cases hx : x s with
  | ok a u => exact (h.of_ok hx).elim
  | error f u =>
    obtain ⟨rfl, rfl⟩ := h.of_error hx
    rfl

end Autotile
