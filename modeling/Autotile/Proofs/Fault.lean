import Autotile.Fault

/-! # How a computation may fail

A computation that is put together from others succeeds and fails only as they do. -/
namespace Autotile

variable {α β : Type} {P : Fault → Prop}

theorem eq_ok_of_bind {ε : Type} {x : Except ε α} {f : α → Except ε β} {b : β}
    (h : x >>= f = .ok b) : ∃ a, x = .ok a ∧ f a = .ok b := by
  cases x with
  | error fault => cases h
  | ok a => exact ⟨a, rfl, h⟩

theorem bind_of_eq_ok {ε : Type} {x : Except ε α} {a : α} (h : x = .ok a) (f : α → Except ε β) :
    x >>= f = f a := by
  subst h
  rfl

theorem bind_of_eq_error {ε : Type} {x : Except ε α} {e : ε} (h : x = .error e)
    (f : α → Except ε β) : x >>= f = .error e := by
  subst h
  rfl

theorem eq_ok_of_mapError {ε ε' : Type} {x : Except ε α} {f : ε → ε'} {a : α}
    (h : x.mapError f = .ok a) : x = .ok a := by
  cases x with
  | error fault => cases h
  | ok b => exact congrArg _ (Except.ok.inj h)

theorem eq_ok_of_toOption {ε : Type} {x : Except ε α} {a : α} (h : x.toOption = some a) :
    x = .ok a := by
  cases x with
  | error fault => cases h
  | ok b => exact congrArg _ (Option.some.inj h)

theorem mapM_eq_ok {ε : Type} {f : α → Except ε β} {g : α → β} {xs : List α}
    (h : ∀ x ∈ xs, f x = .ok (g x)) : xs.mapM f = .ok (xs.map g) := by
  induction xs with
  | nil => rfl
  | cons x xs ih =>
    rw [List.mapM_cons, bind_of_eq_ok (h x List.mem_cons_self),
      bind_of_eq_ok (ih fun y hy => h y (List.mem_cons_of_mem x hy))]
    rfl

theorem eq_ok_of_filterMapM {ε : Type} {f : α → Except ε (Option β)} {xs : List α} {ys : List β}
    (h : xs.filterMapM f = .ok ys) : ∀ x ∈ xs, ∃ y, f x = .ok y := by
  induction xs generalizing ys with
  | nil => exact List.forall_mem_nil _
  | cons x xs ih =>
    rw [List.filterMapM_cons] at h
    obtain ⟨y, hx, h⟩ := eq_ok_of_bind h
    refine List.forall_mem_cons.mpr ⟨⟨y, hx⟩, ?_⟩
    cases y with
    | none => exact ih h
    | some y =>
      obtain ⟨rest, h, -⟩ := eq_ok_of_bind h
      exact ih h

/-! To change how a computation fails is to change how each of its parts does. -/
section MapError

variable {ε ε' : Type} (φ : ε → ε')

theorem mapError_bind (x : Except ε α) (f : α → Except ε β) :
    (x >>= f).mapError φ = x.mapError φ >>= fun a => (f a).mapError φ := by
  cases x <;> rfl

theorem mapError_allM (p : α → Except ε Bool) (xs : List α) :
    (xs.allM p).mapError φ = xs.allM fun x => (p x).mapError φ := by
  induction xs with
  | nil => rfl
  | cons x xs ih =>
    rw [List.allM_cons, List.allM_cons, mapError_bind]
    refine congrArg _ (funext fun holds => ?_)
    cases holds with
    | false => rfl
    | true => exact ih

theorem mapError_filterM (p : α → Except ε Bool) (xs : List α) :
    (xs.filterM p).mapError φ = xs.filterM fun x => (p x).mapError φ := by
  have kept : ∀ seen, (xs.filterAuxM p seen).mapError φ =
      xs.filterAuxM (fun x => (p x).mapError φ) seen := by
    induction xs with
    | nil => exact fun _ => rfl
    | cons x xs ih =>
      intro seen
      rw [List.filterAuxM, List.filterAuxM, mapError_bind]
      exact congrArg _ (funext fun holds => ih _)
  unfold List.filterM
  rw [mapError_bind, kept]
  rfl

theorem mapError_filterMapM (f : α → Except ε (Option β)) (xs : List α) :
    (xs.filterMapM f).mapError φ = xs.filterMapM fun x => (f x).mapError φ := by
  induction xs with
  | nil => rfl
  | cons x xs ih =>
    rw [List.filterMapM_cons, List.filterMapM_cons, mapError_bind]
    refine congrArg _ (funext fun found => ?_)
    cases found with
    | none => exact ih
    | some y =>
      rw [mapError_bind, ih]
      rfl

end MapError

/-- Every fault with which a computation may fail is of a kind. -/
def FailsBy (P : Fault → Prop) (x : Except Fault α) : Prop := ∀ fault, x = .error fault → P fault

theorem failsBy_ok (a : α) : FailsBy P (.ok a) := fun _ h => nomatch h

theorem failsBy_error {fault : Fault} (h : P fault) :
    FailsBy P (.error fault : Except Fault α) := by
  rintro _ ⟨⟩
  exact h

theorem FailsBy.imp {Q : Fault → Prop} {x : Except Fault α} (h : FailsBy P x)
    (imp : ∀ fault, P fault → Q fault) : FailsBy Q x := fun fault hx => imp fault (h fault hx)

theorem failsBy_mapError {ε : Type} {φ : ε → Fault} (h : ∀ e, P (φ e)) (x : Except ε α) :
    FailsBy P (x.mapError φ) := by
  cases x with
  | ok a => exact failsBy_ok a
  | error e => exact failsBy_error (h e)

theorem FailsBy.bind {x : Except Fault α} {f : α → Except Fault β} (hx : FailsBy P x)
    (hf : ∀ a, x = .ok a → FailsBy P (f a)) : FailsBy P (x >>= f) := by
  cases x with
  | error fault => exact failsBy_error (hx fault rfl)
  | ok a => exact hf a rfl

theorem FailsBy.map {x : Except Fault α} (hx : FailsBy P x) (f : α → β) : FailsBy P (f <$> x) := by
  cases x with
  | error fault => exact failsBy_error (hx fault rfl)
  | ok a => exact failsBy_ok _

theorem FailsBy.mapM {f : α → Except Fault β} {xs : List α} (h : ∀ x ∈ xs, FailsBy P (f x)) :
    FailsBy P (xs.mapM f) := by
  induction xs with
  | nil => exact failsBy_ok _
  | cons x xs ih =>
    rw [List.mapM_cons]
    refine (h x List.mem_cons_self).bind fun _ _ => ?_
    exact (ih fun y hy => h y (List.mem_cons_of_mem x hy)).bind fun _ _ => failsBy_ok _

theorem FailsBy.allM {f : α → Except Fault Bool} {xs : List α} (h : ∀ x, FailsBy P (f x)) :
    FailsBy P (xs.allM f) := by
  induction xs with
  | nil => exact failsBy_ok _
  | cons x xs ih =>
    rw [List.allM_cons]
    refine (h x).bind fun a _ => ?_
    cases a with
    | false => exact failsBy_ok _
    | true => exact ih

theorem FailsBy.filterM {f : α → Except Fault Bool} {xs : List α} (h : ∀ x, FailsBy P (f x)) :
    FailsBy P (xs.filterM f) := by
  have kept : ∀ seen, FailsBy P (xs.filterAuxM f seen) := by
    induction xs with
    | nil => exact fun seen => failsBy_ok _
    | cons x xs ih => exact fun seen => (h x).bind fun a _ => ih _
  exact (kept []).bind fun _ _ => failsBy_ok _

theorem FailsBy.filterMapM {f : α → Except Fault (Option β)} {xs : List α}
    (h : ∀ x, FailsBy P (f x)) : FailsBy P (xs.filterMapM f) := by
  induction xs with
  | nil => exact failsBy_ok _
  | cons x xs ih =>
    rw [List.filterMapM_cons]
    refine (h x).bind fun y _ => ?_
    cases y with
    | none => exact ih
    | some y => exact ih.bind fun _ _ => failsBy_ok _

end Autotile
