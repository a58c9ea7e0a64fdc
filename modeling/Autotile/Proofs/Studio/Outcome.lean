import Autotile.Proofs.Ending
import Autotile.Studio.Basic

/-! # How an edit ends

An edit ends with an answer or with a fault, and leaves a state either way. A course says how far
the board may move in the one case and in the other; whatever is put together from edits that
follow a course follows it too. -/
namespace Autotile

namespace Edit

variable {α β : Type} {s : Studio} {done : α → Studio → Prop} {failed : Fault → Studio → Prop}

@[simp] theorem ends_alter {done : Unit → Studio → Prop} (f : Board → Board) :
    Ends (alter f) s done failed ↔ done () { s with board := f s.board } :=
  ends_iff_of_ok rfl

@[simp] theorem ends_note {done : Unit → Studio → Prop} (notice : Notice) :
    Ends (note notice) s done failed ↔ done () { s with notices := s.notices ++ [notice] } :=
  ends_iff_of_ok rfl

@[simp] theorem ends_record {done : Unit → Studio → Prop} (event : Event) :
    Ends (record event) s done failed ↔ done () { s with events := s.events ++ [event] } :=
  ends_iff_of_ok rfl

theorem consult_of_ok {f : Board → Except Fault α} {a : α} (h : f s.board = .ok a) :
    consult f s = .ok a s := by
  rw [consult, h]

theorem consult_of_error {f : Board → Except Fault α} {fault : Fault}
    (h : f s.board = .error fault) : consult f s = .error fault s := by
  rw [consult, h]

theorem ends_consult (f : Board → Except Fault α) :
    Ends (consult f) s done failed ↔
      (∀ a, f s.board = .ok a → done a s) ∧ ∀ fault, f s.board = .error fault → failed fault s := by
  cases hf : f s.board with
  | ok a =>
    rw [ends_iff_of_ok (consult_of_ok hf)]
    simp
  | error fault =>
    rw [ends_iff_of_error (consult_of_error hf)]
    simp

theorem ends_consult_bind {f : Board → Except Fault β} {g : β → Edit α} :
    Ends (consult f >>= g) s done failed ↔
      (∀ b, f s.board = .ok b → Ends (g b) s done failed) ∧
      ∀ fault, f s.board = .error fault → failed fault s := by
  rw [ends_bind, ends_consult]

theorem ends_consult_bind_of_ok {f : Board → Except Fault β} {b : β} (h : f s.board = .ok b)
    {g : β → Edit α} : Ends (consult f >>= g) s done failed ↔ Ends (g b) s done failed := by
  rw [ends_bind, ends_iff_of_ok (consult_of_ok h)]

theorem ends_alter_bind {f : Board → Board} {g : Unit → Edit α} :
    Ends (alter f >>= g) s done failed ↔
      Ends (g ()) { s with board := f s.board } done failed := by
  rw [ends_bind, ends_alter]

@[simp] theorem ends_consult_ok (f : Board → α) :
    Ends (consult fun b => .ok (f b)) s done failed ↔ done (f s.board) s :=
  ends_iff_of_ok rfl

def after (x : Edit α) (s : Studio) : Studio :=
  match x s with
  | .ok _ t => t
  | .error _ t => t

theorem after_of_ok {x : Edit α} {a : α} {t : Studio} (h : x s = .ok a t) : after x s = t := by
  rw [after, h]

theorem after_of_error {x : Edit α} {fault : Fault} {t : Studio} (h : x s = .error fault t) :
    after x s = t := by
  rw [after, h]

def answers (x : Edit α) (s : Studio) : Bool :=
  match x s with
  | .ok .. => true
  | .error .. => false

theorem run_of_answers {x : Edit α} (h : answers x s = true) : ∃ a, x s = .ok a (after x s) := by
  cases hx : x s with
  | ok a t => exact ⟨a, congrArg _ (after_of_ok hx).symm⟩
  | error fault t =>
    rw [answers, hx] at h
    cases h

theorem run_of_not_answers {x : Edit α} (h : answers x s = false) :
    ∃ fault, x s = .error fault (after x s) := by
  cases hx : x s with
  | ok a t =>
    rw [answers, hx] at h
    cases h
  | error fault t => exact ⟨fault, congrArg _ (after_of_error hx).symm⟩

def attempt (x : Edit α) : Edit Unit := fun s => .ok () (if answers x s then after x s else s)

theorem after_attempt (x : Edit α) (s : Studio) :
    after (attempt x) s = if answers x s then after x s else s := rfl

theorem ends_after {x : Edit α} {P : Studio → Prop} :
    Ends x s (fun _ t => P t) (fun _ t => P t) ↔ P (after x s) := by
  cases hx : x s with
  | ok a t => rw [ends_iff_of_ok hx, after_of_ok hx]
  | error fault t => rw [ends_iff_of_error hx, after_of_error hx]

end Edit

/-- How edits move the board: `done` where they answer, `failed` where they fail. An edit that
fails may have moved the board before. -/
structure Course where
  done : Board → Board → Prop
  failed : Board → Board → Prop
  refl : ∀ b, done b b
  trans : ∀ {a b c}, done a b → done b c → done a c
  stay : ∀ b, failed b b
  lead : ∀ {a b c}, done a b → failed b c → failed a c

namespace Course

/-- The same movement, also where edits fail. -/
def steady (C : Course) : Course where
  done := C.done
  failed := C.done
  refl := C.refl
  trans := C.trans
  stay := C.refl
  lead := C.trans

theorem failed_of_done (C : Course) {a b : Board} (h : C.done a b) : C.failed a b :=
  C.lead h (C.stay b)

end Course

namespace Edit

variable {C : Course} {α β : Type}

structure Follows (C : Course) (x : Edit α) : Prop where
  ends : ∀ s, Ends x s (fun _ t => C.done s.board t.board) (fun _ t => C.failed s.board t.board)

theorem Follows.of_steady {x : Edit α} (h : Follows C.steady x) : Follows C x :=
  ⟨fun s => (h.ends s).mono (fun _ _ hd => hd) (fun _ _ hf => C.failed_of_done hf)⟩

theorem Follows.bind {x : Edit β} {f : β → Edit α} (hx : Follows C x) (hf : ∀ b, Follows C (f b)) :
    Follows C (x >>= f) := by
  refine ⟨fun s => ?_⟩
  rw [ends_bind]
  refine (hx.ends s).mono (fun b t hst => ?_) (fun _ _ h => h)
  exact ((hf b).ends t).mono (fun _ _ h => C.trans hst h) (fun _ _ h => C.lead hst h)

theorem follows_of_board_eq {x : Edit α}
    (h : ∀ s, Ends x s (fun _ t => t.board = s.board) (fun _ t => t.board = s.board)) :
    Follows C x :=
  ⟨fun s => (h s).mono (fun _ _ he => he ▸ C.refl _) (fun _ _ he => he ▸ C.stay _)⟩

theorem follows_pure (a : α) : Follows C (pure a : Edit α) :=
  follows_of_board_eq fun _ => (ends_pure a).mpr rfl

theorem follows_throw (fault : Fault) : Follows C (throw fault : Edit α) :=
  follows_of_board_eq fun _ => (ends_throw fault).mpr rfl

theorem follows_get : Follows C (get : Edit Studio) :=
  follows_of_board_eq fun _ => ends_get.mpr rfl

theorem follows_modify {f : Studio → Studio} (h : ∀ s, (f s).board = s.board) :
    Follows C (modify f : Edit Unit) :=
  follows_of_board_eq fun s => (ends_modify f).mpr (h s)

theorem follows_consult (f : Board → Except Fault α) : Follows C (consult f) :=
  follows_of_board_eq fun _ => (ends_consult f).mpr ⟨fun _ _ => rfl, fun _ _ => rfl⟩

theorem Follows.consult_bind {f : Board → Except Fault β} {g : β → Edit α}
    (h : ∀ b, ∀ s : Studio, f s.board = .ok b →
      Ends (g b) s (fun _ t => C.done s.board t.board) (fun _ t => C.failed s.board t.board)) :
    Follows C (consult f >>= g) := by
  refine ⟨fun s => ends_consult_bind.mpr ⟨fun b hb => h b s hb, fun _ _ => C.stay _⟩⟩

theorem follows_alter {f : Board → Board} (h : ∀ b, C.done b (f b)) : Follows C (alter f) :=
  ⟨fun s => (ends_alter f).mpr (h s.board)⟩

theorem follows_note (notice : Notice) : Follows C (note notice) :=
  follows_of_board_eq fun _ => (ends_note notice).mpr rfl

theorem follows_record (event : Event) : Follows C (record event) :=
  follows_of_board_eq fun _ => (ends_record event).mpr rfl

theorem Follows.publish {d : Desk} {event : Event} (h : Follows C (d.hear event)) :
    Follows C (d.publish event) :=
  (follows_record event).bind fun _ => h

theorem Follows.ite {p : Prop} [Decidable p] {x y : Edit α} (hx : p → Follows C x)
    (hy : ¬p → Follows C y) : Follows C (if p then x else y) := by
  by_cases h : p
  · rw [if_pos h]
    exact hx h
  · rw [if_neg h]
    exact hy h

theorem follows_when {p : Prop} [Decidable p] {x : Edit β} {y : Edit α} (hx : Follows C x)
    (hy : Follows C y) : Follows C (if p then (do let _ ← x; y) else y) :=
  Follows.ite (fun _ => hx.bind fun _ => hy) fun _ => hy

theorem Follows.foldlM {f : β → α → Edit β} {xs : List α} (h : ∀ b, ∀ x ∈ xs, Follows C (f b x))
    (b : β) : Follows C (xs.foldlM f b) := by
  induction xs generalizing b with
  | nil => exact follows_pure b
  | cons x xs ih =>
    rw [List.foldlM_cons]
    exact (h b x List.mem_cons_self).bind fun b =>
      ih (fun b y hy => h b y (List.mem_cons_of_mem x hy)) b

theorem Follows.filterMapM {f : α → Edit (Option β)} {xs : List α}
    (h : ∀ x ∈ xs, Follows C (f x)) : Follows C (xs.filterMapM f) := by
  induction xs with
  | nil => exact follows_pure []
  | cons x xs ih =>
    rw [List.filterMapM_cons]
    have rest := ih fun y hy => h y (List.mem_cons_of_mem x hy)
    refine (h x List.mem_cons_self).bind fun y => ?_
    cases y with
    | none => exact rest
    | some y => exact rest.bind fun ys => follows_pure _

theorem Follows.tryCatch {x : Edit α} {handle : Fault → Edit α} (hx : Follows C.steady x)
    (hh : ∀ fault, Follows C (handle fault)) : Follows C (tryCatch x handle) := by
  refine ⟨fun s => ?_⟩
  rw [ends_tryCatch]
  refine (hx.ends s).mono (fun _ _ h => h) (fun fault t hst => ?_)
  exact ((hh fault).ends t).mono (fun _ _ h => C.trans hst h) (fun _ _ h => C.lead hst h)

end Edit

end Autotile
