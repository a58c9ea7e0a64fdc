import Autotile.Proofs.Bus.Signals
import Autotile.Proofs.Ending

/-! # What an emission leads to

Whatever receivers do when they are called, and however an emission ends, what it leads to is
numbered on from the emissions before it: receivers may be called and may leave, but nobody
joins. -/
namespace Autotile

namespace Moment

/-- A moment that emissions from this number on may bring about. Nobody joins meanwhile. -/
def Since (k : Nat) : Moment → Prop
  | .joined .. => False
  | .left .. => True
  | .turn n _ => k ≤ n

theorem Since.mono {j k : Nat} (le : j ≤ k) {m : Moment} (h : m.Since k) : m.Since j := by
  cases m with
  | joined => exact h
  | left => exact h
  | turn n label => exact Nat.le_trans le h

theorem joined_append {k : Nat} {history ms : List Moment} {event label : String}
    (since : ∀ m ∈ ms, m.Since k) :
    Joined (history ++ ms) event label ↔ Joined history event label ∧ .left event label ∉ ms := by
  induction ms generalizing history with
  | nil => simp
  | cons m ms ih =>
    have later : Joined (history ++ [m] ++ ms) event label ↔
        Joined (history ++ [m]) event label ∧ .left event label ∉ ms :=
      ih fun m' hm => since m' (List.mem_cons_of_mem m hm)
    rw [List.append_assoc, List.singleton_append] at later
    rw [later]
    by_cases leaves : m = .left event label
    · rw [leaves, joined_concat_left]
      simp
    · have stays : m.standing? event label = none := by
        cases standing : m.standing? event label with
        | none => rfl
        | some joins =>
          cases joins with
          | false => exact absurd (standing?_eq_some_false.mp standing) leaves
          | true =>
            rw [standing?_eq_some_true.mp standing] at since
            exact (since _ List.mem_cons_self).elim
      rw [joined_concat_of_none stays, List.mem_cons, not_or, and_congr_right_iff]
      intro _
      exact (and_iff_right (Ne.symm leaves)).symm

end Moment

namespace Bus

open Moment

theorem ends_attempt {x : Delivery Unit} {b : Bus} {done : Option Fault → Bus → Prop}
    {failed : Fault → Bus → Prop} :
    Ends (attempt x) b done failed ↔
      Ends x b (fun _ => done none) fun fault => done (some fault) := by
  cases run : x b with
  | ok a c =>
    have caught : attempt x b = .ok none c := by rw [attempt, run]
    rw [ends_iff_of_ok caught, ends_iff_of_ok run]
  | error fault c =>
    have caught : attempt x b = .ok (some fault) c := by rw [attempt, run]
    rw [ends_iff_of_ok caught, ends_iff_of_error run]

/-- What a bus may become by emissions from a number on. -/
structure Grows (k : Nat) (b b' : Bus) : Prop where
  lived : b.Lived → b'.Lived
  id : b'.id = b.id
  emissions : b.emissions ≤ b'.emissions
  history : ∃ ms, b'.history = b.history ++ ms ∧ ∀ m ∈ ms, m.Since k
  calls : ∃ cs, b'.calls = b.calls ++ cs ∧ ∀ call ∈ cs, k ≤ call.emission

namespace Grows

variable {j k : Nat} {a b c : Bus}

theorem refl (k : Nat) (b : Bus) : Grows k b b :=
  ⟨fun h => h, rfl, Nat.le_refl _, ⟨[], by simp⟩, ⟨[], by simp⟩⟩

theorem trans (h : Grows k a b) (h' : Grows k b c) : Grows k a c := by
  obtain ⟨ms, grown, since⟩ := h.history
  obtain ⟨ms', grown', since'⟩ := h'.history
  obtain ⟨cs, called, from_k⟩ := h.calls
  obtain ⟨cs', called', from_k'⟩ := h'.calls
  refine ⟨fun lived => h'.lived (h.lived lived), h'.id.trans h.id,
    Nat.le_trans h.emissions h'.emissions, ⟨ms ++ ms', ?_, ?_⟩, ⟨cs ++ cs', ?_, ?_⟩⟩
  · rw [grown', grown, List.append_assoc]
  · exact List.forall_mem_append.mpr ⟨since, since'⟩
  · rw [called', called, List.append_assoc]
  · exact List.forall_mem_append.mpr ⟨from_k, from_k'⟩

theorem mono (le : j ≤ k) (h : Grows k a b) : Grows j a b := by
  obtain ⟨ms, grown, since⟩ := h.history
  obtain ⟨cs, called, from_k⟩ := h.calls
  exact ⟨h.lived, h.id, h.emissions, ⟨ms, grown, fun m hm => (since m hm).mono le⟩,
    ⟨cs, called, fun call hc => Nat.le_trans le (from_k call hc)⟩⟩

theorem of_moment {m : Moment} (lived : b.Lived → c.Lived) (id : c.id = b.id)
    (emissions : c.emissions = b.emissions) (history : c.history = b.history ++ [m])
    (calls : c.calls = b.calls) (since : m.Since k) : Grows k b c where
  lived := lived
  id := id
  emissions := Nat.le_of_eq emissions.symm
  history := ⟨[m], history, by simpa using since⟩
  calls := ⟨[], by simp [calls], by simp⟩

theorem unsubscribe (k : Nat) (b : Bus) (event label : String) :
    Grows k b (b.unsubscribe event label) :=
  of_moment (fun lived => lived.unsubscribe event label) rfl rfl rfl rfl trivial

theorem countEmission (k : Nat) (b : Bus) : Grows k b b.countEmission :=
  ⟨fun lived => lived.countEmission, rfl, Nat.le_succ _, ⟨[], by simp [Bus.countEmission]⟩,
    ⟨[], by simp [Bus.countEmission]⟩⟩

theorem giveTurn (begun : k < b.emissions) (label : String) : Grows k b (b.giveTurn k label) :=
  of_moment (fun lived => lived.giveTurn begun label) rfl rfl rfl rfl (Nat.le_refl k)

theorem record (call : Call) (begun : call.emission < b.emissions) :
    Grows call.emission b (b.record call) := by
  refine ⟨fun lived => lived.record begun, rfl, Nat.le_refl _, ⟨[], by simp [Bus.record], by simp⟩,
    ⟨[_], rfl, ?_⟩⟩
  intro c hc
  obtain rfl := List.mem_singleton.mp hc
  exact Nat.le_refl _

end Grows

def Numbers (send : String → Payload → Delivery Unit) : Prop :=
  ∀ event payload b,
    Ends (send event payload) b (fun _ => Grows b.emissions b) fun _ => Grows b.emissions b

section Turns

variable {crew : Crew} {send : String → Payload → Delivery Unit} {n : Nat} {event label : String}
  {payload : Payload} {b c : Bus}

theorem act_grows (numbers : Numbers send) (label : String) (conduct : Conduct) (b : Bus) :
    Ends (act send label conduct) b (fun _ => Grows b.emissions b)
      fun _ => Grows b.emissions b := by
  induction conduct generalizing b with
  | done => exact (ends_pure ()).mpr (.refl _ b)
  | fail fault => exact (ends_throw fault).mpr (.refl _ b)
  | leave event rest ih =>
    have onward : ∀ c, Grows b.emissions (b.unsubscribe event label) c → Grows b.emissions b c :=
      fun c h => (Grows.unsubscribe _ b event label).trans h
    exact ends_modify_bind.mpr ((ih _).mono (fun _ => onward) fun _ => onward)
  | emit event payload rest ih =>
    have tried : Ends (attempt (send event payload)) b (fun _ => Grows b.emissions b)
        fun _ => Grows b.emissions b := ends_attempt.mpr (numbers event payload b)
    refine tried.bind fun fault c grown => ends_get_bind.mpr ?_
    have onward : ∀ d, Grows c.emissions c d → Grows b.emissions b d :=
      fun d h => grown.trans (h.mono grown.emissions)
    exact (ih fault c c).mono (fun _ => onward) fun _ => onward

/-- The turn of a receiver in an emission: it is called if it is still subscribed, and whatever else
happens is the matter of later emissions. -/
structure Served (n : Nat) (event : String) (payload : Payload) (label : String) (b c : Bus) :
    Prop where
  grows : Grows n b c
  history : ∃ ms, c.history = b.history ++ .turn n label :: ms ∧ ∀ m ∈ ms, m.Since (n + 1)
  calls : ∃ cs, c.calls = b.calls ++
      (if label ∈ b.subscribers event then [⟨n, event, label, b.id, payload⟩] else []) ++ cs ∧
    ∀ call ∈ cs, n + 1 ≤ call.emission

theorem serve_ends (numbers : Numbers send) (begun : n < b.emissions) :
    Ends (serve crew send n event payload label) b (fun _ => Served n event payload label b)
      fun _ => Grows n b := by
  have turned := Grows.giveTurn begun label
  refine ends_modify_bind.mpr (ends_get_bind.mpr ?_)
  by_cases subscribed : label ∈ b.subscribers event
  · have still : label ∈ (b.giveTurn n label).subscribers event := subscribed
    rw [if_pos (List.contains_iff_mem.mpr still)]
    by_cases sender : payload.namesSender = true
    · rw [if_pos sender]
      exact (ends_throw _).mpr turned
    · rw [if_neg sender]
      let call : Call := ⟨n, event, label, b.id, payload⟩
      have called : Grows n (b.giveTurn n label) ((b.giveTurn n label).record call) :=
        Grows.record call begun
      refine ends_modify_bind.mpr
        ((act_grows numbers label _ _).mono (fun _ c h => ?_) fun _ c h => ?_)
      · have later : Grows (n + 1) ((b.giveTurn n label).record call) c := h.mono begun
        obtain ⟨ms, grown, since⟩ := later.history
        obtain ⟨cs, recorded, since_call⟩ := later.calls
        refine ⟨(turned.trans called).trans (later.mono (Nat.le_succ n)), ⟨ms, ?_, since⟩,
          ⟨cs, ?_, since_call⟩⟩
        · rw [grown]
          simp [Bus.record, Bus.giveTurn]
        · rw [recorded, if_pos subscribed]
          rfl
      · exact (turned.trans called).trans (h.mono (Nat.le_of_lt begun))
  · have gone : label ∉ (b.giveTurn n label).subscribers event := subscribed
    rw [if_neg fun h => gone (List.contains_iff_mem.mp h)]
    refine (ends_pure ()).mpr ⟨turned, ⟨[], rfl, by simp⟩, ⟨[], ?_, by simp⟩⟩
    rw [if_neg subscribed]
    simp [Bus.giveTurn]

theorem serveAll_grows (numbers : Numbers send) (labels : List String) (begun : n < b.emissions) :
    Ends (labels.forM (serve crew send n event payload)) b (fun _ => Grows n b)
      fun _ => Grows n b := by
  induction labels generalizing b with
  | nil => exact (ends_pure ()).mpr (.refl n b)
  | cons label labels ih =>
    change Ends (serve crew send n event payload label >>= fun _ =>
      labels.forM (serve crew send n event payload)) b _ _
    refine (serve_ends numbers begun).bind fun _ c served => ?_
    have rest := ih (Nat.lt_of_lt_of_le begun served.grows.emissions)
    exact rest.mono (fun _ _ h => served.grows.trans h) fun _ _ h => served.grows.trans h

end Turns

theorem deliver_numbers (crew : Crew) (depth : Nat) : Numbers (deliver crew depth) := by
  -- the emissions that receivers nest are of the lesser depth
  induction depth with
  | zero => exact fun event payload b => (ends_throw _).mpr (.refl _ b)
  | succ depth ih =>
    intro event payload b
    unfold deliver
    by_cases reserved : payload.isReserved = true
    · rw [if_pos reserved]
      exact (ends_throw _).mpr (.refl _ b)
    · rw [if_neg reserved]
      refine ends_get_bind.mpr (ends_modify_bind.mpr ?_)
      have counted := Grows.countEmission b.emissions b
      exact (serveAll_grows ih _ (Nat.lt_succ_self b.emissions)).mono
        (fun _ _ h => counted.trans h) fun _ _ h => counted.trans h

end Bus

end Autotile
