import Autotile.Bus
import Autotile.Proofs.Lookup

/-! # Who is subscribed

A bus remembers who joined which event and who left it. The receivers that its signals hold are
those whose latest change was to join, whatever else was emitted and delivered in between. -/
namespace Autotile

namespace Moment

def standing? (event label : String) : Moment → Option Bool
  | .joined e l => if e = event ∧ l = label then some true else none
  | .left e l => if e = event ∧ l = label then some false else none
  | .turn .. => none

section Standing

variable {event label : String} {m : Moment}

theorem standing?_eq_some_true : m.standing? event label = some true ↔ m = .joined event label := by
  cases m <;> simp [standing?]

theorem standing?_eq_some_false : m.standing? event label = some false ↔ m = .left event label := by
  cases m <;> simp [standing?]

end Standing

/-- The latest change of a receiver on an event was to join it. -/
def Joined (history : List Moment) (event label : String) : Prop :=
  (history.filterMap (standing? event label)).getLast? = some true

instance (history : List Moment) (event label : String) : Decidable (Joined history event label) :=
  inferInstanceAs (Decidable (_ = _))

section Changes

variable {event label : String} {history : List Moment} {m : Moment}

theorem joined_concat_of_some {standing : Bool} (h : m.standing? event label = some standing) :
    Joined (history ++ [m]) event label ↔ standing = true := by
  simp [Joined, List.filterMap_append, h]

theorem joined_concat_of_none (h : m.standing? event label = none) :
    Joined (history ++ [m]) event label ↔ Joined history event label := by
  simp [Joined, List.filterMap_append, h]

theorem joined_concat_left : Joined (history ++ [.left event label]) event label ↔ False := by
  have leaves : standing? event label (.left event label) = some false := if_pos ⟨rfl, rfl⟩
  rw [joined_concat_of_some leaves]
  simp

end Changes

end Moment

namespace Bus

open Moment

section Subscribers

variable (b : Bus) (event label e : String)

theorem subscribers_subscribe : (b.subscribe event label).subscribers e =
    if e = event then ((Signal.mk (b.subscribers event)).connect label).receivers
    else b.subscribers e := by
  unfold subscribe subscribers
  dsimp only
  rw [lookup_setEntry]
  by_cases same : e = event
  · rw [if_pos same, if_pos same]
    cases b.signals.lookup event <;> rfl
  · rw [if_neg same, if_neg same]

theorem subscribers_unsubscribe : (b.unsubscribe event label).subscribers e =
    if e = event then (b.subscribers event).filter (· ≠ label) else b.subscribers e := by
  unfold unsubscribe subscribers
  cases found : b.signals.lookup event with
  | none =>
    dsimp only
    by_cases same : e = event
    · rw [if_pos same, same, found]
      rfl
    · rw [if_neg same]
  | some signal =>
    dsimp only
    rw [lookup_setEntry]
    by_cases same : e = event
    · rw [if_pos same, if_pos same]
      rfl
    · rw [if_neg same, if_neg same]

theorem mem_subscribers_subscribe {l : String} : l ∈ (b.subscribe event label).subscribers e ↔
    l ∈ b.subscribers e ∨ (e = event ∧ l = label) := by
  rw [subscribers_subscribe]
  by_cases same : e = event
  · subst same
    unfold Signal.connect
    by_cases known : (b.subscribers e).contains label = true
    · rw [if_pos rfl, if_pos known]
      constructor
      · exact Or.inl
      · rintro (h | ⟨_, rfl⟩)
        · exact h
        · exact List.contains_iff_mem.mp known
    · rw [if_pos rfl, if_neg known]
      simp
  · simp [same]

theorem mem_subscribers_unsubscribe {l : String} : l ∈ (b.unsubscribe event label).subscribers e ↔
    l ∈ b.subscribers e ∧ ¬(e = event ∧ l = label) := by
  rw [subscribers_unsubscribe]
  by_cases same : e = event
  · subst same
    simp
  · simp [same]

end Subscribers

/-- Buses that may come to be: a new one, and what one becomes by whatever can happen on it, also in
the midst of an emission. -/
inductive Lived : Bus → Prop
  | fresh (id : Nat) : Lived { id }
  | subscribe {b : Bus} (h : Lived b) (event label : String) : Lived (b.subscribe event label)
  | unsubscribe {b : Bus} (h : Lived b) (event label : String) : Lived (b.unsubscribe event label)
  | countEmission {b : Bus} (h : Lived b) : Lived b.countEmission
  | giveTurn {b : Bus} (h : Lived b) {emission : Nat} (begun : emission < b.emissions)
      (label : String) : Lived (b.giveTurn emission label)
  | record {b : Bus} (h : Lived b) {call : Call} (begun : call.emission < b.emissions) :
      Lived (b.record call)
  | forget {b : Bus} (h : Lived b) : Lived { b with calls := [] }

structure Consistent (b : Bus) : Prop where
  subscribed : ∀ event label, label ∈ b.subscribers event ↔ Moment.Joined b.history event label
  once : ∀ event, (b.subscribers event).Nodup
  turns : ∀ emission label, .turn emission label ∈ b.history → emission < b.emissions
  calls : ∀ call ∈ b.calls, call.emission < b.emissions

theorem Consistent.subscribe {b : Bus} (h : b.Consistent) (event label : String) :
    (b.subscribe event label).Consistent where
  subscribed e l := by
    rw [mem_subscribers_subscribe, h.subscribed]
    by_cases same : event = e ∧ label = l
    · obtain ⟨rfl, rfl⟩ := same
      have joins : standing? event label (.joined event label) = some true := if_pos ⟨rfl, rfl⟩
      simp [Bus.subscribe, joined_concat_of_some joins]
    · have other : standing? e l (.joined event label) = none := if_neg same
      rw [Bus.subscribe, joined_concat_of_none other]
      constructor
      · rintro (h | ⟨rfl, rfl⟩)
        · exact h
        · exact absurd ⟨rfl, rfl⟩ same
      · exact Or.inl
  once e := by
    rw [subscribers_subscribe]
    by_cases same : e = event
    · rw [if_pos same]
      unfold Signal.connect
      by_cases known : (b.subscribers event).contains label = true
      · rw [if_pos known]
        exact h.once event
      · rw [if_neg known]
        have new : label ∉ b.subscribers event := fun hm => known (List.contains_iff_mem.mpr hm)
        exact List.nodup_append.mpr ⟨h.once event, by simp, fun x hx y hy => by
          rw [List.mem_singleton.mp hy]
          rintro rfl
          exact new hx⟩
    · rw [if_neg same]
      exact h.once e
  turns k l hm := h.turns k l (by simpa [Bus.subscribe] using hm)
  calls := h.calls

theorem Consistent.unsubscribe {b : Bus} (h : b.Consistent) (event label : String) :
    (b.unsubscribe event label).Consistent where
  subscribed e l := by
    rw [mem_subscribers_unsubscribe, h.subscribed]
    by_cases same : event = e ∧ label = l
    · obtain ⟨rfl, rfl⟩ := same
      simp [Bus.unsubscribe, joined_concat_left]
    · have other : standing? e l (.left event label) = none := if_neg same
      rw [Bus.unsubscribe, joined_concat_of_none other]
      refine and_iff_left ?_
      rintro ⟨rfl, rfl⟩
      exact same ⟨rfl, rfl⟩
  once e := by
    rw [subscribers_unsubscribe]
    by_cases same : e = event
    · rw [if_pos same]
      exact (h.once event).filter _
    · rw [if_neg same]
      exact h.once e
  turns k l hm := h.turns k l (by simpa [Bus.unsubscribe] using hm)
  calls := h.calls

theorem Lived.consistent {b : Bus} (h : b.Lived) : b.Consistent := by
  induction h with
  | fresh id =>
    exact ⟨fun _ _ => by simp [subscribers, Moment.Joined], fun _ => List.nodup_nil, by simp,
      by simp⟩
  | subscribe _ event label ih => exact ih.subscribe event label
  | unsubscribe _ event label ih => exact ih.unsubscribe event label
  | countEmission _ ih =>
    exact ⟨ih.subscribed, ih.once, fun k l hm => Nat.lt_succ_of_lt (ih.turns k l hm),
      fun call hc => Nat.lt_succ_of_lt (ih.calls call hc)⟩
  | @giveTurn b _ emission begun label ih =>
    refine ⟨fun e l => ?_, ih.once, fun k l hm => ?_, ih.calls⟩
    · exact (ih.subscribed e l).trans (joined_concat_of_none rfl).symm
    · rcases List.mem_append.mp hm with hm | hm
      · exact ih.turns k l hm
      · obtain ⟨rfl, rfl⟩ := Moment.turn.inj (List.mem_singleton.mp hm)
        exact begun
  | @record b _ call begun ih =>
    refine ⟨ih.subscribed, ih.once, ih.turns, fun c hc => ?_⟩
    rcases List.mem_append.mp hc with hc | hc
    · exact ih.calls c hc
    · rw [List.mem_singleton.mp hc]
      exact begun
  | forget _ ih => exact ⟨ih.subscribed, ih.once, ih.turns, by simp⟩

end Bus

end Autotile
