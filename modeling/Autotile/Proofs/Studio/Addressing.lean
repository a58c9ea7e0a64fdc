import Mathlib.Data.List.Basic
import Autotile.Proofs.Fault
import Autotile.Proofs.Studio.Outcome
import Autotile.Studio.Running

/-! # Naming a cell

A cell is named by itself or by a value of three members. A value of any other shape is at fault
itself, and so is one with a member that is no number; only an infinite number fails in a way of its
own. Whoever fails at the cell that was named has done nothing. -/
namespace Autotile

open Numeral

namespace Datum

variable {given : Datum}

def NamesCellOrFaults (given : Datum) : Prop :=
  (∃ c, given.toCell = .ok c) ∨ ∃ fault, given.toCell = .error fault ∧ fault.isValueFault = true

/-- The value has three members, and the first of them that is no coordinate is infinite. -/
def StopsAtInfinity (given : Datum) : Prop :=
  ∃ before negative after,
    given.members? = some (before ++ .real (.infinite negative) :: after) ∧
    before.length + after.length = 2 ∧ ∀ member ∈ before, ∃ n, toCoordinate given member = .ok n

theorem toCoordinate_cases (given member : Datum) :
    (∃ n, toCoordinate given member = .ok n) ∨
      toCoordinate given member = .error (.notCell given) ∨
      ∃ negative, member = .real (.infinite negative) := by
  have numeral (read : Except NumeralFault Int) :
      (∃ n, (read.mapError fun _ => Fault.notCell given) = .ok n) ∨
        (read.mapError fun _ => Fault.notCell given) = .error (.notCell given) := by
    cases read with
    | ok n => exact Or.inl ⟨n, rfl⟩
    | error fault => exact Or.inr rfl
  cases member with
  | int n => exact Or.inl ⟨n, rfl⟩
  | flag b => exact Or.inl ⟨_, rfl⟩
  | real x =>
    cases x with
    | finite negative n => exact Or.inl ⟨_, rfl⟩
    | infinite negative => exact Or.inr (Or.inr ⟨negative, rfl⟩)
    | nan => exact Or.inr (Or.inl rfl)
  | text s => exact (numeral (readInt s)).imp_right Or.inl
  | bytes bs => exact (numeral (readPlain "" _)).imp_right Or.inl
  | null | list | record | cell | mode => exact Or.inr (Or.inl rfl)

theorem toCell_of_members {s e u : Datum} (members : given.members? = some [s, e, u]) :
    given.toCell = do
      let s ← toCoordinate given s
      let e ← toCoordinate given e
      let u ← toCoordinate given u
      return ⟨s, e, u⟩ := by
  cases given with
  | cell c => cases members
  | _ => simp only [toCell, members]

theorem toCell_of_stopsAtInfinity (h : given.StopsAtInfinity) :
    given.toCell = .error .infiniteInteger := by
  obtain ⟨before, negative, after, members, three, read⟩ := h
  rcases before with _ | ⟨s, _ | ⟨e, _ | ⟨u, before⟩⟩⟩
  · obtain ⟨e, u, rfl⟩ := List.length_eq_two.mp (show after.length = 2 by simpa using three)
    rw [toCell_of_members members]
    rfl
  · have one : after.length = 1 := by
      rw [List.length_singleton] at three
      omega
    obtain ⟨u, rfl⟩ := List.length_eq_one_iff.mp one
    obtain ⟨n, hs⟩ := read s (by simp)
    rw [toCell_of_members members, hs]
    rfl
  · obtain rfl := List.length_eq_zero_iff.mp (show after.length = 0 by simpa using three)
    obtain ⟨n, hs⟩ := read s (by simp)
    obtain ⟨m, he⟩ := read e (by simp)
    rw [toCell_of_members members, hs, he]
    rfl
  · simp at three
    omega

theorem toCell_cases (given : Datum) :
    (∃ c, given.toCell = .ok c) ∨ given.toCell = .error (.notCell given) ∨
      given.StopsAtInfinity := by
  by_cases named : ∃ c, given = .cell c
  · obtain ⟨c, rfl⟩ := named
    exact Or.inl ⟨c, rfl⟩
  by_cases shape : ∃ s e u, given.members? = some [s, e, u]
  · obtain ⟨s, e, u, members⟩ := shape
    rw [toCell_of_members members]
    rcases toCoordinate_cases given s with ⟨m, hs⟩ | hs | ⟨negative, rfl⟩
    · rcases toCoordinate_cases given e with ⟨n, he⟩ | he | ⟨negative, rfl⟩
      · rcases toCoordinate_cases given u with ⟨k, hu⟩ | hu | ⟨negative, rfl⟩
        · rw [hs, he, hu]
          exact Or.inl ⟨_, rfl⟩
        · rw [hs, he, hu]
          exact Or.inr (Or.inl rfl)
        · exact Or.inr (Or.inr ⟨[s, e], negative, [], members, rfl, by simp [hs, he]⟩)
      · rw [hs, he]
        exact Or.inr (Or.inl rfl)
      · exact Or.inr (Or.inr ⟨[s], negative, [u], members, rfl, by simp [hs]⟩)
    · rw [hs]
      exact Or.inr (Or.inl rfl)
    · exact Or.inr (Or.inr ⟨[], negative, [e, u], members, rfl, by simp⟩)
  · refine Or.inr (Or.inl ?_)
    unfold toCell
    split
    · next c => exact absurd ⟨c, rfl⟩ named
    · split
      · next s e u members => exact absurd ⟨s, e, u, members⟩ shape
      · rfl

theorem namesCellOrFaults_iff : given.NamesCellOrFaults ↔ ¬given.StopsAtInfinity := by
  constructor
  · intro h stops
    have infinite := toCell_of_stopsAtInfinity stops
    rcases h with ⟨c, read⟩ | ⟨fault, failed, value⟩
    · rw [infinite] at read
      cases read
    · rw [infinite] at failed
      cases failed
      cases value
  · intro finite
    rcases toCell_cases given with read | failed | stops
    · exact Or.inl read
    · exact Or.inr ⟨_, failed, rfl⟩
    · exact absurd stops finite

end Datum

namespace Command

/-- The edits of the map and the questions about it that are directed to a cell, each with the value
that names the cell. -/
inductive Addresses : Command → Datum → Prop
  | add (layer : Layer) (cell type : Datum) : Addresses (.add layer cell type) cell
  | remove (layer : Layer) (cell : Datum) : Addresses (.remove layer cell) cell
  | cascade (cell : Datum) : Addresses (.cascade cell) cell
  | typeAt (layer : Layer) (cell : Datum) : Addresses (.typeAt layer cell) cell
  | entityAt (layer : Layer) (cell : Datum) : Addresses (.entityAt layer cell) cell
  | fragmentsAt (cell : Datum) : Addresses (.fragmentsAt cell) cell

/-- The cell is read first, so where that fails nothing has been done. -/
theorem Addresses.run_of_unread {command : Command} {given : Datum} {fault : Fault}
    (h : command.Addresses given) (unread : given.toCell = .error fault) (d : Desk) (s : Studio) :
    command.run d s = .error fault s := by
  cases h with
  | add layer cell type =>
    exact bind_of_error (bind_of_error (Edit.consult_of_error unread) _) _
  | remove layer cell =>
    exact bind_of_error (bind_of_error (Edit.consult_of_error unread) _) _
  | cascade cell => exact bind_of_error (Edit.consult_of_error unread) _
  | typeAt layer cell =>
    exact bind_of_error (Edit.consult_of_error (bind_of_eq_error unread _)) _
  | entityAt layer cell =>
    exact bind_of_error (Edit.consult_of_error (bind_of_eq_error unread _)) _
  | fragmentsAt cell =>
    exact bind_of_error (Edit.consult_of_error (bind_of_eq_error unread _)) _

end Command

namespace Datum

/-- A value names a cell, or the fault lies in the value, iff it does not come to an infinite number
before the name has failed in another way; there the number is at fault. An edit or a question that
is directed to a cell fails as the naming does, and leaves everything as it was. -/
theorem cell_naming_exact_iff (given : Datum) :
    (given.NamesCellOrFaults ↔ ¬given.StopsAtInfinity) ∧
    (given.StopsAtInfinity → given.toCell = .error .infiniteInteger) ∧
    ∀ fault, given.toCell = .error fault →
      (fault = .notCell given ∨ given.StopsAtInfinity) ∧
      ∀ command : Command, command.Addresses given → ∀ d s, command.run d s = .error fault s := by
  refine ⟨namesCellOrFaults_iff, toCell_of_stopsAtInfinity, fun fault failed => ⟨?_, ?_⟩⟩
  · rcases toCell_cases given with ⟨c, read⟩ | blamed | stops
    · rw [failed] at read
      cases read
    · rw [failed] at blamed
      exact Or.inl (Except.error.inj blamed)
    · exact Or.inr stops
  · exact fun command addresses d s => addresses.run_of_unread failed d s

/-- The numeral is read; the member after the infinite number is not looked at. -/
theorem cell_naming_exact_iff_below_everything :
    let given : Datum := .list [.text " 7", .real (.infinite true), .null]
    let d : Desk := ⟨.empty, [], fun _ => pure ()⟩
    let start : Studio := { board := { fixtures := 1 } }
    given.StopsAtInfinity ∧ given.toCell = .error .infiniteInteger ∧
      (Command.add .tile given (.text "rock")).run d start = .error .infiniteInteger start ∧
      (Command.typeAt .tile given).run d start = .error .infiniteInteger start := by
  intro given d start
  have stops : given.StopsAtInfinity := by
    refine ⟨[.text " 7"], true, [.null], rfl, rfl, ?_⟩
    intro member hm
    obtain rfl := List.mem_singleton.mp hm
    have seven : readInt " 7" = .ok 7 := rfl
    exact ⟨7, by rw [toCoordinate, seven]; rfl⟩
  obtain ⟨-, infinite, fails⟩ := cell_naming_exact_iff given
  obtain ⟨-, runs⟩ := fails _ (infinite stops)
  exact ⟨stops, infinite stops, runs _ (.add _ _ _) d start, runs _ (.typeAt _ _) d start⟩

/-- An infinite number names no cell, but it is not the value that is found to be at fault. -/
theorem not_every_name_of_a_cell_faults : ¬∀ given : Datum, given.NamesCellOrFaults := by
  intro h
  rcases h (.list [.int 0, .int 0, .real (.infinite false)]) with ⟨c, read⟩ | ⟨fault, failed, value⟩
  · cases read
  · cases failed
    cases value

end Datum

end Autotile
