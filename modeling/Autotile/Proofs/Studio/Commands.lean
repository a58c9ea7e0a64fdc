import Autotile.Proofs.Studio.Outcome
import Autotile.Studio.Running

/-! # Every command is made of the same few edits

A course that the edits of the map follow is followed by every command that may be given at the
desk, requests and loads among them. -/
namespace Autotile

open Edit

namespace Desk

variable {d : Desk} {C : Course}

theorem follows_refreshAs (hear : ∀ event, Edit.Follows C (d.hear event))
    (redraw : ∀ b id fragments, C.done b (b.setFragments id fragments)) (named : Datum)
    (id : EntityId) : Edit.Follows C (d.refreshAs named id) := by
  refine (follows_consult _).bind fun tile => (follows_consult _).bind fun fragments => ?_
  refine Edit.Follows.ite (fun _ => follows_pure _) fun _ => ?_
  exact (follows_alter fun b => redraw b id fragments).bind fun _ =>
    (Edit.Follows.publish (hear _)).bind fun _ => follows_pure _

theorem follows_cascade (refresh : ∀ named id, Edit.Follows C (d.refreshAs named id))
    (cell : Cell) : Edit.Follows C (d.cascade cell) := by
  have refreshAt : ∀ c, Edit.Follows C (d.refreshAt c) := by
    intro c
    refine (follows_consult _).bind fun found => ?_
    cases found with
    | none => exact follows_pure _
    | some id =>
      refine (refresh _ id).bind fun changed => ?_
      exact Edit.Follows.ite (fun _ => follows_pure _) fun _ => follows_pure _
  refine (Edit.Follows.filterMapM fun offset _ => refreshAt _).bind fun changed => ?_
  exact (follows_consult _).bind fun _ => (follows_note _).bind fun _ => follows_pure _

theorem follows_refuse (hear : ∀ event, Edit.Follows C (d.hear event)) (layer : Layer)
    (cell : Cell) (reason : Refusal) : Edit.Follows C (d.refuse layer cell reason) := by
  cases reason with
  | occupied => exact (follows_note _).bind fun _ => Edit.Follows.publish (hear _)
  | empty => exact (follows_note _).bind fun _ => Edit.Follows.publish (hear _)

end Desk

/-- The edits of a desk follow a course. Whoever hears of them may not move the board further than
an edit that answers, since a fault of theirs may be caught. -/
structure Desk.Follows (d : Desk) (C : Course) : Prop where
  hear : ∀ event, Edit.Follows C.steady (d.hear event)
  refreshAs : ∀ named id, Edit.Follows C (d.refreshAs named id)
  cascade : ∀ cell, Edit.Follows C (d.cascade cell)
  add : ∀ layer cell type, type ≠ "" → Edit.Follows C (d.add layer cell type)
  remove : ∀ layer cell, Edit.Follows C (d.remove layer cell)
  clear : Edit.Follows C d.clear

theorem Datum.toTypeName_eq_ok {given : Datum} {type : String} (h : given.toTypeName = .ok type) :
    given = .text type ∧ type ≠ "" := by
  cases given with
  | text t =>
    by_cases ht : t.isEmpty = true
    · simp [toTypeName, ht] at h
    · simp only [toTypeName, ht, Bool.false_eq_true, if_false, Except.ok.injEq] at h
      subst h
      exact ⟨rfl, by simpa [String.isEmpty_iff] using ht⟩
  | _ => simp [toTypeName] at h

theorem Datum.toTypeName_text {type : String} (named : type ≠ "") :
    (Datum.text type).toTypeName = .ok type := by
  have texted : ¬type.isEmpty = true := by simpa [String.isEmpty_iff] using named
  exact if_neg texted

/-- What may come of an entry of a saved map, by what can be read of its value and its key. -/
inductive Desk.EntryRun (d : Desk) (layer : Layer) (tally : Tally) (key : String) :
    Datum → Edit Tally → Prop
  | null : EntryRun d layer tally key .null (pure tally)
  | unnamed : EntryRun d layer tally key (.text "") (pure tally)
  | mistyped {value : Datum} (given : value.isNull = false) (untexted : ∀ t, value ≠ .text t)
      (notice : Notice) : EntryRun d layer tally key value do
        note notice
        return tally.skip
  | malformed {type : String} {fault : KeyFault} (named : type ≠ "")
      (unread : Cell.ofKey key = .error fault) (form : fault.isForm = true) (notice : Notice) :
      EntryRun d layer tally key (.text type) do
        note notice
        return tally.skip
  | unreadable {type : String} {fault : KeyFault} (named : type ≠ "")
      (unread : Cell.ofKey key = .error fault) (numeral : fault.isForm = false) :
      EntryRun d layer tally key (.text type) (throw (.key fault))
  | placed {type : String} {cell : Cell} (named : type ≠ "") (read : Cell.ofKey key = .ok cell) :
      EntryRun d layer tally key (.text type) do
        return if (← d.add layer cell type).isSome then tally.add else tally.skip

theorem Desk.loadEntry_run (d : Desk) (layer : Layer) (tally : Tally) (key : String)
    (value : Datum) : d.EntryRun layer tally key value (d.loadEntry layer tally key value) := by
  cases value with
  | null => exact .null
  | text type =>
    unfold loadEntry
    dsimp only
    by_cases blank : type.isEmpty = true
    · rw [if_pos blank, String.isEmpty_iff.mp blank]
      exact .unnamed
    · have named : type ≠ "" := by simpa [String.isEmpty_iff] using blank
      rw [if_neg blank]
      cases read : Cell.ofKey key with
      | ok cell => exact .placed named read
      | error fault =>
        dsimp only
        by_cases form : fault.isForm = true
        · rw [if_pos form]
          exact .malformed named read form _
        · rw [if_neg form]
          exact .unreadable named read (Bool.eq_false_iff.mpr form)
  | _ => exact .mistyped rfl (by simp) _

namespace Desk.Follows

variable {d : Desk} {C : Course}

theorem publish (h : d.Follows C) (event : Event) : Edit.Follows C (d.publish event) :=
  Edit.Follows.publish (h.hear event).of_steady

theorem addGiven (h : d.Follows C) (layer : Layer) (cell type : Datum) :
    Edit.Follows C (d.addGiven layer cell type) := by
  refine (follows_consult _).bind fun c => Edit.Follows.consult_bind fun type s ht => ?_
  exact (h.add layer c type (Datum.toTypeName_eq_ok ht).2).ends s

theorem removeGiven (h : d.Follows C) (layer : Layer) (cell : Datum) :
    Edit.Follows C (d.removeGiven layer cell) :=
  (follows_consult _).bind fun c => h.remove layer c

theorem loadEntry (h : d.Follows C) (layer : Layer) (tally : Tally) (key : String)
    (value : Datum) : Edit.Follows C (d.loadEntry layer tally key value) := by
  have run := d.loadEntry_run layer tally key value
  generalize d.loadEntry layer tally key value = x at run ⊢
  cases run with
  | null => exact follows_pure _
  | unnamed => exact follows_pure _
  | mistyped => exact (follows_note _).bind fun _ => follows_pure _
  | malformed => exact (follows_note _).bind fun _ => follows_pure _
  | unreadable => exact follows_throw _
  | placed named => exact (h.add layer _ _ named).bind fun _ => follows_pure _

theorem load (h : d.Follows C) (data : Datum) (replace : Bool) :
    Edit.Follows C (d.load data replace) := by
  have loaded : ∀ layer entries, Edit.Follows C (d.loadSection layer entries) := by
    intro layer entries
    exact Edit.Follows.foldlM (fun tally entry _ => h.loadEntry layer tally entry.1 entry.2) _
  have rest : ∀ tiles objects, Edit.Follows C (do
      let tiles ← d.loadSection .tile tiles
      let objects ← d.loadSection .object objects
      d.publish (.loaded tiles.added objects.added (tiles.skipped + objects.skipped))
      return tiles.added + objects.added) := fun tiles objects =>
    (loaded .tile tiles).bind fun _ => (loaded .object objects).bind fun _ =>
      (h.publish _).bind fun _ => follows_pure _
  refine (follows_consult _).bind fun entries => (follows_consult _).bind fun tiles =>
    (follows_consult _).bind fun objects => ?_
  cases replace with
  | true => exact h.clear.bind fun _ => rest tiles objects
  | false => exact rest tiles objects

theorem reload (h : d.Follows C) (replace : Bool) : Edit.Follows C (d.reload replace) :=
  (follows_consult _).bind fun saved => h.load saved.toDatum replace

theorem refreshGiven (h : d.Follows C) (entity : Datum) :
    Edit.Follows C (d.refreshGiven entity) :=
  (follows_consult _).bind fun id => h.refreshAs entity id

theorem follows_brush : Edit.Follows C Desk.brush := by
  refine follows_get.bind fun s => ?_
  cases s.brush with
  | none => exact follows_throw _
  | some brush => exact follows_pure _

theorem follows_guard {α : Type} {p : Prop} [Decidable p] {fault : Fault} {x : Unit → Edit α}
    (hx : Edit.Follows C (x ())) :
    Edit.Follows C (if p then (do let r ← throw fault; x r) else x ()) :=
  Edit.Follows.ite (fun _ => (follows_throw fault).bind fun _ => hx) fun _ => hx

theorem select (h : d.Follows C) (mode type : Datum) :
    Edit.Follows C.steady (d.select mode type) := by
  refine follows_brush.bind fun _ => (follows_consult _).bind fun mode => ?_
  have rest : ∀ selected : Brush, Edit.Follows C.steady (do
      modify fun s => { s with brush := some selected }
      d.publish (.brushChanged selected.mode selected.type)
      Desk.brush) := by
    intro selected
    refine Edit.Follows.bind (follows_modify ?_) fun _ => ?_
    · exact fun _ => rfl
    · exact (Edit.Follows.publish (h.hear _)).bind fun _ => follows_brush
  by_cases needs : (decide (mode ≠ .remove) && type.isBlank) = true
  · rw [if_pos needs]
    exact (follows_throw _).bind fun _ => rest _
  · rw [if_neg needs]
    exact rest _

theorem trySelect (h : d.Follows C) (mode type : Datum) :
    Edit.Follows C (d.trySelect mode type) := by
  refine Edit.Follows.tryCatch ((h.select mode type).bind fun _ => follows_pure _) fun fault => ?_
  exact Edit.Follows.ite (fun _ => follows_note _) fun _ => follows_throw _

theorem apply (h : d.Follows C) (cell : Datum) (side : Path) :
    Edit.Follows C (d.apply cell side) := by
  refine follows_brush.bind fun brush => (follows_consult _).bind fun cell => ?_
  cases brush.mode with
  | tile => exact (h.addGiven _ _ _).bind fun _ => follows_pure _
  | object => exact (h.addGiven _ _ _).bind fun _ => follows_pure _
  | remove =>
    refine (follows_consult _).bind fun type => ?_
    cases type <;> exact h.remove _ _

theorem applyGiven (h : d.Follows C) (cell side : Datum) :
    Edit.Follows C (d.applyGiven cell side) :=
  follows_brush.bind fun _ => (follows_consult _).bind fun side => h.apply cell side

theorem click (h : d.Follows C) (cell x y : Datum) : Edit.Follows C (d.click cell x y) := by
  refine (follows_consult _).bind fun side => ?_
  cases side with
  | none => exact follows_pure _
  | some side => exact (h.apply cell [side]).bind fun _ => follows_pure _

theorem meet (h : d.Follows C) (request : Request) (payload : Payload) :
    Edit.Follows C (d.meet request payload) := by
  cases request with
  | place layer =>
    exact Edit.Follows.ite (fun _ => follows_pure _) fun _ =>
      (h.addGiven _ _ _).bind fun _ => follows_pure _
  | take layer =>
    exact Edit.Follows.ite (fun _ => follows_pure _) fun _ =>
      (h.removeGiven _ _).bind fun _ => follows_pure _
  | load =>
    exact Edit.Follows.ite (fun _ => follows_pure _) fun _ =>
      (h.load _ _).bind fun _ => follows_pure _
  | select => exact Edit.Follows.ite (fun _ => follows_pure _) fun _ => h.trySelect _ _
  | click => exact Edit.Follows.ite (fun _ => follows_pure _) fun _ => h.click _ _ _

theorem deliver (h : d.Follows C) (name : String) (payload : Payload) :
    Edit.Follows C (d.deliver name payload) := by
  unfold Desk.deliver
  cases Request.ofName? name with
  | some request =>
    refine follows_get.bind fun s => ?_
    exact Edit.Follows.ite (fun _ => follows_pure _) fun _ => follows_guard (h.meet request payload)
  | none =>
    exact Edit.Follows.ite (fun _ => follows_guard (h.publish _)) fun _ => follows_pure _

theorem emit (h : d.Follows C) (event payload : Datum) : Edit.Follows C (d.emit event payload) := by
  unfold Desk.emit
  cases payload with
  | record entries =>
    cases event with
    | text name => exact follows_guard (h.deliver name _)
    | _ => exact follows_guard (Edit.Follows.ite (fun _ => follows_throw _) fun _ => follows_pure _)
  | _ => exact follows_throw _

/-- Whatever a command does to the board, the edits it is made of do. -/
theorem run (h : d.Follows C) (command : Command) : Edit.Follows C (command.run d) := by
  have answered : ∀ {α : Type} (f : Board → Except Fault α) (answer : α → Answer),
      Edit.Follows C (do return answer (← consult f)) := fun f answer =>
    (follows_consult f).bind fun _ => follows_pure _
  cases command with
  | add => exact (h.addGiven _ _ _).bind fun _ => follows_pure _
  | remove => exact (h.removeGiven _ _).bind fun _ => follows_pure _
  | clear => exact h.clear.bind fun _ => follows_pure _
  | load => exact (h.load _ _).bind fun _ => follows_pure _
  | reload => exact (h.reload _).bind fun _ => follows_pure _
  | refresh => exact (h.refreshGiven _).bind fun _ => follows_pure _
  | cascade =>
    exact (follows_consult _).bind fun cell => (h.cascade cell).bind fun _ => follows_pure _
  | select => exact (h.select _ _).of_steady.bind fun _ => follows_pure _
  | apply => exact (h.applyGiven _ _).bind fun _ => follows_pure _
  | emit => exact (h.emit _ _).bind fun _ => follows_pure _
  | position => exact (follows_consult _).bind fun _ => follows_pure _
  | offsets => exact follows_pure _
  | brush => exact follows_brush.bind fun _ => follows_pure _
  | elsewhere => exact follows_throw _
  | await =>
    refine Edit.Follows.bind (follows_modify ?_) fun _ => follows_pure _
    exact fun _ => rfl
  | _ => exact answered _ _

end Desk.Follows

end Autotile
