import Autotile.Proofs.Studio.Mirror

/-! # What is published is enough to follow the map

Whoever hears everything that is published since the map was empty can tell, after every edit and
every load that is answered, what stands on the map, how it looks and in which order it is
painted. -/
namespace Autotile

open Edit

/-- From one state to another the board made moves, and what was published meanwhile takes a mirror
that shows it before to one that shows it afterwards. -/
def Reflects (book : Rulebook) (s t : Studio) : Prop :=
  s.board.Sound → s.board.Tidy → Board.Moves book s.board t.board ∧
    ∃ told, t.events = s.events ++ told ∧
      ∀ m : Mirror, m.Shows s.board → (m.hears told).Shows t.board

theorem Board.Moves.tidy {book : Rulebook} {b b' : Board} (h : Moves book b b') (sound : b.Sound)
    (tidy : b.Tidy) : b'.Tidy :=
  h.invariant sound tidy fun _ _ sound tidy move => tidy.move sound move

namespace Reflects

variable {book : Rulebook} {s t u : Studio}

theorem still (board : t.board = s.board) (events : t.events = s.events) : Reflects book s t := by
  intro _ _
  refine ⟨board ▸ .refl, [], events.trans (List.append_nil _).symm, fun m shows => ?_⟩
  rw [board]
  exact shows

theorem trans (h : Reflects book s t) (h' : Reflects book t u) : Reflects book s u := by
  intro sound tidy
  obtain ⟨moves, told, events, reflected⟩ := h sound tidy
  obtain ⟨moves', told', events', reflected'⟩ := h' (moves.sound sound) (moves.tidy sound tidy)
  refine ⟨moves.trans moves', told ++ told', ?_, fun m shows => ?_⟩
  · rw [events', events, List.append_assoc]
  · rw [Mirror.hears_append]
    exact reflected' _ (reflected m shows)

theorem of_published {events : List Event}
    (published : Published Event.tellsOfMap s t events) (moves : Board.Moves book s.board t.board)
    (reflected : ∀ m : Mirror, m.Shows s.board → (m.hears events).Shows t.board) :
    Reflects book s t := by
  intro _ _
  obtain ⟨told, ht, same⟩ := published
  refine ⟨moves, told, ht, fun m shows => ?_⟩
  rw [Mirror.hears_congr same]
  exact reflected m shows

end Reflects

namespace Edit

variable {book : Rulebook} {α β : Type}

structure Reflected (book : Rulebook) (x : Edit α) : Prop where
  ends : ∀ s, Ends x s (fun _ t => Reflects book s t) fun _ _ => True

theorem ends_reflects {x : Edit α} {s : Studio}
    (h : s.board.Sound → s.board.Tidy → Ends x s (fun _ t => Reflects book s t) fun _ _ => True) :
    Ends x s (fun _ t => Reflects book s t) fun _ _ => True := by
  refine (Ends.imp fun sound => Ends.imp fun tidy => h sound tidy).mono ?_ fun _ _ _ => trivial
  intro _ t reflects sound tidy
  exact reflects sound tidy sound tidy

theorem reflected_pure (a : α) : Reflected book (pure a : Edit α) :=
  ⟨fun _ => (ends_pure a).mpr (.still rfl rfl)⟩

theorem reflected_consult (f : Board → Except Fault α) : Reflected book (consult f) :=
  ⟨fun _ => (ends_consult f).mpr ⟨fun _ _ => .still rfl rfl, fun _ _ => trivial⟩⟩

theorem reflected_throw (fault : Fault) : Reflected book (throw fault : Edit α) :=
  ⟨fun _ => (ends_throw fault).mpr trivial⟩

theorem reflected_get : Reflected book (get : Edit Studio) :=
  ⟨fun _ => ends_get.mpr (.still rfl rfl)⟩

theorem reflected_note (notice : Notice) : Reflected book (note notice) :=
  ⟨fun _ => (ends_note notice).mpr (.still rfl rfl)⟩

theorem Reflected.bind {x : Edit β} {f : β → Edit α} (hx : Reflected book x)
    (hf : ∀ b, Reflected book (f b)) : Reflected book (x >>= f) := by
  constructor
  intro s
  refine Ends.bind (hx.ends s) fun b t ht => ?_
  exact ((hf b).ends t).mono (fun _ _ hu => ht.trans hu) fun _ _ h => h

theorem Reflected.consult_bind {f : Board → Except Fault β} {g : β → Edit α}
    (h : ∀ b, ∀ s : Studio, f s.board = .ok b →
      Ends (g b) s (fun _ t => Reflects book s t) fun _ _ => True) :
    Reflected book (consult f >>= g) := by
  constructor
  intro s
  exact ends_consult_bind.mpr ⟨fun b hb => h b s hb, fun _ _ => trivial⟩

theorem Reflected.ite {p : Prop} [Decidable p] {x y : Edit α} (hx : p → Reflected book x)
    (hy : ¬p → Reflected book y) : Reflected book (if p then x else y) := by
  by_cases h : p
  · rw [if_pos h]
    exact hx h
  · rw [if_neg h]
    exact hy h

theorem reflected_guard {p : Prop} [Decidable p] {fault : Fault} {x : Unit → Edit α}
    (hx : Reflected book (x ())) :
    Reflected book (if p then (do let r ← throw fault; x r) else x ()) := by
  refine Reflected.ite (fun _ => ?_) fun _ => hx
  exact (reflected_throw fault).bind fun _ => hx

theorem Reflected.foldlM {f : β → α → Edit β} {xs : List α}
    (h : ∀ b, ∀ x ∈ xs, Reflected book (f b x)) (b : β) : Reflected book (xs.foldlM f b) := by
  induction xs generalizing b with
  | nil => exact reflected_pure b
  | cons x xs ih =>
    rw [List.foldlM_cons]
    refine (h b x List.mem_cons_self).bind fun b => ?_
    exact ih (fun b y hy => h b y (List.mem_cons_of_mem x hy)) b

end Edit

namespace Desk

variable {d : Desk} (quiet : Quiet d.hear) (discreet : Discreet Event.tellsOfMap d.hear)
include quiet discreet

theorem publish_reflected {event : Event} (silent : event.tellsOfMap = false) :
    Edit.Reflected d.book (d.publish event) := by
  constructor
  intro s
  refine (publish_told quiet discreet event).mono ?_ fun _ _ h => h
  rintro _ t ⟨still, published⟩
  refine .of_published published (still ▸ .refl) fun m shows => ?_
  rw [still, Mirror.hears_cons, Mirror.hear_of_not_tellsOfMap silent]
  exact shows

theorem refreshAs_reflected (named : Datum) (id : EntityId) :
    Edit.Reflected d.book (d.refreshAs named id) := by
  constructor
  intro s
  refine ends_reflects fun sound _ => ?_
  refine (refreshAs_told quiet discreet named id).mono ?_ fun _ _ h => h
  rintro _ t ⟨_, rs, _, told, _⟩
  exact .of_published told.published told.recomposed.redraws.moves fun m shows =>
    shows.recomposed sound told.recomposed

theorem cascade_reflected (cell : Cell) : Edit.Reflected d.book (d.cascade cell) := by
  constructor
  intro s
  refine ends_reflects fun sound _ => ?_
  refine (cascade_told quiet discreet sound cell).mono ?_ fun _ _ h => h
  rintro _ t ⟨rs, told, _⟩
  exact .of_published told.published told.recomposed.redraws.moves fun m shows =>
    shows.recomposed sound told.recomposed

omit quiet discreet in
private theorem refusal_reflects {s t : Studio} {layer : Layer} {cell : Cell} {reason : Refusal}
    (still : t.board = s.board)
    (published : Published Event.tellsOfMap s t [.refused layer cell reason]) :
    Reflects d.book s t := by
  refine .of_published published (still ▸ .refl) fun m shows => ?_
  rw [still]
  exact shows

theorem add_reflected (layer : Layer) (cell : Cell) {type : String} (named : type ≠ "") :
    Edit.Reflected d.book (d.add layer cell type) := by
  constructor
  intro s
  refine ends_reflects fun sound _ => ?_
  refine (add_told quiet discreet sound layer cell named).mono ?_ fun _ _ h => h
  rintro _ t (⟨_, _, still, published⟩ | ⟨_, order, own, around, told⟩)
  · exact refusal_reflects still published
  · refine .of_published told.published ?_ fun m shows => shows.arrival sound named told
    exact .head (.arrive told.free told.keyed named told.sorted) told.recomposed.redraws.moves

theorem remove_reflected (layer : Layer) (cell : Cell) :
    Edit.Reflected d.book (d.remove layer cell) := by
  constructor
  intro s
  refine ends_reflects fun sound _ => ?_
  refine (remove_told quiet discreet sound layer cell).mono ?_ fun _ _ h => h
  rintro _ t (⟨_, _, still, published⟩ | ⟨_, id, e, around, told⟩)
  · exact refusal_reflects still published
  · refine .of_published told.published ?_ fun m shows => shows.departure sound told
    exact .head (.leave told.found) told.recomposed.redraws.moves

theorem clear_reflected : Edit.Reflected d.book d.clear := by
  constructor
  intro s
  refine ends_reflects fun _ tidy => ?_
  refine (clear_told quiet discreet).mono ?_ fun _ _ h => h
  rintro _ t ⟨cleared, published⟩
  refine .of_published published (cleared ▸ .single .clear) fun m _ => ?_
  rw [cleared]
  exact Mirror.shows_clear tidy

theorem addGiven_reflected (layer : Layer) (cell type : Datum) :
    Edit.Reflected d.book (d.addGiven layer cell type) := by
  refine (reflected_consult _).bind fun c => Edit.Reflected.consult_bind fun type s ht => ?_
  exact (add_reflected quiet discreet layer c (Datum.toTypeName_eq_ok ht).2).ends s

theorem removeGiven_reflected (layer : Layer) (cell : Datum) :
    Edit.Reflected d.book (d.removeGiven layer cell) :=
  (reflected_consult _).bind fun c => remove_reflected quiet discreet layer c

theorem loadEntry_reflected (layer : Layer) (tally : Tally) (key : String) (value : Datum) :
    Edit.Reflected d.book (d.loadEntry layer tally key value) := by
  have run := d.loadEntry_run layer tally key value
  generalize d.loadEntry layer tally key value = x at run ⊢
  cases run with
  | null => exact reflected_pure _
  | unnamed => exact reflected_pure _
  | mistyped => exact (reflected_note _).bind fun _ => reflected_pure _
  | malformed => exact (reflected_note _).bind fun _ => reflected_pure _
  | unreadable => exact reflected_throw _
  | placed named =>
    exact (add_reflected quiet discreet layer _ named).bind fun _ => reflected_pure _

theorem load_reflected (data : Datum) (replace : Bool) :
    Edit.Reflected d.book (d.load data replace) := by
  have loaded : ∀ layer entries, Edit.Reflected d.book (d.loadSection layer entries) := by
    intro layer entries
    apply Edit.Reflected.foldlM
    intro tally entry _
    exact loadEntry_reflected quiet discreet layer tally entry.1 entry.2
  have rest : ∀ tiles objects, Edit.Reflected d.book (do
      let tiles ← d.loadSection .tile tiles
      let objects ← d.loadSection .object objects
      d.publish (.loaded tiles.added objects.added (tiles.skipped + objects.skipped))
      return tiles.added + objects.added) := by
    intro tiles objects
    refine (loaded .tile tiles).bind fun _ => (loaded .object objects).bind fun _ => ?_
    exact (publish_reflected quiet discreet rfl).bind fun _ => reflected_pure _
  refine (reflected_consult _).bind fun _ => (reflected_consult _).bind fun tiles =>
    (reflected_consult _).bind fun objects => ?_
  cases replace with
  | true => exact (clear_reflected quiet discreet).bind fun _ => rest tiles objects
  | false => exact rest tiles objects

end Desk

namespace Command

inductive EditsOrLoads : Command → Prop
  | edit {command : Command} (edits : command.EditsMap) : EditsOrLoads command
  | load (data : Datum) (replace : Bool) : EditsOrLoads (.load data replace)
  | reload (replace : Bool) : EditsOrLoads (.reload replace)
  | refresh (entity : Datum) : EditsOrLoads (.refresh entity)
  | cascade (cell : Datum) : EditsOrLoads (.cascade cell)
  | request (r : Request) (payload : Datum) (ofMap : r.needsBrush = false) :
      EditsOrLoads (.emit (.text r.name) payload)

end Command

namespace Desk

variable {d : Desk} (quiet : Quiet d.hear) (discreet : Discreet Event.tellsOfMap d.hear)
include quiet discreet

theorem meet_reflected {r : Request} (ofMap : r.needsBrush = false) (payload : Payload) :
    Edit.Reflected d.book (d.meet r payload) := by
  cases r with
  | place layer =>
    refine Edit.Reflected.ite (fun _ => reflected_pure _) fun _ => ?_
    exact (addGiven_reflected quiet discreet _ _ _).bind fun _ => reflected_pure _
  | take layer =>
    refine Edit.Reflected.ite (fun _ => reflected_pure _) fun _ => ?_
    exact (removeGiven_reflected quiet discreet _ _).bind fun _ => reflected_pure _
  | load =>
    refine Edit.Reflected.ite (fun _ => reflected_pure _) fun _ => ?_
    exact (load_reflected quiet discreet _ _).bind fun _ => reflected_pure _
  | select => cases ofMap
  | click => cases ofMap

theorem deliver_reflected {r : Request} (ofMap : r.needsBrush = false) (payload : Payload) :
    Edit.Reflected d.book (d.deliver r.name payload) := by
  unfold Desk.deliver
  rw [Request.ofName?_name]
  refine Edit.Reflected.bind reflected_get fun s => ?_
  refine Edit.Reflected.ite (fun _ => reflected_pure _) fun _ => ?_
  exact reflected_guard (meet_reflected quiet discreet ofMap payload)

theorem emit_reflected {r : Request} (ofMap : r.needsBrush = false) (payload : Datum) :
    Edit.Reflected d.book (d.emit (.text r.name) payload) := by
  unfold Desk.emit
  cases payload with
  | record entries => exact reflected_guard (deliver_reflected quiet discreet ofMap _)
  | _ => exact reflected_throw _

/-- Every edit and every load is reflected. -/
theorem run_reflected {command : Command} (h : command.EditsOrLoads) :
    Edit.Reflected d.book (command.run d) := by
  cases h with
  | edit edits =>
    cases edits with
    | clear => exact (clear_reflected quiet discreet).bind fun _ => reflected_pure _
    | cell edits =>
      cases edits with
      | add => exact (addGiven_reflected quiet discreet _ _ _).bind fun _ => reflected_pure _
      | remove => exact (removeGiven_reflected quiet discreet _ _).bind fun _ => reflected_pure _
  | load => exact (load_reflected quiet discreet _ _).bind fun _ => reflected_pure _
  | reload =>
    refine Edit.Reflected.bind ?_ fun _ => reflected_pure _
    exact (reflected_consult _).bind fun saved => load_reflected quiet discreet saved.toDatum _
  | refresh entity =>
    refine Edit.Reflected.bind ?_ fun _ => reflected_pure _
    exact (reflected_consult _).bind fun id => refreshAs_reflected quiet discreet entity id
  | cascade =>
    refine (reflected_consult _).bind fun cell => ?_
    exact (cascade_reflected quiet discreet cell).bind fun _ => reflected_pure _
  | request r payload ofMap =>
    exact (emit_reflected quiet discreet ofMap payload).bind fun _ => reflected_pure _

end Desk

namespace Board

/-- Boards that edits and loads lead to, with all that was published on the way. Each was answered,
and those who heard of it left the map alone. -/
inductive Chronicle (book : Rulebook) (offsets : List Cell) : List Event → Board → Prop
  | fresh (fixtures : Nat) : Chronicle book offsets [] { fixtures }
  | run {events told : List Event} {s t : Studio} {hear : Event → Edit Unit} {command : Command}
      {answer : Answer} (before : Chronicle book offsets events s.board)
      (quiet : Quiet hear) (discreet : Discreet Event.tellsOfMap hear)
      (edits : command.EditsOrLoads)
      (answered : command.run ⟨book, offsets, hear⟩ s = .ok answer t)
      (published : t.events = s.events ++ told) :
      Chronicle book offsets (events ++ told) t.board

variable {book : Rulebook} {offsets : List Cell} {events : List Event} {b : Board}

theorem Chronicle.reached (h : Chronicle book offsets events b) : Reached book offsets b := by
  induction h with
  | fresh fixtures => exact .fresh fixtures
  | run _ quiet _ _ answered _ ih => exact .run ih quiet answered

/-- A mirror made of everything that was published shows the map after every edit and every load. -/
theorem mirror_shows_map (h : Chronicle book offsets events b) :
    (({} : Mirror).hears events).Shows b := by
  induction h with
  | fresh fixtures => exact Mirror.shows_fresh fixtures
  | @run events told s t hear command answer before quiet discreet edits answered published ih =>
    have reflected := Desk.run_reflected (d := ⟨book, offsets, hear⟩) quiet discreet edits
    obtain ⟨_, told', events', shown⟩ :=
      (reflected.ends s).of_ok answered before.reached.sound before.reached.tidy
    obtain rfl : told' = told := List.append_cancel_left (events'.symm.trans published)
    rw [Mirror.hears_append]
    exact shown _ ih

theorem Chronicle.run_after {s : Studio} {hear : Event → Edit Unit} {command : Command}
    (before : Chronicle book offsets s.events s.board) (quiet : Quiet hear)
    (discreet : Discreet Event.tellsOfMap hear) (edits : command.EditsOrLoads)
    (answered : answers (command.run ⟨book, offsets, hear⟩) s = true) :
    Chronicle book offsets (after (command.run ⟨book, offsets, hear⟩) s).events
      (after (command.run ⟨book, offsets, hear⟩) s).board := by
  obtain ⟨answer, run⟩ := run_of_answers answered
  have reflected := Desk.run_reflected (d := ⟨book, offsets, hear⟩) quiet discreet edits
  obtain ⟨_, told, events, _⟩ :=
    (reflected.ends s).of_ok run before.reached.sound before.reached.tidy
  rw [events]
  exact .run before quiet discreet edits run events

/-- After a clearing a rock is put down and another to its north: the mirror knows that the ridge of
the one has gone to the other. -/
theorem mirror_shows_map_ridge_moves :
    let book : Rulebook :=
      ⟨[("rock", [("11", [⟨"ridge", "rock", "11", [⟨[.north], .empty⟩], none, 2⟩])])]⟩
    let ridge : Fragment := ⟨"11", "ridge", 0, 0, 2⟩
    ∃ s : Studio, Chronicle book [⟨1, 0, 0⟩] s.events s.board ∧
      (({} : Mirror).hears s.events).Shows s.board ∧
      s.board.tiles = [(Cell.origin, 3), (⟨-1, 0, 0⟩, 4)] ∧
      (({} : Mirror).hears s.events).contents .tile Cell.origin = some (3, "rock") ∧
      (({} : Mirror).hears s.events).fragments 3 = [] ∧
      (({} : Mirror).hears s.events).fragments 4 = [ridge] := by
  intro book ridge
  let d : Desk := ⟨book, [⟨1, 0, 0⟩], fun _ => pure ()⟩
  let put (cell : Cell) : Command := .add .tile (.cell cell) (.text "rock")
  have edits (cell : Cell) : (put cell).EditsOrLoads := .edit (.cell (.add _ _ _))
  let start : Studio := { board := { fixtures := 1 } }
  let s₁ := after ((put ⟨0, 0, 5⟩).run d) start
  let s₂ := after (Command.clear.run d) s₁
  let s₃ := after ((put Cell.origin).run d) s₂
  let s₄ := after ((put ⟨-1, 0, 0⟩).run d) s₃
  have quiet : Quiet d.hear := fun _ _ => rfl
  have discreet := discreet_nobody Event.tellsOfMap
  have c₁ : Chronicle book d.offsets s₁.events s₁.board :=
    Chronicle.run_after (s := start) (.fresh 1) quiet discreet (edits _) (by decide +kernel)
  have c₂ : Chronicle book d.offsets s₂.events s₂.board :=
    c₁.run_after quiet discreet (.edit .clear) (by decide +kernel)
  have c₃ : Chronicle book d.offsets s₃.events s₃.board :=
    c₂.run_after quiet discreet (edits _) (by decide +kernel)
  have c₄ : Chronicle book d.offsets s₄.events s₄.board :=
    c₃.run_after quiet discreet (edits _) (by decide +kernel)
  have shows := mirror_shows_map c₄
  refine ⟨s₄, c₄, shows, by decide +kernel, ?_, ?_, ?_⟩
  · rw [shows.contents]
    decide +kernel
  · decide +kernel
  · decide +kernel

end Board

end Autotile
