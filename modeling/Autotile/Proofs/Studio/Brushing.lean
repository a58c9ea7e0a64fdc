import Autotile.Proofs.Studio.Pieces
import Autotile.Proofs.Studio.Refinement

/-! # The brush changes what it says and nothing else

The brush names a type unless it removes. To apply it is one edit of the map, which the brush, the
plan of the map and the place where it is applied determine, and the answer tells whether the plan
changed. A selection that is refused leaves the brush as it was, and so does a click that misses
leave everything. -/
namespace Autotile

open Edit

namespace Studio

/-- The states that commands lead to, however they end, where those who hear of an edit may carry
out others before it goes on. What was published and logged and what waits is not looked at. -/
inductive Evolves (book : Rulebook) (offsets : List Cell) : Studio → Studio → Prop
  | refl (s : Studio) : Evolves book offsets s s
  | still {s t u : Studio} (before : Evolves book offsets s t) (board : u.board = t.board)
      (brush : u.brush = t.brush) : Evolves book offsets s u
  | run {s t : Studio} (hear : Event → Edit Unit)
      (heard : ∀ event u, Evolves book offsets u (after (hear event) u))
      (before : Evolves book offsets s t) (command : Command) :
      Evolves book offsets s (after (command.run ⟨book, offsets, hear⟩) t)

/-- There is a brush, and it names no type exactly if it removes. -/
def Brushed (s : Studio) : Prop := ∃ b, s.brush = some b ∧ (b.type = .null ↔ b.mode = .remove)

theorem lasting_brushed {hear : Event → Edit Unit}
    (heard : ∀ event s, s.Brushed → (after (hear event) s).Brushed) : Lasting hear Brushed where
  board _ _ hs := hs
  notices _ _ hs := hs
  events _ _ hs := hs
  cues _ _ hs := hs
  brush s mode type usable _ := by
    refine ⟨_, rfl, ?_⟩
    by_cases removes : mode = .remove
    · simp [removes]
    · have named : type ≠ .null := by
        rintro rfl
        cases usable removes
      simp [removes, named]
  heard := heard

namespace Evolves

variable {book : Rulebook} {offsets : List Cell} {s t : Studio} (h : Evolves book offsets s t)
include h

theorem board : Board.Evolves book offsets s.board t.board := by
  induction h with
  | refl s => exact .refl s.board
  | still _ board _ ih => exact board ▸ ih
  | run hear _ _ command heard ih => exact .run hear heard ih command

theorem brushed (hs : s.Brushed) : t.Brushed := by
  induction h with
  | refl s => exact hs
  | still _ _ brush ih =>
    unfold Brushed
    rw [brush]
    exact ih hs
  | run hear _ _ command heard ih =>
    exact (command.made_run ⟨book, offsets, hear⟩).lasts (lasting_brushed heard) _ (ih hs)

end Evolves

def fresh (fixtures : Nat) : Studio := { board := { fixtures }, brush := some {} }

theorem brushed_fresh (fixtures : Nat) : (fresh fixtures).Brushed :=
  ⟨{}, rfl, by simp⟩

end Studio

namespace Brush

structure Selected (mode type : Datum) (chosen : Brush) : Prop where
  named : mode.toMode = .ok chosen.mode
  usable : chosen.mode ≠ .remove → type.isBlank = false
  typed : chosen.type = if chosen.mode = .remove then .null else type

/-- The edit for which a brush stands at a cell of a map and a side of it. -/
inductive Means (L : Plan) (cell : Cell) (side : Path) : Brush → MapEdit → Prop
  | tile {name : String} (named : name ≠ "") :
      Means L cell side ⟨.tile, .text name⟩ (.put .tile (cell.move side) name)
  | object {name : String} (named : name ≠ "") :
      Means L cell side ⟨.object, .text name⟩ (.put .object cell name)
  | takeObject {type : Datum} (stands : (L .object cell).isSome = true) :
      Means L cell side ⟨.remove, type⟩ (.take .object cell)
  | takeTile {type : Datum} (bare : L .object cell = none) :
      Means L cell side ⟨.remove, type⟩ (.take .tile cell)

/-- What comes of applying a brush to a side of a cell: the plan is edited, and the answer tells
whether that has changed anything. -/
structure Applied (brush : Brush) (given : Datum) (side : Path) (s : Studio) (changed : Bool)
    (t : Studio) : Prop where
  edited : ∃ cell change, given.toCell = .ok cell ∧ brush.Means s.board.type? cell side change ∧
    t.board.type? = Plan.edit s.board.type? change
  truthful : changed = true ↔ t.board.type? ≠ s.board.type?
  untouched : changed = false → t.board = s.board

end Brush

theorem Plan.edit_eq_iff_refuses {L : Plan} {change : MapEdit} (cell : change ≠ .clear) :
    L.edit change = L ↔ L.refuses change = true := by
  refine ⟨fun same => Classical.byContradiction fun allowed => ?_, edit_of_refuses⟩
  unfold edit at same
  rw [if_neg allowed] at same
  cases change with
  | clear => exact cell rfl
  | put layer c type =>
    have there : L layer c = some type := by
      rw [← congrFun₂ same layer c]
      simp [set]
    cases layer <;> simp [refuses, there] at allowed
  | take layer c =>
    have there : L layer c = none := by
      rw [← congrFun₂ same layer c]
      simp [set]
    simp [refuses, there] at allowed

namespace Brush

theorem Means.ne_clear {L : Plan} {cell : Cell} {side : Path} {brush : Brush} {change : MapEdit}
    (h : Means L cell side brush change) : change ≠ .clear := by
  cases h <;> simp

theorem Means.applied {brush : Brush} {given : Datum} {cell : Cell} {side : Path} {s t : Studio}
    {change : MapEdit} (means : Means s.board.type? cell side brush change)
    (read : given.toCell = .ok cell) (shown : t.board.type? = Plan.edit s.board.type? change)
    (still : Plan.refuses s.board.type? change = true → t.board = s.board) :
    brush.Applied given side s (!Plan.refuses s.board.type? change) t where
  edited := ⟨cell, change, read, means, shown⟩
  truthful := by
    rw [shown, Ne, Plan.edit_eq_iff_refuses means.ne_clear]
    simp
  untouched refused := still (by simpa using refused)

end Brush

theorem Board.Sound.type?_of_typeAt {b : Board} (h : b.Sound) {layer : Layer} {cell : Cell}
    {type : Option String} (asked : b.typeAt layer cell = .ok type) :
    b.type? layer cell = type := by
  rw [h.typeAt_eq] at asked
  cases key : cell.checkKey with
  | ok u =>
    rw [key] at asked
    exact Except.ok.inj asked
  | error fault =>
    rw [key] at asked
    cases asked

namespace Desk

variable {d : Desk} {s : Studio} {brush : Brush}

theorem brush_run (present : s.brush = some brush) : Desk.brush s = .ok brush s := by
  refine run_of_ends ((ends_bind _ _).mpr (ends_get.mpr ?_))
  rw [present]
  exact (ends_pure _).mpr ⟨rfl, rfl⟩

theorem bind_brush (present : s.brush = some brush) {α : Type} (f : Brush → Edit α) :
    (Desk.brush >>= f) s = f brush s :=
  bind_of_ok (brush_run present) f

theorem isValueFault_toMode {given : Datum} {fault : Fault} (h : given.toMode = .error fault) :
    fault.isValueFault = true := by
  cases given with
  | mode m => cases h
  | text name =>
    unfold Datum.toMode at h
    cases named : Mode.ofName? name with
    | some m => simp [named] at h
    | none =>
      simp only [named, Except.error.injEq] at h
      rw [← h]
      rfl
  | _ =>
    cases h
    rfl

theorem select_refused (present : s.brush = some brush) {mode type : Datum}
    (refused : ∀ chosen, ¬Brush.Selected mode type chosen) :
    ∃ fault, fault.isValueFault = true ∧ d.select mode type s = .error fault s := by
  unfold select
  rw [bind_brush present]
  cases read : mode.toMode with
  | error fault => exact ⟨fault, isValueFault_toMode read, rfl⟩
  | ok m =>
    have needs : (decide (m ≠ Mode.remove) && type.isBlank) = true := by
      refine Classical.byContradiction fun usable => ?_
      refine refused ⟨m, if m = .remove then .null else type⟩ ⟨read, fun puts => ?_, rfl⟩
      simpa [puts] using usable
    refine ⟨.brushNeedsType m, rfl, ?_⟩
    change (if (decide (m ≠ Mode.remove) && type.isBlank) = true then _ else _ : Edit Brush) s = _
    rw [if_pos needs]
    rfl

theorem run_select_refused (present : s.brush = some brush) {mode type : Datum}
    (refused : ∀ chosen, ¬Brush.Selected mode type chosen) :
    ∃ fault, (Command.select mode type).run d s = .error fault s := by
  obtain ⟨fault, _, failed⟩ := select_refused (d := d) present refused
  exact ⟨fault, bind_of_error failed _⟩

theorem select_chosen (present : s.brush = some brush) {mode type : Datum} {chosen : Brush}
    (selected : Brush.Selected mode type chosen) :
    d.select mode type s = (do
      d.publish (.brushChanged chosen.mode chosen.type)
      Desk.brush) { s with brush := some chosen } := by
  obtain ⟨m, t⟩ := chosen
  obtain ⟨read, usable, typed⟩ := selected
  obtain rfl : t = if m = .remove then .null else type := typed
  have allowed : ¬(decide (m ≠ Mode.remove) && type.isBlank) = true := by
    simpa using usable
  unfold select
  rw [bind_brush present, read]
  change (if (decide (m ≠ Mode.remove) && type.isBlank) = true then _ else _ : Edit Brush) s = _
  rw [if_neg allowed]
  rfl

theorem after_emit (d : Desk) (event payload : Datum) (s : Studio) :
    after ((Command.emit event payload).run d) s = after (d.emit event payload) s := by
  have emitted := ends_after (x := d.emit event payload)
    (P := fun t => t = after (d.emit event payload) s) |>.mpr rfl
  refine ends_after (P := fun t => t = after (d.emit event payload) s) |>.mp ?_
  refine (ends_bind _ _).mpr ?_
  exact emitted.mono (fun _ _ h => (ends_pure _).mpr h) fun _ _ h => h

theorem after_emit_request (d : Desk) (request : Request) (payload : Payload) (s : Studio) :
    after (d.emit (.text request.name) (.record payload)) s = s ∨
      after (d.emit (.text request.name) (.record payload)) s =
        after (d.meet request (Payload.delivered payload)) s := by
  let P : Studio → Prop := fun t => t = s ∨ t = after (d.meet request (Payload.delivered payload)) s
  have idle : P s := Or.inl rfl
  have met : Ends (d.meet request (Payload.delivered payload)) s (fun _ t => P t) fun _ t => P t :=
    ends_after.mpr (Or.inr rfl)
  suffices ends : Ends (d.emit (.text request.name) (.record payload)) s (fun _ t => P t)
      (fun _ t => P t) from ends_after.mp ends
  unfold emit deliver
  dsimp only
  rw [Request.ofName?_name]
  by_cases reserved : Payload.isReserved payload = true
  · rw [if_pos reserved]
    exact (ends_bind _ _).mpr ((ends_throw _).mpr idle)
  rw [if_neg reserved]
  refine (ends_bind _ _).mpr (ends_get.mpr ?_)
  by_cases unmet : (request.needsBrush && s.brush.isNone) = true
  · rw [if_pos unmet]
    exact (ends_pure _).mpr idle
  rw [if_neg unmet]
  by_cases sender : (Payload.delivered payload).namesSender = true
  · rw [if_pos sender]
    exact (ends_bind _ _).mpr ((ends_throw _).mpr idle)
  · rw [if_neg sender]
    exact met

theorem given_delivered (payload : Payload) {name : String} (h : name ≠ Payload.optionName) :
    (Payload.delivered payload).given name = Payload.given payload name := by
  unfold Payload.given Datum.entry
  rw [Payload.lookup_delivered payload h]

theorem select_request_refused (present : s.brush = some brush) {payload : Payload}
    (refused : ∀ chosen,
      ¬Brush.Selected (payload.given "mode") (payload.given "type_name") chosen) :
    ∃ notices, after (d.emit (.text "brush_selected") (.record payload)) s =
      { s with notices } := by
  obtain ⟨fault, valued, failed⟩ := select_refused (d := d) present refused
  obtain same | met := d.after_emit_request .select payload s
  · exact ⟨s.notices, same⟩
  · have ends : Ends (d.meetSelect (Payload.delivered payload)) s
        (fun _ t => ∃ notices, t = { s with notices }) (fun _ _ => False) := by
      unfold meetSelect
      dsimp only
      rw [given_delivered payload (by decide), given_delivered payload (by decide)]
      by_cases absent : (payload.given "mode").isNull = true
      · rw [if_pos absent]
        exact (ends_pure _).mpr ⟨s.notices, rfl⟩
      · rw [if_neg absent]
        refine (ends_tryCatch _ _).mpr ((ends_bind _ _).mpr ((ends_iff_of_error failed).mpr ?_))
        rw [if_pos valued]
        exact (ends_note _).mpr ⟨_, rfl⟩
    exact met ▸ ends_after.mp (ends.mono (fun _ _ h => h) fun _ _ h => h.elim)

theorem click_missed {cell x y : Datum} (missed : Sprite.containsAt x y = .ok false) :
    d.click cell x y s = .ok () s := by
  have nowhere : Sprite.pickAt x y = .ok none := by
    unfold Sprite.pickAt
    rw [missed]
    rfl
  unfold click
  rw [nowhere]
  rfl

theorem click_request_missed {payload : Payload}
    (missed : Sprite.containsAt (payload.given "local_x") (payload.given "local_y") = .ok false) :
    after (d.emit (.text "tile_face_click") (.record payload)) s = s := by
  obtain same | met := d.after_emit_request .click payload s
  · exact same
  · have ends : Ends (d.meetClick (Payload.delivered payload)) s (fun _ t => t = s)
        (fun _ _ => False) := by
      unfold meetClick
      dsimp only
      rw [given_delivered payload (by decide), given_delivered payload (by decide),
        given_delivered payload (by decide)]
      by_cases absent : ((payload.given "coordinate").isNull || (payload.given "local_x").isNull ||
          (payload.given "local_y").isNull) = true
      · rw [if_pos absent]
        exact (ends_pure _).mpr rfl
      · rw [if_neg absent]
        exact (ends_iff_of_ok (click_missed missed)).mpr rfl
    exact met.trans (ends_after.mp (ends.mono (fun _ _ h => h) fun _ _ h => h.elim))

section Quietly

variable (quiet : Quiet d.hear) (sound : s.board.Sound)
include quiet sound

theorem put_ends {given : Datum} {cell at_cell : Cell} {side : Path} {layer : Layer} {type : Datum}
    (read : given.toCell = .ok cell)
    (means : ∀ name, type = .text name → name ≠ "" →
      brush.Means s.board.type? cell side (.put layer at_cell name)) :
    Ends (do return (← d.addGiven layer (.cell at_cell) type).isSome) s
      (fun changed t => brush.Applied given side s changed t) (fun _ _ => True) := by
  have shows : s.board.Shows s.board.type? := ⟨sound, fun _ _ => rfl⟩
  have given_cell : (Datum.cell at_cell).toCell = .ok at_cell := rfl
  refine Ends.bind ((ends_consult_bind_of_ok given_cell).mpr (ends_consult_bind.mpr
    ⟨fun name named => ?_, fun _ _ => trivial⟩)) fun found t applied => (ends_pure _).mpr applied
  obtain ⟨texted, nonempty⟩ := Datum.toTypeName_eq_ok named
  refine (add_carried quiet shows layer at_cell nonempty).mono (fun found t carried => ?_)
    fun _ _ h => h
  obtain ⟨_, same, answered⟩ := carried.answered
  obtain rfl := Answer.entity.inj same
  have told : found.isSome = !Plan.refuses s.board.type? (.put layer at_cell name) := by
    cases refused : Plan.refuses s.board.type? (.put layer at_cell name) <;> cases found <;>
      simp [refused] at answered ⊢
  rw [told]
  exact (means name texted nonempty).applied read
    (funext₂ carried.shows.type?) fun refused => (carried.refused refused).1

theorem take_ends {given : Datum} {cell : Cell} {side : Path} {layer : Layer}
    (read : given.toCell = .ok cell)
    (means : brush.Means s.board.type? cell side (.take layer cell)) :
    Ends (d.remove layer cell) s (fun changed t => brush.Applied given side s changed t)
      (fun _ _ => True) := by
  have shows : s.board.Shows s.board.type? := ⟨sound, fun _ _ => rfl⟩
  refine (remove_carried quiet shows layer cell).mono (fun removed t carried => ?_) fun _ _ h => h
  obtain rfl := Answer.truth.inj carried.answered
  exact means.applied read (funext₂ carried.shows.type?) fun refused => (carried.refused refused).1

theorem apply_ends (present : s.brush = some brush) (given : Datum) (side : Path) :
    Ends (d.apply given side) s (fun changed t => brush.Applied given side s changed t)
      (fun _ _ => True) := by
  unfold apply
  refine (ends_bind _ _).mpr ((ends_iff_of_ok (brush_run present)).mpr ?_)
  refine ends_consult_bind.mpr ⟨fun cell read => ?_, fun _ _ => trivial⟩
  obtain ⟨mode, type⟩ := brush
  cases mode with
  | tile =>
    refine put_ends quiet sound read ?_
    rintro name rfl named
    exact .tile named
  | object =>
    refine put_ends quiet sound read ?_
    rintro name rfl named
    exact .object named
  | remove =>
    refine ends_consult_bind.mpr ⟨fun found asked => ?_, fun _ _ => trivial⟩
    have stands : s.board.type? .object cell = found := sound.type?_of_typeAt asked
    cases found with
    | some type => exact take_ends quiet sound read (.takeObject (by rw [stands]; rfl))
    | none => exact take_ends quiet sound read (.takeTile stands)

theorem run_apply_ends (present : s.brush = some brush) (given side : Datum) :
    Ends ((Command.apply given side).run d) s
      (fun answer t => ∃ path changed, side.toPath = .ok path ∧ answer = .truth changed ∧
        brush.Applied given path s changed t)
      (fun _ _ => True) := by
  have applied : Ends (d.applyGiven given side) s
      (fun changed t => ∃ path, side.toPath = .ok path ∧ brush.Applied given path s changed t)
      (fun _ _ => True) := by
    refine (ends_bind _ _).mpr ((ends_iff_of_ok (brush_run present)).mpr ?_)
    refine ends_consult_bind.mpr ⟨fun path read => ?_, fun _ _ => trivial⟩
    exact (apply_ends quiet sound present given path).mono
      (fun _ _ applied => ⟨path, read, applied⟩) fun _ _ h => h
  refine applied.bind fun changed t h => (ends_pure _).mpr ?_
  obtain ⟨path, read, applied⟩ := h
  exact ⟨path, changed, read, rfl, applied⟩

end Quietly

end Desk

open Desk

/-- However the brush was selected and the map edited, the brush names no type exactly if it
removes. A selection that is refused changes nothing but the log; any other chooses the brush it
names. Applied where nobody else edits the map, the brush carries out the one edit for which it
stands there, and answers whether that has changed what the map holds; if not, the whole board is as
it was. A click beside the sprite does nothing. -/
theorem Studio.Evolves.brush_changes_what_it_says {book : Rulebook} {offsets : List Cell}
    {fixtures : Nat} {s : Studio} (evolved : Evolves book offsets (.fresh fixtures) s)
    (hear : Event → Edit Unit) :
    let d : Desk := ⟨book, offsets, hear⟩
    ∃ brush, s.brush = some brush ∧ (brush.type = .null ↔ brush.mode = .remove) ∧
    (∀ mode type chosen, Brush.Selected mode type chosen → d.select mode type s = (do
        d.publish (.brushChanged chosen.mode chosen.type)
        Desk.brush) { s with brush := some chosen }) ∧
    (∀ mode type, (∀ chosen, ¬Brush.Selected mode type chosen) →
      ∃ fault, (Command.select mode type).run d s = .error fault s) ∧
    (∀ payload : Payload,
      (∀ chosen, ¬Brush.Selected (payload.given "mode") (payload.given "type_name") chosen) →
      ∃ notices, after ((Command.emit (.text "brush_selected") (.record payload)).run d) s =
        { s with notices }) ∧
    (Quiet hear → ∀ given side answer t, (Command.apply given side).run d s = .ok answer t →
      ∃ path changed, side.toPath = .ok path ∧ answer = .truth changed ∧
        brush.Applied given path s changed t) ∧
    (∀ given x y, Sprite.containsAt x y = .ok false → d.click given x y s = .ok () s) ∧
    ∀ payload : Payload,
      Sprite.containsAt (payload.given "local_x") (payload.given "local_y") = .ok false →
      after ((Command.emit (.text "tile_face_click") (.record payload)).run d) s = s := by
  intro d
  obtain ⟨brush, present, consistent⟩ := evolved.brushed (brushed_fresh fixtures)
  have sound : s.board.Sound := Board.Reachable.sound ⟨fixtures, evolved.board⟩
  refine ⟨brush, present, consistent, ?_, ?_, ?_, ?_, ?_, ?_⟩
  · exact fun mode type chosen selected => select_chosen present selected
  · exact fun mode type refused => run_select_refused present refused
  · intro payload refused
    rw [after_emit]
    exact select_request_refused present refused
  · intro quiet given side answer t run
    exact (run_apply_ends quiet sound present given side).of_ok run
  · exact fun given x y missed => click_missed missed
  · intro payload missed
    rw [after_emit]
    exact click_request_missed missed

/-- A rock is put, the brush is set to remove and then to paint, which is no mode; applied to the
rock it takes it away. -/
theorem Studio.Evolves.brush_changes_what_it_says_removing :
    let d : Desk := ⟨.empty, [], fun _ => pure ()⟩
    let put : Command := .add .tile (.cell Cell.origin) (.text "rock")
    let s := after ((Command.select (.text "remove") .null).run d) (after (put.run d) (.fresh 2))
    Evolves .empty [] (.fresh 2) s ∧
    (∃ fault, (Command.select (.text "paint") (.text "mud")).run d s = .error fault s) ∧
    (∃ t, (Command.apply (.cell Cell.origin) (.text "up")).run d s = .ok (.truth true) t ∧
      t.board.type? ≠ s.board.type?) ∧
    d.click (.cell Cell.origin) (.int (-1)) (.int 8) s = .ok () s := by
  intro d put s
  have nobody : ∀ (event : Event) (u : Studio),
      Evolves .empty [] u (after (d.hear event) u) := fun _ u => .refl u
  have evolved : Evolves .empty [] (.fresh 2) s :=
    .run d.hear nobody (.run d.hear nobody (.refl _) put) (.select (.text "remove") .null)
  obtain ⟨_, _, _, _, refused, _, applied, missed, _⟩ := evolved.brush_changes_what_it_says d.hear
  have unnamed : ∀ chosen, ¬Brush.Selected (.text "paint") (.text "mud") chosen := by
    intro chosen selected
    cases selected.named
  obtain ⟨answer, run⟩ := run_of_answers (s := s)
    (show answers ((Command.apply (.cell Cell.origin) (.text "up")).run d) s = true by
      decide +kernel)
  obtain ⟨path, changed, _, rfl, effect⟩ := applied (fun _ _ => rfl) _ _ _ _ run
  have told : (match (Command.apply (.cell Cell.origin) (.text "up")).run d s with
      | .ok (.truth changed) _ => changed
      | _ => false) = true := by
    decide +kernel
  rw [run] at told
  obtain rfl : changed = true := told
  have outside : (Sprite.containsAt (.int (-1)) (.int 8)).toOption = some false := by
    decide +kernel
  exact ⟨evolved, refused _ _ unnamed, ⟨_, run, effect.truthful.mp rfl⟩,
    missed _ _ _ (eq_ok_of_toOption outside)⟩

end Autotile
