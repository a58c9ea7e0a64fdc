import Autotile.Proofs.Studio.Commands

/-! # What commands are made of

A command reads, fails, changes the board, keeps the log, records an event and lets those who hear
of it act, chooses a brush or leaves cues, and it does nothing else. What each of these pieces
keeps, every command keeps. -/
namespace Autotile

open Edit

/-- Edits that are put together from the pieces, where `hear` is what those do who hear of an
event. A brush that puts something is chosen with a type. -/
inductive Edit.Made (hear : Event → Edit Unit) : {α : Type} → Edit α → Prop
  | pure {α : Type} (a : α) : Made hear (pure a : Edit α)
  | throw {α : Type} (fault : Fault) : Made hear (throw fault : Edit α)
  | get : Made hear (get : Edit Studio)
  | consult {α : Type} (f : Board → Except Fault α) : Made hear (consult f)
  | alter (f : Board → Board) : Made hear (alter f)
  | note (notice : Notice) : Made hear (note notice)
  | record (event : Event) : Made hear (record event)
  | hear (event : Event) : Made hear (hear event)
  | choose {mode : Mode} {type : Datum} (usable : mode ≠ .remove → type.isBlank = false) :
      Made hear (modify fun s =>
        { s with brush := some { mode, type := if mode = .remove then .null else type } })
  | wait (cues : List (String × Command)) :
      Made hear (modify fun s => { s with cues := s.cues ++ cues })
  | bind {α β : Type} {x : Edit β} {f : β → Edit α} (first : Made hear x)
      (rest : ∀ b, Made hear (f b)) : Made hear (x >>= f)
  | tryCatch {α : Type} {x : Edit α} {handle : Fault → Edit α} (first : Made hear x)
      (handled : ∀ fault, Made hear (handle fault)) : Made hear (tryCatch x handle)

/-- A property of the state that no piece takes away. -/
structure Studio.Lasting (hear : Event → Edit Unit) (P : Studio → Prop) : Prop where
  board : ∀ s b, P s → P { s with board := b }
  notices : ∀ s notices, P s → P { s with notices }
  events : ∀ s events, P s → P { s with events }
  cues : ∀ s cues, P s → P { s with cues }
  brush : ∀ s (mode : Mode) (type : Datum), (mode ≠ .remove → type.isBlank = false) → P s →
    P { s with brush := some { mode, type := if mode = .remove then .null else type } }
  heard : ∀ event s, P s → P (after (hear event) s)

namespace Edit.Made

variable {hear : Event → Edit Unit} {α β : Type}

theorem lasts {P : Studio → Prop} (pieces : Studio.Lasting hear P) {x : Edit α}
    (made : Made hear x) : ∀ s, P s → P (after x s) := by
  -- in the form in which one edit goes on from what another left
  suffices ends : ∀ s, P s → Ends x s (fun _ t => P t) (fun _ t => P t) from
    fun s hs => ends_after.mp (ends s hs)
  induction made with
  | pure a => exact fun s hs => (ends_pure a).mpr hs
  | throw fault => exact fun s hs => (ends_throw fault).mpr hs
  | get => exact fun s hs => ends_get.mpr hs
  | consult f => exact fun s hs => (ends_consult f).mpr ⟨fun _ _ => hs, fun _ _ => hs⟩
  | alter f => exact fun s hs => (ends_alter f).mpr (pieces.board s _ hs)
  | note notice => exact fun s hs => (ends_note notice).mpr (pieces.notices s _ hs)
  | record event => exact fun s hs => (ends_record event).mpr (pieces.events s _ hs)
  | hear event => exact fun s hs => ends_after.mpr (pieces.heard event s hs)
  | choose usable => exact fun s hs => (ends_modify _).mpr (pieces.brush s _ _ usable hs)
  | wait cues => exact fun s hs => (ends_modify _).mpr (pieces.cues s _ hs)
  | bind _ _ first rest => exact fun s hs => Ends.bind (first s hs) fun b t ht => rest b t ht
  | tryCatch _ _ first handled =>
    exact fun s hs => (ends_tryCatch _ _).mpr
      ((first s hs).mono (fun _ _ ht => ht) fun fault t ht => handled fault t ht)

theorem ite {p : Prop} [Decidable p] {x y : Edit α} (hx : p → Made hear x)
    (hy : ¬p → Made hear y) : Made hear (if p then x else y) := by
  by_cases h : p
  · rw [if_pos h]
    exact hx h
  · rw [if_neg h]
    exact hy h

theorem when {p : Prop} [Decidable p] {x : Edit β} {y : Edit α} (hx : Made hear x)
    (hy : Made hear y) : Made hear (if p then (do let _ ← x; y) else y) :=
  ite (fun _ => hx.bind fun _ => hy) fun _ => hy

theorem guarded {p : Prop} [Decidable p] {fault : Fault} {x : Unit → Edit α}
    (hx : ¬p → Made hear (x ())) :
    Made hear (if p then (do let r ← MonadExcept.throw fault; x r) else x ()) :=
  ite (fun _ => .throw fault) hx

theorem foldlM {f : β → α → Edit β} (h : ∀ b a, Made hear (f b a)) (as : List α) (b : β) :
    Made hear (as.foldlM f b) := by
  induction as generalizing b with
  | nil => exact .pure b
  | cons a as ih =>
    rw [List.foldlM_cons]
    exact (h b a).bind ih

theorem filterMapM {f : α → Edit (Option β)} (h : ∀ a, Made hear (f a)) (as : List α) :
    Made hear (as.filterMapM f) := by
  induction as with
  | nil => exact .pure []
  | cons a as ih =>
    rw [List.filterMapM_cons]
    refine (h a).bind fun b => ?_
    cases b with
    | none => exact ih
    | some b => exact ih.bind fun bs => .pure _

end Edit.Made

namespace Desk

variable (d : Desk)

theorem made_publish (event : Event) : Made d.hear (d.publish event) :=
  (Made.record event).bind fun _ => .hear event

theorem made_refreshAs (named : Datum) (id : EntityId) : Made d.hear (d.refreshAs named id) :=
  (Made.consult _).bind fun _ => (Made.consult _).bind fun _ =>
    .ite (fun _ => .pure _) fun _ => (Made.alter _).bind fun _ =>
      (d.made_publish _).bind fun _ => .pure _

theorem made_refreshAt (cell : Cell) : Made d.hear (d.refreshAt cell) := by
  refine (Made.consult _).bind fun found => ?_
  cases found with
  | none => exact .pure _
  | some id =>
    exact (d.made_refreshAs _ id).bind fun _ => .ite (fun _ => .pure _) fun _ => .pure _

theorem made_cascade (cell : Cell) : Made d.hear (d.cascade cell) :=
  (Made.filterMapM (fun _ => d.made_refreshAt _) _).bind fun _ =>
    (Made.consult _).bind fun _ => (Made.note _).bind fun _ => .pure _

theorem made_repaint : Made d.hear d.repaint :=
  (Made.consult _).bind fun _ => (Made.alter _).bind fun _ => d.made_publish _

theorem made_discard (id : EntityId) : Made d.hear (d.discard id) := by
  refine (Made.consult _).bind fun order => .ite (fun _ => ?_) fun _ => .alter _
  exact (Made.alter _).bind fun _ => (d.made_publish _).bind fun _ => .alter _

theorem made_refuse (layer : Layer) (cell : Cell) (reason : Refusal) :
    Made d.hear (d.refuse layer cell reason) := by
  cases reason with
  | occupied => exact (Made.note _).bind fun _ => d.made_publish _
  | empty => exact (Made.note _).bind fun _ => d.made_publish _

theorem made_add (layer : Layer) (cell : Cell) (type : String) :
    Made d.hear (d.add layer cell type) := by
  refine (Made.consult _).bind fun _ => (Made.consult _).bind fun blocked => ?_
  refine .ite (fun _ => (d.made_refuse _ _ _).bind fun _ => .pure _) fun _ => ?_
  refine (Made.consult _).bind fun id => (Made.alter _).bind fun _ => ?_
  refine .when (d.made_refreshAs _ id) (d.made_repaint.bind fun _ => ?_)
  exact .when (d.made_cascade cell) ((d.made_publish _).bind fun _ => .pure _)

theorem made_remove (layer : Layer) (cell : Cell) : Made d.hear (d.remove layer cell) := by
  refine (Made.consult _).bind fun found => ?_
  cases found with
  | none => exact (d.made_refuse _ _ _).bind fun _ => .pure _
  | some id =>
    refine (Made.alter _).bind fun _ => (Made.consult _).bind fun entity => ?_
    refine (d.made_discard id).bind fun _ => ?_
    exact .when (d.made_cascade cell) ((d.made_publish _).bind fun _ => .pure _)

theorem made_clear : Made d.hear d.clear := (Made.alter _).bind fun _ => d.made_publish _

theorem made_addGiven (layer : Layer) (cell type : Datum) :
    Made d.hear (d.addGiven layer cell type) :=
  (Made.consult _).bind fun _ => (Made.consult _).bind fun _ => d.made_add _ _ _

theorem made_removeGiven (layer : Layer) (cell : Datum) : Made d.hear (d.removeGiven layer cell) :=
  (Made.consult _).bind fun _ => d.made_remove _ _

theorem made_loadEntry (layer : Layer) (tally : Tally) (key : String) (value : Datum) :
    Made d.hear (d.loadEntry layer tally key value) := by
  have run := d.loadEntry_run layer tally key value
  generalize d.loadEntry layer tally key value = x at run ⊢
  cases run with
  | null => exact .pure _
  | unnamed => exact .pure _
  | mistyped => exact (Made.note _).bind fun _ => .pure _
  | malformed => exact (Made.note _).bind fun _ => .pure _
  | unreadable => exact .throw _
  | placed => exact (d.made_add _ _ _).bind fun _ => .pure _

theorem made_load (data : Datum) (replace : Bool) : Made d.hear (d.load data replace) := by
  have loaded : ∀ layer entries, Made d.hear (d.loadSection layer entries) := fun layer entries =>
    .foldlM (fun _ _ => d.made_loadEntry layer _ _ _) entries {}
  refine (Made.consult _).bind fun _ => (Made.consult _).bind fun tiles =>
    (Made.consult _).bind fun objects => .when d.made_clear ?_
  exact (loaded .tile tiles).bind fun _ => (loaded .object objects).bind fun _ =>
    (d.made_publish _).bind fun _ => .pure _

theorem made_brush : Made d.hear Desk.brush := by
  refine Made.get.bind fun s => ?_
  cases s.brush with
  | none => exact .throw _
  | some brush => exact .pure _

theorem made_select (mode type : Datum) : Made d.hear (d.select mode type) := by
  refine d.made_brush.bind fun _ => (Made.consult _).bind fun mode => .guarded fun usable => ?_
  refine (Made.choose fun puts => ?_).bind fun _ => (d.made_publish _).bind fun _ => d.made_brush
  simpa [puts] using usable

theorem made_trySelect (mode type : Datum) : Made d.hear (d.trySelect mode type) := by
  refine Made.tryCatch ((d.made_select mode type).bind fun _ => .pure _) fun fault => ?_
  exact .ite (fun _ => .note _) fun _ => .throw _

theorem made_apply (cell : Datum) (side : Path) : Made d.hear (d.apply cell side) := by
  refine d.made_brush.bind fun brush => (Made.consult _).bind fun cell => ?_
  cases brush.mode with
  | tile => exact (d.made_addGiven _ _ _).bind fun _ => .pure _
  | object => exact (d.made_addGiven _ _ _).bind fun _ => .pure _
  | remove =>
    refine (Made.consult _).bind fun type => ?_
    cases type <;> exact d.made_remove _ _

theorem made_click (cell x y : Datum) : Made d.hear (d.click cell x y) := by
  refine (Made.consult _).bind fun side => ?_
  cases side with
  | none => exact .pure _
  | some side => exact (d.made_apply cell [side]).bind fun _ => .pure _

theorem made_meet (request : Request) (payload : Payload) :
    Made d.hear (d.meet request payload) := by
  cases request with
  | place => exact .ite (fun _ => .pure _) fun _ => (d.made_addGiven _ _ _).bind fun _ => .pure _
  | take => exact .ite (fun _ => .pure _) fun _ => (d.made_removeGiven _ _).bind fun _ => .pure _
  | load => exact .ite (fun _ => .pure _) fun _ => (d.made_load _ _).bind fun _ => .pure _
  | select => exact .ite (fun _ => .pure _) fun _ => d.made_trySelect _ _
  | click => exact .ite (fun _ => .pure _) fun _ => d.made_click _ _ _

theorem made_deliver (name : String) (payload : Payload) :
    Made d.hear (d.deliver name payload) := by
  unfold Desk.deliver
  cases Request.ofName? name with
  | some request =>
    refine Made.get.bind fun s => .ite (fun _ => .pure _) fun _ => ?_
    exact .guarded fun _ => d.made_meet request payload
  | none => exact .ite (fun _ => .guarded fun _ => d.made_publish _) fun _ => .pure _

theorem made_emit (event payload : Datum) : Made d.hear (d.emit event payload) := by
  unfold Desk.emit
  cases payload with
  | record entries =>
    refine .guarded fun _ => ?_
    cases event with
    | text name => exact d.made_deliver name _
    | _ => exact .ite (fun _ => .throw _) fun _ => .pure _
  | _ => exact .throw _

end Desk

theorem Command.made_run (d : Desk) (command : Command) : Made d.hear (command.run d) := by
  have answered : ∀ {α : Type} (f : Board → Except Fault α) (answer : α → Answer),
      Made d.hear (do return answer (← consult f)) := fun f answer =>
    (Made.consult f).bind fun _ => .pure _
  cases command with
  | add => exact (d.made_addGiven _ _ _).bind fun _ => .pure _
  | remove => exact (d.made_removeGiven _ _).bind fun _ => .pure _
  | clear => exact d.made_clear.bind fun _ => .pure _
  | load => exact (d.made_load _ _).bind fun _ => .pure _
  | reload =>
    exact (Made.bind (.consult Board.save) fun saved => d.made_load saved.toDatum _).bind
      fun _ => .pure _
  | refresh => exact ((Made.consult _).bind fun id => d.made_refreshAs _ id).bind fun _ => .pure _
  | cascade => exact (Made.consult _).bind fun cell => (d.made_cascade cell).bind fun _ => .pure _
  | select => exact (d.made_select _ _).bind fun _ => .pure _
  | apply =>
    refine Made.bind (d.made_brush.bind fun _ => ?_) fun _ => .pure _
    exact (Made.consult _).bind fun side => d.made_apply _ side
  | emit => exact (d.made_emit _ _).bind fun _ => .pure _
  | position => exact (Made.consult _).bind fun _ => .pure _
  | offsets => exact .pure _
  | brush => exact d.made_brush.bind fun _ => .pure _
  | elsewhere => exact .throw _
  | await => exact (Made.wait _).bind fun _ => .pure _
  | _ => exact answered _ _

end Autotile
