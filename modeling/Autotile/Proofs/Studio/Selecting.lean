import Autotile.Proofs.Studio.Brushing
import Autotile.Proofs.Studio.Headroom

/-! # Which selections can be applied

A request for a brush is refused unless it names a mode and, for a mode that puts something, a type
that is not blank. Any other is met, also where the type it names is no text: the brush is then
refused by the map wherever it is applied, until another one is selected. -/
namespace Autotile

open Edit Numeral

/-- Those who hear of an edit neither fail nor touch the board or the brush. -/
def Passive (hear : Event → Edit Unit) : Prop :=
  ∀ event s, ∃ t, hear event s = .ok () t ∧ t.board = s.board ∧ t.brush = s.brush

theorem passive_nobody : Passive fun _ => pure () := fun _ s => ⟨s, rfl, rfl, rfl⟩

theorem Passive.silent {hear : Event → Edit Unit} (passive : Passive hear) : Silent hear := by
  intro event s
  obtain ⟨t, run, board, -⟩ := passive event s
  exact ⟨t, run, board⟩

theorem Datum.toTypeName_eq_error {type : Datum}
    (untyped : ∀ name, name ≠ "" → type ≠ .text name) :
    type.toTypeName = .error (.notTypeName type) := by
  cases type with
  | text name =>
    have blank : name = "" := Classical.byContradiction fun named => untyped name named rfl
    subst blank
    rfl
  | _ => rfl

namespace Brush

/-- The brush removes, or it names a type that the map accepts. -/
def Usable (brush : Brush) : Prop :=
  brush.mode = .remove ∨ ∃ name, name ≠ "" ∧ brush.type = .text name

theorem usable_default : ({} : Brush).Usable := Or.inr ⟨"rock", by decide, rfl⟩

theorem Selected.usable_iff {mode type : Datum} {chosen : Brush}
    (selected : Selected mode type chosen) :
    chosen.Usable ↔ chosen.mode = .remove ∨ ∃ name, type = .text name := by
  have typed := selected.typed
  by_cases removes : chosen.mode = .remove
  · exact ⟨fun _ => Or.inl removes, fun _ => Or.inl removes⟩
  · rw [if_neg removes] at typed
    unfold Usable
    rw [typed, or_iff_right removes, or_iff_right removes]
    constructor
    · rintro ⟨name, -, named⟩
      exact ⟨name, named⟩
    · rintro ⟨name, rfl⟩
      refine ⟨name, ?_, rfl⟩
      rintro rfl
      cases selected.usable removes

inductive Hears (p : Payload) : Brush → Brush → Prop
  | chosen {brush chosen : Brush}
      (selected : Selected (p.given "mode") (p.given "type_name") chosen) : Hears p brush chosen
  | refused {brush : Brush}
      (refused : ∀ chosen, ¬Selected (p.given "mode") (p.given "type_name") chosen) :
      Hears p brush brush

inductive Reselected : Brush → List Payload → Brush → Prop
  | nil (brush : Brush) : Reselected brush [] brush
  | cons {brush next final : Brush} {p : Payload} {rest : List Payload}
      (hears : Hears p brush next) (later : Reselected next rest final) :
      Reselected brush (p :: rest) final

/-- The brush that a request selects removes, or the request names a text as its type. -/
def TextNamed (p : Payload) : Prop :=
  ∀ chosen, Selected (p.given "mode") (p.given "type_name") chosen →
    chosen.mode = .remove ∨ ∃ name, p.given "type_name" = .text name

theorem Selected.unique {mode type : Datum} {chosen chosen' : Brush}
    (h : Selected mode type chosen) (h' : Selected mode type chosen') : chosen = chosen' := by
  obtain ⟨m, t⟩ := chosen
  obtain ⟨m', t'⟩ := chosen'
  obtain rfl : m = m' := Except.ok.inj (h.named.symm.trans h'.named)
  obtain rfl : t = t' := h.typed.trans h'.typed.symm
  rfl

theorem Hears.eq_of_selected {p : Payload} {brush next chosen : Brush} (h : Hears p brush next)
    (selected : Selected (p.given "mode") (p.given "type_name") chosen) : next = chosen := by
  cases h with
  | chosen selected' => exact selected'.unique selected
  | refused refused => exact (refused chosen selected).elim

theorem Hears.usable {p : Payload} {brush next : Brush} (h : Hears p brush next)
    (usable : brush.Usable) (named : TextNamed p) : next.Usable := by
  cases h with
  | chosen selected => exact selected.usable_iff.mpr (named _ selected)
  | refused _ => exact usable

theorem Reselected.usable {brush final : Brush} {payloads : List Payload}
    (h : brush.Reselected payloads final) (usable : brush.Usable)
    (named : ∀ p ∈ payloads, TextNamed p) : final.Usable := by
  induction h with
  | nil brush => exact usable
  | cons hears _ ih =>
    exact ih (hears.usable usable (named _ List.mem_cons_self)) fun p hp =>
      named p (List.mem_cons_of_mem _ hp)

end Brush

namespace Desk

variable {d : Desk} {s : Studio} {brush : Brush}

def requestBrushes (d : Desk) (payloads : List Payload) : Edit Unit :=
  payloads.forM fun p => d.emit (.text "brush_selected") (.record p)

def Reselects (p : Payload) (s : Studio) (brush : Brush) (t : Studio) : Prop :=
  t.board = s.board ∧ ∃ next, t.brush = some next ∧ brush.Hears p next

theorem publish_passive (passive : Passive d.hear) (event : Event) (s : Studio) :
    Ends (d.publish event) s (fun _ t => t.board = s.board ∧ t.brush = s.brush)
      fun _ _ => False := by
  unfold publish
  rw [ends_bind, ends_record]
  obtain ⟨t, run, kept⟩ := passive event { s with events := s.events ++ [event] }
  exact (ends_iff_of_ok run).mpr kept

section Requests

variable (passive : Passive d.hear) (present : s.brush = some brush)
include passive present

theorem trySelect_ends (p : Payload) :
    Ends (d.trySelect (p.given "mode") (p.given "type_name")) s
      (fun _ t => Reselects p s brush t) fun _ _ => False := by
  refine (ends_tryCatch _ _).mpr ((ends_bind _ _).mpr ?_)
  by_cases selects : ∃ chosen, Brush.Selected (p.given "mode") (p.given "type_name") chosen
  · obtain ⟨chosen, selected⟩ := selects
    refine (ends_congr (select_chosen present selected)).mpr ?_
    refine Ends.bind ((publish_passive passive _ _).mono (fun _ _ kept => kept)
      fun _ _ none => none.elim) fun _ t kept => ?_
    refine (ends_iff_of_ok (brush_run kept.2)).mpr ((ends_pure _).mpr ?_)
    exact ⟨kept.1, chosen, kept.2, .chosen selected⟩
  · have refused := not_exists.mp selects
    obtain ⟨fault, valued, failed⟩ := select_refused (d := d) present refused
    refine (ends_iff_of_error failed).mpr ?_
    rw [if_pos valued]
    exact (ends_note _).mpr ⟨rfl, brush, present, .refused refused⟩

theorem request_ends {p : Payload} (free : p.isReserved = false)
    (unsent : (Payload.delivered p).namesSender = false) :
    Ends (d.emit (.text "brush_selected") (.record p)) s
      (fun _ t => Reselects p s brush t) fun _ _ => False := by
  have known : Request.ofName? "brush_selected" = some .select := Request.ofName?_name .select
  have brushed : (Request.select.needsBrush && s.brush.isNone) = false := by
    rw [present]
    rfl
  unfold emit deliver
  dsimp only
  rw [known, if_neg (by simp [free])]
  refine (ends_bind _ _).mpr (ends_get.mpr ?_)
  rw [if_neg (by simp [brushed]), if_neg (by simp [unsent])]
  change Ends (d.meetSelect (Payload.delivered p)) s _ _
  unfold meetSelect
  dsimp only
  rw [given_delivered p (by decide), given_delivered p (by decide)]
  by_cases absent : (p.given "mode").isNull = true
  · rw [if_pos absent]
    refine (ends_pure _).mpr ⟨rfl, brush, present, .refused fun chosen selected => ?_⟩
    have named := selected.named
    cases mode : p.given "mode" <;> rw [mode] at absent named <;> cases absent
    cases named
  · rw [if_neg absent]
    exact trySelect_ends passive present p

end Requests

/-- No request for a brush fails, however many went before. -/
theorem requestBrushes_ends (passive : Passive d.hear) (present : s.brush = some brush)
    {payloads : List Payload}
    (addressed : ∀ p ∈ payloads, p.isReserved = false ∧ (Payload.delivered p).namesSender = false) :
    Ends (d.requestBrushes payloads) s
      (fun _ t => t.board = s.board ∧ ∃ final, t.brush = some final ∧
        brush.Reselected payloads final)
      fun _ _ => False := by
  unfold requestBrushes
  induction payloads generalizing s brush with
  | nil => exact (ends_pure _).mpr ⟨rfl, brush, present, .nil brush⟩
  | cons p rest ih =>
    obtain ⟨free, unsent⟩ := addressed p List.mem_cons_self
    change Ends (d.emit (.text "brush_selected") (.record p) >>= fun _ => rest.forM _) s _ _
    refine Ends.bind (request_ends passive present free unsent) fun _ t first => ?_
    obtain ⟨board, next, present', hears⟩ := first
    refine (ih present' fun q hq => addressed q (List.mem_cons_of_mem p hq)).mono
      (fun _ u later => ?_) fun _ _ none => none
    obtain ⟨board', final, present'', reselected⟩ := later
    exact ⟨board'.trans board, final, present'', .cons hears reselected⟩

theorem addGiven_untyped {layer : Layer} {cell : Cell} {type : Datum} {fault : Fault}
    (untyped : type.toTypeName = .error fault) :
    Ends (d.addGiven layer (.cell cell) type) s (fun _ _ => False)
      fun f t => f = fault ∧ t = s := by
  refine (ends_consult_bind_of_ok (f := fun _ => (Datum.cell cell).toCell) rfl).mpr ?_
  refine ends_consult_bind.mpr ⟨fun name named => ?_, fun f failed => ?_⟩
  · cases untyped.symm.trans named
  · exact ⟨Except.error.inj (failed.symm.trans untyped), rfl⟩

section Application

variable {given : Datum} {cell : Cell} {path : Path} (present : s.brush = some brush)
  (read : given.toCell = .ok cell)
include present read

theorem apply_unusable (unusable : ¬brush.Usable) :
    Ends (d.apply given path) s (fun _ _ => False)
      fun fault t => fault = .notTypeName brush.type ∧ t = s := by
  obtain ⟨puts, untyped⟩ := not_or.mp unusable
  have refused : brush.type.toTypeName = .error (.notTypeName brush.type) :=
    Datum.toTypeName_eq_error fun name named same => untyped ⟨name, named, same⟩
  unfold apply
  refine (ends_bind _ _).mpr ((ends_iff_of_ok (brush_run present)).mpr ?_)
  refine (ends_consult_bind_of_ok (f := fun _ => given.toCell) read).mpr ?_
  obtain ⟨mode, type⟩ := brush
  cases mode with
  | tile => exact Ends.bind (addGiven_untyped refused) fun _ _ none => none.elim
  | object => exact Ends.bind (addGiven_untyped refused) fun _ _ none => none.elim
  | remove => exact (puts rfl).elim

theorem apply_usable (silent : Silent d.hear) (room : d.Roomy (2 ^ 49)) (sound : s.board.Sound)
    (near : s.board.Within (2 ^ 48)) (hc : cell.Within (2 ^ 48)) (short : path.length ≤ 2 ^ 48)
    (usable : brush.Usable) :
    Ends (d.apply given path) s (fun _ _ => True) fun _ _ => False := by
  have wider : 2 ^ 48 ≤ 2 ^ 49 := by decide
  have target : (cell.move path).Within (2 ^ 49) :=
    (hc.add (path.offset_within.mono short)).mono (by decide)
  have removes (layer : Layer) :
      Ends (d.remove layer cell) s (fun _ _ => True) fun _ _ => False :=
    remove_succeeds silent room sound (near.mono wider) (hc.mono wider)
  unfold apply
  refine (ends_bind _ _).mpr ((ends_iff_of_ok (brush_run present)).mpr ?_)
  refine (ends_consult_bind_of_ok (f := fun _ => given.toCell) read).mpr ?_
  obtain ⟨mode, type⟩ := brush
  cases mode with
  | tile =>
    obtain removing | ⟨name, named, rfl⟩ := usable
    · cases removing
    · exact Ends.bind (addGiven_succeeds silent room sound (near.mono wider) target named)
        fun _ _ _ => (ends_pure _).mpr trivial
  | object =>
    obtain removing | ⟨name, named, rfl⟩ := usable
    · cases removing
    · exact Ends.bind (addGiven_succeeds silent room sound (near.mono wider) (hc.mono wider) named)
        fun _ _ _ => (ends_pure _).mpr trivial
  | remove =>
    have looked : s.board.typeAt .object cell = .ok (s.board.type? .object cell) := by
      rw [sound.typeAt_eq, Cell.checkKey_of_keyed (room.keyed (hc.mono wider))]
      rfl
    refine (ends_consult_bind_of_ok (f := (·.typeAt .object cell)) looked).mpr ?_
    cases s.board.type? .object cell with
    | some name => exact removes .object
    | none => exact removes .tile

omit read in
theorem run_apply_ends_of_path {side : Datum} (led : side.toPath = .ok path)
    {done : Bool → Studio → Prop} {failed : Fault → Studio → Prop}
    (applied : Ends (d.apply given path) s done failed) :
    Ends ((Command.apply given side).run d) s
      (fun answer t => ∃ changed, answer = .truth changed ∧ done changed t) failed := by
  have whole : Ends (d.applyGiven given side) s done failed := by
    refine (ends_bind _ _).mpr ((ends_iff_of_ok (brush_run present)).mpr ?_)
    exact (ends_consult_bind_of_ok (f := fun _ => side.toPath) led).mpr applied
  exact whole.bind fun changed _ h => (ends_pure _).mpr ⟨changed, rfl, h⟩

end Application

end Desk

open Desk

namespace Studio

/-- Requests for a brush, whatever they carry, do not fail and leave the board alone, and what they
make of the brush is what one after another makes of it. The brush stays usable as long as every
type that is taken over is a text. A usable brush can be applied near the origin, on whatever board
the session may have there; any other is refused by the map each time it is applied. Rules and
cascade may lead as far as a coordinate can be written. -/
theorem requested_brush_applies {book : Rulebook} {offsets : List Cell}
    {hear : Event → Edit Unit} (passive : Passive hear) {reach : Nat}
    (fits : 2 ^ 49 + reach < writeBound)
    (looks : ∀ k, book.HasConstraint k → k.path.length ≤ reach)
    (spread : offsets = book.cascadeOffsets ∨ ∀ o ∈ offsets, o.Within reach)
    {s : Studio} {brush : Brush} (present : s.brush = some brush) {payloads : List Payload}
    (addressed : ∀ p ∈ payloads, p.isReserved = false ∧ (Payload.delivered p).namesSender = false) :
    let d : Desk := ⟨book, offsets, hear⟩
    ∃ final t, d.requestBrushes payloads s = .ok () t ∧ t.board = s.board ∧
      t.brush = some final ∧ brush.Reselected payloads final ∧
      (brush.Usable → (∀ p ∈ payloads, Brush.TextNamed p) → final.Usable) ∧
      ∀ (u : Studio) (given side : Datum) (cell : Cell) (path : Path), u.brush = some final →
        u.board.Reachable book offsets → u.board.Within (2 ^ 48) →
        given.toCell = .ok cell → cell.Within (2 ^ 48) →
        side.toPath = .ok path → path.length ≤ 2 ^ 48 →
        (final.Usable → ∃ changed v, (Command.apply given side).run d u = .ok (.truth changed) v) ∧
        (¬final.Usable →
          (Command.apply given side).run d u = .error (.notTypeName final.type) u) := by
  intro d
  obtain ⟨_, t, run, board, final, chosen, reselected⟩ :=
    (requestBrushes_ends (d := d) passive present addressed).answered
  refine ⟨final, t, run, board, chosen, reselected, reselected.usable, ?_⟩
  have room : d.Roomy (2 ^ 49) := roomy_of_reach (Nat.le_refl _) fits looks spread
  intro u given side cell path current reachable near read hc led steps
  constructor
  · intro usable
    have applied := apply_usable current read passive.silent room reachable.sound near hc steps
      usable
    obtain ⟨answer, v, run, changed, rfl, -⟩ :=
      (run_apply_ends_of_path current led applied).answered
    exact ⟨changed, v, run⟩
  · intro unusable
    have refused := run_apply_ends_of_path current led
      (apply_unusable (d := d) current read unusable)
    exact error_of_ends (refused.mono (fun _ _ h => h.choose_spec.2) fun _ _ h => h)

/-- A request that names no mode is refused, the next one is met: mud can be put to the north of a
rock, which loses its ridge. -/
theorem requested_brush_applies_mud :
    let book : Rulebook :=
      ⟨[("rock", [("11", [⟨"ridge", "rock", "11", [⟨[.north], .empty⟩], none, 2⟩])])]⟩
    let d : Desk := ⟨book, [⟨1, 0, 0⟩], fun _ => pure ()⟩
    let payloads : List Payload := [[("mode", .text "paint"), ("type_name", .int 5)],
      [("mode", .text "tile"), ("type_name", .text "mud")]]
    let put : Command := .add .tile (.cell Cell.origin) (.text "rock")
    let s : Studio := { board := (after (put.run d) (.fresh 2)).board, brush := some {} }
    s.board.fragments? Cell.origin = some [⟨"11", "ridge", 0, 0, 2⟩] ∧
      ∃ t v, d.requestBrushes payloads s = .ok () t ∧ t.board = s.board ∧
        t.brush = some ⟨.tile, .text "mud"⟩ ∧
        (Command.apply (.cell Cell.origin) (.text "north")).run d t = .ok (.truth true) v ∧
        v.board.tiles = [(Cell.origin, 3), (⟨-1, 0, 0⟩, 4)] ∧
        v.board.fragments? Cell.origin = some [] := by
  intro book d payloads put s
  have addressed : ∀ p ∈ payloads,
      p.isReserved = false ∧ (Payload.delivered p).namesSender = false := by
    decide +kernel
  have named : ∀ p ∈ payloads, Brush.TextNamed p := by
    intro p hp chosen selected
    rcases List.mem_cons.mp hp with rfl | hp
    · cases selected.named
    · obtain rfl := List.mem_singleton.mp hp
      exact Or.inr ⟨"mud", rfl⟩
  have looks : ∀ k, book.HasConstraint k → k.path.length ≤ 1 := by
    rintro k ⟨shelf, hs, bucket, hb, r, hr, hk⟩
    obtain rfl := List.mem_singleton.mp hs
    obtain rfl := List.mem_singleton.mp hb
    obtain rfl := List.mem_singleton.mp hr
    obtain rfl := List.mem_singleton.mp hk
    exact Nat.le_refl 1
  have spread : ∀ o ∈ d.offsets, o.Within 1 := by
    intro o ho
    obtain rfl := List.mem_singleton.mp ho
    exact ⟨by decide, by decide, by decide⟩
  obtain ⟨final, t, run, board, chosen, reselected, keeps, applies⟩ :=
    @requested_brush_applies book d.offsets d.hear passive_nobody 1 (by decide +kernel) looks
      (Or.inr spread) s {} rfl payloads addressed
  have reachable : s.board.Reachable book d.offsets := by
    dsimp only [s]
    exact ⟨2, Board.Evolves.run (s := .fresh 2) d.hear (fun _ _ => .refl _) (.refl _) put⟩
  have near : s.board.Within (2 ^ 48) := by
    have tiles : s.board.index .tile = [(Cell.origin, 3)] := by decide +kernel
    have objects : s.board.index .object = [] := by decide +kernel
    intro layer cell id hi
    cases layer with
    | tile =>
      rw [tiles] at hi
      obtain ⟨rfl, -⟩ := Prod.mk.inj (List.mem_singleton.mp hi)
      exact Cell.origin_within _
    | object =>
      rw [objects] at hi
      cases hi
  rw [← board] at reachable near
  have side : (Datum.text "north").toPath = .ok [.north] := eq_ok_of_toOption (by decide +kernel)
  obtain ⟨changed, v, applied⟩ :=
    (applies t (.cell Cell.origin) (.text "north") Cell.origin [.north] chosen reachable near rfl
      (Cell.origin_within _) side (by decide)).1 (keeps Brush.usable_default named)
  obtain rfl : final = ⟨.tile, .text "mud"⟩ := by
    change Brush.Reselected _ [_, _] final at reselected
    cases reselected with
    | cons _ later =>
      cases later with
      | cons second later =>
        cases later
        exact second.eq_of_selected ⟨rfl, fun _ => by decide +kernel, rfl⟩
  let apply : Edit Answer := (Command.apply (.cell Cell.origin) (.text "north")).run d
  replace applied : apply t = .ok (.truth changed) v := applied
  have requested : after (d.requestBrushes payloads) s = t := after_of_ok run
  obtain rfl : changed = true := by
    have truth : (match apply (after (d.requestBrushes payloads) s) with
      | .ok (.truth changed) _ => changed
      | _ => false) = true := by decide +kernel
    rw [requested, applied] at truth
    exact truth
  have last : after apply (after (d.requestBrushes payloads) s) = v := by
    rw [requested, after_of_ok applied]
  refine ⟨by decide +kernel, t, v, run, board, chosen, applied, ?_, ?_⟩
  · rw [← last]
    decide +kernel
  · rw [← last]
    decide +kernel

/-- A number that is named as a type is taken over, and then no tile can be put. -/
theorem not_every_requested_brush_applies :
    ¬∀ (book : Rulebook) (offsets : List Cell) (hear : Event → Edit Unit)
      (payloads : List Payload) (s t : Studio) (cell : Cell) (side : Direction), Passive hear →
      s.brush = some {} → s.board.Reachable book offsets → s.board.Within (2 ^ 48) →
      Desk.requestBrushes ⟨book, offsets, hear⟩ payloads s = .ok () t → cell.Within (2 ^ 48) →
      ∃ answer v, (Command.apply (.cell cell) (.text side.name)).run ⟨book, offsets, hear⟩ t =
        .ok answer v := by
  intro applies
  let d : Desk := ⟨.empty, [], fun _ => pure ()⟩
  let requests : Edit Unit := d.requestBrushes [[("mode", .text "tile"), ("type_name", .int 5)]]
  obtain ⟨_, run⟩ := run_of_answers (s := fresh 2)
    (show answers requests (.fresh 2) = true by decide +kernel)
  obtain ⟨answer, v, applied⟩ := applies .empty [] d.hear _ (.fresh 2) _ Cell.origin .up
    passive_nobody rfl ⟨2, .refl _⟩ (Board.within_fresh _ 2) run (Cell.origin_within _)
  have refused : answers ((Command.apply (.cell Cell.origin) (.text Direction.up.name)).run d)
      (after requests (.fresh 2)) = false := by
    decide +kernel
  unfold answers at refused
  rw [applied] at refused
  cases refused

end Studio

end Autotile
