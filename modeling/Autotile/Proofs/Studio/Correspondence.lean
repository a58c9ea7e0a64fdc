import Autotile.Proofs.Studio.Renumbering

/-! # Every command does the same under other numbers

Edits are carried out at two desks that work by the same rules, and those who hear of them at the
second do there what those at the first do. Then a command comes to the same at both, but for the
numbers of entities. -/
namespace Autotile

open Edit

theorem Fault.isValueFault_renumber (ρ : Renumbering) (fault : Fault) :
    (fault.renumber ρ).isValueFault = fault.isValueFault := by
  cases fault <;> rfl

theorem Fault.renumber_of_isValueFault (ρ : Renumbering) {fault : Fault}
    (h : fault.isValueFault = true) : fault.renumber ρ = fault := by
  cases fault <;> first | rfl | cases h

theorem Board.Renumbers.save {ρ : Renumbering} {b b' : Board} (h : b.Renumbers ρ b') :
    b'.save = ρ.reads id b.save := by
  unfold Board.save
  rw [h.contents, h.contents]
  apply ρ.reads_bind
  intro tiles
  apply ρ.reads_bind
  exact fun _ => rfl

namespace Edit

variable {ρ : Renumbering} {α β γ δ : Type} {f : α → β} {g : γ → δ}

theorem corresponds_given {x : Except Fault α} (h : FailsBy Fault.NamesNone x) :
    Corresponds ρ id (consult fun _ => x) (consult fun _ => x) :=
  corresponds_consult fun _ _ _ => (ρ.reads_of_namesNone h).symm

theorem Corresponds.get_bind {k : Studio → Edit γ} {k' : Studio → Edit δ}
    (h : ∀ s s', s.Renumbers ρ s' → Corresponds ρ g (k s) (k' s')) :
    Corresponds ρ g (get >>= k) (get >>= k') :=
  ⟨fun hs => (h _ _ hs).ends hs⟩

theorem Corresponds.when {p : Prop} [Decidable p] {x : Edit α} {x' : Edit β} {y : Edit γ}
    {y' : Edit δ} (hx : Corresponds ρ f x x') (hy : Corresponds ρ g y y') :
    Corresponds ρ g (if p then (do let _ ← x; y) else y) (if p then (do let _ ← x'; y') else y') :=
  Corresponds.ite (hx.bind fun _ => hy) hy

theorem Corresponds.guarded {p : Prop} [Decidable p] {fault : Fault} {x : Unit → Edit γ}
    {x' : Unit → Edit δ} (hx : Corresponds ρ g (x ()) (x' ())) :
    Corresponds ρ g (if p then (do let r ← throw fault; x r) else x ())
      (if p then (do let r ← throw (fault.renumber ρ); x' r) else x' ()) :=
  Corresponds.ite ((corresponds_throw id fault).bind fun _ => hx) hx

end Edit

/-- Two desks that work by the same rules. Who hears of an event at the second does there what is
done at the first by who hears of the event of the same entities. -/
structure Desk.Corresponds (ρ : Renumbering) (d d' : Desk) : Prop where
  book : d'.book = d.book
  offsets : d'.offsets = d.offsets
  hear : ∀ event, Edit.Corresponds ρ id (d.hear event) (d'.hear (event.renumber ρ))

namespace Desk.Corresponds

variable {ρ : Renumbering} {d d' : Desk}

section Edits

variable (h : Desk.Corresponds ρ d d')
include h

theorem publish (event : Event) :
    Edit.Corresponds ρ id (d.publish event) (d'.publish (event.renumber ρ)) :=
  (corresponds_record event).bind fun _ => h.hear event

theorem refreshAs (named : Datum) (i : EntityId) :
    Edit.Corresponds ρ id (d.refreshAs named i) (d'.refreshAs (named.renumber ρ) (ρ i)) := by
  unfold Desk.refreshAs
  rw [h.book]
  apply (corresponds_consult fun _ _ hb => hb.tile i).bind
  intro tile
  apply (corresponds_consult fun _ _ hb => hb.composed d.book tile).bind
  intro fragments
  apply Edit.Corresponds.ite (corresponds_pure id false)
  apply (corresponds_alter fun _ _ hb => hb.setFragments i fragments).bind
  intro _
  exact (h.publish _).bind fun _ => corresponds_pure id true

theorem refresh (i : EntityId) : Edit.Corresponds ρ id (d.refresh i) (d'.refresh (ρ i)) := by
  have numbered := h.refreshAs (.int i) i
  rwa [Datum.renumber_int] at numbered

theorem refreshGiven (given : Datum) :
    Edit.Corresponds ρ id (d.refreshGiven given) (d'.refreshGiven (given.renumber ρ)) := by
  apply (corresponds_consult fun _ _ hb => hb.idOf given).bind
  exact h.refreshAs given

theorem refreshAt (cell : Cell) :
    Edit.Corresponds ρ (Option.map ρ) (d.refreshAt cell) (d'.refreshAt cell) := by
  apply (corresponds_consult fun _ _ hb => hb.idAt .tile cell).bind
  rintro (_ | i)
  · exact corresponds_pure (Option.map ρ) none
  · apply (h.refresh i).bind
    intro changed
    exact Edit.Corresponds.ite (corresponds_pure (Option.map ρ) (some i))
      (corresponds_pure (Option.map ρ) none)

theorem cascade (cell : Cell) :
    Edit.Corresponds ρ (List.map ρ) (d.cascade cell) (d'.cascade cell) := by
  unfold Desk.cascade
  rw [h.offsets]
  apply (Edit.Corresponds.filterMapM (fun offset => h.refreshAt (cell + offset)) d.offsets).bind
  intro changed
  apply (corresponds_given (cell.checkKey_failsBy.imp fun _ => Fault.IsOversize.namesNone)).bind
  intro _
  rw [List.length_map]
  exact (corresponds_note _).bind fun _ => corresponds_pure (List.map ρ) changed

theorem repaint : Edit.Corresponds ρ id d.repaint d'.repaint := by
  have read : ∀ b b', Board.Renumbers ρ b b' →
      b'.sorted b'.indexed = ρ.reads (List.map ρ) (b.sorted b.indexed) := by
    intro b b' hb
    rw [hb.indexed, hb.sorted]
  apply (corresponds_consult read).bind
  intro order
  apply (corresponds_alter fun _ _ hb => hb.setOrder order).bind
  exact fun _ => h.publish (.reordered order)

theorem discard (i : EntityId) : Edit.Corresponds ρ id (d.discard i) (d'.discard (ρ i)) := by
  apply (corresponds_consult fun _ _ hb => congrArg Except.ok hb.paintOrder).bind
  intro order
  have deleted : Edit.Corresponds ρ id (alter (·.delete i)) (alter (·.delete (ρ i))) :=
    corresponds_alter fun _ _ hb => hb.delete i
  have contained : (order.map ρ).contains (ρ i) = order.contains i := by
    rw [Bool.eq_iff_iff, List.contains_iff_mem, List.contains_iff_mem,
      List.mem_map_of_injective ρ.mono.injective]
  rw [contained, ← List.map_erase ρ.mono.injective]
  apply Edit.Corresponds.ite _ deleted
  apply (corresponds_alter fun _ _ hb => hb.setOrder (order.erase i)).bind
  intro _
  exact (h.publish (.reordered (order.erase i))).bind fun _ => deleted

theorem refuse (layer : Layer) (cell : Cell) (reason : Refusal) :
    Edit.Corresponds ρ id (d.refuse layer cell reason) (d'.refuse layer cell reason) := by
  have published := h.publish (.refused layer cell reason)
  cases reason with
  | occupied => exact (corresponds_note _).bind fun _ => published
  | empty => exact (corresponds_note _).bind fun _ => published

theorem add (layer : Layer) (cell : Cell) (type : String) :
    Edit.Corresponds ρ (Option.map ρ) (d.add layer cell type) (d'.add layer cell type) := by
  apply (corresponds_given (cell.checkKey_failsBy.imp fun _ => Fault.IsOversize.namesNone)).bind
  intro _
  have blocks : ∀ b b', Board.Renumbers ρ b b' →
      .ok (b'.blocks layer cell) = ρ.reads id (.ok (b.blocks layer cell)) :=
    fun _ _ hb => congrArg Except.ok (hb.blocks layer cell)
  apply (corresponds_consult blocks).bind
  intro blocked
  apply Edit.Corresponds.ite
  · apply (h.refuse layer cell .occupied).bind
    exact fun _ => corresponds_pure (Option.map ρ) none
  apply (corresponds_consult fun _ _ hb => congrArg Except.ok hb.nextId).bind
  intro i
  apply (corresponds_alter fun _ _ hb => hb.insert layer cell type).bind
  intro _
  apply Edit.Corresponds.when (h.refresh i)
  apply h.repaint.bind
  intro _
  apply Edit.Corresponds.when (h.cascade cell)
  exact (h.publish (.added layer i cell type)).bind fun _ =>
    corresponds_pure (Option.map ρ) (some i)

theorem remove (layer : Layer) (cell : Cell) :
    Edit.Corresponds ρ id (d.remove layer cell) (d'.remove layer cell) := by
  apply (corresponds_consult fun _ _ hb => hb.idAt layer cell).bind
  rintro (_ | i)
  · exact (h.refuse layer cell .empty).bind fun _ => corresponds_pure id false
  · apply (corresponds_alter fun _ _ hb => hb.vacate layer cell).bind
    intro _
    apply (corresponds_consult fun _ _ hb => hb.entity i).bind
    intro entity
    apply (h.discard i).bind
    intro _
    apply Edit.Corresponds.when (h.cascade cell)
    exact (h.publish (.removed layer i cell entity.type)).bind fun _ => corresponds_pure id true

theorem clear : Edit.Corresponds ρ id d.clear d'.clear :=
  (corresponds_alter fun _ _ hb => hb.clear).bind fun _ => h.publish .cleared

theorem addGiven (layer : Layer) (cell type : Datum) : Edit.Corresponds ρ (Option.map ρ)
    (d.addGiven layer cell type) (d'.addGiven layer cell type) := by
  apply (corresponds_given cell.toCell_namesNone).bind
  intro cell
  apply (corresponds_given type.toTypeName_namesNone).bind
  exact h.add layer cell

theorem removeGiven (layer : Layer) (cell : Datum) :
    Edit.Corresponds ρ id (d.removeGiven layer cell) (d'.removeGiven layer cell) := by
  apply (corresponds_given cell.toCell_namesNone).bind
  exact h.remove layer

end Edits

section Loads

variable (h : Desk.Corresponds ρ d d')
include h

theorem loadEntry (layer : Layer) (tally : Tally) (key : String) (value : Datum) :
    Edit.Corresponds ρ id (d.loadEntry layer tally key value)
      (d'.loadEntry layer tally key value) := by
  have skipped : ∀ notice, Edit.Corresponds ρ id (do note notice; return tally.skip)
      (do note notice; return tally.skip) :=
    fun notice => (corresponds_note notice).bind fun _ => corresponds_pure id tally.skip
  unfold Desk.loadEntry
  cases value with
  | null => exact corresponds_pure id tally
  | text type =>
    apply Edit.Corresponds.ite (corresponds_pure id tally)
    cases Cell.ofKey key with
    | ok cell =>
      apply (h.add layer cell type).bind
      intro added
      rw [Option.isSome_map]
      exact corresponds_pure id _
    | error fault => exact Edit.Corresponds.ite (skipped _) (corresponds_throw id (.key fault))
  | _ => exact skipped _

theorem load (data : Datum) (replace : Bool) :
    Edit.Corresponds ρ id (d.load data replace) (d'.load data replace) := by
  have loaded : ∀ layer entries,
      Edit.Corresponds ρ id (d.loadSection layer entries) (d'.loadSection layer entries) := by
    intro layer entries
    apply Edit.Corresponds.foldlM
    exact fun tally entry => h.loadEntry layer tally entry.1 entry.2
  apply (corresponds_given data.toMap_parsed_namesNone).bind
  intro entries
  apply (corresponds_given (Datum.toSection_namesNone .tile entries)).bind
  intro tiles
  apply (corresponds_given (Datum.toSection_namesNone .object entries)).bind
  intro objects
  apply Edit.Corresponds.when h.clear
  apply (loaded .tile tiles).bind
  intro tiles
  apply (loaded .object objects).bind
  intro objects
  exact (h.publish _).bind fun _ => corresponds_pure id _

theorem reload (replace : Bool) : Edit.Corresponds ρ id (d.reload replace) (d'.reload replace) := by
  apply (corresponds_consult fun _ _ hb => hb.save).bind
  exact fun saved => h.load saved.toDatum replace

end Loads

/-! ## The brush -/

theorem brush : Edit.Corresponds ρ id Desk.brush Desk.brush := by
  apply Edit.Corresponds.get_bind
  intro s s' hs
  rw [hs.brush]
  cases s.brush with
  | none => exact corresponds_throw id .noBrush
  | some brush => exact corresponds_pure id brush

section Brushing

variable (h : Desk.Corresponds ρ d d')
include h

theorem select (mode type : Datum) :
    Edit.Corresponds ρ id (d.select mode type) (d'.select mode type) := by
  apply brush.bind
  intro _
  apply (corresponds_given mode.toMode_namesNone).bind
  intro mode
  apply Edit.Corresponds.guarded
  have taken : ∀ selected : Brush, ∀ s s' : Studio, s.Renumbers ρ s' →
      Studio.Renumbers ρ { s with brush := some selected } { s' with brush := some selected } :=
    fun selected _ _ hs => { hs with brush := rfl }
  apply (corresponds_modify (taken _)).bind
  intro _
  exact (h.publish _).bind fun _ => brush

theorem trySelect (mode type : Datum) :
    Edit.Corresponds ρ id (d.trySelect mode type) (d'.trySelect mode type) := by
  apply Edit.Corresponds.tryCatch ((h.select mode type).bind fun _ => corresponds_pure id ())
  intro fault
  rw [fault.isValueFault_renumber ρ]
  by_cases given : fault.isValueFault = true
  · rw [if_pos given, if_pos given, Fault.renumber_of_isValueFault ρ given]
    exact corresponds_note _
  · rw [if_neg given, if_neg given]
    exact corresponds_throw id fault

theorem apply (cell : Datum) (side : Path) :
    Edit.Corresponds ρ id (d.apply cell side) (d'.apply cell side) := by
  have put : ∀ layer cell type, Edit.Corresponds ρ id
      (do return (← d.addGiven layer cell type).isSome)
      (do return (← d'.addGiven layer cell type).isSome) := by
    intro layer cell type
    apply (h.addGiven layer cell type).bind
    intro added
    rw [Option.isSome_map]
    exact corresponds_pure id _
  apply brush.bind
  intro brush
  apply (corresponds_given cell.toCell_namesNone).bind
  intro cell
  simp only [id_eq]
  cases brush.mode with
  | tile => exact put _ _ _
  | object => exact put _ _ _
  | remove =>
    apply (corresponds_consult fun _ _ hb => hb.typeAt .object cell).bind
    rintro (_ | type)
    · exact h.remove .tile cell
    · exact h.remove .object cell

theorem applyGiven (cell side : Datum) :
    Edit.Corresponds ρ id (d.applyGiven cell side) (d'.applyGiven cell side) := by
  apply brush.bind
  intro _
  apply (corresponds_given side.toPath_namesNone).bind
  exact h.apply cell

theorem click (cell x y : Datum) :
    Edit.Corresponds ρ id (d.click cell x y) (d'.click cell x y) := by
  apply (corresponds_given (Sprite.pickAt_namesNone x y)).bind
  rintro (_ | side)
  · exact corresponds_pure id ()
  · exact (h.apply cell [side]).bind fun _ => corresponds_pure id ()

end Brushing

/-! ## Commands -/

theorem await (event : String) (commands : List Command) :
    Edit.Corresponds ρ (Answer.renumber ρ) ((Command.await event commands).run d)
      (((Command.await event commands).renumber ρ).run d') := by
  let leave (commands : List Command) (s : Studio) : Studio :=
    { s with cues := s.cues ++ commands.map fun command => (event, command) }
  have left : ∀ s s' : Studio, s.Renumbers ρ s' →
      (leave commands s).Renumbers ρ (leave (Command.renumberAll ρ commands) s') := by
    intro s s' hs
    have cues := hs.cues
    refine { hs with cues := ?_ }
    change s'.cues ++ _ = _
    rw [cues, Command.renumberAll_eq_map, List.map_append, List.map_map, List.map_map]
    rfl
  exact (corresponds_modify left).bind fun _ => corresponds_pure (Answer.renumber ρ) .nothing

section Commands

variable (h : Desk.Corresponds ρ d d')
include h

theorem meet (request : Request) (payload : Payload) :
    Edit.Corresponds ρ id (d.meet request payload) (d'.meet request payload) := by
  have idle : Edit.Corresponds ρ id (pure ()) (pure ()) := corresponds_pure id ()
  cases request with
  | place => exact Edit.Corresponds.ite idle ((h.addGiven _ _ _).bind fun _ => idle)
  | take => exact Edit.Corresponds.ite idle ((h.removeGiven _ _).bind fun _ => idle)
  | load => exact Edit.Corresponds.ite idle ((h.load _ _).bind fun _ => idle)
  | select => exact Edit.Corresponds.ite idle (h.trySelect _ _)
  | click => exact Edit.Corresponds.ite idle (h.click _ _ _)

theorem deliver (name : String) (payload : Payload) :
    Edit.Corresponds ρ id (d.deliver name payload) (d'.deliver name payload) := by
  have idle : Edit.Corresponds ρ id (pure ()) (pure ()) := corresponds_pure id ()
  unfold Desk.deliver
  cases Request.ofName? name with
  | some request =>
    apply Edit.Corresponds.get_bind
    intro s s' hs
    rw [hs.brush]
    exact Edit.Corresponds.ite idle (Edit.Corresponds.guarded (h.meet request payload))
  | none =>
    exact Edit.Corresponds.ite (Edit.Corresponds.guarded (h.publish _)) idle

theorem emit (event payload : Datum) :
    Edit.Corresponds ρ id (d.emit event payload) (d'.emit event payload) := by
  unfold Desk.emit
  cases payload with
  | record entries =>
    apply Edit.Corresponds.guarded
    cases event with
    | text name => exact h.deliver name _
    | _ =>
      exact Edit.Corresponds.ite (corresponds_throw id .wrongKind) (corresponds_pure id ())
  | _ => exact corresponds_throw id .wrongKind

theorem run (command : Command) : Edit.Corresponds ρ (Answer.renumber ρ) (command.run d)
    ((command.renumber ρ).run d') := by
  have answered : ∀ {α β : Type} {f : α → β} {x : Edit α} {x' : Edit β} {answer : α → Answer}
      {answer' : β → Answer} (_ : Edit.Corresponds ρ f x x')
      (_ : ∀ a, answer' (f a) = (answer a).renumber ρ), Edit.Corresponds ρ (Answer.renumber ρ)
        (do return answer (← x)) (do return answer' (← x')) := by
    intro α β f x x' answer answer' hx like
    apply hx.bind
    intro a
    rw [like]
    exact corresponds_pure (Answer.renumber ρ) (answer a)
  -- what is asked of a cell
  have asked : ∀ {α β : Type} {f : α → β} {cell : Datum} {q : Board → Cell → Except Fault α}
      {q' : Board → Cell → Except Fault β}
      (_ : ∀ b b', Board.Renumbers ρ b b' → ∀ c, q' b' c = ρ.reads f (q b c)),
      Edit.Corresponds ρ f (consult fun b => do q b (← cell.toCell))
        (consult fun b => do q' b (← cell.toCell)) := by
    intro α β f cell q q' same
    apply corresponds_consult
    intro b b' hb
    exact ρ.reads_bind_of_namesNone cell.toCell_namesNone (same b b' hb)
  cases command with
  | add layer cell type => exact answered (h.addGiven layer cell type) fun _ => rfl
  | remove layer cell => exact answered (h.removeGiven layer cell) fun _ => rfl
  | clear => exact answered h.clear fun _ => rfl
  | load data replace => exact answered (h.load data replace) fun _ => rfl
  | reload replace => exact answered (h.reload replace) fun _ => rfl
  | refresh entity => exact answered (h.refreshGiven entity) fun _ => rfl
  | cascade cell =>
    apply (corresponds_given cell.toCell_namesNone).bind
    intro cell
    exact answered (h.cascade cell) fun _ => rfl
  | select mode type => exact answered (h.select mode type) fun _ => rfl
  | apply cell side => exact answered (h.applyGiven cell side) fun _ => rfl
  | emit event payload => exact answered (h.emit event payload) fun _ => rfl
  | typeAt layer cell => exact answered (asked fun _ _ hb => hb.typeAt layer) fun _ => rfl
  | entityAt layer cell => exact answered (asked fun _ _ hb => hb.idAt layer) fun _ => rfl
  | fragmentsAt cell => exact answered (asked fun _ _ hb => hb.fragmentsAt) fun _ => rfl
  | contents layer =>
    exact answered (corresponds_consult fun _ _ hb => hb.contents layer) fun _ => rfl
  | snapshot => exact answered (corresponds_consult fun _ _ hb => hb.snapshot) fun _ => rfl
  | save => exact answered (corresponds_consult fun _ _ hb => hb.save) fun _ => rfl
  | paintOrder =>
    exact answered (corresponds_consult fun _ _ hb => congrArg Except.ok hb.paintOrder) fun _ => rfl
  | isKnown entity =>
    exact answered (corresponds_consult fun _ _ hb => hb.knows entity) fun _ => rfl
  | position entity =>
    have found : ∀ b b', Board.Renumbers ρ b b' → (do b'.entity (← b'.idOf (entity.renumber ρ))) =
        ρ.reads id (do b.entity (← b.idOf entity)) := by
      intro b b' hb
      rw [hb.idOf]
      exact ρ.reads_bind hb.entity _
    exact answered (corresponds_consult found) fun _ => rfl
  | sorted entities =>
    exact answered (corresponds_consult fun _ _ hb => hb.sortedGiven entities) fun _ => rfl
  | offsets =>
    change Edit.Corresponds ρ _ _ (pure (Answer.cells d'.offsets))
    rw [h.offsets]
    exact corresponds_pure (Answer.renumber ρ) (Answer.cells d.offsets)
  | brush => exact answered brush fun _ => rfl
  | elsewhere => exact corresponds_throw (Answer.renumber ρ) .noMap
  | await event commands => exact await event commands

end Commands

end Desk.Corresponds

end Autotile
