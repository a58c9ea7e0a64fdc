import Autotile.Cascade
import Autotile.Proofs.Studio.Failure

/-! # Edits leave every tile drawn

An edit that succeeds leaves every tile drawn, if the offsets of the cascade lead to every cell from
which a rule may look at the edited one. Until the cascade is through some tiles wait to be drawn.
Those who hear of the edit meanwhile may edit the map as well, as long as they leave drawn what was
drawn. -/
namespace Autotile

open Edit

/-- Those who hear of an edit leave the board alone, whether they fail or not. -/
def Quiet (hear : Event → Edit Unit) : Prop := ∀ event s, (after (hear event) s).board = s.board

theorem Cell.eq_add_of_add_neg_eq {c o cell : Cell} (h : c + -o = cell) : c = cell + o := by
  subst h
  ext <;> simp only [s_add, e_add, u_add, s_neg, e_neg, u_neg] <;> omega

theorem Cell.add_origin (c : Cell) : c + Cell.origin = c := by
  ext <;> simp [Cell.origin]

/-- On this course an edit that answers leaves drawn whichever tiles were drawn before, and sees to
those that it leaves to be drawn itself. -/
def Desk.upholding (book : Rulebook) : Course where
  done b b' := ∀ P, b.DrawnBut book P → b.Advance b' ∧ b'.DrawnBut book P
  failed _ _ := True
  refl _ _ h := ⟨.refl h.sound, h⟩
  trans h h' P hb :=
    have ⟨advance, drawn⟩ := h P hb
    have ⟨advance', drawn'⟩ := h' P drawn
    ⟨advance.trans advance', drawn'⟩
  stay _ := trivial
  lead _ _ := trivial

theorem Quiet.upholds {hear : Event → Edit Unit} (quiet : Quiet hear) (book : Rulebook)
    (event : Event) : Edit.Follows (Desk.upholding book).steady (hear event) :=
  follows_of_board_eq fun s => ends_after (P := fun t => t.board = s.board) |>.mpr (quiet event s)

namespace Desk

variable {d : Desk} {s : Studio} {P : Cell → Prop} {cell : Cell} {id : EntityId}

section Quietly

variable (quiet : Quiet d.hear)
include quiet

theorem publish_board (event : Event) :
    Ends (d.publish event) s (fun _ t => t.board = s.board) (fun _ t => t.board = s.board) := by
  refine (ends_bind _ _).mpr ((ends_record _).mpr ?_)
  exact ends_after (P := fun t => t.board = s.board) |>.mpr (quiet event _)

end Quietly

section Upholding

variable (heard : ∀ event, Edit.Follows (upholding d.book).steady (d.hear event))
include heard

private theorem publish_draws (event : Event) (h : s.board.DrawnBut d.book P) :
    Ends (d.publish event) s (fun _ t => t.board.DrawnBut d.book P) (fun _ _ => True) :=
  ((Edit.Follows.publish (heard event).of_steady).ends s).mono (fun _ _ ht => (ht P h).2)
    fun _ _ _ => trivial

private theorem refreshAs_draws (named : Datum) (id : EntityId) (h : s.board.DrawnBut d.book P) :
    Ends (d.refreshAs named id) s
      (fun _ t => t.board.DrawnBut d.book fun c => P c ∧ (c, id) ∉ s.board.index .tile)
      (fun _ _ => True) := by
  refine ends_consult_bind.mpr ⟨fun tile ht => ?_, fun _ _ => trivial⟩
  obtain ⟨he, _⟩ := Board.tile_eq_ok ht
  refine ends_consult_bind.mpr ⟨fun fragments hf => ?_, fun _ _ => trivial⟩
  by_cases same : tile.fragments = fragments
  · rw [if_pos same, ends_pure]
    exact h.confirmed he (same ▸ hf)
  · rw [if_neg same]
    refine ends_alter_bind.mpr ?_
    exact Ends.bind (publish_draws heard _ (h.redrawn he hf)) fun _ t ht => (ends_pure _).mpr ht

private theorem refreshAt_draws (h : s.board.DrawnBut d.book P) :
    Ends (d.refreshAt cell) s (fun _ t => t.board.DrawnBut d.book fun c => P c ∧ c ≠ cell)
      (fun _ _ => True) := by
  refine ends_consult_bind.mpr ⟨fun found hf => ?_, fun _ _ => trivial⟩
  obtain ⟨_, hf⟩ := Board.idAt_eq_ok hf
  cases found with
  | none =>
    refine (ends_pure _).mpr (h.mono fun c id hi hp => ⟨hp, ?_⟩)
    rintro rfl
    rw [h.sound.find?_eq_some_iff.mpr hi] at hf
    cases hf
  | some id =>
    refine Ends.bind (refreshAs_draws heard _ id h) fun changed t ht => ?_
    have here := h.sound.find?_eq_some_iff.mp hf
    have drawn : t.board.DrawnBut d.book fun c => P c ∧ c ≠ cell :=
      ht.mono fun c _ _ hc => ⟨hc.1, fun he => hc.2 (he ▸ here)⟩
    cases changed with
    | false => exact (ends_pure _).mpr drawn
    | true => exact (ends_pure _).mpr drawn

private theorem refreshAll_draws (offsets : List Cell)
    (h : s.board.DrawnBut d.book fun c => P c ∨ ∃ o ∈ offsets, c = cell + o) :
    Ends (offsets.filterMapM fun o => d.refreshAt (cell + o)) s
      (fun _ t => t.board.DrawnBut d.book P) (fun _ _ => True) := by
  -- the tiles that the cascade has to draw are those that the remaining offsets lead to
  induction offsets generalizing s with
  | nil => exact (ends_pure _).mpr (h.mono fun _ _ _ hc => by simpa using hc)
  | cons o offsets ih =>
    rw [List.filterMapM_cons]
    refine Ends.bind (refreshAt_draws heard h) fun changed t ht => ?_
    have rest := ih (s := t) (ht.mono fun c _ _ hc => ?_)
    · cases changed with
      | none => exact rest
      | some id => exact Ends.bind rest fun _ _ ht => (ends_pure _).mpr ht
    · rcases hc with ⟨waits | ⟨o', ho, rfl⟩, hne⟩
      · exact Or.inl waits
      · rcases List.mem_cons.mp ho with rfl | ho
        · exact absurd rfl hne
        · exact Or.inr ⟨o', ho, rfl⟩

private theorem cascade_draws {Q : Cell → Prop} (h : s.board.DrawnBut d.book Q)
    (led : ∀ c id, (c, id) ∈ s.board.index .tile → Q c → P c ∨ ∃ o ∈ d.offsets, c = cell + o) :
    Ends (d.cascade cell) s (fun _ t => t.board.DrawnBut d.book P) (fun _ _ => True) := by
  refine Ends.bind (refreshAll_draws heard d.offsets (h.mono led)) fun changed t ht => ?_
  refine ends_consult_bind.mpr ⟨fun _ _ => ?_, fun _ _ => trivial⟩
  rw [ends_bind, ends_note, ends_pure]
  exact ht

private theorem repaint_draws (h : s.board.DrawnBut d.book P) :
    Ends d.repaint s (fun _ t => t.board.DrawnBut d.book P) (fun _ _ => True) := by
  refine ends_consult_bind.mpr ⟨fun order ho => ?_, fun _ _ => trivial⟩
  have painted := h.setOrder (h.sound.advance_sorted ho).sound
  exact ends_alter_bind.mpr (publish_draws heard _ painted)

private theorem refuse_draws (layer : Layer) (cell : Cell) (reason : Refusal)
    (h : s.board.DrawnBut d.book P) :
    Ends (d.refuse layer cell reason) s (fun _ t => t.board.DrawnBut d.book P)
      (fun _ _ => True) :=
  refuse_ends fun event _ hu => publish_draws heard event (hu ▸ h)

/-- Those who hear that an entity is struck off cannot have it indexed again, so that it may be
deleted when they are done. -/
private theorem discard_draws {b : Board} {layer : Layer} (sound : b.Sound)
    (found : b.find? layer cell = some id) (hs : s.board = b.vacate layer cell)
    (h : ((b.vacate layer cell).setOrder (b.paintOrder.erase id)).DrawnBut d.book P) :
    Ends (d.discard id) s (fun _ t => t.board.DrawnBut d.book P) (fun _ _ => True) := by
  have old : id < b.nextId :=
    sound.indexed_lt (Board.mem_indexed.mpr ⟨layer, cell, sound.find?_eq_some_iff.mp found⟩)
  have struck := sound.advance_withdraw found
  let left (b' : Board) : Prop := id ∉ b'.indexed ∧ b'.DrawnBut d.book P
  have leaves : left ((b.vacate layer cell).setOrder (b.paintOrder.erase id)) :=
    ⟨sound.unindexed found, h⟩
  refine (discard_ends hs leaves fun event u hu => ?_).mono ?_ fun _ _ hf => hf
  · refine ((Edit.Follows.publish (heard event).of_steady).ends u).mono (fun _ t ht => ?_)
      fun _ _ _ => trivial
    obtain ⟨advance, drawn⟩ := ht P (hu ▸ h)
    rw [hu] at advance
    exact ⟨advance.gone id (Nat.lt_of_lt_of_le old struck.numbers) (sound.unindexed found), drawn⟩
  · rintro _ t ⟨b', ⟨gone, drawn⟩, ht⟩
    rw [ht]
    exact drawn.delete gone

variable (covers : ∀ o ∈ d.book.dependencies, o ≠ Cell.origin → o ∈ d.offsets)
include covers

omit heard in
private theorem led {c : Cell} (hne : c ≠ cell)
    (h : ∃ o ∈ d.book.dependencies, c + -o = cell) : ∃ o ∈ d.offsets, c = cell + o := by
  obtain ⟨o, ho, hc⟩ := h
  have hc := Cell.eq_add_of_add_neg_eq hc
  refine ⟨o, covers o ho ?_, hc⟩
  rintro rfl
  exact hne (hc.trans (Cell.add_origin cell))

private theorem add_draws (layer : Layer) {type : String} (named : type ≠ "")
    (h : s.board.DrawnBut d.book P) :
    Ends (d.add layer cell type) s (fun _ t => t.board.DrawnBut d.book P) (fun _ _ => True) := by
  refine ends_consult_bind.mpr ⟨fun _ hk => ?_, fun _ _ => trivial⟩
  rw [ends_bind, ends_consult_ok]
  by_cases hb : s.board.blocks layer cell = true
  · rw [if_pos hb]
    exact Ends.bind (refuse_draws heard layer cell _ h) fun _ t ht => (ends_pure _).mpr ht
  · have sound := (h.sound.advance_insert (Board.find?_eq_none_of_blocks hb)
      (Cell.checkKey_eq_ok hk) named).sound
    rw [if_neg hb, ends_bind, ends_consult_ok, ends_bind, ends_alter]
    cases layer with
    | tile =>
      have inserted := h.insert_tile sound
      have here : (cell, s.board.nextId) ∈ (s.board.insert .tile cell type).index .tile :=
        Board.mem_index_insert.mpr (Or.inr ⟨rfl, rfl, rfl⟩)
      refine Ends.bind (refreshAs_draws heard _ _ inserted) fun _ t ht => ?_
      refine Ends.bind (repaint_draws heard ht) fun _ t ht => ?_
      refine Ends.bind (cascade_draws heard (P := P) ht ?_) fun _ t ht => ?_
      · rintro c id hi ⟨waits | rfl | hlook, hne⟩
        · exact Or.inl waits
        · exact absurd here hne
        · exact Or.inr (led covers (fun hc => hne (hc ▸ here)) hlook)
      · exact Ends.bind (publish_draws heard _ ht) fun _ t ht => (ends_pure _).mpr ht
    | object =>
      refine Ends.bind (repaint_draws heard (h.insert_object sound)) fun _ t ht => ?_
      exact Ends.bind (publish_draws heard _ ht) fun _ t ht => (ends_pure _).mpr ht

private theorem remove_draws (layer : Layer) (h : s.board.DrawnBut d.book P) :
    Ends (d.remove layer cell) s (fun _ t => t.board.DrawnBut d.book P) (fun _ _ => True) := by
  refine ends_consult_bind.mpr ⟨fun found hf => ?_, fun _ _ => trivial⟩
  obtain ⟨_, hf⟩ := Board.idAt_eq_ok hf
  cases found with
  | none => exact Ends.bind (refuse_draws heard layer cell _ h) fun _ t ht => (ends_pure _).mpr ht
  | some id =>
    refine ends_alter_bind.mpr (ends_consult_bind.mpr ⟨fun entity _ => ?_, fun _ _ => trivial⟩)
    cases layer with
    | tile =>
      refine Ends.bind (discard_draws heard h.sound hf rfl (h.struck_tile hf)) fun _ t ht => ?_
      refine Ends.bind (cascade_draws heard (P := P) ht ?_) fun _ u hu => ?_
      · rintro c j _ (waits | ⟨elsewhere, looks⟩)
        · exact Or.inl waits
        · exact Or.inr (led covers elsewhere looks)
      · exact Ends.bind (publish_draws heard _ hu) fun _ v hv => (ends_pure _).mpr hv
    | object =>
      refine Ends.bind (discard_draws heard h.sound hf rfl (h.struck_object hf)) fun _ t ht => ?_
      exact Ends.bind (publish_draws heard _ ht) fun _ u hu => (ends_pure _).mpr hu

end Upholding

section Still

variable (h : s.board.Drawn d.book)
include h

theorem refreshAs_still (named : Datum) (hi : (cell, id) ∈ s.board.index .tile) :
    Ends (d.refreshAs named id) s (fun changed t => changed = false ∧ t = s) fun _ _ => False := by
  obtain ⟨e, he, _, hl, _⟩ := h.sound.stands _ cell id hi
  have tile := Board.tile_of_entity? he hl
  have composed := h.drawn cell id e hi (fun hc => hc) he
  refine (ends_consult_bind_of_ok tile).mpr ((ends_consult_bind_of_ok composed).mpr ?_)
  rw [if_pos rfl, ends_pure]
  exact ⟨rfl, rfl⟩

private theorem refreshAll_still (offsets : List Cell) :
    Ends (offsets.filterMapM fun o => d.refreshAt (cell + o)) s
      (fun changed t => changed = [] ∧ t = s) fun _ _ => True := by
  have still : ∀ c, Ends (d.refreshAt c) s (fun changed t => changed = none ∧ t = s)
      fun _ _ => True := by
    intro c
    refine ends_consult_bind.mpr ⟨fun found hf => ?_, fun _ _ => trivial⟩
    obtain ⟨_, hf⟩ := Board.idAt_eq_ok hf
    cases found with
    | none => exact (ends_pure _).mpr ⟨rfl, rfl⟩
    | some id =>
      have here := h.sound.find?_eq_some_iff.mp hf
      refine Ends.bind ((refreshAs_still h _ here).mono (fun _ _ ht => ht) fun _ _ _ => trivial) ?_
      rintro _ _ ⟨rfl, rfl⟩
      exact (ends_pure _).mpr ⟨rfl, rfl⟩
  induction offsets with
  | nil => exact (ends_pure _).mpr ⟨rfl, rfl⟩
  | cons o offsets ih =>
    rw [List.filterMapM_cons]
    refine Ends.bind (still (cell + o)) ?_
    rintro _ _ ⟨rfl, rfl⟩
    exact ih

theorem cascade_still (cell : Cell) :
    Ends (d.cascade cell) s (fun changed t => changed = [] ∧ t.board = s.board)
      fun _ _ => True := by
  refine Ends.bind (refreshAll_still h d.offsets) ?_
  rintro _ _ ⟨rfl, rfl⟩
  refine ends_consult_bind.mpr ⟨fun _ _ => ?_, fun _ _ => trivial⟩
  rw [ends_bind, ends_note, ends_pure]
  exact ⟨rfl, rfl⟩

end Still

section Upholding

variable (heard : ∀ event, Edit.Follows (upholding d.book).steady (d.hear event))
include heard

omit heard in
private theorem follows_of_draws {book : Rulebook} {α : Type} {x : Edit α}
    (advances : Edit.Follows advancing x)
    (draws : ∀ s P, s.board.DrawnBut book P →
      Ends x s (fun _ t => t.board.DrawnBut book P) (fun _ _ => True)) :
    Edit.Follows (upholding book) x := by
  refine ⟨fun s => ⟨fun run P h => ⟨?_, ?_⟩, fun _ => trivial⟩⟩
  · exact (advances.ends s).of_ok run h.sound
  · exact (draws s P h).of_ok run

/-- If those who hear of an edit leave drawn what was drawn, so does every command. -/
theorem follows_upholding (covers : ∀ o ∈ d.book.dependencies, o ≠ Cell.origin → o ∈ d.offsets) :
    d.Follows (upholding d.book) := by
  have sound : ∀ {b : Board}, b.Sound → b.DrawnBut d.book fun _ => True := fun hb =>
    ⟨hb, fun _ _ _ _ hc => absurd trivial hc⟩
  have advances : d.Follows advancing := by
    apply follows_advancing
    intro event
    refine ⟨fun s => ((heard event).ends s).mono ?_ ?_⟩
    · exact fun _ t ht hb => (ht _ (sound hb)).1
    · exact fun _ t ht hb => (ht _ (sound hb)).1
  constructor
  case hear => exact heard
  case refreshAs =>
    intro named id
    apply follows_of_draws (advances.refreshAs named id)
    intro s P h
    refine (refreshAs_draws heard named id h).mono (fun _ _ ht => ?_) fun _ _ hf => hf
    exact ht.mono fun _ _ _ hc => hc.1
  case cascade =>
    intro cell
    apply follows_of_draws (advances.cascade cell)
    exact fun s P h => cascade_draws heard h fun _ _ _ hc => Or.inl hc
  case add =>
    intro layer cell type named
    apply follows_of_draws (advances.add layer cell type named)
    exact fun s P h => add_draws heard covers layer named h
  case remove =>
    intro layer cell
    apply follows_of_draws (advances.remove layer cell)
    exact fun s P h => remove_draws heard covers layer h
  case clear =>
    apply follows_of_draws advances.clear
    intro s P h
    have cleared : s.board.clear.DrawnBut d.book P := h.clear.mono fun _ _ _ no => no.elim
    exact ends_alter_bind.mpr (publish_draws heard _ cleared)

end Upholding

end Desk

namespace Board

/-- Boards that commands lead to from one without entities, where each command is answered and
those who hear of its edits leave the board alone. -/
inductive Reached (book : Rulebook) (offsets : List Cell) : Board → Prop
  | fresh (fixtures : Nat) : Reached book offsets { fixtures }
  | run {s t : Studio} {hear : Event → Edit Unit} {command : Command} {answer : Answer}
      (before : Reached book offsets s.board) (quiet : Quiet hear)
      (answered : command.run ⟨book, offsets, hear⟩ s = .ok answer t) :
      Reached book offsets t.board

variable {book : Rulebook} {offsets : List Cell} {b : Board}

theorem Reached.drawn (covers : ∀ o ∈ book.dependencies, o ≠ Cell.origin → o ∈ offsets)
    (h : Reached book offsets b) : b.Drawn book := by
  induction h with
  | fresh fixtures => exact drawn_fresh book fixtures
  | @run s _ hear command _ before quiet answered ih =>
    have desk : Desk.Follows ⟨book, offsets, hear⟩ (Desk.upholding book) :=
      Desk.follows_upholding (quiet.upholds book) covers
    exact (((desk.run command).ends s).of_ok answered _ ih).2

theorem Reached.run_after {s : Studio} {hear : Event → Edit Unit}
    (before : Reached book offsets s.board) (quiet : Quiet hear) (command : Command)
    (answered : answers (command.run ⟨book, offsets, hear⟩) s = true) :
    Reached book offsets (after (command.run ⟨book, offsets, hear⟩) s).board := by
  obtain ⟨answer, run⟩ := run_of_answers answered
  exact .run before quiet run

private theorem idOf_int {b : Board} {id : EntityId} {e : Entity} (he : b.entity? id = some e) :
    b.idOf (.int id) = .ok id := by
  have known : b.knows (.int id) = .ok true := by
    change Except.ok (b.exists? id) = _
    rw [exists?, he, Option.isSome_some, Bool.or_true]
  unfold idOf
  rw [known]
  rfl

/-- However a map was edited, its tiles are what composing the whole map anew would make them, so
to refresh a tile changes nothing and neither does a cascade from any cell. -/
theorem cascade_completeness
    (covers : offsets = book.cascadeOffsets ∨
      ∀ o ∈ book.dependencies, o ≠ Cell.origin → o ∈ offsets)
    (reached : Reached book offsets b) :
    (∀ cell id, (cell, id) ∈ b.tiles → ∃ tile, b.entity? id = some tile ∧ tile.cell = cell ∧
      tile.layer = .tile ∧
      book.composeAt (b.typeAt .tile) tile.type cell = .ok tile.fragments) ∧
    ∀ (hear : Event → Edit Unit) (s : Studio), s.board = b →
      (∀ cell id, (cell, id) ∈ b.tiles →
        (Command.refresh (.int id)).run ⟨book, offsets, hear⟩ s = .ok (.truth false) s) ∧
      ∀ given answer t, (Command.cascade given).run ⟨book, offsets, hear⟩ s = .ok answer t →
        answer = .entities [] ∧ t.board = b := by
  -- drawn tiles compose to what they show, so neither a refresh nor a cascade has work to do
  have drawn : b.Drawn book := by
    refine reached.drawn ?_
    rcases covers with rfl | covers
    · exact fun o ho hne => Rulebook.mem_cascadeOffsets_of_mem_dependencies ho hne
    · exact covers
  refine ⟨fun cell id hi => ?_, ?_⟩
  · obtain ⟨tile, he, rfl, hl, _⟩ := drawn.sound.stands .tile cell id hi
    exact ⟨tile, he, rfl, hl, drawn.drawn _ id tile hi (fun hc => hc) he⟩
  · rintro hear s rfl
    refine ⟨fun cell id hi => ?_, fun given answer t run => ?_⟩
    · obtain ⟨e, he, _⟩ := drawn.sound.stands .tile cell id hi
      have refreshed : Ends (Desk.refreshGiven ⟨book, offsets, hear⟩ (.int id)) s
          (fun changed t => changed = false ∧ t = s) fun _ _ => False :=
        (ends_consult_bind_of_ok (idOf_int he)).mpr (Desk.refreshAs_still drawn _ hi)
      refine run_of_ends (Ends.bind refreshed ?_)
      rintro _ _ ⟨rfl, rfl⟩
      exact (ends_pure _).mpr ⟨rfl, rfl⟩
    · have still : Ends ((Command.cascade given).run ⟨book, offsets, hear⟩) s
          (fun answer t => answer = .entities [] ∧ t.board = s.board) fun _ _ => True := by
        refine ends_consult_bind.mpr ⟨fun cell _ => ?_, fun _ _ => trivial⟩
        refine Ends.bind (Desk.cascade_still drawn cell) ?_
        rintro _ _ ⟨rfl, ht⟩
        exact (ends_pure _).mpr ⟨rfl, ht⟩
      exact still.of_ok run

/-- A rock is put to the north of another, which loses its ridge: the edit redraws both, and nothing
is left to a refresh or to a cascade. -/
theorem cascade_completeness_ridge_moves :
    let book : Rulebook :=
      ⟨[("rock", [("11", [⟨"ridge", "rock", "11", [⟨[.north], .empty⟩], none, 2⟩])])]⟩
    let d : Desk := ⟨book, [⟨1, 0, 0⟩], fun _ => pure ()⟩
    let put (cell : Cell) : Command := .add .tile (.cell cell) (.text "rock")
    let ridge : List Fragment := [⟨"11", "ridge", 0, 0, 2⟩]
    ∃ (s t u : Studio) (answer : Answer),
      Reached book d.offsets s.board ∧
      (s.board.entity? 2).map (·.fragments) = some ridge ∧
      (put ⟨-1, 0, 0⟩).run d s = .ok answer t ∧
      t.board.tiles = [(Cell.origin, 2), (⟨-1, 0, 0⟩, 3)] ∧
      (t.board.entity? 2).map (·.fragments) = some [] ∧
      (t.board.entity? 3).map (·.fragments) = some ridge ∧
      (∀ cell id, (cell, id) ∈ t.board.tiles → ∃ tile, t.board.entity? id = some tile ∧
        tile.cell = cell ∧ tile.layer = .tile ∧
        book.composeAt (t.board.typeAt .tile) tile.type cell = .ok tile.fragments) ∧
      (Command.refresh (.int 2)).run d t = .ok (.truth false) t ∧
      (Command.refresh (.int 3)).run d t = .ok (.truth false) t ∧
      (Command.cascade (.cell ⟨-1, 0, 0⟩)).run d t = .ok (.entities []) u ∧ u.board = t.board := by
  intro book d put ridge
  let s : Studio := after ((put Cell.origin).run d) { board := { fixtures := 1 } }
  have quiet : Quiet d.hear := fun _ _ => rfl
  have reached : Reached book d.offsets s.board :=
    Reached.run_after (s := { board := { fixtures := 1 } }) (.fresh 1) quiet _ (by decide +kernel)
  obtain ⟨answer, run⟩ := run_of_answers (s := s)
    (show answers ((put ⟨-1, 0, 0⟩).run d) s = true by decide +kernel)
  have covers : ∀ o ∈ book.dependencies, o ≠ Cell.origin → o ∈ d.offsets := by decide +kernel
  obtain ⟨drawn, settled⟩ := cascade_completeness (Or.inr covers) (reached.run quiet run)
  obtain ⟨refreshed, cascaded⟩ := settled d.hear _ rfl
  obtain ⟨entities, cascade⟩ := run_of_answers
    (s := after ((put ⟨-1, 0, 0⟩).run d) s) (x := (Command.cascade (.cell ⟨-1, 0, 0⟩)).run d)
    (by decide +kernel)
  obtain ⟨rfl, same⟩ := cascaded _ _ _ cascade
  exact ⟨s, _, _, answer, reached, by decide +kernel, run, by decide +kernel, by decide +kernel,
    by decide +kernel, drawn, refreshed Cell.origin 2 (by decide +kernel),
    refreshed ⟨-1, 0, 0⟩ 3 (by decide +kernel), cascade, same⟩

end Board

end Autotile
