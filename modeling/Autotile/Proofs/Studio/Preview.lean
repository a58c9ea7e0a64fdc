import Autotile.Proofs.Board.Layout
import Autotile.Proofs.Studio.Headroom
import Autotile.Proofs.Studio.Moves
import Autotile.Rulebook.Intake

/-! # Previews and lone tiles

A tile that stands alone at the origin sees itself at the end of a path that leads back to it. A
preview is composed in surroundings where nothing stands, so the two agree where no rule asks about
the tile's own cell. -/
namespace Autotile

open Edit Numeral

def Surroundings.lone (type : String) : Surroundings Id := fun offset =>
  pure (if offset = Cell.origin then some type else none)

/-- A constraint that a tile of a type meets at its own cell just where it would meet it if nothing
stood there. -/
def Constraint.Overlooks (type : String) (k : Constraint) : Prop :=
  k.requirement = .any ∨ ∃ other, other ≠ type ∧ k.requirement = .exactly other

theorem Constraint.Overlooks.met_self {type : String} {k : Constraint} (h : k.Overlooks type) :
    k.met type none = k.met type (some type) := by
  unfold Constraint.met
  rcases h with any | ⟨other, apart, exactly⟩
  · rw [any]
    rfl
  · rw [exactly]
    simp [Requirement.met, apart.symm]

namespace Board

variable {book : Rulebook} {b : Board} {type : String}

structure Lone (b : Board) (type : String) : Prop where
  sound : b.Sound
  type? : ∀ cell, b.type? .tile cell = if cell = Cell.origin then some type else none

theorem Lone.typeAt_gives (h : b.Lone type) (offset : Cell) :
    Gives (fun _ => True) (b.typeAt .tile (Cell.origin + offset))
      (Surroundings.lone type offset).run := by
  have looked : FailsBy (fun _ => True) offset.checkKey := fun _ _ => trivial
  have gives := h.sound.typeAt_gives .tile looked
  rw [h.type?] at gives
  rwa [Cell.origin_add]

theorem Lone.redraws {b' : Board} (h : b.Lone type) (redrawn : Redraws book b b') :
    b'.Lone type :=
  ⟨redrawn.moves.sound h.sound, fun cell => (redrawn.type? .tile cell).trans (h.type? cell)⟩

theorem Lone.sorted (h : b.Lone type) {order : List EntityId}
    (sorted : b.sorted b.indexed = .ok order) : (b.setOrder order).Lone type :=
  ⟨h.sound.sorted sorted, fun cell => (type?_setOrder b order cell).trans (h.type? cell)⟩

theorem lone_insert (fixtures : Nat) (named : type ≠ "") :
    (({ fixtures } : Board).insert .tile Cell.origin type).Lone type := by
  have sound := sound_fresh fixtures
  have keyed : Cell.origin.Keyed := by decide +kernel
  refine ⟨sound.insert rfl keyed named, fun cell => ?_⟩
  rw [sound.type?_inserted rfl]
  by_cases here : cell = Cell.origin
  · rw [if_pos here, if_pos ⟨rfl, here⟩]
  · rw [if_neg here, if_neg fun both => here both.2]
    rfl

theorem Lone.composed_gives (h : b.Lone type) {e : Entity} (at_origin : e.cell = Cell.origin)
    (named : e.type = type) :
    Gives (fun _ => True) (b.composed book e) (book.compose (.lone type) type 0).run := by
  unfold composed Rulebook.composeAt
  rw [at_origin, named]
  have reads : ∀ k, book.Judges type k → k.ReadsAs (fun _ => True) type
      (fun offset => b.typeAt .tile (Cell.origin + offset)) (.lone type) :=
    fun k _ => ⟨_, h.typeAt_gives k.offset, rfl⟩
  exact Rulebook.compose_gives reads 0

theorem Lone.fragments?_origin (h : b.Lone type) (drawn : b.Drawn book) :
    b.fragments? Cell.origin = some (book.compose (.lone type) type 0).run := by
  have named := h.type? Cell.origin
  rw [if_pos rfl] at named
  have occupied := h.sound.isSome_type? .tile Cell.origin
  rw [named] at occupied
  obtain ⟨id, found⟩ := Option.isSome_iff_exists.mp occupied.symm
  obtain ⟨e, known, at_origin, _⟩ := h.sound.entity?_of_find? found
  rw [type?_of_find? found known] at named
  have composed := drawn.drawn _ id e (h.sound.find?_eq_some_iff.mp found) (fun no => no) known
  have chosen : Gives _ (b.composed book e) _ := h.composed_gives at_origin (Option.some.inj named)
  rw [fragments?, found, Option.bind_some, known]
  exact congrArg some (chosen.value _ composed)

end Board

theorem Rulebook.compose_lone {book : Rulebook} {type : String}
    (overlooks : ∀ k, book.Judges type k → k.offset = Cell.origin → k.Overlooks type) :
    (book.compose (.lone type) type 0).run = book.preview type := by
  let around : Surroundings (Except Fault) := fun offset =>
    .ok (if offset = Cell.origin then some type else none)
  have itself : ∀ k, book.Judges type k →
      k.ReadsAs (fun _ => False) type around (.lone type) := fun k _ =>
    ⟨_, gives_ok _, rfl⟩
  have nothing : ∀ k, book.Judges type k → k.ReadsAs (fun _ => False) type around .empty := by
    intro k judged
    refine ⟨_, gives_ok _, ?_⟩
    by_cases own : k.offset = Cell.origin
    · rw [if_pos own]
      exact (overlooks k judged own).met_self.symm
    · rw [if_neg own]
      rfl
  exact Except.ok.inj ((compose_gives itself 0).eq_ok.symm.trans (compose_gives nothing 0).eq_ok)

namespace Desk

variable {d : Desk} {s : Studio} {type : String} {fixtures : Nat}

theorem add_lone (quiet : Quiet d.hear) (fresh : s.board = { fixtures }) (named : type ≠ "") :
    Ends (d.add .tile Cell.origin type) s
      (fun _ t => t.board.Lone type) (fun _ _ => True) := by
  refine (add_moves quiet .tile Cell.origin type).mono ?_ fun _ _ h => h
  rw [fresh]
  rintro _ t ⟨_, ⟨taken, _⟩ | ⟨_, _, order, sorted, redrawn⟩⟩
  · cases taken
  · exact ((Board.lone_insert fixtures named).sorted sorted).redraws redrawn

theorem ends_add {layer : Layer} {given : Datum} {cell : Cell} {done : Answer → Studio → Prop}
    {failed : Fault → Studio → Prop} (read : given.toCell = .ok cell) (named : type ≠ "")
    (added : Ends (d.add layer cell type) s (fun found t => done (.entity found) t) failed) :
    Ends ((Command.add layer given (.text type)).run d) s done failed := by
  refine Ends.bind ?_ fun _ _ arrived => (ends_pure _).mpr arrived
  refine (ends_consult_bind_of_ok read).mpr ?_
  exact (ends_consult_bind_of_ok (Datum.toTypeName_text named)).mpr added

theorem add_alone (silent : Silent d.hear) (fresh : s.board = { fixtures }) (named : type ≠ "")
    (offsets : d.offsets = d.book.cascadeOffsets)
    (short : ∀ k, d.book.HasConstraint k → k.path.length < writeBound) :
    Ends (d.add .tile Cell.origin type) s (fun found _ => found = some s.board.nextId)
      (fun _ _ => False) := by
  have positive : 0 < writeBound := by decide +kernel
  have room : d.Roomy 0 := roomy_of_reach (Nat.zero_le _)
    ((Nat.zero_add _).trans_lt (Nat.sub_one_lt_of_lt positive))
    (fun k hk => Nat.le_sub_one_of_lt (short k hk)) (.inl offsets)
  have sound : s.board.Sound := fresh ▸ Board.sound_fresh fixtures
  have bare : s.board.Within 0 := fresh ▸ Board.within_fresh 0 fixtures
  have free : s.board.blocks .tile Cell.origin = false := fresh ▸ rfl
  exact (add_succeeds silent room sound bare (Cell.origin_within 0) named).mono
    (fun _ _ found => found free) fun _ _ none => none

end Desk

namespace Rulebook

section LoneTile

variable {book : Rulebook} {hear : Event → Edit Unit} {s : Studio} {fixtures : Nat} {given : Datum}
  {type : String} (fresh : s.board = { fixtures }) (at_origin : given.toCell = .ok Cell.origin)
  (named : type ≠ "")
include fresh at_origin named

theorem lone_tile_added (silent : Silent hear)
    (short : ∀ k, book.HasConstraint k → k.path.length < writeBound) :
    ∃ id t, (Command.add .tile given (.text type)).run ⟨book, book.cascadeOffsets, hear⟩ s =
      .ok (.entity (some id)) t := by
  let add : Edit Answer :=
    (Command.add .tile given (.text type)).run ⟨book, book.cascadeOffsets, hear⟩
  have whole : Ends add s (fun answer _ => answer = .entity (some s.board.nextId))
      fun _ _ => False := by
    refine Desk.ends_add at_origin named ?_
    exact (Desk.add_alone silent fresh named rfl short).mono
      (fun _ _ found => congrArg _ found) fun _ _ h => h
  obtain ⟨answer, t, run, rfl⟩ := whole.answered
  exact ⟨_, t, run⟩

/-- The tile then shows what its rules choose for one that sees itself and nothing else. -/
theorem lone_tile_shown (quiet : Quiet hear) {answer : Answer} {t : Studio}
    (run : (Command.add .tile given (.text type)).run ⟨book, book.cascadeOffsets, hear⟩ s =
      .ok answer t) :
    t.board.fragmentsAt Cell.origin = .ok (some (book.compose (.lone type) type 0).run) := by
  have whole : Ends ((Command.add .tile given (.text type)).run ⟨book, book.cascadeOffsets, hear⟩) s
      (fun _ t => t.board.Lone type) fun _ _ => True :=
    Desk.ends_add at_origin named (Desk.add_lone quiet fresh named)
  have lone := whole.of_ok run
  have reached : Board.Reached book book.cascadeOffsets t.board :=
    .run (fresh ▸ .fresh fixtures) quiet run
  have drawn := reached.drawn fun o ho hne => mem_cascadeOffsets_of_mem_dependencies ho hne
  have keyed : Cell.origin.Keyed := by decide +kernel
  rw [lone.sound.fragmentsAt_eq, lone.fragments?_origin drawn, Cell.checkKey_of_keyed keyed]
  rfl

/-- A tile can be added to an empty map at the origin, and then shows what its rules choose for one
that sees itself and nothing else. Where no rule that is judged for it asks about the tile's own
cell, that is the preview. -/
theorem preview_of_lone_tile :
    let add := (Command.add .tile given (.text type)).run ⟨book, book.cascadeOffsets, hear⟩
    (Silent hear → (∀ k, book.HasConstraint k → k.path.length < writeBound) →
      ∃ id t, add s = .ok (.entity (some id)) t) ∧
    (Quiet hear → ∀ answer t, add s = .ok answer t →
      ∃ fragments, t.board.fragmentsAt Cell.origin = .ok (some fragments) ∧
        fragments = (book.compose (.lone type) type 0).run ∧
        ((∀ k, book.Judges type k → k.offset = Cell.origin → k.Overlooks type) →
          book.preview type = fragments)) := by
  intro add
  constructor
  · exact lone_tile_added fresh at_origin named
  · intro quiet answer t run
    have shown := lone_tile_shown fresh at_origin named quiet run
    exact ⟨_, shown, rfl, fun overlooks => (compose_lone overlooks).symm⟩

end LoneTile

/-- A rule that asks whether mud stands in the tile's own cell keeps nothing from agreeing. -/
theorem preview_of_lone_tile_ridge :
    let book : Rulebook := ⟨[("rock", [("11", [⟨"ridge", "rock", "11",
      [⟨[.north], .empty⟩, ⟨[.north, .south], .exactly "mud"⟩], none, 8⟩,
      ⟨"plain", "rock", "11", [⟨[.north], .empty⟩], none, 2⟩])])]⟩
    let hear : Event → Edit Unit := fun _ => pure ()
    let start : Studio := { board := { fixtures := 1 } }
    ∃ id t, (Command.add .tile (.cell Cell.origin) (.text "rock")).run
        ⟨book, book.cascadeOffsets, hear⟩ start = .ok (.entity (some id)) t ∧
      t.board.fragmentsAt Cell.origin = .ok (some [⟨"11", "plain", 0, 0, 2⟩]) ∧
      book.preview "rock" = [⟨"11", "plain", 0, 0, 2⟩] := by
  intro book hear start
  have constraints : ∀ k, book.HasConstraint k →
      k = ⟨[.north], .empty⟩ ∨ k = ⟨[.north, .south], .exactly "mud"⟩ := by
    rintro k ⟨shelf, hs, bucket, hb, r, hr, hk⟩
    obtain rfl := List.mem_singleton.mp hs
    obtain rfl := List.mem_singleton.mp hb
    rcases List.mem_cons.mp hr with rfl | hr
    · simpa using hk
    · obtain rfl := List.mem_singleton.mp hr
      exact .inl (List.mem_singleton.mp hk)
  obtain ⟨succeeds, shows⟩ :=
    @preview_of_lone_tile book hear start 1 (.cell Cell.origin) "rock" rfl rfl (by decide)
  obtain ⟨id, t, run⟩ := succeeds silent_nobody fun k hk => by
    rcases constraints k hk with rfl | rfl <;> decide +kernel
  obtain ⟨fragments, shown, _, same⟩ := shows (fun _ _ => rfl) _ t run
  have previewed : book.preview "rock" = [⟨"11", "plain", 0, 0, 2⟩] := by decide +kernel
  have overlooks : ∀ k, book.Judges "rock" k → k.offset = Cell.origin → k.Overlooks "rock" := by
    intro k judged own
    rcases constraints k judged.hasConstraint with rfl | rfl
    · exact absurd own (by decide)
    · exact .inr ⟨"mud", by decide, rfl⟩
  rw [← same overlooks, previewed] at shown
  exact ⟨id, t, run, shown, previewed⟩

/-- A rule that asks whether its own cell is occupied holds on the map, but not in the preview. -/
theorem not_every_preview_agrees :
    ¬∀ (identifiers : Datum) (book : Rulebook) (c : Catalogue) (type : String)
      (hear : Event → Edit Unit) (fixtures : Nat) (s t : Studio) (answer : Answer),
      Intake.buildFrom identifiers {} = .ok book c → type ≠ "" → Silent hear →
      s.board = { fixtures } →
      (Command.add .tile (.cell Cell.origin) (.text type)).run ⟨book, book.cascadeOffsets, hear⟩ s =
        .ok answer t →
      t.board.fragmentsAt Cell.origin = .ok (some (book.preview type)) := by
  intro agrees
  let given : Datum := .list [.text "rock-11-ns:1"]
  let book : Rulebook := ⟨[("rock", [("11", [⟨"rock-11-ns:1", "rock", "11",
    [⟨[.up], .any⟩, ⟨[.north], .any⟩, ⟨[.east], .any⟩, ⟨[.south], .any⟩, ⟨[.west], .any⟩,
      ⟨[.down], .any⟩, ⟨[.north, .south], .occupied⟩], none, 2⟩])])]⟩
  have shelved : (match Intake.buildFrom given {} with
      | .ok b _ => b.shelves
      | .error .. => []) = book.shelves := by decide +kernel
  obtain ⟨c, built⟩ : ∃ c, Intake.buildFrom given {} = .ok book c := by
    cases built : Intake.buildFrom given {} with
    | error fault c =>
      rw [built] at shelved
      cases shelved
    | ok b c =>
      rw [built] at shelved
      obtain rfl : b = book := congrArg Rulebook.mk shelved
      exact ⟨c, rfl⟩
  let start : Studio := { board := { fixtures := 1 } }
  have short : ∀ k, book.HasConstraint k → k.path.length < writeBound := by
    rintro k ⟨shelf, hs, bucket, hb, r, hr, hk⟩
    obtain rfl := List.mem_singleton.mp hs
    obtain rfl := List.mem_singleton.mp hb
    obtain rfl := List.mem_singleton.mp hr
    revert k
    decide +kernel
  obtain ⟨id, t, run⟩ := @lone_tile_added book (fun _ => pure ()) start 1 (.cell Cell.origin) "rock"
    rfl rfl (by decide) silent_nobody short
  have shown := lone_tile_shown rfl rfl (by decide) (fun _ _ => rfl) run
  have agree := agrees given book c "rock" (fun _ => pure ()) 1 start t _ built (by decide)
    silent_nobody rfl run
  have chosen : (book.compose (.lone "rock") "rock" 0).run = [⟨"11", "rock-11-ns:1", 0, 0, 2⟩] := by
    decide +kernel
  have previewed : book.preview "rock" = [] := by decide +kernel
  rw [shown, chosen, previewed] at agree
  cases agree

end Rulebook

end Autotile
