import Autotile.Proofs.Studio.Settling

/-! # No entity is left behind

While an entity is being removed it strays: it is indexed nowhere and still known. Those who hear of
that may edit the map, even clear it, and the entity goes on straying. But it is deleted before the
removal is answered, so where every command is answered none is left. -/
namespace Autotile

open Edit

namespace Board

/-- The entity is known, but no index leads to it. -/
def Stray (b : Board) (id : EntityId) : Prop := (b.entity? id).isSome = true ∧ id ∉ b.indexed

/-- What answered commands leave of a board: an advance on it, with the same fixtures, where no
entity strays that did not stray before. -/
structure Tidies (b b' : Board) : Prop where
  advance : b.Advance b'
  fixtures : b'.fixtures = b.fixtures
  strays : ∀ id, b'.Stray id → b.Stray id

theorem Tidies.refl {b : Board} (h : b.Sound) : b.Tidies b := ⟨.refl h, rfl, fun _ stray => stray⟩

theorem Tidies.trans {a b c : Board} (h : a.Tidies b) (h' : b.Tidies c) : a.Tidies c where
  advance := h.advance.trans h'.advance
  fixtures := h'.fixtures.trans h.fixtures
  strays id stray := h.strays id (h'.strays id stray)

namespace Sound

variable {b : Board} {layer : Layer} {cell : Cell} {id : EntityId}

theorem tidies_setFragments (h : b.Sound) (id : EntityId) (fragments : List Fragment) :
    b.Tidies (b.setFragments id fragments) where
  advance := h.advance_setFragments id fragments
  fixtures := rfl
  strays := by
    rintro j ⟨known, gone⟩
    rw [entity?_setFragments, Option.isSome_map] at known
    exact ⟨known, gone⟩

theorem tidies_insert (h : b.Sound) (free : b.find? layer cell = none) (keyed : cell.Keyed)
    {type : String} (named : type ≠ "") : b.Tidies (b.insert layer cell type) where
  advance := h.advance_insert free keyed named
  fixtures := by cases layer <;> rfl
  strays := by
    rintro j ⟨known, gone⟩
    rw [mem_indexed_insert, not_or] at gone
    rw [entity?_insert_or, if_neg gone.2, Option.or_none] at known
    exact ⟨known, gone.1⟩

theorem tidies_withdraw (h : b.Sound) (found : b.find? layer cell = some id) {b' : Board}
    (moved : Tidies ((b.vacate layer cell).setOrder (b.paintOrder.erase id)) b') :
    b.Tidies (b'.delete id) where
  advance := advancing_admits.withdraw found (fun _ => moved.advance) h
  fixtures := by
    have kept : (b.vacate layer cell).fixtures = b.fixtures := by cases layer <;> rfl
    exact moved.fixtures.trans kept
  strays := by
    rintro j ⟨known, gone⟩
    by_cases other : j = id
    · rw [entity?_delete, if_pos other] at known
      cases known
    · rw [entity?_delete, if_neg other] at known
      obtain ⟨known, gone⟩ := moved.strays j ⟨known, gone⟩
      rw [entity?_setOrder, entity?_vacate] at known
      exact ⟨known, fun hi => gone ((h.mem_indexed_vacate found).mpr ⟨hi, other⟩)⟩

theorem tidies_clear (h : b.Sound) : b.Tidies b.clear where
  advance := h.advance_clear
  fixtures := rfl
  strays := by
    rintro j ⟨known, _⟩
    rw [entity?_clear] at known
    by_cases gone : j ∈ b.indexed
    · rw [if_pos gone] at known
      cases known
    · rw [if_neg gone] at known
      exact ⟨known, gone⟩

end Sound

end Board

def tidying : Course where
  done b b' := b.Sound → b.Tidies b'
  failed _ _ := True
  refl _ sound := .refl sound
  trans h h' sound := (h sound).trans (h' (h sound).advance.sound)
  stay _ := trivial
  lead _ _ := trivial

theorem tidying_admits : tidying.Admits where
  redraw _ id fragments sound := sound.tidies_setFragments id fragments
  paint ho sound := ⟨sound.advance_sorted ho, rfl, fun _ stray => stray⟩
  insert free keyed named sound := sound.tidies_insert free keyed named
  strike _ _ := trivial
  withdraw found moved sound :=
    sound.tidies_withdraw found (moved (sound.advance_withdraw found).sound)
  lose _ _ := trivial
  clear _ sound := sound.tidies_clear

namespace Board

variable {book : Rulebook} {offsets : List Cell} {b b' : Board}

theorem Settles.tidies (h : Settles book offsets b b') (sound : b.Sound) : b.Tidies b' := by
  induction h with
  | refl b => exact .refl sound
  | @run _ s t hear heard before command answer answered ihear ih =>
    have desk : Desk.Follows ⟨book, offsets, hear⟩ tidying :=
      Desk.follows_admitted (fun event => ⟨fun u => ends_after.mpr (ihear event u)⟩) tidying_admits
    have step := ((desk.run command).ends s).of_ok answered
    exact (ih sound).trans (step (ih sound).advance.sound)

theorem Settled.tidies (h : Settled book offsets b) : Tidies { fixtures := b.fixtures } b := by
  obtain ⟨fixtures, h⟩ := h
  have tidies := h.tidies (sound_fresh fixtures)
  rwa [tidies.fixtures]

theorem Settled.indexed (h : Settled book offsets b) {id : EntityId} {e : Entity}
    (known : b.entity? id = some e) : id ∈ b.indexed := by
  by_contra gone
  have stray := h.tidies.strays id ⟨Option.isSome_of_eq_some known, gone⟩
  cases stray.1

theorem Settled.fixtures_lt (h : Settled book offsets b) : b.fixtures < b.nextId :=
  h.tidies.advance.numbers

end Board

end Autotile
