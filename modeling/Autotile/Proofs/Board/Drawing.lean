import Autotile.Proofs.Board.Reading

/-! # Which tiles are drawn as they should be

A tile is drawn when its fragments are what its rules choose on the board as it stands. A change
of the board at some cells leaves every tile drawn but those that look at one of these cells. -/
namespace Autotile.Board

/-- Every tile is drawn, except perhaps those at the cells of `P`. -/
structure DrawnBut (book : Rulebook) (P : Cell → Prop) (b : Board) : Prop where
  sound : b.Sound
  drawn : ∀ cell id e, (cell, id) ∈ b.index .tile → ¬P cell → b.entity? id = some e →
    b.composed book e = .ok e.fragments

def Drawn (book : Rulebook) (b : Board) : Prop := DrawnBut book (fun _ => False) b

variable {book : Rulebook} {b b' : Board} {P D : Cell → Prop} {layer : Layer} {cell : Cell}
  {id : EntityId}

namespace DrawnBut

theorem mono (h : DrawnBut book P b) {Q : Cell → Prop}
    (hpq : ∀ c id, (c, id) ∈ b.index .tile → P c → Q c) : DrawnBut book Q b :=
  ⟨h.sound, fun c id e hi hq => h.drawn c id e hi fun hp => hq (hpq c id hi hp)⟩

/-- What the cells of `D` hold may have changed, and which tiles stand there. A tile elsewhere
stays drawn unless its rules look at one of them. -/
theorem changed (h : DrawnBut book P b) (sound : b'.Sound)
    (types : ∀ c, ¬D c → b'.type? .tile c = b.type? .tile c)
    (tiles : ∀ c id, (c, id) ∈ b'.index .tile → ¬D c →
      (c, id) ∈ b.index .tile ∧ b'.entity? id = b.entity? id) :
    DrawnBut book (fun c => P c ∨ D c ∨ ∃ o ∈ book.dependencies, D (c + -o)) b' := by
  refine ⟨sound, fun c id e hi hc he => ?_⟩
  obtain ⟨hp, hd, hlook⟩ : ¬P c ∧ ¬D c ∧ ∀ o ∈ book.dependencies, ¬D (c + -o) := by
    simpa only [not_or, not_exists, not_and] using hc
  obtain ⟨hold, hsame⟩ := tiles c id hi hd
  rw [hsame] at he
  obtain ⟨e', he', hcell, _⟩ := h.sound.stands _ c id hold
  obtain rfl : e = e' := Option.some.inj (he.symm.trans he')
  rw [sound.composed_congr h.sound fun o ho => types _ (hcell ▸ hlook o ho)]
  exact h.drawn c id e hold hp he

theorem unseen (h : DrawnBut book P b) (sound : b'.Sound)
    (types : ∀ c, b'.type? .tile c = b.type? .tile c)
    (tiles : ∀ c id, (c, id) ∈ b'.index .tile →
      (c, id) ∈ b.index .tile ∧ b'.entity? id = b.entity? id) : DrawnBut book P b' := by
  have all := h.changed (D := fun _ => False) sound (fun c _ => types c) fun c id hi _ =>
    tiles c id hi
  refine all.mono fun c id _ hc => ?_
  rcases hc with hp | hd | ⟨_, _, hd⟩
  · exact hp
  · exact hd.elim
  · exact hd.elim

end DrawnBut

theorem drawn_fresh (book : Rulebook) (fixtures : Nat) : Drawn book { fixtures } :=
  ⟨sound_fresh fixtures, fun _ _ _ hi => nomatch hi⟩

theorem type?_setOrder (b : Board) (order : List EntityId) (c : Cell) :
    (b.setOrder order).type? layer c = b.type? layer c := by
  cases layer <;> rfl

theorem DrawnBut.setOrder (h : DrawnBut book P b) {order : List EntityId}
    (sound : (b.setOrder order).Sound) : DrawnBut book P (b.setOrder order) :=
  h.unseen sound (type?_setOrder b order) fun _ _ hi => ⟨hi, rfl⟩

theorem type?_setFragments (b : Board) (id : EntityId) (fragments : List Fragment) (c : Cell) :
    (b.setFragments id fragments).type? layer c = b.type? layer c := by
  unfold type? find?
  rw [index_setFragments]
  cases hf : (b.index layer).lookup c with
  | none => rfl
  | some j =>
    rw [Option.bind_some, Option.bind_some, entity?_setFragments, Option.map_map]
    refine congrArg (fun f => (b.entity? j).map f) (funext fun e => ?_)
    by_cases hj : j = id <;> simp [hj]

theorem composed_setFragments (h : b.Sound) (book : Rulebook) (id : EntityId)
    (fragments : List Fragment) (e : Entity) :
    (b.setFragments id fragments).composed book e = b.composed book e :=
  (h.setFragments id fragments).composed_congr h fun _ _ => type?_setFragments b id fragments _

theorem DrawnBut.redrawn (h : DrawnBut book P b) {e : Entity} {fragments : List Fragment}
    (he : b.entity? id = some e) (composed : b.composed book e = .ok fragments) :
    DrawnBut book (fun c => P c ∧ (c, id) ∉ b.index .tile) (b.setFragments id fragments) := by
  refine ⟨h.sound.setFragments id fragments, fun c j e' hj hc he' => ?_⟩
  rw [index_setFragments] at hj
  rw [composed_setFragments h.sound]
  rw [entity?_setFragments, Option.map_eq_some_iff] at he'
  obtain ⟨old, hold, rfl⟩ := he'
  by_cases hid : j = id
  · subst hid
    obtain rfl : old = e := Option.some.inj (hold.symm.trans he)
    rw [if_pos rfl]
    exact composed
  · rw [if_neg hid]
    have elsewhere : (c, id) ∉ b.index .tile := fun hi => hid (h.sound.one_at_cell hj hi)
    exact h.drawn c j old hj (fun hp => hc ⟨hp, elsewhere⟩) hold

theorem DrawnBut.confirmed (h : DrawnBut book P b) {e : Entity} (he : b.entity? id = some e)
    (composed : b.composed book e = .ok e.fragments) :
    DrawnBut book (fun c => P c ∧ (c, id) ∉ b.index .tile) b := by
  refine ⟨h.sound, fun c j e' hj hc he' => ?_⟩
  by_cases hid : j = id
  · subst hid
    obtain rfl : e' = e := Option.some.inj (he'.symm.trans he)
    exact composed
  · have elsewhere : (c, id) ∉ b.index .tile := fun hi => hid (h.sound.one_at_cell hj hi)
    exact h.drawn c j e' hj (fun hp => hc ⟨hp, elsewhere⟩) he'

theorem type?_insert (h : b.Sound) {type : String} {c : Cell} {l : Layer}
    (hne : ¬(l = layer ∧ c = cell)) : (b.insert layer cell type).type? l c = b.type? l c := by
  have found : (b.insert layer cell type).find? l c = b.find? l c := by
    by_cases hl : l = layer
    · subst hl
      rw [find?_insert, if_neg fun hc => hne ⟨rfl, hc⟩, Option.or_none]
    · unfold find?
      rw [index_insert_of_ne b hl]
  unfold type?
  rw [found]
  cases hf : b.find? l c with
  | none => rfl
  | some id =>
    have old : id ∈ b.indexed := mem_indexed.mpr ⟨l, c, h.find?_eq_some_iff.mp hf⟩
    rw [Option.bind_some, h.entity?_insert_of_mem old]
    rfl

theorem DrawnBut.insert_tile (h : DrawnBut book P b) {type : String}
    (sound : (b.insert .tile cell type).Sound) :
    DrawnBut book (fun c => P c ∨ c = cell ∨ ∃ o ∈ book.dependencies, c + -o = cell)
      (b.insert .tile cell type) := by
  refine h.changed sound (fun c hc => type?_insert h.sound fun hs => hc hs.2) fun c id hi hc => ?_
  rcases mem_index_insert.mp hi with hi | ⟨_, rfl, _⟩
  · exact ⟨hi, h.sound.entity?_insert_of_mem (mem_indexed.mpr ⟨_, c, hi⟩) type⟩
  · exact (hc rfl).elim

theorem DrawnBut.insert_object (h : DrawnBut book P b) {type : String}
    (sound : (b.insert .object cell type).Sound) :
    DrawnBut book P (b.insert .object cell type) := by
  have apart : Layer.tile ≠ Layer.object := by decide
  refine h.unseen sound (fun c => type?_insert h.sound fun hs => apart hs.1) fun c id hi => ?_
  rw [index_insert_of_ne b apart] at hi
  exact ⟨hi, h.sound.entity?_insert_of_mem (mem_indexed.mpr ⟨_, c, hi⟩) type⟩

theorem find?_vacate_of_ne (b : Board) {l : Layer} {c : Cell} (hne : ¬(l = layer ∧ c = cell)) :
    (b.vacate layer cell).find? l c = b.find? l c := by
  unfold find?
  by_cases hl : l = layer
  · subst hl
    have hc : c ≠ cell := fun hc => hne ⟨rfl, hc⟩
    rw [index_vacate, lookup_filter_key fun k => decide (k ≠ cell)]
    simp [hc]
  · rw [index_vacate_of_ne b hl]

theorem type?_vacate_of_ne (b : Board) {l : Layer} {c : Cell} (hne : ¬(l = layer ∧ c = cell)) :
    (b.vacate layer cell).type? l c = b.type? l c := by
  have entities : (b.vacate layer cell).entity? = b.entity? := funext (entity?_vacate b layer cell)
  unfold type?
  rw [find?_vacate_of_ne b hne, entities]

theorem DrawnBut.struck_tile (h : DrawnBut book P b) (found : b.find? .tile cell = some id) :
    DrawnBut book (fun c => P c ∨ c ≠ cell ∧ ∃ o ∈ book.dependencies, c + -o = cell)
      ((b.vacate .tile cell).setOrder (b.paintOrder.erase id)) := by
  have changed := h.changed (D := (· = cell)) (h.sound.withdraw found)
    (fun c hc => (type?_setOrder _ _ c).trans (type?_vacate_of_ne b fun here => hc here.2))
    fun c j hj _ => ⟨(mem_index_vacate.mp hj).1, entity?_vacate b .tile cell j⟩
  apply changed.mono
  intro c j hj hc
  rw [index_setOrder] at hj
  have elsewhere : c ≠ cell := (mem_index_vacate.mp hj).2 rfl
  rcases hc with waits | here | looks
  · exact Or.inl waits
  · exact absurd here elsewhere
  · exact Or.inr ⟨elsewhere, looks⟩

theorem DrawnBut.struck_object (h : DrawnBut book P b) (found : b.find? .object cell = some id) :
    DrawnBut book P ((b.vacate .object cell).setOrder (b.paintOrder.erase id)) := by
  have apart : Layer.tile ≠ Layer.object := by decide
  apply h.unseen (h.sound.withdraw found)
  · intro c
    rw [type?_setOrder]
    exact type?_vacate_of_ne b fun here => apart here.1
  · intro c j hj
    exact ⟨(mem_index_vacate.mp hj).1, entity?_vacate b .object cell j⟩

theorem type?_delete (h : b.Sound) (gone : id ∉ b.indexed) (l : Layer) (c : Cell) :
    (b.delete id).type? l c = b.type? l c := by
  unfold type? find?
  rw [index_delete]
  cases found : (b.index l).lookup c with
  | none => rfl
  | some j =>
    have apart : j ≠ id := by
      rintro rfl
      exact gone (mem_indexed.mpr ⟨l, c, h.find?_eq_some_iff.mp found⟩)
    rw [Option.bind_some, Option.bind_some, entity?_delete, if_neg apart]

theorem DrawnBut.delete (h : DrawnBut book P b) (gone : id ∉ b.indexed) :
    DrawnBut book P (b.delete id) := by
  apply h.unseen (h.sound.delete gone)
  · exact fun c => type?_delete h.sound gone .tile c
  · intro c j hj
    rw [index_delete] at hj
    have apart : j ≠ id := by
      rintro rfl
      exact gone (mem_indexed.mpr ⟨.tile, c, hj⟩)
    rw [entity?_delete, if_neg apart]
    exact ⟨hj, rfl⟩

def withdrawn (b : Board) (layer : Layer) (cell : Cell) (id : EntityId) : Board :=
  ((b.vacate layer cell).setOrder (b.paintOrder.erase id)).delete id

theorem mem_index_withdrawn {l : Layer} {c : Cell} {j : EntityId} :
    (c, j) ∈ (b.withdrawn layer cell id).index l ↔ (c, j) ∈ b.index l ∧ (l = layer → c ≠ cell) := by
  unfold Board.withdrawn
  rw [index_delete, index_setOrder]
  exact mem_index_vacate

theorem Sound.unindexed (h : b.Sound) (found : b.find? layer cell = some id) :
    id ∉ ((b.vacate layer cell).setOrder (b.paintOrder.erase id)).indexed := by
  intro hi
  exact ((h.mem_indexed_vacate found).mp hi).2 rfl

theorem Sound.withdrawn (h : b.Sound) (found : b.find? layer cell = some id) :
    (b.withdrawn layer cell id).Sound :=
  (h.withdraw found).delete (h.unindexed found)

theorem type?_withdrawn (h : b.Sound) (found : b.find? layer cell = some id) {l : Layer} {c : Cell}
    (hne : ¬(l = layer ∧ c = cell)) : (b.withdrawn layer cell id).type? l c = b.type? l c := by
  unfold Board.withdrawn
  rw [type?_delete (h.withdraw found) (h.unindexed found), type?_setOrder]
  exact type?_vacate_of_ne b hne

theorem DrawnBut.clear (h : DrawnBut book P b) : Drawn book b.clear := by
  refine ⟨h.sound.clear, fun _ _ _ hi => ?_⟩
  rw [index_clear] at hi
  cases hi

end Autotile.Board
