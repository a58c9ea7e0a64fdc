import Autotile.Proofs.Cell.RoundTrip
import Autotile.Proofs.Studio.Moves

/-! # The indexes represent the map

The index of a layer is kept by the texts of keys. However a map was edited, each key leads to the
one entity that stands at its cell, every entity is led to by one key, and no two entities are of
the same age. -/
namespace Autotile.Board

open Edit

variable {book : Rulebook} {b b' : Board} {layer : Layer} {cell : Cell} {id : EntityId}

def keys (b : Board) (layer : Layer) : List (String × EntityId) :=
  (b.index layer).map fun entry => (entry.1.key, entry.2)

theorem mem_keys {key : String} : (key, id) ∈ b.keys layer ↔
    ∃ cell, (cell, id) ∈ b.index layer ∧ cell.key = key := by
  simp [keys]

namespace Sound

theorem keys_once (h : b.Sound) (layer : Layer) : ((b.keys layer).map Prod.fst).Nodup := by
  have cells := List.pairwise_map.mp (h.one_per_cell layer)
  rw [keys, List.map_map]
  refine List.pairwise_map.mpr (cells.imp_of_mem ?_)
  intro x y hx hy apart same
  exact apart (Cell.key_inj (h.keyed layer _ _ hx) (h.keyed layer _ _ hy) same)

theorem lookup_keys (h : b.Sound) (layer : Layer) (keyed : cell.Keyed) :
    (b.keys layer).lookup cell.key = b.find? layer cell := by
  cases found : b.find? layer cell with
  | some id =>
    have here := h.find?_eq_some_iff.mp found
    exact lookup_of_mem (h.keys_once layer) (mem_keys.mpr ⟨cell, here, rfl⟩)
  | none =>
    refine Option.eq_none_iff_forall_ne_some.mpr fun id hid => ?_
    obtain ⟨c, hc, same⟩ := mem_keys.mp (mem_of_lookup hid)
    obtain rfl := Cell.key_inj (h.keyed layer c id hc) keyed same
    rw [h.find?_eq_some_iff.mpr hc] at found
    cases found

end Sound

/-- Every entity is indexed, is listed once, and is younger than none that came before it. Only
tiles have fragments. -/
structure Tidy (b : Board) : Prop where
  indexed : ∀ entry ∈ b.entities, entry.1 ∈ b.indexed
  listed_once : (b.entities.map Prod.fst).Nodup
  sequence_lt : ∀ entry ∈ b.entities, entry.2.sequence < b.nextSequence
  sequences_once : (b.entities.map fun entry => entry.2.sequence).Nodup
  object_bare : ∀ entry ∈ b.entities, entry.2.layer = .object → entry.2.fragments = []

theorem tidy_fresh (fixtures : Nat) : Tidy { fixtures } := by
  constructor <;> simp

namespace Tidy

variable (h : b.Tidy)
include h

theorem entity?_of_mem {e : Entity} (he : (id, e) ∈ b.entities) : b.entity? id = some e :=
  lookup_of_mem h.listed_once he

theorem entities_filter (p : EntityId × Entity → Bool) :
    ((b.entities.filter p).map Prod.fst).Nodup ∧
      ((b.entities.filter p).map fun entry => entry.2.sequence).Nodup := by
  have fewer : (b.entities.filter p).Sublist b.entities := List.filter_sublist
  exact ⟨h.listed_once.sublist (fewer.map _), h.sequences_once.sublist (fewer.map _)⟩

theorem setFragments {e : Entity} (known : b.entity? id = some e) (onTile : e.layer = .tile)
    (fragments : List Fragment) : (b.setFragments id fragments).Tidy := by
  let redraw (entry : EntityId × Entity) : EntityId × Entity :=
    if entry.1 = id then (entry.1, { entry.2 with fragments }) else entry
  have redrawn : (b.setFragments id fragments).entities = b.entities.map redraw := rfl
  have number : ∀ entry, (redraw entry).1 = entry.1 := by
    intro entry
    by_cases hid : entry.1 = id <;> simp [redraw, hid]
  have sequence : ∀ entry, (redraw entry).2.sequence = entry.2.sequence := by
    intro entry
    by_cases hid : entry.1 = id <;> simp [redraw, hid]
  constructor
  · intro entry hm
    obtain ⟨old, ho, rfl⟩ := List.mem_map.mp (redrawn ▸ hm)
    rw [number]
    exact h.indexed old ho
  · rw [redrawn, List.map_map]
    exact (List.map_congr_left fun entry _ => number entry) ▸ h.listed_once
  · intro entry hm
    obtain ⟨old, ho, rfl⟩ := List.mem_map.mp (redrawn ▸ hm)
    rw [sequence]
    exact h.sequence_lt old ho
  · rw [redrawn, List.map_map]
    exact (List.map_congr_left fun entry _ => sequence entry) ▸ h.sequences_once
  · intro entry hm onObject
    obtain ⟨⟨j, old⟩, ho, rfl⟩ := List.mem_map.mp (redrawn ▸ hm)
    by_cases hid : j = id
    · subst hid
      obtain rfl := Option.some.inj ((h.entity?_of_mem ho).symm.trans known)
      simp [redraw, onTile] at onObject
    · have same : redraw (j, old) = (j, old) := if_neg hid
      rw [same] at onObject ⊢
      exact h.object_bare _ ho onObject

theorem arrived (hb : b.Sound) (layer : Layer) (cell : Cell) (type : String)
    (order : List EntityId) : (b.arrived layer cell type order).Tidy := by
  let newcomer : EntityId × Entity :=
    (b.nextId, { cell, sequence := b.nextSequence, layer, type })
  have grown : (b.arrived layer cell type order).entities = b.entities ++ [newcomer] := rfl
  have member : ∀ id, id ∈ (b.arrived layer cell type order).indexed ↔
      id ∈ b.indexed ∨ id = b.nextId := fun id =>
    Sound.mem_indexed_insert b layer cell type
  constructor
  · intro entry hm
    rcases List.mem_append.mp (grown ▸ hm) with old | new
    · exact (member _).mpr (Or.inl (h.indexed entry old))
    · obtain rfl := List.mem_singleton.mp new
      exact (member _).mpr (Or.inr rfl)
  · rw [grown, List.map_append, List.nodup_append]
    refine ⟨h.listed_once, List.pairwise_singleton _ _, ?_⟩
    intro id hid id' hid' same
    obtain ⟨⟨id, e⟩, he, rfl⟩ := List.mem_map.mp hid
    obtain rfl := List.mem_singleton.mp hid'
    have older := hb.numbered id e (h.entity?_of_mem he)
    exact Nat.ne_of_lt older same
  · intro entry hm
    change entry.2.sequence < b.nextSequence + 1
    rcases List.mem_append.mp (grown ▸ hm) with old | new
    · have := h.sequence_lt entry old
      omega
    · obtain rfl := List.mem_singleton.mp new
      exact Nat.lt_succ_self _
  · rw [grown, List.map_append, List.nodup_append]
    refine ⟨h.sequences_once, List.pairwise_singleton _ _, ?_⟩
    intro n hn n' hn' same
    obtain ⟨entry, he, rfl⟩ := List.mem_map.mp hn
    obtain rfl := List.mem_singleton.mp hn'
    exact Nat.ne_of_lt (h.sequence_lt entry he) same
  · intro entry hm onObject
    rcases List.mem_append.mp (grown ▸ hm) with old | new
    · exact h.object_bare entry old onObject
    · obtain rfl := List.mem_singleton.mp new
      rfl

theorem withdrawn (hb : b.Sound) (found : b.find? layer cell = some id) :
    (b.withdrawn layer cell id).Tidy := by
  have shrunk : (b.withdrawn layer cell id).entities = b.entities.filter (·.1 ≠ id) := by
    cases layer <;> rfl
  have sequences : (b.withdrawn layer cell id).nextSequence = b.nextSequence := by
    cases layer <;> rfl
  obtain ⟨listed, sequence⟩ := h.entities_filter (·.1 ≠ id)
  constructor
  · intro entry hm
    obtain ⟨old, stays⟩ := List.mem_filter.mp (shrunk ▸ hm)
    have left := (hb.mem_indexed_vacate found).mpr ⟨h.indexed entry old, of_decide_eq_true stays⟩
    cases layer <;> exact left
  · exact shrunk ▸ listed
  · intro entry hm
    rw [sequences]
    exact h.sequence_lt entry (List.mem_filter.mp (shrunk ▸ hm)).1
  · exact shrunk ▸ sequence
  · intro entry hm
    exact h.object_bare entry (List.mem_filter.mp (shrunk ▸ hm)).1

theorem entities_clear : b.clear.entities = [] := by
  refine List.filter_eq_nil_iff.mpr fun entry he => ?_
  simp [h.indexed entry he]

theorem clear : b.clear.Tidy := by
  have none_left := h.entities_clear
  constructor <;> simp [none_left]

theorem move (hb : b.Sound) (move : Move book b b') : b'.Tidy := by
  cases move with
  | redraw redrawn =>
    cases redrawn with
    | tile known onTile _ => exact h.setFragments known onTile _
  | arrive => exact h.arrived hb _ _ _ _
  | leave found => exact h.withdrawn hb found
  | clear => exact h.clear

end Tidy

theorem Reached.tidy {offsets : List Cell} (h : Reached book offsets b) : b.Tidy :=
  h.invariant tidy_fresh fun _ _ sound tidy move => tidy.move sound move

/-- How the indexes represent the map. Every key is that of the cell at which its entity stands in
that layer with a type, and it is kept once; to look it up is to look its cell up. The entities
with a position are the indexed ones, each in one index and once; no two are of the same age, and
none is as young as the next. -/
structure Represented (b : Board) : Prop where
  stands : ∀ layer key id, (key, id) ∈ b.keys layer →
    ∃ e, b.entity? id = some e ∧ e.cell.key? = .ok key ∧ e.layer = layer ∧ e.type ≠ "" ∧
      (layer = .object → e.fragments = [])
  key_once : ∀ layer, ((b.keys layer).map Prod.fst).Nodup
  lookup : ∀ layer cell, cell.Keyed → (b.keys layer).lookup cell.key = b.find? layer cell
  indexed_once : ((b.keys .tile).map Prod.snd ++ (b.keys .object).map Prod.snd).Nodup
  all_indexed : (b.entities.map Prod.fst).Perm
    ((b.keys .tile).map Prod.snd ++ (b.keys .object).map Prod.snd)
  age_once : (b.entities.map fun entry => entry.2.sequence).Nodup
  age_lt : ∀ entry ∈ b.entities, entry.2.sequence < b.nextSequence

theorem numbers_keys (b : Board) :
    (b.keys .tile).map Prod.snd ++ (b.keys .object).map Prod.snd = b.indexed := by
  rw [keys, keys, List.map_map, List.map_map]
  rfl

theorem Tidy.entities_perm (h : b.Tidy) (sound : b.Sound) :
    (b.entities.map Prod.fst).Perm b.indexed := by
  refine (List.perm_ext_iff_of_nodup h.listed_once sound.indexed_nodup).mpr fun id => ?_
  constructor
  · intro hid
    obtain ⟨entry, he, rfl⟩ := List.mem_map.mp hid
    exact h.indexed entry he
  · intro hid
    obtain ⟨layer, cell, hi⟩ := mem_indexed.mp hid
    obtain ⟨e, he, _⟩ := sound.stands layer cell id hi
    exact List.mem_map_of_mem (mem_of_lookup he)

/-- However a map was edited, its indexes represent it. -/
theorem map_representation {offsets : List Cell} (reached : Reached book offsets b) :
    b.Represented := by
  have sound := reached.sound
  have tidy := reached.tidy
  constructor
  case stands =>
    intro layer key id hk
    obtain ⟨cell, hi, rfl⟩ := mem_keys.mp hk
    obtain ⟨e, he, rfl, rfl, named⟩ := sound.stands layer cell id hi
    have keyed := sound.keyed e.layer e.cell id hi
    exact ⟨e, he, if_pos keyed, rfl, named, tidy.object_bare (id, e) (mem_of_lookup he)⟩
  case key_once => exact sound.keys_once
  case lookup => exact fun layer _ keyed => sound.lookup_keys layer keyed
  case indexed_once => exact numbers_keys b ▸ sound.indexed_nodup
  case all_indexed => exact numbers_keys b ▸ tidy.entities_perm sound
  case age_once => exact tidy.sequences_once
  case age_lt => exact tidy.sequence_lt

/-- After a clearing, ages start anew but numbers do not: a rock and the tree that stands on it. -/
theorem map_representation_tree_on_rock :
    ∃ b : Board, Reached .empty [] b ∧ b.keys .tile = [("0,0,0", 3)] ∧
      b.keys .object = [("0,0,0", 4)] ∧ b.nextSequence = 2 ∧ b.Represented := by
  let put (layer : Layer) (type : String) : Command := .add layer (.cell Cell.origin) (.text type)
  let step (s : Studio) (command : Command) : Studio :=
    after (command.run ⟨.empty, [], fun _ => pure ()⟩) s
  let start : Studio := { board := { fixtures := 1 } }
  let s₁ := step start (put .tile "mud")
  let s₂ := step s₁ .clear
  let s₃ := step s₂ (put .tile "rock")
  let s₄ := step s₃ (put .object "tree")
  have quiet : Quiet fun _ => pure () := fun _ _ => rfl
  have r₁ : Reached .empty [] s₁.board :=
    Reached.run_after (s := start) (.fresh 1) quiet _ (by decide +kernel)
  have r₂ : Reached .empty [] s₂.board := r₁.run_after quiet .clear (by decide +kernel)
  have r₃ : Reached .empty [] s₃.board := r₂.run_after quiet _ (by decide +kernel)
  have r₄ : Reached .empty [] s₄.board := r₃.run_after quiet _ (by decide +kernel)
  exact ⟨_, r₄, by decide +kernel, by decide +kernel, by decide +kernel, map_representation r₄⟩

end Autotile.Board
