import Autotile.Proofs.Cell.Nearness
import Autotile.Proofs.Choice.Readings
import Autotile.Proofs.Studio.Failure

/-! # Room for edits

Where everything stands near the origin, and the rules do not look further than a number can be
long, no edit of a cell near the origin fails. -/
namespace Autotile

open Edit Numeral

def Rulebook.HasConstraint (b : Rulebook) (k : Constraint) : Prop :=
  ∃ shelf ∈ b.shelves, ∃ bucket ∈ shelf.2, ∃ r ∈ bucket.2, k ∈ r.constraints

theorem Rulebook.Judges.hasConstraint {b : Rulebook} {type : String} {k : Constraint}
    (h : b.Judges type k) : b.HasConstraint k := by
  obtain ⟨slot, r, hr, hk⟩ := h
  have stands : ∃ shelf ∈ b.shelves, ∃ bucket ∈ shelf.2, r ∈ bucket.2 := by
    rcases hr with own | ofFamily
    · exact mem_shelves_of_mem_candidates own
    · exact mem_shelves_of_mem_candidates ofFamily
  obtain ⟨shelf, hs, bucket, hb, hr⟩ := stands
  exact ⟨shelf, hs, bucket, hb, r, hr, hk⟩

theorem Rulebook.cascadeOffsets_within {b : Rulebook} {n : Nat} (two : 2 ≤ n)
    (short : ∀ k, b.HasConstraint k → k.path.length ≤ n) {o : Cell}
    (ho : o ∈ b.cascadeOffsets) : o.Within n := by
  obtain ⟨led, _⟩ := mem_sortedOffsets.mp ho
  rw [List.mem_append, List.mem_append] at led
  rcases led with (near | second) | dependency
  · obtain ⟨d, _, rfl⟩ := List.mem_map.mp near
    exact (Direction.offset_within d).mono (by omega)
  · obtain ⟨p, hp, rfl⟩ := List.mem_map.mp second
    have steps : ∀ p ∈ secondOrderPaths, p.length = 2 := by decide
    exact p.offset_within.mono (steps p hp ▸ two)
  · obtain ⟨shelf, hs, bucket, hb, r, hr, hd⟩ := mem_dependencies.mp dependency
    obtain ⟨k, hk, _, rfl⟩ := Rule.mem_dependencies.mp hd
    exact (k.path.offset_within.mono (short k ⟨shelf, hs, bucket, hb, r, hr, hk⟩)).neg

def Board.Within (n : Nat) (b : Board) : Prop :=
  ∀ layer cell id, (cell, id) ∈ b.index layer → cell.Within n

namespace Board

variable {m n : Nat} {b b' : Board} {layer : Layer} {cell : Cell}

theorem within_fresh (n fixtures : Nat) : ({ fixtures } : Board).Within n := by
  rintro (_ | _) _ _ ⟨⟩

theorem Within.mono (h : b.Within m) (le : m ≤ n) : b.Within n :=
  fun l c id hi => (h l c id hi).mono le

theorem Within.redrawn (h : b.Within n) (same : b.Redrawn b') : b'.Within n := by
  intro l c id hi
  rw [same.index] at hi
  exact h l c id hi

theorem Within.insert (h : b.Within n) (hc : cell.Within n) (type : String) :
    (b.insert layer cell type).Within n := by
  intro l c id hi
  rcases mem_index_insert.mp hi with hi | ⟨_, rfl, _⟩
  · exact h l c id hi
  · exact hc

theorem Within.withdrawn (h : b.Within n) (id : EntityId) : (b.withdrawn layer cell id).Within n :=
  fun l c j hj => h l c j (mem_index_withdrawn.mp hj).1

theorem Sound.typeAt_gives {P : Fault → Prop} (h : b.Sound) (layer : Layer) {cell : Cell}
    (looked : FailsBy P cell.checkKey) : Gives P (b.typeAt layer cell) (b.type? layer cell) := by
  have checked : Gives P cell.checkKey () := ⟨looked, fun _ _ => rfl⟩
  have read := checked.bind (f := fun _ => .ok (b.type? layer cell)) (gives_ok _)
  rw [h.typeAt_eq, map_eq_pure_bind]
  exact read

theorem Sound.composed_failsBy_of_judges {P : Fault → Prop} {book : Rulebook} (h : b.Sound)
    {e : Entity}
    (looked : ∀ k, book.Judges e.type k → FailsBy P (e.cell + k.offset).checkKey) :
    FailsBy P (b.composed book e) := by
  have reads : ∀ k, book.Judges e.type k →
      k.ReadsAs P e.type (fun offset => b.typeAt .tile (e.cell + offset))
        (fun offset => pure (b.type? .tile (e.cell + offset))) :=
    fun k judged => ⟨_, h.typeAt_gives .tile (looked k judged), rfl⟩
  exact (Rulebook.compose_gives reads e.cell.u).fails

end Board

namespace Desk

/-- Cells of this size can be placed, and neither a rule nor a cascade leads from them to a cell
that has no key. -/
structure Roomy (n : Nat) (d : Desk) : Prop where
  near : n ≤ 2 ^ 49
  rules : ∀ k, d.book.HasConstraint k → ∀ c : Cell, c.Within n → (c + k.offset).Keyed
  cascade : ∀ o ∈ d.offsets, ∀ c : Cell, c.Within n → (c + o).Keyed

variable {n : Nat} {d : Desk} {s : Studio} {b : Board} {layer : Layer} {cell : Cell}

/-- It is enough that the rules look no further than a number can be long, and that the cascade
leads no further than they ask for or than they may look. -/
theorem roomy_of_reach {reach : Nat} (near : n ≤ 2 ^ 49) (fits : n + reach < writeBound)
    (looks : ∀ k, d.book.HasConstraint k → k.path.length ≤ reach)
    (spread : d.offsets = d.book.cascadeOffsets ∨ ∀ o ∈ d.offsets, o.Within reach) :
    d.Roomy n where
  near := near
  rules k hk c hc := (hc.add (k.path.offset_within.mono (looks k hk))).keyed fits
  cascade o ho c hc := by
    rcases spread with rules | close
    · have wide : 2 ^ 49 + 2 < writeBound := by decide +kernel
      have within : o.Within (max 2 reach) :=
        Rulebook.cascadeOffsets_within (Nat.le_max_left 2 reach)
          (fun k hk => Nat.le_trans (looks k hk) (Nat.le_max_right 2 reach)) (rules ▸ ho)
      exact (hc.add within).keyed (by omega)
    · exact (hc.add (close o ho)).keyed fits

theorem Roomy.keyed (room : d.Roomy n) (h : cell.Within n) : cell.Keyed := by
  have wide : 2 ^ 49 < writeBound := by decide +kernel
  exact h.keyed (Nat.lt_of_le_of_lt room.near wide)

theorem Roomy.reads (room : d.Roomy n) (hb : b.Within n) (hc : cell.Within n) :
    d.Reads (fun _ => False) cell b where
  composed b' redrawn c id e hi he := by
    obtain ⟨e', he', hcell, _⟩ := redrawn.sound.stands _ c id hi
    obtain rfl := Option.some.inj (he.symm.trans he')
    have near : e.cell.Within n := hcell ▸ hb.redrawn redrawn _ c id hi
    exact redrawn.sound.composed_failsBy_of_judges fun k judged =>
      (room.rules k judged.hasConstraint _ near).failsBy_checkKey
  sorted b' redrawn := redrawn.sound.sorted_failsBy fun l c id hi => by
    have near := (hb.redrawn redrawn l c id hi).mono room.near
    obtain ⟨depth, placed⟩ := near.exists_depth
    rw [placed]
    exact failsBy_ok depth
  key := (room.keyed hc).failsBy_checkKey
  around o ho := (room.cascade o ho cell hc).failsBy_checkKey

section Silently

variable (silent : Silent d.hear) (room : d.Roomy n) (sound : s.board.Sound)
  (hb : s.board.Within n) (hc : cell.Within n)
include silent room sound hb hc

theorem add_succeeds {type : String} (named : type ≠ "") :
    Ends (d.add layer cell type) s
      (fun found _ => s.board.blocks layer cell = false → found = some s.board.nextId)
      fun _ _ => False := by
  have reads : d.Reads (fun _ => False) cell (s.board.insert layer cell type) :=
    room.reads (hb.insert hc type) hc
  refine (add_ends_of_reads silent sound named fun _ => reads).mono
    (fun found t done free => ?_) fun fault t failed => ?_
  · rcases done with ⟨taken, _⟩ | ⟨_, given, _⟩
    · cases free.symm.trans taken
    · exact given
  · rcases failed with ⟨unkeyed, _⟩ | ⟨_, _, none, _⟩
    · exact unkeyed (room.keyed hc)
    · exact none

theorem addGiven_succeeds {type : String} (named : type ≠ "") :
    Ends (d.addGiven layer (.cell cell) (.text type)) s (fun _ _ => True) fun _ _ => False := by
  refine (ends_consult_bind_of_ok (f := fun _ => (Datum.cell cell).toCell) rfl).mpr ?_
  refine (ends_consult_bind_of_ok (Datum.toTypeName_text named)).mpr ?_
  exact (add_succeeds silent room sound hb hc named).mono (fun _ _ _ => trivial)
    fun _ _ none => none

theorem remove_succeeds :
    Ends (d.remove layer cell) s (fun _ _ => True) fun _ _ => False := by
  have reads (id : EntityId) : d.Reads (fun _ => False) cell (s.board.withdrawn layer cell id) :=
    room.reads (hb.withdrawn id) hc
  refine (remove_ends_of_reads silent sound layer cell fun id _ => reads id).mono
    (fun _ _ _ => trivial) fun fault t failed => ?_
  rcases failed with ⟨unkeyed, _⟩ | ⟨_, _, _, _, none, _⟩
  · exact unkeyed (room.keyed hc)
  · exact none

end Silently

end Desk

end Autotile
