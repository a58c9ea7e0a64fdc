import Autotile.Proofs.Choice.Readings
import Autotile.Proofs.Rule.NormalForm
import Autotile.Proofs.Rulebook.Growing
import Autotile.Proofs.Sprite

/-! # Composed tiles

The fragments of a tile are those placements of the sprite for which the rulebook has an answer.
So they come in the order of the slots and no slot comes twice, and it is for this reason that
asking for the first fragment of a slot and asking for the last come to the same. -/
namespace Autotile

/-! ## The fragments of a slot -/

namespace Fragment

theorem lookup_bySlot_step (kept : List (String × Fragment)) (f : Fragment) (slot : String) :
    (if kept.any (·.1 = f.slot) then kept.map fun e => if e.1 = f.slot then (e.1, f) else e
      else kept ++ [(f.slot, f)]).lookup slot =
      if f.slot = slot then some f else kept.lookup slot := by
  by_cases known : kept.any (·.1 = f.slot) = true
  · have replaced : (kept.map fun e => if e.1 = f.slot then (e.1, f) else e) =
        kept.map fun e => (e.1, if e.1 = f.slot then f else e.2) := by
      refine List.map_congr_left fun e _ => ?_
      split <;> rfl
    rw [if_pos known, replaced, lookup_map_value fun k v => if k = f.slot then f else v]
    by_cases here : f.slot = slot
    · subst here
      cases found : kept.lookup f.slot with
      | none =>
        obtain ⟨e, he, same⟩ := List.any_eq_true.mp known
        have missed := List.lookup_eq_none_iff.mp found e he
        simp [of_decide_eq_true same] at missed
      | some before => simp
    · simp [here, Ne.symm here]
  · have fresh : kept.lookup f.slot = none := by
      refine List.lookup_eq_none_iff.mpr fun e he => bne_iff_ne.mpr fun same => known ?_
      exact List.any_eq_true.mpr ⟨e, he, decide_eq_true same.symm⟩
    rw [if_neg known, List.lookup_append]
    by_cases here : f.slot = slot
    · simp [← here, fresh]
    · have apart : (slot == f.slot) = false := beq_eq_false_iff_ne.mpr (Ne.symm here)
      simp [List.lookup_cons, apart, here]

theorem lookup_bySlot (fragments : List Fragment) (slot : String) :
    (bySlot fragments).lookup slot = fragments.reverse.find? (·.slot = slot) := by
  induction fragments using List.reverseRecOn with
  | nil => rfl
  | append_singleton fragments f ih =>
    rw [bySlot, List.foldl_append, List.foldl_cons, List.foldl_nil, lookup_bySlot_step, ← bySlot,
      ih, List.reverse_append, List.reverse_singleton, List.singleton_append, List.find?_cons]
    by_cases here : f.slot = slot <;> simp [here]

theorem find?_slot_iff {fragments : List Fragment} (once : (fragments.map (·.slot)).Nodup)
    {slot : String} {f : Fragment} :
    fragments.find? (·.slot = slot) = some f ↔ f ∈ fragments ∧ f.slot = slot := by
  constructor
  · intro found
    exact ⟨List.mem_of_find?_eq_some found, by simpa using List.find?_some found⟩
  · rintro ⟨hf, rfl⟩
    obtain ⟨g, found⟩ := Option.isSome_iff_exists.mp
      (List.find?_isSome (p := (·.slot = f.slot)).mpr ⟨f, hf, decide_eq_true rfl⟩)
    have same : g.slot = f.slot := by simpa using List.find?_some found
    obtain rfl := List.inj_on_of_nodup_map once (List.mem_of_find?_eq_some found) hf same
    exact found

theorem texture_bySlot {fragments : List Fragment} (once : (fragments.map (·.slot)).Nodup)
    (slot : String) :
    ((bySlot fragments).lookup slot).map (·.texture) = textureFor slot fragments := by
  rw [lookup_bySlot, textureFor]
  refine congrArg _ (Option.ext fun f => ?_)
  rw [find?_slot_iff (by simpa using once), find?_slot_iff once, List.mem_reverse]

end Fragment

/-! ## The placements of the sprite -/

namespace Sprite

variable {p : String × Nat × Nat}

theorem mem_placements (h : p ∈ placements) :
    ∃ n < slots.length, p.2 = offsetAt n := by
  obtain ⟨n, listed, rfl⟩ := List.mem_mapIdx.mp h
  exact ⟨n, listed, rfl⟩

theorem placements_pairwise :
    placements.Pairwise fun p q => ∃ n m, n ≠ m ∧ p.2 = offsetAt n ∧ q.2 = offsetAt m := by
  refine List.pairwise_iff_getElem.mpr fun n m _ _ before => ⟨n, m, before.ne, ?_⟩
  simp only [placements, List.getElem_mapIdx, and_self]

end Sprite

/-! ## What is chosen -/

namespace Rulebook

variable {held : List Rule} {look : Surroundings Id} {q : Query}

theorem mem_of_bestOf {b : Rulebook} (ordered : b.Ordered) {type : String} {found : Rule × Bool}
    (h : (b.bestOf look type q).run = some found) : found.1 ∈ b.candidates type q.slot :=
  ((bestOf_spec ordered look q type).2 found.1 found.2 h).1.mem.candidate

theorem mem_of_choose {choice : Choice} (h : ((ofRules held).choose look q).run = some choice) :
    choice.rule ∈ held ∧ choice.rule.slot = q.slot ∧
      (choice.rule.type = q.type ∨ choice.rule.type = family q.type) := by
  have ordered : (ofRules held).Ordered := ofShelves_ordered _
  rw [choose_run] at h
  cases own : ((ofRules held).bestOf look q.type q).run with
  | some found =>
    rw [own] at h
    cases h
    obtain ⟨mem, type, slot⟩ := mem_candidates_ofRules.mp (mem_of_bestOf ordered own)
    exact ⟨mem, slot, Or.inl type⟩
  | none =>
    simp only [own, Option.ite_none_left_eq_some, Option.map_eq_some_iff] at h
    obtain ⟨-, found, ofFamily, rfl⟩ := h
    obtain ⟨mem, type, slot⟩ := mem_candidates_ofRules.mp (mem_of_bestOf ordered ofFamily)
    exact ⟨mem, slot, Or.inr type⟩

def fragmentOf (p : String × Nat × Nat) (c : Choice) : Fragment :=
  { slot := p.1, texture := c.rule.name, x := p.2.1, y := p.2.2, score := c.score }

theorem compose_run (b : Rulebook) (look : Surroundings Id) (type : String) (elevation : Int) :
    (b.compose look type elevation).run = Sprite.placements.filterMap fun p =>
      (b.choose look ⟨type, p.1, elevation⟩).run.map (fragmentOf p) := by
  have placed : ∀ ps : List (String × Nat × Nat),
      (ps.filterMapM (b.place look type elevation)).run =
        ps.filterMap fun p => (b.choose look ⟨type, p.1, elevation⟩).run.map (fragmentOf p) := by
    intro ps
    induction ps with
    | nil => rfl
    | cons p ps ih =>
      have run : (b.place look type elevation p).run =
          (b.choose look ⟨type, p.1, elevation⟩).run.map (fragmentOf p) := rfl
      rw [List.filterMapM_cons, Id.run_bind, List.filterMap_cons, ← ih, run]
      cases (b.choose look ⟨type, p.1, elevation⟩).run with
      | none => rfl
      | some c => rfl
  exact placed Sprite.placements

/-- The fragments of a tile of a type, where for each slot something is chosen or nothing. -/
structure Composes (b : Rulebook) (type : String) (chosen : String → Option Choice)
    (fragments : List Fragment) : Prop where
  subsequence : (fragments.map (·.slot)).Sublist Sprite.slots
  increasing : (fragments.map (·.slot)).Pairwise (· < ·)
  present : ∀ slot, slot ∈ fragments.map (·.slot) ↔ (chosen slot).isSome
  texture : ∀ f ∈ fragments, b.contains f.texture = true ∧
    ∃ choice, chosen f.slot = some choice ∧ Rule.ofName f.texture = .ok choice.rule ∧
      choice.rule.slot = f.slot ∧ (choice.rule.type = type ∨ choice.rule.type = family type)
  apart : fragments.Pairwise fun f g => f.rect.Apart g.rect
  inside : ∀ f ∈ fragments, f.rect.Inside 32 24
  agree : ∀ slot, ((Fragment.bySlot fragments).lookup slot).map (·.texture) =
    Fragment.textureFor slot fragments

theorem slots_compose (b : Rulebook) (look : Surroundings Id) (type : String) (elevation : Int) :
    (b.compose look type elevation).run.map (·.slot) =
      Sprite.slots.filter fun slot => (b.choose look ⟨type, slot, elevation⟩).run.isSome := by
  have slots : Sprite.slots = Sprite.placements.map Prod.fst := rfl
  rw [compose_run, List.map_filterMap, slots, List.filter_map, ← List.filterMap_eq_filter,
    List.map_filterMap]
  refine congrArg (List.filterMap · Sprite.placements) (funext fun p => ?_)
  have answered : ∀ answer : Option Choice,
      (answer.map fun _ => p.1) = if answer.isSome = true then some p.1 else none := by
    rintro (_ | choice) <;> rfl
  rw [Option.map_map, Option.map_guard]
  exact answered _

section

variable (faithful : ∀ rule ∈ held, Rule.ofName rule.name = .ok rule)
include faithful

theorem mem_slots_of_choose {choice : Choice}
    (h : ((ofRules held).choose look q).run = some choice) : q.slot ∈ Sprite.slots := by
  obtain ⟨mem, slot, -⟩ := mem_of_choose h
  exact slot ▸ (Rule.wellFormed_of_read (faithful _ mem)).slot

theorem composes (look : Surroundings Id) (type : String) (elevation : Int) :
    (ofRules held).Composes type
      (fun slot => ((ofRules held).choose look ⟨type, slot, elevation⟩).run)
      ((ofRules held).compose look type elevation).run := by
  have slots := (ofRules held).slots_compose look type elevation
  have subsequence : (((ofRules held).compose look type elevation).run.map (·.slot)).Sublist
      Sprite.slots := slots ▸ List.filter_sublist
  have increasing := List.Pairwise.sublist subsequence
    (show Sprite.slots.Pairwise (· < ·) by decide)
  constructor
  case subsequence => exact subsequence
  case increasing => exact increasing
  case present =>
    intro slot
    rw [slots, List.mem_filter, and_iff_right_iff_imp]
    intro answers
    obtain ⟨choice, chosen⟩ := Option.isSome_iff_exists.mp answers
    exact mem_slots_of_choose faithful chosen
  case texture =>
    intro f hf
    rw [compose_run, List.mem_filterMap] at hf
    obtain ⟨p, -, hf⟩ := hf
    obtain ⟨choice, chosen, rfl⟩ := Option.map_eq_some_iff.mp hf
    obtain ⟨mem, slot, kin⟩ := mem_of_choose chosen
    refine ⟨?_, choice, chosen, faithful _ mem, slot, kin⟩
    exact List.any_eq_true.mpr ⟨_, mem_rules_ofRules.mpr mem, decide_eq_true rfl⟩
  case apart =>
    -- the fragments keep the offsets of their slots, and those are of distinct squares of the grid
    rw [compose_run, List.pairwise_filterMap]
    refine Sprite.placements_pairwise.imp ?_
    rintro p q ⟨n, m, different, hp, hq⟩ f hf g hg
    obtain ⟨-, -, rfl⟩ := Option.map_eq_some_iff.mp hf
    obtain ⟨-, -, rfl⟩ := Option.map_eq_some_iff.mp hg
    rw [Sprite.rect_offsetAt hp, Sprite.rect_offsetAt hq]
    refine Atlas.square_apart fun ⟨column, row⟩ => different ?_
    rw [← Nat.div_add_mod n Sprite.columns, column, row, Nat.div_add_mod]
  case inside =>
    intro f hf
    rw [compose_run, List.mem_filterMap] at hf
    obtain ⟨p, hp, hf⟩ := hf
    obtain ⟨-, -, rfl⟩ := Option.map_eq_some_iff.mp hf
    obtain ⟨n, listed, offset⟩ := Sprite.mem_placements hp
    rw [Sprite.rect_offsetAt offset]
    have low : n / Sprite.columns < Sprite.rows := Nat.div_lt_of_lt_mul listed
    exact Atlas.square_inside (Nat.mod_lt n (by decide)) low
  case agree =>
    exact Fragment.texture_bySlot (increasing.imp String.ne_of_lt)

theorem choose_elsewhere (around : Surroundings (Except Fault)) (lacks : q.slot ∉ Sprite.slots) :
    (ofRules held).choose around q = .ok none := by
  have bare (type : String) : (ofRules held).candidates type q.slot = [] := by
    refine List.eq_nil_iff_forall_not_mem.mpr fun r hr => lacks ?_
    obtain ⟨mem, -, slot⟩ := mem_candidates_ofRules.mp hr
    exact slot ▸ (Rule.wellFormed_of_read (faithful r mem)).slot
  have bestOf (type : String) : (ofRules held).bestOf around type q = .ok none := by
    unfold Rulebook.bestOf
    rw [bare]
    split <;> rfl
  unfold choose
  rw [bestOf, bestOf]
  split <;> rfl

/-- Where a composition succeeds, every slot has been answered for, and the tile is as it is in
surroundings that can be read throughout. -/
theorem composes_of_ok {around : Surroundings (Except Fault)} {type : String} {elevation : Int}
    {fragments : List Fragment}
    (composed : (ofRules held).compose around type elevation = .ok fragments) :
    ∃ chosen : String → Option Choice,
      (∀ slot, (ofRules held).choose around ⟨type, slot, elevation⟩ = .ok (chosen slot)) ∧
        (ofRules held).Composes type chosen fragments := by
  have reads : ∀ k, (ofRules held).Judges type k →
      k.ReadsAs (fun _ => True) type around (legible around) := fun k _ =>
    ⟨_, gives_toOption (around k.offset), rfl⟩
  have same := (compose_gives reads elevation).value fragments composed
  refine ⟨_, fun slot => ?_, same ▸ composes faithful (legible around) type elevation⟩
  have answered : ∃ answer, (ofRules held).choose around ⟨type, slot, elevation⟩ = .ok answer := by
    by_cases drawn : slot ∈ Sprite.slots
    · have slots : Sprite.slots = Sprite.placements.map Prod.fst := rfl
      rw [slots] at drawn
      obtain ⟨p, hp, rfl⟩ := List.mem_map.mp drawn
      obtain ⟨fragment, placed⟩ := eq_ok_of_filterMapM composed p hp
      obtain ⟨answer, answered, -⟩ := eq_ok_of_bind placed
      exact ⟨answer, answered⟩
    · exact ⟨none, choose_elsewhere faithful around drawn⟩
  obtain ⟨answer, answered⟩ := answered
  rw [answered, (choose_gives reads).value answer answered]

end

/-- Composed tiles are well formed, whatever the catalogue was made of: in any surroundings, and if
reading them may fail then wherever it did not. -/
theorem composition_well_formed {identifiers : Datum} {book : Rulebook} {c : Catalogue}
    (built : Intake.buildFrom identifiers {} = .ok book c) (type : String) (elevation : Int) :
    (∀ look : Surroundings Id,
      book.Composes type (fun slot => (book.choose look ⟨type, slot, elevation⟩).run)
        (book.compose look type elevation).run) ∧
    ∀ (around : Surroundings (Except Fault)) (fragments : List Fragment),
      book.compose around type elevation = .ok fragments →
        ∃ chosen : String → Option Choice,
          (∀ slot, book.choose around ⟨type, slot, elevation⟩ = .ok (chosen slot)) ∧
            book.Composes type chosen fragments := by
  obtain ⟨held, rfl, faithful⟩ := Intake.ofRules_of_buildFrom built
  exact ⟨fun look => composes faithful look type elevation,
    fun around fragments composed => composes_of_ok faithful composed⟩

/-- Under mud a variant draws one fragment with a rule of its own and one with a rule of its family
that leaves the cell above out. Only the cells that share a side with the tile can be read. -/
theorem composition_well_formed_under_mud :
    let own : Rule :=
      ⟨"rock_wet-12-n:0", "rock_wet", "12", Rule.arrange [⟨[.north], .empty⟩], none, 2⟩
    let ofFamily : Rule := ⟨"rock-11-u0", "rock", "11", Rule.arrange [⟨[.up], .empty⟩], none, 2⟩
    let book := ofRules [own, ofFamily]
    let cells : Surroundings Id := fun o => if o = ⟨0, 0, 1⟩ then some "mud" else none
    let around : Surroundings (Except Fault) := fun o =>
      if o.s.natAbs + o.e.natAbs + o.u.natAbs ≤ 1 then .ok (cells o)
      else .error (.numeral .tooLongToWrite)
    let drawn : List Fragment :=
      [⟨"11", "rock-11-u0", 0, 0, 1⟩, ⟨"12", "rock_wet-12-n:0", 8, 0, 2⟩]
    (∃ c, Intake.buildFrom (.list ([own.name, ofFamily.name].map .text)) {} = .ok book c) ∧
      (book.compose cells "rock_wet" 0).run = drawn ∧
      book.Composes "rock_wet" (fun slot => (book.choose cells ⟨"rock_wet", slot, 0⟩).run) drawn ∧
      book.compose around "rock_wet" 0 = .ok drawn ∧
      ∃ chosen, (∀ slot, book.choose around ⟨"rock_wet", slot, 0⟩ = .ok (chosen slot)) ∧
        book.Composes "rock_wet" chosen drawn := by
  intro own ofFamily book cells around drawn
  have read : Rule.ofName "rock_wet-12-n:0" = .ok own := rfl
  have read' : Rule.ofName "rock-11-u0" = .ok ofFamily := rfl
  obtain ⟨c, built⟩ := Intake.buildFrom_reads (.cons read (.cons read' .nil)) (by decide)
  obtain ⟨plain, fallible⟩ := composition_well_formed built "rock_wet" 0
  have shown : (book.compose cells "rock_wet" 0).run = drawn := by decide +kernel
  have shown' : book.compose around "rock_wet" 0 = .ok drawn :=
    eq_ok_of_toOption (by decide +kernel)
  exact ⟨⟨c, built⟩, shown, shown ▸ plain cells, shown', fallible around drawn shown'⟩

end Rulebook

end Autotile
