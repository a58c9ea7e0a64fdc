import Autotile.Proofs.Atlas.Demands

/-! # What the names of the atlas come back as

The name of a frame is written by putting the neighbour's type where a requirement stands, and it is
read without knowing that. Every name comes back as a rule of its type and slot. But the alphabet of
types has two words that are requirements of their own: a neighbour called `0` comes back as an
empty cell, and one called `1` as whatever is there. -/
namespace Autotile.Atlas

/-- What a neighbour's type is read as where a requirement stands. -/
def readAs (neighbor : String) : Requirement :=
  if neighbor = "0" then .empty else if neighbor = "1" then .occupied else .exactly neighbor

theorem symbol_readAs (neighbor : String) : (readAs neighbor).symbol = neighbor := by
  unfold readAs
  split
  case isTrue zero => exact zero.symm
  case isFalse =>
    split
    case isTrue one => exact one.symm
    case isFalse => rfl

theorem readAs_ne_any (neighbor : String) : readAs neighbor ≠ .any := by
  unfold readAs
  split
  · nofun
  · split <;> nofun

theorem exactly_eq_readAs {neighbor : String} :
    .exactly neighbor = readAs neighbor ↔ neighbor ≠ "0" ∧ neighbor ≠ "1" := by
  unfold readAs
  by_cases zero : neighbor = "0"
  · simp [zero]
  · by_cases one : neighbor = "1" <;> simp [zero, one]

theorem readAs_cases {neighbor : String} (word : Text.Word Rule.isTypeChar neighbor.toList) :
    readAs neighbor ∈ Requirement.symbolic ∨
      PlainType neighbor ∧ readAs neighbor = .exactly neighbor := by
  by_cases plain : neighbor ≠ "0" ∧ neighbor ≠ "1"
  · exact Or.inr ⟨⟨word, plain⟩, (exactly_eq_readAs.mpr plain).symm⟩
  · left
    unfold readAs
    split
    · decide
    · split
      · decide
      · simp_all

namespace Demand

theorem mem_constraints_rule {neighbors : List String} {d : Demand} (h : d.Proper neighbors)
    {type : String} {c : Constraint} (asks : c.requirement ≠ .any) :
    c ∈ (d.rule type).constraints ↔ c ∈ d.given := by
  have listed := Rule.forall_arrange_iff h.once h.paths (P := (· ≠ c)) fun p same =>
    asks (same ▸ rfl)
  rw [← not_iff_not]
  refine Iff.trans ?_ (listed.trans ?_)
  · exact ⟨fun none c' hc same => none (same ▸ hc), fun none hc => none c hc rfl⟩
  · exact ⟨fun none hc => none c hc rfl, fun none c' hc same => none (same ▸ hc)⟩

end Demand

def readDemand (neighbor : String) (b : String × Direction × List Constraint) : Demand :=
  ⟨b.1, ⟨[b.2.1], readAs neighbor⟩ :: b.2.2⟩

section

variable {type neighbor : String} {b : String × Direction × List Constraint}

theorem name_readDemand (hb : b ∈ besides) : (readDemand neighbor b).name type =
    frameName type b.1
      (neighborConstraints (String.singleton b.2.1.code) neighbor (restText b.2.2)) := by
  rw [Demand.name, readDemand, text_neighbor b.1 _ hb, symbol_readAs]

variable (word : Text.Word Rule.isTypeChar neighbor.toList)
include word

theorem proper_readDemand (hb : b ∈ besides) :
    ∃ neighbors, (∀ n ∈ neighbors, PlainType n) ∧ (readDemand neighbor b).Proper neighbors := by
  rcases readAs_cases word with symbolic | ⟨plain, exactly⟩
  · exact ⟨[], List.forall_mem_nil _, proper_besides hb (Or.inl symbolic)⟩
  · refine ⟨[neighbor], List.forall_mem_singleton.mpr plain, proper_besides hb (Or.inr ?_)⟩
    exact ⟨neighbor, List.mem_singleton_self _, exactly⟩

theorem exactly_mem_readDemand (hb : b ∈ besides) :
    ⟨[b.2.1], .exactly neighbor⟩ ∈ (readDemand neighbor b).given ↔
      neighbor ≠ "0" ∧ neighbor ≠ "1" := by
  obtain ⟨_, -, proper⟩ := proper_readDemand word hb
  rw [← exactly_eq_readAs]
  constructor
  · intro asked
    have same := List.inj_on_of_nodup_map proper.once asked List.mem_cons_self rfl
    exact congrArg Constraint.requirement same
  · intro same
    rw [same]
    exact List.mem_cons_self

end

theorem names_demands (type : String) (neighbors : List String) :
    (demands neighbors).map (Demand.name type) =
      (fixedFrames.map fun f => frameName type f.1 f.2.1) ++ neighbors.flatMap fun neighbor =>
        neighborFrames.map fun f =>
          frameName type f.1 (neighborConstraints f.2.1 neighbor f.2.2.1) := by
  simp only [demands, List.map_append, List.map_flatMap, names_fixed, names_neighbor]

/-- Every name of the atlas is the name of a frame of one of the types, and is read as a rule of
this type for the slot of the frame. In a frame for a neighbour the first direction is asked for
what the neighbour's type is read as, and that is just this type unless it is called `0` or `1`. -/
theorem frame_names_read_back {types : List String}
    (words : ∀ t ∈ types, Text.Word Rule.isTypeChar t.toList) :
    (∀ name, name ∈ (frames types).map Prod.fst ↔ ∃ type ∈ types,
      (∃ f ∈ fixedFrames, frameName type f.1 f.2.1 = name) ∨
      ∃ neighbor ∈ types, ∃ f ∈ neighborFrames,
        frameName type f.1 (neighborConstraints f.2.1 neighbor f.2.2.1) = name) ∧
    (∀ type ∈ types, ∀ f ∈ fixedFrames, ∃ rule,
      Rule.ofName (frameName type f.1 f.2.1) = .ok rule ∧ rule.type = type ∧ rule.slot = f.1) ∧
    ∀ type ∈ types, ∀ neighbor ∈ types, ∀ f ∈ neighborFrames, ∃ rule side,
      Rule.ofName (frameName type f.1 (neighborConstraints f.2.1 neighbor f.2.2.1)) = .ok rule ∧
        rule.type = type ∧ rule.slot = f.1 ∧ f.2.1 = String.singleton side.code ∧
        ⟨[side], readAs neighbor⟩ ∈ rule.constraints ∧
        (⟨[side], .exactly neighbor⟩ ∈ rule.constraints ↔ neighbor ≠ "0" ∧ neighbor ≠ "1") := by
  refine ⟨?_, ?_, ?_⟩
  · intro name
    rw [mem_names_frames]
    refine exists_congr fun type => and_congr_right fun _ => ?_
    rw [← List.mem_map, names_demands]
    simp only [List.mem_append, List.mem_map, List.mem_flatMap]
  · intro type ht f hf
    have asked := List.mem_map_of_mem (f := fun f => (f.1, f.2.1)) hf
    rw [fixedFrames_eq] at asked
    obtain ⟨d, hd, same⟩ := List.mem_map.mp asked
    obtain ⟨slot, constraints⟩ := Prod.mk.inj same
    have proper : d.Proper [] := proper_of_mem (List.mem_append_left _ hd)
    rw [← slot, ← constraints]
    exact ⟨_, Demand.ofName_name proper (List.forall_mem_nil _) (words type ht),
      Demand.rule_type, rfl⟩
  · intro type ht neighbor hn f hf
    have asked := List.mem_map_of_mem (f := fun f => (f.1, f.2.1, f.2.2.1)) hf
    rw [neighborFrames_besides] at asked
    obtain ⟨b, hb, same⟩ := List.mem_map.mp asked
    simp only [Prod.mk.injEq] at same
    obtain ⟨slot, direction, rest⟩ := same
    -- the name is that of the demand as it is read, in which `0` and `1` are no types
    obtain ⟨neighbors, plain, proper⟩ := proper_readDemand (words neighbor hn) hb
    have read := Demand.ofName_name proper plain (words type ht)
    rw [name_readDemand hb] at read
    rw [← slot, ← direction, ← rest]
    refine ⟨_, b.2.1, read, Demand.rule_type, rfl, rfl, ?_, ?_⟩
    · rw [Demand.mem_constraints_rule proper (readAs_ne_any neighbor)]
      exact List.mem_cons_self
    · rw [Demand.mem_constraints_rule proper Requirement.noConfusion]
      exact exactly_mem_readDemand (words neighbor hn) hb

/-- The one name asks for dirt to the south and is of the type `0`; the other is of dirt and asks
for nothing to the south. -/
theorem frame_names_read_back_digit_as_type :
    let types := ["dirt_grass1", "0"]
    (∀ t ∈ types, Text.Word Rule.isTypeChar t.toList) ∧
      (∃ rule, Rule.ofName "0-21-s:dirt_grass1,u:!.png" = .ok rule ∧ rule.type = "0" ∧
        rule.slot = "21" ∧ ⟨[.south], .exactly "dirt_grass1"⟩ ∈ rule.constraints) ∧
      ∃ rule, Rule.ofName "dirt_grass1-21-s:0,u:!.png" = .ok rule ∧ rule.type = "dirt_grass1" ∧
        rule.slot = "21" ∧ ⟨[.south], .empty⟩ ∈ rule.constraints ∧
        ⟨[.south], .exactly "0"⟩ ∉ rule.constraints := by
  intro types
  have words : ∀ t ∈ types, Text.Word Rule.isTypeChar t.toList := by decide
  have dirt : "dirt_grass1" ∈ types := by decide
  have digit : "0" ∈ types := by decide
  have frame : ("21", "s", ",u:!", Spot.mk 0 1) ∈ neighborFrames := by decide
  have south : ∀ side : Direction, "s" = String.singleton side.code → side = .south := by
    intro side same
    cases side <;> revert same <;> decide
  obtain ⟨-, -, neighbors⟩ := frame_names_read_back words
  refine ⟨words, ?_, ?_⟩
  · obtain ⟨rule, side, read, type, slot, direction, -, exactly⟩ :=
      neighbors "0" digit "dirt_grass1" dirt _ frame
    obtain rfl := south side direction
    exact ⟨rule, read, type, slot, exactly.mpr (by decide)⟩
  · obtain ⟨rule, side, read, type, slot, direction, empty, exactly⟩ :=
      neighbors "dirt_grass1" dirt "0" digit _ frame
    obtain rfl := south side direction
    exact ⟨rule, read, type, slot, empty, fun asked => (exactly.mp asked).1 rfl⟩

/-- The atlas of the single type `0` asks for an empty cell where it is to ask for its type. -/
theorem not_every_frame_name_keeps_its_neighbor :
    ¬∀ types : List String, (∀ t ∈ types, Text.Word Rule.isTypeChar t.toList) →
      ∀ type ∈ types, ∀ neighbor ∈ types, ∀ f ∈ neighborFrames, ∃ rule side,
        Rule.ofName (frameName type f.1 (neighborConstraints f.2.1 neighbor f.2.2.1)) = .ok rule ∧
          f.2.1 = String.singleton side.code ∧
          ⟨[side], .exactly neighbor⟩ ∈ rule.constraints := by
  intro h
  have words : ∀ t ∈ ["0"], Text.Word Rule.isTypeChar t.toList := by decide
  obtain ⟨rule, side, read, -, asked⟩ := h ["0"] words "0" (List.mem_singleton_self _) "0"
    (List.mem_singleton_self _) ("21", "s", ",u:!", ⟨0, 1⟩) (by decide)
  have shown : Rule.ofName "0-21-s:0,u:!.png" = .ok ⟨"0-21-s:0,u:!.png", "0", "21",
    Rule.arrange [⟨[.south], .empty⟩, bare], none, 5⟩ := rfl
  obtain rfl := Except.ok.inj (shown.symm.trans read)
  have never : ∀ c ∈ Rule.arrange [⟨[.south], .empty⟩, bare], c.requirement ≠ .exactly "0" := by
    decide
  exact never _ asked rfl

end Autotile.Atlas
