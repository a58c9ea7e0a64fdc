import Autotile.Atlas
import Autotile.Proofs.Lookup
import Autotile.Proofs.Rule.Completeness

/-! # What the frames of the atlas ask for

A frame is drawn for a slot and asks something of the cells around the tile; its name says so. The
names of the frames are those of the demands listed here, and each is read as the rule of its type
that demands just this. -/
namespace Autotile.Atlas

open Text

/-- A slot, and what is required around the tile to draw a frame there. -/
structure Demand where
  slot : String
  given : List Constraint
  deriving DecidableEq

namespace Demand

def text (d : Demand) : String :=
  String.ofList (joinFields ',' (d.given.map fun c => c.token.toList))

def name (type : String) (d : Demand) : String := frameName type d.slot d.text

end Demand

def bare : Constraint := ⟨[.up], .otherFamily⟩

def upperSides : List (String × Direction) :=
  [("11", .west), ("12", .west), ("13", .north), ("14", .north)]

def lowerSides : List (String × Direction) :=
  [("21", .south), ("22", .south), ("23", .east), ("24", .east)]

def freeSides : List (String × Direction × Direction) :=
  [("11", .west, .south), ("12", .west, .north), ("13", .north, .west), ("14", .north, .east),
   ("21", .south, .west), ("22", .south, .east), ("23", .east, .south), ("24", .east, .north)]

def fixedDemands : List Demand :=
  freeSides.map (fun (slot, d, d') => ⟨slot, [⟨[d], .empty⟩, bare, ⟨[d'], .empty⟩]⟩) ++
  upperSides.map (fun (slot, d) => ⟨slot, [⟨[d], .empty⟩, bare]⟩) ++
  lowerSides.map (fun (slot, d) => ⟨slot, [⟨[d], .otherFamily⟩, bare]⟩) ++
  upperSides.map (fun (slot, d) => ⟨slot, [⟨[d], .occupied⟩, ⟨[d, .up], .occupied⟩, bare]⟩)

def besides : List (String × Direction × List Constraint) :=
  upperSides.map (fun (slot, d) => (slot, d, [⟨[d, .up], .empty⟩, bare])) ++
  lowerSides.map (fun (slot, d) => (slot, d, [bare]))

def neighborDemands (neighbor : String) : List Demand :=
  besides.map fun (slot, d, rest) => ⟨slot, ⟨[d], .exactly neighbor⟩ :: rest⟩

def demands (neighbors : List String) : List Demand :=
  fixedDemands ++ neighbors.flatMap neighborDemands

theorem fixedFrames_eq : fixedFrames.map (fun f => (f.1, f.2.1)) =
    fixedDemands.map fun d => (d.slot, d.text) := by
  decide

def restText (rest : List Constraint) : String :=
  String.ofList (',' :: joinFields ',' (rest.map fun c => c.token.toList))

theorem neighborFrames_besides : neighborFrames.map (fun f => (f.1, f.2.1, f.2.2.1)) =
    besides.map fun b => (b.1, String.singleton b.2.1.code, restText b.2.2) := by
  decide

theorem text_neighbor (slot : String) (r : Requirement) {b : String × Direction × List Constraint}
    (hb : b ∈ besides) : (⟨slot, ⟨[b.2.1], r⟩ :: b.2.2⟩ : Demand).text =
      neighborConstraints (String.singleton b.2.1.code) r.symbol (restText b.2.2) := by
  have more : ∀ b ∈ besides, b.2.2 ≠ [] := by decide
  obtain ⟨c, rest, others⟩ := List.exists_cons_of_ne_nil (more b hb)
  rw [others]
  apply String.toList_inj.mp
  simp [Demand.text, neighborConstraints, restText, joinFields, Constraint.token, Path.code]

theorem neighborFrames_eq (neighbor : String) :
    neighborFrames.map (fun f => (f.1, neighborConstraints f.2.1 neighbor f.2.2.1)) =
      (neighborDemands neighbor).map fun d => (d.slot, d.text) := by
  calc neighborFrames.map (fun f => (f.1, neighborConstraints f.2.1 neighbor f.2.2.1))
      = (neighborFrames.map fun f => (f.1, f.2.1, f.2.2.1)).map
          fun f => (f.1, neighborConstraints f.2.1 neighbor f.2.2) := by
        rw [List.map_map]
        rfl
    _ = besides.map fun b =>
          (b.1, neighborConstraints (String.singleton b.2.1.code) neighbor (restText b.2.2)) := by
        rw [neighborFrames_besides, List.map_map]
        rfl
    _ = (neighborDemands neighbor).map fun d => (d.slot, d.text) := by
        rw [neighborDemands, List.map_map]
        refine List.map_congr_left fun b hb => ?_
        exact congrArg _ (text_neighbor b.1 (.exactly neighbor) hb).symm

/-! ## The names of the frames -/

theorem names_fixed (type : String) : fixedFrames.map (fun f => frameName type f.1 f.2.1) =
    fixedDemands.map (Demand.name type) := by
  have named := congrArg (List.map fun p => frameName type p.1 p.2) fixedFrames_eq
  rwa [List.map_map, List.map_map] at named

theorem names_neighbor (type neighbor : String) :
    neighborFrames.map (fun f => frameName type f.1 (neighborConstraints f.2.1 neighbor f.2.2.1)) =
      (neighborDemands neighbor).map (Demand.name type) := by
  have named := congrArg (List.map fun p => frameName type p.1 p.2) (neighborFrames_eq neighbor)
  rwa [List.map_map, List.map_map] at named

theorem keys_flatten_mapIdx {α β : Type} {f : Nat → α → List (String × β)} {keys : α → List String}
    (same : ∀ n a, (f n a).map Prod.fst = keys a) (xs : List α) :
    (xs.mapIdx f).flatten.map Prod.fst = xs.flatMap keys := by
  induction xs generalizing f with
  | nil => rfl
  | cons a xs ih =>
    rw [List.mapIdx_cons, List.flatten_cons, List.map_append, same, ih fun n => same (n + 1),
      List.flatMap_cons]

theorem mem_names_spots {type : String} {neighbors : List String} {name : String} :
    name ∈ (spots type neighbors).map Prod.fst ↔
      name ∈ (demands neighbors).map (Demand.name type) := by
  rw [spots, mem_keys_foldl_setEntry, List.map_append, List.mem_append, demands, List.map_append,
    List.mem_append, List.map_nil, List.map_flatMap, List.map_map]
  refine (or_iff_left List.not_mem_nil).trans (or_congr ?_ ?_)
  · exact iff_of_eq (congrArg (name ∈ ·) (names_fixed type))
  · refine iff_of_eq (congrArg (name ∈ ·) (keys_flatten_mapIdx (fun n neighbor => ?_) neighbors))
    rw [List.map_map]
    exact names_neighbor type neighbor

theorem mem_names_frames {types : List String} {name : String} :
    name ∈ (frames types).map Prod.fst ↔
      ∃ type ∈ types, ∃ d ∈ demands types, d.name type = name := by
  have keys : ((types.mapIdx fun n type =>
      (spots type types).map fun frame => (frame.1, rectAt n frame.2)).flatten).map Prod.fst =
      types.flatMap fun type => (spots type types).map Prod.fst := by
    refine keys_flatten_mapIdx (fun n type => ?_) types
    rw [List.map_map]
    rfl
  rw [frames, mem_keys_foldl_setEntry, keys, List.map_nil, List.mem_flatMap]
  refine (or_iff_left List.not_mem_nil).trans (exists_congr fun type => and_congr_right fun _ => ?_)
  rw [mem_names_spots, List.mem_map]

/-! ## What the names are read as -/

def topSlots : List String := ["11", "12", "13", "14", "21", "22", "23", "24"]

/-- A demand for a slot of the top face that may be written into a name. Every one asks that
nothing of the family stands above. -/
structure Demand.Proper (neighbors : List String) (d : Demand) : Prop where
  slot : d.slot ∈ topSlots
  once : (d.given.map (·.path)).Nodup
  above : bare ∈ d.given
  paths : ∀ c ∈ d.given, c.path ≠ []
  requirements : ∀ c ∈ d.given,
    c.requirement ∈ Requirement.symbolic ∨ ∃ n ∈ neighbors, c.requirement = .exactly n

theorem proper_besides {neighbors : List String} {b : String × Direction × List Constraint}
    (hb : b ∈ besides) {r : Requirement}
    (hr : r ∈ Requirement.symbolic ∨ ∃ n ∈ neighbors, r = .exactly n) :
    Demand.Proper neighbors ⟨b.1, ⟨[b.2.1], r⟩ :: b.2.2⟩ := by
  have all : ∀ b ∈ besides, b.1 ∈ topSlots ∧ ([b.2.1] :: b.2.2.map (·.path)).Nodup ∧
      bare ∈ b.2.2 ∧ (∀ c ∈ b.2.2, c.path ≠ []) ∧
      ∀ c ∈ b.2.2, c.requirement ∈ Requirement.symbolic := by decide
  obtain ⟨slot, once, above, paths, symbolic⟩ := all b hb
  refine ⟨slot, once, List.mem_cons_of_mem _ above, ?_, ?_⟩
  · exact List.forall_mem_cons.mpr ⟨List.cons_ne_nil _ _, paths⟩
  · exact List.forall_mem_cons.mpr ⟨hr, fun c hc => Or.inl (symbolic c hc)⟩

theorem proper_of_mem {neighbors : List String} {d : Demand} (h : d ∈ demands neighbors) :
    d.Proper neighbors := by
  rcases List.mem_append.mp h with fixed | neighbor
  · have all : ∀ d ∈ fixedDemands, d.slot ∈ topSlots ∧ (d.given.map (·.path)).Nodup ∧
        bare ∈ d.given ∧ (∀ c ∈ d.given, c.path ≠ []) ∧
        ∀ c ∈ d.given, c.requirement ∈ Requirement.symbolic := by decide
    obtain ⟨slot, once, above, paths, symbolic⟩ := all d fixed
    exact ⟨slot, once, above, paths, fun c hc => Or.inl (symbolic c hc)⟩
  · obtain ⟨n, hn, hd⟩ := List.mem_flatMap.mp neighbor
    obtain ⟨b, hb, rfl⟩ := List.mem_map.mp hd
    exact proper_besides hb (Or.inr ⟨n, hn, rfl⟩)

def PlainType (type : String) : Prop :=
  Text.Word Rule.isTypeChar type.toList ∧ type ≠ "0" ∧ type ≠ "1"

instance (type : String) : Decidable (PlainType type) :=
  inferInstanceAs (Decidable (Text.Word Rule.isTypeChar type.toList ∧ type ≠ "0" ∧ type ≠ "1"))

namespace Demand

def phrase (type : String) (d : Demand) : Rule.Phrase :=
  ⟨type.toList, d.slot, d.given.map fun c => c.token.toList, none⟩

def rule (type : String) (d : Demand) : Rule := (d.phrase type).rule (d.name type) d.given none

theorem names (type : String) (d : Demand) : (d.phrase type).Names (d.name type) := by
  refine Or.inr ?_
  simp [name, frameName, text, phrase, Rule.Phrase.stem, Rule.Phrase.pieces, joinFields,
    Rule.suffix]

variable {types : List String} {type : String} {d : Demand}

theorem requires_written {r : Requirement} (plain : ∀ t ∈ types, PlainType t)
    (h : r ∈ Requirement.symbolic ∨ ∃ n ∈ types, r = .exactly n) :
    Rule.readable.Requires r.symbol.toList r := by
  rcases h with symbolic | ⟨n, hn, rfl⟩
  · exact .symbol symbolic
  · obtain ⟨word, zero, one⟩ := plain n hn
    have unlike : ∀ r ∈ Requirement.symbolic, n.toList ≠ r.symbol.toList := by
      intro r hr same
      obtain rfl := String.toList_inj.mp same
      have all : ∀ r ∈ Requirement.symbolic, r.symbol = "0" ∨ r.symbol = "1" ∨
          ¬Text.Word Rule.isTypeChar r.symbol.toList := by decide
      rcases all r hr with h | h | h
      · exact zero h
      · exact one h
      · exact h word
    have literal := Rule.Spelling.Requires.literal (s := Rule.readable) word unlike
    rwa [String.ofList_toList] at literal

theorem denotes (h : d.Proper types) (plain : ∀ t ∈ types, PlainType t)
    (word : Text.Word Rule.isTypeChar type.toList) :
    Rule.readable.Denotes (d.phrase type) d.given none where
  type := word
  slot := by
    have inside : topSlots ⊆ Sprite.slots := by decide
    exact inside h.slot
  nonempty := by
    intro none
    have above := h.above
    rw [List.map_eq_nil_iff.mp none] at above
    exact List.not_mem_nil above
  tokens := by
    refine ⟨List.forall₂_map_left_iff.mpr (List.forall₂_same.mpr fun c hc => ?_), h.once⟩
    have token : c.token.toList = c.path.code ++ ':' :: c.requirement.symbol.toList := by
      simp [Constraint.token]
    rw [token]
    exact .path (h.paths c hc) (requires_written plain (h.requirements c hc))
  band := .none

theorem ofName_name (h : d.Proper types) (plain : ∀ t ∈ types, PlainType t)
    (word : Text.Word Rule.isTypeChar type.toList) :
    Rule.ofName (d.name type) = .ok (d.rule type) := by
  have accepted := Rule.accepted_of_readable (denotes h plain word)
  exact Rule.ofName_eq_ok_iff.mpr ⟨d.phrase type, d.given, none, accepted, names type d, rfl⟩

@[simp] theorem rule_type : (d.rule type).type = type := String.ofList_toList

end Demand

end Autotile.Atlas
