import Autotile.Proofs.Atlas.Demands
import Autotile.Proofs.Choice.Composition

/-! # The atlas covers the top face

Whatever lies around a tile of the atlas, each slot of its top face has a frame whose demand is met
but for the cell above. There all frames demand the same: where the tile's family stands above,
only the corners are drawn, which may ignore it. -/
namespace Autotile

namespace Atlas

section

variable {types : List String} {look : Cell → Option String} {own : String} {d : Demand}

def Demand.Met (own : String) (look : Cell → Option String) (ignoreUp : Bool) (d : Demand) : Prop :=
  ∀ c ∈ d.given, ¬(ignoreUp = true ∧ c.path = [.up]) →
    c.requirement.Admits own (look c.offset)

def Bare (own : String) (look : Cell → Option String) : Prop :=
  bare.requirement.Admits own (look bare.offset)

namespace Demand

theorem Proper.eq_bare (h : d.Proper types) {c : Constraint} (hc : c ∈ d.given)
    (up : c.path = [.up]) : c = bare :=
  List.inj_on_of_nodup_map h.once hc h.above up

theorem Proper.met_iff (h : d.Proper types) :
    d.Met own look false ↔ d.Met own look true ∧ Bare own look := by
  constructor
  · intro met
    exact ⟨fun c hc _ => met c hc nofun, met bare h.above nofun⟩
  · rintro ⟨met, above⟩ c hc -
    by_cases up : c.path = [.up]
    · rw [h.eq_bare hc up]
      exact above
    · exact met c hc fun ignored => up ignored.2

theorem Proper.valid_rule_iff (h : d.Proper types) {type : String} {q : Query} {ignoreUp : Bool} :
    (d.rule type).Valid look q ignoreUp ↔ d.Met q.type look ignoreUp := by
  have arranged := Rule.forall_arrange_iff h.once h.paths
    (P := fun c => ¬(ignoreUp = true ∧ c.path = [.up]) →
      c.requirement.Admits q.type (look c.offset)) fun _ _ => trivial
  constructor
  · exact fun valid => arranged.mp valid.constraints
  · exact fun met => ⟨nofun, arranged.mpr met⟩

end Demand

def Covered (types : List String) (own : String) (look : Cell → Option String) (slot : String) :
    Prop :=
  ∃ d ∈ demands types, d.slot = slot ∧ d.Met own look true

theorem met_bare (rest : List Constraint) {slot : String}
    (h : ∀ c ∈ rest, c.requirement.Admits own (look c.offset)) :
    Demand.Met own look true ⟨slot, rest ++ [bare]⟩ := by
  intro c hc below
  rcases List.mem_append.mp hc with hc | hc
  · exact h c hc
  · obtain rfl := List.mem_singleton.mp hc
    exact absurd ⟨rfl, rfl⟩ below

variable {slot : String} {side : Direction}

theorem neighbor_mem {n : String} {rest : List Constraint} (hn : n ∈ types)
    (h : (slot, side, rest) ∈ besides) :
    ⟨slot, ⟨[side], .exactly n⟩ :: rest⟩ ∈ demands types :=
  List.mem_append_right _ (List.mem_flatMap.mpr ⟨n, hn, List.mem_map.mpr ⟨_, h, rfl⟩⟩)

theorem upper_covered (inside : ∀ o t, look o = some t → t ∈ types)
    (h : (slot, side) ∈ upperSides) : Covered types own look slot := by
  cases beside : look (Path.offset [side]) with
  | none =>
    refine ⟨⟨slot, [⟨[side], .empty⟩, bare]⟩, ?_, rfl, met_bare [_] ?_⟩
    · simp only [demands, fixedDemands, List.mem_append]
      exact Or.inl (Or.inl (Or.inl (Or.inr (List.mem_map.mpr ⟨_, h, rfl⟩))))
    · exact List.forall_mem_singleton.mpr beside
  | some n =>
    cases higher : look (Path.offset [side, .up]) with
    | none =>
      refine ⟨⟨slot, [⟨[side], .exactly n⟩, ⟨[side, .up], .empty⟩, bare]⟩,
        neighbor_mem (inside _ n beside) ?_, rfl, met_bare [_, _] ?_⟩
      · exact List.mem_append_left _ (List.mem_map.mpr ⟨_, h, rfl⟩)
      · exact List.forall_mem_cons.mpr ⟨beside, List.forall_mem_singleton.mpr higher⟩
    | some t =>
      refine ⟨⟨slot, [⟨[side], .occupied⟩, ⟨[side, .up], .occupied⟩, bare]⟩, ?_, rfl,
        met_bare [_, _] ?_⟩
      · simp only [demands, fixedDemands, List.mem_append]
        exact Or.inl (Or.inr (List.mem_map.mpr ⟨_, h, rfl⟩))
      · exact List.forall_mem_cons.mpr ⟨⟨n, beside⟩, List.forall_mem_singleton.mpr ⟨t, higher⟩⟩

theorem lower_covered (inside : ∀ o t, look o = some t → t ∈ types)
    (h : (slot, side) ∈ lowerSides) : Covered types own look slot := by
  by_cases same : ∃ n, look (Path.offset [side]) = some n ∧ family n = family own
  · obtain ⟨n, beside, -⟩ := same
    refine ⟨⟨slot, [⟨[side], .exactly n⟩, bare]⟩, neighbor_mem (inside _ n beside) ?_, rfl,
      met_bare [_] ?_⟩
    · exact List.mem_append_right _ (List.mem_map.mpr ⟨_, h, rfl⟩)
    · exact List.forall_mem_singleton.mpr beside
  · refine ⟨⟨slot, [⟨[side], .otherFamily⟩, bare]⟩, ?_, rfl, met_bare [_] ?_⟩
    · simp only [demands, fixedDemands, List.mem_append]
      exact Or.inl (Or.inl (Or.inr (List.mem_map.mpr ⟨_, h, rfl⟩)))
    · exact List.forall_mem_singleton.mpr fun n beside family => same ⟨n, beside, family⟩

theorem top_covered (inside : ∀ o t, look o = some t → t ∈ types) (h : slot ∈ topSlots) :
    Covered types own look slot := by
  have sided : ∀ slot ∈ topSlots,
      (∃ s ∈ upperSides, s.1 = slot) ∨ ∃ s ∈ lowerSides, s.1 = slot := by
    decide
  rcases sided slot h with ⟨⟨_, side⟩, upper, rfl⟩ | ⟨⟨_, side⟩, lower, rfl⟩
  · exact upper_covered inside upper
  · exact lower_covered inside lower

end

/-! ## The rulebook of the atlas -/

/-- The rules of the rulebook are those of the frames of a list of types. -/
structure Indexed (types : List String) (b : Rulebook) : Prop where
  ordered : b.Ordered
  candidates : ∀ type slot r, r ∈ b.candidates type slot ↔
    type ∈ types ∧ ∃ d ∈ demands types, d.slot = slot ∧ d.rule type = r

section

variable {types : List String}

theorem readFrom_frames (plain : ∀ t ∈ types, PlainType t) {r : Rule} :
    Rule.ReadFrom ((frames types).map Prod.fst) r ↔
      ∃ type ∈ types, ∃ d ∈ demands types, d.rule type = r := by
  constructor
  · rintro ⟨name, hname, read⟩
    obtain ⟨type, ht, d, hd, rfl⟩ := mem_names_frames.mp hname
    rw [Demand.ofName_name (proper_of_mem hd) plain (plain type ht).1] at read
    exact ⟨type, ht, d, hd, Except.ok.inj read⟩
  · rintro ⟨type, ht, d, hd, rfl⟩
    exact ⟨d.name type, mem_names_frames.mpr ⟨type, ht, d, hd, rfl⟩,
      Demand.ofName_name (proper_of_mem hd) plain (plain type ht).1⟩

theorem builds (plain : ∀ t ∈ types, PlainType t) :
    ∃ book c, (do Intake.addTopFaces types; Intake.build : Intake Rulebook) {} = .ok book c ∧
      Indexed types book := by
  have calm : ∀ name ∈ (frames types).map Prod.fst, ¬Rule.Escapes name := by
    intro name hname
    obtain ⟨type, ht, d, hd, rfl⟩ := mem_names_frames.mp hname
    rw [← Rule.escaped_ofName_iff, Demand.ofName_name (proper_of_mem hd) plain (plain type ht).1]
    exact Rule.not_escaped_ok _
  obtain ⟨c, listed, collects⟩ := Intake.addList_collects .empty calm
  have read : Intake.addTopFaces types {} = .ok () c := by
    rw [Intake.addTopFaces_eq, ← listed, List.map_map]
    rfl
  obtain ⟨notices, built⟩ := Intake.build_eq c
  refine ⟨_, _, (bind_of_ok read fun _ => Intake.build).trans built, ?_, ?_⟩
  · exact Rulebook.ofShelves_ordered _
  · intro type slot r
    rw [Rulebook.mem_candidates_ofRules, collects.accepted, List.nil_append, readFrom_frames plain]
    constructor
    · rintro ⟨⟨type, ht, d, hd, rfl⟩, rfl, rfl⟩
      rw [Demand.rule_type]
      exact ⟨ht, d, hd, rfl, rfl⟩
    · rintro ⟨ht, d, hd, rfl, rfl⟩
      exact ⟨⟨type, ht, d, hd, rfl⟩, Demand.rule_type, rfl⟩

variable {b : Rulebook} {look : Surroundings Id} {q : Query}

/-- A slot is drawn if it is of the top face and either nothing of the family stands above or it may
ignore what does. -/
theorem Indexed.chosen_iff (h : Indexed types b) (inside : ∀ o t, look o = some t → t ∈ types)
    (ht : q.type ∈ types) : (b.choose look q).run ≠ none ↔
      q.slot ∈ topSlots ∧ (Bare q.type look ∨ q.slot ∈ Sprite.upperCorners) := by
  have fits : ∀ type ignoreUp r, b.Fits look q type ignoreUp r →
      q.slot ∈ topSlots ∧ (Bare q.type look ∨ q.slot ∈ Sprite.upperCorners) := by
    intro type ignoreUp r fits
    obtain ⟨-, d, hd, slot, rfl⟩ := (h.candidates type q.slot r).mp fits.candidate
    have proper := proper_of_mem hd
    refine ⟨slot ▸ proper.slot, ?_⟩
    cases ignoreUp with
    | true => exact Or.inr (fits.corner rfl)
    | false => exact Or.inl (proper.met_iff.mp (proper.valid_rule_iff.mp fits.valid)).2
  rw [Ne, Rulebook.no_choice_iff h.ordered]
  constructor
  · intro some
    obtain ⟨stage, r, eligible⟩ : ∃ stage r, b.Eligible look q stage r := by
      simpa only [not_forall, not_not] using some
    cases stage with
    | strict => exact fits _ _ _ eligible
    | ignoreUp => exact fits _ _ _ eligible
    | family => exact fits _ _ _ eligible.2
    | familyIgnoreUp => exact fits _ _ _ eligible.2
  · rintro ⟨top, drawn⟩ none
    have covered : Covered types q.type look q.slot := top_covered inside top
    obtain ⟨d, hd, slot, met⟩ := covered
    have proper := proper_of_mem hd
    have candidate := (h.candidates q.type q.slot _).mpr ⟨ht, d, hd, slot, rfl⟩
    rcases drawn with above | corner
    · have strict := proper.met_iff.mpr ⟨met, above⟩
      exact none .strict _ ⟨nofun, candidate, proper.valid_rule_iff.mpr strict⟩
    · exact none .ignoreUp _ ⟨fun _ => corner, candidate, proper.valid_rule_iff.mpr met⟩

end

/-- A rulebook is made of the frames for any list of types. Whatever types of the list lie around a
tile of the list, it covers the top face, and only the corners where its family stands above. -/
theorem top_face_covered {types : List String} (plain : ∀ t ∈ types, PlainType t) :
    ∃ book c, (do Intake.addTopFaces types; Intake.build : Intake Rulebook) {} = .ok book c ∧
      ∀ type ∈ types, ∀ look : Surroundings Id, (∀ o t, (look o).run = some t → t ∈ types) →
        ∀ elevation : Int,
          let above := (look Direction.up.offset).run
          let placed := (book.compose look type elevation).run.map (·.slot)
          ((∀ t, above = some t → family t ≠ family type) →
            placed = ["11", "12", "13", "14", "21", "22", "23", "24"]) ∧
          ∀ t, above = some t → family t = family type → placed = ["11", "14", "21", "24"] := by
  obtain ⟨book, c, built, indexed⟩ := builds plain
  refine ⟨book, c, built, ?_⟩
  intro type ht look inside elevation above placed
  have slots (listed : List String) (same : ∀ slot, slot ∈ listed ↔
      slot ∈ topSlots ∧ (Bare type look ∨ slot ∈ Sprite.upperCorners)) :
      placed = Sprite.slots.filter (· ∈ listed) := by
    refine (book.slots_compose look type elevation).trans (List.filter_congr fun slot _ => ?_)
    rw [Bool.eq_iff_iff, Option.isSome_iff_ne_none, decide_eq_true_eq, same]
    exact indexed.chosen_iff inside ht
  constructor
  · intro other
    refine (slots topSlots fun slot => ?_).trans (by decide)
    exact (and_iff_left (Or.inl other)).symm
  · intro t stands same
    have corners : Sprite.upperCorners ⊆ topSlots := by decide
    refine (slots Sprite.upperCorners fun slot => ?_).trans (by decide)
    rw [or_iff_right fun other : Bare type look => other t stands same]
    exact (and_iff_right_of_imp fun corner => corners corner).symm

/-- Dirt with a stack of rocks to the north and its own family to the south is drawn whole; with
its family above as well, only its corners are. -/
theorem top_face_covered_dirt_among_rocks :
    let types := ["dirt", "dirt_grass", "rock"]
    let around (cells : List (Cell × String)) : Surroundings Id := fun o => cells.lookup o
    let sides : List (Cell × String) :=
      [(⟨-1, 0, 0⟩, "rock"), (⟨-1, 0, 1⟩, "rock"), (⟨1, 0, 0⟩, "dirt_grass")]
    (∀ t ∈ types, PlainType t) ∧
      ∃ book c, (do Intake.addTopFaces types; Intake.build : Intake Rulebook) {} = .ok book c ∧
        (book.compose (around sides) "dirt" 0).run.map (·.slot) =
          ["11", "12", "13", "14", "21", "22", "23", "24"] ∧
        (book.compose (around ((⟨0, 0, 1⟩, "dirt_grass") :: sides)) "dirt" 0).run.map (·.slot) =
          ["11", "14", "21", "24"] := by
  intro types around sides
  have plain : ∀ t ∈ types, PlainType t := by decide
  have inside (cells : List (Cell × String)) (known : ∀ e ∈ cells, e.2 ∈ types) :
      ∀ o t, (around cells o).run = some t → t ∈ types :=
    fun o t found => known (o, t) (mem_of_lookup found)
  have dirt : "dirt" ∈ types := by decide
  obtain ⟨book, c, built, covers⟩ := top_face_covered plain
  refine ⟨plain, book, c, built, ?_, ?_⟩
  · refine (covers "dirt" dirt (around sides) (inside _ (by decide)) 0).1 fun t stands => ?_
    have nothing : sides.lookup Direction.up.offset = none := by decide
    exact absurd (nothing.symm.trans stands) nofun
  · exact (covers "dirt" dirt (around _) (inside _ (by decide)) 0).2 "dirt_grass" rfl (by decide)

end Atlas

end Autotile
