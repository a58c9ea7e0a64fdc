import Mathlib.Data.List.TakeWhile
import Autotile.Proofs.Choice.Locality
import Autotile.Proofs.Choice.Selection

/-! # Families in choosing

Rules see a type by its family, but for those that ask for exactly this type. So the rules of a
family are judged for a variant just as they are for the family itself, and neighbours of one family
can stand for each other where no rule names them. -/
namespace Autotile

theorem family_family (type : String) : family (family type) = family type := by
  rw [family, family, String.toList_ofList, List.takeWhile_idem]

theorem sameFamily_family (content : Option String) (own : String) :
    sameFamily content (some (family own)) = sameFamily content (some own) := by
  cases content <;> simp [sameFamily, family_family]

theorem sameFamily_congr {s t : String} (kin : family s = family t) (own : Option String) :
    sameFamily (some s) own = sameFamily (some t) own := by
  cases own <;> simp [sameFamily, kin]

namespace Requirement

theorem met_family (own : String) (content : Option String) (r : Requirement) :
    r.met (family own) content = r.met own content := by
  cases r <;> simp only [met, sameFamily_family]

theorem met_congr {own s t : String} {r : Requirement} (kin : family s = family t)
    (unnamed : s ≠ t → r ≠ .exactly s ∧ r ≠ .exactly t) :
    r.met own (some s) = r.met own (some t) := by
  by_cases differ : s = t
  · rw [differ]
  obtain ⟨first, second⟩ := unnamed differ
  cases r with
  | any | empty | occupied => rfl
  | sameFamily | otherFamily => simp only [met, sameFamily_congr kin]
  | exactly type =>
    have apart : s ≠ type ∧ t ≠ type :=
      ⟨fun same => first (same ▸ rfl), fun same => second (same ▸ rfl)⟩
    simp [met, apart]

end Requirement

namespace Rulebook

section Variants

variable {b : Rulebook} {look : Surroundings Id} {q : Query}

theorem bestOf_family (b : Rulebook) (look : Surroundings Id) (q : Query) :
    b.bestOf look (family q.type) { q with type := family q.type } =
      b.bestOf look (family q.type) q := by
  refine bestOf_congr rfl rfl fun r _ k _ => ?_
  exact k.requirement.met_family q.type (look k.offset)

theorem choose_of_root (root : family q.type = q.type) : (b.choose look q).run =
    (b.bestOf look q.type q).run.map fun found =>
      ⟨found.1, if found.2 then .ignoreUp else .strict⟩ := by
  rw [choose_run, if_pos root]
  cases (b.bestOf look q.type q).run <;> rfl

theorem choose_of_variant (variant : family q.type ≠ q.type)
    (bare : ∀ ignoreUp r, ¬b.Fits look q q.type ignoreUp r) : (b.choose look q).run =
      (b.bestOf look (family q.type) q).run.map fun found =>
        ⟨found.1, if found.2 then .familyIgnoreUp else .family⟩ := by
  rw [choose_run, bestOf_eq_none_iff.mpr bare]
  exact if_neg variant

/-- Where none of its own rules fits, a variant gets what its family gets: nothing if that gets
nothing, and otherwise the same rule at a cost of one, with the cell above ignored for both or for
neither. -/
theorem variant_gets_what_family_gets (b : Rulebook) (look : Surroundings Id) (q : Query)
    (variant : family q.type ≠ q.type) (bare : ∀ ignoreUp r, ¬b.Fits look q q.type ignoreUp r) :
    let ofFamily := (b.choose look { q with type := family q.type }).run
    let ofVariant := (b.choose look q).run
    (ofVariant = none ↔ ofFamily = none) ∧
      ∀ own, ofFamily = some own → ∃ found, ofVariant = some found ∧
        found.rule = own.rule ∧ found.score = own.score - 1 ∧
        (own.stage.label? = none ∧ found.stage.label? = some "family" ∨
          own.stage.label? = some "ignore_up" ∧
            found.stage.label? = some "family_ignore_up") := by
  intro ofFamily ofVariant
  have root : ofFamily = (b.bestOf look (family q.type) q).run.map fun found =>
      ⟨found.1, if found.2 then .ignoreUp else .strict⟩ := by
    rw [← bestOf_family]
    exact choose_of_root (family_family q.type)
  have fallback : ofVariant = (b.bestOf look (family q.type) q).run.map fun found =>
      ⟨found.1, if found.2 then .familyIgnoreUp else .family⟩ := choose_of_variant variant bare
  constructor
  · rw [fallback, root, Option.map_eq_none_iff, Option.map_eq_none_iff]
  · intro own chosen
    rw [root] at chosen
    obtain ⟨⟨rule, ignoredUp⟩, best, rfl⟩ := Option.map_eq_some_iff.mp chosen
    rw [fallback, best]
    refine ⟨_, rfl, rfl, ?_, ?_⟩
    · cases ignoredUp <;> simp [Choice.score, Stage.penalty]
    · cases ignoredUp
      · exact Or.inl ⟨rfl, rfl⟩
      · exact Or.inr ⟨rfl, rfl⟩

/-- The variant has a rule, which does not fit; the rule of its family fits if the mud above is
ignored. -/
theorem variant_gets_what_family_gets_slope :
    let slope : Rule :=
      ⟨"slope", "dirt", "21", [⟨[.up], .empty⟩, ⟨[.east], .sameFamily⟩], none, 5⟩
    let book : Rulebook := ⟨[("dirt", [("21", [slope])]), ("dirt_grass", [("21",
      [⟨"tuft", "dirt_grass", "21", [⟨[.east], .exactly "rock"⟩], none, 6⟩])])]⟩
    let look : Surroundings Id := fun o =>
      if o = ⟨0, 0, 1⟩ then some "mud" else if o = ⟨0, 1, 0⟩ then some "dirt_moss" else none
    let q : Query := ⟨"dirt_grass", "21", -2⟩
    family q.type ≠ q.type ∧ (∀ ignoreUp r, ¬book.Fits look q q.type ignoreUp r) ∧
      (book.choose look { q with type := family q.type }).run = some ⟨slope, .ignoreUp⟩ ∧
      ∃ found, (book.choose look q).run = some found ∧ found.rule = slope ∧ found.score = 4 ∧
        found.stage.label? = some "family_ignore_up" := by
  intro slope book look q
  have variant : family q.type ≠ q.type := by decide
  have bare : ∀ ignoreUp r, ¬book.Fits look q q.type ignoreUp r := by
    intro ignoreUp r fits
    obtain rfl := List.mem_singleton.mp fits.candidate
    have east : some "dirt_moss" = some "rock" :=
      fits.valid.constraints _ List.mem_cons_self fun up => absurd up.2 (by decide)
    exact absurd east (by decide)
  have ofFamily : (book.choose look { q with type := family q.type }).run =
      some ⟨slope, .ignoreUp⟩ := by
    decide +kernel
  refine ⟨variant, bare, ofFamily, ?_⟩
  obtain ⟨found, chosen, rule, score, labels⟩ :=
    (variant_gets_what_family_gets book look q variant bare).2 _ ofFamily
  refine ⟨found, chosen, rule, score, ?_⟩
  rcases labels with ⟨strict, -⟩ | ⟨-, label⟩
  · cases strict
  · exact label

end Variants

/-- Some rule that may be judged for the query asks for exactly this type. -/
def Names (b : Rulebook) (q : Query) (type : String) : Prop :=
  ∃ k, b.Asks q k ∧ k.requirement = .exactly type

/-- Contents of a cell that a query does not tell apart: nothing, or types of one family of which
neither is named where they differ. -/
def Akin (b : Rulebook) (q : Query) : Option String → Option String → Prop :=
  Option.Rel fun s t => family s = family t ∧ (s ≠ t → ¬b.Names q s ∧ ¬b.Names q t)

theorem Akin.met_eq {b : Rulebook} {q : Query} {k : Constraint} {content content' : Option String}
    (akin : b.Akin q content content') (asked : b.Asks q k) :
    k.met q.type content = k.met q.type content' := by
  cases akin with
  | none => rfl
  | some h =>
    obtain ⟨kin, unnamed⟩ := h
    refine Requirement.met_congr kin fun differ => ?_
    obtain ⟨first, second⟩ := unnamed differ
    exact ⟨fun same => first ⟨k, asked, same⟩, fun same => second ⟨k, asked, same⟩⟩

/-- Neighbours count by their family, unless a rule that may be judged names them: the same rule is
chosen at the same stage. -/
theorem neighbours_count_by_family (b : Rulebook) (q : Query) (look₁ look₂ : Surroundings Id)
    (akin : ∀ o, b.Akin q (look₁ o) (look₂ o)) :
    (b.choose look₁ q).run = (b.choose look₂ q).run := by
  have alike : ∀ k, b.Asks q k → k.JudgedAlike look₁ q look₂ q := fun k asked =>
    (akin k.offset).met_eq asked
  rw [choose_congr alike]

/-- Moss to the north and wet rock behind count as dirt and rock; the grass to the east is named and
stays. -/
theorem neighbours_count_by_family_moss :
    let bank : Rule := ⟨"bank", "dirt", "13", [⟨[.north], .sameFamily⟩,
      ⟨[.east], .exactly "dirt_grass"⟩, ⟨[.west, .up], .otherFamily⟩], none, 12⟩
    let book : Rulebook := ⟨[("dirt", [("13", [bank])])]⟩
    let among (north behind : String) : Surroundings Id := fun o =>
      if o = ⟨-1, 0, 0⟩ then some north else if o = ⟨0, -1, 1⟩ then some behind
      else if o = ⟨0, 1, 0⟩ then some "dirt_grass" else none
    let q : Query := ⟨"dirt_bush", "13", 0⟩
    (∀ o, book.Akin q (among "dirt" "rock" o) (among "dirt_moss" "rock_wet" o)) ∧
      (book.choose (among "dirt" "rock") q).run = some ⟨bank, .family⟩ ∧
      (book.choose (among "dirt_moss" "rock_wet") q).run = some ⟨bank, .family⟩ := by
  intro bank book among q
  have named : ∀ type, book.Names q type → type = "dirt_grass" := by
    have root : family q.type = "dirt" := by decide
    rintro type ⟨k, ⟨r, own | ofFamily, hk⟩, literal⟩
    · cases own
    · rw [root] at ofFamily
      obtain rfl := List.mem_singleton.mp ofFamily
      simp only [bank, List.mem_cons, List.not_mem_nil, or_false] at hk
      rcases hk with rfl | rfl | rfl <;> cases literal
      rfl
  have akin : ∀ o, book.Akin q (among "dirt" "rock" o) (among "dirt_moss" "rock_wet" o) := by
    have unnamed {type : String} (other : type ≠ "dirt_grass") : ¬book.Names q type :=
      fun h => other (named type h)
    intro o
    simp only [among]
    by_cases north : o = ⟨-1, 0, 0⟩
    · rw [if_pos north, if_pos north]
      exact .some ⟨by decide, fun _ => ⟨unnamed (by decide), unnamed (by decide)⟩⟩
    rw [if_neg north, if_neg north]
    by_cases behind : o = ⟨0, -1, 1⟩
    · rw [if_pos behind, if_pos behind]
      exact .some ⟨by decide, fun _ => ⟨unnamed (by decide), unnamed (by decide)⟩⟩
    rw [if_neg behind, if_neg behind]
    by_cases east : o = ⟨0, 1, 0⟩
    · rw [if_pos east]
      exact .some ⟨rfl, fun differ => absurd rfl differ⟩
    · rw [if_neg east]
      exact .none
  have shown : (book.choose (among "dirt" "rock") q).run = some ⟨bank, .family⟩ := by
    decide +kernel
  refine ⟨akin, shown, ?_⟩
  rw [← neighbours_count_by_family book q _ _ akin, shown]

end Rulebook

end Autotile
