import Autotile.Proofs.Choice.Selection
import Autotile.Proofs.Rule.NormalForm
import Mathlib.Algebra.BigOperators.Group.Finset.Piecewise
import Mathlib.Algebra.Order.BigOperators.Group.Finset

/-! # Specific rules

A rule refines another if along every path it lets nothing stand that the other would not let stand.
The score is to tell how specific a rule is, so it should not drop. It can, for one reason: an empty
cell belongs to no family, but to ask for an empty cell weighs less than to ask for none of the
family. -/
namespace Autotile

/-! ## Requirements -/

theorem family_append_mark (own variant : String) :
    family (own ++ "_" ++ variant) = family own := by
  have marked : "_".toList = [familyMark] := rfl
  rw [family, family, String.toList_append, String.toList_append, marked, List.append_assoc,
    List.singleton_append]
  congr 1
  induction own.toList with
  | nil => simp
  | cons c cs ih => simp only [List.cons_append, List.takeWhile_cons, ih]

theorem family_cons_ne (own : String) : family ("x" ++ own) ≠ family own := by
  intro same
  have lengths := congrArg (fun s => s.toList.length) same
  simp [family, familyMark] at lengths

namespace Requirement

variable {own : String} {r s : Requirement}

theorem weight_le_six (r : Requirement) : r.weight ≤ 6 := by
  cases r <;> simp [weight]

theorem weight_le_of_entails
    (entails : ∀ content, content ≠ some "" → r.Admits own content → s.Admits own content) :
    s.weight ≤ r.weight ∨ r = .empty ∧ s = .otherFamily := by
  -- What tells requirements apart: nothing, two types of the family, and one of another.
  have vacant := entails none (by simp)
  have kin (variant : String) := entails (some (own ++ "_" ++ variant)) (by simp)
  have stranger := entails (some ("x" ++ own)) (by simp)
  have alike (variant : String) := family_append_mark own variant
  have other := family_cons_ne own
  have two {t : String} (every : ∀ variant, (exactly t).Admits own (some (own ++ "_" ++ variant))) :
      False := by
    have same := Option.some.inj ((every "a").trans (every "b").symm)
    rw [String.append_right_inj] at same
    exact absurd same (by decide)
  cases r with
  | exactly t => exact Or.inl s.weight_le_six
  | any =>
    have vacant := vacant trivial
    have kin := kin "a" trivial
    cases s <;> simp [Admits, weight, alike] at vacant kin ⊢
  | empty =>
    have vacant := vacant rfl
    cases s <;> simp [Admits, weight] at vacant ⊢
  | occupied =>
    have kin variant := kin variant ⟨_, rfl⟩
    have stranger := stranger ⟨_, rfl⟩
    cases s with
    | exactly t => exact (two kin).elim
    | _ => simp [Admits, weight, alike, other] at kin stranger ⊢
  | sameFamily =>
    have kin variant := kin variant ⟨_, rfl, alike variant⟩
    cases s with
    | exactly t => exact (two kin).elim
    | _ => simp [weight]
  | otherFamily =>
    have vacant := vacant (by simp [Admits])
    cases s <;> simp [Admits, weight] at vacant ⊢

end Requirement

/-! ## Rules -/

namespace Rule

variable {own : String} {r s : Rule} {p : Path} {content : Option String}

def Permits (r : Rule) (own : String) (p : Path) (content : Option String) : Prop :=
  ∀ k ∈ r.constraints, k.path = p → k.requirement.Admits own content

/-- Whatever type stands along a path, or none, what suits the rule suits the other. -/
def Refines (own : String) (r s : Rule) : Prop :=
  ∀ p content, content ≠ some "" → r.Permits own p content → s.Permits own p content

def demand (r : Rule) (p : Path) : Requirement :=
  ((r.constraints.find? (·.path = p)).map (·.requirement)).getD .any

def paths (r : Rule) : Finset Path := (r.constraints.map (·.path)).toFinset

/-- The paths along which the rule asks for an empty cell, and the other for none of the family. -/
def outweighed (r s : Rule) : Finset Path :=
  s.paths.filter fun p => r.demand p = .empty ∧ s.demand p = .otherFamily

theorem demand_of_not_mem (absent : p ∉ r.paths) : r.demand p = .any := by
  have none : r.constraints.find? (·.path = p) = none := by
    rw [List.find?_eq_none]
    intro k hk same
    refine absent (List.mem_toFinset.mpr (List.mem_map.mpr ⟨k, hk, ?_⟩))
    simpa using same
  rw [demand, none]
  rfl

namespace WellFormed

theorem once (h : r.WellFormed) : (r.constraints.map (·.path)).Nodup := h.tokens.2

theorem demand_path (h : r.WellFormed) {k : Constraint} (hk : k ∈ r.constraints) :
    r.demand k.path = k.requirement := by
  cases found : r.constraints.find? (·.path = k.path) with
  | none => simpa using List.find?_eq_none.mp found k hk
  | some j =>
    have same : j.path = k.path := by simpa using List.find?_some found
    have unique : j = k :=
      List.inj_on_of_nodup_map h.once (List.mem_of_find?_eq_some found) hk same
    rw [demand, found, unique]
    rfl

theorem permits_iff (h : r.WellFormed) :
    r.Permits own p content ↔ (r.demand p).Admits own content := by
  constructor
  · intro permits
    by_cases here : p ∈ r.paths
    · obtain ⟨k, hk, rfl⟩ := List.mem_map.mp (List.mem_toFinset.mp here)
      rw [h.demand_path hk]
      exact permits k hk rfl
    · rw [demand_of_not_mem here]
      trivial
  · intro admits k hk same
    rw [← h.demand_path hk, same]
    exact admits

theorem score_eq (h : r.WellFormed) : r.score = ∑ p ∈ r.paths, (r.demand p).weight := by
  calc r.score
      = (r.constraints.map Constraint.weight).sum := by
        rw [h.score, List.sum_eq_foldl, List.foldl_map]
    _ = ((r.constraints.map (·.path)).map fun p => (r.demand p).weight).sum := by
        rw [List.map_map]
        refine congrArg List.sum (List.map_congr_left fun k hk => ?_)
        rw [Function.comp_apply, h.demand_path hk, Constraint.weight]
    _ = ∑ p ∈ r.paths, (r.demand p).weight := (List.sum_toFinset _ h.once).symm

theorem sum_demand_le (h : r.WellFormed) (ps : Finset Path) :
    ∑ p ∈ ps, (r.demand p).weight ≤ r.score := by
  rw [h.score_eq]
  refine Finset.sum_le_sum_of_ne_zero fun p _ weighs => ?_
  by_contra absent
  rw [demand_of_not_mem absent] at weighs
  exact weighs rfl

theorem weight_demand_le (h : r.WellFormed) (h' : s.WellFormed) (refines : r.Refines own s)
    (p : Path) : (s.demand p).weight ≤ (r.demand p).weight ∨
      r.demand p = .empty ∧ s.demand p = .otherFamily := by
  have entails (content : Option String) (named : content ≠ some "")
      (admits : (r.demand p).Admits own content) : (s.demand p).Admits own content :=
    h'.permits_iff.mp (refines p content named (h.permits_iff.mpr admits))
  exact Requirement.weight_le_of_entails entails

/-- A rule that refines another scores no less but for the paths where it is outweighed, and there
by one. -/
theorem score_le_of_refines (h : r.WellFormed) (h' : s.WellFormed) (refines : r.Refines own s) :
    s.score ≤ r.score + (r.outweighed s).card := by
  have each (p : Path) : (s.demand p).weight ≤ (r.demand p).weight +
      if r.demand p = .empty ∧ s.demand p = .otherFamily then 1 else 0 := by
    rcases h.weight_demand_le h' refines p with le | ⟨empty, other⟩
    · exact Nat.le_add_right_of_le le
    · simp [empty, other, Requirement.weight]
  calc s.score
      = ∑ p ∈ s.paths, (s.demand p).weight := h'.score_eq
    _ ≤ ∑ p ∈ s.paths, ((r.demand p).weight +
          if r.demand p = .empty ∧ s.demand p = .otherFamily then 1 else 0) :=
        Finset.sum_le_sum fun p _ => each p
    _ = ∑ p ∈ s.paths, (r.demand p).weight + (r.outweighed s).card := by
        rw [Finset.sum_add_distrib, outweighed, Finset.card_filter]
    _ ≤ r.score + (r.outweighed s).card := Nat.add_le_add_right (h.sum_demand_le s.paths) _

end WellFormed

theorem permits_single {d : Direction} {a : Requirement}
    (listed : r.constraints = arrange [⟨[d], a⟩]) :
    r.Permits own p content ↔ ([d] = p → a.Admits own content) := by
  have once : ([⟨[d], a⟩].map Constraint.path).Nodup := List.nodup_singleton _
  have free (path : Path) : path = p → Requirement.any.Admits own content := fun _ => trivial
  rw [Permits, listed, forall_arrange_iff once (by simp) free]
  simp

theorem refines_of_entails {d : Direction} {a b : Requirement}
    (listed : r.constraints = arrange [⟨[d], a⟩]) (listed' : s.constraints = arrange [⟨[d], b⟩])
    (entails : ∀ content, a.Admits own content → b.Admits own content) : r.Refines own s := by
  intro p content _ permits
  rw [permits_single listed] at permits
  rw [permits_single listed']
  exact fun here => entails content (permits here)

end Rule

/-! ## Choices -/

def Stage.asked (q : Query) : Stage → String
  | .strict | .ignoreUp => q.type
  | .family | .familyIgnoreUp => Autotile.family q.type

namespace Rulebook

variable {b : Rulebook} {look : Surroundings Id} {q : Query} {choice : Choice}

theorem bestOf_of_choose (chosen : (b.choose look q).run = some choice) :
    ∃ ignoreUp, (b.bestOf look (choice.stage.asked q) q).run = some (choice.rule, ignoreUp) := by
  rw [choose_run] at chosen
  cases own : (b.bestOf look q.type q).run with
  | some found =>
    obtain ⟨r, up⟩ := found
    rw [own] at chosen
    obtain rfl := Option.some.inj chosen
    exact ⟨up, by cases up <;> exact own⟩
  | none =>
    simp only [own, Option.ite_none_left_eq_some, Option.map_eq_some_iff] at chosen
    obtain ⟨-, ⟨r, up⟩, ofFamily, rfl⟩ := chosen
    exact ⟨up, by cases up <;> exact ofFamily⟩

theorem choice_isBest (hb : b.Ordered) (chosen : (b.choose look q).run = some choice) {r : Rule}
    (fits : b.Fits look q (choice.stage.asked q) false r) :
    IsBest (b.Fits look q (choice.stage.asked q) false) choice.rule := by
  obtain ⟨ignoreUp, found⟩ := bestOf_of_choose chosen
  obtain ⟨-, spec⟩ := bestOf_spec hb look q (choice.stage.asked q)
  obtain ⟨best, noStrict⟩ := spec _ _ found
  cases ignoreUp with
  | false => exact best
  | true => exact absurd fits (noStrict rfl r)

/-- Of two rules that were read, the one that refines the other for tiles of the type scores at
least as high, less one for every path where it asks for an empty cell and the other for none of the
family. Where there is no such path, and both stand in the bucket from which the other is chosen,
they score the same and their names decided. -/
theorem refining_rule_scores_at_least (shelves : List (String × List (String × List Rule)))
    (look : Surroundings Id) (q : Query) (type : String) {r s : Rule}
    (read : Rule.ofName r.name = .ok r) (read' : Rule.ofName s.name = .ok s)
    (candidate : r ∈ (ofShelves shelves).candidates type q.slot)
    (valid : r.Valid look q false) (refines : r.Refines q.type s) :
    s.score ≤ r.score + (r.outweighed s).card ∧
      (r.outweighed s = ∅ → s.score ≤ r.score ∧
        ∀ choice, ((ofShelves shelves).choose look q).run = some choice →
          choice.stage.asked q = type → choice.rule = s → s.score = r.score ∧ s.name ≤ r.name) := by
  have atMost : s.score ≤ r.score + (r.outweighed s).card :=
    (Rule.wellFormed_of_read read).score_le_of_refines (Rule.wellFormed_of_read read') refines
  refine ⟨atMost, fun balanced => ?_⟩
  rw [balanced, Finset.card_empty, Nat.add_zero] at atMost
  refine ⟨atMost, ?_⟩
  rintro choice chosen rfl rfl
  have fits : (ofShelves shelves).Fits look q (choice.stage.asked q) false r :=
    ⟨nofun, candidate, valid⟩
  have best := choice_isBest (ofShelves_ordered shelves) chosen fits
  have score := Nat.le_antisymm atMost (best.score_le r fits)
  exact ⟨score, best.name_le r fits score.symm⟩

/-- Dirt to the north is no rock to the north: the rule that names the type is chosen. -/
theorem refining_rule_scores_at_least_dirt :
    let named : Rule :=
      ⟨"rock-12-ndirt", "rock", "12", Rule.arrange [⟨[.north], .exactly "dirt"⟩], none, 6⟩
    let foreign : Rule :=
      ⟨"rock-12-n!", "rock", "12", Rule.arrange [⟨[.north], .otherFamily⟩], none, 3⟩
    let b := ofShelves [("rock", [("12", [foreign, named])])]
    let look : Surroundings Id := fun o => if o = ⟨-1, 0, 0⟩ then some "dirt" else none
    let q : Query := ⟨"rock", "12", 0⟩
    Rule.ofName named.name = .ok named ∧ Rule.ofName foreign.name = .ok foreign ∧
      named.Refines q.type foreign ∧ named.Valid look q false ∧ foreign.score ≤ named.score ∧
      ∀ choice, (b.choose look q).run = some choice → choice.stage.asked q = "rock" →
        choice.rule ≠ foreign := by
  intro named foreign b look q
  have read : Rule.ofName "rock-12-ndirt" = .ok named := rfl
  have read' : Rule.ofName "rock-12-n!" = .ok foreign := rfl
  have candidate : named ∈ b.candidates "rock" q.slot := by
    rw [candidates_ofShelves]
    exact List.mem_mergeSort.mpr (List.mem_cons_of_mem _ List.mem_cons_self)
  have valid : named.Valid look q false :=
    (Rule.holds_iff look q false named).mp (by decide +kernel)
  have refines : named.Refines q.type foreign := by
    refine Rule.refines_of_entails rfl rfl fun content dirt type rock => ?_
    obtain rfl := Option.some.inj (dirt.symm.trans rock)
    decide
  have balanced : named.outweighed foreign = ∅ := by decide
  obtain ⟨-, settled⟩ :=
    refining_rule_scores_at_least _ look q "rock" read read' candidate valid refines
  obtain ⟨score, chosen⟩ := settled balanced
  refine ⟨read, read', refines, valid, score, fun choice picked asked same => ?_⟩
  exact absurd (chosen choice picked asked same).1 (by decide)

/-- To ask for an empty cell to the north is to ask for more than for no rock to the north, and it
scores less. -/
theorem refining_rule_may_score_less :
    ¬∀ (shelves : List (String × List (String × List Rule))) (look : Surroundings Id) (q : Query)
      (type : String) (r s : Rule), Rule.ofName r.name = .ok r → Rule.ofName s.name = .ok s →
      r ∈ (ofShelves shelves).candidates type q.slot →
      s ∈ (ofShelves shelves).candidates type q.slot → r.elevation = none → s.elevation = none →
      r.Valid look q false → s.Valid look q false → r.Refines q.type s → s.score ≤ r.score := by
  intro scores
  let bare : Rule := ⟨"rock-12-n0", "rock", "12", Rule.arrange [⟨[.north], .empty⟩], none, 2⟩
  let foreign : Rule :=
    ⟨"rock-12-n!", "rock", "12", Rule.arrange [⟨[.north], .otherFamily⟩], none, 3⟩
  let look : Surroundings Id := .empty
  let q : Query := ⟨"rock", "12", 0⟩
  have candidate (r : Rule) (hr : r ∈ [bare, foreign]) :
      r ∈ (ofShelves [("rock", [("12", [bare, foreign])])]).candidates "rock" q.slot := by
    rw [candidates_ofShelves]
    exact List.mem_mergeSort.mpr hr
  have refines : bare.Refines q.type foreign := by
    refine Rule.refines_of_entails rfl rfl fun content none type some => ?_
    exact nomatch none.symm.trans some
  have read : Rule.ofName "rock-12-n0" = .ok bare := rfl
  have read' : Rule.ofName "rock-12-n!" = .ok foreign := rfl
  have less := scores _ look q "rock" bare foreign read read' (candidate bare (by simp))
    (candidate foreign (by simp)) rfl rfl
    ((Rule.holds_iff look q false bare).mp (by decide +kernel))
    ((Rule.holds_iff look q false foreign).mp (by decide +kernel)) refines
  exact absurd less (by decide)

end Rulebook

end Autotile
