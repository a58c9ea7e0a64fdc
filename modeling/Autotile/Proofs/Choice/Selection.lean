import Autotile.Choice
import Autotile.Proofs.Lookup

/-! # The chosen rule

Fixed surroundings tell the content of every cell and fail nowhere. What a rule demands of them
is stated without the order in which its constraints are judged. Each stage has its own eligible
rules; the choice falls on the best rule of the first stage that has any. -/
namespace Autotile

/-- What a requirement of a tile of type `own` says of a cell's content. -/
def Requirement.Admits (own : String) (content : Option String) : Requirement → Prop
  | .any => True
  | .empty => content = none
  | .occupied => ∃ t, content = some t
  | .sameFamily => ∃ t, content = some t ∧ family t = family own
  | .otherFamily => ∀ t, content = some t → family t ≠ family own
  | .exactly t => content = some t

theorem Requirement.met_iff {own : String} {content : Option String} (r : Requirement) :
    r.met own content = true ↔ r.Admits own content := by
  cases r <;> cases content <;> simp [met, Admits, Autotile.sameFamily]

theorem ElevationBand.contains_iff (band : ElevationBand) (u : Int) :
    band.contains u = true ↔ u.fmod band.modulus = (band.index : Int) - 1 := by
  rw [Int.fmod_eq_emod_of_nonneg u (Int.natCast_nonneg _)]
  simp [contains]

/-- The rule is made for the elevation and meets the surroundings; the plain constraint on the
cell above may be left out, a compound path that leads there may not. -/
structure Rule.Valid (look : Cell → Option String) (q : Query) (ignoreUp : Bool) (r : Rule) :
    Prop where
  elevation : ∀ band, r.elevation = some band →
    q.elevation.fmod band.modulus = (band.index : Int) - 1
  constraints : ∀ c ∈ r.constraints, ¬(ignoreUp = true ∧ c.path = [.up]) →
    c.requirement.Admits q.type (look c.offset)

private theorem admitsElevation_iff (r : Rule) (u : Int) :
    r.admitsElevation u = true ↔
      ∀ band, r.elevation = some band → u.fmod band.modulus = (band.index : Int) - 1 := by
  unfold Rule.admitsElevation
  cases r.elevation with
  | none => simp
  | some band => simp [ElevationBand.contains_iff]

/-- Judging in order comes to the same as judging all constraints. -/
theorem Rule.holds_iff (look : Surroundings Id) (q : Query) (ignoreUp : Bool) (r : Rule) :
    (r.holds look q ignoreUp).run = true ↔ r.Valid look q ignoreUp := by
  have judged : (r.constraints.allM (m := Id) fun c => do
      if ignoreUp && c.isUp then return true
      return c.met q.type (← look c.offset)) =
      r.constraints.all fun c => (ignoreUp && c.isUp) || c.met q.type (look c.offset) := by
    refine Eq.trans (congrArg (fun f => r.constraints.allM (m := Id) f) (funext fun c => ?_))
      (List.allM_pure (m := Id))
    cases ignoreUp && c.isUp <;> rfl
  unfold Rule.holds
  by_cases he : r.admitsElevation q.elevation = true
  · rw [if_pos he, judged]
    change (r.constraints.all _) = true ↔ _
    rw [List.all_eq_true]
    constructor
    · intro h
      refine ⟨(admitsElevation_iff r _).mp he, fun c hc hup => c.requirement.met_iff.mp ?_⟩
      have := h c hc
      simp only [Bool.or_eq_true, Bool.and_eq_true, Constraint.isUp, decide_eq_true_eq] at this
      exact this.resolve_left hup
    · intro h c hc
      simp only [Bool.or_eq_true, Bool.and_eq_true, Constraint.isUp, decide_eq_true_eq]
      by_cases hup : ignoreUp = true ∧ c.path = [.up]
      · exact Or.inl hup
      · exact Or.inr (c.requirement.met_iff.mpr (h.constraints c hc hup))
  · rw [if_neg he]
    exact ⟨fun h => (nomatch h), fun h => (he ((admitsElevation_iff r _).mpr h.elevation)).elim⟩

private theorem filterAuxM_id (p : Rule → Id Bool) (rules kept : List Rule) :
    (rules.filterAuxM p kept).run = (rules.filter fun r => (p r).run).reverse ++ kept := by
  induction rules generalizing kept with
  | nil => rfl
  | cons r rules ih =>
    change (rules.filterAuxM p (cond (p r).run (r :: kept) kept)).run = _
    rw [ih, List.filter_cons]
    cases (p r).run <;> simp

theorem filterM_id (p : Rule → Id Bool) (rules : List Rule) :
    (rules.filterM p).run = rules.filter fun r => (p r).run := by
  change ((rules.filterAuxM p []).run).reverse = _
  rw [filterAuxM_id]
  simp

/-- Nothing scores higher, and nothing that scores the same has a lesser name. -/
structure IsBest (P : Rule → Prop) (r : Rule) : Prop where
  mem : P r
  score_le : ∀ other, P other → other.score ≤ r.score
  name_le : ∀ other, P other → other.score = r.score → r.name ≤ other.name

theorem IsBest.congr {P Q : Rule → Prop} {r : Rule} (h : IsBest P r) (hpq : ∀ r, P r ↔ Q r) :
    IsBest Q r :=
  ⟨(hpq r).mp h.mem, fun o ho => h.score_le o ((hpq o).mpr ho),
    fun o ho => h.name_le o ((hpq o).mpr ho)⟩

/-- A later rule takes the lead only by a higher score, so of equal scores the first stays. -/
private theorem foldl_isBest (rules : List Rule) (first : Rule)
    (sorted : (first :: rules).Pairwise fun a b => a.name ≤ b.name) :
    IsBest (· ∈ first :: rules)
      (rules.foldl (fun best r => if best.score < r.score then r else best) first) := by
  -- the leader changes from step to step, so the induction is over every `first`
  induction rules generalizing first with
  | nil =>
    exact ⟨List.mem_cons_self, fun o ho => by simp_all, fun o ho _ => by simp_all⟩
  | cons r rules ih =>
    obtain ⟨hfirst, hrest⟩ := List.pairwise_cons.mp sorted
    rw [List.foldl_cons]
    by_cases hlt : first.score < r.score
    · rw [if_pos hlt]
      have h := ih r hrest
      have hr := h.score_le r List.mem_cons_self
      refine ⟨List.mem_cons_of_mem _ h.mem, ?_, ?_⟩
      · intro o ho
        rcases List.mem_cons.mp ho with rfl | ho
        · omega
        · exact h.score_le o ho
      · intro o ho he
        rcases List.mem_cons.mp ho with rfl | ho
        · omega
        · exact h.name_le o ho he
    · rw [if_neg hlt]
      have h := ih first (List.pairwise_cons.mpr
        ⟨fun o ho => hfirst o (List.mem_cons_of_mem _ ho), (List.pairwise_cons.mp hrest).2⟩)
      have hf := h.score_le first List.mem_cons_self
      refine ⟨?_, ?_, ?_⟩
      · rcases List.mem_cons.mp h.mem with hm | hm
        · exact List.mem_cons.mpr (Or.inl hm)
        · exact List.mem_cons_of_mem _ (List.mem_cons_of_mem _ hm)
      · intro o ho
        rcases List.mem_cons.mp ho with rfl | ho
        · exact hf
        · rcases List.mem_cons.mp ho with rfl | ho
          · omega
          · exact h.score_le o (List.mem_cons_of_mem _ ho)
      · intro o ho he
        rcases List.mem_cons.mp ho with rfl | ho
        · exact h.name_le o List.mem_cons_self he
        · rcases List.mem_cons.mp ho with rfl | ho
          · exact String.le_trans (h.name_le first List.mem_cons_self (by omega))
              (hfirst o List.mem_cons_self)
          · exact h.name_le o (List.mem_cons_of_mem _ ho) he

theorem best_isBest {rules : List Rule} {r : Rule}
    (sorted : rules.Pairwise fun a b => a.name ≤ b.name) (h : best rules = some r) :
    IsBest (· ∈ rules) r := by
  cases rules with
  | nil => simp [best] at h
  | cons first rules =>
    simp only [best, Option.some.injEq] at h
    exact h ▸ foldl_isBest rules first sorted

theorem best_eq_none_iff {rules : List Rule} : best rules = none ↔ rules = [] := by
  cases rules <;> simp [best]

theorem mergeSort_ordered {α : Type} (key : α → String) (xs : List α) :
    (xs.mergeSort fun x y => key x ≤ key y).Pairwise fun x y => key x ≤ key y := by
  have trans (x y z : α) (hxy : decide (key x ≤ key y) = true)
      (hyz : decide (key y ≤ key z) = true) : decide (key x ≤ key z) = true := by
    rw [decide_eq_true_eq] at *
    exact String.le_trans hxy hyz
  have total (x y : α) : (decide (key x ≤ key y) || decide (key y ≤ key x)) = true := by
    rw [Bool.or_eq_true, decide_eq_true_eq, decide_eq_true_eq]
    exact String.le_total (key x) (key y)
  exact (List.pairwise_mergeSort trans total xs).imp of_decide_eq_true

namespace Rulebook

structure Ordered (b : Rulebook) : Prop where
  names : ∀ type slot, (b.candidates type slot).Pairwise fun r s => r.name ≤ s.name

theorem candidates_ofShelves (shelves : List (String × List (String × List Rule)))
    (type slot : String) :
    (ofShelves shelves).candidates type slot =
      ((((shelves.lookup type).getD []).lookup slot).getD []).mergeSort Rule.nameLE := by
  have shelf : ((ofShelves shelves).shelves.lookup type).getD [] =
      ((shelves.lookup type).getD []).map fun x => (x.1, x.2.mergeSort Rule.nameLE) :=
    lookup_map_getD (f := fun buckets : List (String × List Rule) =>
      buckets.map fun x => (x.1, x.2.mergeSort Rule.nameLE)) rfl _ _
  rw [candidates, shelf]
  exact lookup_map_getD (f := fun rules => rules.mergeSort Rule.nameLE) List.mergeSort_nil _ _

theorem ofShelves_ordered (shelves : List (String × List (String × List Rule))) :
    (ofShelves shelves).Ordered := by
  refine ⟨fun type slot => ?_⟩
  rw [candidates_ofShelves]
  exact mergeSort_ordered Rule.name _

structure Fits (b : Rulebook) (look : Cell → Option String) (q : Query) (type : String)
    (ignoreUp : Bool) (r : Rule) : Prop where
  corner : ignoreUp = true → q.slot ∈ ["11", "14", "21", "24"]
  candidate : r ∈ b.candidates type q.slot
  valid : r.Valid look q ignoreUp

variable {b : Rulebook} {look : Surroundings Id} {q : Query} {type : String}

section Judged

variable {ignoreUp : Bool} (corner : ignoreUp = true → q.slot ∈ ["11", "14", "21", "24"])
include corner

private theorem mem_judged (r : Rule) :
    r ∈ ((b.candidates type q.slot).filterM (Rule.holds look q ignoreUp)).run ↔
      b.Fits look q type ignoreUp r := by
  rw [filterM_id, List.mem_filter, Rule.holds_iff]
  exact ⟨fun h => ⟨corner, h.1, h.2⟩, fun h => ⟨h.candidate, h.valid⟩⟩

private theorem best_judged_eq_none_iff :
    best ((b.candidates type q.slot).filterM (Rule.holds look q ignoreUp)).run = none ↔
      ∀ r, ¬b.Fits look q type ignoreUp r := by
  rw [best_eq_none_iff, List.eq_nil_iff_forall_not_mem]
  exact forall_congr' fun r => not_congr (mem_judged corner r)

private theorem best_judged_isBest (hb : b.Ordered) {r : Rule}
    (h : best ((b.candidates type q.slot).filterM (Rule.holds look q ignoreUp)).run = some r) :
    IsBest (b.Fits look q type ignoreUp) r := by
  refine (best_isBest ?_ h).congr (mem_judged corner)
  rw [filterM_id]
  exact (hb.names type q.slot).filter _

end Judged

theorem bestOf_run (type : String) :
    (b.bestOf look type q).run =
      match best ((b.candidates type q.slot).filterM (Rule.holds look q false)).run with
      | some rule => some (rule, false)
      | none =>
        if Sprite.upperCorners.contains q.slot then
          (best ((b.candidates type q.slot).filterM (Rule.holds look q true)).run).map (·, true)
        else none := by
  unfold bestOf
  simp only [Id.run_bind]
  cases best ((b.candidates type q.slot).filterM (Rule.holds look q false)).run with
  | some rule => rfl
  | none =>
    simp only
    by_cases hc : Sprite.upperCorners.contains q.slot = true
    · rw [if_pos hc, if_pos hc, Id.run_bind]
      cases best ((b.candidates type q.slot).filterM (Rule.holds look q true)).run <;> rfl
    · rw [if_neg hc, if_neg hc]
      rfl

theorem mem_upperCorners_iff {slot : String} :
    Sprite.upperCorners.contains slot = true ↔ slot ∈ ["11", "14", "21", "24"] := by
  simp [Sprite.upperCorners]

theorem bestOf_eq_none_iff :
    (b.bestOf look type q).run = none ↔ ∀ ignoreUp r, ¬b.Fits look q type ignoreUp r := by
  have strict : _ ↔ ∀ r, ¬b.Fits look q type false r :=
    best_judged_eq_none_iff fun h => nomatch h
  rw [bestOf_run, Bool.forall_bool, ← strict]
  cases best ((b.candidates type q.slot).filterM (Rule.holds look q false)).run with
  | some rule => simp
  | none =>
    by_cases hc : Sprite.upperCorners.contains q.slot = true
    · have loose : _ ↔ ∀ r, ¬b.Fits look q type true r :=
        best_judged_eq_none_iff fun _ => mem_upperCorners_iff.mp hc
      simp only [if_pos hc, Option.map_eq_none_iff, loose, true_and]
    · have flat : ∀ r, ¬b.Fits look q type true r := fun r h =>
        hc (mem_upperCorners_iff.mpr (h.corner rfl))
      simp only [if_neg hc, flat, not_false_eq_true, implies_true, and_self]

/-- The best rule that is strictly valid and, only where there is none, the best that is valid
when the cell above is ignored. -/
theorem bestOf_spec (hb : b.Ordered) (look : Surroundings Id) (q : Query) (type : String) :
    ((b.bestOf look type q).run = none ↔ ∀ ignoreUp r, ¬b.Fits look q type ignoreUp r) ∧
    ∀ r ignoreUp, (b.bestOf look type q).run = some (r, ignoreUp) →
      IsBest (b.Fits look q type ignoreUp) r ∧
      (ignoreUp = true → ∀ r, ¬b.Fits look q type false r) := by
  have uncornered : false = true → q.slot ∈ ["11", "14", "21", "24"] := nofun
  refine ⟨bestOf_eq_none_iff, fun r ignoreUp h => ?_⟩
  rw [bestOf_run] at h
  cases hs : best ((b.candidates type q.slot).filterM (Rule.holds look q false)).run with
  | some rule =>
    rw [hs] at h
    obtain ⟨rfl, rfl⟩ := Prod.mk.inj (Option.some.inj h)
    exact ⟨best_judged_isBest uncornered hb hs, fun h => nomatch h⟩
  | none =>
    simp only [hs] at h
    by_cases hc : Sprite.upperCorners.contains q.slot = true
    · rw [if_pos hc, Option.map_eq_some_iff] at h
      obtain ⟨rule, hl, he⟩ := h
      obtain ⟨rfl, rfl⟩ := Prod.mk.inj he
      refine ⟨best_judged_isBest (fun _ => mem_upperCorners_iff.mp hc) hb hl, fun _ => ?_⟩
      exact (best_judged_eq_none_iff uncornered).mp hs
    · rw [if_neg hc] at h
      cases h

end Rulebook

def Stage.rank : Stage → Nat
  | .strict => 0
  | .ignoreUp => 1
  | .family => 2
  | .familyIgnoreUp => 3

def Rulebook.Eligible (b : Rulebook) (look : Cell → Option String) (q : Query) :
    Stage → Rule → Prop
  | .strict, r => b.Fits look q q.type false r
  | .ignoreUp, r => b.Fits look q q.type true r
  | .family, r => family q.type ≠ q.type ∧ b.Fits look q (family q.type) false r
  | .familyIgnoreUp, r => family q.type ≠ q.type ∧ b.Fits look q (family q.type) true r

def Stage.verdict (score : Int) : Stage → Option String × Int
  | .strict => (none, score)
  | .ignoreUp => (some "ignore_up", score)
  | .family => (some "family", score - 1)
  | .familyIgnoreUp => (some "family_ignore_up", score - 1)

theorem Choice.verdict_eq (c : Choice) :
    (c.stage.label?, c.score) = c.stage.verdict c.rule.score := by
  obtain ⟨rule, stage⟩ := c
  cases stage <;> simp [Stage.label?, Choice.score, Stage.penalty, Stage.verdict]

namespace Rulebook

variable {b : Rulebook} {look : Surroundings Id} {q : Query}

theorem choose_run :
    (b.choose look q).run =
      match (b.bestOf look q.type q).run with
      | some (r, up) => some ⟨r, if up then .ignoreUp else .strict⟩
      | none =>
        if family q.type = q.type then none
        else (b.bestOf look (family q.type) q).run.map fun found =>
          ⟨found.1, if found.2 then .familyIgnoreUp else .family⟩ := by
  unfold choose
  simp only [Id.run_bind]
  cases (b.bestOf look q.type q).run with
  | some found => rfl
  | none =>
    simp only
    by_cases hf : family q.type = q.type
    · rw [if_pos hf, if_pos hf]
      rfl
    · rw [if_neg hf, if_neg hf, Id.run_bind]
      cases (b.bestOf look (family q.type) q).run <;> rfl

private theorem own_choice (hb : b.Ordered) {rule : Rule} {up : Bool}
    (h : (b.bestOf look q.type q).run = some (rule, up)) :
    let stage : Stage := if up then .ignoreUp else .strict
    IsBest (b.Eligible look q stage) rule ∧
      ∀ earlier : Stage, earlier.rank < stage.rank → ∀ r, ¬b.Eligible look q earlier r := by
  obtain ⟨_, ownBest⟩ := bestOf_spec hb look q q.type
  obtain ⟨best, noStrict⟩ := ownBest rule up h
  cases up with
  | false =>
    refine ⟨best, fun earlier lower => ?_⟩
    cases earlier <;> simp [Stage.rank] at lower
  | true =>
    refine ⟨best, fun earlier lower => ?_⟩
    cases earlier <;> simp [Stage.rank] at lower
    exact noStrict rfl

private theorem family_choice (hb : b.Ordered) (noOwn : ∀ up r, ¬b.Fits look q q.type up r)
    (hf : family q.type ≠ q.type) {rule : Rule} {up : Bool}
    (h : (b.bestOf look (family q.type) q).run = some (rule, up)) :
    let stage : Stage := if up then .familyIgnoreUp else .family
    IsBest (b.Eligible look q stage) rule ∧
      ∀ earlier : Stage, earlier.rank < stage.rank → ∀ r, ¬b.Eligible look q earlier r := by
  obtain ⟨_, familyBest⟩ := bestOf_spec hb look q (family q.type)
  obtain ⟨best, noStrict⟩ := familyBest rule up h
  have eligible : ∀ r, b.Fits look q (family q.type) up r ↔
      family q.type ≠ q.type ∧ b.Fits look q (family q.type) up r := fun r =>
    ⟨fun h => ⟨hf, h⟩, fun h => h.2⟩
  cases up with
  | false =>
    refine ⟨best.congr eligible, fun earlier lower r hr => ?_⟩
    cases earlier <;> simp [Stage.rank] at lower
    · exact noOwn false r hr
    · exact noOwn true r hr
  | true =>
    refine ⟨best.congr eligible, fun earlier lower r hr => ?_⟩
    cases earlier <;> simp [Stage.rank] at lower
    · exact noOwn false r hr
    · exact noOwn true r hr
    · exact noStrict rfl r hr.2

theorem no_choice_iff (hb : b.Ordered) :
    (b.choose look q).run = none ↔ ∀ stage r, ¬b.Eligible look q stage r := by
  obtain ⟨ownNone, _⟩ := bestOf_spec hb look q q.type
  obtain ⟨familyNone, _⟩ := bestOf_spec hb look q (family q.type)
  rw [choose_run]
  constructor
  · intro h
    cases ho : (b.bestOf look q.type q).run with
    | some found =>
      rw [ho] at h
      cases h
    | none =>
      have noOwn := ownNone.mp ho
      simp only [ho, ite_eq_left_iff, Option.map_eq_none_iff, familyNone] at h
      intro stage r
      cases stage with
      | strict => exact noOwn false r
      | ignoreUp => exact noOwn true r
      | family => exact fun hr => h hr.1 false r hr.2
      | familyIgnoreUp => exact fun hr => h hr.1 true r hr.2
  · intro h
    have noOwn : (b.bestOf look q.type q).run = none := ownNone.mpr fun up r hr => by
      cases up with
      | false => exact h .strict r hr
      | true => exact h .ignoreUp r hr
    simp only [noOwn, ite_eq_left_iff, Option.map_eq_none_iff, familyNone]
    intro hf up r hr
    cases up with
    | false => exact h .family r ⟨hf, hr⟩
    | true => exact h .familyIgnoreUp r ⟨hf, hr⟩

def Given (shelves : List (String × List (String × List Rule))) (type slot : String)
    (r : Rule) : Prop :=
  ∃ buckets, shelves.lookup type = some buckets ∧
    ∃ rules, buckets.lookup slot = some rules ∧ r ∈ rules

theorem given_iff {shelves : List (String × List (String × List Rule))} {type slot : String}
    {r : Rule} :
    Given shelves type slot r ↔ r ∈ (((shelves.lookup type).getD []).lookup slot).getD [] := by
  unfold Given
  cases shelves.lookup type with
  | none => simp
  | some buckets => cases hslot : buckets.lookup slot <;> simp [hslot]

/-- A rulebook offers what the shelves it was made of give, nothing less and nothing more. -/
theorem mem_candidates_ofShelves_iff {shelves : List (String × List (String × List Rule))}
    {type slot : String} {r : Rule} :
    r ∈ (ofShelves shelves).candidates type slot ↔ Given shelves type slot r := by
  rw [candidates_ofShelves, List.mem_mergeSort, given_iff]

/-- The candidates of each stage, by what the shelves give. The family is asked only where it is
another type, the cell above is left out only on a corner of the top face, and the constraints are
those of the query's own type throughout. -/
def Offered (shelves : List (String × List (String × List Rule))) (look : Cell → Option String)
    (q : Query) : Stage → Rule → Prop
  | .strict, r => Given shelves q.type q.slot r ∧ r.Valid look q false
  | .ignoreUp, r => q.slot ∈ ["11", "14", "21", "24"] ∧
      Given shelves q.type q.slot r ∧ r.Valid look q true
  | .family, r => family q.type ≠ q.type ∧
      Given shelves (family q.type) q.slot r ∧ r.Valid look q false
  | .familyIgnoreUp, r => family q.type ≠ q.type ∧ q.slot ∈ ["11", "14", "21", "24"] ∧
      Given shelves (family q.type) q.slot r ∧ r.Valid look q true

private theorem fits_strictly_iff {shelves : List (String × List (String × List Rule))}
    {type : String} {r : Rule} :
    (ofShelves shelves).Fits look q type false r ↔
      Given shelves type q.slot r ∧ r.Valid look q false :=
  ⟨fun h => ⟨mem_candidates_ofShelves_iff.mp h.candidate, h.valid⟩,
    fun h => ⟨nofun, mem_candidates_ofShelves_iff.mpr h.1, h.2⟩⟩

private theorem fits_without_up_iff {shelves : List (String × List (String × List Rule))}
    {type : String} {r : Rule} :
    (ofShelves shelves).Fits look q type true r ↔
      q.slot ∈ ["11", "14", "21", "24"] ∧ Given shelves type q.slot r ∧ r.Valid look q true :=
  ⟨fun h => ⟨h.corner rfl, mem_candidates_ofShelves_iff.mp h.candidate, h.valid⟩,
    fun h => ⟨fun _ => h.1, mem_candidates_ofShelves_iff.mpr h.2.1, h.2.2⟩⟩

theorem eligible_ofShelves_iff {shelves : List (String × List (String × List Rule))}
    {stage : Stage} {r : Rule} :
    (ofShelves shelves).Eligible look q stage r ↔ Offered shelves look q stage r := by
  cases stage with
  | strict => exact fits_strictly_iff
  | ignoreUp => exact fits_without_up_iff
  | family => exact and_congr_right fun _ => fits_strictly_iff
  | familyIgnoreUp => exact and_congr_right fun _ => fits_without_up_iff

theorem isBest_of_choose (hb : b.Ordered) {choice : Choice}
    (h : (b.choose look q).run = some choice) :
    IsBest (b.Eligible look q choice.stage) choice.rule ∧
      ∀ stage, stage.rank < choice.stage.rank → ∀ r, ¬b.Eligible look q stage r := by
  rw [choose_run] at h
  cases ho : (b.bestOf look q.type q).run with
  | some found =>
    rw [ho] at h
    obtain rfl := Option.some.inj h
    exact own_choice hb ho
  | none =>
    have noOwn := (bestOf_spec hb look q q.type).1.mp ho
    rw [ho] at h
    by_cases hf : family q.type = q.type
    · simp only [if_pos hf] at h
      cases h
    · simp only [if_neg hf, Option.map_eq_some_iff] at h
      obtain ⟨found, hfound, rfl⟩ := h
      exact family_choice hb noOwn hf hfound

/-- Nothing is chosen exactly where no stage has a candidate. What is chosen is the best candidate
of its stage, no earlier stage has any, and the stage gives the label and the penalty. -/
theorem chosen_rule_specification (shelves : List (String × List (String × List Rule)))
    (look : Surroundings Id) (q : Query) :
    (((ofShelves shelves).choose look q).run = none ↔
      ∀ stage r, ¬Offered shelves look q stage r) ∧
    ∀ choice, ((ofShelves shelves).choose look q).run = some choice →
      IsBest (Offered shelves look q choice.stage) choice.rule ∧
      (∀ stage, stage.rank < choice.stage.rank → ∀ r, ¬Offered shelves look q stage r) ∧
      (choice.stage.label?, choice.score) = choice.stage.verdict choice.rule.score := by
  have ordered : (ofShelves shelves).Ordered := ofShelves_ordered shelves
  constructor
  · simp only [no_choice_iff ordered, eligible_ofShelves_iff]
  · intro choice chosen
    obtain ⟨best, first⟩ := isBest_of_choose ordered chosen
    refine ⟨best.congr fun _ => eligible_ofShelves_iff, fun stage lower r offered => ?_,
      Choice.verdict_eq choice⟩
    exact first stage lower r (eligible_ofShelves_iff.mpr offered)

/-- Under mud nothing holds as it stands. Without the cell above two rules of the family score the
same, and of these the lesser name is drawn, though it was given last. -/
theorem chosen_rule_specification_under_mud :
    let own : Rule := ⟨"rock_wet-11-n1", "rock_wet", "11", [⟨[.north], .occupied⟩], none, 2⟩
    let late : Rule :=
      ⟨"rock-11-u0,w0", "rock", "11", [⟨[.up], .empty⟩, ⟨[.west], .empty⟩], none, 4⟩
    let poor : Rule := ⟨"rock-11-u0", "rock", "11", [⟨[.up], .empty⟩], none, 2⟩
    let early : Rule :=
      ⟨"rock-11-u0,n0", "rock", "11", [⟨[.up], .empty⟩, ⟨[.north], .empty⟩], none, 4⟩
    let shelves := [("rock_wet", [("11", [own])]), ("rock", [("11", [late, poor, early])])]
    let look : Surroundings Id := fun o => if o = ⟨0, 0, 1⟩ then some "mud" else none
    ∃ choice, ((ofShelves shelves).choose look ⟨"rock_wet", "11", 0⟩).run = some choice ∧
      choice.rule = early ∧ choice.stage.label? = some "family_ignore_up" ∧ choice.score = 3 := by
  intro own late poor early shelves look
  let q : Query := ⟨"rock_wet", "11", 0⟩
  obtain ⟨unchosen, spec⟩ := chosen_rule_specification shelves look q
  have root : family q.type = "rock" := by decide
  have ofFamily : ∀ r, Given shelves "rock" q.slot r → r = late ∨ r = poor ∨ r = early := by
    intro r given
    have listed : r ∈ [late, poor, early] := given_iff.mp given
    simpa using listed
  have noOwn : ∀ up r, Given shelves q.type q.slot r → ¬r.Valid look q up := by
    intro up r given valid
    obtain rfl : r = own := List.mem_singleton.mp (given_iff.mp given)
    have := (Rule.holds_iff look q up own).mpr valid
    revert this
    cases up <;> decide
  have noFamily : ∀ r, Given shelves "rock" q.slot r → ¬r.Valid look q false := by
    intro r given valid
    have := (Rule.holds_iff look q false r).mpr valid
    revert this
    rcases ofFamily r given with rfl | rfl | rfl <;> decide
  have fallback : ∀ r, Given shelves "rock" q.slot r → r.Valid look q true →
      Offered shelves look q .familyIgnoreUp r := fun r given valid =>
    ⟨by rw [root]; decide, by decide, root.symm ▸ given, valid⟩
  have offeredLate : Offered shelves look q .familyIgnoreUp late :=
    fallback late ⟨_, rfl, _, rfl, by simp⟩ ((Rule.holds_iff look q true late).mp (by decide))
  have offeredEarly : Offered shelves look q .familyIgnoreUp early :=
    fallback early ⟨_, rfl, _, rfl, by simp⟩ ((Rule.holds_iff look q true early).mp (by decide))
  cases chosen : ((ofShelves shelves).choose look q).run with
  | none => exact (unchosen.mp chosen .familyIgnoreUp early offeredEarly).elim
  | some choice =>
    obtain ⟨best, -, verdict⟩ := spec choice chosen
    obtain ⟨rule, stage⟩ := choice
    have member := best.mem
    cases stage with
    | strict => exact (noOwn false rule member.1 member.2).elim
    | ignoreUp => exact (noOwn true rule member.2.1 member.2.2).elim
    | family => exact (noFamily rule (root ▸ member.2.1) member.2.2).elim
    | familyIgnoreUp =>
      have higher : early.score ≤ rule.score := best.score_le early offeredEarly
      have lesser := best.name_le early offeredEarly
      obtain rfl : rule = early := by
        rcases ofFamily rule (root ▸ member.2.2.1) with rfl | rfl | rfl
        · exact absurd (lesser rfl) (by decide)
        · exact absurd higher (by decide)
        · rfl
      exact ⟨_, rfl, rfl, congrArg Prod.fst verdict, congrArg Prod.snd verdict⟩

end Rulebook

end Autotile
