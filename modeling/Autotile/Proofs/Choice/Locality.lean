import Autotile.Cascade
import Autotile.Fragment
import Autotile.Proofs.Fault

/-! # What a composition depends on

A composition depends on the cells that some rule of the rulebook constrains, and on nothing else
that the surroundings tell. Cells under no real constraint are read all the same, so reading them
must have the same effect. The offsets of a cascade are these cells seen from the other side.
A composition has no fault of its own. -/
namespace Autotile

theorem Cell.neg_neg (c : Cell) : - -c = c := by
  ext <;> simp

theorem Cell.origin_add (c : Cell) : Cell.origin + c = c := by
  ext <;> simp [Cell.origin]

theorem Cell.layerLE_trans (a b c : Cell) (hab : a.layerLE b = true) (hbc : b.layerLE c = true) :
    a.layerLE c = true := by
  simp only [layerLE, Bool.or_eq_true, Bool.and_eq_true, decide_eq_true_eq] at hab hbc ⊢
  omega

theorem Cell.layerLE_total (a b : Cell) : (a.layerLE b || b.layerLE a) = true := by
  simp only [layerLE, Bool.or_eq_true, Bool.and_eq_true, decide_eq_true_eq]
  omega

theorem Cell.layerLE_antisymm {a b : Cell} (hab : a.layerLE b = true) (hba : b.layerLE a = true) :
    a = b := by
  simp only [layerLE, Bool.or_eq_true, Bool.and_eq_true, decide_eq_true_eq] at hab hba
  ext <;> omega

private theorem mem_foldl_collect {α : Type} {P : α → Prop} {c : Cell}
    (step : List Cell → α → List Cell)
    (hstep : ∀ seen x, c ∈ step seen x ↔ c ∈ seen ∨ P x) (xs : List α) (seen : List Cell) :
    c ∈ xs.foldl step seen ↔ c ∈ seen ∨ ∃ x ∈ xs, P x := by
  induction xs generalizing seen with
  | nil => simp
  | cons x xs ih => simp [ih, hstep, or_assoc]

private theorem mem_foldl_insert (cells seen : List Cell) (c : Cell) :
    c ∈ cells.foldl (fun seen c => seen.insert c) seen ↔ c ∈ seen ∨ c ∈ cells := by
  rw [mem_foldl_collect (P := fun x => c = x) _ fun seen x => by
    rw [List.mem_insert_iff, or_comm]]
  simp

theorem Rulebook.mem_dependencies {b : Rulebook} {c : Cell} :
    c ∈ b.dependencies ↔
      ∃ shelf ∈ b.shelves, ∃ bucket ∈ shelf.2, ∃ r ∈ bucket.2, c ∈ r.dependencies := by
  unfold dependencies
  rw [mem_foldl_collect (P := fun shelf => ∃ bucket ∈ shelf.2, ∃ r ∈ bucket.2, c ∈ r.dependencies)
    _ fun seen shelf => ?_]
  · simp
  rw [mem_foldl_collect (P := fun bucket => ∃ r ∈ bucket.2, c ∈ r.dependencies)
    _ fun seen bucket => ?_]
  rw [mem_foldl_collect (P := fun r : Rule => c ∈ r.dependencies) _ fun seen r => ?_]
  rw [mem_foldl_insert]

theorem Rule.mem_dependencies {r : Rule} {c : Cell} :
    c ∈ r.dependencies ↔
      ∃ k ∈ r.constraints, k.requirement ≠ .any ∧ -k.offset = c := by
  simp [dependencies, and_assoc]

private theorem mem_of_mem_lookup {α : Type} {xs : List (String × List α)} {key : String} {x : α}
    (h : x ∈ (xs.lookup key).getD []) : ∃ entry ∈ xs, x ∈ entry.2 := by
  induction xs with
  | nil => simp at h
  | cons entry xs ih =>
    rw [List.lookup_cons] at h
    cases hk : key == entry.1 with
    | true =>
      rw [hk] at h
      exact ⟨entry, List.mem_cons_self, h⟩
    | false =>
      rw [hk] at h
      obtain ⟨other, ho, hx⟩ := ih h
      exact ⟨other, List.mem_cons_of_mem _ ho, hx⟩

theorem Rulebook.mem_shelves_of_mem_candidates {b : Rulebook} {type slot : String} {r : Rule}
    (hr : r ∈ b.candidates type slot) :
    ∃ shelf ∈ b.shelves, ∃ bucket ∈ shelf.2, r ∈ bucket.2 := by
  obtain ⟨bucket, hb, hr⟩ := mem_of_mem_lookup hr
  obtain ⟨shelf, hs, hb⟩ := mem_of_mem_lookup hb
  exact ⟨shelf, hs, bucket, hb, hr⟩

theorem Rulebook.offset_mem_dependencies {b : Rulebook} {type slot : String} {r : Rule}
    {k : Constraint} (hr : r ∈ b.candidates type slot) (hk : k ∈ r.constraints)
    (hne : k.requirement ≠ .any) : -k.offset ∈ b.dependencies := by
  obtain ⟨shelf, hs, bucket, hb, hr⟩ := mem_shelves_of_mem_candidates hr
  exact mem_dependencies.mpr ⟨shelf, hs, bucket, hb, r, hr,
    Rule.mem_dependencies.mpr ⟨k, hk, hne, rfl⟩⟩

theorem mem_sortedOffsets {cells : List Cell} {o : Cell} :
    o ∈ sortedOffsets cells ↔ o ∈ cells ∧ o ≠ Cell.origin := by
  simp [sortedOffsets, mem_foldl_insert]

private theorem nodup_foldl_insert (cells : List Cell) {seen : List Cell} (once : seen.Nodup) :
    (cells.foldl (fun seen c => seen.insert c) seen).Nodup := by
  induction cells generalizing seen with
  | nil => exact once
  | cons c cells ih =>
    have next : (seen.insert c).Nodup := by
      by_cases known : c ∈ seen
      · rwa [List.insert_of_mem known]
      · rw [List.insert_of_not_mem known]
        exact List.nodup_cons.mpr ⟨known, once⟩
    exact ih next

theorem sortedOffsets_eq {cells around : List Cell}
    (same : ((cells.foldl (fun seen c => seen.insert c) []).filter (· ≠ Cell.origin)).Perm around)
    (sorted : around.Pairwise fun a b => a.layerLE b = true) : sortedOffsets cells = around := by
  have layered := List.pairwise_mergeSort Cell.layerLE_trans Cell.layerLE_total
    ((cells.foldl (fun seen c => seen.insert c) []).filter (· ≠ Cell.origin))
  refine List.Perm.eq_of_pairwise ?_ layered sorted ((List.mergeSort_perm _ _).trans same)
  exact fun _ _ _ _ => Cell.layerLE_antisymm

theorem sortedOffsets_congr {cells cells' : List Cell} (same : ∀ c, c ∈ cells ↔ c ∈ cells') :
    sortedOffsets cells = sortedOffsets cells' := by
  refine sortedOffsets_eq ?_ (List.pairwise_mergeSort Cell.layerLE_trans Cell.layerLE_total _)
  refine List.Perm.trans (List.Perm.filter _ ?_) (List.mergeSort_perm _ _).symm
  have once (cells : List Cell) :
      (cells.foldl (fun seen c => seen.insert c) []).Nodup :=
    nodup_foldl_insert cells List.nodup_nil
  rw [List.perm_ext_iff_of_nodup (once cells) (once cells')]
  intro c
  rw [mem_foldl_insert, mem_foldl_insert, same]

def standardOffsets : List Cell :=
  [⟨0, 0, -2⟩, ⟨0, 0, -1⟩, ⟨0, 1, -1⟩, ⟨1, 0, -1⟩, ⟨-1, 0, 0⟩, ⟨0, -1, 0⟩, ⟨0, 1, 0⟩, ⟨1, 0, 0⟩,
    ⟨-1, 0, 1⟩, ⟨0, -1, 1⟩, ⟨0, 0, 1⟩, ⟨0, 0, 2⟩]

theorem cascadeOffsets_nil : cascadeOffsets [] = standardOffsets :=
  sortedOffsets_eq (by decide +kernel) (by decide +kernel)

theorem Rulebook.cascadeOffsets_of_near {b : Rulebook}
    (near : ∀ o ∈ b.dependencies, o ∈ standardOffsets) : b.cascadeOffsets = standardOffsets := by
  rw [← cascadeOffsets_nil] at near ⊢
  refine sortedOffsets_congr fun o => ?_
  rw [List.append_nil, List.mem_append, or_iff_left_of_imp]
  intro ho
  simpa using (mem_sortedOffsets.mp (near o ho)).1

theorem Rulebook.mem_cascadeOffsets_of_mem_dependencies {b : Rulebook} {o : Cell}
    (h : o ∈ b.dependencies) (hne : o ≠ Cell.origin) : o ∈ b.cascadeOffsets :=
  mem_sortedOffsets.mpr ⟨List.mem_append_right _ h, hne⟩

variable {m : Type → Type} [Monad m]

/-- Surroundings that a rulebook cannot tell apart: a cell that some rule constrains has the same
content in both, and to read any other cell has at least the same effect. -/
structure Rulebook.Alike (b : Rulebook) (around₁ around₂ : Surroundings m) : Prop where
  content : ∀ o, -o ∈ b.dependencies → around₁ o = around₂ o
  effect : ∀ o, (fun _ => ()) <$> around₁ o = (fun _ => ()) <$> around₂ o

private theorem allM_congr {α : Type} {p q : α → m Bool} {xs : List α}
    (h : ∀ x ∈ xs, p x = q x) : xs.allM p = xs.allM q := by
  induction xs with
  | nil => rfl
  | cons x xs ih =>
    rw [List.allM_cons, List.allM_cons, h x List.mem_cons_self,
      ih fun y hy => h y (List.mem_cons_of_mem _ hy)]

private theorem filterAuxM_congr {α : Type} {p q : α → m Bool} {xs : List α}
    (h : ∀ x ∈ xs, p x = q x) (kept : List α) : xs.filterAuxM p kept = xs.filterAuxM q kept := by
  induction xs generalizing kept with
  | nil => rfl
  | cons x xs ih =>
    simp only [List.filterAuxM, h x List.mem_cons_self,
      ih fun y hy => h y (List.mem_cons_of_mem _ hy)]

private theorem filterM_congr {α : Type} {p q : α → m Bool} {xs : List α}
    (h : ∀ x ∈ xs, p x = q x) : xs.filterM p = xs.filterM q := by
  unfold List.filterM
  rw [filterAuxM_congr h]

variable [LawfulMonad m]

/-- Two queries, each in its surroundings, that a constraint cannot tell apart: reading its cell has
the same effect in both, and what is read meets the constraint in both or in neither. -/
def Constraint.JudgedAlike (around₁ : Surroundings m) (q₁ : Query) (around₂ : Surroundings m)
    (q₂ : Query) (k : Constraint) : Prop :=
  (fun t => k.met q₁.type t) <$> around₁ k.offset = (fun t => k.met q₂.type t) <$> around₂ k.offset

theorem Constraint.judgedAlike_of_content {around₁ around₂ : Surroundings m} {q : Query}
    {k : Constraint} (content : k.requirement ≠ .any → around₁ k.offset = around₂ k.offset)
    (effect : (fun _ => ()) <$> around₁ k.offset = (fun _ => ()) <$> around₂ k.offset) :
    k.JudgedAlike around₁ q around₂ q := by
  by_cases hk : k.requirement = .any
  · have blind : ∀ around : m (Option String), (fun t => k.met q.type t) <$> around =
        (fun _ => true) <$> (fun _ => ()) <$> around := by
      intro around
      rw [← comp_map]
      refine congrArg (· <$> around) (funext fun t => ?_)
      simp [Constraint.met, hk, Requirement.met]
    rw [JudgedAlike, blind, blind, effect]
  · rw [JudgedAlike, content hk]

theorem Rule.holds_congr {around₁ around₂ : Surroundings m} {q₁ q₂ : Query} {ignoreUp : Bool}
    {r : Rule} (elevation : q₁.elevation = q₂.elevation)
    (alike : ∀ k ∈ r.constraints, k.JudgedAlike around₁ q₁ around₂ q₂) :
    r.holds around₁ q₁ ignoreUp = r.holds around₂ q₂ ignoreUp := by
  unfold Rule.holds
  rw [elevation]
  by_cases he : r.admitsElevation q₂.elevation = true
  · rw [if_pos he, if_pos he]
    refine allM_congr fun k hk => ?_
    by_cases hup : (ignoreUp && k.isUp) = true
    · rw [if_pos hup, if_pos hup]
    · rw [if_neg hup, if_neg hup]
      have := alike k hk
      simpa only [Constraint.JudgedAlike, map_eq_pure_bind] using this
  · rw [if_neg he, if_neg he]

namespace Rulebook

variable {b : Rulebook} {around₁ around₂ : Surroundings m}

theorem bestOf_congr {q₁ q₂ : Query} {type : String} (slot : q₁.slot = q₂.slot)
    (elevation : q₁.elevation = q₂.elevation)
    (alike : ∀ r ∈ b.candidates type q₂.slot, ∀ k ∈ r.constraints,
      k.JudgedAlike around₁ q₁ around₂ q₂) :
    b.bestOf around₁ type q₁ = b.bestOf around₂ type q₂ := by
  have judged : ∀ ignoreUp, (b.candidates type q₂.slot).filterM (Rule.holds around₁ q₁ ignoreUp) =
      (b.candidates type q₂.slot).filterM (Rule.holds around₂ q₂ ignoreUp) := fun ignoreUp =>
    filterM_congr fun r hr => Rule.holds_congr elevation (alike r hr)
  simp only [bestOf, slot, judged]

def Asks (b : Rulebook) (q : Query) (k : Constraint) : Prop :=
  ∃ r, (r ∈ b.candidates q.type q.slot ∨ r ∈ b.candidates (family q.type) q.slot) ∧
    k ∈ r.constraints

theorem choose_congr {q : Query} (alike : ∀ k, b.Asks q k → k.JudgedAlike around₁ q around₂ q) :
    b.choose around₁ q = b.choose around₂ q := by
  have own : b.bestOf around₁ q.type q = b.bestOf around₂ q.type q :=
    bestOf_congr rfl rfl fun r hr k hk => alike k ⟨r, .inl hr, hk⟩
  have family : b.bestOf around₁ (family q.type) q = b.bestOf around₂ (family q.type) q :=
    bestOf_congr rfl rfl fun r hr k hk => alike k ⟨r, .inr hr, hk⟩
  rw [choose, choose, own, family]

theorem Alike.judgedAlike (h : b.Alike around₁ around₂) {q : Query} {k : Constraint}
    (asked : b.Asks q k) : k.JudgedAlike around₁ q around₂ q := by
  refine Constraint.judgedAlike_of_content (fun hne => h.content _ ?_) (h.effect _)
  obtain ⟨r, hr | hr, hk⟩ := asked
  · exact offset_mem_dependencies hr hk hne
  · exact offset_mem_dependencies hr hk hne

theorem compose_congr (h : b.Alike around₁ around₂) (type : String) (elevation : Int) :
    b.compose around₁ type elevation = b.compose around₂ type elevation := by
  have placed : b.place around₁ type elevation = b.place around₂ type elevation := by
    funext placement
    rw [place, place, choose_congr fun k asked => h.judgedAlike asked]
  rw [compose, compose, placed]

/-- Of a whole map, a tile's fragments depend on the cells from which it is looked back at. -/
theorem composeAt_congr {look₁ look₂ : Cell → m (Option String)} {type : String} {cell : Cell}
    (content : ∀ o ∈ b.dependencies, look₁ (cell + -o) = look₂ (cell + -o))
    (effect : ∀ c, (fun _ => ()) <$> look₁ c = (fun _ => ()) <$> look₂ c) :
    b.composeAt look₁ type cell = b.composeAt look₂ type cell := by
  refine compose_congr ⟨fun o ho => ?_, fun o => effect (cell + o)⟩ type cell.u
  have := content (-o) ho
  rwa [Cell.neg_neg] at this

theorem composeAt_failsBy {P : Fault → Prop} {book : Rulebook}
    {look : Cell → Except Fault (Option String)}
    (h : ∀ c, FailsBy P (look c)) (type : String) (cell : Cell) :
    FailsBy P (book.composeAt look type cell) := by
  -- only a lookup can fail, and a rule looks up cells while it is judged and at no other time
  have holds : ∀ q ignoreUp r,
      FailsBy P (Rule.holds (fun offset => look (cell + offset)) q ignoreUp r) := by
    intro q ignoreUp r
    unfold Rule.holds
    by_cases he : r.admitsElevation q.elevation = true
    · rw [if_pos he]
      refine FailsBy.allM fun c => ?_
      by_cases hup : (ignoreUp && c.isUp) = true
      · rw [if_pos hup]
        exact failsBy_ok _
      · rw [if_neg hup]
        exact (h _).bind fun _ _ => failsBy_ok _
    · rw [if_neg he]
      exact failsBy_ok _
  have bestOf : ∀ type q, FailsBy P (book.bestOf (fun offset => look (cell + offset)) type q) := by
    intro type q
    refine (FailsBy.filterM (holds q false)).bind fun strict _ => ?_
    cases best strict with
    | some rule => exact failsBy_ok _
    | none =>
      by_cases hc : Sprite.upperCorners.contains q.slot = true
      · simp only [if_pos hc]
        refine (FailsBy.filterM (holds q true)).bind fun loose _ => ?_
        cases best loose <;> exact failsBy_ok _
      · simp only [if_neg hc]
        exact failsBy_ok _
  refine FailsBy.filterMapM fun placement => FailsBy.bind ?_ fun _ _ => failsBy_ok _
  refine (bestOf _ _).bind fun own _ => ?_
  cases own with
  | some found => exact failsBy_ok _
  | none =>
    by_cases hf : family type = type
    · simp only [if_pos hf]
      exact failsBy_ok _
    · simp only [if_neg hf]
      refine (bestOf _ _).bind fun found _ => ?_
      cases found <;> exact failsBy_ok _

end Rulebook

end Autotile
