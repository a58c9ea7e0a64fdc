import Autotile.Proofs.Choice.Locality
import Autotile.Proofs.Choice.Selection
import Autotile.Proofs.Rulebook.Grouping
import Mathlib.Data.List.Perm.Basic

/-! # The index of a rulebook

A rulebook that is made of rules with different names holds exactly these rules. Where a rule
stands is told by its type, slot and name, so rulebooks of the same rules give the same answers. -/
namespace Autotile

def Rule.Before (r s : Rule) : Prop :=
  r.type < s.type ∨ r.type = s.type ∧ (r.slot < s.slot ∨ r.slot = s.slot ∧ r.name < s.name)

theorem Rule.Before.asymm {r s : Rule} (h : r.Before s) : ¬s.Before r := by
  rintro (type | ⟨type, slot | ⟨slot, name⟩⟩)
  · rcases h with h | ⟨same, -⟩
    · exact String.lt_asymm h type
    · exact String.lt_irrefl _ (same ▸ type)
  · rcases h with h | ⟨-, h | ⟨same, -⟩⟩
    · exact String.lt_irrefl _ (type ▸ h)
    · exact String.lt_asymm h slot
    · exact String.lt_irrefl _ (same ▸ slot)
  · rcases h with h | ⟨-, h | ⟨-, h⟩⟩
    · exact String.lt_irrefl _ (type ▸ h)
    · exact String.lt_irrefl _ (slot ▸ h)
    · exact String.lt_asymm h name

theorem eq_of_increasing {α : Type} {lt : α → α → Prop} (asymm : ∀ a b, lt a b → ¬lt b a)
    {xs ys : List α} (hx : xs.Pairwise lt) (hy : ys.Pairwise lt) (same : ∀ a, a ∈ xs ↔ a ∈ ys) :
    xs = ys := by
  have once {zs : List α} (h : zs.Pairwise lt) : zs.Nodup := by
    refine h.imp fun {a b} hab => ?_
    rintro rfl
    exact asymm a a hab hab
  refine List.Perm.eq_of_pairwise (fun a b _ _ hab hba => ?_) hx hy ?_
  · exact absurd hba (asymm a b hab)
  · exact (List.perm_ext_iff_of_nodup (once hx) (once hy)).mpr same

theorem mergeSort_increasing {α : Type} (key : α → String) {xs : List α}
    (once : (xs.map key).Nodup) :
    (xs.mergeSort fun x y => key x ≤ key y).Pairwise fun x y => key x < key y := by
  have different := List.pairwise_map.mp
    (((List.mergeSort_perm xs fun x y => key x ≤ key y).map key).nodup_iff.mpr once)
  refine (mergeSort_ordered key xs).imp₂ (fun x y le ne => ?_) different
  exact String.not_le.mp fun ge => ne (String.le_antisymm le ge)

namespace Rulebook

/-- The rulebook answers every question about its rules from the rules that are held. -/
structure Indexes (b : Rulebook) (held : Rule → Prop) : Prop where
  rules : ∀ r, r ∈ b.rules ↔ held r
  once : (b.rules.map (·.name)).Nodup
  ordered : b.rules.Pairwise Rule.Before
  candidates : ∀ type slot r, r ∈ b.candidates type slot ↔ held r ∧ r.type = type ∧ r.slot = slot
  increasing : ∀ type slot, (b.candidates type slot).Pairwise fun r s => r.name < s.name
  size : b.size = b.rules.length
  types : ∀ type, type ∈ b.types ↔ ∃ r, held r ∧ r.type = type
  types_increasing : b.types.Pairwise (· < ·)
  hasType : ∀ type, b.hasType type = true ↔ ∃ r, held r ∧ r.type = type
  contains : ∀ name, b.contains name = true ↔ ∃ r, held r ∧ r.name = name
  dependencies : ∀ o, o ∈ b.dependencies ↔ ∃ r, held r ∧ o ∈ r.dependencies

/-- Two rulebooks that no question tells apart. The dependencies are a set: the order in which
they are listed is no answer. -/
structure SameAnswers (b b' : Rulebook) : Prop where
  rules : b.rules = b'.rules
  candidates : ∀ type slot, b.candidates type slot = b'.candidates type slot
  size : b.size = b'.size
  types : b.types = b'.types
  hasType : ∀ type, b.hasType type = b'.hasType type
  contains : ∀ name, b.contains name = b'.contains name
  dependencies : ∀ o, o ∈ b.dependencies ↔ o ∈ b'.dependencies
  cascadeOffsets : b.cascadeOffsets = b'.cascadeOffsets
  choose : ∀ (m : Type → Type) [Monad m] (around : Surroundings m) (q : Query),
    b.choose around q = b'.choose around q

section

variable {b b' : Rulebook}

theorem choose_of_candidates (same : ∀ type slot, b.candidates type slot = b'.candidates type slot)
    {m : Type → Type} [Monad m] (around : Surroundings m) (q : Query) :
    b.choose around q = b'.choose around q := by
  have bestOf (type : String) : b.bestOf around type q = b'.bestOf around type q := by
    unfold Rulebook.bestOf
    rw [same]
  unfold Rulebook.choose
  simp only [bestOf]

theorem Indexes.sameAnswers {held : Rule → Prop} (h : b.Indexes held) (h' : b'.Indexes held) :
    b.SameAnswers b' := by
  have rules : b.rules = b'.rules := by
    refine eq_of_increasing (fun _ _ => Rule.Before.asymm) h.ordered h'.ordered fun r => ?_
    rw [h.rules, h'.rules]
  have candidates type slot : b.candidates type slot = b'.candidates type slot := by
    refine eq_of_increasing (fun _ _ => String.lt_asymm) (h.increasing type slot)
      (h'.increasing type slot) fun r => ?_
    rw [h.candidates, h'.candidates]
  have dependencies o : o ∈ b.dependencies ↔ o ∈ b'.dependencies := by
    rw [h.dependencies, h'.dependencies]
  constructor
  · exact rules
  · exact candidates
  · rw [h.size, h'.size, rules]
  · refine eq_of_increasing (fun _ _ => String.lt_asymm) h.types_increasing h'.types_increasing
      fun type => ?_
    rw [h.types, h'.types]
  · intro type
    rw [Bool.eq_iff_iff, h.hasType, h'.hasType]
  · intro name
    rw [Rulebook.contains, Rulebook.contains, rules]
  · exact dependencies
  · refine sortedOffsets_congr fun o => ?_
    rw [List.mem_append, dependencies, ← List.mem_append]
  · exact fun m _ => choose_of_candidates candidates

theorem mem_rules {r : Rule} :
    r ∈ b.rules ↔ ∃ shelf ∈ b.shelves, ∃ bucket ∈ shelf.2, r ∈ bucket.2 := by
  simp only [rules, List.mem_flatMap, List.mem_mergeSort]

theorem size_eq (b : Rulebook) : b.size = b.rules.length := by
  refine (List.Perm.flatMap (List.mergeSort_perm _ _) fun shelf _ => ?_).length_eq.symm
  exact List.Perm.flatMap (List.mergeSort_perm _ _) fun _ _ => List.Perm.refl _

theorem mem_types {type : String} : type ∈ b.types ↔ type ∈ b.shelves.map (·.1) :=
  List.mem_mergeSort

theorem hasType_iff {type : String} : b.hasType type = true ↔ type ∈ b.shelves.map (·.1) := by
  simp [hasType]

end

/-! ## Rulebooks made of rules -/

def shelve (rules : List Rule) : List (String × List Rule) :=
  (groupBy (·.slot) rules).map fun bucket => (bucket.1, bucket.2.mergeSort Rule.nameLE)

section

variable {held : List Rule}

theorem shelves_ofRules (held : List Rule) :
    (ofRules held).shelves =
      (groupBy (·.type) held).map fun shelf => (shelf.1, shelve shelf.2) :=
  List.map_map

theorem candidates_ofRules (held : List Rule) (type slot : String) :
    (ofRules held).candidates type slot =
      ((held.filter (·.type = type)).filter (·.slot = slot)).mergeSort Rule.nameLE := by
  rw [ofRules, candidates_ofShelves, lookup_map_getD rfl, lookup_groupBy, lookup_groupBy]

theorem mem_candidates_ofRules {type slot : String} {r : Rule} :
    r ∈ (ofRules held).candidates type slot ↔ r ∈ held ∧ r.type = type ∧ r.slot = slot := by
  rw [candidates_ofRules, List.mem_mergeSort, List.mem_filter, List.mem_filter, and_assoc,
    decide_eq_true_eq, decide_eq_true_eq]

theorem types_ofRules (held : List Rule) :
    (ofRules held).shelves.map Prod.fst = (groupBy (·.type) held).map Prod.fst := by
  rw [shelves_ofRules, List.map_map]
  rfl

theorem slots_shelve (rules : List Rule) :
    (shelve rules).map Prod.fst = (groupBy (·.slot) rules).map Prod.fst := by
  rw [shelve, List.map_map]
  rfl

theorem types_ofRules_nodup (held : List Rule) :
    ((ofRules held).shelves.map Prod.fst).Nodup := by
  rw [types_ofRules]
  exact keys_groupBy_nodup ..

theorem slots_ofRules_nodup {shelf : String × List (String × List Rule)}
    (h : shelf ∈ (ofRules held).shelves) : (shelf.2.map Prod.fst).Nodup := by
  rw [shelves_ofRules] at h
  obtain ⟨group, -, rfl⟩ := List.mem_map.mp h
  rw [slots_shelve]
  exact keys_groupBy_nodup ..

theorem bucket_eq_candidates {shelf : String × List (String × List Rule)}
    {bucket : String × List Rule} (hs : shelf ∈ (ofRules held).shelves) (hb : bucket ∈ shelf.2) :
    bucket.2 = (ofRules held).candidates shelf.1 bucket.1 := by
  rw [candidates, lookup_of_mem (types_ofRules_nodup held) hs, Option.getD_some,
    lookup_of_mem (slots_ofRules_nodup hs) hb, Option.getD_some]

theorem mem_bucket {shelf : String × List (String × List Rule)} {bucket : String × List Rule}
    (hs : shelf ∈ (ofRules held).shelves) (hb : bucket ∈ shelf.2) {r : Rule} :
    r ∈ bucket.2 ↔ r ∈ held ∧ r.type = shelf.1 ∧ r.slot = bucket.1 := by
  rw [bucket_eq_candidates hs hb, mem_candidates_ofRules]

theorem mem_rules_ofRules {r : Rule} : r ∈ (ofRules held).rules ↔ r ∈ held := by
  rw [mem_rules]
  constructor
  · rintro ⟨shelf, hs, bucket, hb, hr⟩
    exact ((mem_bucket hs hb).mp hr).1
  · exact fun hr => mem_shelves_of_mem_candidates (mem_candidates_ofRules.mpr ⟨hr, rfl, rfl⟩)

theorem mem_shelf_types {type : String} :
    type ∈ (ofRules held).shelves.map Prod.fst ↔ ∃ r, r ∈ held ∧ r.type = type := by
  rw [types_ofRules, mem_keys_groupBy]

theorem candidates_increasing (once : (held.map (·.name)).Nodup) (type slot : String) :
    ((ofRules held).candidates type slot).Pairwise fun r s => r.name < s.name := by
  rw [candidates_ofRules]
  refine mergeSort_increasing Rule.name ?_
  exact once.sublist ((List.filter_sublist.trans List.filter_sublist).map _)

theorem rules_ordered (once : (held.map (·.name)).Nodup) :
    (ofRules held).rules.Pairwise Rule.Before := by
  refine List.pairwise_flatMap.mpr ⟨fun shelf hs => ?_, ?_⟩
  · rw [List.mem_mergeSort] at hs
    refine List.pairwise_flatMap.mpr ⟨fun bucket hb => ?_, ?_⟩
    · rw [List.mem_mergeSort] at hb
      rw [bucket_eq_candidates hs hb]
      refine List.Pairwise.imp_of_mem (fun hr hr' lt => ?_) (candidates_increasing once _ _)
      obtain ⟨-, type, slot⟩ := mem_candidates_ofRules.mp hr
      obtain ⟨-, type', slot'⟩ := mem_candidates_ofRules.mp hr'
      exact Or.inr ⟨type.trans type'.symm, Or.inr ⟨slot.trans slot'.symm, lt⟩⟩
    · refine List.Pairwise.imp_of_mem (fun hb hb' lt r hr r' hr' => ?_)
        (mergeSort_increasing Prod.fst (slots_ofRules_nodup hs))
      rw [List.mem_mergeSort] at hb hb'
      obtain ⟨-, type, slot⟩ := (mem_bucket hs hb).mp hr
      obtain ⟨-, type', slot'⟩ := (mem_bucket hs hb').mp hr'
      exact Or.inr ⟨type.trans type'.symm, Or.inl (slot ▸ slot' ▸ lt)⟩
  · refine List.Pairwise.imp_of_mem (fun hs hs' lt r hr r' hr' => ?_)
      (mergeSort_increasing Prod.fst (types_ofRules_nodup held))
    rw [List.mem_mergeSort] at hs hs'
    obtain ⟨bucket, hb, hr⟩ := List.mem_flatMap.mp hr
    obtain ⟨bucket', hb', hr'⟩ := List.mem_flatMap.mp hr'
    rw [List.mem_mergeSort] at hb hb'
    obtain ⟨-, type, -⟩ := (mem_bucket hs hb).mp hr
    obtain ⟨-, type', -⟩ := (mem_bucket hs' hb').mp hr'
    exact Or.inl (type ▸ type' ▸ lt)

theorem ofRules_indexes (once : (held.map (·.name)).Nodup) :
    (ofRules held).Indexes (· ∈ held) where
  rules _ := mem_rules_ofRules
  once := by
    have distinct : (ofRules held).rules.Nodup := (rules_ordered once).imp fun {r s} h => by
      rintro rfl
      exact h.asymm h
    have unlike : held.Nodup := (List.pairwise_map.mp once).imp fun {r s} ne => by
      rintro rfl
      exact ne rfl
    have same : (ofRules held).rules.Perm held :=
      (List.perm_ext_iff_of_nodup distinct unlike).mpr fun _ => mem_rules_ofRules
    exact (same.map (·.name)).nodup_iff.mpr once
  ordered := rules_ordered once
  candidates _ _ _ := mem_candidates_ofRules
  increasing := candidates_increasing once
  size := size_eq _
  types type := by rw [mem_types, mem_shelf_types]
  types_increasing := by
    have distinct : (((ofRules held).shelves.map Prod.fst).map id).Nodup := by
      rw [List.map_id]
      exact types_ofRules_nodup held
    exact mergeSort_increasing id distinct
  hasType type := by rw [hasType_iff, mem_shelf_types]
  contains name := by
    rw [contains, List.any_eq_true]
    simp only [mem_rules_ofRules, decide_eq_true_eq]
  dependencies o := by
    rw [mem_dependencies]
    constructor
    · rintro ⟨shelf, hs, bucket, hb, r, hr, ho⟩
      exact ⟨r, ((mem_bucket hs hb).mp hr).1, ho⟩
    · rintro ⟨r, hr, ho⟩
      obtain ⟨shelf, hs, bucket, hb, hr⟩ := mem_rules.mp (mem_rules_ofRules.mpr hr)
      exact ⟨shelf, hs, bucket, hb, r, hr, ho⟩

end

end Rulebook

end Autotile
