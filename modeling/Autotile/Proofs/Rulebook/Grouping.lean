import Autotile.Proofs.Lookup
import Autotile.Rulebook.Basic
import Mathlib.Data.List.Induction

/-! # Grouping by key

Grouping loses nothing and repeats nothing: every key that occurs stands once, and under it stand
its own values in order of arrival. -/
namespace Autotile

variable {α : Type} {key : α → String} {values : List α}

theorem keys_appendAt (k : String) (v : α) (groups : List (String × List α)) :
    (appendAt k v groups).map Prod.fst =
      if k ∈ groups.map Prod.fst then groups.map Prod.fst else groups.map Prod.fst ++ [k] := by
  induction groups with
  | nil => rfl
  | cons group groups ih =>
    obtain ⟨j, vs⟩ := group
    unfold appendAt
    by_cases hj : j = k
    · simp [hj]
    · have other : k ≠ j := fun h => hj h.symm
      have same : k ∈ j :: groups.map Prod.fst ↔ k ∈ groups.map Prod.fst := by
        rw [List.mem_cons, or_iff_right other]
      rw [if_neg hj, List.map_cons, ih, List.map_cons]
      simp only [same]
      split <;> rfl

theorem lookup_appendAt (k j : String) (v : α) (groups : List (String × List α)) :
    ((appendAt k v groups).lookup j).getD [] =
      (groups.lookup j).getD [] ++ if k = j then [v] else [] := by
  induction groups with
  | nil =>
    by_cases hj : k = j
    · simp [appendAt, hj]
    · have other : (j == k) = false := beq_eq_false_iff_ne.mpr fun h => hj h.symm
      simp [appendAt, List.lookup_cons, other, hj]
  | cons group groups ih =>
    obtain ⟨i, vs⟩ := group
    unfold appendAt
    by_cases hi : i = k
    · subst i
      by_cases hj : k = j
      · simp [hj]
      · have other : (j == k) = false := beq_eq_false_iff_ne.mpr fun h => hj h.symm
        simp [List.lookup_cons, other, hj]
    · rw [if_neg hi, List.lookup_cons, List.lookup_cons]
      cases hj : j == i with
      | true =>
        obtain rfl := eq_of_beq hj
        simp [Ne.symm hi]
      | false => exact ih

theorem groupBy_concat (key : α → String) (values : List α) (v : α) :
    groupBy key (values ++ [v]) = appendAt (key v) v (groupBy key values) := by
  rw [groupBy, List.foldl_append]
  rfl

theorem mem_keys_groupBy {k : String} :
    k ∈ (groupBy key values).map Prod.fst ↔ ∃ v ∈ values, key v = k := by
  induction values using List.reverseRecOn with
  | nil => simp [groupBy]
  | append_singleton values v ih =>
    rw [groupBy_concat, keys_appendAt]
    by_cases known : key v ∈ (groupBy key values).map Prod.fst
    · rw [if_pos known, ih]
      constructor
      · rintro ⟨w, hw, rfl⟩
        exact ⟨w, List.mem_append_left _ hw, rfl⟩
      · rintro ⟨w, hw, rfl⟩
        rcases List.mem_append.mp hw with hw | hw
        · exact ⟨w, hw, rfl⟩
        · obtain rfl := List.mem_singleton.mp hw
          exact ih.mp known
    · rw [if_neg known, List.mem_append, List.mem_singleton, ih]
      simp [or_and_right, exists_or, eq_comm]

theorem keys_groupBy_nodup (key : α → String) (values : List α) :
    ((groupBy key values).map Prod.fst).Nodup := by
  induction values using List.reverseRecOn with
  | nil => exact List.nodup_nil
  | append_singleton values v ih =>
    rw [groupBy_concat, keys_appendAt]
    by_cases known : key v ∈ (groupBy key values).map Prod.fst
    · rwa [if_pos known]
    · rw [if_neg known]
      refine List.nodup_append.mpr ⟨ih, List.pairwise_singleton _ _, fun k hk j hj => ?_⟩
      obtain rfl := List.mem_singleton.mp hj
      rintro rfl
      exact known hk

theorem lookup_groupBy (key : α → String) (values : List α) (k : String) :
    ((groupBy key values).lookup k).getD [] = values.filter (key · = k) := by
  induction values using List.reverseRecOn with
  | nil => rfl
  | append_singleton values v ih =>
    rw [groupBy_concat, lookup_appendAt, ih, List.filter_append]
    by_cases hk : key v = k <;> simp [hk]

end Autotile
