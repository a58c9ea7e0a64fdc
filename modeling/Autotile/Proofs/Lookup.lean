import Autotile.Datum.Basic

/-! # Looking up by key

What is found under a key of an association list, and what a list of groups holds for it. -/
namespace Autotile

theorem lookup_filter_key {α β : Type} [BEq α] [LawfulBEq α] (p : α → Bool) (xs : List (α × β))
    (k : α) : (xs.filter fun x => p x.1).lookup k = if p k then xs.lookup k else none := by
  induction xs with
  | nil => simp
  | cons x xs ih =>
    obtain ⟨j, v⟩ := x
    by_cases hk : k = j
    · subst k
      cases hp : p j <;> simp [hp, ih]
    · have hb : (k == j) = false := beq_eq_false_iff_ne.mpr hk
      cases hp : p j <;> simp [hp, ih, List.lookup_cons, hb]

theorem lookup_map_value {α β γ : Type} [BEq α] [LawfulBEq α] (f : α → β → γ)
    (xs : List (α × β)) (k : α) :
    (xs.map fun x => (x.1, f x.1 x.2)).lookup k = (xs.lookup k).map (f k) := by
  induction xs with
  | nil => rfl
  | cons x xs ih =>
    obtain ⟨j, v⟩ := x
    by_cases hk : k = j
    · subst k
      simp
    · have hb : (k == j) = false := beq_eq_false_iff_ne.mpr hk
      simp [List.lookup_cons, hb, ih]

theorem mem_of_lookup {α β : Type} [BEq α] [LawfulBEq α] {xs : List (α × β)} {k : α} {v : β}
    (h : xs.lookup k = some v) : (k, v) ∈ xs := by
  obtain ⟨before, after, rfl, _⟩ := List.lookup_eq_some_iff.mp h
  simp

theorem lookup_of_mem {α β : Type} [BEq α] [LawfulBEq α] {xs : List (α × β)} {k : α} {v : β}
    (once : (xs.map Prod.fst).Nodup) (h : (k, v) ∈ xs) : xs.lookup k = some v := by
  obtain ⟨before, after, rfl⟩ := List.append_of_mem h
  refine List.lookup_eq_some_iff.mpr ⟨before, after, rfl, fun x hx => ?_⟩
  rw [List.map_append, List.nodup_append] at once
  exact bne_iff_ne.mpr (once.2.2 x.1 (List.mem_map_of_mem hx) k (by simp)).symm

theorem lookup_map_getD {α β : Type} {f : List α → List β} (empty : f [] = [])
    (xs : List (String × List α)) (k : String) :
    ((xs.map fun x => (x.1, f x.2)).lookup k).getD [] = f ((xs.lookup k).getD []) := by
  rw [lookup_map_value fun _ => f, ← Option.getD_map f, empty]

theorem lookup_setEntry {α : Type} (name : String) (value : α) (entries : List (String × α))
    (k : String) : (Datum.setEntry name value entries).lookup k =
      if k = name then some value else entries.lookup k := by
  have cons : ∀ (j : String) (v : α) rest,
      ((j, v) :: rest).lookup k = if k = j then some v else rest.lookup k := by
    intro j v rest
    by_cases found : k = j
    · simp [found]
    · have apart : (k == j) = false := beq_eq_false_iff_ne.mpr found
      rw [List.lookup_cons, apart, if_neg found]
  induction entries with
  | nil => exact cons name value []
  | cons entry entries ih =>
    obtain ⟨j, v⟩ := entry
    unfold Datum.setEntry
    by_cases here : j = name
    · rw [if_pos here, cons, cons, here]
      by_cases same : k = name
      · rw [if_pos same, if_pos same]
      · rw [if_neg same, if_neg same, if_neg same]
    · rw [if_neg here, cons, cons, ih]
      by_cases found : k = j
      · rw [if_pos found, if_pos found, if_neg (found ▸ here)]
      · rw [if_neg found, if_neg found]

theorem mem_keys_setEntry {α : Type} {name : String} {value : α} {entries : List (String × α)}
    {k : String} : k ∈ (Datum.setEntry name value entries).map Prod.fst ↔
      k = name ∨ k ∈ entries.map Prod.fst := by
  induction entries with
  | nil => simp [Datum.setEntry]
  | cons entry entries ih =>
    unfold Datum.setEntry
    by_cases here : entry.1 = name
    · rw [if_pos here, List.map_cons, List.map_cons, List.mem_cons, List.mem_cons, here,
        or_self_left]
    · rw [if_neg here, List.map_cons, List.map_cons, List.mem_cons, List.mem_cons, ih,
        or_left_comm]

theorem mem_keys_foldl_setEntry {α : Type} {given kept : List (String × α)} {k : String} :
    k ∈ (given.foldl (fun kept e => Datum.setEntry e.1 e.2 kept) kept).map Prod.fst ↔
      k ∈ given.map Prod.fst ∨ k ∈ kept.map Prod.fst := by
  induction given generalizing kept with
  | nil => simp
  | cons e given ih =>
    rw [List.foldl_cons, ih, mem_keys_setEntry, List.map_cons, List.mem_cons, or_left_comm,
      or_assoc]

theorem mem_setEntry {α : Type} {name : String} {value : α} {entries : List (String × α)}
    {e : String × α} (h : e ∈ Datum.setEntry name value entries) :
    e = (name, value) ∨ e ∈ entries := by
  induction entries with
  | nil => exact Or.inl (List.mem_singleton.mp h)
  | cons entry entries ih =>
    unfold Datum.setEntry at h
    split at h
    · exact (List.mem_cons.mp h).imp_right (List.mem_cons_of_mem _)
    · rcases List.mem_cons.mp h with rfl | h
      · exact Or.inr List.mem_cons_self
      · exact (ih h).imp_right (List.mem_cons_of_mem _)

theorem nodup_keys_setEntry {α : Type} {name : String} {value : α} {entries : List (String × α)}
    (once : (entries.map Prod.fst).Nodup) :
    ((Datum.setEntry name value entries).map Prod.fst).Nodup := by
  induction entries with
  | nil => simp [Datum.setEntry]
  | cons entry entries ih =>
    obtain ⟨new, once⟩ := List.nodup_cons.mp once
    unfold Datum.setEntry
    split
    case isTrue here => exact List.nodup_cons.mpr ⟨here ▸ new, once⟩
    case isFalse other =>
      refine List.nodup_cons.mpr ⟨fun again => ?_, ih once⟩
      exact (mem_keys_setEntry.mp again).elim other new

theorem nodup_keys_foldl_setEntry {α : Type} {given kept : List (String × α)}
    (once : (kept.map Prod.fst).Nodup) :
    ((given.foldl (fun kept e => Datum.setEntry e.1 e.2 kept) kept).map Prod.fst).Nodup := by
  induction given generalizing kept with
  | nil => exact once
  | cons e given ih => exact ih (nodup_keys_setEntry once)

theorem mem_foldl_setEntry {α : Type} {given kept : List (String × α)} {e : String × α}
    (h : e ∈ given.foldl (fun kept e => Datum.setEntry e.1 e.2 kept) kept) :
    e ∈ given ∨ e ∈ kept := by
  induction given generalizing kept with
  | nil => exact Or.inr h
  | cons first given ih =>
    rcases ih h with later | before
    · exact Or.inl (List.mem_cons_of_mem _ later)
    · rcases mem_setEntry before with rfl | before
      · exact Or.inl List.mem_cons_self
      · exact Or.inr before

end Autotile
