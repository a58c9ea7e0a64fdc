import Mathlib.Algebra.BigOperators.Group.List.Basic
import Mathlib.Algebra.Ring.Nat
import Mathlib.Data.List.Nodup
import Autotile.Proofs.Rule.Soundness

/-! # Whatever is spelled as documented is read

An identifier of the documented form gives the rule that it denotes, if its numerals are short
enough to be read. The rule lists the six directions in their order and then the compound paths as
they were given, and its score is what the tokens weigh together. -/
namespace Autotile.Rule

open Text Numeral

inductive ReadableBand : List Char → ElevationBand → Prop where
  | numerals {m i : List Char} (modulus : Text.Word isAsciiDigit m)
      (index : Text.Word isAsciiDigit i) (short : m.length ≤ digitLimit)
      (short' : i.length ≤ digitLimit) (positive : 1 ≤ digitsValue m) :
      ReadableBand (m ++ ':' :: i) ⟨digitsValue m, digitsValue i⟩

/-- The documented spelling, but for numerals of more than 4300 digits. -/
def readable : Spelling := ⟨Text.Word isTypeChar, ReadableBand⟩

/-- How a rule lists the constraints that it was given: each direction as it was given, or free if
it was not, and then the compound paths in the order in which they were given. -/
def Lists (given listed : List Constraint) : Prop :=
  ∃ base : Direction → Requirement,
    listed = Direction.all.map (fun d => ⟨[d], base d⟩) ++ given.filter (·.isCompound) ∧
    ∀ d, (⟨[d], base d⟩ : Constraint) ∈ given ∨ base d = .any ∧ ∀ c ∈ given, c.path ≠ [d]

theorem isDigit_of_isAsciiDigit {c : Char} (h : isAsciiDigit c = true) : isDigit c = true := by
  rw [isDigit, decimalValue?_of_isAsciiDigit h]
  rfl

theorem acceptedBand_of_readable {band : List Char} {e : ElevationBand} (h : ReadableBand band e) :
    AcceptedBand band e := by
  cases h with
  | numerals modulus index short short' positive =>
    rw [← numeralValue_of_ascii modulus.2] at positive ⊢
    rw [← numeralValue_of_ascii index.2]
    exact .numerals (Or.inl rfl) ⟨modulus.1, fun c hc => isDigit_of_isAsciiDigit (modulus.2 c hc)⟩
      ⟨index.1, fun c hc => isDigit_of_isAsciiDigit (index.2 c hc)⟩ short short' positive

section

variable {p : Phrase} {given : List Constraint} {elevation : Option ElevationBand}

theorem accepted_of_readable (h : readable.Denotes p given elevation) :
    accepted.Denotes p given elevation := by
  apply h.imp
  · intro _ _ cs _ word
    exact ⟨cs, word, Or.inl rfl⟩
  · intro _ _ e spelled
    exact acceptedBand_of_readable spelled

theorem path_ne_nil {s : Spelling} {token : List Char} {c : Constraint} (h : s.Token token c) :
    c.path ≠ [] := by
  cases h with
  | letter => exact List.cons_ne_nil _ _
  | path nonempty => exact nonempty

theorem Spelling.Tokens.exists_token {s : Spelling} {tokens : List (List Char)}
    (h : s.Tokens tokens given) : ∀ c ∈ given, ∃ token, s.Token token c := by
  obtain ⟨spelled, once⟩ := h
  clear once
  induction spelled with
  | nil => exact fun c hc => absurd hc List.not_mem_nil
  | cons head _ ih => exact List.forall_mem_cons.mpr ⟨⟨_, head⟩, ih⟩

theorem Spelling.Tokens.path_ne_nil {s : Spelling} {tokens : List (List Char)}
    (h : s.Tokens tokens given) : ∀ c ∈ given, c.path ≠ [] := by
  intro c hc
  obtain ⟨token, spelled⟩ := h.exists_token c hc
  exact Rule.path_ne_nil spelled

def givenFor (given : List Constraint) (d : Direction) : Option Constraint :=
  given.find? (·.path = [d])

theorem givenFor_eq_none {d : Direction} (h : givenFor given d = none) :
    ∀ c ∈ given, c.path ≠ [d] := by
  intro c hc path
  exact List.find?_eq_none.mp h c hc (decide_eq_true path)

theorem givenFor_eq_some_iff (once : (given.map (·.path)).Nodup) {d : Direction} {c : Constraint} :
    givenFor given d = some c ↔ c ∈ given ∧ c.path = [d] := by
  have sound {c : Constraint} (h : givenFor given d = some c) : c ∈ given ∧ c.path = [d] := by
    have path := List.find?_some h
    exact ⟨List.mem_of_find?_eq_some h, of_decide_eq_true path⟩
  constructor
  · exact sound
  · rintro ⟨hc, path⟩
    cases found : givenFor given d with
    | none => exact absurd path (givenFor_eq_none found c hc)
    | some c' =>
      obtain ⟨hc', path'⟩ := sound found
      rw [List.inj_on_of_nodup_map once hc' hc (path'.trans path.symm)]

theorem arrange_eq (given : List Constraint) : arrange given =
    Direction.all.map (fun d => (givenFor given d).getD { path := [d] }) ++
      given.filter (·.isCompound) := rfl

theorem lists_arrange (once : (given.map (·.path)).Nodup) : Lists given (arrange given) := by
  have shown (d : Direction) : (givenFor given d).getD { path := [d] } =
      ⟨[d], ((givenFor given d).getD { path := [d] }).requirement⟩ := by
    cases found : givenFor given d with
    | none => rfl
    | some c =>
      obtain ⟨-, path⟩ := (givenFor_eq_some_iff once).mp found
      rw [Option.getD_some, ← path]
  refine ⟨fun d => ((givenFor given d).getD { path := [d] }).requirement, ?_, fun d => ?_⟩
  · rw [arrange_eq]
    congr 1
    exact List.map_congr_left fun d _ => shown d
  · dsimp only
    rw [← shown]
    cases found : givenFor given d with
    | none => exact Or.inr ⟨rfl, givenFor_eq_none found⟩
    | some c => exact Or.inl ((givenFor_eq_some_iff once).mp found).1

theorem given_perm (once : (given.map (·.path)).Nodup) (paths : ∀ c ∈ given, c.path ≠ []) :
    given.Perm (Direction.all.filterMap (givenFor given) ++ given.filter (·.isCompound)) := by
  have single : (Direction.all.filterMap (givenFor given)).Nodup := by
    refine List.Nodup.filterMap ?_ (by decide)
    intro d d' c hd hd'
    have path := ((givenFor_eq_some_iff once).mp hd).2
    rw [((givenFor_eq_some_iff once).mp hd').2] at path
    exact (List.head_eq_of_cons_eq path).symm
  have nodup : given.Nodup := List.Nodup.of_map _ once
  have apart : (Direction.all.filterMap (givenFor given) ++
      given.filter (·.isCompound)).Nodup := by
    refine List.nodup_append.mpr ⟨single, nodup.filter _, ?_⟩
    rintro c hc _ hc' rfl
    obtain ⟨d, -, found⟩ := List.mem_filterMap.mp hc
    have compound := (List.mem_filter.mp hc').2
    rw [Constraint.isCompound, ((givenFor_eq_some_iff once).mp found).2] at compound
    cases compound
  apply (List.perm_ext_iff_of_nodup nodup apart).mpr
  intro c
  simp only [List.mem_append, List.mem_filterMap, List.mem_filter, givenFor_eq_some_iff once]
  constructor
  · intro hc
    match path : c.path with
    | [] => exact absurd path (paths c hc)
    | [d] => exact Or.inl ⟨d, Direction.mem_all d, hc, rfl⟩
    | _ :: _ :: _ => exact Or.inr ⟨hc, by simp [Constraint.isCompound, path]⟩
  · rintro (⟨d, -, hc, -⟩ | ⟨hc, -⟩) <;> exact hc

theorem forall_arrange_iff (once : (given.map (·.path)).Nodup) (paths : ∀ c ∈ given, c.path ≠ [])
    {P : Constraint → Prop} (free : ∀ p, P { path := p }) :
    (∀ c ∈ arrange given, P c) ↔ ∀ c ∈ given, P c := by
  rw [arrange_eq]
  constructor
  · intro h c hc
    rcases List.mem_append.mp ((given_perm once paths).mem_iff.mp hc) with named | compound
    · obtain ⟨d, hd, found⟩ := List.mem_filterMap.mp named
      refine h c (List.mem_append_left _ (List.mem_map.mpr ⟨d, hd, ?_⟩))
      rw [found, Option.getD_some]
    · exact h c (List.mem_append_right _ compound)
  · intro h c hc
    rcases List.mem_append.mp hc with listed | compound
    · obtain ⟨d, -, rfl⟩ := List.mem_map.mp listed
      cases found : givenFor given d with
      | none => exact free [d]
      | some c => exact h c ((givenFor_eq_some_iff once).mp found).1
    · exact h c (List.mem_filter.mp compound).1

theorem weigh_filterMap (f : Direction → Option Constraint) (ds : List Direction) :
    ((ds.filterMap f).map Constraint.weight).sum =
      (ds.map fun d => ((f d).getD { path := [d] }).weight).sum := by
  induction ds with
  | nil => rfl
  | cons d ds ih =>
    cases h : f d with
    | none => simp [h, ih, Constraint.weight, Requirement.weight]
    | some c => simp [h, ih]

theorem score_arrange (once : (given.map (·.path)).Nodup) (paths : ∀ c ∈ given, c.path ≠ []) :
    (arrange given).foldl (fun score c => score + c.weight) 0 =
      (given.map Constraint.weight).sum := by
  calc (arrange given).foldl (fun score c => score + c.weight) 0
      = ((arrange given).map Constraint.weight).sum := by
        rw [List.sum_eq_foldl, List.foldl_map]
    _ = ((Direction.all.filterMap (givenFor given) ++ given.filter (·.isCompound)).map
          Constraint.weight).sum := by
        rw [arrange_eq, List.map_append, List.map_append, List.sum_append, List.sum_append,
          weigh_filterMap, List.map_map]
        rfl
    _ = (given.map Constraint.weight).sum :=
        ((given_perm once paths).map Constraint.weight).sum_eq.symm

/-- What is spelled as documented is read, and gives the rule that it denotes. -/
theorem identifier_reading_complete {name : String}
    (denotes : readable.Denotes p given elevation) (names : p.Names name) :
    ∃ listed, Lists given listed ∧ ofName name = .ok {
      name
      type := String.ofList p.type
      slot := p.slot
      constraints := listed
      elevation
      score := (given.map Constraint.weight).sum } := by
  refine ⟨arrange given, lists_arrange denotes.tokens.2, ?_⟩
  have read := ofName_eq_ok_iff.mpr ⟨p, given, elevation, accepted_of_readable denotes, names, rfl⟩
  rw [read, Phrase.rule, score_arrange denotes.tokens.2 denotes.tokens.path_ne_nil]

end

/-- Both notations, literals that start with a digit or a letter of a direction, a compound path
between directions, and an elevation with leading zeros. -/
theorem identifier_reading_complete_mixed_notation :
    let p : Phrase := ⟨"dirt_grass1".toList, "22",
      ["unesw".toList, "n:0".toList, "wu:type".toList, "d1x".toList], some "007:2".toList⟩
    let given : List Constraint := [⟨[.up], .exactly "nesw"⟩, ⟨[.north], .empty⟩,
      ⟨[.west, .up], .exactly "type"⟩, ⟨[.down], .exactly "1x"⟩]
    let name := "dirt_grass1-22-unesw,n:0,wu:type,d1x-007:2.png"
    readable.Denotes p given (some ⟨7, 2⟩) ∧ p.Names name ∧
      ∃ listed, Lists given listed ∧
        ofName name = .ok ⟨name, "dirt_grass1", "22", listed, some ⟨7, 2⟩, 20⟩ := by
  intro p given name
  have literal (cs : List Char) (word : Text.Word isTypeChar cs)
      (plain : ∀ r ∈ Requirement.symbolic, cs ≠ r.symbol.toList) :
      readable.Requires cs (.exactly (String.ofList cs)) := .literal word plain
  have tokens : readable.Tokens p.tokens given := by
    refine ⟨.cons ?_ (.cons ?_ (.cons ?_ (.cons ?_ .nil))), by decide⟩
    · exact .letter (d := .up) (literal "nesw".toList (by decide) (by decide))
    · exact .path (p := [.north]) (by decide) (.symbol (r := .empty) (by decide))
    · exact .path (p := [.west, .up]) (by decide)
        (literal "type".toList (by decide) (by decide))
    · exact .letter (d := .down) (literal "1x".toList (by decide) (by decide))
  have band : ReadableBand "007:2".toList ⟨7, 2⟩ :=
    .numerals (m := "007".toList) (i := "2".toList) (by decide) (by decide) (by decide) (by decide)
      (by decide)
  have type : Text.Word isTypeChar p.type := by decide
  have denotes : readable.Denotes p given (some ⟨7, 2⟩) :=
    ⟨type, by decide, by decide, tokens, .some band⟩
  have names : p.Names name := Or.inr (by decide)
  exact ⟨denotes, names, identifier_reading_complete denotes names⟩

end Autotile.Rule
