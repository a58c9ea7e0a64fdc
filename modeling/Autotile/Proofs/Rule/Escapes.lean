import Autotile.Proofs.Rule.Reading

/-! # Where reading stops although nothing is malformed

Two kinds of names pass the reader's checks and are not read: a path that a line end closes has a
letter that is no direction, and a numeral can be too long. Every other name is read or found
malformed. -/
namespace Autotile.Rule

open Text Numeral

section

variable {α β : Type}

/-- The computation fails, and not because it finds something malformed. -/
def Escaped (x : Except IdentifierFault α) : Prop :=
  ∃ fault, x = .error fault ∧ ∀ bad, fault ≠ .malformed bad

theorem not_escaped_ok (a : α) : ¬Escaped (.ok a) := by
  rintro ⟨fault, h, -⟩
  cases h

theorem not_escaped_malformed (bad : RuleFault) : ¬Escaped (malformed bad : Except _ α) := by
  rintro ⟨fault, h, other⟩
  exact other bad (Except.error.inj h).symm

theorem escaped_bind_iff {x : Except IdentifierFault α} {f : α → Except IdentifierFault β} :
    Escaped (x >>= f) ↔ Escaped x ∨ ∃ a, x = .ok a ∧ Escaped (f a) := by
  cases x with
  | error fault =>
    constructor
    · rintro ⟨fault', h, other⟩
      exact Or.inl ⟨fault', congrArg Except.error (Except.error.inj h), other⟩
    · rintro (⟨fault', h, other⟩ | ⟨a, h, -⟩)
      · exact ⟨fault', congrArg Except.error (Except.error.inj h), other⟩
      · cases h
  | ok a =>
    constructor
    · exact fun h => Or.inr ⟨a, rfl, h⟩
    · rintro (h | ⟨b, h, escaped⟩)
      · exact absurd h (not_escaped_ok a)
      · obtain rfl := Except.ok.inj h
        exact escaped

theorem escaped_checked_iff {p : Prop} [Decidable p] {x : Except IdentifierFault α}
    {bad : RuleFault} : Escaped (if p then x else malformed bad) ↔ p ∧ Escaped x := by
  by_cases h : p
  · simp [h]
  · simp [h, not_escaped_malformed]

theorem escaped_checkedNot_iff {p : Prop} [Decidable p] {x : Except IdentifierFault α}
    {bad : RuleFault} : Escaped (if p then malformed bad else x) ↔ ¬p ∧ Escaped x := by
  by_cases h : p
  · simp [h, not_escaped_malformed]
  · simp [h]

theorem eq_malformed {x : Except IdentifierFault α} (ok : ∀ a, x ≠ .ok a) (h : ¬Escaped x) :
    ∃ bad, x = malformed bad := by
  cases x with
  | ok a => exact absurd rfl (ok a)
  | error fault =>
    cases fault with
    | malformed bad => exact ⟨bad, rfl⟩
    | code text => exact absurd ⟨_, rfl, fun _ => nofun⟩ h
    | numeral fault => exact absurd ⟨_, rfl, fun _ => nofun⟩ h

end

def BrokenToken (token : List Char) : Prop :=
  ∃ p : Path, p ≠ [] ∧ ∃ rest, token = p.code ++ '\n' :: ':' :: rest

inductive LongBand (band : List Char) : Prop where
  | numerals {m i : List Char} (line : IsLine (m ++ ':' :: i) band)
      (modulus : Text.Word isDigit m) (index : Text.Word isDigit i)
      (long : digitLimit < m.length ∨ digitLimit < i.length)

/-- The name is well spelled up to a path that a line end closes, or but for the length of a
numeral. -/
inductive Escapes (name : String) : Prop where
  | code {type slot constraints token : List Char} {band : Option (List Char)}
      {before after : List (List Char)} {given : List Constraint}
      (opens : Opens name type slot constraints band)
      (cut : fields ',' constraints = before ++ token :: after)
      (tokens : accepted.Tokens before given) (broken : BrokenToken token)
  | numeral {type slot constraints band : List Char} {given : List Constraint}
      (opens : Opens name type slot constraints (some band))
      (tokens : accepted.Tokens (fields ',' constraints) given) (long : LongBand band)

theorem escaped_readPath_line (p : Path) : Escaped (readPath (p.code ++ ['\n'])) := by
  induction p with
  | nil => exact ⟨.code "\n", rfl, fun _ => nofun⟩
  | cons d p ih =>
    obtain ⟨fault, h, other⟩ := ih
    refine ⟨fault, ?_, other⟩
    change readPath (d.code :: (Path.code p ++ ['\n'])) = _
    simp only [readPath, Direction.ofCode?_code, h]
    rfl

section

variable {name : String} {token letters rest : List Char}

theorem escaped_readHalves_iff : Escaped (readHalves name token letters rest) ↔
    Escaped (readPath letters) := by
  constructor
  · intro h
    rcases escaped_bind_iff.mp h with path | ⟨p, -, requirement⟩
    · exact path
    · cases hr : requirement? rest with
      | none =>
        rw [hr] at requirement
        exact absurd requirement (not_escaped_malformed _)
      | some r =>
        rw [hr] at requirement
        exact absurd requirement (not_escaped_ok _)
  · intro path
    exact escaped_bind_iff.mpr (Or.inl path)

theorem escaped_readConstraint_iff : Escaped (readConstraint name token) ↔ BrokenToken token := by
  constructor
  · intro h
    by_cases colon : ':' ∈ token
    · obtain ⟨letters, rest, rfl, bare⟩ := List.eq_append_cons_of_mem colon
      rw [readConstraint_path bare, escaped_checked_iff, escaped_readHalves_iff] at h
      obtain ⟨path, h⟩ := h
      obtain ⟨p, nonempty, rfl | rfl⟩ := isPath_iff.mp path
      · rw [readPath_code] at h
        exact absurd h (not_escaped_ok p)
      · exact ⟨p, nonempty, rest, List.append_assoc _ _ _⟩
    · rw [readConstraint_letter colon, escaped_checked_iff, escaped_readHalves_iff] at h
      obtain ⟨path, h⟩ := h
      obtain ⟨p, nonempty, letter | line⟩ := isPath_iff.mp path
      · rw [letter, readPath_code] at h
        exact absurd h (not_escaped_ok p)
      · -- one character is not both a letter and the line end after it
        have short : (token.take 1).length ≤ 1 := List.length_take_le 1 token
        have letters : 0 < p.code.length := by
          rw [Path.code, List.length_map]
          exact List.length_pos_iff.mpr nonempty
        rw [line, List.length_append, List.length_singleton] at short
        omega
  · rintro ⟨p, nonempty, rest, rfl⟩
    have regroup : p.code ++ '\n' :: ':' :: rest = p.code ++ ['\n'] ++ ':' :: rest :=
      List.append_cons p.code '\n' (':' :: rest)
    have bare : ':' ∉ p.code ++ ['\n'] := by
      intro hm
      rcases List.mem_append.mp hm with hm | hm
      · exact colon_notMem_code p hm
      · exact absurd hm (by decide)
    rw [regroup, readConstraint_path bare,
      if_pos (isPath_iff.mpr ⟨p, nonempty, Or.inr rfl⟩), escaped_readHalves_iff]
    exact escaped_readPath_line p

theorem escaped_readConstraints_iff {given : List Constraint} {tokens : List (List Char)}
    (once : (given.map (·.path)).Nodup) :
    Escaped (readConstraints name given tokens) ↔
      ∃ before token after new, tokens = before ++ token :: after ∧
        List.Forall₂ accepted.Token before new ∧ ((given ++ new).map (·.path)).Nodup ∧
        BrokenToken token := by
  induction tokens generalizing given with
  | nil =>
    constructor
    · exact fun h => absurd h (not_escaped_ok given)
    · rintro ⟨before, token, after, new, split, -⟩
      exact absurd split.symm (List.append_ne_nil_of_right_ne_nil _ (List.cons_ne_nil _ _))
  | cons token tokens ih =>
    unfold readConstraints
    rw [escaped_bind_iff]
    constructor
    · rintro (here | ⟨c, hc, later⟩)
      · refine ⟨[], token, tokens, [], rfl, .nil, ?_, escaped_readConstraint_iff.mp here⟩
        rwa [List.append_nil]
      · obtain ⟨again, later⟩ := escaped_checkedNot_iff.mp later
        obtain ⟨before, broken, after, new, rfl, read, nodup, line⟩ :=
          (ih ((nodup_concat_iff once).mpr again)).mp later
        refine ⟨token :: before, broken, after, c :: new, rfl, ?_, ?_, line⟩
        · exact .cons (readConstraint_eq_ok_iff.mp hc) read
        · rwa [List.append_cons]
    · rintro ⟨before, broken, after, new, split, read, nodup, line⟩
      cases read with
      | nil =>
        obtain ⟨rfl, -⟩ := List.cons.inj split
        exact Or.inl (escaped_readConstraint_iff.mpr line)
      | @cons _ c before new head read =>
        obtain ⟨rfl, rfl⟩ := List.cons.inj split
        have fresh := nodup_concat_of_append nodup
        rw [List.append_cons] at nodup
        refine Or.inr ⟨c, readConstraint_eq_ok_iff.mpr head, ?_⟩
        rw [if_neg ((nodup_concat_iff once).mp fresh)]
        exact (ih fresh).mpr ⟨before, broken, after, new, rfl, read, nodup, line⟩

theorem escaped_readDigits_iff {cs : List Char} :
    Escaped ((readDigits cs).mapError IdentifierFault.numeral) ↔ digitLimit < cs.length := by
  unfold readDigits
  by_cases long : digitLimit < cs.length
  · rw [if_pos long]
    exact iff_of_true ⟨_, rfl, fun _ => nofun⟩ long
  · rw [if_neg long]
    exact iff_of_false (not_escaped_ok _) long

theorem escaped_readElevation_iff {band : List Char} :
    Escaped (readElevation name band) ↔ LongBand band := by
  constructor
  · intro h
    rcases readElevation_cases name band with ⟨m, i, line, modulus, index⟩ | bad
    · rw [readElevation_numerals line modulus index] at h
      refine .numerals line modulus index ?_
      rcases escaped_bind_iff.mp h with long | ⟨a, -, h⟩
      · exact Or.inl (escaped_readDigits_iff.mp long)
      rcases escaped_bind_iff.mp h with long | ⟨b, -, h⟩
      · exact Or.inr (escaped_readDigits_iff.mp long)
      exact absurd (escaped_checkedNot_iff.mp h).2 (not_escaped_ok _)
    · rw [bad] at h
      exact absurd h (not_escaped_malformed _)
  · intro h
    cases h with
    | @numerals m i line modulus index long =>
      rw [readElevation_numerals line modulus index, escaped_bind_iff]
      by_cases first : digitLimit < m.length
      · exact Or.inl (escaped_readDigits_iff.mpr first)
      · refine Or.inr ⟨_, readDigits_eq_ok_iff.mpr ⟨by omega, rfl⟩, ?_⟩
        exact escaped_bind_iff.mpr (Or.inl (escaped_readDigits_iff.mpr (long.resolve_left first)))

theorem escaped_ofName_iff : Escaped (ofName name) ↔ Escapes name := by
  have once : (([] : List Constraint).map (·.path)).Nodup := List.nodup_nil
  constructor
  · intro h
    rcases ofName_cases name with ⟨type, slot, constraints, band, opens⟩ | ⟨bad, malformed⟩
    · rw [ofName_of_opens opens] at h
      rcases escaped_bind_iff.mp h with code | ⟨given, tokens, h⟩
      · obtain ⟨before, token, after, given, cut, read, nodup, broken⟩ :=
          (escaped_readConstraints_iff once).mp code
        exact .code opens cut ⟨read, nodup⟩ broken
      rcases escaped_bind_iff.mp h with numeral | ⟨elevation, -, h⟩
      · cases band with
        | none => exact absurd numeral (not_escaped_ok _)
        | some band =>
          have long : Escaped (readElevation name band) := by
            rw [Option.mapM_some, map_eq_pure_bind, escaped_bind_iff] at numeral
            exact numeral.resolve_right fun ⟨_, _, ok⟩ => not_escaped_ok _ ok
          exact .numeral opens (readConstraints_nil_eq_ok_iff.mp tokens)
            (escaped_readElevation_iff.mp long)
      · exact absurd h (not_escaped_ok _)
    · rw [malformed] at h
      exact absurd h (not_escaped_malformed _)
  · rintro (⟨opens, cut, tokens, broken⟩ | ⟨opens, tokens, long⟩)
    · rw [ofName_of_opens opens, readBody, escaped_bind_iff]
      exact Or.inl ((escaped_readConstraints_iff once).mpr
        ⟨_, _, _, _, cut, tokens.1, tokens.2, broken⟩)
    · rw [ofName_of_opens opens, readBody, escaped_bind_iff]
      refine Or.inr ⟨_, readConstraints_nil_eq_ok_iff.mpr tokens, ?_⟩
      rw [escaped_bind_iff, Option.mapM_some, map_eq_pure_bind, escaped_bind_iff]
      exact Or.inl (Or.inl (escaped_readElevation_iff.mpr long))

end

end Autotile.Rule
