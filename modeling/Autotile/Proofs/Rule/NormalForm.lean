import Autotile.Proofs.Rule.Completeness

/-! # The normal form of an identifier

A rule that was read can be written back: its type, its slot, a token for each of its constraints,
free directions included, and the two numerals of its elevation. However the identifier was spelled,
what is written is read as the same rule. -/
namespace Autotile

open Text Numeral

namespace ElevationBand

def text (b : ElevationBand) : String := toString b.modulus ++ ":" ++ toString b.index

def Writable (b : ElevationBand) : Prop := Numeral.Writable b.modulus ∧ Numeral.Writable b.index

instance (b : ElevationBand) : Decidable b.Writable := inferInstanceAs (Decidable (_ ∧ _))

def text? (b : ElevationBand) : Except NumeralFault String :=
  if b.Writable then .ok b.text else .error .tooLongToWrite

end ElevationBand

namespace Rule

/-- `<type>-<slot>-<tokens>[-<modulus>:<index>]` -/
def identifier? (r : Rule) : Except NumeralFault String := do
  let band ← r.elevation.mapM ElevationBand.text?
  let tokens := ",".intercalate (r.constraints.map Constraint.token)
  return "-".intercalate ([r.type, r.slot, tokens] ++ band.toList)

/-- A rule as the reader makes it, whatever its name. -/
structure WellFormed (r : Rule) : Prop where
  type : ClosedWord r.type.toList
  slot : r.slot ∈ Sprite.slots
  arranged : arrange r.constraints = r.constraints
  tokens : accepted.Tokens (r.constraints.map (·.token.toList)) r.constraints
  elevation : ∀ b ∈ r.elevation, 1 ≤ b.modulus ∧ b.Writable
  score : r.score = r.constraints.foldl (fun score c => score + c.weight) 0

/-! Arranged constraints stay as they are, and each is denoted by its own token. -/

section

variable {given : List Constraint}

theorem arrange_listed (base : Direction → Requirement)
    (compound : ∀ c ∈ given, c.isCompound = true) :
    arrange (Direction.all.map (fun d => ⟨[d], base d⟩) ++ given) =
      Direction.all.map (fun d => ⟨[d], base d⟩) ++ given := by
  have found (d : Direction) :
      givenFor (Direction.all.map (fun d => ⟨[d], base d⟩) ++ given) d = some ⟨[d], base d⟩ := by
    cases d <;> simp [givenFor, Direction.all]
  have single : (Direction.all.map fun d => (⟨[d], base d⟩ : Constraint)).filter
      (·.isCompound) = [] := by
    simp [Direction.all, Constraint.isCompound]
  rw [arrange_eq, List.filter_append, single, List.filter_eq_self.mpr compound, List.nil_append]
  simp only [found, Option.getD_some]

theorem arrange_arrange (once : (given.map (·.path)).Nodup) :
    arrange (arrange given) = arrange given := by
  obtain ⟨base, listed, -⟩ := lists_arrange once
  rw [listed]
  exact arrange_listed base fun c hc => (List.mem_filter.mp hc).2

theorem paths_arrange (once : (given.map (·.path)).Nodup) : (arrange given).map (·.path) =
    Direction.all.map (fun d => [d]) ++ (given.filter (·.isCompound)).map (·.path) := by
  obtain ⟨base, listed, -⟩ := lists_arrange once
  rw [listed, List.map_append, List.map_map]
  rfl

theorem nodup_paths_arrange (once : (given.map (·.path)).Nodup) :
    ((arrange given).map (·.path)).Nodup := by
  rw [paths_arrange once, List.nodup_append]
  refine ⟨by decide, once.sublist (List.filter_sublist.map _), ?_⟩
  rintro p hp _ hp' rfl
  obtain ⟨d, -, rfl⟩ := List.mem_map.mp hp
  obtain ⟨c, hc, path⟩ := List.mem_map.mp hp'
  have compound := (List.mem_filter.mp hc).2
  rw [Constraint.isCompound, path] at compound
  cases compound

theorem requires_symbol {cs : List Char} {r : Requirement} (h : accepted.Requires cs r) :
    accepted.Requires r.symbol.toList r := by
  cases h with
  | symbol symbolic => exact .symbol symbolic
  | literal word plain =>
    rw [Requirement.symbol, String.toList_ofList]
    exact .literal word plain

theorem requires_of_token {token : List Char} {c : Constraint} (h : accepted.Token token c) :
    accepted.Requires c.requirement.symbol.toList c.requirement := by
  cases h with
  | letter requires | path _ requires => exact requires_symbol requires

theorem token_token {c : Constraint} (path : c.path ≠ [])
    (requires : accepted.Requires c.requirement.symbol.toList c.requirement) :
    accepted.Token c.token.toList c := by
  have halves : c.token.toList = c.path.code ++ ':' :: c.requirement.symbol.toList := by
    simp [Constraint.token]
  rw [halves]
  exact .path path requires

theorem tokens_arrange {tokens : List (List Char)} (h : accepted.Tokens tokens given) :
    accepted.Tokens ((arrange given).map (·.token.toList)) (arrange given) := by
  have requires : ∀ c ∈ arrange given,
      accepted.Requires c.requirement.symbol.toList c.requirement := by
    refine (forall_arrange_iff h.2 h.path_ne_nil fun _ => .symbol (r := .any) (by decide)).mpr
      fun c hc => ?_
    obtain ⟨token, spelled⟩ := h.exists_token c hc
    exact requires_of_token spelled
  have path : ∀ c ∈ arrange given, c.path ≠ [] := by
    intro c hc
    have listed := List.mem_map_of_mem (f := (·.path)) hc
    rw [paths_arrange h.2, List.mem_append] at listed
    rcases listed with single | compound
    · obtain ⟨d, -, path⟩ := List.mem_map.mp single
      exact path ▸ List.cons_ne_nil d []
    · obtain ⟨c', hc', path⟩ := List.mem_map.mp compound
      exact path ▸ h.path_ne_nil c' (List.mem_filter.mp hc').1
  refine ⟨?_, nodup_paths_arrange h.2⟩
  rw [List.forall₂_map_left_iff, List.forall₂_same]
  exact fun c hc => token_token (path c hc) (requires c hc)

end

/-! The numerals of a band: what was read is short enough to be written, and is read back. -/

theorem not_isBlank_of_isDigit {c : Char} (h : isDigit c = true) : isBlank c = false := by
  obtain ⟨value, hv⟩ := Option.isSome_iff_exists.mp h
  obtain ⟨z, hz, -⟩ := Option.map_eq_some_iff.mp hv
  have range := List.find?_some hz
  simp only [Bool.and_eq_true, decide_eq_true_eq] at range
  have apart : ∀ z ∈ decimalZeros, ∀ blank ∈ blankRanges, blank.2 < z ∨ z + 9 < blank.1 := by
    decide
  refine List.any_eq_false.mpr fun blank hb => ?_
  have := apart z (List.mem_of_find?_eq_some hz) blank hb
  simp only [Bool.and_eq_true, decide_eq_true_eq]
  omega

theorem isAsciiDigit_plainChar {c : Char} (h : isDigit c = true) :
    isAsciiDigit (plainChar c) = true := by
  unfold plainChar
  by_cases low : c.toNat < 127
  · rw [if_pos low]
    exact isAsciiDigit_of_isDigit h (by omega)
  · obtain ⟨value, hv⟩ := Option.isSome_iff_exists.mp h
    have digits : ∀ d < 10, isAsciiDigit (Nat.digitChar d) = true := by decide
    rw [if_neg low, not_isBlank_of_isDigit h, if_neg Bool.false_ne_true, hv]
    exact digits value (decimalValue?_lt hv)

theorem writable_numeralValue {cs : List Char} (word : Text.Word isDigit cs)
    (short : cs.length ≤ digitLimit) : Numeral.Writable (numeralValue cs) := by
  have ascii : ∀ c ∈ cs.map plainChar, isAsciiDigit c = true := by
    intro c hc
    obtain ⟨d, hd, rfl⟩ := List.mem_map.mp hc
    exact isAsciiDigit_plainChar (word.2 d hd)
  have bound := digitsValue_lt ascii
  rw [List.length_map] at bound
  unfold Numeral.Writable writeBound numeralValue
  -- the limit is far too large for its power to be evaluated
  generalize digitLimit = limit at short
  exact Nat.lt_of_lt_of_le bound (Nat.pow_le_pow_right (by decide) short)

theorem AcceptedBand.writable {band : List Char} {b : ElevationBand} (h : AcceptedBand band b) :
    1 ≤ b.modulus ∧ b.Writable := by
  cases h with
  | numerals _ modulus index short short' positive =>
    exact ⟨positive, writable_numeralValue modulus short, writable_numeralValue index short'⟩

theorem written_numeral {n : Nat} (writable : Numeral.Writable n) :
    Text.Word isAsciiDigit (Nat.toDigits 10 n) ∧ (Nat.toDigits 10 n).length ≤ digitLimit ∧
      digitsValue (Nat.toDigits 10 n) = n :=
  ⟨(Cell.writtenPart n).word, (Cell.readable_writtenPart writable).short,
    Nat.ofDigitChars_toDigits (by decide) (by decide)⟩

theorem acceptedBand_text {b : ElevationBand} (positive : 1 ≤ b.modulus) (writable : b.Writable) :
    AcceptedBand b.text.toList b := by
  obtain ⟨modulus, short, value⟩ := written_numeral writable.1
  obtain ⟨index, short', value'⟩ := written_numeral writable.2
  have spelled : b.text.toList = Nat.toDigits 10 b.modulus ++ ':' :: Nat.toDigits 10 b.index := by
    simp [ElevationBand.text, Nat.toList_repr]
  have band := ReadableBand.numerals modulus index short short' (by omega)
  rw [value, value', ← spelled] at band
  exact acceptedBand_of_readable band

theorem wellFormed_of_read {name : String} {r : Rule} (read : ofName name = .ok r) :
    r.WellFormed := by
  obtain ⟨p, given, elevation, denotes, -, rfl⟩ := ofName_eq_ok_iff.mp read
  constructor
  case type =>
    rw [Phrase.rule, String.toList_ofList]
    exact denotes.type
  case slot => exact denotes.slot
  case arranged => exact arrange_arrange denotes.tokens.2
  case tokens => exact tokens_arrange denotes.tokens
  case elevation =>
    rintro b rfl
    have band : Option.Rel AcceptedBand p.band (some b) := denotes.band
    generalize p.band = spelled at band
    cases band with
    | some accepts => exact accepts.writable
  case score => rfl

def phrase (r : Rule) : Phrase where
  type := r.type.toList
  slot := r.slot
  tokens := r.constraints.map (·.token.toList)
  band := r.elevation.map (·.text.toList)

theorem WellFormed.denotes {r : Rule} (h : r.WellFormed) :
    accepted.Denotes r.phrase r.constraints r.elevation where
  type := h.type
  slot := h.slot
  nonempty := by
    intro empty
    have arranged := h.arranged
    rw [List.map_eq_nil_iff.mp empty] at arranged
    exact absurd arranged (by decide)
  tokens := h.tokens
  band := by
    change Option.Rel AcceptedBand (r.elevation.map _) _
    cases he : r.elevation with
    | none => exact .none
    | some b =>
      obtain ⟨positive, writable⟩ := h.elevation b he
      exact .some (acceptedBand_text positive writable)

theorem joinFields_eq_intercalate (sep : Char) (fs : List (List Char)) :
    joinFields sep fs = [sep].intercalate fs := by
  induction fs with
  | nil => rfl
  | cons f fs ih =>
    cases fs with
    | nil => simp [joinFields]
    | cons g fs => rw [joinFields, ih, List.intercalate_cons_cons, List.append_assoc]; rfl

theorem WellFormed.identifier?_eq {r : Rule} (h : r.WellFormed) :
    r.identifier? = .ok (String.ofList r.phrase.stem) := by
  have band : r.elevation.mapM ElevationBand.text? = .ok (r.elevation.map (·.text)) := by
    cases he : r.elevation with
    | none => rfl
    | some b =>
      rw [Option.mapM_some, ElevationBand.text?, if_pos (h.elevation b he).2]
      rfl
  have tokens : (",".intercalate (r.constraints.map Constraint.token)).toList =
      joinFields ',' r.phrase.tokens := by
    rw [String.toList_intercalate, joinFields_eq_intercalate, List.map_map]
    rfl
  have pieces : ([r.type, r.slot, ",".intercalate (r.constraints.map Constraint.token)] ++
      (r.elevation.map (·.text)).toList).map String.toList = r.phrase.pieces := by
    cases he : r.elevation <;> simp [Phrase.pieces, tokens, phrase, he]
  rw [identifier?, bind_of_eq_ok band]
  refine congrArg Except.ok (String.toList_inj.mp ?_)
  have dash : "-".toList = ['-'] := rfl
  rw [String.toList_intercalate, dash, pieces, String.toList_ofList, Phrase.stem,
    joinFields_eq_intercalate]

/-- However a rule was spelled, its identifier can be written, and is read as the same rule under
that name. -/
theorem normal_form_read_back {name : String} {rule : Rule} (read : ofName name = .ok rule) :
    ∃ text, rule.identifier? = .ok text ∧ ofName text = .ok { rule with name := text } := by
  have formed := wellFormed_of_read read
  refine ⟨_, formed.identifier?_eq, ofName_eq_ok_iff.mpr ⟨_, _, _, formed.denotes, ?_, ?_⟩⟩
  · exact Or.inl String.toList_ofList
  · simp only [Phrase.rule, phrase, String.ofList_toList, formed.arranged, ← formed.score]

/-- Letters glued to a type that itself reads as a path, directions out of their order, a compound
path before them, leading zeros and the suffix. -/
theorem normal_form_read_back_mixed_notation :
    let rule : Rule := ⟨"dirt_grass1-22-wu:!,d1x,n:0,unesw-007:2.png", "dirt_grass1", "22",
      [⟨[.up], .exactly "nesw"⟩, ⟨[.north], .empty⟩, ⟨[.east], .any⟩, ⟨[.south], .any⟩,
        ⟨[.west], .any⟩, ⟨[.down], .exactly "1x"⟩, ⟨[.west, .up], .otherFamily⟩], some ⟨7, 2⟩, 17⟩
    let normal := "dirt_grass1-22-u:nesw,n:0,e:*,s:*,w:*,d:1x,wu:!-7:2"
    ofName "dirt_grass1-22-wu:!,d1x,n:0,unesw-007:2.png" = .ok rule ∧
      rule.identifier? = .ok normal ∧ ofName normal = .ok { rule with name := normal } := by
  intro rule normal
  have read : ofName "dirt_grass1-22-wu:!,d1x,n:0,unesw-007:2.png" = .ok rule := rfl
  have band : (⟨7, 2⟩ : ElevationBand).text? = .ok "7:2" := if_pos (by decide +kernel)
  have written : rule.identifier? = .ok normal := by
    simp only [rule, identifier?, Option.mapM_some, band]
    rfl
  obtain ⟨text, wrote, back⟩ := normal_form_read_back read
  rw [written] at wrote
  obtain rfl := Except.ok.inj wrote
  exact ⟨read, written, back⟩

end Rule

end Autotile
