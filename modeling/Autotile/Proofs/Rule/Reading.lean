import Autotile.Proofs.Fault
import Autotile.Proofs.Rule.Grammar

/-! # Reading takes exactly the accepted grammar

Each part of the reader succeeds on what the grammar accepts, with what it denotes, and on nothing
else. -/
namespace Autotile.Rule

open Text Numeral

section

variable {α : Type} {p : Prop} [Decidable p] {x : Except IdentifierFault α} {bad : RuleFault}
  {a : α}

theorem checked_eq_ok_iff : (if p then x else malformed bad) = .ok a ↔ p ∧ x = .ok a := by
  by_cases h : p
  · simp [h]
  · simp [h, malformed]

theorem checkedNot_eq_ok_iff : (if p then malformed bad else x) = .ok a ↔ ¬p ∧ x = .ok a := by
  by_cases h : p
  · simp [h, malformed]
  · simp [h]

end

theorem isWord_iff {p : Char → Bool} {cs : List Char} (h : p '\n' = false) :
    isWord p cs = true ↔ ∃ w, Text.Word p w ∧ IsLine w cs := by
  constructor
  · intro word
    simp only [isWord, Bool.and_eq_true, Bool.not_eq_true', List.isEmpty_eq_false_iff,
      List.all_eq_true] at word
    exact ⟨chomp cs, word, isLine_chomp cs⟩
  · rintro ⟨w, word, line⟩
    rw [isWord, line.chomp_eq (word.notMem h)]
    simpa [Text.Word, List.all_eq_true] using word

theorem isType_iff {cs : List Char} : isType cs = true ↔ ClosedWord cs := isWord_iff (by decide)

theorem readPath_code (p : Path) : readPath p.code = .ok p := by
  induction p with
  | nil => rfl
  | cons d p ih =>
    change readPath (d.code :: Path.code p) = _
    simp only [readPath, Direction.ofCode?_code, ih]
    rfl

theorem readPath_eq_ok_iff {cs : List Char} {p : Path} : readPath cs = .ok p ↔ cs = p.code := by
  constructor
  · intro h
    induction cs generalizing p with
    | nil =>
      obtain rfl := Except.ok.inj h
      rfl
    | cons c cs ih =>
      rw [readPath] at h
      cases hd : Direction.ofCode? c with
      | none =>
        rw [hd] at h
        cases h
      | some d =>
        rw [hd] at h
        cases hp : readPath cs with
        | error fault =>
          simp only [hp] at h
          cases h
        | ok q =>
          simp only [hp] at h
          obtain rfl := Except.ok.inj h
          rw [ih hp, ← Direction.code_of_ofCode? hd]
          rfl
  · rintro rfl
    exact readPath_code p

theorem word_code_iff {cs : List Char} :
    Text.Word (fun c => (Direction.ofCode? c).isSome) cs ↔ ∃ p : Path, p ≠ [] ∧ cs = p.code := by
  constructor
  · rintro ⟨nonempty, letters⟩
    have path : ∃ p : Path, cs = p.code := by
      clear nonempty
      induction cs with
      | nil => exact ⟨[], rfl⟩
      | cons c cs ih =>
        obtain ⟨d, hd⟩ := Option.isSome_iff_exists.mp (letters c List.mem_cons_self)
        obtain ⟨p, rfl⟩ := ih fun x hx => letters x (List.mem_cons_of_mem c hx)
        exact ⟨d :: p, by rw [← Direction.code_of_ofCode? hd]; rfl⟩
    obtain ⟨p, rfl⟩ := path
    exact ⟨p, fun hp => nonempty (by rw [hp]; rfl), rfl⟩
  · rintro ⟨p, nonempty, rfl⟩
    constructor
    · intro hp
      exact nonempty (List.map_eq_nil_iff.mp hp)
    · intro c hc
      obtain ⟨d, -, rfl⟩ := List.mem_map.mp hc
      exact Option.isSome_iff_exists.mpr ⟨d, Direction.ofCode?_code d⟩

theorem isPath_iff {cs : List Char} :
    isPath cs = true ↔ ∃ p : Path, p ≠ [] ∧ IsLine p.code cs := by
  rw [isPath, isWord_iff (by decide)]
  constructor
  · rintro ⟨w, word, line⟩
    obtain ⟨p, nonempty, rfl⟩ := word_code_iff.mp word
    exact ⟨p, nonempty, line⟩
  · rintro ⟨p, nonempty, line⟩
    exact ⟨p.code, word_code_iff.mpr ⟨p, nonempty, rfl⟩, line⟩

theorem isPath_code {p : Path} : isPath p.code = true ↔ p ≠ [] := by
  constructor
  · rintro h rfl
    exact absurd h (by decide)
  · intro nonempty
    exact isPath_iff.mpr ⟨p, nonempty, Or.inl rfl⟩

theorem ofSymbol?_symbol {r : Requirement} (h : r ∈ Requirement.symbolic) :
    Requirement.ofSymbol? r.symbol = some r := by
  have all : ∀ r ∈ Requirement.symbolic, Requirement.ofSymbol? r.symbol = some r := by decide
  exact all r h

def requirement? (cs : List Char) : Option Requirement :=
  match Requirement.ofSymbol? (String.ofList cs) with
  | some r => some r
  | none => if isType cs then some (.exactly (String.ofList cs)) else none

theorem requirement?_eq_some_iff {cs : List Char} {r : Requirement} :
    requirement? cs = some r ↔ accepted.Requires cs r := by
  constructor
  · intro h
    unfold requirement? at h
    cases hs : Requirement.ofSymbol? (String.ofList cs) with
    | some q =>
      rw [hs] at h
      obtain rfl := Option.some.inj h
      have symbol : q.symbol = String.ofList cs := by simpa using List.find?_some hs
      have spelled : cs = q.symbol.toList := by rw [symbol, String.toList_ofList]
      rw [spelled]
      exact .symbol (List.mem_of_find?_eq_some hs)
    | none =>
      simp only [hs] at h
      by_cases word : isType cs = true
      · rw [if_pos word] at h
        obtain rfl := Option.some.inj h
        refine .literal (isType_iff.mp word) fun q hq spelled => ?_
        have other := List.find?_eq_none.mp hs q hq
        rw [spelled, String.ofList_toList] at other
        exact other (decide_eq_true rfl)
      · rw [if_neg word] at h
        cases h
  · intro h
    unfold requirement?
    cases h with
    | symbol symbolic => rw [String.ofList_toList, ofSymbol?_symbol symbolic]
    | literal word plain =>
      have other : Requirement.ofSymbol? (String.ofList cs) = none := by
        refine List.find?_eq_none.mpr fun q hq symbol => plain q hq ?_
        rw [of_decide_eq_true symbol, String.toList_ofList]
      simp only [other]
      exact if_pos (isType_iff.mpr word)

theorem match_requirement? (p : Path) (rest : List Char) (fault : RuleFault) :
    (match Requirement.ofSymbol? (String.ofList rest) with
      | some requirement => pure { path := p, requirement }
      | none =>
        if isType rest then pure { path := p, requirement := .exactly (String.ofList rest) }
        else malformed fault : Except IdentifierFault Constraint) =
      match requirement? rest with
      | some requirement => pure { path := p, requirement }
      | none => malformed fault := by
  unfold requirement?
  cases Requirement.ofSymbol? (String.ofList rest) with
  | some r => rfl
  | none => by_cases word : isType rest = true <;> simp [word]

def readHalves (name : String) (token letters rest : List Char) :
    Except IdentifierFault Constraint := do
  let path ← readPath letters
  match requirement? rest with
  | some requirement => return { path, requirement }
  | none => malformed (.badRequirement name (String.ofList token))

theorem readHalves_eq_ok_iff {name : String} {token letters rest : List Char} {c : Constraint} :
    readHalves name token letters rest = .ok c ↔
      letters = c.path.code ∧ accepted.Requires rest c.requirement := by
  constructor
  · intro h
    obtain ⟨p, hp, h⟩ := eq_ok_of_bind h
    cases hr : requirement? rest with
    | none =>
      rw [hr] at h
      cases h
    | some r =>
      rw [hr] at h
      obtain rfl := Except.ok.inj h
      exact ⟨readPath_eq_ok_iff.mp hp, requirement?_eq_some_iff.mp hr⟩
  · rintro ⟨rfl, requires⟩
    unfold readHalves
    rw [readPath_code, requirement?_eq_some_iff.mpr requires]
    rfl

section

variable {name : String} {token : List Char}

theorem readConstraint_path {letters rest : List Char} (bare : ':' ∉ letters) :
    readConstraint name (letters ++ ':' :: rest) =
      if isPath letters then readHalves name (letters ++ ':' :: rest) letters rest
      else malformed (.badPath name (String.ofList (letters ++ ':' :: rest))) := by
  unfold readConstraint readHalves
  rw [cut_append bare]
  by_cases path : isPath letters = true
  · simp only [if_pos path, pure_bind]
    congr 1
    funext p
    exact match_requirement? p _ _
  · simp only [if_neg path]
    rfl

theorem readConstraint_letter (bare : ':' ∉ token) :
    readConstraint name token =
      if isPath (token.take 1) then readHalves name token (token.take 1) (token.drop 1)
      else malformed (.badDirection name (String.ofList token)) := by
  unfold readConstraint readHalves
  rw [cut_of_notMem bare]
  by_cases path : isPath (token.take 1) = true
  · simp only [if_pos path, pure_bind]
    congr 1
    funext p
    exact match_requirement? p _ _
  · simp only [if_neg path]
    rfl

theorem readConstraint_eq_ok_iff {c : Constraint} :
    readConstraint name token = .ok c ↔ accepted.Token token c := by
  constructor
  · intro h
    by_cases colon : ':' ∈ token
    · obtain ⟨letters, rest, rfl, bare⟩ := List.eq_append_cons_of_mem colon
      rw [readConstraint_path bare, checked_eq_ok_iff, readHalves_eq_ok_iff] at h
      obtain ⟨path, rfl, requires⟩ := h
      exact .path (isPath_code.mp path) requires
    · rw [readConstraint_letter colon, checked_eq_ok_iff, readHalves_eq_ok_iff] at h
      obtain ⟨path, code, requires⟩ := h
      obtain ⟨p, r⟩ := c
      cases token with
      | nil => exact absurd path (by decide)
      | cons x cs =>
        obtain ⟨d, rfl, rfl⟩ : ∃ d : Direction, p = [d] ∧ d.code = x := by
          cases p with
          | nil => cases code
          | cons d p =>
            obtain ⟨head, tail⟩ := List.cons.inj code
            exact ⟨d, by rw [List.map_eq_nil_iff.mp tail.symm], head.symm⟩
        exact .letter requires
  · intro h
    cases h with
    | @letter d cs r requires =>
      have bare : ':' ∉ d.code :: cs := by
        intro hm
        rcases List.mem_append.mp (show ':' ∈ Path.code [d] ++ cs from hm) with hm | hm
        · exact colon_notMem_code [d] hm
        · exact colon_notMem_requires requires hm
      have path : isPath ((d.code :: cs).take 1) = true :=
        isPath_code.mpr (List.cons_ne_nil d [])
      rw [readConstraint_letter bare, if_pos path]
      exact readHalves_eq_ok_iff.mpr ⟨rfl, requires⟩
    | @path p cs r nonempty requires =>
      rw [readConstraint_path (colon_notMem_code p), if_pos (isPath_code.mpr nonempty)]
      exact readHalves_eq_ok_iff.mpr ⟨rfl, requires⟩

theorem nodup_concat_iff {given : List Constraint} {c : Constraint}
    (once : (given.map (·.path)).Nodup) :
    ((given ++ [c]).map (·.path)).Nodup ↔ ¬given.any (·.path = c.path) = true := by
  rw [List.map_append, List.nodup_append]
  constructor
  · rintro ⟨-, -, apart⟩ again
    obtain ⟨x, hx, same⟩ := List.any_eq_true.mp again
    exact apart x.path (List.mem_map_of_mem hx) c.path List.mem_cons_self (of_decide_eq_true same)
  · intro again
    refine ⟨once, List.pairwise_singleton _ _, fun p hp q hq same => again ?_⟩
    obtain ⟨x, hx, rfl⟩ := List.mem_map.mp hp
    obtain rfl := List.mem_singleton.mp hq
    exact List.any_eq_true.mpr ⟨x, hx, decide_eq_true same⟩

theorem nodup_concat_of_append {given new : List Constraint} {c : Constraint}
    (h : ((given ++ c :: new).map (·.path)).Nodup) : ((given ++ [c]).map (·.path)).Nodup := by
  rw [List.append_cons, List.map_append] at h
  exact (List.nodup_append.mp h).1

theorem readConstraints_eq_ok_iff {given all : List Constraint} {tokens : List (List Char)}
    (once : (given.map (·.path)).Nodup) :
    readConstraints name given tokens = .ok all ↔
      ∃ new, all = given ++ new ∧ List.Forall₂ accepted.Token tokens new ∧
        (all.map (·.path)).Nodup := by
  induction tokens generalizing given with
  | nil =>
    constructor
    · intro h
      obtain rfl := Except.ok.inj h
      exact ⟨[], (List.append_nil _).symm, .nil, once⟩
    · rintro ⟨new, rfl, tokens, -⟩
      cases tokens
      rw [List.append_nil]
      rfl
  | cons token tokens ih =>
    constructor
    · intro h
      obtain ⟨c, hc, h⟩ := eq_ok_of_bind h
      obtain ⟨again, h⟩ := checkedNot_eq_ok_iff.mp h
      obtain ⟨new, rfl, rest, nodup⟩ := (ih ((nodup_concat_iff once).mpr again)).mp h
      exact ⟨c :: new, List.append_assoc _ _ _, .cons (readConstraint_eq_ok_iff.mp hc) rest, nodup⟩
    · rintro ⟨new, rfl, tokens, nodup⟩
      cases tokens with
      | @cons _ c _ new head rest =>
        have fresh := nodup_concat_of_append nodup
        unfold readConstraints
        rw [bind_of_eq_ok (readConstraint_eq_ok_iff.mpr head),
          if_neg ((nodup_concat_iff once).mp fresh)]
        exact (ih fresh).mpr ⟨new, List.append_cons given c new, rest, nodup⟩

theorem readConstraints_nil_eq_ok_iff {given : List Constraint} {tokens : List (List Char)} :
    readConstraints name [] tokens = .ok given ↔ accepted.Tokens tokens given := by
  have once : (([] : List Constraint).map (·.path)).Nodup := List.nodup_nil
  rw [readConstraints_eq_ok_iff once]
  constructor
  · rintro ⟨new, rfl, tokens, once⟩
    exact ⟨tokens, once⟩
  · rintro ⟨tokens, once⟩
    exact ⟨given, rfl, tokens, once⟩

theorem isDecimal_iff {cs : List Char} : isDecimal cs = true ↔ Text.Word isDigit cs := by
  simp [isDecimal, Text.Word, isDigit, List.all_eq_true]

theorem readDigits_eq_ok_iff {cs : List Char} {n : Nat} :
    (readDigits cs).mapError IdentifierFault.numeral = .ok n ↔
      cs.length ≤ digitLimit ∧ n = numeralValue cs := by
  unfold readDigits
  by_cases long : digitLimit < cs.length
  · rw [if_pos long]
    constructor
    · rintro ⟨⟩
    · rintro ⟨short, -⟩
      omega
  · rw [if_neg long]
    constructor
    · intro h
      exact ⟨by omega, (Except.ok.inj h).symm⟩
    · rintro ⟨-, rfl⟩
      rfl

theorem fields_band {band m i : List Char} (line : IsLine (m ++ ':' :: i) band)
    (modulus : Text.Word isDigit m) (index : Text.Word isDigit i) :
    fields ':' (chomp band) = [m, i] := by
  have open' : '\n' ∉ m ++ ':' :: i := by
    intro hm
    rcases List.mem_append.mp hm with hm | hm
    · exact modulus.notMem (by decide) hm
    · rcases List.mem_cons.mp hm with hm | hm
      · cases hm
      · exact index.notMem (by decide) hm
  rw [line.chomp_eq open', fields_append (modulus.notMem (by decide)),
    fields_of_notMem (index.notMem (by decide))]

theorem isLine_of_fields {band m i : List Char} (h : fields ':' (chomp band) = [m, i]) :
    IsLine (m ++ ':' :: i) band := by
  have joined := joinFields_fields ':' (chomp band)
  rw [h] at joined
  rw [show m ++ ':' :: i = chomp band from joined]
  exact isLine_chomp band

theorem readElevation_numerals {band m i : List Char} (line : IsLine (m ++ ':' :: i) band)
    (modulus : Text.Word isDigit m) (index : Text.Word isDigit i) :
    readElevation name band = (do
      let modulus ← (readDigits m).mapError .numeral
      let index ← (readDigits i).mapError .numeral
      if modulus = 0 then malformed (.zeroModulus name) else return { modulus, index }) := by
  unfold readElevation
  rw [fields_band line modulus index]
  simp only [isDecimal_iff.mpr modulus, isDecimal_iff.mpr index, Bool.and_self, if_true]

theorem readElevation_cases (name : String) (band : List Char) :
    (∃ m i, IsLine (m ++ ':' :: i) band ∧ Text.Word isDigit m ∧ Text.Word isDigit i) ∨
      readElevation name band = malformed (.badElevation name (String.ofList band)) := by
  unfold readElevation
  split
  · next m i cut =>
    by_cases digits : (isDecimal m && isDecimal i) = true
    · have both := digits
      rw [Bool.and_eq_true] at both
      exact Or.inl ⟨m, i, isLine_of_fields cut, isDecimal_iff.mp both.1, isDecimal_iff.mp both.2⟩
    · exact Or.inr (if_neg digits)
  · exact Or.inr rfl

theorem readElevation_eq_ok_iff {band : List Char} {e : ElevationBand} :
    readElevation name band = .ok e ↔ AcceptedBand band e := by
  constructor
  · intro h
    rcases readElevation_cases name band with ⟨m, i, line, modulus, index⟩ | bad
    · rw [readElevation_numerals line modulus index] at h
      obtain ⟨a, ha, h⟩ := eq_ok_of_bind h
      obtain ⟨b, hb, h⟩ := eq_ok_of_bind h
      obtain ⟨short, rfl⟩ := readDigits_eq_ok_iff.mp ha
      obtain ⟨short', rfl⟩ := readDigits_eq_ok_iff.mp hb
      obtain ⟨zero, h⟩ := checkedNot_eq_ok_iff.mp h
      obtain rfl := Except.ok.inj h
      exact .numerals line modulus index short short' (by omega)
    · rw [bad] at h
      cases h
  · intro h
    cases h with
    | @numerals m i line modulus index short short' positive =>
      rw [readElevation_numerals line modulus index,
        bind_of_eq_ok (readDigits_eq_ok_iff.mpr ⟨short, rfl⟩),
        bind_of_eq_ok (readDigits_eq_ok_iff.mpr ⟨short', rfl⟩), if_neg (by omega)]
      rfl

theorem mapM_readElevation_eq_ok_iff {band : Option (List Char)} {e : Option ElevationBand} :
    band.mapM (readElevation name) = .ok e ↔ Option.Rel AcceptedBand band e := by
  cases band with
  | none =>
    constructor
    · intro h
      obtain rfl := Except.ok.inj h
      exact .none
    · rintro ⟨⟩
      rfl
  | some band =>
    constructor
    · intro h
      cases hb : readElevation name band with
      | error fault =>
        rw [Option.mapM_some, hb] at h
        cases h
      | ok b =>
        rw [Option.mapM_some, hb] at h
        obtain rfl := Except.ok.inj h
        exact .some (readElevation_eq_ok_iff.mp hb)
    · rintro (⟨accepts⟩ | _)
      rw [Option.mapM_some, readElevation_eq_ok_iff.mpr accepts]
      rfl

end

def Phrase.rule (p : Phrase) (name : String) (given : List Constraint)
    (elevation : Option ElevationBand) : Rule where
  name := name
  type := String.ofList p.type
  slot := p.slot
  constraints := arrange given
  elevation := elevation
  score := (arrange given).foldl (fun score c => score + c.weight) 0

/-- The name is cut into three or four parts of which the first two are a type and a slot and the
third is not empty. -/
structure Opens (name : String) (type slot constraints : List Char) (band : Option (List Char)) :
    Prop where
  parts : parts name = type :: slot :: constraints :: band.toList
  type : ClosedWord type
  slot : String.ofList slot ∈ Sprite.slots
  constraints : constraints ≠ []

def readBody (name : String) (type slot constraints : List Char) (band : Option (List Char)) :
    Except IdentifierFault Rule := do
  let given ← readConstraints name [] (fields ',' constraints)
  let elevation ← band.mapM (readElevation name)
  return Phrase.rule ⟨type, String.ofList slot, fields ',' constraints, band⟩ name given elevation

section

variable {name : String} {type slot constraints : List Char} {band : Option (List Char)}

theorem readParts_of_opens (h : Opens name type slot constraints band) :
    readParts name type slot constraints band = readBody name type slot constraints band := by
  have known : Sprite.slots.contains (String.ofList slot) = true :=
    List.contains_iff_mem.mpr h.slot
  have some : constraints.isEmpty = false := by simpa using h.constraints
  unfold readParts
  simp only [isType_iff.mpr h.type, known, some, Bool.not_true, Bool.false_eq_true, if_false]
  rfl

theorem readParts_cases (cut : parts name = type :: slot :: constraints :: band.toList) :
    Opens name type slot constraints band ∨
      ∃ fault, readParts name type slot constraints band = malformed fault := by
  by_cases word : isType type = true
  · by_cases known : Sprite.slots.contains (String.ofList slot) = true
    · by_cases some : constraints.isEmpty = true
      · refine Or.inr ⟨.noConstraints name, ?_⟩
        unfold readParts
        simp only [word, known, some, Bool.not_true, Bool.false_eq_true, if_false, if_true]
        rfl
      · exact Or.inl ⟨cut, isType_iff.mp word, List.contains_iff_mem.mp known, by simpa using some⟩
    · refine Or.inr ⟨.badSlot name (String.ofList slot), ?_⟩
      unfold readParts
      simp only [word, known, Bool.not_true, Bool.not_false, Bool.false_eq_true, if_false, if_true]
      rfl
  · refine Or.inr ⟨.badType name (String.ofList type), ?_⟩
    unfold readParts
    simp only [word, Bool.not_false, if_true]
    rfl

theorem ofName_of_parts (cut : parts name = type :: slot :: constraints :: band.toList) :
    ofName name = readParts name type slot constraints band := by
  have some : name.isEmpty = false := by
    by_contra empty
    obtain rfl := String.isEmpty_iff.mp (by simpa using empty)
    cases cut
  unfold ofName
  rw [cut, if_neg (by rw [some]; exact Bool.false_ne_true)]
  cases band with
  | none => rfl
  | some band => rfl

theorem ofName_of_opens (h : Opens name type slot constraints band) :
    ofName name = readBody name type slot constraints band :=
  (ofName_of_parts h.parts).trans (readParts_of_opens h)

theorem ofName_cases (name : String) :
    (∃ type slot constraints band, Opens name type slot constraints band) ∨
      ∃ fault, ofName name = malformed fault := by
  have opened {type slot constraints : List Char} {band : Option (List Char)}
      (cut : parts name = type :: slot :: constraints :: band.toList) :
      (∃ type slot constraints band, Opens name type slot constraints band) ∨
        ∃ fault, ofName name = malformed fault := by
    rcases readParts_cases cut with opens | bad
    · exact Or.inl ⟨_, _, _, _, opens⟩
    · rw [ofName_of_parts cut]
      exact Or.inr bad
  by_cases empty : name.isEmpty = true
  · exact Or.inr ⟨.notText (.text name), if_pos empty⟩
  · match cut : parts name with
    | [type, slot, constraints] => exact @opened _ _ _ none cut
    | [type, slot, constraints, band] => exact @opened _ _ _ (some band) cut
    | [] | [_] | [_, _] | _ :: _ :: _ :: _ :: _ :: _ =>
      refine Or.inr ⟨.badForm name, ?_⟩
      unfold ofName
      rw [if_neg empty, cut]

/-- A name is read iff it is the name of a phrase that is spelled as the reader accepts it, and
gives the rule of that phrase. -/
theorem ofName_eq_ok_iff {rule : Rule} :
    ofName name = .ok rule ↔ ∃ p given elevation,
      accepted.Denotes p given elevation ∧ p.Names name ∧ rule = p.rule name given elevation := by
  constructor
  · intro h
    rcases ofName_cases name with ⟨type, slot, constraints, band, opens⟩ | ⟨fault, bad⟩
    · rw [ofName_of_opens opens] at h
      obtain ⟨given, tokens, h⟩ := eq_ok_of_bind h
      obtain ⟨elevation, bounds, h⟩ := eq_ok_of_bind h
      obtain rfl := Except.ok.inj h
      refine ⟨⟨type, String.ofList slot, fields ',' constraints, band⟩, given, elevation,
        ?_, ?_, rfl⟩
      · exact ⟨opens.type, opens.slot, fields_ne_nil _ _, readConstraints_nil_eq_ok_iff.mp tokens,
          mapM_readElevation_eq_ok_iff.mp bounds⟩
      · apply Phrase.names_of_parts
        rw [opens.parts, Phrase.pieces, joinFields_fields, String.toList_ofList]
    · rw [bad] at h
      cases h
  · rintro ⟨p, given, elevation, denotes, names, rfl⟩
    have opens : Opens name p.type p.slot.toList (joinFields ',' p.tokens) p.band := by
      refine ⟨denotes.parts_eq names, denotes.type, ?_, ?_⟩
      · rw [String.ofList_toList]
        exact denotes.slot
      · intro empty
        have tokens := denotes.tokens.1
        rw [← denotes.fields_tokens, empty] at tokens
        cases tokens with
        | cons head rest => exact absurd rfl (token_ne_nil head)
    rw [ofName_of_opens opens, readBody, denotes.fields_tokens,
      bind_of_eq_ok (readConstraints_nil_eq_ok_iff.mpr denotes.tokens),
      bind_of_eq_ok (mapM_readElevation_eq_ok_iff.mpr denotes.band), String.ofList_toList]
    rfl

end

end Autotile.Rule
