import Autotile.Proofs.Cell.RoundTrip
import Autotile.Proofs.Rule.Escapes

/-! # How far reading agrees with the documented grammar

The documentation promises that every name outside its grammar is found malformed. The reader also
takes line ends and digits of other scripts, and it fails differently at a path that a line end
closes and at a numeral that is too long; at all other names the promise is kept. -/
namespace Autotile.Rule

open Text Numeral

/-- What is read has the documented form, and what does not have it is malformed. -/
def SoundAt (name : String) : Prop :=
  (∀ rule, ofName name = .ok rule → documented.Form name) ∧
    (¬documented.Form name → ∃ bad, ofName name = .error (.malformed bad))

/-- A name without line ends, digits of other scripts and numerals that are too long. -/
structure Plain (name : String) : Prop where
  line : '\n' ∉ name.toList
  ascii : ∀ c ∈ name.toList, isDigit c = true → isAsciiDigit c = true
  short : ∀ run, run <:+: name.toList → (∀ c ∈ run, isAsciiDigit c = true) →
    run.length ≤ digitLimit

section

variable {name : String}

theorem form_iff_read : accepted.Form name ↔ ∃ rule, ofName name = .ok rule := by
  constructor
  · rintro ⟨p, given, elevation, denotes, names⟩
    exact ⟨_, ofName_eq_ok_iff.mpr ⟨p, given, elevation, denotes, names, rfl⟩⟩
  · rintro ⟨rule, h⟩
    obtain ⟨p, given, elevation, denotes, names, -⟩ := ofName_eq_ok_iff.mp h
    exact ⟨p, given, elevation, denotes, names⟩

/-- A name is malformed iff it is neither accepted nor escapes. -/
theorem malformed_iff :
    (∃ bad, ofName name = .error (.malformed bad)) ↔ ¬(accepted.Form name ∨ Escapes name) := by
  rw [form_iff_read, ← escaped_ofName_iff]
  constructor
  · rintro ⟨bad, h⟩ (⟨rule, read⟩ | escaped)
    · rw [h] at read
      cases read
    · rw [h] at escaped
      exact not_escaped_malformed bad escaped
  · intro h
    exact eq_malformed (fun rule read => h (Or.inl ⟨rule, read⟩)) fun escaped => h (Or.inr escaped)

theorem newline_notMem_of_form (h : documented.Form name) : '\n' ∉ name.toList := by
  have avoids : documented.Avoids '\n' := documented_avoids (by decide) (by decide)
  exact avoids.form h (by decide) (by decide) (by decide)

theorem isAsciiDigit_of_isDigit {c : Char} (h : isDigit c = true) (ascii : c.toNat < 128) :
    isAsciiDigit c = true := by
  obtain ⟨value, hv⟩ := Option.isSome_iff_exists.mp h
  obtain ⟨z, hz, -⟩ := Option.map_eq_some_iff.mp hv
  have range := List.find?_some hz
  simp only [Bool.and_eq_true, decide_eq_true_eq] at range
  have first : ∀ z ∈ decimalZeros, z < 128 → z = 48 := by decide
  have zero := first z (List.mem_of_find?_eq_some hz) (by omega)
  exact isAsciiDigit_iff.mpr (by omega)

theorem numeralValue_of_ascii {cs : List Char} (h : ∀ c ∈ cs, isAsciiDigit c = true) :
    numeralValue cs = digitsValue cs := by
  have plain : ∀ c ∈ cs, plainChar c = c := by
    intro c hc
    have low := (isAsciiDigit_iff.mp (h c hc)).2
    exact if_pos (by omega)
  rw [numeralValue, List.map_congr_left plain, List.map_id']

namespace Plain

variable (plain : Plain name)

include plain

theorem unclosed {w cs : List Char} (inside : cs <:+: name.toList) (line : IsLine w cs) :
    cs = w := by
  rcases line with rfl | rfl
  · rfl
  · exact absurd (inside.subset (by simp)) plain.line

theorem digits {run : List Char} (inside : run <:+: name.toList) (word : Text.Word isDigit run) :
    Text.Word isAsciiDigit run :=
  ⟨word.1, fun c hc => plain.ascii c (inside.subset hc) (word.2 c hc)⟩

theorem band {band m i : List Char} (inside : band <:+: name.toList)
    (line : IsLine (m ++ ':' :: i) band) (modulus : Text.Word isDigit m)
    (index : Text.Word isDigit i) :
    band = m ++ ':' :: i ∧ (Text.Word isAsciiDigit m ∧ m.length ≤ digitLimit) ∧
      Text.Word isAsciiDigit i ∧ i.length ≤ digitLimit := by
  obtain rfl := plain.unclosed inside line
  have first : m <:+: name.toList := (List.prefix_append m _).isInfix.trans inside
  have rest : ':' :: i <:+: name.toList := (List.suffix_append m _).isInfix.trans inside
  have second : i <:+: name.toList := (List.suffix_cons ':' i).isInfix.trans rest
  have modulus := plain.digits first modulus
  have index := plain.digits second index
  exact ⟨rfl, ⟨modulus, plain.short m first modulus.2⟩, index, plain.short i second index.2⟩

theorem not_escapes : ¬Escapes name := by
  intro h
  cases h with
  | @code type slot constraints token band before after given opens cut tokens broken =>
    obtain ⟨p, -, rest, rfl⟩ := broken
    have inside : p.code ++ '\n' :: ':' :: rest <:+: constraints := by
      rw [← joinFields_fields ',' constraints, cut]
      exact infix_joinFields (by simp)
    have third : constraints ∈ parts name := by simp [opens.parts]
    exact plain.line ((inside.trans (infix_of_mem_parts third)).subset (by simp))
  | @numeral type slot constraints band given opens tokens long =>
    cases long with
    | @numerals m i line modulus index long =>
      have fourth : band ∈ parts name := by simp [opens.parts]
      obtain ⟨-, ⟨-, short⟩, -, short'⟩ :=
        plain.band (infix_of_mem_parts fourth) line modulus index
      omega

theorem documented_of_accepted (h : accepted.Form name) : documented.Form name := by
  obtain ⟨p, given, elevation, denotes, names⟩ := h
  have inside : ∀ piece ∈ p.pieces, piece <:+: name.toList := by
    intro piece hp
    rw [← denotes.parts_eq names] at hp
    exact infix_of_mem_parts hp
  refine ⟨p, given, elevation, denotes.imp ?_ ?_, names⟩
  · rintro piece hp cs within ⟨w, word, line⟩
    obtain rfl := plain.unclosed (within.trans (inside piece hp)) line
    exact word
  · intro piece hp e spelled
    cases spelled with
    | @numerals m i line modulus index short short' positive =>
      obtain ⟨rfl, ⟨modulus, -⟩, index, -⟩ := plain.band (inside piece hp) line modulus index
      rw [numeralValue_of_ascii modulus.2] at positive ⊢
      rw [numeralValue_of_ascii index.2]
      exact .numerals modulus index positive

end Plain

/-- Reading is sound at a name iff, where it takes the name or fails otherwise than by finding it
malformed, the name has the documented form. It is sound at every plain name. -/
theorem identifier_reading_sound (name : String) :
    (SoundAt name ↔ (accepted.Form name ∨ Escapes name → documented.Form name)) ∧
      (Plain name → SoundAt name) := by
  have exactly : SoundAt name ↔ (accepted.Form name ∨ Escapes name → documented.Form name) := by
    unfold SoundAt
    rw [malformed_iff]
    constructor
    · rintro ⟨-, other⟩ h
      by_contra undocumented
      exact other undocumented h
    · intro h
      refine ⟨fun rule read => h (Or.inl (form_iff_read.mpr ⟨rule, read⟩)), ?_⟩
      exact fun undocumented taken => undocumented (h taken)
  refine ⟨exactly, fun plain => exactly.mpr ?_⟩
  rintro (taken | escapes)
  · exact plain.documented_of_accepted taken
  · exact absurd escapes plain.not_escapes

end

theorem identifier_reading_sound_repeated_path :
    Plain "rock-11-u0,u1" ∧ SoundAt "rock-11-u0,u1" := by
  have plain : Plain "rock-11-u0,u1" := by
    constructor
    · decide
    · intro c hc digit
      have ascii : "rock-11-u0,u1".toList.all (·.toNat < 128) = true := by decide
      exact isAsciiDigit_of_isDigit digit (of_decide_eq_true (List.all_eq_true.mp ascii c hc))
    · intro run inside _
      exact inside.length_le.trans (by decide)
  exact ⟨plain, (identifier_reading_sound _).2 plain⟩

/-- A line end is taken as part of the type, and after a path it makes the reader fail. -/
theorem not_sound_at_line_end : ¬SoundAt "rock\n-11-n0" ∧ ¬SoundAt "rock-11-n\n:0" := by
  constructor
  · rintro ⟨read, -⟩
    have taken := read (Phrase.rule ⟨"rock\n".toList, "11", [], none⟩ "rock\n-11-n0"
      [⟨[.north], .empty⟩] none) rfl
    exact newline_notMem_of_form taken (by decide)
  · rintro ⟨-, other⟩
    have failed : ofName "rock-11-n\n:0" = .error (.code "\n") := rfl
    obtain ⟨bad, h⟩ := other fun form => newline_notMem_of_form form (by decide)
    rw [failed] at h
    cases h

end Autotile.Rule
