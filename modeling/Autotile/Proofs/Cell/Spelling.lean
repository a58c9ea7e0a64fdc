import Autotile.Proofs.Cell.Key
import Autotile.Proofs.Numeral.Reading

/-! # How keys are spelled

A key is three parts joined by commas, and a part is blanks, perhaps a sign, ASCII digits and
blanks. The form is checked with one notion of a blank and the numerals are then read with another:
the four information separators pass the check and stop the reader, and so do more digits than it
takes. At every other text the two agree. -/
namespace Autotile

open Text Numeral

theorem Text.not_isBlank_of_isAsciiDigit {c : Char} (h : isAsciiDigit c = true) :
    isBlank c = false := by
  obtain ⟨low, high⟩ := isAsciiDigit_iff.mp h
  refine List.any_eq_false.mpr fun range hr => ?_
  simp only [blankRanges, List.mem_cons, List.not_mem_nil, or_false] at hr
  simp only [Bool.and_eq_true, decide_eq_true_eq]
  rcases hr with rfl | rfl | rfl | rfl | rfl | rfl | rfl | rfl | rfl | rfl <;> omega

namespace Cell

/-- A part of a key as it is spelled. -/
structure KeyPart where
  lead : List Char
  sign : Sign
  digits : List Char
  trail : List Char
  lead_blank : ∀ c ∈ lead, isBlank c = true
  word : Word isAsciiDigit digits
  trail_blank : ∀ c ∈ trail, isBlank c = true

namespace KeyPart

def text (p : KeyPart) : List Char := p.lead ++ (p.sign.chars ++ (p.digits ++ p.trail))

def value (p : KeyPart) : Int := withSign p.sign.isMinus (digitsValue p.digits)

/-- The numeral is one that can be read: no separator stands around it, and it is not too long. -/
structure Readable (p : KeyPart) : Prop where
  lead : ∀ c ∈ p.lead, ¬IsSeparator c
  trail : ∀ c ∈ p.trail, ¬IsSeparator c
  short : p.digits.length ≤ digitLimit

theorem mem_text {p : KeyPart} {c : Char} (h : c ∈ p.text) :
    isBlank c = true ∨ c = '+' ∨ c = '-' ∨ isAsciiDigit c = true := by
  simp only [text, List.mem_append] at h
  rcases h with h | h | h | h
  · exact Or.inl (p.lead_blank c h)
  · cases hs : p.sign <;> rw [hs] at h
    · cases h
    · exact Or.inr (Or.inl (List.mem_singleton.mp h))
    · exact Or.inr (Or.inr (Or.inl (List.mem_singleton.mp h)))
  · exact Or.inr (Or.inr (Or.inr (p.word.2 c h)))
  · exact Or.inl (p.trail_blank c h)

theorem notMem_text (p : KeyPart) {c : Char} (blank : isBlank c = false) (plus : c ≠ '+')
    (minus : c ≠ '-') (digit : isAsciiDigit c = false) : c ∉ p.text := by
  intro h
  rcases mem_text h with h | h | h | h
  · rw [blank] at h
    cases h
  · exact plus h
  · exact minus h
  · rw [digit] at h
    cases h

theorem plainText_text (p : KeyPart) : plainText p.text =
    p.lead.map plainChar ++ (p.sign.chars ++ (p.digits ++ p.trail.map plainChar)) := by
  have delete : ∀ c ∈ p.text, c.toNat ≠ 127 := by
    intro c hc same
    obtain rfl : c = '\x7f' := Char.toNat_inj.mp same
    exact p.notMem_text (by decide) (by decide) (by decide) (by decide) hc
  have sign : p.sign.chars.map plainChar = p.sign.chars := by
    cases p.sign <;> rfl
  have digits : p.digits.map plainChar = p.digits := by
    rw [List.map_congr_left fun c hc => plainChar_of_digit (p.word.2 c hc), List.map_id']
  rw [plainText_eq_map delete, text, List.map_append, List.map_append, List.map_append, sign,
    digits]

theorem all_isPlainBlank_iff {cs : List Char} (blank : ∀ c ∈ cs, isBlank c = true) :
    (cs.map plainChar).all isPlainBlank = true ↔ ∀ c ∈ cs, ¬IsSeparator c := by
  simp only [List.all_map, List.all_eq_true, Function.comp_apply]
  exact forall₂_congr fun c hc => (plainChar_of_blank (blank c hc)).2

theorem readInt_text (p : KeyPart) (lead : ∀ c ∈ p.lead, ¬IsSeparator c) :
    readInt (String.ofList p.text) =
      if digitLimit < p.digits.length then .error (.tooManyDigits p.digits.length)
      else if (p.trail.map plainChar).all isPlainBlank then .ok p.value
      else .error (.notInteger (String.ofList p.text)) := by
  unfold readInt
  rw [String.toList_ofList, plainText_text]
  apply readPlain_numeral _ p.word
  · intro d hd
    obtain ⟨c, hc, rfl⟩ := List.mem_map.mp hd
    exact (plainChar_of_blank (p.trail_blank c hc)).1.numeral
  · exact List.all_eq_true.mp ((all_isPlainBlank_iff p.lead_blank).mpr lead)

theorem Readable.readInt {p : KeyPart} (h : p.Readable) :
    readInt (String.ofList p.text) = .ok p.value := by
  rw [readInt_text p h.lead, if_neg (Nat.not_lt.mpr h.short),
    if_pos ((all_isPlainBlank_iff p.trail_blank).mpr h.trail)]

/-- A separator before the numeral hides it from the reader. -/
theorem readInt_of_separator (p : KeyPart) (lead : ¬∀ c ∈ p.lead, ¬IsSeparator c) :
    readInt (String.ofList p.text) = .error (.notInteger (String.ofList p.text)) := by
  rw [← all_isPlainBlank_iff p.lead_blank, List.all_eq_true] at lead
  have found : ((p.lead.map plainChar).find? fun c => !isPlainBlank c).isSome = true := by
    simpa using lead
  obtain ⟨d, hd⟩ := Option.isSome_iff_exists.mp found
  obtain ⟨stops, before, rest, split, skipped⟩ := List.find?_eq_some_iff_append.mp hd
  obtain ⟨c, hc, rfl⟩ := List.mem_map.mp (List.mem_of_find?_eq_some hd)
  unfold readInt
  rw [String.toList_ofList, plainText_text, split, List.append_assoc, List.cons_append]
  apply readPlain_of_stray
  · simpa using skipped
  · simpa using stops
  · exact (plainChar_of_blank (p.lead_blank c hc)).1

theorem exists_fault {p : KeyPart} (h : ¬p.Readable) :
    ∃ fault, readInt (String.ofList p.text) = .error fault := by
  by_cases lead : ∀ c ∈ p.lead, ¬IsSeparator c
  · rw [readInt_text p lead]
    by_cases long : digitLimit < p.digits.length
    · exact ⟨_, if_pos long⟩
    · have trail : ¬(p.trail.map plainChar).all isPlainBlank = true := by
        rw [all_isPlainBlank_iff p.trail_blank]
        exact fun trail => h ⟨lead, trail, Nat.le_of_not_lt long⟩
      rw [if_neg long, if_neg trail]
      exact ⟨_, rfl⟩
  · exact ⟨_, readInt_of_separator p lead⟩

theorem isKeyPart_iff {cs : List Char} : isKeyPart cs = true ↔ ∃ p : KeyPart, p.text = cs := by
  constructor
  · intro h
    simp only [isKeyPart, Bool.and_eq_true, Bool.not_eq_true', List.isEmpty_eq_false_iff] at h
    obtain ⟨sign, signed⟩ := Sign.exists_append_signed (cs.dropWhile isBlank)
    refine ⟨⟨cs.takeWhile isBlank, sign, _, _, ?_, ⟨h.1, ?_⟩, List.all_eq_true.mp h.2⟩, ?_⟩
    · exact List.all_eq_true.mp List.all_takeWhile
    · exact List.all_eq_true.mp List.all_takeWhile
    · rw [text, List.takeWhile_append_dropWhile, signed, List.takeWhile_append_dropWhile]
  · rintro ⟨p, rfl⟩
    have signs : ∀ d, d = '+' ∨ d = '-' ∨ isAsciiDigit d = true → isBlank d = false := by
      rintro d (rfl | rfl | digit)
      · decide
      · decide
      · exact not_isBlank_of_isAsciiDigit digit
    have ends : ∀ d ∈ p.trail, isAsciiDigit d = false := by
      intro d hd
      rw [Bool.eq_false_iff]
      intro digit
      have blank := p.trail_blank d hd
      rw [not_isBlank_of_isAsciiDigit digit] at blank
      cases blank
    obtain ⟨taken, left⟩ := span_append p.word.2 ends
    rw [isKeyPart, text, signed_dropWhile p.lead_blank signs p.word]
    simp only [taken, left, Bool.and_eq_true, Bool.not_eq_true', List.isEmpty_eq_false_iff]
    exact ⟨p.word.1, List.all_eq_true.mpr p.trail_blank⟩

end KeyPart

structure KeySpelling where
  s : KeyPart
  e : KeyPart
  u : KeyPart

namespace KeySpelling

def text (k : KeySpelling) : List Char := joinFields ',' [k.s.text, k.e.text, k.u.text]

def cell (k : KeySpelling) : Cell := ⟨k.s.value, k.e.value, k.u.value⟩

structure Readable (k : KeySpelling) : Prop where
  s : k.s.Readable
  e : k.e.Readable
  u : k.u.Readable

theorem ofKey_eq {k : KeySpelling} {key : String} (spelled : k.text = key.toList) :
    ofKey key = (do
      let s ← (readInt (String.ofList k.s.text)).mapError KeyFault.numeral
      let e ← (readInt (String.ofList k.e.text)).mapError KeyFault.numeral
      let u ← (readInt (String.ofList k.u.text)).mapError KeyFault.numeral
      return ⟨s, e, u⟩) := by
  have apart : ∀ part ∈ [k.s.text, k.e.text, k.u.text], ',' ∉ part := by
    have comma : ∀ p : KeyPart, ',' ∉ p.text := fun p =>
      p.notMem_text (by decide) (by decide) (by decide) (by decide)
    simp only [List.mem_cons, List.not_mem_nil, or_false]
    rintro _ (rfl | rfl | rfl)
    · exact comma k.s
    · exact comma k.e
    · exact comma k.u
  have form : ∀ p : KeyPart, isKeyPart p.text = true := fun p =>
    KeyPart.isKeyPart_iff.mpr ⟨p, rfl⟩
  unfold ofKey
  rw [← spelled, text, fields_joinFields (List.cons_ne_nil _ _) apart]
  simp only [form, Bool.and_self, if_true]

theorem Readable.ofKey {k : KeySpelling} {key : String} (h : k.Readable)
    (spelled : k.text = key.toList) : ofKey key = .ok k.cell := by
  rw [ofKey_eq spelled, h.s.readInt, h.e.readInt, h.u.readInt]
  rfl

theorem exists_fault {k : KeySpelling} {key : String} (h : ¬k.Readable)
    (spelled : k.text = key.toList) : ∃ fault, Cell.ofKey key = .error (.numeral fault) := by
  rw [ofKey_eq spelled]
  by_cases hs : k.s.Readable
  · by_cases he : k.e.Readable
    · have hu : ¬k.u.Readable := fun hu => h ⟨hs, he, hu⟩
      obtain ⟨fault, failed⟩ := KeyPart.exists_fault hu
      rw [hs.readInt, he.readInt, failed]
      exact ⟨fault, rfl⟩
    · obtain ⟨fault, failed⟩ := KeyPart.exists_fault he
      rw [hs.readInt, failed]
      exact ⟨fault, rfl⟩
  · obtain ⟨fault, failed⟩ := KeyPart.exists_fault hs
    rw [failed]
    exact ⟨fault, rfl⟩

end KeySpelling

/-- A text is found to be malformed, or it is spelled as a key. -/
theorem malformed_or_spelled (key : String) :
    (∃ fault, ofKey key = .error fault ∧ fault.isForm = true) ∨
      ∃ k : KeySpelling, k.text = key.toList := by
  unfold ofKey
  split
  · next s e u cut =>
    by_cases parts : (isKeyPart s && isKeyPart e && isKeyPart u) = true
    · right
      simp only [Bool.and_eq_true, KeyPart.isKeyPart_iff] at parts
      obtain ⟨⟨⟨s, rfl⟩, e, rfl⟩, u, rfl⟩ := parts
      refine ⟨⟨s, e, u⟩, ?_⟩
      rw [KeySpelling.text, ← cut, joinFields_fields]
    · left
      rw [if_neg parts]
      exact ⟨_, rfl, rfl⟩
  · left
    exact ⟨_, rfl, rfl⟩

theorem ofKey_eq_ok_iff {key : String} {c : Cell} : ofKey key = .ok c ↔
    ∃ k : KeySpelling, k.text = key.toList ∧ k.Readable ∧ k.cell = c := by
  constructor
  · intro read
    rcases malformed_or_spelled key with ⟨fault, failed, _⟩ | ⟨k, spelled⟩
    · rw [read] at failed
      cases failed
    · by_cases readable : k.Readable
      · rw [readable.ofKey spelled] at read
        exact ⟨k, spelled, readable, Except.ok.inj read⟩
      · obtain ⟨fault, failed⟩ := k.exists_fault readable spelled
        rw [read] at failed
        cases failed
  · rintro ⟨k, spelled, readable, rfl⟩
    exact readable.ofKey spelled

theorem malformed_iff {key : String} : (∃ fault, ofKey key = .error fault ∧ fault.isForm = true) ↔
    ¬∃ k : KeySpelling, k.text = key.toList := by
  constructor
  · rintro ⟨fault, failed, form⟩ ⟨k, spelled⟩
    by_cases readable : k.Readable
    · rw [readable.ofKey spelled] at failed
      cases failed
    · obtain ⟨numeral, failed'⟩ := k.exists_fault readable spelled
      rw [failed'] at failed
      cases failed
      cases form
  · intro unspelled
    exact (malformed_or_spelled key).resolve_right unspelled

/-- What reading a key should come to: a text that is spelled as a key is read as the cell that is
written there, any other is found to be malformed, and nothing else goes wrong. -/
structure ExactAt (key : String) : Prop where
  read : ∀ c, ofKey key = .ok c ↔ ∃ k : KeySpelling, k.text = key.toList ∧ k.cell = c
  other : (¬∃ k : KeySpelling, k.text = key.toList) →
    ∃ fault, ofKey key = .error fault ∧ fault.isForm = true
  only : ∀ fault, ofKey key = .error fault → fault.isForm = true

theorem exactAt_iff {key : String} :
    ExactAt key ↔ ∀ k : KeySpelling, k.text = key.toList → k.Readable := by
  constructor
  · intro exact k spelled
    by_contra unreadable
    obtain ⟨fault, failed⟩ := k.exists_fault unreadable spelled
    rw [(exact.read k.cell).mpr ⟨k, spelled, rfl⟩] at failed
    cases failed
  · intro readable
    constructor
    case read =>
      intro c
      rw [ofKey_eq_ok_iff]
      exact exists_congr fun k => and_congr_right fun spelled => and_iff_right (readable k spelled)
    case other => exact malformed_iff.mpr
    case only =>
      intro fault failed
      rcases malformed_or_spelled key with ⟨fault', failed', form⟩ | ⟨k, spelled⟩
      · rw [failed] at failed'
        cases failed'
        exact form
      · rw [(readable k spelled).ofKey spelled] at failed
        cases failed

theorem KeySpelling.readable_of_plain {k : KeySpelling} {key : String}
    (spelled : k.text = key.toList) (plain : ∀ c ∈ key.toList, ¬IsSeparator c)
    (short : key.length ≤ digitLimit) : k.Readable := by
  have part : ∀ p : KeyPart, p.text ∈ [k.s.text, k.e.text, k.u.text] → p.Readable := by
    intro p hp
    have inside : p.text <:+: key.toList := spelled ▸ infix_joinFields hp
    have length : p.digits.length ≤ p.text.length := by
      simp only [KeyPart.text, List.length_append]
      omega
    constructor
    · exact fun c hc => plain c (inside.subset (by simp [KeyPart.text, hc]))
    · exact fun c hc => plain c (inside.subset (by simp [KeyPart.text, hc]))
    · exact (length.trans inside.length_le).trans short
  exact ⟨part k.s (by simp), part k.e (by simp), part k.u (by simp)⟩

/-- Reading is exact at a text iff, however it may be spelled as a key, its parts can be read; so it
is where no separator stands and there are no more characters than a numeral may have digits. At
every text, what is read is what readable parts spell, and what is no key at all is what is found
to be malformed. -/
theorem key_reading_exact_iff (key : String) :
    (ExactAt key ↔ ∀ k : KeySpelling, k.text = key.toList → k.Readable) ∧
    (∀ c, ofKey key = .ok c ↔
      ∃ k : KeySpelling, k.text = key.toList ∧ k.Readable ∧ k.cell = c) ∧
    ((∃ fault, ofKey key = .error fault ∧ fault.isForm = true) ↔
      ¬∃ k : KeySpelling, k.text = key.toList) ∧
    ((∀ c ∈ key.toList, ¬IsSeparator c) → key.length ≤ digitLimit → ExactAt key) := by
  refine ⟨exactAt_iff, fun _ => ofKey_eq_ok_iff, malformed_iff, fun plain short => ?_⟩
  apply exactAt_iff.mpr
  exact fun k spelled => k.readable_of_plain spelled plain short

theorem key_reading_exact_iff_blanks :
    ExactAt " 1, +2 ,-03 " ∧ ofKey " 1, +2 ,-03 " = .ok ⟨1, 2, -3⟩ := by
  have none : (" 1, +2 ,-03 ".toList.all fun c => !decide (IsSeparator c)) = true := by
    decide +kernel
  have plain : ∀ c ∈ " 1, +2 ,-03 ".toList, ¬IsSeparator c := fun c listed => by
    simpa using List.all_eq_true.mp none c listed
  exact ⟨(key_reading_exact_iff _).2.2.2 plain (by decide +kernel), by decide +kernel⟩

/-- A separator before a numeral passes as a blank, and so does a numeral of too many digits. -/
theorem not_every_key_exact :
    ¬ExactAt "\x1c1,0,0" ∧
      ¬ExactAt (String.ofList (List.replicate (digitLimit + 1) '1' ++ ",0,0".toList)) := by
  constructor
  · intro exact
    have failed : ofKey "\x1c1,0,0" = .error (.numeral (.notInteger "\x1c1")) := by
      decide +kernel
    cases exact.only _ failed
  · intro exact
    have word : Word isAsciiDigit (List.replicate (digitLimit + 1) '1') := by
      constructor
      · exact List.cons_ne_nil _ _
      · intro c hc
        rw [List.eq_of_mem_replicate hc]
        decide
    let zero : KeyPart := ⟨[], .absent, ['0'], [], by simp, by decide, by simp⟩
    let long : KeyPart := ⟨[], .absent, _, [], by simp, word, by simp⟩
    have readable := exactAt_iff.mp exact ⟨long, zero, zero⟩ (by
      rw [String.toList_ofList]
      simp [KeySpelling.text, KeyPart.text, joinFields, long, zero, Sign.chars])
    have short := readable.s.short
    simp only [long, List.length_replicate] at short
    omega

end Cell

end Autotile
