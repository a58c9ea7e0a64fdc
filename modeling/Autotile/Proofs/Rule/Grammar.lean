import Mathlib.Data.List.Forall2
import Autotile.Proofs.Text.Fields
import Autotile.Rule.Identifier

/-! # The grammar of texture identifiers

What identifiers are spelled of and what they denote, as relations. The documented spelling takes
words over `a` to `z`, `0` to `9` and `_` and ASCII numerals; the accepted one also takes a line end
that closes a word or the band of elevations, and digits of every script. -/
namespace Autotile.Rule

open Text Numeral

/-- How the words and the band of an identifier are spelled. -/
structure Spelling where
  Word : List Char → Prop
  Band : List Char → ElevationBand → Prop

namespace Spelling

/-- A requirement is written as its symbol, or names a type by a word that is no symbol. -/
inductive Requires (s : Spelling) : List Char → Requirement → Prop where
  | symbol {r : Requirement} (symbolic : r ∈ Requirement.symbolic) : Requires s r.symbol.toList r
  | literal {cs : List Char} (word : s.Word cs)
      (plain : ∀ r ∈ Requirement.symbolic, cs ≠ r.symbol.toList) :
      Requires s cs (.exactly (String.ofList cs))

/-- A token is a direction letter glued to its requirement, or a path, a colon and the
requirement. -/
inductive Token (s : Spelling) : List Char → Constraint → Prop where
  | letter {d : Direction} {cs : List Char} {r : Requirement} (requires : s.Requires cs r) :
      Token s (d.code :: cs) ⟨[d], r⟩
  | path {p : Path} {cs : List Char} {r : Requirement} (nonempty : p ≠ [])
      (requires : s.Requires cs r) : Token s (p.code ++ ':' :: cs) ⟨p, r⟩

def Tokens (s : Spelling) (tokens : List (List Char)) (given : List Constraint) : Prop :=
  List.Forall₂ s.Token tokens given ∧ (given.map (·.path)).Nodup

end Spelling

/-- What an identifier is put together from. -/
structure Phrase where
  type : List Char
  slot : String
  tokens : List (List Char)
  band : Option (List Char)

namespace Phrase

def pieces (p : Phrase) : List (List Char) :=
  p.type :: p.slot.toList :: joinFields ',' p.tokens :: p.band.toList

/-- `<type>-<slot>-<constraints>[-<modulus>:<index>]` -/
def stem (p : Phrase) : List Char := joinFields '-' p.pieces

def Names (p : Phrase) (name : String) : Prop :=
  name.toList = p.stem ∨ name.toList = p.stem ++ suffix.toList

end Phrase

/-- The phrase is well spelled and denotes these constraints and elevations. -/
structure Spelling.Denotes (s : Spelling) (p : Phrase) (given : List Constraint)
    (elevation : Option ElevationBand) : Prop where
  type : s.Word p.type
  slot : p.slot ∈ Sprite.slots
  nonempty : p.tokens ≠ []
  tokens : s.Tokens p.tokens given
  band : Option.Rel s.Band p.band elevation

def Spelling.Form (s : Spelling) (name : String) : Prop :=
  ∃ p given elevation, s.Denotes p given elevation ∧ p.Names name

inductive DocumentedBand : List Char → ElevationBand → Prop where
  | numerals {m i : List Char} (modulus : Text.Word isAsciiDigit m)
      (index : Text.Word isAsciiDigit i) (positive : 1 ≤ digitsValue m) :
      DocumentedBand (m ++ ':' :: i) ⟨digitsValue m, digitsValue i⟩

/-- What the documentation says is read. -/
def documented : Spelling := ⟨Text.Word isTypeChar, DocumentedBand⟩

def ClosedWord (cs : List Char) : Prop := ∃ w, Text.Word isTypeChar w ∧ IsLine w cs

def isDigit (c : Char) : Bool := (decimalValue? c).isSome

def numeralValue (cs : List Char) : Nat := digitsValue (cs.map plainChar)

/-- Two numerals of any script, short enough to be read, with a colon between them. One line end
may close them; the modulus is at least one. -/
inductive AcceptedBand : List Char → ElevationBand → Prop where
  | numerals {band m i : List Char} (line : IsLine (m ++ ':' :: i) band)
      (modulus : Text.Word isDigit m) (index : Text.Word isDigit i) (short : m.length ≤ digitLimit)
      (short' : i.length ≤ digitLimit) (positive : 1 ≤ numeralValue m) :
      AcceptedBand band ⟨numeralValue m, numeralValue i⟩

/-- What is read. -/
def accepted : Spelling := ⟨ClosedWord, AcceptedBand⟩

/-! No piece holds what separates the pieces, so an identifier is cut as it was put together. -/

def tokenChars : List Char := "unesdw:*=!01234".toList

structure Spelling.Avoids (s : Spelling) (x : Char) : Prop where
  fixed : x ∉ tokenChars
  word {cs : List Char} : s.Word cs → x ∉ cs
  band {band : List Char} {e : ElevationBand} : s.Band band e → x ∉ band

theorem notMem_halves {m i : List Char} {x : Char} (hm : x ∉ m) (hx : x ≠ ':') (hi : x ∉ i) :
    x ∉ m ++ ':' :: i := by
  simp [hm, hx, hi]

theorem documented_avoids {x : Char} (fixed : x ∉ tokenChars) (type : isTypeChar x = false) :
    documented.Avoids x where
  fixed := fixed
  word := fun word => Text.Word.notMem word type
  band := fun band => by
    have digit : isAsciiDigit x = false := by
      simp only [isTypeChar, Bool.or_eq_false_iff] at type
      exact type.1.2
    have colon : x ≠ ':' := fun hx => fixed (hx ▸ by decide)
    cases band with
    | numerals modulus index =>
      exact notMem_halves (modulus.notMem digit) colon (index.notMem digit)

theorem accepted_avoids {x : Char} (fixed : x ∉ tokenChars) (type : isTypeChar x = false)
    (digit : isDigit x = false) (line : x ≠ '\n') : accepted.Avoids x where
  fixed := fixed
  word := fun ⟨_, word, closed⟩ => closed.notMem (word.notMem type) line
  band := fun band => by
    have colon : x ≠ ':' := fun hx => fixed (hx ▸ by decide)
    cases band with
    | numerals closed modulus index =>
      exact closed.notMem (notMem_halves (modulus.notMem digit) colon (index.notMem digit)) line

theorem code_subset (p : Path) : p.code ⊆ tokenChars := by
  intro c hc
  obtain ⟨d, -, rfl⟩ := List.mem_map.mp hc
  cases d <;> decide

section

variable {s : Spelling} {x : Char} (h : s.Avoids x)

include h

theorem Spelling.Avoids.requires {cs : List Char} {r : Requirement} (hr : s.Requires cs r) :
    x ∉ cs := by
  cases hr with
  | symbol symbolic =>
    have all : ∀ r ∈ Requirement.symbolic, r.symbol.toList ⊆ tokenChars := by decide
    exact fun hm => h.fixed (all _ symbolic hm)
  | literal word => exact h.word word

theorem Spelling.Avoids.token {token : List Char} {c : Constraint} (ht : s.Token token c) :
    x ∉ token := by
  have code (p : Path) : x ∉ p.code := fun hm => h.fixed (code_subset p hm)
  cases ht with
  | @letter d cs r requires =>
    have glued : x ∉ Path.code [d] ++ cs := by
      intro hm
      rcases List.mem_append.mp hm with hm | hm
      · exact code [d] hm
      · exact h.requires requires hm
    exact glued
  | @path p cs r _ requires =>
    exact notMem_halves (code p) (fun hx => h.fixed (hx ▸ by decide)) (h.requires requires)

theorem Spelling.Avoids.tokens {tokens : List (List Char)} {given : List Constraint}
    (ht : List.Forall₂ s.Token tokens given) : ∀ token ∈ tokens, x ∉ token := by
  induction ht with
  | nil => exact fun token hm => absurd hm List.not_mem_nil
  | cons head _ ih => exact List.forall_mem_cons.mpr ⟨h.token head, ih⟩

theorem Spelling.Avoids.pieces {p : Phrase} {given : List Constraint}
    {elevation : Option ElevationBand} (hp : s.Denotes p given elevation) (comma : x ≠ ',') :
    ∀ piece ∈ p.pieces, x ∉ piece := by
  intro piece hm
  simp only [Phrase.pieces, List.mem_cons, Option.mem_toList] at hm
  rcases hm with rfl | rfl | rfl | hm
  · exact h.word hp.type
  · have all : ∀ slot ∈ Sprite.slots, slot.toList ⊆ tokenChars := by decide
    exact fun hx => h.fixed (all p.slot hp.slot hx)
  · intro hx
    rcases mem_joinFields hx with hx | ⟨token, ht, hx⟩
    · exact comma hx
    · exact h.tokens hp.tokens.1 token ht hx
  · have band := hp.band
    rw [hm] at band
    cases band with
    | some band => exact h.band band

theorem Spelling.Avoids.stem {p : Phrase} {given : List Constraint}
    {elevation : Option ElevationBand} (hp : s.Denotes p given elevation) (comma : x ≠ ',')
    (dash : x ≠ '-') : x ∉ p.stem := by
  intro hx
  rcases mem_joinFields hx with hx | ⟨piece, hm, hx⟩
  · exact dash hx
  · exact h.pieces hp comma piece hm hx

theorem Spelling.Avoids.form {name : String} (hn : s.Form name) (comma : x ≠ ',') (dash : x ≠ '-')
    (dot : x ∉ suffix.toList) : x ∉ name.toList := by
  obtain ⟨p, given, elevation, hp, names⟩ := hn
  have stem := h.stem hp comma dash
  rcases names with whole | suffixed
  · rwa [whole]
  · rw [suffixed]
    intro hm
    rcases List.mem_append.mp hm with hm | hm
    · exact stem hm
    · exact dot hm

end

theorem token_ne_nil {s : Spelling} {token : List Char} {c : Constraint} (h : s.Token token c) :
    token ≠ [] := by
  cases h with
  | letter => exact List.cons_ne_nil _ _
  | path => exact List.append_ne_nil_of_right_ne_nil _ (List.cons_ne_nil _ _)

theorem colon_notMem_code (p : Path) : ':' ∉ p.code := by
  intro hm
  obtain ⟨d, -, hd⟩ := List.mem_map.mp hm
  cases d <;> exact absurd hd (by decide)

theorem colon_notMem_requires {cs : List Char} {r : Requirement} (h : accepted.Requires cs r) :
    ':' ∉ cs := by
  cases h with
  | symbol symbolic =>
    have all : ∀ r ∈ Requirement.symbolic, ':' ∉ r.symbol.toList := by decide
    exact all _ symbolic
  | literal word =>
    obtain ⟨w, word, rfl | rfl⟩ := word
    · exact word.notMem (by decide)
    · intro hm
      rcases List.mem_append.mp hm with hm | hm
      · exact word.notMem (by decide) hm
      · exact absurd hm (by decide)

theorem stripSuffix_append (cs : List Char) : stripSuffix (cs ++ suffix.toList) = cs := by
  have ends : suffix.toList.isSuffixOf (cs ++ suffix.toList) = true :=
    List.isSuffixOf_iff_suffix.mpr (List.suffix_append cs _)
  have kept : (cs ++ suffix.toList).length - suffix.length = cs.length := by
    rw [List.length_append, String.length_toList, Nat.add_sub_cancel]
  rw [stripSuffix, if_pos ends, kept, List.take_left]

theorem stripSuffix_of_notMem {cs : List Char} (h : '.' ∉ cs) : stripSuffix cs = cs := by
  refine if_neg fun ends => h ?_
  exact (List.isSuffixOf_iff_suffix.mp ends).subset (by decide)

theorem eq_stripSuffix (cs : List Char) :
    cs = stripSuffix cs ∨ cs = stripSuffix cs ++ suffix.toList := by
  by_cases ends : suffix.toList.isSuffixOf cs = true
  · obtain ⟨before, rfl⟩ := List.isSuffixOf_iff_suffix.mp ends
    rw [stripSuffix_append]
    exact Or.inr rfl
  · exact Or.inl (if_neg ends).symm

section

variable {p : Phrase} {given : List Constraint} {elevation : Option ElevationBand}

theorem Spelling.Denotes.fields_tokens (h : accepted.Denotes p given elevation) :
    fields ',' (joinFields ',' p.tokens) = p.tokens := by
  have avoids : accepted.Avoids ',' :=
    accepted_avoids (by decide) (by decide) (by decide) (by decide)
  exact fields_joinFields h.nonempty (avoids.tokens h.tokens.1)

theorem Spelling.Denotes.parts_eq {name : String} (h : accepted.Denotes p given elevation)
    (names : p.Names name) : parts name = p.pieces := by
  have dash : accepted.Avoids '-' :=
    accepted_avoids (by decide) (by decide) (by decide) (by decide)
  have dot : accepted.Avoids '.' :=
    accepted_avoids (by decide) (by decide) (by decide) (by decide)
  have dotless : '.' ∉ p.stem := dot.stem h (by decide) (by decide)
  have stripped : stripSuffix name.toList = p.stem := by
    rcases names with whole | suffixed
    · rw [whole, stripSuffix_of_notMem dotless]
    · rw [suffixed, stripSuffix_append]
  have nonempty : p.pieces ≠ [] := List.cons_ne_nil _ _
  rw [parts, stripped, Phrase.stem, fields_joinFields nonempty (dash.pieces h (by decide))]

theorem Phrase.names_of_parts {name : String} (h : parts name = p.pieces) : p.Names name := by
  have stem : stripSuffix name.toList = p.stem := by
    rw [Phrase.stem, ← h, parts, joinFields_fields]
  have whole := eq_stripSuffix name.toList
  rwa [stem] at whole

end

theorem infix_of_mem_parts {name : String} {part : List Char} (h : part ∈ parts name) :
    part <:+: name.toList := by
  have inside : part <:+: stripSuffix name.toList := by
    rw [← joinFields_fields '-' (stripSuffix name.toList)]
    exact infix_joinFields h
  refine inside.trans ?_
  rcases eq_stripSuffix name.toList with whole | suffixed
  · exact ⟨[], [], by rw [List.nil_append, List.append_nil, ← whole]⟩
  · exact ⟨[], suffix.toList, by rw [List.nil_append, ← suffixed]⟩

/-! A phrase of one spelling is one of another if its words and its band are. -/

section

variable {s t : Spelling}

theorem Spelling.Requires.imp {cs : List Char} {r : Requirement} (h : s.Requires cs r)
    (word : s.Word cs → t.Word cs) : t.Requires cs r := by
  cases h with
  | symbol symbolic => exact .symbol symbolic
  | literal spelled plain => exact .literal (word spelled) plain

theorem Spelling.Token.imp {token : List Char} {c : Constraint} (h : s.Token token c)
    (word : ∀ cs, cs <:+ token → s.Word cs → t.Word cs) : t.Token token c := by
  cases h with
  | letter requires =>
    exact .letter (requires.imp (word _ (List.suffix_cons _ _)))
  | @path p cs r nonempty requires =>
    have ends : cs <:+ p.code ++ ':' :: cs :=
      (List.suffix_cons ':' cs).trans (List.suffix_append _ _)
    exact .path nonempty (requires.imp (word _ ends))

theorem Spelling.Tokens.imp {tokens : List (List Char)} {given : List Constraint}
    (h : s.Tokens tokens given)
    (word : ∀ token ∈ tokens, ∀ cs, cs <:+ token → s.Word cs → t.Word cs) :
    t.Tokens tokens given := by
  obtain ⟨spelled, once⟩ := h
  refine ⟨?_, once⟩
  clear once
  induction spelled with
  | nil => exact .nil
  | cons head _ ih =>
    refine .cons (head.imp (word _ List.mem_cons_self)) (ih fun token ht => ?_)
    exact word token (List.mem_cons_of_mem _ ht)

theorem Spelling.Denotes.imp {p : Phrase} {given : List Constraint}
    {elevation : Option ElevationBand} (h : s.Denotes p given elevation)
    (word : ∀ piece ∈ p.pieces, ∀ cs, cs <:+: piece → s.Word cs → t.Word cs)
    (band : ∀ piece ∈ p.pieces, ∀ e, s.Band piece e → t.Band piece e) :
    t.Denotes p given elevation where
  type := word p.type List.mem_cons_self _ List.infix_rfl h.type
  slot := h.slot
  nonempty := h.nonempty
  tokens := h.tokens.imp fun token ht cs ends => by
    have third : joinFields ',' p.tokens ∈ p.pieces :=
      List.mem_cons_of_mem _ (List.mem_cons_of_mem _ List.mem_cons_self)
    exact word _ third cs (ends.isInfix.trans (infix_joinFields ht))
  band := by
    have bounds := h.band
    have pieces : ∀ b ∈ p.band, b ∈ p.pieces := fun b hb => by
      simp [Phrase.pieces, Option.mem_def.mp hb]
    cases hb : p.band with
    | none =>
      rw [hb] at bounds
      cases bounds
      exact .none
    | some b =>
      rw [hb] at bounds
      cases bounds with
      | some spelled => exact .some (band b (pieces b hb) _ spelled)

end

end Autotile.Rule
