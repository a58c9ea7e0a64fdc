import Mathlib.Data.List.TakeWhile
import Autotile.Text.Fields

/-! # Cutting and joining

Texts that hold no separator are given back by cutting what joins them. -/
namespace Autotile.Text

variable {sep : Char}

theorem fields_of_notMem {cs : List Char} (h : sep ∉ cs) : fields sep cs = [cs] := by
  induction cs with
  | nil => rfl
  | cons c cs ih =>
    have hc : c ≠ sep := fun hc => h (hc ▸ List.mem_cons_self)
    rw [fields, if_neg hc, ih fun hm => h (List.mem_cons_of_mem c hm)]

theorem fields_append {cs : List Char} (h : sep ∉ cs) (rest : List Char) :
    fields sep (cs ++ sep :: rest) = cs :: fields sep rest := by
  induction cs with
  | nil => simp [fields]
  | cons c cs ih =>
    have hc : c ≠ sep := fun hc => h (hc ▸ List.mem_cons_self)
    rw [List.cons_append, fields, if_neg hc, ih fun hm => h (List.mem_cons_of_mem c hm)]

theorem fields_joinFields {fs : List (List Char)} (hne : fs ≠ []) (h : ∀ f ∈ fs, sep ∉ f) :
    fields sep (joinFields sep fs) = fs := by
  induction fs with
  | nil => exact absurd rfl hne
  | cons f fs ih =>
    have hf : sep ∉ f := h f List.mem_cons_self
    cases fs with
    | nil => exact fields_of_notMem hf
    | cons g gs =>
      have rest := ih (List.cons_ne_nil g gs) fun x hx => h x (List.mem_cons_of_mem f hx)
      rw [joinFields, fields_append hf, rest]

theorem mem_joinFields {fs : List (List Char)} {c : Char} (h : c ∈ joinFields sep fs) :
    c = sep ∨ ∃ f ∈ fs, c ∈ f := by
  induction fs with
  | nil => cases h
  | cons f fs ih =>
    cases fs with
    | nil => exact Or.inr ⟨f, List.mem_cons_self, h⟩
    | cons g gs =>
      rw [joinFields] at h
      rcases List.mem_append.mp h with h | h
      · exact Or.inr ⟨f, List.mem_cons_self, h⟩
      rcases List.mem_cons.mp h with rfl | h
      · exact Or.inl rfl
      · rcases ih h with rfl | ⟨x, hx, hc⟩
        · exact Or.inl rfl
        · exact Or.inr ⟨x, List.mem_cons_of_mem f hx, hc⟩

theorem infix_joinFields {fs : List (List Char)} {f : List Char} (h : f ∈ fs) :
    f <:+: joinFields sep fs := by
  induction fs with
  | nil => cases h
  | cons g fs ih =>
    cases fs with
    | nil =>
      obtain rfl := List.mem_singleton.mp h
      exact List.infix_rfl
    | cons k fs =>
      rw [joinFields]
      rcases List.mem_cons.mp h with rfl | h
      · exact (List.prefix_append f _).isInfix
      · have later : sep :: joinFields sep (k :: fs) <:+ g ++ sep :: joinFields sep (k :: fs) :=
          List.suffix_append g _
        exact (ih h).trans ((List.suffix_cons sep _).trans later).isInfix

theorem cut_append {cs : List Char} (h : sep ∉ cs) (rest : List Char) :
    cut sep (cs ++ sep :: rest) = (cs, some rest) := by
  have before : ∀ c ∈ cs, decide (c ≠ sep) = true := fun c hc =>
    decide_eq_true fun he => h (he ▸ hc)
  rw [cut, List.takeWhile_append_of_pos before, List.dropWhile_append_of_pos before]
  simp

theorem cut_of_notMem {cs : List Char} (h : sep ∉ cs) : cut sep cs = (cs, none) := by
  have before : ∀ c ∈ cs, decide (c ≠ sep) = true := fun c hc =>
    decide_eq_true fun he => h (he ▸ hc)
  rw [cut, List.takeWhile_eq_self_iff.mpr before, List.dropWhile_eq_nil_iff.mpr before]
  rfl

def IsLine (w cs : List Char) : Prop := cs = w ∨ cs = w ++ ['\n']

theorem isLine_chomp (cs : List Char) : IsLine (chomp cs) cs := by
  unfold chomp
  by_cases h : cs.getLast? = some '\n'
  · obtain ⟨w, rfl⟩ := List.getLast?_eq_some_iff.mp h
    rw [if_pos h, List.dropLast_concat]
    exact Or.inr rfl
  · rw [if_neg h]
    exact Or.inl rfl

theorem IsLine.chomp_eq {w cs : List Char} (h : IsLine w cs) (bare : '\n' ∉ w) : chomp cs = w := by
  unfold chomp
  rcases h with rfl | rfl
  · refine if_neg fun hl => bare ?_
    exact List.mem_of_getLast? hl
  · rw [if_pos (by simp), List.dropLast_concat]

theorem IsLine.notMem {w cs : List Char} {x : Char} (h : IsLine w cs) (hw : x ∉ w)
    (hx : x ≠ '\n') : x ∉ cs := by
  rcases h with rfl | rfl
  · exact hw
  · intro hm
    rcases List.mem_append.mp hm with hm | hm
    · exact hw hm
    · exact hx (List.mem_singleton.mp hm)

def Word (p : Char → Bool) (cs : List Char) : Prop := cs ≠ [] ∧ ∀ c ∈ cs, p c = true

instance (p : Char → Bool) (cs : List Char) : Decidable (Word p cs) :=
  decidable_of_iff ((!cs.isEmpty && cs.all p) = true) (by simp [Word])

theorem Word.notMem {p : Char → Bool} {cs : List Char} {c : Char} (h : Word p cs)
    (hc : p c = false) : c ∉ cs := by
  intro hm
  rw [h.2 c hm] at hc
  cases hc

end Autotile.Text
