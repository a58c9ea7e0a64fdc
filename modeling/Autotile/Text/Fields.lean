/-! Cutting text into fields at a separator. The fields, joined again by the separator,
give the text back; a text without the separator is its own single field. -/
namespace Autotile.Text

def fields (sep : Char) : List Char → List (List Char)
  | [] => [[]]
  | c :: cs =>
    if c = sep then [] :: fields sep cs
    else match fields sep cs with
      | [] => [[c]]
      | f :: fs => (c :: f) :: fs

def joinFields (sep : Char) : List (List Char) → List Char
  | [] => []
  | [f] => f
  | f :: g :: fs => f ++ sep :: joinFields sep (g :: fs)

theorem fields_ne_nil (sep : Char) (cs : List Char) : fields sep cs ≠ [] := by
  cases cs with
  | nil => simp [fields]
  | cons c cs =>
    simp only [fields]
    split
    · simp
    · split <;> simp

theorem joinFields_fields (sep : Char) (cs : List Char) : joinFields sep (fields sep cs) = cs := by
  induction cs with
  | nil => rfl
  | cons c cs ih =>
    simp only [fields]
    have hne := fields_ne_nil sep cs
    split
    · next h =>
      subst h
      match hf : fields c cs with
      | [] => exact absurd hf hne
      | g :: gs => rw [hf] at ih; simp [joinFields, ih]
    · split
      · next hf => exact absurd hf hne
      · next f fs hf =>
        rw [hf] at ih
        cases fs with
        | nil => simpa [joinFields] using ih
        | cons g gs => simpa [joinFields] using ih

/-- The text without one closing line end. -/
def chomp (cs : List Char) : List Char :=
  if cs.getLast? = some '\n' then cs.dropLast else cs

def cut (sep : Char) (cs : List Char) : List Char × Option (List Char) :=
  (cs.takeWhile (· ≠ sep), (cs.dropWhile (· ≠ sep)).tail?)

end Autotile.Text
