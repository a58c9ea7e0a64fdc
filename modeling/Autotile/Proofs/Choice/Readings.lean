import Autotile.Proofs.Choice.Locality

/-! # Composing on readings that may fail

A composition asks about one cell after another, and to ask may fail. Where it does not, it comes to
what it would be in surroundings that are known beforehand, as long as the constraints that may be
judged cannot tell the two apart. So what it comes to depends on the cells that the rulebook
declares, whether the others can be read or not. -/
namespace Autotile

variable {α β : Type} {P : Fault → Prop}

/-- A computation that fails only by faults of a kind and otherwise gives a value. -/
structure Gives (P : Fault → Prop) (x : Except Fault α) (a : α) : Prop where
  fails : FailsBy P x
  value : ∀ b, x = .ok b → b = a

theorem gives_ok (a : α) : Gives P (.ok a) a :=
  ⟨failsBy_ok a, fun _ h => (Except.ok.inj h).symm⟩

namespace Gives

theorem bind {x : Except Fault α} {f : α → Except Fault β} {a : α} {b : β} (hx : Gives P x a)
    (hf : Gives P (f a) b) : Gives P (x >>= f) b := by
  cases x with
  | error fault => exact ⟨failsBy_error (hx.fails fault rfl), fun _ h => nomatch h⟩
  | ok a' =>
    obtain rfl := hx.value a' rfl
    exact hf

theorem eq_ok {x : Except Fault α} {a : α} (h : Gives (fun _ => False) x a) : x = .ok a := by
  cases x with
  | error fault => exact (h.fails fault rfl).elim
  | ok a' => rw [h.value a' rfl]

variable {xs : List α}

theorem allM {f : α → Except Fault Bool} {g : α → Id Bool}
    (h : ∀ x ∈ xs, Gives P (f x) (g x).run) : Gives P (xs.allM f) (xs.allM g).run := by
  induction xs with
  | nil => exact gives_ok true
  | cons x xs ih =>
    rw [List.allM_cons, List.allM_cons]
    refine (h x List.mem_cons_self).bind ?_
    rw [Id.run_bind]
    cases (g x).run with
    | false => exact gives_ok false
    | true => exact ih fun y hy => h y (List.mem_cons_of_mem x hy)

theorem filterM {f : α → Except Fault Bool} {g : α → Id Bool}
    (h : ∀ x ∈ xs, Gives P (f x) (g x).run) : Gives P (xs.filterM f) (xs.filterM g).run := by
  have kept : ∀ seen, Gives P (xs.filterAuxM f seen) (xs.filterAuxM g seen).run := by
    induction xs with
    | nil => exact fun seen => gives_ok _
    | cons x xs ih =>
      intro seen
      exact (h x List.mem_cons_self).bind (ih (fun y hy => h y (List.mem_cons_of_mem x hy)) _)
  exact (kept []).bind (gives_ok _)

theorem filterMapM {f : α → Except Fault (Option β)} {g : α → Id (Option β)}
    (h : ∀ x ∈ xs, Gives P (f x) (g x).run) : Gives P (xs.filterMapM f) (xs.filterMapM g).run := by
  induction xs with
  | nil => exact gives_ok []
  | cons x xs ih =>
    have rest := ih fun y hy => h y (List.mem_cons_of_mem x hy)
    rw [List.filterMapM_cons, List.filterMapM_cons]
    refine (h x List.mem_cons_self).bind ?_
    rw [Id.run_bind]
    cases (g x).run with
    | none => exact rest
    | some y => exact rest.bind (gives_ok _)

end Gives

variable {around : Surroundings (Except Fault)} {look : Surroundings Id}

/-- Reading the cell of a constraint gives something that meets it just where what is known to be
there does. -/
def Constraint.ReadsAs (P : Fault → Prop) (own : String) (around : Surroundings (Except Fault))
    (look : Surroundings Id) (k : Constraint) : Prop :=
  ∃ content, Gives P (around k.offset) content ∧
    k.met own content = k.met own (look k.offset).run

theorem Rule.holds_gives {q : Query} {r : Rule}
    (h : ∀ k ∈ r.constraints, k.ReadsAs P q.type around look) (ignoreUp : Bool) :
    Gives P (r.holds around q ignoreUp) (r.holds look q ignoreUp).run := by
  unfold Rule.holds
  by_cases admitted : r.admitsElevation q.elevation = true
  · rw [if_pos admitted, if_pos admitted]
    refine Gives.allM fun k hk => ?_
    by_cases ignored : (ignoreUp && k.isUp) = true
    · rw [if_pos ignored, if_pos ignored]
      exact gives_ok true
    · rw [if_neg ignored, if_neg ignored]
      obtain ⟨content, read, same⟩ := h k hk
      refine read.bind ?_
      rw [same]
      exact gives_ok _
  · rw [if_neg admitted, if_neg admitted]
    exact gives_ok false

namespace Rulebook

variable {b : Rulebook} {q : Query} {type : String}

def Judges (b : Rulebook) (type : String) (k : Constraint) : Prop :=
  ∃ slot r, (r ∈ b.candidates type slot ∨ r ∈ b.candidates (family type) slot) ∧ k ∈ r.constraints

theorem bestOf_gives (type : String)
    (h : ∀ r ∈ b.candidates type q.slot, ∀ k ∈ r.constraints, k.ReadsAs P q.type around look) :
    Gives P (b.bestOf around type q) (b.bestOf look type q).run := by
  have judged : ∀ ignoreUp, Gives P
      ((b.candidates type q.slot).filterM (Rule.holds around q ignoreUp))
      ((b.candidates type q.slot).filterM (Rule.holds look q ignoreUp)).run := fun ignoreUp =>
    Gives.filterM fun r hr => Rule.holds_gives (h r hr) ignoreUp
  unfold bestOf
  refine (judged false).bind ?_
  rw [Id.run_bind]
  cases best ((b.candidates type q.slot).filterM (Rule.holds look q false)).run with
  | some rule => exact gives_ok _
  | none =>
    by_cases corner : Sprite.upperCorners.contains q.slot = true
    · simp only [if_pos corner]
      refine (judged true).bind ?_
      rw [Id.run_bind]
      cases best ((b.candidates type q.slot).filterM (Rule.holds look q true)).run <;>
        exact gives_ok _
    · simp only [if_neg corner]
      exact gives_ok _

theorem choose_gives (h : ∀ k, b.Judges q.type k → k.ReadsAs P q.type around look) :
    Gives P (b.choose around q) (b.choose look q).run := by
  have own := bestOf_gives q.type fun r hr k hk => h k ⟨q.slot, r, .inl hr, hk⟩
  have family := bestOf_gives (family q.type) fun r hr k hk =>
    h k ⟨q.slot, r, .inr hr, hk⟩
  unfold choose
  refine own.bind ?_
  rw [Id.run_bind]
  cases (b.bestOf look q.type q).run with
  | some found => exact gives_ok _
  | none =>
    by_cases plain : Autotile.family q.type = q.type
    · simp only [if_pos plain]
      exact gives_ok _
    · simp only [if_neg plain]
      refine family.bind ?_
      rw [Id.run_bind]
      cases (b.bestOf look (Autotile.family q.type) q).run <;> exact gives_ok _

/-- Whatever is read on the way, the fragments are those of the surroundings that are known. -/
theorem compose_gives (h : ∀ k, b.Judges type k → k.ReadsAs P type around look) (elevation : Int) :
    Gives P (b.compose around type elevation) (b.compose look type elevation).run := by
  refine Gives.filterMapM fun placement _ => ?_
  exact (choose_gives (q := ⟨type, placement.1, elevation⟩) h).bind (gives_ok _)

end Rulebook

section Dependence

variable {b : Rulebook} {type : String} {cell : Cell}

theorem gives_toOption (x : Except Fault (Option α)) : Gives (fun _ => True) x x.toOption.join := by
  cases x with
  | error fault => exact ⟨fun _ _ => trivial, fun _ h => nomatch h⟩
  | ok content => exact gives_ok content

/-- A map as far as it can be read; a cell that cannot is taken for empty. -/
def legible (look : Cell → Except Fault (Option String)) : Cell → Id (Option String) :=
  fun c => (look c).toOption.join

theorem Rulebook.composeAt_of_ok {look : Cell → Except Fault (Option String)}
    {shown : List Fragment} (h : b.composeAt look type cell = .ok shown) :
    shown = (b.composeAt (legible look) type cell).run := by
  have composed : Gives (fun _ => True) (b.composeAt look type cell)
      (b.composeAt (legible look) type cell).run :=
    compose_gives (fun k _ => ⟨_, gives_toOption (look (cell + k.offset)), rfl⟩) cell.u
  exact composed.value shown h

/-- Two maps that agree on the declared cells, those at an offset whose opposite is among the
dependencies, show a tile of the same fragments. What they hold elsewhere does not matter, nor
whether it can be read, as long as both compositions succeed. -/
theorem Rulebook.fragments_depend_on_declared_cells (b : Rulebook) (type : String) (cell : Cell) :
    (∀ look₁ look₂ : Cell → Id (Option String),
      (∀ o, -o ∈ b.dependencies → look₁ (cell + o) = look₂ (cell + o)) →
        (b.composeAt look₁ type cell).run = (b.composeAt look₂ type cell).run) ∧
    ∀ look₁ look₂ : Cell → Except Fault (Option String),
      (∀ o, -o ∈ b.dependencies → look₁ (cell + o) = look₂ (cell + o)) →
        ∀ shown₁ shown₂, b.composeAt look₁ type cell = .ok shown₁ →
          b.composeAt look₂ type cell = .ok shown₂ → shown₁ = shown₂ := by
  have whole (look₁ look₂ : Cell → Id (Option String))
      (agree : ∀ o, -o ∈ b.dependencies → look₁ (cell + o) = look₂ (cell + o)) :
      (b.composeAt look₁ type cell).run = (b.composeAt look₂ type cell).run := by
    have seen : ∀ o ∈ b.dependencies, look₁ (cell + -o) = look₂ (cell + -o) := by
      intro o ho
      apply agree
      rwa [Cell.neg_neg]
    rw [composeAt_congr seen fun _ => rfl]
  refine ⟨whole, fun look₁ look₂ agree shown₁ shown₂ h₁ h₂ => ?_⟩
  rw [composeAt_of_ok h₁, composeAt_of_ok h₂]
  refine whole _ _ fun o ho => ?_
  rw [legible, legible, agree o ho]

/-- The rule of the family holds only if the cell above is ignored. It also reads the cell to the
north, of which it requires nothing, and cells that it does not read cannot be read at all. -/
theorem Rulebook.fragments_depend_on_declared_cells_ramp :
    let book : Rulebook := ⟨[("rock", [("11", [⟨"ramp", "rock", "11",
      [⟨[.up], .occupied⟩, ⟨[.north], .any⟩, ⟨[.west, .up], .sameFamily⟩], none, 5⟩])])]⟩
    let cell : Cell := ⟨3, 1, 0⟩
    let bare : Cell → Except Fault (Option String) := fun c =>
      .ok (if c = ⟨3, 0, 1⟩ then some "rock_dry" else none)
    let flooded : Cell → Except Fault (Option String) := fun c =>
      if c = ⟨3, 1, 1⟩ then .ok none else if c = ⟨3, 0, 1⟩ then .ok (some "rock_dry")
      else if c = ⟨2, 1, 0⟩ then .ok (some "water") else .error (.numeral .tooLongToWrite)
    (∀ o, -o ∈ book.dependencies → bare (cell + o) = flooded (cell + o)) ∧
      book.composeAt bare "rock_wet" cell = .ok [⟨"11", "ramp", 0, 0, 4⟩] ∧
      book.composeAt flooded "rock_wet" cell = .ok [⟨"11", "ramp", 0, 0, 4⟩] := by
  intro book cell bare flooded
  have declared : ∀ o, -o ∈ book.dependencies → bare (cell + o) = flooded (cell + o) := by
    intro o ho
    have offsets : book.dependencies = [⟨0, 1, -1⟩, ⟨0, 0, -1⟩] := by decide
    rw [offsets, List.mem_cons, List.mem_singleton] at ho
    rw [← Cell.neg_neg o]
    rcases ho with behind | above
    · rw [behind]
      rfl
    · rw [above]
      rfl
  have shown : book.composeAt bare "rock_wet" cell = .ok [⟨"11", "ramp", 0, 0, 4⟩] :=
    eq_ok_of_toOption (by decide +kernel)
  have told : (book.composeAt flooded "rock_wet" cell).isOk = true := by decide +kernel
  cases shown' : book.composeAt flooded "rock_wet" cell with
  | error fault =>
    rw [shown'] at told
    cases told
  | ok other =>
    obtain rfl := (fragments_depend_on_declared_cells book "rock_wet" cell).2 bare flooded declared
      _ other shown shown'
    exact ⟨declared, shown, rfl⟩

end Dependence

section MapError

variable (φ : Fault → Fault)

theorem Rule.holds_mapError (around : Surroundings (Except Fault)) (q : Query) (ignoreUp : Bool)
    (r : Rule) : (r.holds around q ignoreUp).mapError φ =
      r.holds (fun o => (around o).mapError φ) q ignoreUp := by
  unfold Rule.holds
  by_cases admitted : r.admitsElevation q.elevation = true
  · rw [if_pos admitted, if_pos admitted, mapError_allM]
    refine congrArg (r.constraints.allM ·) (funext fun k => ?_)
    by_cases ignored : (ignoreUp && k.isUp) = true
    · rw [if_pos ignored, if_pos ignored]
      rfl
    · rw [if_neg ignored, if_neg ignored, mapError_bind]
      rfl
  · rw [if_neg admitted, if_neg admitted]
    rfl

namespace Rulebook

variable (b : Rulebook) (around : Surroundings (Except Fault))

theorem bestOf_mapError (type : String) (q : Query) : (b.bestOf around type q).mapError φ =
    b.bestOf (fun o => (around o).mapError φ) type q := by
  have judged : ∀ ignoreUp,
      ((b.candidates type q.slot).filterM (Rule.holds around q ignoreUp)).mapError φ =
        (b.candidates type q.slot).filterM
          (Rule.holds (fun o => (around o).mapError φ) q ignoreUp) := by
    intro ignoreUp
    rw [mapError_filterM]
    exact congrArg (List.filterM · _) (funext fun r => r.holds_mapError φ around q ignoreUp)
  unfold bestOf
  dsimp only
  rw [mapError_bind, judged]
  refine congrArg _ (funext fun strict => ?_)
  cases best strict with
  | some rule => rfl
  | none =>
    by_cases corner : Sprite.upperCorners.contains q.slot = true
    · simp only [if_pos corner]
      rw [mapError_bind, judged]
      refine congrArg _ (funext fun loose => ?_)
      cases best loose <;> rfl
    · simp only [if_neg corner]
      rfl

theorem choose_mapError (q : Query) : (b.choose around q).mapError φ =
    b.choose (fun o => (around o).mapError φ) q := by
  unfold choose
  rw [mapError_bind, bestOf_mapError]
  refine congrArg _ (funext fun own => ?_)
  cases own with
  | some found => rfl
  | none =>
    by_cases plain : Autotile.family q.type = q.type
    · simp only [if_pos plain]
      rfl
    · simp only [if_neg plain]
      rw [mapError_bind, bestOf_mapError]
      refine congrArg _ (funext fun found => ?_)
      cases found <;> rfl

theorem composeAt_mapError (look : Cell → Except Fault (Option String)) (type : String)
    (cell : Cell) : (b.composeAt look type cell).mapError φ =
      b.composeAt (fun c => (look c).mapError φ) type cell := by
  unfold composeAt compose
  rw [mapError_filterMapM]
  refine congrArg (List.filterMapM · _) (funext fun placement => ?_)
  unfold place
  rw [mapError_bind, choose_mapError]
  rfl

end Rulebook

end MapError

end Autotile
