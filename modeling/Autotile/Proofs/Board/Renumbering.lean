import Mathlib.Data.List.Basic
import Mathlib.Order.Monotone.Basic
import Autotile.Proofs.Board.Reading
import Autotile.Proofs.Choice.Readings
import Autotile.Proofs.Datum.Reading

/-! # Boards that differ in numbers only

Two boards may hold the same entities under different numbers. Whatever is read of the one is read
of the other, but for the numbers; and the same change makes of them two such boards again, as long
as new entities are numbered on in both. -/
namespace Autotile

/-- How entities are numbered elsewhere. Their order is kept, and so are the numbers of the
fixtures; beyond those the next number is the next one there too. -/
structure Renumbering where
  fixtures : Nat
  map : Nat → Nat
  mono : StrictMono map
  fixed : ∀ id ≤ fixtures, map id = id
  next : ∀ id, fixtures < id → map (id + 1) = map id + 1
  /-- What `-(k + 1)` stands for. Like it, this is never the number of an entity. -/
  idle : Nat → Int
  idle_free : ∀ k i : Nat, idle k = i → ∀ id, map id ≠ i

namespace Renumbering

instance : CoeFun Renumbering fun _ => Nat → Nat := ⟨map⟩

variable (ρ : Renumbering)

theorem inj {i j : Nat} : ρ i = ρ j ↔ i = j := ρ.mono.injective.eq_iff

theorem fixtures_lt {id : Nat} (h : ρ.fixtures < id) : ρ.fixtures < ρ id := by
  have after := ρ.mono h
  rwa [ρ.fixed _ (Nat.le_refl _)] at after

theorem le_fixtures_iff (id : Nat) : ρ id ≤ ρ.fixtures ↔ id ≤ ρ.fixtures := by
  constructor
  · intro h
    by_contra beyond
    have := ρ.fixtures_lt (Nat.lt_of_not_le beyond)
    omega
  · intro h
    rwa [ρ.fixed id h]

def name : Int → Int
  | .ofNat id => ρ id
  | .negSucc k => ρ.idle k

/-- The first number beyond the fixtures becomes `next`, and so on from there. The numbers that are
passed over are idle. -/
def upTo (fixtures next : Nat) : Renumbering where
  fixtures
  map id := if id ≤ fixtures then id else id + (next - (fixtures + 1))
  mono := by
    intro i j h
    by_cases low : i ≤ fixtures <;> by_cases low' : j ≤ fixtures <;> simp [low, low'] <;> omega
  fixed _ h := if_pos h
  next id h := by
    rw [if_neg (by omega), if_neg (by omega)]
    omega
  idle k :=
    if k < next - (fixtures + 1) then .ofNat (fixtures + 1 + k)
    else .negSucc (k - (next - (fixtures + 1)))
  idle_free := by
    intro k i h id
    by_cases passed : k < next - (fixtures + 1)
    · rw [if_pos passed, Int.ofNat_eq_natCast, Int.ofNat_inj] at h
      by_cases low : id ≤ fixtures
      · rw [if_pos low]
        omega
      · rw [if_neg low]
        omega
    · rw [if_neg passed] at h
      cases h

theorem upTo_next {fixtures next : Nat} (h : fixtures < next) :
    upTo fixtures next (fixtures + 1) = next := by
  change (if fixtures + 1 ≤ fixtures then _ else _) = _
  rw [if_neg (by omega)]
  omega

theorem upTo_name_surjective {fixtures next : Nat} (h : fixtures < next) :
    Function.Surjective (upTo fixtures next).name := by
  rintro (i | k)
  · by_cases low : i ≤ fixtures
    · exact ⟨.ofNat i, congrArg Int.ofNat (if_pos low)⟩
    · by_cases passed : i < next
      · refine ⟨.negSucc (i - (fixtures + 1)), ?_⟩
        change (if i - (fixtures + 1) < next - (fixtures + 1) then _ else _) = _
        rw [if_pos (by omega)]
        congr 1
        omega
      · refine ⟨.ofNat (i - (next - (fixtures + 1))), congrArg Int.ofNat ?_⟩
        change (if i - (next - (fixtures + 1)) ≤ fixtures then _ else _) = i
        rw [if_neg (by omega)]
        omega
  · refine ⟨.negSucc (k + (next - (fixtures + 1))), ?_⟩
    change (if k + (next - (fixtures + 1)) < next - (fixtures + 1) then _ else _) = _
    rw [if_neg (by omega)]
    congr 1
    omega

end Renumbering

namespace Datum

/-- A value that equals a number stands for what the number stands for. -/
def renumber (ρ : Renumbering) (d : Datum) : Datum :=
  match d.toWhole? with
  | some n => if ρ.name n = n then d else .int (ρ.name n)
  | none => d

def renumberMembers (ρ : Renumbering) : Datum → Datum
  | .list items => .list (items.map (renumber ρ))
  | .bytes bs => .list (bs.map fun b => renumber ρ (.int b.toNat))
  | given => given

variable {d : Datum}

theorem toWhole?_renumber (ρ : Renumbering) {n : Int} (h : d.toWhole? = some n) :
    (d.renumber ρ).toWhole? = some (ρ.name n) := by
  unfold renumber
  rw [h]
  dsimp only
  by_cases fixed : ρ.name n = n
  · rw [if_pos fixed, h, fixed]
  · rw [if_neg fixed]
    rfl

theorem renumber_of_not_whole (ρ : Renumbering) (h : d.toWhole? = none) : d.renumber ρ = d := by
  unfold renumber
  rw [h]

theorem isKey_of_whole {n : Int} (h : d.toWhole? = some n) : d.isKey = true := by
  cases d <;> first | rfl | cases h

@[simp] theorem renumber_int (ρ : Renumbering) (id : EntityId) :
    (Datum.int id).renumber ρ = .int (ρ id) := by
  change (if ρ.name id = id then Datum.int id else .int (ρ.name id)) = .int (ρ.name id)
  by_cases fixed : ρ.name id = id
  · rw [if_pos fixed, fixed]
  · rw [if_neg fixed]

@[simp] theorem renumber_text (ρ : Renumbering) (s : String) : (text s).renumber ρ = text s := rfl

theorem members?_renumberMembers (ρ : Renumbering) (d : Datum) :
    (d.renumberMembers ρ).members? = d.members?.map (List.map (renumber ρ)) := by
  cases d <;> simp [renumberMembers, members?]

end Datum

def Fault.renumber (ρ : Renumbering) : Fault → Fault
  | .noEntity named => .noEntity (named.renumber ρ)
  | fault => fault

theorem Fault.NamesNone.renumber {fault : Fault} (h : fault.NamesNone) (ρ : Renumbering) :
    fault.renumber ρ = fault := by
  cases fault <;> first | rfl | exact h.elim

theorem Fault.IsOversize.namesNone {fault : Fault} (h : fault.IsOversize) : fault.NamesNone := by
  cases fault <;> trivial

namespace Renumbering

variable (ρ : Renumbering) {α β γ δ : Type}

/-- What a reading comes to where entities are numbered otherwise: the like of its value, or the
fault that names the same entity. -/
def reads (f : α → β) (x : Except Fault α) : Except Fault β := (x.map f).mapError (·.renumber ρ)

theorem reads_of_namesNone {x : Except Fault α} (h : FailsBy Fault.NamesNone x) :
    ρ.reads id x = x := by
  cases x with
  | ok a => rfl
  | error fault => exact congrArg Except.error ((h fault rfl).renumber ρ)

theorem reads_id (x : Except Fault α) : ρ.reads id x = x.mapError (·.renumber ρ) := by
  cases x <;> rfl

theorem reads_bind {f : α → β} {g : γ → δ} {k : α → Except Fault γ} {k' : β → Except Fault δ}
    (h : ∀ a, k' (f a) = ρ.reads g (k a)) (x : Except Fault α) :
    ρ.reads f x >>= k' = ρ.reads g (x >>= k) := by
  cases x with
  | ok a => exact h a
  | error fault => rfl

theorem reads_bind_of_namesNone {x : Except Fault α} (hx : FailsBy Fault.NamesNone x) {g : γ → δ}
    {k : α → Except Fault γ} {k' : α → Except Fault δ} (h : ∀ a, k' a = ρ.reads g (k a)) :
    x >>= k' = ρ.reads g (x >>= k) := by
  have same := ρ.reads_bind (f := id) h x
  rwa [ρ.reads_of_namesNone hx] at same

theorem reads_mapM {f : α → β} {g : γ → δ} {q : α → Except Fault γ} {q' : β → Except Fault δ}
    (h : ∀ a, q' (f a) = ρ.reads g (q a)) (xs : List α) :
    (xs.map f).mapM q' = ρ.reads (List.map g) (xs.mapM q) := by
  induction xs with
  | nil => rfl
  | cons x xs ih =>
    rw [List.map_cons, List.mapM_cons, List.mapM_cons, h x]
    apply reads_bind
    intro c
    rw [ih]
    apply reads_bind
    exact fun _ => rfl

end Renumbering

def Rank.renumber (ρ : Renumbering) (x : Rank) : Rank := { x with id := ρ x.id }

theorem Rank.le_renumber (ρ : Renumbering) (x y : Rank) :
    (x.renumber ρ).le (y.renumber ρ) = x.le y := by
  have order : decide (ρ x.id ≤ ρ y.id) = decide (x.id ≤ y.id) :=
    decide_eq_decide.mpr ρ.mono.le_iff_le
  unfold Rank.le Rank.renumber
  dsimp only
  rw [order]

namespace Board

/-- The second board holds what the first does, under other numbers. -/
structure Renumbers (ρ : Renumbering) (b b' : Board) : Prop where
  fixtures : b.fixtures = ρ.fixtures
  fixtures' : b'.fixtures = ρ.fixtures
  entity? : ∀ id : EntityId, b'.entity? (ρ id) = b.entity? id
  unnamed : ∀ i : EntityId, (∀ id, ρ id ≠ i) → b'.entity? i = none
  index : ∀ layer, b'.index layer = (b.index layer).map fun entry => (entry.1, ρ entry.2)
  paintOrder : b'.paintOrder = b.paintOrder.map ρ
  sequence : b'.nextSequence = b.nextSequence
  nextId : b'.nextId = ρ b.nextId
  beyond : ρ.fixtures < b.nextId

variable {ρ : Renumbering} {b b' : Board}

def counts (b : Board) : Int → Bool
  | .ofNat id => b.exists? id
  | .negSucc _ => false

theorem knows_of_whole {given : Datum} {n : Int} (h : given.toWhole? = some n) :
    b.knows given = .ok (b.counts n) := by
  unfold knows
  rw [h]
  cases n with
  | ofNat id => rfl
  | negSucc k => exact if_pos (Datum.isKey_of_whole h)

theorem knows_of_not_whole {given : Datum} (h : given.toWhole? = none) :
    b.knows given = if given.isKey then .ok false else .error .wrongKind := by
  unfold knows
  rw [h]

theorem idOf_of_whole {given : Datum} {n : Int} (h : given.toWhole? = some n) :
    b.idOf given = if b.counts n then .ok n.toNat else .error (.noEntity given) := by
  unfold idOf
  rw [knows_of_whole h, h]
  cases b.counts n <;> rfl

namespace Renumbers

section Reading

variable (h : b.Renumbers ρ b')
include h

theorem indexed : b'.indexed = b.indexed.map ρ := by
  have tiles : b'.tiles = b.tiles.map fun entry => (entry.1, ρ entry.2) := h.index .tile
  have objects : b'.objects = b.objects.map fun entry => (entry.1, ρ entry.2) := h.index .object
  rw [Board.indexed, tiles, objects, Board.indexed, List.map_append, List.map_map, List.map_map,
    List.map_map, List.map_map]
  rfl

theorem find? (layer : Layer) (cell : Cell) :
    b'.find? layer cell = (b.find? layer cell).map ρ := by
  unfold Board.find?
  rw [h.index layer]
  exact lookup_map_value (fun _ i => ρ i) (b.index layer) cell

theorem blocks (layer : Layer) (cell : Cell) : b'.blocks layer cell = b.blocks layer cell := by
  cases layer <;> simp [Board.blocks, h.find?]

theorem isFixture (i : EntityId) : b'.isFixture (ρ i) = b.isFixture i := by
  have same := ρ.le_fixtures_iff i
  unfold Board.isFixture
  rw [h.fixtures, h.fixtures', Bool.eq_iff_iff]
  simp only [Bool.and_eq_true, decide_eq_true_eq, same]
  exact and_congr_left fun low => by rw [ρ.fixed i low]

theorem exists? (i : EntityId) : b'.exists? (ρ i) = b.exists? i := by
  unfold Board.exists?
  rw [h.isFixture, h.entity?]

theorem entity (i : EntityId) : b'.entity (ρ i) = ρ.reads id (b.entity i) := by
  unfold Board.entity
  rw [h.entity?, h.isFixture]
  cases b.entity? i with
  | some e => rfl
  | none =>
    dsimp only
    by_cases fixture : b.isFixture i = true
    · rw [if_pos fixture, if_pos fixture]
      rfl
    · rw [if_neg fixture, if_neg fixture]
      have named := Datum.renumber_int ρ i
      exact congrArg (fun named => Except.error (Fault.noEntity named)) named.symm

theorem tile (i : EntityId) : b'.tile (ρ i) = ρ.reads id (b.tile i) := by
  unfold Board.tile
  rw [h.entity]
  apply ρ.reads_bind
  intro e
  by_cases onTile : e.layer = .tile
  · simp only [id_eq, if_pos onTile]
    rfl
  · simp only [id_eq, if_neg onTile]
    rfl

theorem counts (n : Int) : b'.counts (ρ.name n) = b.counts n := by
  cases n with
  | ofNat id => exact h.exists? id
  | negSucc k =>
    change b'.counts (ρ.idle k) = false
    cases stands : ρ.idle k with
    | negSucc _ => rfl
    | ofNat i =>
      have unused := ρ.idle_free k i stands
      change b'.exists? i = false
      unfold Board.exists? Board.isFixture
      rw [h.unnamed i unused, h.fixtures', Option.isSome_none, Bool.or_false, Bool.and_eq_false_iff,
        decide_eq_false_iff_not, decide_eq_false_iff_not]
      right
      exact fun fixture => unused i (ρ.fixed i fixture)

theorem knows (given : Datum) : b'.knows (given.renumber ρ) = ρ.reads id (b.knows given) := by
  cases whole : given.toWhole? with
  | some n =>
    rw [knows_of_whole (Datum.toWhole?_renumber ρ whole), knows_of_whole whole, h.counts]
    rfl
  | none =>
    rw [Datum.renumber_of_not_whole ρ whole, knows_of_not_whole whole, knows_of_not_whole whole]
    cases given.isKey <;> rfl

theorem idOf (given : Datum) : b'.idOf (given.renumber ρ) = ρ.reads ρ (b.idOf given) := by
  cases whole : given.toWhole? with
  | some n =>
    rw [idOf_of_whole (Datum.toWhole?_renumber ρ whole), idOf_of_whole whole, h.counts]
    cases n with
    | ofNat id => cases b.counts id <;> rfl
    | negSucc k => rfl
  | none =>
    have itself := Datum.renumber_of_not_whole ρ whole
    unfold Board.idOf
    rw [itself, knows_of_not_whole whole, knows_of_not_whole whole]
    cases given.isKey with
    | false => rfl
    | true => exact congrArg (fun named => Except.error (Fault.noEntity named)) itself.symm

theorem idAt (layer : Layer) (cell : Cell) :
    b'.idAt layer cell = ρ.reads (Option.map ρ) (b.idAt layer cell) := by
  apply ρ.reads_bind_of_namesNone (cell.checkKey_failsBy.imp fun _ => Fault.IsOversize.namesNone)
  intro _
  rw [h.find?]
  rfl

theorem typeAt (layer : Layer) (cell : Cell) :
    b'.typeAt layer cell = ρ.reads id (b.typeAt layer cell) := by
  unfold Board.typeAt
  rw [h.idAt]
  apply ρ.reads_bind
  rintro (_ | i)
  · rfl
  · dsimp only [Option.map_some]
    rw [h.entity]
    apply ρ.reads_bind
    exact fun _ => rfl

theorem fragmentsAt (cell : Cell) : b'.fragmentsAt cell = ρ.reads id (b.fragmentsAt cell) := by
  unfold Board.fragmentsAt
  rw [h.idAt]
  apply ρ.reads_bind
  rintro (_ | i)
  · rfl
  · dsimp only [Option.map_some]
    rw [h.entity]
    apply ρ.reads_bind
    exact fun _ => rfl

private theorem mapM_index {α : Type} (layer : Layer) (told : Entity → α) :
    ((b'.index layer).mapM fun entry => do return told (← b'.entity entry.2)) =
      ρ.reads id ((b.index layer).mapM fun entry => do return told (← b.entity entry.2)) := by
  rw [h.index, ← List.map_id_fun]
  apply ρ.reads_mapM
  intro entry
  rw [h.entity]
  apply ρ.reads_bind
  exact fun _ => rfl

theorem contents (layer : Layer) : b'.contents layer = ρ.reads id (b.contents layer) :=
  mapM_index h layer fun e => (e.cell, e.type)

theorem snapshot : b'.snapshot = ρ.reads id b.snapshot :=
  mapM_index h .tile fun e => (e.cell, e.type, e.fragments)

theorem composed (book : Rulebook) (tile : Entity) :
    b'.composed book tile = ρ.reads id (b.composed book tile) := by
  have looks : b'.typeAt .tile = fun c => (b.typeAt .tile c).mapError (·.renumber ρ) := by
    funext c
    rw [h.typeAt, ρ.reads_id]
  unfold Board.composed
  rw [looks, ρ.reads_id, Rulebook.composeAt_mapError]

theorem rank (i : EntityId) : b'.rank (ρ i) = ρ.reads (Rank.renumber ρ) (b.rank i) := by
  unfold Board.rank
  rw [h.entity]
  apply ρ.reads_bind
  intro e
  apply ρ.reads_bind_of_namesNone (e.cell.depth_failsBy.imp fun _ => Fault.IsOversize.namesNone)
  exact fun _ => rfl

theorem sorted (ids : List EntityId) :
    b'.sorted (ids.map ρ) = ρ.reads (List.map ρ) (b.sorted ids) := by
  unfold Board.sorted
  rw [ρ.reads_mapM h.rank]
  apply ρ.reads_bind
  intro ranks
  have sort := List.map_mergeSort (r := Rank.le) (s := Rank.le) (f := Rank.renumber ρ) (l := ranks)
    fun x _ y _ => (Rank.le_renumber ρ x y).symm
  apply congrArg Except.ok
  rw [← sort, List.map_map, List.map_map]
  rfl

theorem sortedGiven (given : Datum) : b'.sortedGiven (given.renumberMembers ρ) =
    ρ.reads (List.map (Datum.renumber ρ)) (b.sortedGiven given) := by
  unfold Board.sortedGiven
  rw [Datum.members?_renumberMembers]
  cases given.members? with
  | none => rfl
  | some members =>
    -- an entity is ranked by its number and goes on by its name
    let ranked (x : Rank × Datum) : Rank × Datum := (x.1.renumber ρ, x.2.renumber ρ)
    have ranks : ∀ named : Datum,
        (do return (← b'.rank (← b'.idOf (named.renumber ρ)), named.renumber ρ)) =
          ρ.reads ranked (do return (← b.rank (← b.idOf named), named)) := by
      intro named
      rw [h.idOf]
      apply ρ.reads_bind
      intro i
      rw [h.rank]
      apply ρ.reads_bind
      exact fun _ => rfl
    dsimp only [Option.map_some]
    rw [ρ.reads_mapM ranks]
    apply ρ.reads_bind
    intro xs
    have sort := List.map_mergeSort (r := fun x y : Rank × Datum => x.1.le y.1)
      (s := fun x y => x.1.le y.1) (f := ranked) (l := xs)
      fun x _ y _ => (Rank.le_renumber ρ x.1 y.1).symm
    apply congrArg Except.ok
    rw [← sort, List.map_map, List.map_map]
    rfl

end Reading

/-! ## The same change on both boards -/

section Changes

variable (h : b.Renumbers ρ b')
include h

theorem insert (layer : Layer) (cell : Cell) (type : String) :
    (b.insert layer cell type).Renumbers ρ (b'.insert layer cell type) := by
  have fixtures : ∀ c : Board, (c.insert layer cell type).fixtures = c.fixtures := by
    intro c
    cases layer <;> rfl
  have painted : ∀ c : Board, (c.insert layer cell type).paintOrder = c.paintOrder := by
    intro c
    cases layer <;> rfl
  constructor
  case fixtures => rw [fixtures, h.fixtures]
  case fixtures' => rw [fixtures, h.fixtures']
  case entity? =>
    intro i
    rw [entity?_insert_or, entity?_insert_or, h.entity?, h.nextId, h.sequence]
    simp only [ρ.inj]
  case unnamed =>
    intro i unused
    have other : i ≠ b'.nextId := fun same => unused _ (h.nextId.symm.trans same.symm)
    rw [entity?_insert_or, h.unnamed i unused, if_neg other, Option.none_or]
  case index =>
    intro l
    by_cases here : l = layer
    · subst here
      rw [index_insert, index_insert, h.index, h.nextId, List.map_append, List.map_singleton]
    · rw [index_insert_of_ne _ here, index_insert_of_ne _ here, h.index]
  case paintOrder => rw [painted, painted, h.paintOrder]
  case sequence => exact congrArg (· + 1) h.sequence
  case nextId =>
    change b'.nextId + 1 = ρ (b.nextId + 1)
    rw [ρ.next _ h.beyond, h.nextId]
  case beyond => exact Nat.lt_succ_of_lt h.beyond

theorem vacate (layer : Layer) (cell : Cell) :
    (b.vacate layer cell).Renumbers ρ (b'.vacate layer cell) := by
  constructor
  case fixtures => cases layer <;> exact h.fixtures
  case fixtures' => cases layer <;> exact h.fixtures'
  case entity? =>
    intro i
    rw [entity?_vacate, entity?_vacate, h.entity?]
  case unnamed =>
    intro i unused
    rw [entity?_vacate, h.unnamed i unused]
  case index =>
    intro l
    by_cases here : l = layer
    · subst here
      rw [index_vacate, index_vacate, h.index, List.filter_map]
      rfl
    · rw [index_vacate_of_ne _ here, index_vacate_of_ne _ here, h.index]
  case paintOrder => cases layer <;> exact h.paintOrder
  case sequence => cases layer <;> exact h.sequence
  case nextId => cases layer <;> exact h.nextId
  case beyond => cases layer <;> exact h.beyond

theorem setOrder (order : List EntityId) :
    (b.setOrder order).Renumbers ρ (b'.setOrder (order.map ρ)) :=
  { h with paintOrder := rfl }

theorem setFragments (i : EntityId) (fragments : List Fragment) :
    (b.setFragments i fragments).Renumbers ρ (b'.setFragments (ρ i) fragments) :=
  { h with
    entity? := by
      intro j
      rw [entity?_setFragments, entity?_setFragments, h.entity?]
      simp only [ρ.inj]
    unnamed := by
      intro j unused
      rw [entity?_setFragments, h.unnamed j unused, Option.map_none]
    index := by
      intro layer
      rw [index_setFragments, index_setFragments, h.index] }

theorem delete (i : EntityId) : (b.delete i).Renumbers ρ (b'.delete (ρ i)) :=
  { h with
    entity? := by
      intro j
      rw [entity?_delete, entity?_delete, h.entity?]
      simp only [ρ.inj]
    unnamed := by
      intro j unused
      rw [entity?_delete, h.unnamed j unused, ite_self]
    index := by
      intro layer
      rw [index_delete, index_delete, h.index] }

theorem clear : b.clear.Renumbers ρ b'.clear :=
  { h with
    entity? := by
      intro i
      have same : ρ i ∈ b'.indexed ↔ i ∈ b.indexed := by
        rw [h.indexed, List.mem_map_of_injective ρ.mono.injective]
      rw [entity?_clear, entity?_clear, h.entity?]
      simp only [same]
    unnamed := by
      intro i unused
      rw [entity?_clear, h.unnamed i unused, ite_self]
    index := by
      intro layer
      rw [index_clear, index_clear]
      rfl
    paintOrder := rfl
    sequence := rfl }

end Changes

end Renumbers

end Board

end Autotile
