import Autotile.Proofs.Board.Renumbering
import Autotile.Studio.Session

/-! # Edits that differ in numbers only

Of two edits the second may do with one board what the first does with another that differs from it
in numbers only. Then it answers where the other answers and fails where it fails, and what is told
of entities is told of the same ones. What is put together from such edits is of this kind too. -/
namespace Autotile

def Event.renumber (ρ : Renumbering) : Event → Event
  | .added layer id cell type => .added layer (ρ id) cell type
  | .removed layer id cell type => .removed layer (ρ id) cell type
  | .recomposed id cell fragments named => .recomposed (ρ id) cell fragments (named.renumber ρ)
  | .reordered order => .reordered (order.map ρ)
  | event => event

theorem Event.name_renumber (ρ : Renumbering) (event : Event) :
    (event.renumber ρ).name = event.name := by
  cases event <;> rfl

def Answer.renumber (ρ : Renumbering) : Answer → Answer
  | .entity id => .entity (id.map ρ)
  | .entities ids => .entities (ids.map ρ)
  | .listed named => .listed (named.map (Datum.renumber ρ))
  | answer => answer

namespace Command

mutual

/-- The command that names the same entities. What a payload holds is taken as it is. -/
def renumber (ρ : Renumbering) : Command → Command
  | .refresh entity => .refresh (entity.renumber ρ)
  | .isKnown entity => .isKnown (entity.renumber ρ)
  | .position entity => .position (entity.renumber ρ)
  | .sorted entities => .sorted (entities.renumberMembers ρ)
  | .await event commands => .await event (renumberAll ρ commands)
  | command => command

def renumberAll (ρ : Renumbering) : List Command → List Command
  | [] => []
  | command :: commands => renumber ρ command :: renumberAll ρ commands

end

variable (ρ : Renumbering)

theorem renumberAll_eq_map (commands : List Command) :
    renumberAll ρ commands = commands.map (renumber ρ) := by
  induction commands with
  | nil => rfl
  | cons command commands ih => rw [renumberAll, ih, List.map_cons]

mutual

theorem weight_renumber (command : Command) : (command.renumber ρ).weight = command.weight := by
  cases command with
  | await event commands => rw [renumber, weight, weight, weights_renumberAll commands]
  | _ => rfl

theorem weights_renumberAll (commands : List Command) :
    weights (renumberAll ρ commands) = weights commands := by
  cases commands with
  | nil => rfl
  | cons command commands =>
    rw [renumberAll, weights, weights, weight_renumber command, weights_renumberAll commands]

end

end Command

structure Studio.Renumbers (ρ : Renumbering) (s s' : Studio) : Prop where
  board : s.board.Renumbers ρ s'.board
  brush : s'.brush = s.brush
  events : s'.events = s.events.map (Event.renumber ρ)
  notices : s'.notices = s.notices
  cues : s'.cues = s.cues.map fun cue => (cue.1, cue.2.renumber ρ)

namespace Edit

variable {α β γ δ : Type}

inductive EndAlike (ρ : Renumbering) (f : α → β) :
    EStateM.Result Fault Studio α → EStateM.Result Fault Studio β → Prop
  | ok {a : α} {t t' : Studio} (left : t.Renumbers ρ t') : EndAlike ρ f (.ok a t) (.ok (f a) t')
  | error {fault : Fault} {t t' : Studio} (left : t.Renumbers ρ t') :
      EndAlike ρ f (.error fault t) (.error (fault.renumber ρ) t')

/-- The second edit does under other numbers what the first one does, and answers the like. -/
structure Corresponds (ρ : Renumbering) (f : α → β) (x : Edit α) (x' : Edit β) : Prop where
  ends : ∀ {s s' : Studio}, s.Renumbers ρ s' → EndAlike ρ f (x s) (x' s')

variable {ρ : Renumbering} {f : α → β} {g : γ → δ}

theorem corresponds_pure (f : α → β) (a : α) : Corresponds ρ f (pure a) (pure (f a)) :=
  ⟨fun h => .ok h⟩

theorem corresponds_throw (f : α → β) (fault : Fault) :
    Corresponds ρ f (throw fault) (throw (fault.renumber ρ)) :=
  ⟨fun h => .error h⟩

theorem Corresponds.bind {x : Edit α} {x' : Edit β} {k : α → Edit γ} {k' : β → Edit δ}
    (hx : Corresponds ρ f x x') (hk : ∀ a, Corresponds ρ g (k a) (k' (f a))) :
    Corresponds ρ g (x >>= k) (x' >>= k') := by
  constructor
  intro s s' h
  change EndAlike ρ g (EStateM.bind x k s) (EStateM.bind x' k' s')
  have first := hx.ends h
  unfold EStateM.bind
  generalize x s = r at first
  generalize x' s' = r' at first
  cases first with
  | @ok a _ _ left => exact (hk a).ends left
  | error left => exact .error left

theorem corresponds_consult {q : Board → Except Fault α} {q' : Board → Except Fault β}
    (h : ∀ b b', b.Renumbers ρ b' → q' b' = ρ.reads f (q b)) :
    Corresponds ρ f (consult q) (consult q') := by
  constructor
  intro s s' hs
  unfold consult
  rw [h _ _ hs.board]
  cases q s.board with
  | ok a => exact .ok hs
  | error fault => exact .error hs

theorem corresponds_modify {u u' : Studio → Studio}
    (h : ∀ s s', s.Renumbers ρ s' → (u s).Renumbers ρ (u' s')) :
    Corresponds ρ id (modify u : Edit Unit) (modify u') :=
  ⟨fun hs => .ok (h _ _ hs)⟩

theorem corresponds_alter {u u' : Board → Board}
    (h : ∀ b b', b.Renumbers ρ b' → (u b).Renumbers ρ (u' b')) :
    Corresponds ρ id (alter u) (alter u') :=
  corresponds_modify fun _ _ hs => { hs with board := h _ _ hs.board }

theorem corresponds_note (notice : Notice) : Corresponds ρ id (note notice) (note notice) :=
  corresponds_modify fun _ _ hs => { hs with notices := congrArg (· ++ [notice]) hs.notices }

theorem corresponds_record (event : Event) :
    Corresponds ρ id (record event) (record (event.renumber ρ)) :=
  corresponds_modify fun s s' hs =>
    { hs with
      events := by
        change s'.events ++ _ = (s.events ++ _).map _
        rw [hs.events, List.map_append, List.map_singleton] }

theorem Corresponds.ite {p : Prop} [Decidable p] {x y : Edit α} {x' y' : Edit β}
    (hx : Corresponds ρ f x x') (hy : Corresponds ρ f y y') :
    Corresponds ρ f (if p then x else y) (if p then x' else y') := by
  by_cases h : p
  · rw [if_pos h, if_pos h]
    exact hx
  · rw [if_neg h, if_neg h]
    exact hy

theorem Corresponds.tryCatch {x : Edit α} {x' : Edit β} {handle : Fault → Edit α}
    {handle' : Fault → Edit β} (hx : Corresponds ρ f x x')
    (hh : ∀ fault, Corresponds ρ f (handle fault) (handle' (fault.renumber ρ))) :
    Corresponds ρ f (tryCatch x handle) (tryCatch x' handle') := by
  constructor
  intro s s' h
  change EndAlike ρ f (EStateM.tryCatch x handle s) (EStateM.tryCatch x' handle' s')
  have first := hx.ends h
  unfold EStateM.tryCatch
  generalize x s = r at first
  generalize x' s' = r' at first
  cases first with
  | ok left => exact .ok left
  | @error fault _ _ left => exact (hh fault).ends left

theorem Corresponds.foldlM {k : γ → α → Edit γ} {k' : γ → α → Edit γ}
    (h : ∀ c a, Corresponds ρ id (k c a) (k' c a)) (xs : List α) (c : γ) :
    Corresponds ρ id (xs.foldlM k c) (xs.foldlM k' c) := by
  induction xs generalizing c with
  | nil => exact corresponds_pure id c
  | cons a xs ih =>
    rw [List.foldlM_cons, List.foldlM_cons]
    exact (h c a).bind ih

theorem Corresponds.filterMapM {k : α → Edit (Option γ)} {k' : α → Edit (Option δ)}
    (h : ∀ a, Corresponds ρ (Option.map g) (k a) (k' a)) (xs : List α) :
    Corresponds ρ (List.map g) (xs.filterMapM k) (xs.filterMapM k') := by
  induction xs with
  | nil => exact corresponds_pure (List.map g) []
  | cons a xs ih =>
    rw [List.filterMapM_cons, List.filterMapM_cons]
    apply (h a).bind
    intro found
    cases found with
    | none => exact ih
    | some c => exact ih.bind fun cs => corresponds_pure (List.map g) (c :: cs)

end Edit

end Autotile
