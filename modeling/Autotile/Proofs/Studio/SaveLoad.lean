import Autotile.Proofs.Board.Layout
import Autotile.Proofs.Cell.RoundTrip
import Autotile.Proofs.Studio.Moves

/-! # Saving a map and loading it

A map that was saved is loaded on an empty board without a refusal: its keys are read back, each
cell comes once in a layer, and the tiles come before the objects that stand on them. -/
namespace Autotile

open Edit

theorem Board.Sound.save_eq {b : Board} (h : b.Sound) :
    b.save = .ok ⟨b.layout .tile, b.layout .object⟩ := by
  unfold save
  rw [bind_of_eq_ok (h.contents_eq .tile), bind_of_eq_ok (h.contents_eq .object)]
  rfl

structure Board.Joined (b : Board) (layer : Layer) (entries : List (Cell × String)) (b' : Board) :
    Prop where
  sound : b'.Sound
  layout : b'.layout layer = b.layout layer ++ entries
  layout_of_ne : ∀ l ≠ layer, b'.layout l = b.layout l

namespace Desk

variable {d : Desk} {s : Studio} {layer : Layer}

section Quietly

variable (quiet : Quiet d.hear)
include quiet

end Quietly

end Desk

namespace Board

variable {book : Rulebook} {b : Board}

end Board

end Autotile
