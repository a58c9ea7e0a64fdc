import Autotile.Atlas
import Autotile.Fragment

/-! # Squares of a grid

A fragment is a square of eight by eight pixels. In the sprite of a tile and on the sheet of the
atlas alike the squares stand on a grid, and those at different places share no pixel. -/
namespace Autotile

namespace Atlas

namespace Rect

def Covers (r : Rect) (x y : Nat) : Prop :=
  (r.x ≤ x ∧ x < r.x + r.w) ∧ r.y ≤ y ∧ y < r.y + r.h

/-- No pixel belongs to both. -/
def Apart (r s : Rect) : Prop := ∀ x y, ¬(r.Covers x y ∧ s.Covers x y)

structure Inside (r : Rect) (width height : Nat) : Prop where
  right : r.x + r.w ≤ width
  bottom : r.y + r.h ≤ height

end Rect

/-- The square of a grid, its column and row counted from zero. -/
def square (column row : Nat) : Rect :=
  ⟨column * Sprite.fragmentSize, row * Sprite.fragmentSize, Sprite.fragmentSize,
    Sprite.fragmentSize⟩

variable {column row column' row' : Nat}

theorem square_apart (h : ¬(column = column' ∧ row = row')) :
    (square column row).Apart (square column' row') := by
  rintro x y ⟨⟨across, down⟩, across', down'⟩
  simp only [square, Sprite.fragmentSize] at across down across' down'
  omega

theorem square_inside {columns rows : Nat} (left : column < columns) (above : row < rows) :
    (square column row).Inside (columns * Sprite.fragmentSize) (rows * Sprite.fragmentSize) := by
  constructor <;> simp only [square, Sprite.fragmentSize] <;> omega

end Atlas

def Fragment.rect (f : Fragment) : Atlas.Rect :=
  ⟨f.x, f.y, Sprite.fragmentSize, Sprite.fragmentSize⟩

namespace Sprite

theorem rect_offsetAt {f : Fragment} {n : Nat} (h : (f.x, f.y) = offsetAt n) :
    f.rect = Atlas.square (n % columns) (n / columns) := by
  obtain ⟨hx, hy⟩ := Prod.mk.inj h
  rw [Fragment.rect, hx, hy, Atlas.square]

end Sprite

end Autotile
