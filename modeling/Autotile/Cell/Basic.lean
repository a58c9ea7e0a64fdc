/-! Cells of the isometric grid. The first coordinate grows to the south, the second to the
east and the third upwards; the same triples serve as offsets between cells. -/
namespace Autotile

structure Cell where
  s : Int
  e : Int
  u : Int
  deriving DecidableEq, Repr, Inhabited

namespace Cell

def origin : Cell := ⟨0, 0, 0⟩

def add (a b : Cell) : Cell := ⟨a.s + b.s, a.e + b.e, a.u + b.u⟩

def neg (a : Cell) : Cell := ⟨-a.s, -a.e, -a.u⟩

instance : Add Cell := ⟨add⟩
instance : Neg Cell := ⟨neg⟩

@[simp] theorem s_add (a b : Cell) : (a + b).s = a.s + b.s := rfl
@[simp] theorem e_add (a b : Cell) : (a + b).e = a.e + b.e := rfl
@[simp] theorem u_add (a b : Cell) : (a + b).u = a.u + b.u := rfl
@[simp] theorem s_neg (a : Cell) : (-a).s = -a.s := rfl
@[simp] theorem e_neg (a : Cell) : (-a).e = -a.e := rfl
@[simp] theorem u_neg (a : Cell) : (-a).u = -a.u := rfl

@[ext] theorem ext {a b : Cell} (hs : a.s = b.s) (he : a.e = b.e) (hu : a.u = b.u) : a = b := by
  cases a; cases b; simp_all

/-- Layer by layer from the lowest, then by the first and the second coordinate. -/
def layerLE (a b : Cell) : Bool :=
  a.u < b.u || (a.u = b.u && (a.s < b.s || (a.s = b.s && a.e ≤ b.e)))

def writtenLE (a b : Cell) : Bool :=
  a.s < b.s || (a.s = b.s && (a.e < b.e || (a.e = b.e && a.u ≤ b.u)))

def halfWidth : Int := 16
def halfHeight : Int := 8

def lift : Int := 8

/-- Top-left position of a tile's sprite, relative to that of the origin. -/
def screen (c : Cell) : Int × Int :=
  ((c.e - c.s) * halfWidth, (c.e + c.s) * halfHeight - c.u * lift)

end Cell

end Autotile
