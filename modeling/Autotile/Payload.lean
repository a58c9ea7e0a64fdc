import Autotile.Datum.Basic

/-! What an event carries: values by name. -/
namespace Autotile

abbrev Payload := List (String × Datum)

namespace Payload

/-- Names by which the delivery itself is addressed; no payload may hold them. -/
def reservedNames : List String := ["self", "name"]

/-- The name by which a receiver knows the sender; a payload that holds it reaches nobody. -/
def senderName : String := "sender"

/-- The name of an option of the delivery itself, which no receiver sees. -/
def optionName : String := "_async_wrapper"

def isReserved (p : Payload) : Bool := p.any fun entry => reservedNames.contains entry.1

def namesSender (p : Payload) : Bool := p.any (·.1 = senderName)

def delivered (p : Payload) : Payload := p.filter (·.1 ≠ optionName)

def given (p : Payload) (name : String) : Datum := Datum.entry name p

theorem lookup_delivered (p : Payload) {name : String} (h : name ≠ optionName) :
    p.delivered.lookup name = p.lookup name := by
  unfold delivered
  induction p with
  | nil => rfl
  | cons entry p ih =>
    obtain ⟨key, value⟩ := entry
    by_cases hk : name = key
    · rw [List.filter_cons, if_pos (by simpa [← hk] using h)]
      simp [hk]
    · have hb : (name == key) = false := beq_eq_false_iff_ne.2 hk
      rw [List.filter_cons]
      split
      · rw [List.lookup_cons, List.lookup_cons, hb]
        exact ih
      · rw [List.lookup_cons, hb]
        exact ih

@[simp] theorem given_cons_self (name : String) (value : Datum) (p : Payload) :
    given ((name, value) :: p) name = value := by
  simp [given, Datum.entry]

end Payload

end Autotile
