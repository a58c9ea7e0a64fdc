import Autotile.Fault
import Autotile.Payload
import Autotile.Text.Fields

/-! A bus of named events. Receivers are known by their labels and subscribe to events; an event is
delivered to each subscriber before its emission ends. A receiver may in turn emit events, leave
some, or fail. -/
namespace Autotile

/-- The receivers of one event, each once. -/
structure Signal where
  receivers : List String := []

namespace Signal

def connect (s : Signal) (label : String) : Signal :=
  if s.receivers.contains label then s else ⟨s.receivers ++ [label]⟩

def disconnect (s : Signal) (label : String) : Signal := ⟨s.receivers.filter (· ≠ label)⟩

end Signal

structure Call where
  emission : Nat
  event : String
  label : String
  sender : Nat
  payload : Payload

/-- What happens on a bus, apart from calls: a receiver joins an event or leaves it, and in an
emission the turn comes to a receiver. -/
inductive Moment where
  | joined (event label : String)
  | left (event label : String)
  | turn (emission : Nat) (label : String)
  deriving DecidableEq, Repr

/-- The signals that were asked for, by event; the calls and what else happened so far; and the
number of emissions. -/
structure Bus where
  id : Nat := 0
  signals : List (String × Signal) := []
  calls : List Call := []
  history : List Moment := []
  emissions : Nat := 0

namespace Bus

/-- A delivery that fails keeps what happened before. -/
abbrev Delivery := EStateM Fault Bus

def subscribers (b : Bus) (event : String) : List String :=
  ((b.signals.lookup event).map (·.receivers)).getD []

/-- The signal of an event is made when somebody first subscribes. -/
def subscribe (b : Bus) (event label : String) : Bus :=
  { b with
    signals := Datum.setEntry event (((b.signals.lookup event).getD {}).connect label) b.signals
    history := b.history ++ [.joined event label] }

def unsubscribe (b : Bus) (event label : String) : Bus :=
  { b with
    signals := match b.signals.lookup event with
      | some signal => Datum.setEntry event (signal.disconnect label) b.signals
      | none => b.signals
    history := b.history ++ [.left event label] }

def countEmission (b : Bus) : Bus := { b with emissions := b.emissions + 1 }

def giveTurn (b : Bus) (emission : Nat) (label : String) : Bus :=
  { b with history := b.history ++ [.turn emission label] }

def record (b : Bus) (call : Call) : Bus := { b with calls := b.calls ++ [call] }

end Bus

/-- What a receiver does when it is called. It sees whether what it emits fails and what has become
of the bus, and goes on accordingly. -/
inductive Conduct where
  | done
  | fail (fault : Fault)
  | leave (event : String) (rest : Conduct)
  | emit (event : String) (payload : Payload) (rest : Option Fault → Bus → Conduct)

/-- How receivers behave, and in which order those of an event take their turns. -/
structure Crew where
  conduct : Call → Bus → Conduct
  order : Bus → String → List String
  order_perm : ∀ b event, (order b event).Perm (b.subscribers event)

namespace Bus

def attempt (x : Delivery Unit) : Delivery (Option Fault) := fun b =>
  match x b with
  | .ok _ b => .ok none b
  | .error fault b => .ok (some fault) b

def act (send : String → Payload → Delivery Unit) (label : String) : Conduct → Delivery Unit
  | .done => return
  | .fail fault => throw fault
  | .leave event rest => do
    modify (·.unsubscribe event label)
    act send label rest
  | .emit event payload rest => do
    let fault ← attempt (send event payload)
    act send label (rest fault (← get))

/-- The turn of a receiver. One that has left meanwhile is passed over. -/
def serve (crew : Crew) (send : String → Payload → Delivery Unit) (emission : Nat) (event : String)
    (payload : Payload) (label : String) : Delivery Unit := do
  modify (·.giveTurn emission label)
  let b ← get
  if (b.subscribers event).contains label then
    if payload.namesSender then throw .wrongKind
    let call : Call := ⟨emission, event, label, b.id, payload⟩
    modify (·.record call)
    act send label (crew.conduct call b)

/-- Delivers an event to those who are subscribed when it is emitted, each at its turn. Events that
are emitted meanwhile nest at most `depth` deep. -/
def deliver (crew : Crew) : Nat → String → Payload → Delivery Unit
  | 0, _, _ => throw .tooDeep
  | depth + 1, event, payload => do
    if payload.isReserved then throw .wrongKind
    let b ← get
    modify (·.countEmission)
    (crew.order b event).forM fun label =>
      serve crew (deliver crew depth) b.emissions event payload.delivered label

def depthLimit : Nat := 330

end Bus

namespace Conduct

/-- A label tells what its receiver does: `emit:x` and `drop:x` name an event, `raise:x` fails
and any other receiver does nothing. A fault of what it emits is not caught. -/
def ofLabel (label : String) : Conduct :=
  match Text.cut ':' label.toList with
  | (act, some event) =>
    let event := String.ofList event
    match String.ofList act with
    | "emit" => .emit event [("via", .text label)] fun fault _ =>
      match fault with
      | some fault => .fail fault
      | none => .done
    | "drop" => .leave event .done
    | "raise" => .fail (.handlerFailed label)
    | _ => .done
  | _ => .done

end Conduct

def Crew.labelled : Crew where
  conduct call _ := .ofLabel call.label
  order := Bus.subscribers
  order_perm _ _ := .refl _

def Bus.emit (event : String) (payload : Payload) : Bus.Delivery Unit :=
  deliver .labelled depthLimit event payload

end Autotile
