/-!
A bus hands every event to all who listen at the time. It keeps only as many events as its capacity;
a listener who has fallen further behind is told how many it lost and goes on with the oldest one
kept. With no listener an event is counted and gone.
-/

set_option autoImplicit false

namespace RunLedger

structure Bus (α : Type) where
  capacity : Nat
  /-- The latest events, oldest first, at most as many as the capacity. -/
  kept : List α
  /-- How many events were kept in all. -/
  sent : Nat
  /-- How many events were published, kept or not. -/
  published : Nat
  /-- For each listener the number of its next event; none once it has left. -/
  listeners : List (Option Nat)

namespace Bus

variable {α : Type}

inductive Item (α : Type) where
  | event (x : α)
  | lagged (lost : Nat)

/-- The capacity that is meant when none is given. -/
def defaultCapacity : Nat := 256

/-- The most events that a bus can be asked to keep. -/
def largestCapacity : Nat := 0x80000000000000

/-- A bus that keeps at least as many events as asked for: the next power of two. There is none for
no events and none for too many. -/
def new? (capacity : Nat) : Option (Bus α) :=
  if capacity = 0 ∨ largestCapacity < capacity then none
  else some ⟨capacity.nextPowerOfTwo, [], 0, 0, []⟩

def standard : Bus α := ⟨defaultCapacity, [], 0, 0, []⟩

instance : Inhabited (Bus α) := ⟨standard⟩

def listening (b : Bus α) : Nat := (b.listeners.filter Option.isSome).length

/-- Adds a listener, who will receive what is published from now on. -/
def subscribe (b : Bus α) : Nat × Bus α :=
  (b.listeners.length, { b with listeners := b.listeners ++ [some b.sent] })

def unsubscribe (b : Bus α) (listener : Nat) : Bus α :=
  { b with listeners := b.listeners.set listener none }

/-- Publishes an event and says to how many listeners. -/
def publish (b : Bus α) (x : α) : Nat × Bus α :=
  let published := b.published + 1
  if b.listening = 0 then (0, { b with published })
  else
    let kept := b.kept ++ [x]
    (b.listening,
      { b with published, sent := b.sent + 1, kept := kept.drop (kept.length - b.capacity) })

/-- What a listener receives next, if there is anything. -/
def receive? (b : Bus α) (listener : Nat) : Option (Item α × Bus α) :=
  match (b.listeners[listener]?).join with
  | none => none
  | some next =>
    let oldest := b.sent - b.kept.length
    if next < oldest then
      some (.lagged (oldest - next), { b with listeners := b.listeners.set listener (some oldest) })
    else
      (b.kept[next - oldest]?).map fun x =>
        (.event x, { b with listeners := b.listeners.set listener (some (next + 1)) })

/-- What a listener receives in up to `limit` steps. -/
def receiveUpTo (b : Bus α) (listener : Nat) : Nat → List (Item α) × Bus α
  | 0 => ([], b)
  | limit + 1 =>
    match b.receive? listener with
    | none => ([], b)
    | some (item, b) =>
      let (items, b) := b.receiveUpTo listener limit
      (item :: items, b)

/-- All that is there for a listener: at most one notice of loss and the events kept. -/
def drain (b : Bus α) (listener : Nat) : List (Item α) × Bus α :=
  b.receiveUpTo listener (b.kept.length + 1)

def describe (b : Bus α) : String :=
  s!"EventBus \x7b subscriber_count: {b.listening}, published_count: {b.published} \x7d"

end Bus

end RunLedger
