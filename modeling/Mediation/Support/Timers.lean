/-!
# One-shot timers

A clock in milliseconds and the tasks that wait for it. Each task gets the next
handle; advancing the clock takes out the tasks that are due, ordered by due
time and then by handle.
-/

namespace Mediation

structure Timer (α : Type) where
  due : Nat
  handle : Nat
  task : α
  deriving DecidableEq

def Timer.before {α : Type} (a b : Timer α) : Bool :=
  a.due < b.due || (a.due = b.due && a.handle ≤ b.handle)

structure Timers (α : Type) where
  now : Nat
  scheduled : Nat
  waiting : List (Timer α)

namespace Timers

variable {α : Type}

def start : Timers α := ⟨0, 0, []⟩

instance : Inhabited (Timers α) := ⟨start⟩

def nextHandle (t : Timers α) : Nat := t.scheduled + 1

def schedule (t : Timers α) (delay : Nat) (task : α) : Timers α where
  now := t.now
  scheduled := t.scheduled + 1
  waiting := t.waiting ++ [⟨t.now + delay, t.nextHandle, task⟩]

/-- The timers that are due once the clock has moved on by an amount, in firing order. -/
def dueAfter (t : Timers α) (elapsed : Nat) : List (Timer α) :=
  (t.waiting.filter fun w => w.due ≤ t.now + elapsed).mergeSort Timer.before

def advance (t : Timers α) (elapsed : Nat) : Timers α where
  now := t.now + elapsed
  scheduled := t.scheduled
  waiting := t.waiting.filter fun w => ¬ w.due ≤ t.now + elapsed

def handleText (handle : Nat) : String := "timer-" ++ toString handle

end Timers

end Mediation
