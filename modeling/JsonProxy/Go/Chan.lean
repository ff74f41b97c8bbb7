import Mathlib.Data.List.Basic

/-!
# Go channels

A channel of capacity `cap` holds the values sent and not yet received, the oldest first, never
more than `cap` of them, and whether it has been closed.  A send on a closed channel panics and
on a full one blocks; a receive takes the oldest value, and on an empty channel blocks until the
channel is closed, when it returns no value, which ends a `range` loop; closing a closed channel
panics.

The queue is what was sent and not yet received (`send_eq_returns`, `receive_eq_returns_some`):
over any sequence of operations the values received, then the queue, are the values sent, in
order, none lost and none received twice.  A closed channel takes no more values
(`send_of_closed`) and gives its queue back, the oldest first (`receive_of_cons`), before it
returns no value (`receive_of_closed`).

Only what a channel does on its own is modelled: a send on an unbuffered channel waits for a
receiver, which a queue of capacity `0` does not say, so such a channel is here only closed and
received from.
-/

namespace Go

universe u

/-- The run-time panics of channel operations. -/
inductive ChanPanic where
  /-- `send on closed channel`. -/
  | sendOnClosed
  /-- `close of closed channel`. -/
  | closeOfClosed
  deriving DecidableEq, Repr

/-- How an operation on a channel ends: the goroutine blocks, panics, or goes on with `result`. -/
inductive ChanOp (β : Type u) where
  | blocks
  | panics (p : ChanPanic)
  | returns (result : β)
  deriving DecidableEq, Repr

/-- A channel of capacity `cap`: the values sent and not yet received, the oldest first, and
whether it has been closed. -/
structure Chan (α : Type u) (cap : ℕ) where
  queue : List α
  closed : Bool
  length_le : queue.length ≤ cap

namespace Chan

variable {α : Type u} {cap : ℕ}

theorem length_append_le {l : List α} (room : l.length < cap) (x : α) :
    (l ++ [x]).length ≤ cap := by
  rw [List.length_append, List.length_singleton]
  exact room

/-- `make(chan α, cap)`. -/
def make : Chan α cap :=
  ⟨[], false, Nat.zero_le cap⟩

/-- `c <- x`. -/
def send (c : Chan α cap) (x : α) : ChanOp (Chan α cap) :=
  if c.closed then .panics .sendOnClosed
  else if room : c.queue.length < cap then .returns ⟨c.queue ++ [x], false, length_append_le room x⟩
  else .blocks

/-- `x, ok := <-c`: the oldest value, or, on a closed and empty channel, none. -/
def receive : Chan α cap → ChanOp (Option α × Chan α cap)
  | ⟨x :: rest, closed, bound⟩ => .returns (some x, ⟨rest, closed, Nat.le_of_succ_le bound⟩)
  | c@⟨[], true, _⟩ => .returns (none, c)
  | ⟨[], false, _⟩ => .blocks

/-- `close(c)`. -/
def close (c : Chan α cap) : ChanOp (Chan α cap) :=
  if c.closed then .panics .closeOfClosed else .returns ⟨c.queue, true, c.length_le⟩

/-! ## Sending -/

variable {c c' : Chan α cap} {x : α}

theorem send_of_closed (closed : c.closed = true) (x : α) : c.send x = .panics .sendOnClosed :=
  if_pos closed

/-- A send that goes on has put its value at the end of the queue of an open channel. -/
theorem send_eq_returns (sent : c.send x = .returns c') :
    c'.queue = c.queue ++ [x] ∧ c'.closed = false ∧ c.closed = false := by
  unfold send at sent
  split_ifs at sent with closed room
  cases sent
  exact ⟨rfl, rfl, by simpa using closed⟩

/-! ## Receiving -/

theorem receive_of_cons {rest : List α} (queue : c.queue = x :: rest) :
    ∃ d, c.receive = .returns (some x, d) ∧ d.queue = rest ∧ d.closed = c.closed := by
  obtain ⟨_, closed, bound⟩ := c
  subst queue
  exact ⟨_, rfl, rfl, rfl⟩

theorem receive_of_closed (empty : c.queue = []) (closed : c.closed = true) :
    c.receive = .returns (none, c) := by
  obtain ⟨_, _, bound⟩ := c
  subst empty
  subst closed
  rfl

/-- A receive that takes a value has taken the oldest one. -/
theorem receive_eq_returns_some (received : c.receive = .returns (some x, c')) :
    c.queue = x :: c'.queue ∧ c'.closed = c.closed := by
  obtain ⟨queue, closed, bound⟩ := c
  match queue, closed with
  | y :: rest, closed => cases received; exact ⟨rfl, rfl⟩
  | [], true => cases received
  | [], false => cases received

/-- A receive returns no value only on a closed, empty channel, which it leaves as it is. -/
theorem receive_eq_returns_none (ended : c.receive = .returns (none, c')) :
    c.queue = [] ∧ c.closed = true ∧ c' = c := by
  obtain ⟨queue, closed, bound⟩ := c
  match queue, closed with
  | y :: rest, closed => cases ended
  | [], true => cases ended; exact ⟨rfl, rfl, rfl⟩
  | [], false => cases ended

/-- A receive on an empty channel goes on only once the channel is closed. -/
theorem closed_of_receive {r : Option α × Chan α cap} (received : c.receive = .returns r)
    (empty : c.queue = []) : c.closed = true := by
  obtain ⟨queue, closed, bound⟩ := c
  match queue, closed with
  | _ :: _, _ => cases empty
  | [], true => rfl
  | [], false => cases received

/-! ## Closing -/

theorem close_of_open (notClosed : c.closed = false) :
    c.close = .returns ⟨c.queue, true, c.length_le⟩ := by
  rw [close, if_neg (by simp [notClosed])]

theorem close_eq_returns (closed : c.close = .returns c') :
    c'.queue = c.queue ∧ c'.closed = true ∧ c.closed = false := by
  unfold close at closed
  split_ifs at closed with wasClosed
  cases closed
  exact ⟨rfl, rfl, by simpa using wasClosed⟩

/-- A channel of capacity `0` is always empty. -/
theorem queue_eq_nil (c : Chan α 0) : c.queue = [] :=
  List.eq_nil_of_length_eq_zero (Nat.le_zero.mp c.length_le)

end Chan

end Go
