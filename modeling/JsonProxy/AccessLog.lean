import JsonProxy.Logging
import JsonProxy.Go.Chan

/-!
# The access log's buffer and writer

`logging.Wrap` gives the access log a channel of 1000 lines, and `Start`, which `service.New`
calls, a goroutine that prints each line it receives to `os.Stdout` until the channel is closed
and empty, and then closes `quit`.  A request's `ServeHTTP` ends by sending its line, and blocks
while 1000 lines wait.  `Stop`, which `Service.Close` calls, closes the channel and waits on
`quit`.

Over any interleaving of the requests, the writer and `Stop`, a step adds to what has been
printed followed by what waits in the buffer exactly the line whose send it lets through
(`sent_step`).  The invariant `Inv` says how the two channels, the writer and `Stop` move
together.  From the two: when `Stop` returns, every line whose send went through has been
printed, in order, and the output does not change after it (`run_stopped_printed`); and from
any state, the writer's own steps bring `Stop` back (`run_stopSchedule`).

The writer's last receive and its `close(al.quit)` are one step here: nothing else looks at the
writer between them, and only the writer closes `quit`.
-/

namespace JsonProxy

open Go

namespace AccessLog

/-- `make(chan string, 1000)`: how many lines the buffer holds. -/
def bufferSize : ℕ := 1000

/-- Where the goroutine `Start` runs is: in its `range` over the buffer, or past it, with `quit`
closed. -/
inductive Writer where
  | ranging
  | done
  deriving DecidableEq, Repr

/-- Where `Stop` is: not called, waiting on `quit` after closing the buffer, or returned. -/
inductive Stopper where
  | idle
  | waiting
  | returned
  deriving DecidableEq, Repr

/-- A request goroutine at the end of `al.ServeHTTP`: at `al.buffer <- line`, or panicked there
because the buffer was closed. -/
inductive Sender where
  | sending (line : LogEntry)
  | panicked (line : LogEntry)
  deriving DecidableEq, Repr

/-- The access log: its two channels, what the writer has printed, where the writer and `Stop`
are, and the request goroutines at their send. -/
structure State where
  buffer : Chan LogEntry bufferSize
  quit : Chan Unit 0
  printed : List LogEntry
  writer : Writer
  stopper : Stopper
  senders : List Sender

/-- The atomic steps of the access log. -/
inductive Event where
  /-- A request's handler has returned, and its goroutine reaches `al.buffer <- line`. -/
  | serve (line : LogEntry)
  /-- Goroutine `i` tries its send. -/
  | send (i : ℕ)
  /-- The writer's `range` receives: it prints the next line, or, on a closed and empty buffer,
  leaves the loop and closes `quit`. -/
  | receive
  /-- `Stop` runs `close(al.buffer)`. -/
  | close
  /-- `Stop`'s `<-al.quit` returns. -/
  | wake
  deriving DecidableEq, Repr

namespace State

/-- `service.New`: `logging.Wrap` makes both channels, and `Start` starts the writer. -/
def initial : State :=
  ⟨Chan.make, Chan.make, [], .ranging, .idle, []⟩

/-- One atomic step.  An event whose goroutine is blocked, or not where the event needs it, leaves
the state as it is. -/
def step (s : State) : Event → State
  | .serve line => { s with senders := s.senders ++ [.sending line] }
  | .send i =>
    match s.senders[i]? with
    | some (.sending line) =>
      match s.buffer.send line with
      | .returns buffer => { s with buffer := buffer, senders := s.senders.eraseIdx i }
      | .panics _ => { s with senders := s.senders.set i (.panicked line) }
      | .blocks => s
    | _ => s
  | .receive =>
    match s.writer, s.buffer.receive with
    | .ranging, .returns (some line, buffer) =>
      { s with buffer := buffer, printed := s.printed ++ [line] }
    | .ranging, .returns (none, _) =>
      match s.quit.close with
      | .returns quit => { s with quit := quit, writer := .done }
      | _ => s
    | _, _ => s
  | .close =>
    match s.stopper, s.buffer.close with
    | .idle, .returns buffer => { s with buffer := buffer, stopper := .waiting }
    | _, _ => s
  | .wake =>
    match s.stopper, s.quit.receive with
    | .waiting, .returns _ => { s with stopper := .returned }
    | _, _ => s

/-- The state after the events `events`, the first first: one interleaving of the goroutines. -/
def run (s : State) (events : List Event) : State :=
  events.foldl step s

/-- The line whose send goes through in the step `e`, if one does. -/
def accepted (s : State) : Event → List LogEntry
  | .send i =>
    match s.senders[i]? with
    | some (.sending line) =>
      match s.buffer.send line with
      | .returns _ => [line]
      | _ => []
    | _ => []
  | _ => []

/-- The lines whose sends go through during the events `events`, in order. -/
def acceptedDuring (s : State) : List Event → List LogEntry
  | [] => []
  | e :: events => s.accepted e ++ acceptedDuring (s.step e) events

/-- Every line sent so far: the printed ones, then those waiting in the buffer. -/
def sent (s : State) : List LogEntry :=
  s.printed ++ s.buffer.queue

@[simp]
theorem run_nil (s : State) : s.run [] = s :=
  rfl

@[simp]
theorem run_cons (s : State) (e : Event) (events : List Event) :
    s.run (e :: events) = (s.step e).run events :=
  rfl

theorem run_append (s : State) (events more : List Event) :
    s.run (events ++ more) = (s.run events).run more :=
  List.foldl_append

/-! ## Every line sent, once and in order -/

/-- A step adds to the lines sent the one whose send it lets through, and loses none: what the
writer prints it takes from the front of the buffer. -/
theorem sent_step (s : State) (e : Event) : (s.step e).sent = s.sent ++ s.accepted e := by
  cases e with
  | serve line => simp [step, accepted, sent]
  | send i =>
      simp only [step, accepted]
      split
      · rename_i line _
        cases through : s.buffer.send line with
        | returns buffer => simp [sent, (Chan.send_eq_returns through).1]
        | panics p => simp [sent]
        | blocks => simp
      · simp
  | receive =>
      simp only [step, accepted, List.append_nil]
      split
      · rename_i line buffer _ received
        simp [sent, (Chan.receive_eq_returns_some received).1]
      · split <;> rfl
      · rfl
  | close =>
      simp only [step, accepted, List.append_nil]
      split
      · rename_i buffer _ closed
        simp [sent, (Chan.close_eq_returns closed).1]
      · rfl
  | wake =>
      simp only [step, accepted, List.append_nil]
      split <;> rfl

/-- Over a run, the lines sent grow by the lines whose sends went through, in order. -/
theorem sent_run (s : State) (events : List Event) :
    (s.run events).sent = s.sent ++ s.acceptedDuring events := by
  induction events generalizing s with
  | nil => simp [acceptedDuring]
  | cons e events ih => rw [run_cons, ih, sent_step, acceptedDuring, List.append_assoc]

/-! ## How the writer and `Stop` end -/

/-- What holds of the channels, the writer and `Stop` in every state the log reaches: only `Stop`
closes the buffer, only the writer closes `quit`, the writer leaves its loop only at the end of a
closed buffer, and `Stop` returns only after it. -/
structure Inv (s : State) : Prop where
  closed_iff : s.buffer.closed = true ↔ s.stopper ≠ .idle
  quit_iff : s.quit.closed = true ↔ s.writer = .done
  done : s.writer = .done → s.buffer.closed = true ∧ s.buffer.queue = []
  returned : s.stopper = .returned → s.writer = .done

theorem inv_initial : initial.Inv where
  closed_iff := by decide
  quit_iff := by decide
  done := by decide
  returned := by decide

variable {s : State}

/-- While the buffer is open the writer is in its loop. -/
theorem Inv.ranging (inv : s.Inv) (open_ : s.buffer.closed = false) : s.writer = .ranging := by
  cases writer : s.writer with
  | ranging => rfl
  | done => simp [(inv.done writer).1] at open_

theorem Inv.step_send (inv : s.Inv) (i : ℕ) : (s.step (.send i)).Inv := by
  simp only [step]
  split
  · rename_i line _
    cases through : s.buffer.send line with
    | returns buffer =>
        obtain ⟨_, nowOpen, wasOpen⟩ := Chan.send_eq_returns through
        -- the buffer was open: `Stop` has not run, and the writer is in its loop
        have idle : s.stopper = .idle := by simpa [wasOpen] using inv.closed_iff
        have ranging := inv.ranging wasOpen
        exact ⟨by simp [nowOpen, idle], inv.quit_iff, fun done => by simp [ranging] at done,
          fun returned => by simp [idle] at returned⟩
    | panics _ => exact ⟨inv.closed_iff, inv.quit_iff, inv.done, inv.returned⟩
    | blocks => exact inv
  · exact inv

theorem Inv.step_receive (inv : s.Inv) : (s.step .receive).Inv := by
  simp only [step]
  split
  · rename_i line buffer ranging received
    have closed := (Chan.receive_eq_returns_some received).2
    exact ⟨closed ▸ inv.closed_iff, inv.quit_iff, fun done => by simp [ranging] at done,
      inv.returned⟩
  · rename_i _ _ ended
    obtain ⟨empty, closed, -⟩ := Chan.receive_eq_returns_none ended
    split
    · rename_i quit quitClosed
      have nowClosed := (Chan.close_eq_returns quitClosed).2.1
      exact ⟨inv.closed_iff, by simp [nowClosed], fun _ => ⟨closed, empty⟩, fun _ => rfl⟩
    · exact inv
  · exact inv

theorem Inv.step_close (inv : s.Inv) : (s.step .close).Inv := by
  simp only [step]
  split
  · rename_i buffer _ closedNow
    obtain ⟨-, nowClosed, wasOpen⟩ := Chan.close_eq_returns closedNow
    have ranging := inv.ranging wasOpen
    exact ⟨by simp [nowClosed], inv.quit_iff, fun done => by simp [ranging] at done,
      fun returned => by cases returned⟩
  · exact inv

theorem Inv.step_wake (inv : s.Inv) : (s.step .wake).Inv := by
  simp only [step]
  split
  · rename_i _ waiting woke
    -- `quit` holds nothing, so the receive went on because the writer closed it
    have done := inv.quit_iff.mp (Chan.closed_of_receive woke (Chan.queue_eq_nil s.quit))
    exact ⟨iff_of_true (inv.closed_iff.mpr (by simp [waiting])) Stopper.noConfusion, inv.quit_iff,
      inv.done, fun _ => done⟩
  · exact inv

/-- Every step keeps the invariant. -/
theorem Inv.step (inv : s.Inv) (e : Event) : (s.step e).Inv := by
  cases e with
  | serve line => exact ⟨inv.closed_iff, inv.quit_iff, inv.done, inv.returned⟩
  | send i => exact inv.step_send i
  | receive => exact inv.step_receive
  | close => exact inv.step_close
  | wake => exact inv.step_wake

theorem Inv.run (inv : s.Inv) (events : List Event) : (s.run events).Inv := by
  induction events generalizing s with
  | nil => exact inv
  | cons e events ih => exact ih (inv.step e)

theorem inv_run (events : List Event) : (initial.run events).Inv :=
  inv_initial.run events

/-! ## Single steps of the writer and `Stop` -/

theorem step_receive_of_done (done : s.writer = .done) : s.step .receive = s := by
  simp only [step, done]

theorem run_receives_of_done (done : s.writer = .done) (n : ℕ) :
    s.run (List.replicate n .receive) = s := by
  induction n with
  | zero => rfl
  | succ n ih => rw [List.replicate_succ, run_cons, step_receive_of_done done, ih]

/-- On a closed buffer the writer's receives print the waiting lines, the oldest first, one each. -/
theorem run_receives_of_closed {taken rest : List LogEntry} (closed : s.buffer.closed = true)
    (ranging : s.writer = .ranging) (queue : s.buffer.queue = taken ++ rest) :
    ∃ buffer : Chan LogEntry bufferSize, buffer.queue = rest ∧ buffer.closed = true ∧
      s.run (List.replicate taken.length .receive) =
        { s with buffer := buffer, printed := s.printed ++ taken } := by
  induction taken generalizing s with
  | nil => exact ⟨s.buffer, queue, closed, by simp⟩
  | cons line taken ih =>
      obtain ⟨d, received, rest', closed'⟩ := Chan.receive_of_cons queue
      have stepped : s.step .receive = { s with buffer := d, printed := s.printed ++ [line] } := by
        simp only [step, ranging, received]
      obtain ⟨buffer, queue', nowClosed, ran⟩ :=
        @ih { s with buffer := d, printed := s.printed ++ [line] } (closed'.trans closed) ranging rest'
      refine ⟨buffer, queue', nowClosed, ?_⟩
      rw [List.length_cons, List.replicate_succ, run_cons, stepped, ran]
      simp

/-- On a closed, empty buffer the writer leaves its loop and closes `quit`. -/
theorem step_receive_of_empty (inv : s.Inv) (closed : s.buffer.closed = true)
    (empty : s.buffer.queue = []) (ranging : s.writer = .ranging) :
    ∃ quit : Chan Unit 0, s.step .receive = { s with quit := quit, writer := .done } := by
  have quitOpen : s.quit.closed = false := by
    cases quitClosed : s.quit.closed with
    | false => rfl
    | true => simp [inv.quit_iff.mp quitClosed] at ranging
  exact ⟨⟨s.quit.queue, true, s.quit.length_le⟩, by
    simp only [step, ranging, Chan.receive_of_closed empty closed, Chan.close_of_open quitOpen]⟩

/-- `close(al.buffer)` prints nothing and takes nothing from the buffer. -/
theorem step_close_keeps (s : State) :
    (s.step .close).printed = s.printed ∧ (s.step .close).buffer.queue = s.buffer.queue := by
  simp only [step]
  split
  · rename_i buffer _ closedNow
    exact ⟨rfl, (Chan.close_eq_returns closedNow).1⟩
  · exact ⟨rfl, rfl⟩

theorem step_close_of_ne_idle (running : s.stopper ≠ .idle) : s.step .close = s := by
  cases stopper : s.stopper with
  | idle => exact absurd stopper running
  | waiting => simp only [step, stopper]
  | returned => simp only [step, stopper]

/-- After `close(al.buffer)` the buffer is closed, whether `Stop` closed it now or before. -/
theorem step_close_closed (inv : s.Inv) : (s.step .close).buffer.closed = true := by
  by_cases idle : s.stopper = .idle
  · have open_ : s.buffer.closed = false := by simpa [idle] using inv.closed_iff
    simp only [step, idle, Chan.close_of_open open_]
  · rw [step_close_of_ne_idle idle]
    exact inv.closed_iff.mpr idle

theorem step_wake_of_done (inv : s.Inv) (waiting : s.stopper = .waiting) (done : s.writer = .done) :
    s.step .wake = { s with stopper := .returned } := by
  simp only [step, waiting,
    Chan.receive_of_closed (Chan.queue_eq_nil s.quit) (inv.quit_iff.mpr done)]

theorem step_wake_of_returned (returned : s.stopper = .returned) : s.step .wake = s := by
  simp only [step, returned]

/-! ## `Stop` returns, and flushes the log -/

/-- `Stop` with only the writer running: `close(al.buffer)`, a receive for each waiting line and
one for the end of the loop, then `<-al.quit`. -/
def stopSchedule (s : State) : List Event :=
  .close :: (List.replicate (s.buffer.queue.length + 1) .receive ++ [.wake])

/-- Once the buffer is closed, the writer prints every waiting line and leaves its loop. -/
theorem run_drain (inv : s.Inv) (closed : s.buffer.closed = true) :
    (s.run (List.replicate (s.buffer.queue.length + 1) .receive)).writer = .done ∧
      (s.run (List.replicate (s.buffer.queue.length + 1) .receive)).printed = s.sent ∧
      (s.run (List.replicate (s.buffer.queue.length + 1) .receive)).stopper = s.stopper := by
  cases writer : s.writer with
  | done =>
      rw [run_receives_of_done writer]
      exact ⟨writer, by simp [sent, (inv.done writer).2], rfl⟩
  | ranging =>
      obtain ⟨buffer, empty, nowClosed, ran⟩ :=
        run_receives_of_closed closed writer (List.append_nil s.buffer.queue).symm
      have drained := inv.run (List.replicate s.buffer.queue.length .receive)
      rw [ran] at drained
      obtain ⟨quit, ended⟩ := step_receive_of_empty drained nowClosed empty writer
      rw [List.replicate_succ', run_append, ran, run_cons, ended]
      exact ⟨rfl, rfl, rfl⟩

/-- From any state the log reaches, `Stop` returns once the writer has had its turns, and every
line sent has then been printed. -/
theorem run_stopSchedule_of_inv (inv : s.Inv) :
    (s.run (stopSchedule s)).stopper = .returned ∧ (s.run (stopSchedule s)).printed = s.sent := by
  have closedInv := inv.step .close
  have closed := step_close_closed inv
  have running : (s.step .close).stopper ≠ .idle := closedInv.closed_iff.mp closed
  obtain ⟨samePrinted, sameQueue⟩ := step_close_keeps s
  obtain ⟨done, printed, stopper⟩ := run_drain closedInv closed
  rw [sameQueue] at done printed stopper
  rw [sent, samePrinted, sameQueue, ← sent] at printed
  rw [stopSchedule, run_cons, run_append, run_cons, run_nil]
  -- `<-al.quit` returns now, or had returned before
  cases atStop : (s.step .close).stopper with
  | idle => exact absurd atStop running
  | waiting =>
      rw [step_wake_of_done (closedInv.run _) (stopper.trans atStop) done]
      exact ⟨rfl, printed⟩
  | returned =>
      rw [step_wake_of_returned (stopper.trans atStop)]
      exact ⟨stopper.trans atStop, printed⟩

/-- After `Stop` has returned nothing changes what has been printed: a send panics on the closed
buffer, the writer has left its loop, and `Stop` does not run again. -/
theorem step_of_returned (inv : s.Inv) (returned : s.stopper = .returned) (e : Event) :
    (s.step e).printed = s.printed ∧ (s.step e).stopper = .returned := by
  have closed : s.buffer.closed = true := inv.closed_iff.mpr (by simp [returned])
  cases e with
  | serve line => exact ⟨rfl, returned⟩
  | send i =>
      simp only [step]
      split
      · rename_i line _
        rw [Chan.send_of_closed closed]
        exact ⟨rfl, returned⟩
      · exact ⟨rfl, returned⟩
  | receive =>
      rw [step_receive_of_done (inv.returned returned)]
      exact ⟨rfl, returned⟩
  | close =>
      rw [step_close_of_ne_idle (by simp [returned])]
      exact ⟨rfl, returned⟩
  | wake =>
      rw [step_wake_of_returned returned]
      exact ⟨rfl, returned⟩

theorem run_of_returned (inv : s.Inv) (returned : s.stopper = .returned) (events : List Event) :
    (s.run events).printed = s.printed ∧ (s.run events).stopper = .returned := by
  induction events generalizing s with
  | nil => exact ⟨rfl, returned⟩
  | cons e events ih =>
      obtain ⟨printed, stillReturned⟩ := step_of_returned inv returned e
      obtain ⟨printed', returned'⟩ := ih (inv.step e) stillReturned
      exact ⟨printed'.trans printed, returned'⟩

end State

/-! ## The log over the program's runs -/

open State

/-- Once `Stop` has returned, every line whose send went through has been printed, and nothing is
printed after. -/
theorem run_stopped_printed (events : List Event)
    (returned : (initial.run events).stopper = .returned) :
    (initial.run events).printed = initial.acceptedDuring events ∧
      ∀ more, (initial.run (events ++ more)).printed = (initial.run events).printed := by
  have inv := inv_run events
  have empty := (inv.done (inv.returned returned)).2
  constructor
  · have grown := sent_run initial events
    rw [sent, empty, List.append_nil] at grown
    exact grown
  · intro more
    rw [run_append]
    exact (run_of_returned inv returned more).1

/-- One request's line in the access log. -/
def exampleLine : LogEntry :=
  ⟨utf8 "127.0.0.1", Time.ofUnix 0, utf8 "GET", utf8 "/users", utf8 "HTTP/1.1", 200, utf8 "-",
    utf8 "-", 0, []⟩

/-- A request sends its line, then `Stop` runs with the writer. -/
def stoppedRun : List Event :=
  [.serve exampleLine, .send 0, .close, .receive, .receive, .wake]

theorem run_stopped_printed_example : (initial.run stoppedRun).printed = [exampleLine] :=
  (run_stopped_printed stoppedRun rfl).1

/-- `Stop` never hangs: from any state the log reaches, the writer's own steps bring it back,
with every line whose send went through printed. -/
theorem run_stopSchedule (events : List Event) :
    ((initial.run events).run (stopSchedule (initial.run events))).stopper = .returned ∧
      ((initial.run events).run (stopSchedule (initial.run events))).printed =
        initial.acceptedDuring events := by
  obtain ⟨returned, printed⟩ := run_stopSchedule_of_inv (inv_run events)
  exact ⟨returned, printed.trans (sent_run initial events)⟩

end AccessLog

end JsonProxy
