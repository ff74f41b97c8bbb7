import JsonProxy.Metrics.Registry

/-!
# `http-handlers/metrics`: what the request metrics say

`metrics.Wrap`, the innermost layer of `service.New`, counts every request as it comes in
(`HTTP.Requests`) and again when its answer is done (`HTTP.Responses`), and records how long
it took, in milliseconds, into the histogram `HTTP.Latency`: a window of five sections which
the ticker of `metrics` rotates every minute.  `Snapshot`, which `/debug/vars` calls, merges the
window and reads its quantile gauges.

Requests are served concurrently, one goroutine each, and every access to the counters or the
histogram holds a lock, so a run of the system is any interleaving of the atomic steps that
`Event` names (`State.step`, `State.run`).  `Spec` says what the metrics are for: how many
requests came in and were answered, and the latencies recorded, by minute.  Each step of the
code does what a step of `Spec` does (`Counts.step`, `Latencies.step`), so every run of the code
follows a run of `Spec`.  Hence a snapshot's latency gauges answer for the latencies of the
last five minutes that lie in `[0, 262144)` ms, the range `NewHistogram("HTTP.Latency", 1, 1000*60*3, 3)`
records; `recordLatency` drops every other latency, with an error nobody reads.
-/

namespace JsonProxy.Metrics

open Go
open JsonProxy.Hdr (WindowedHistogram WindowEvent periodsStep)
open JsonProxy.Hdr.Histogram (countAtPercentile)

/-! ## The handler `Wrap` returns -/

/-- `requests = metrics.Counter("HTTP.Requests")`. -/
def requests : Bytes :=
  utf8 "HTTP.Requests"

/-- `responses = metrics.Counter("HTTP.Responses")`. -/
def responses : Bytes :=
  utf8 "HTTP.Responses"

theorem responses_ne_requests : responses ≠ requests := by
  decide

/-- `latency = metrics.NewHistogram("HTTP.Latency", 1, 1000*60*3, 3)`, the first histogram the
program registers. -/
def latency : Option (Except Go.Error Histogram) :=
  newHistogram [] (utf8 "HTTP.Latency") 1 (1000 * 60 * 3) 3

/-- `recordLatency(start)`, with `elapsedMS` the `int64` that the elapsed milliseconds convert
to: `latency.RecordValue`, its error dropped. -/
def recordLatency (latency : Histogram) (elapsedMS : ℤ) : Histogram :=
  match latency.recordValue elapsedMS with
  | .ok recorded => recorded
  | .error _ => latency

/-- Where the goroutine serving a request is in the handler `Wrap` returns. -/
inductive Phase where
  /-- `requests.Add()` has run and `h.ServeHTTP(w, r)` is running. -/
  | serving
  /-- `h.ServeHTTP` has returned, or panicked, and the deferred `recordLatency` has run; the
  deferred `responses.Add()` has not. -/
  | recorded
  deriving DecidableEq, Repr

/-- The atomic steps of the system. -/
inductive Event where
  /-- A request comes in, and its goroutine runs `requests.Add()`. -/
  | arrive
  /-- The handler of goroutine `i` returns after `elapsedMS` milliseconds, and the deferred
  `recordLatency` runs. -/
  | served (i : ℕ) (elapsedMS : ℤ)
  /-- Goroutine `i` runs its deferred `responses.Add()` and ends. -/
  | respond (i : ℕ)
  /-- The minute ticker of `metrics` rotates every histogram. -/
  | tick
  /-- `Snapshot()`: its `inits` merge the histogram, then it reads the counters and gauges. -/
  | snapshot
  deriving DecidableEq, Repr

/-- The metrics of the program and the goroutines serving requests. -/
structure State where
  counters : Bytes → UInt64
  latency : Histogram
  goroutines : List Phase

namespace State

/-- The state once the package variables are set, before any request. -/
def initial (latency : Histogram) : State :=
  ⟨fun _ => 0, latency, []⟩

/-- One atomic step.  An event that names no goroutine in the right phase is not a step the
system can take, and leaves the state as it is. -/
def step (s : State) : Event → State
  | .arrive =>
    { s with
      counters := Counter.add requests s.counters
      goroutines := s.goroutines ++ [.serving] }
  | .served i elapsedMS =>
    if s.goroutines[i]? = some .serving then
      { s with
        latency := recordLatency s.latency elapsedMS
        goroutines := s.goroutines.set i .recorded }
    else s
  | .respond i =>
    if s.goroutines[i]? = some .recorded then
      { s with
        counters := Counter.add responses s.counters
        goroutines := s.goroutines.eraseIdx i }
    else s
  | .tick => { s with latency := s.latency.rotate }
  | .snapshot => { s with latency := s.latency.merge }

/-- The state after the events `events`, the first first: one interleaving of the goroutines. -/
def run (s : State) (events : List Event) : State :=
  events.foldl step s

/-- What `Snapshot()` returns: the counters, and the gauges of the histogram once merged.  It
holds `cm`, `gm` and `hm` throughout; a `RecordValue` between its merge and its reads changes a
section, not the merge the gauges read. -/
def snapshot (s : State) : (Bytes → UInt64) × List (Bytes × ℤ) :=
  (s.counters, s.latency.merge.gauges)

@[simp]
theorem initial_latency (latency : Histogram) : (initial latency).latency = latency :=
  rfl

@[simp]
theorem run_nil (s : State) : s.run [] = s :=
  rfl

@[simp]
theorem run_cons (s : State) (e : Event) (events : List Event) :
    s.run (e :: events) = (s.step e).run events :=
  rfl

end State

/-- Recording a latency is recording into the window, whether it is accepted or not. -/
theorem recordLatency_eq (latency : Histogram) (elapsedMS : ℤ) :
    recordLatency latency elapsedMS = { latency with hist := latency.hist.step (.record elapsedMS) } := by
  unfold recordLatency
  cases recorded : latency.recordValue elapsedMS with
  | ok inWindow => exact latency.recordValue_eq_ok recorded
  | error e =>
      -- the window refused the value too, and is as it was
      obtain ⟨err, refused, -⟩ := (latency.recordValue_eq_error_iff elapsedMS e).mp recorded
      rw [WindowedHistogram.step_record_of_error refused]

/-! ## What the metrics are for -/

/-- How many requests came in and how many were answered, where each request being handled is,
and the latencies recorded, by minute, the newest first. -/
structure Spec where
  arrived : ℕ
  answered : ℕ
  goroutines : List Phase
  periods : List (List ℕ)
  deriving DecidableEq, Repr

namespace Spec

/-- Nothing has happened yet. -/
def initial : Spec :=
  ⟨0, 0, [], [[]]⟩

/-- One step: a latency counts when it lies in `[0, limit)`. -/
def step (limit : ℤ) (a : Spec) : Event → Spec
  | .arrive => { a with arrived := a.arrived + 1, goroutines := a.goroutines ++ [.serving] }
  | .served i elapsedMS =>
    if a.goroutines[i]? = some .serving then
      { a with
        goroutines := a.goroutines.set i .recorded
        periods := periodsStep limit a.periods (.record elapsedMS) }
    else a
  | .respond i =>
    if a.goroutines[i]? = some .recorded then
      { a with answered := a.answered + 1, goroutines := a.goroutines.eraseIdx i }
    else a
  | .tick => { a with periods := periodsStep limit a.periods .rotate }
  | .snapshot => a

/-- The spec after the events `events`. -/
def run (limit : ℤ) (a : Spec) (events : List Event) : Spec :=
  events.foldl (step limit) a

/-- The latencies of the last five minutes: those a window of five sections holds. -/
def recent (a : Spec) : List ℕ :=
  (a.periods.take 5).flatten

end Spec

/-! ## The code implements the spec -/

/-- The counters and goroutines of `s` are those of `a`, the counters as `uint64`s. -/
structure Counts (s : State) (a : Spec) : Prop where
  goroutines_eq : s.goroutines = a.goroutines
  requests_eq : s.counters requests = UInt64.ofNat a.arrived
  responses_eq : s.counters responses = UInt64.ofNat a.answered

/-- The histogram of `s`, in the layout `L`, holds the latencies of `a` by minute, and its `m`
is nil or the window's merge target. -/
structure Latencies (L : Hdr.Layout) (s : State) (a : Spec) : Prop where
  tracks : s.latency.hist.Tracks L a.periods
  m_eq : s.latency.m = none ∨ s.latency.m = some s.latency.hist.m

variable {s : State} {a : Spec} {L : Hdr.Layout}

theorem counts_initial (latency : Histogram) : Counts (State.initial latency) Spec.initial :=
  ⟨rfl, rfl, rfl⟩

/-- A counter that stands for `n` stands for `n + 1` once added to. -/
theorem add_ofNat {counters : Bytes → UInt64} {name : Bytes} {n : ℕ}
    (counted : counters name = UInt64.ofNat n) :
    Counter.add name counters name = UInt64.ofNat (n + 1) := by
  rw [Counter.add_self, counted, UInt64.ofNat_add]
  rfl

theorem Counts.step (counts : Counts s a) (limit : ℤ) (e : Event) :
    Counts (s.step e) (a.step limit e) := by
  obtain ⟨goroutines_eq, requests_eq, responses_eq⟩ := counts
  -- the code and the spec see the same goroutines, so they take the same branch
  cases e with
  | arrive =>
      refine ⟨by rw [State.step, Spec.step, goroutines_eq], add_ofNat requests_eq, ?_⟩
      show Counter.add requests s.counters responses = UInt64.ofNat a.answered
      rw [Counter.add_of_ne responses_ne_requests, responses_eq]
  | served i elapsedMS =>
      simp only [State.step, Spec.step, goroutines_eq]
      split_ifs
      · exact ⟨rfl, requests_eq, responses_eq⟩
      · exact ⟨goroutines_eq, requests_eq, responses_eq⟩
  | respond i =>
      simp only [State.step, Spec.step, goroutines_eq]
      split_ifs
      · refine ⟨rfl, ?_, add_ofNat responses_eq⟩
        show Counter.add responses s.counters requests = UInt64.ofNat a.arrived
        rw [Counter.add_of_ne (Ne.symm responses_ne_requests), requests_eq]
      · exact ⟨goroutines_eq, requests_eq, responses_eq⟩
  | tick => exact ⟨goroutines_eq, requests_eq, responses_eq⟩
  | snapshot => exact ⟨goroutines_eq, requests_eq, responses_eq⟩

theorem Counts.run (counts : Counts s a) (limit : ℤ) (events : List Event) :
    Counts (s.run events) (a.run limit events) := by
  induction events generalizing s a with
  | nil => exact counts
  | cons e events ih => exact ih (counts.step limit e)

/-- Each step moves the histogram as the spec moves its latencies. -/
theorem Latencies.step (counts : Counts s a) (latencies : Latencies L s a) (e : Event) :
    Latencies L (s.step e) (a.step (2 ^ (L.maskBits + L.bucketCount - 1)) e) := by
  obtain ⟨tracks, m_eq⟩ := latencies
  cases e with
  | arrive => exact ⟨tracks, m_eq⟩
  | served i elapsedMS =>
      simp only [State.step, Spec.step, counts.goroutines_eq, recordLatency_eq]
      split_ifs
      · refine ⟨tracks.step (.record elapsedMS), ?_⟩
        rw [WindowedHistogram.m_step_record]
        exact m_eq
      · exact ⟨tracks, m_eq⟩
  | respond i =>
      simp only [State.step, Spec.step, counts.goroutines_eq]
      split_ifs <;> exact ⟨tracks, m_eq⟩
  | tick =>
      -- the rotation moves the window and leaves `m` alone
      exact ⟨tracks.step .rotate, m_eq⟩
  | snapshot =>
      -- the merge is the window's, and `m` is now its merge target
      exact ⟨tracks.step .merge, .inr rfl⟩

theorem Latencies.run (counts : Counts s a) (latencies : Latencies L s a) (events : List Event) :
    Latencies L (s.run events) (a.run (2 ^ (L.maskBits + L.bucketCount - 1)) events) := by
  induction events generalizing s a with
  | nil => exact latencies
  | cons e events ih => exact ih (counts.step _ e) (latencies.step counts e)

/-- What a step does to the histogram: a request that is served records its latency, a tick
rotates, a snapshot merges, and no other step touches it. -/
theorem latency_step (s : State) (e : Event) :
    (s.step e).latency = s.latency ∨
      (∃ elapsedMS, (s.step e).latency =
        { s.latency with hist := s.latency.hist.step (.record elapsedMS) }) ∨
      (s.step e).latency = s.latency.rotate ∨ (s.step e).latency = s.latency.merge := by
  cases e with
  | arrive => exact .inl rfl
  | served i elapsedMS =>
      simp only [State.step]
      split_ifs
      · exact .inr (.inl ⟨elapsedMS, recordLatency_eq _ _⟩)
      · exact .inl rfl
  | respond i =>
      simp only [State.step]
      split_ifs <;> exact .inl rfl
  | tick => exact .inr (.inr (.inl rfl))
  | snapshot => exact .inr (.inr (.inr rfl))

@[simp]
theorem name_step (s : State) (e : Event) : (s.step e).latency.name = s.latency.name := by
  rcases latency_step s e with same | ⟨elapsedMS, same⟩ | same | same <;> rw [same] <;> rfl

@[simp]
theorem name_run (s : State) (events : List Event) :
    (s.run events).latency.name = s.latency.name := by
  induction events generalizing s with
  | nil => rfl
  | cons e events ih => rw [State.run_cons, ih, name_step]

@[simp]
theorem length_step (s : State) (e : Event) :
    (s.step e).latency.hist.h.length = s.latency.hist.h.length := by
  rcases latency_step s e with same | ⟨elapsedMS, same⟩ | same | same <;>
    simp only [same, Histogram.rotate_hist, Histogram.merge_hist, WindowedHistogram.length_step]

@[simp]
theorem length_run (s : State) (events : List Event) :
    (s.run events).latency.hist.h.length = s.latency.hist.h.length := by
  induction events generalizing s with
  | nil => rfl
  | cons e events ih => rw [State.run_cons, ih, length_step]

/-! ## The histogram `HTTP.Latency` -/

/-- Initialising the package variables creates the histogram: `New` neither panics nor hangs on
its arguments. -/
theorem latency_ok : ∃ h, latency = some (.ok h) := by
  obtain ⟨buckets, made⟩ :=
    @Hdr.new_of_loop_some 1 (1000 * 60 * 3) 3 ⟨by decide, by decide⟩ 8 (by decide)
  unfold latency newHistogram Hdr.newWindowed
  rw [if_neg List.not_mem_nil, made]
  exact ⟨_, rfl⟩

variable {h : Histogram}

/-- `HTTP.Latency` has unit magnitude `0`, `1024` sub-buckets a half, and `8` buckets, so it
records the values below `2 ^ 18`. -/
theorem latency_limit (created : latency = some (.ok h)) :
    2 ^ (h.hist.m.maskBits + h.hist.m.bucketCount - 1) = (262144 : ℤ) := by
  obtain ⟨-, windowed, -, -⟩ := newHistogram_eq_ok created
  obtain ⟨buckets, made⟩ :=
    @Hdr.new_of_loop_some 1 (1000 * 60 * 3) 3 ⟨by decide, by decide⟩ 8 (by decide)
  have same := (Hdr.newWindowed_m windowed).symm.trans made
  simp only [Option.some.injEq, Except.ok.injEq] at same
  rw [same]
  show 2 ^ (Hdr.unitMagnitudeFor 1 + Hdr.subBucketHalfCountMagnitudeFor 3 + 1 + 8 - 1) = (262144 : ℤ)
  decide

/-- The program starts with its counters at `0`, no request, and the latency histogram tracking
one empty minute. -/
theorem refines_initial (created : latency = some (.ok h)) :
    Counts (State.initial h) Spec.initial ∧
      Latencies h.hist.m.toLayout (State.initial h) Spec.initial ∧ h.hist.h.length = 5 := by
  obtain ⟨-, windowed, -, noMerge⟩ := newHistogram_eq_ok created
  obtain ⟨tracks, length⟩ := Hdr.newWindowed_tracks windowed
  exact ⟨counts_initial h, ⟨tracks, .inl noMerge⟩, length⟩

/-! ## What a snapshot reports -/

/-- `value` answers the quantile `q` of the values `xs` to within one range of the layout `L`: at
least the rank of `q` of the values are at most `value`, and fewer lie below its range. -/
def Answers (L : Hdr.Layout) (xs : List ℕ) (q : ℚ) (value : ℤ) : Prop :=
  countAtPercentile q xs.length ≤ xs.countP (fun (x : ℕ) => (x : ℤ) ≤ value) ∧
    (xs.countP (fun (x : ℕ) => (x : ℤ) < L.lowestEquivalentValue value) : ℤ) <
      countAtPercentile q xs.length

/-- After any interleaving, each latency gauge of a snapshot, `HTTP.Latency.P50` to
`HTTP.Latency.P999`, answers its quantile of the latencies the last five minutes recorded
inside `[0, 262144)` ms, to within one range of the histogram. -/
theorem snapshot_latency_answers {h : Histogram} (created : latency = some (.ok h))
    (events : List Event) {suffix : Bytes} {q : ℚ} (gauge : (suffix, q) ∈ gaugeQuantiles)
    (ranked : 1 ≤ countAtPercentile q (Spec.initial.run 262144 events).recent.length) :
    ∃ value, (utf8 "HTTP.Latency" ++ suffix, value) ∈ ((State.initial h).run events).snapshot.2 ∧
      Answers h.hist.m.toLayout (Spec.initial.run 262144 events).recent q value := by
  obtain ⟨-, -, named, -⟩ := newHistogram_eq_ok created
  obtain ⟨counts, latencies, length⟩ := refines_initial created
  have ran := latencies.run counts events
  rw [latency_limit created] at ran
  -- the merge a snapshot makes holds the latencies of the last five minutes
  have merged := ran.tracks.merge
  rw [length_run, State.initial_latency, length] at merged
  obtain ⟨sections, holds, -⟩ := (ran.tracks.step .merge).holds
  have layout : ((State.initial h).run events).latency.hist.merge.m.toLayout =
      h.hist.m.toLayout := holds.layout_m
  have total := merged.totalCount
  obtain ⟨atMost, below⟩ := Hdr.Histogram.valueAtQuantile_rank _ merged (q := q) (by
    rw [total]
    exact ranked)
  refine ⟨((State.initial h).run events).latency.merge.valueAt q, ?_, ?_, ?_⟩
  · apply List.mem_map.mpr
    refine ⟨(suffix, q), gauge, ?_⟩
    rw [Histogram.merge_name, name_run, State.initial_latency, named]
  · rw [total] at atMost
    exact atMost
  · rw [layout, total] at below
    exact below

theorem snapshot_latency_answers_median :
    ∃ h, latency = some (.ok h) ∧
      1 ≤ countAtPercentile 50 (Spec.initial.run 262144 [.arrive, .served 0 12]).recent.length ∧
      ∃ value, (utf8 "HTTP.Latency" ++ utf8 ".P50", value) ∈
          ((State.initial h).run [.arrive, .served 0 12]).snapshot.2 ∧
        Answers h.hist.m.toLayout (Spec.initial.run 262144 [.arrive, .served 0 12]).recent 50 value := by
  obtain ⟨h, created⟩ := latency_ok
  have one : (Spec.initial.run 262144 [.arrive, .served 0 12]).recent.length = 1 := by
    decide
  have ranked : 1 ≤ countAtPercentile 50 (Spec.initial.run 262144 [.arrive, .served 0 12]).recent.length := by
    rw [one]
    norm_num [countAtPercentile, truncate]
  exact ⟨h, created, ranked,
    snapshot_latency_answers created [.arrive, .served 0 12] List.mem_cons_self ranked⟩

/-- In every state of every run, `latency.RecordValue(v)` fails exactly on the latencies outside
`[0, 262144)`, and its error names the metric and calls the value too large, a negative one
too. -/
theorem run_latency_recordValue {h : Histogram} (created : latency = some (.ok h))
    (events : List Event) (v : ℤ) (e : Error) :
    ((State.initial h).run events).latency.recordValue v = .error e ↔
      (v < 0 ∨ 262144 ≤ v) ∧ e = ⟨utf8 "HTTP.Latency", Hdr.Histogram.tooLarge v⟩ := by
  obtain ⟨-, -, named, -⟩ := newHistogram_eq_ok created
  obtain ⟨counts, latencies, -⟩ := refines_initial created
  obtain ⟨sections, holds, -⟩ := (latencies.run counts events).tracks.holds
  have accepts := holds.recordValue_ok_iff v
  rw [latency_limit created] at accepts
  rw [Histogram.recordValue_eq_error_iff, name_run, State.initial_latency, named]
  constructor
  · rintro ⟨err, failed, rfl⟩
    refine ⟨?_, by rw [WindowedHistogram.eq_tooLarge_of_recordValue failed]⟩
    -- an accepted value would have been recorded
    by_contra inside
    obtain ⟨recorded, ok⟩ := accepts.mpr (by omega)
    rw [ok] at failed
    cases failed
  · rintro ⟨outside, rfl⟩
    cases found : ((State.initial h).run events).latency.hist.recordValue v with
    | ok recorded =>
        have := accepts.mp ⟨recorded, found⟩
        omega
    | error err => exact ⟨err, rfl, by rw [WindowedHistogram.eq_tooLarge_of_recordValue found]⟩

theorem run_latency_recordValue_negative :
    ∃ h, latency = some (.ok h) ∧
      ((State.initial h).run []).latency.recordValue (-1) =
        .error ⟨utf8 "HTTP.Latency", Hdr.Histogram.tooLarge (-1)⟩ := by
  obtain ⟨h, created⟩ := latency_ok
  exact ⟨h, created, (run_latency_recordValue created [] (-1) _).mpr ⟨.inl (by decide), rfl⟩⟩

end JsonProxy.Metrics
