import JsonProxy.Hdr.Window

/-!
# `codahale/metrics`: counters and windowed histograms

The package keeps its metrics in global maps behind mutexes.  A counter is a `uint64` under a
name, and `Add` adds one to it, wrapping as `uint64` does.  A histogram is a
`hdrhistogram.WindowedHistogram` of five sections, with `m`, the merge that the gauges read,
nil until the first merge.  `RecordValue` records into the current section and wraps the
section's error in an `Error` naming the metric; `rotate` and `merge` are the window's; the
gauges of a histogram are its values at six quantiles, read after a merge.

Each of these functions holds the lock of what it touches for its whole run, so it is one
atomic step of whatever system uses the package.

Left out: gauges set by a value or a function, counter functions, `Remove` and `Reset`, which
nothing in this program calls, and the runtime metrics, whose values come from the Go runtime.
-/

namespace JsonProxy.Metrics

open Go
open JsonProxy.Hdr (WindowedHistogram WindowEvent newWindowed)

/-! ## Counters -/

/-- `Counter(name).AddN(delta)`: `counters[name] += delta` under `cm`; a missing name reads
`0`. -/
def Counter.addN (name : Bytes) (delta : UInt64) (counters : Bytes → UInt64) : Bytes → UInt64 :=
  Function.update counters name (counters name + delta)

/-- `Counter(name).Add()`. -/
def Counter.add (name : Bytes) (counters : Bytes → UInt64) : Bytes → UInt64 :=
  Counter.addN name 1 counters

@[simp]
theorem Counter.add_self (name : Bytes) (counters : Bytes → UInt64) :
    Counter.add name counters name = counters name + 1 := by
  simp [Counter.add, Counter.addN]

@[simp]
theorem Counter.add_of_ne {name other : Bytes} (different : other ≠ name)
    (counters : Bytes → UInt64) : Counter.add name counters other = counters other := by
  simp [Counter.add, Counter.addN, different]

/-! ## Histograms -/

/-- `metrics.Error`: the name of the metric and the error it reported. -/
structure Error where
  metric : Bytes
  err : Go.Error
  deriving DecidableEq, Repr

/-- `e.Error()`. -/
def Error.error (e : Error) : Bytes :=
  e.metric ++ utf8 ": " ++ e.err.message

/-- `metrics.Histogram`.  Its lock `rw` is the atomicity of the functions below. -/
structure Histogram where
  name : Bytes
  hist : WindowedHistogram
  m : Option Hdr.Histogram

/-- `NewHistogram(name, minValue, maxValue, sigfigs)`, given the names of the histograms
registered before it: a name already taken panics; otherwise the histogram is a window of five
sections from `NewWindowed`, with `m` nil until the first merge.  The gauges it registers are
`Histogram.gauges`. -/
def newHistogram (histograms : List Bytes) (name : Bytes) (minValue maxValue sigfigs : ℤ) :
    Option (Except Go.Error Histogram) :=
  if name ∈ histograms then some (.error ⟨name ++ utf8 " already exists"⟩)
  else
    (newWindowed 5 minValue maxValue sigfigs).map fun created =>
      created.map fun hist => ⟨name, hist, none⟩

/-- A histogram `NewHistogram` returns has a name no other histogram had, the window
`NewWindowed` returns, and no merge yet. -/
theorem newHistogram_eq_ok {histograms : List Bytes} {name : Bytes} {minValue maxValue sigfigs : ℤ}
    {h : Histogram} (created : newHistogram histograms name minValue maxValue sigfigs = some (.ok h)) :
    name ∉ histograms ∧ newWindowed 5 minValue maxValue sigfigs = some (.ok h.hist) ∧
      h.name = name ∧ h.m = none := by
  unfold newHistogram at created
  split_ifs at created with taken
  · cases created
  · obtain ⟨result, windowed, built⟩ := Option.map_eq_some_iff.mp created
    cases result with
    | error e => cases built
    | ok hist =>
        cases built
        exact ⟨taken, windowed, rfl, rfl⟩

/-- The gauges `NewHistogram` registers: a suffix of the histogram's name and a quantile. -/
def gaugeQuantiles : List (Bytes × ℚ) :=
  [(utf8 ".P50", 50), (utf8 ".P75", 75), (utf8 ".P90", 90), (utf8 ".P95", 95),
    (utf8 ".P99", 99), (utf8 ".P999", 999 / 10)]

namespace Histogram

variable (h : Histogram)

/-- `h.RecordValue(v)`: `h.hist.Current.RecordValue(v)`, an error wrapped in `Error`. -/
def recordValue (v : ℤ) : Except Error Histogram :=
  match h.hist.recordValue v with
  | .ok recorded => .ok { h with hist := recorded }
  | .error err => .error ⟨h.name, err⟩

/-- `h.rotate()`, which the minute ticker calls. -/
def rotate : Histogram :=
  { h with hist := h.hist.rotate }

/-- `h.merge()`: `h.m = h.hist.Merge()`.  `Merge` returns the window's own `m`, so from then on
`h.m` and `h.hist.m` are one histogram. -/
def merge : Histogram :=
  { h with hist := h.hist.merge, m := some h.hist.merge.m }

/-- `h.valueAt(q)()`: `0` before the first merge, then `ValueAtQuantile(q)` of the merge. -/
def valueAt (q : ℚ) : ℤ :=
  match h.m with
  | none => 0
  | some m => m.valueAtQuantile q

/-- The gauges of `h` by name, as a `Snapshot` reads them. -/
def gauges : List (Bytes × ℤ) :=
  gaugeQuantiles.map fun gauge => (h.name ++ gauge.1, h.valueAt gauge.2)

@[simp]
theorem rotate_name : h.rotate.name = h.name :=
  rfl

@[simp]
theorem rotate_hist : h.rotate.hist = h.hist.step .rotate :=
  rfl

@[simp]
theorem rotate_m : h.rotate.m = h.m :=
  rfl

@[simp]
theorem merge_name : h.merge.name = h.name :=
  rfl

@[simp]
theorem merge_hist : h.merge.hist = h.hist.step .merge :=
  rfl

@[simp]
theorem merge_m : h.merge.m = some (h.hist.step .merge).m :=
  rfl

/-- A value the current section refuses comes back as an `Error` naming the metric. -/
theorem recordValue_eq_error_iff (v : ℤ) (e : Error) :
    h.recordValue v = .error e ↔ ∃ err, h.hist.recordValue v = .error err ∧ e = ⟨h.name, err⟩ := by
  unfold recordValue
  cases h.hist.recordValue v with
  | ok recorded => simp
  | error err =>
      simp only [Except.error.injEq]
      constructor
      · intro wrapped
        exact ⟨err, rfl, wrapped.symm⟩
      · rintro ⟨_, rfl, rfl⟩
        rfl

/-- Recording into `h` is recording into its window, and leaves the name and `m` alone. -/
theorem recordValue_eq_ok {v : ℤ} {recorded : Histogram} (ok : h.recordValue v = .ok recorded) :
    recorded = { h with hist := h.hist.step (.record v) } := by
  unfold recordValue at ok
  cases found : h.hist.recordValue v with
  | ok inWindow =>
      rw [found] at ok
      cases ok
      rw [WindowedHistogram.step_record_of_ok found]
  | error err =>
      rw [found] at ok
      cases ok

end Histogram

end JsonProxy.Metrics
