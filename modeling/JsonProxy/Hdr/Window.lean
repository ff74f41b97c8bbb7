import JsonProxy.Hdr.New
import JsonProxy.Lib.RingBuffer

/-!
# `hdrhistogram.WindowedHistogram`: a ring of sections

A windowed histogram keeps `n` histograms, its sections, and records into the current one.
`Rotate` moves the current section on by one, resetting the section it moves to, so each section
holds the values of one rotation period, and the oldest period is dropped at each rotation.
`Merge` resets `m` and merges every section into it.

The window is related to what it stands for in two steps.  `Holds w sections` says that section
`i` of `w` holds the values `sections[i]`; recording, rotating and merging act on `sections` as
on a list of lists of values (`Holds.recordValue`, `Holds.rotate`, `Holds.merge`).  `Ages`
relates those lists to the periods themselves, the newest first: section `i` holds the period
`(idx - i) % n` rotations old.  A merge then holds exactly the values of the last `n` periods
(`Holds.merge_periods`).
-/

namespace JsonProxy.Hdr

open Go Tally

/-- `hdrhistogram.WindowedHistogram`; `Current` is the index `current` into `h`. -/
structure WindowedHistogram where
  idx : ℤ
  h : List Histogram
  m : Histogram
  current : ℕ
  current_lt : current < h.length

namespace WindowedHistogram

variable (w : WindowedHistogram)

theorem length_pos : 0 < w.h.length :=
  Nat.lt_of_le_of_lt (Nat.zero_le _) w.current_lt

/-- The section `Rotate` moves to: `w.idx % len(w.h)` after the increment. -/
def next : ℕ :=
  ((w.idx + 1) % w.h.length).toNat

theorem next_eq_slot : w.next = RingBuffer.slot (w.idx + 1) w.h.length :=
  rfl

theorem next_lt : w.next < w.h.length := by
  have pos := w.length_pos
  have below := Int.emod_lt_of_pos (w.idx + 1) (Int.ofNat_lt.mpr pos)
  have nonneg := Int.emod_nonneg (w.idx + 1) (Int.ofNat_ne_zero.mpr (Nat.pos_iff_ne_zero.mp pos))
  unfold next
  omega

/-- `w.Rotate()`: `idx` moves on, and the section it now points to is reset and becomes the
current one. -/
def rotate : WindowedHistogram where
  idx := w.idx + 1
  h := w.h.modify w.next Histogram.reset
  m := w.m
  current := w.next
  current_lt := by rw [List.length_modify]; exact w.next_lt

@[simp]
theorem rotate_idx : w.rotate.idx = w.idx + 1 :=
  rfl

@[simp]
theorem rotate_h : w.rotate.h = w.h.modify w.next Histogram.reset :=
  rfl

@[simp]
theorem rotate_m : w.rotate.m = w.m :=
  rfl

@[simp]
theorem rotate_current : w.rotate.current = w.next :=
  rfl

/-- `w.Merge()`: `m` is reset and every section is merged into it, the number dropped
ignored. -/
def merge : WindowedHistogram :=
  { w with m := w.h.foldl (fun m hist => (m.merge hist).1) w.m.reset }

@[simp]
theorem merge_idx : w.merge.idx = w.idx :=
  rfl

@[simp]
theorem merge_h : w.merge.h = w.h :=
  rfl

@[simp]
theorem merge_m : w.merge.m = w.h.foldl (fun m hist => (m.merge hist).1) w.m.reset :=
  rfl

@[simp]
theorem merge_current : w.merge.current = w.current :=
  rfl

/-- The current section, `*w.Current`. -/
def currentSection : Histogram :=
  w.h.get ⟨w.current, w.current_lt⟩

/-- `w.Current.RecordValue(v)`. -/
def recordValue (v : ℤ) : Except Error WindowedHistogram :=
  (w.currentSection.recordValue v).map fun recorded =>
    { w with
      h := w.h.set w.current recorded
      current_lt := by rw [List.length_set]; exact w.current_lt }

end WindowedHistogram

/-- The panic of `Rotate` on a window of no section: `w.idx % len(w.h)` divides by `0`. -/
def errDivideByZero : Error :=
  ⟨utf8 "runtime error: integer divide by zero"⟩

/-- `NewWindowed(n, minValue, maxValue, sigfigs)`: `m` and the `n` sections are each a `New`
histogram, and a first `Rotate` takes `idx` from `-1` to `0`.  `Current` is nil until that
`Rotate`; the model points it at section `0`, which the `Rotate` replaces.  Every call of `New`
has the same arguments, so they all return the same histogram, panic or never return. -/
def newWindowed (n : ℕ) (minValue maxValue sigfigs : ℤ) : Option (Except Error WindowedHistogram) :=
  (new minValue maxValue sigfigs).map fun created => created.bind fun hist =>
    if empty : n = 0 then .error errDivideByZero
    else
      .ok (WindowedHistogram.rotate
        { idx := -1
          h := List.replicate n hist
          m := hist
          current := 0
          current_lt := by rw [List.length_replicate]; omega })

/-! ## What the sections hold -/

namespace WindowedHistogram

/-- The window holds `sections`: `m` and every section have the layout `L`, and section `i` holds
the values `sections[i]`. -/
structure Holds (w : WindowedHistogram) (L : Layout) (sections : List (List ℕ)) : Prop where
  sections_holds : List.Forall₂ (fun hist xs => hist.toLayout = L ∧ hist.Represents xs) w.h sections
  layout_m : w.m.toLayout = L

variable {w : WindowedHistogram} {L : Layout} {sections : List (List ℕ)}

theorem Holds.length_eq (holds : w.Holds L sections) : w.h.length = sections.length :=
  holds.sections_holds.length_eq

theorem Holds.get (holds : w.Holds L sections) {i : ℕ} (lt : i < w.h.length) :
    (w.h.get ⟨i, lt⟩).toLayout = L ∧
      (w.h.get ⟨i, lt⟩).Represents (sections.get ⟨i, holds.length_eq ▸ lt⟩) :=
  (List.forall₂_iff_get.mp holds.sections_holds).2 i lt _

/-- A rotation empties the section it moves to. -/
theorem Holds.rotate (holds : w.Holds L sections) : w.rotate.Holds L (sections.set w.next []) := by
  refine ⟨List.forall₂_iff_get.mpr ⟨by simp [holds.length_eq], fun i inRotated inSet => ?_⟩,
    holds.layout_m⟩
  have inside : i < w.h.length := by simpa using inRotated
  obtain ⟨layout, represents⟩ := holds.get inside
  simp only [List.get_eq_getElem] at layout represents ⊢
  by_cases moved : w.next = i
  · subst moved
    simp only [rotate_h, List.getElem_modify, List.getElem_set]
    obtain ⟨empty, sameLayout⟩ := (w.h.get ⟨w.next, inside⟩).reset_represents
    simp only [List.get_eq_getElem] at empty sameLayout
    exact ⟨sameLayout.trans layout, empty⟩
  · simp only [rotate_h, List.getElem_modify, List.getElem_set, if_neg moved]
    exact ⟨layout, represents⟩


/-- Recording a value in range adds it to the values of the current section. -/
theorem Holds.recordValue (holds : w.Holds L sections) {v : ℕ}
    (inside : L.indexOf v < L.countsLen) :
    ∃ recorded, w.recordValue v = .ok recorded ∧ recorded.idx = w.idx ∧
      recorded.current = w.current ∧ recorded.Holds L (sections.modify w.current (v :: ·)) := by
  obtain ⟨layout, represents⟩ := holds.get w.current_lt
  have insideCurrent : w.currentSection.indexOf v < w.currentSection.countsLen := by
    rw [currentSection, layout]
    exact inside
  obtain ⟨recorded, ok, recordedLayout, recordedHolds⟩ := represents.recordValue insideCurrent
  refine ⟨⟨w.idx, w.h.set w.current recorded, w.m, w.current, by simpa using w.current_lt⟩,
    by rw [WindowedHistogram.recordValue, currentSection, ok]; rfl, rfl, rfl, ?_, holds.layout_m⟩
  refine List.forall₂_iff_get.mpr ⟨by simp [holds.length_eq], fun i inSet inModified => ?_⟩
  have inside' : i < w.h.length := by simpa using inSet
  obtain ⟨layout', represents'⟩ := holds.get inside'
  simp only [List.get_eq_getElem] at layout' represents' recordedHolds ⊢
  by_cases here : w.current = i
  · subst here
    simp only [List.getElem_set, List.getElem_modify]
    exact ⟨recordedLayout.trans layout, recordedHolds⟩
  · simp only [List.getElem_set, List.getElem_modify, if_neg here]
    exact ⟨layout', represents'⟩

/-- `Current.RecordValue` accepts exactly the values from `0` up to the top of the layout. -/
theorem Holds.recordValue_ok_iff (holds : w.Holds L sections) (v : ℤ) :
    (∃ recorded, w.recordValue v = .ok recorded) ↔
      0 ≤ v ∧ v < 2 ^ (L.maskBits + L.bucketCount - 1) := by
  obtain ⟨layout, -⟩ := holds.get w.current_lt
  have accepted := w.currentSection.recordValue_ok_iff v
  rw [currentSection, layout] at accepted
  rw [← accepted, WindowedHistogram.recordValue, currentSection]
  cases (w.h.get ⟨w.current, w.current_lt⟩).recordValue v with
  | error e => simp [Except.map]
  | ok recorded => simp [Except.map]

/-- Merging sections of one layout, one after the other, adds their values in order. -/
theorem foldl_merge :
    ∀ {hists : List Histogram} {valueLists : List (List ℕ)},
      List.Forall₂ (fun hist xs => hist.toLayout = L ∧ hist.Represents xs) hists valueLists →
      ∀ {acc : Histogram} {xs : List ℕ}, acc.toLayout = L → acc.Represents xs →
        (hists.foldl (fun m hist => (m.merge hist).1) acc).toLayout = L ∧
          (hists.foldl (fun m hist => (m.merge hist).1) acc).Represents (xs ++ valueLists.flatten)
  | _, _, .nil, _, xs, layout, holds => by simpa using ⟨layout, holds⟩
  | hist :: hists, ys :: valueLists, .cons ⟨histLayout, histHolds⟩ rest, acc, xs, layout, holds => by
      obtain ⟨-, mergedLayout, mergedHolds⟩ := holds.merge histHolds (histLayout.trans layout.symm)
      obtain ⟨finalLayout, finalHolds⟩ :=
        foldl_merge rest (mergedLayout.trans layout) mergedHolds
      rw [List.foldl_cons, List.flatten_cons, ← List.append_assoc]
      exact ⟨finalLayout, finalHolds⟩

/-- A merge leaves the sections as they are and holds in `m` the values of all of them. -/
theorem Holds.merge (holds : w.Holds L sections) :
    w.merge.Holds L sections ∧ w.merge.m.Represents sections.flatten := by
  obtain ⟨empty, resetLayout⟩ := w.m.reset_represents
  obtain ⟨layout, merged⟩ :=
    foldl_merge holds.sections_holds (resetLayout.trans holds.layout_m) empty
  exact ⟨⟨holds.sections_holds, by simpa using layout⟩, by simpa using merged⟩

end WindowedHistogram

/-- What `NewWindowed` returns when it returns: `n` copies of `New`'s histogram, rotated once. -/
theorem newWindowed_eq_ok {n : ℕ} {minValue maxValue sigfigs : ℤ} {w : WindowedHistogram}
    (created : newWindowed n minValue maxValue sigfigs = some (.ok w)) :
    ∃ hist, new minValue maxValue sigfigs = some (.ok hist) ∧ ∃ nonEmpty : 0 < n,
      w = WindowedHistogram.rotate
        ⟨-1, List.replicate n hist, hist, 0, by rw [List.length_replicate]; exact nonEmpty⟩ := by
  unfold newWindowed at created
  obtain ⟨result, made, built⟩ := Option.map_eq_some_iff.mp created
  cases result with
  | error e => cases built
  | ok hist =>
      simp only [Except.bind] at built
      split at built
      · cases built
      · rename_i nonEmpty
        cases built
        exact ⟨hist, made, Nat.pos_of_ne_zero nonEmpty, rfl⟩

/-- `NewWindowed` starts with `idx` at `0`, the current section `0`, and `n` empty sections of
one layout. -/
theorem newWindowed_holds {n : ℕ} {minValue maxValue sigfigs : ℤ} {w : WindowedHistogram}
    (created : newWindowed n minValue maxValue sigfigs = some (.ok w)) :
    ∃ L, w.Holds L (List.replicate n []) ∧ w.idx = 0 ∧ w.current = 0 ∧ w.h.length = n := by
  obtain ⟨hist, made, nonEmpty, rfl⟩ := newWindowed_eq_ok created
  have empty := new_represents made
  -- before its `Rotate`, every section is the empty histogram of `New`
  have before : WindowedHistogram.Holds
      ⟨-1, List.replicate n hist, hist, 0, by rw [List.length_replicate]; exact nonEmpty⟩
      hist.toLayout (List.replicate n []) := by
    refine ⟨?_, rfl⟩
    rw [List.forall₂_iff_get]
    refine ⟨by simp, fun i _ _ => ?_⟩
    simpa using empty
  have first : WindowedHistogram.next
      ⟨-1, List.replicate n hist, hist, 0, by rw [List.length_replicate]; exact nonEmpty⟩ = 0 := by
    simp [WindowedHistogram.next]
  refine ⟨hist.toLayout, ?_, by simp, by simp [first], by simp⟩
  have rotated := before.rotate
  rw [first, List.set_replicate_self] at rotated
  exact rotated

/-! ## Runs of a window -/

/-- What happens to a window: a value recorded into the current section, a rotation, a merge. -/
inductive WindowEvent where
  | record (v : ℤ)
  | rotate
  | merge

namespace WindowedHistogram

/-- One event on the window.  A value `RecordValue` refuses leaves the window as it was. -/
def step (w : WindowedHistogram) : WindowEvent → WindowedHistogram
  | .record v =>
    match w.recordValue v with
    | .ok recorded => recorded
    | .error _ => w
  | .rotate => w.rotate
  | .merge => w.merge

variable {w : WindowedHistogram} {v : ℤ}

theorem step_record_of_ok {recorded : WindowedHistogram} (ok : w.recordValue v = .ok recorded) :
    w.step (.record v) = recorded := by
  simp only [step, ok]

theorem step_record_of_error {err : Error} (failed : w.recordValue v = .error err) :
    w.step (.record v) = w := by
  simp only [step, failed]

/-- What `Current.RecordValue` changes when it succeeds: the current section, and nothing
else. -/
theorem recordValue_eq_ok {recorded : WindowedHistogram} (ok : w.recordValue v = .ok recorded) :
    ∃ hist, w.currentSection.recordValue v = .ok hist ∧ recorded.idx = w.idx ∧
      recorded.h = w.h.set w.current hist ∧ recorded.m = w.m ∧ recorded.current = w.current := by
  unfold WindowedHistogram.recordValue at ok
  cases found : w.currentSection.recordValue v with
  | error e =>
      rw [found] at ok
      cases ok
  | ok hist =>
      rw [found] at ok
      cases ok
      exact ⟨hist, rfl, rfl, rfl, rfl, rfl⟩

end WindowedHistogram

/-- What a window is for: the values accepted in each rotation period, the newest period first.
A value is accepted when it lies in `[0, limit)`. -/
def periodsStep (limit : ℤ) : List (List ℕ) → WindowEvent → List (List ℕ)
  | periods, .record v =>
    if 0 ≤ v ∧ v < limit then
      match periods with
      | [] => [[v.toNat]]
      | newest :: older => (v.toNat :: newest) :: older
    else periods
  | periods, .rotate => [] :: periods
  | periods, .merge => periods

namespace WindowedHistogram

open RingBuffer

/-- The window tracks `periods` in the layout `L`: its sections hold the periods by age, and the
current section is the one its counter points at. -/
structure Tracks (w : WindowedHistogram) (L : Layout) (periods : List (List ℕ)) : Prop where
  holds : ∃ sections, w.Holds L sections ∧ Ages w.idx sections periods []
  idx_nonneg : 0 ≤ w.idx
  current_eq : w.current = slot w.idx w.h.length
  periods_ne_nil : periods ≠ []

variable {w : WindowedHistogram} {L : Layout} {periods : List (List ℕ)}

/-- A merge holds exactly the values of the last `n` periods. -/
theorem Tracks.merge (tracks : w.Tracks L periods) :
    w.merge.m.Represents (periods.take w.h.length).flatten := by
  obtain ⟨sections, holds, ages⟩ := tracks.holds
  have pos := w.length_pos
  rw [holds.length_eq] at pos ⊢
  have perm := (ages.perm pos).flatten
  rw [flatten_map_getD_range] at perm
  exact (holds.merge).2.perm perm

/-- Every event keeps a window tracking the periods its abstract step makes. -/
theorem Tracks.step (tracks : w.Tracks L periods) (e : WindowEvent) :
    (w.step e).Tracks L (periodsStep (2 ^ (L.maskBits + L.bucketCount - 1)) periods e) := by
  obtain ⟨sections, holds, ages⟩ := tracks.holds
  have pos : 0 < sections.length := holds.length_eq ▸ w.length_pos
  cases e with
  | record v =>
      by_cases accepted : 0 ≤ v ∧ v < 2 ^ (L.maskBits + L.bucketCount - 1)
      · obtain ⟨n, rfl⟩ := Int.eq_ofNat_of_zero_le accepted.1
        have inside : L.indexOf n < L.countsLen :=
          (L.indexOf_lt_countsLen_iff n).mpr (by exact_mod_cast accepted.2)
        obtain ⟨recorded, ok, sameIdx, sameCurrent, recordedHolds⟩ := holds.recordValue inside
        have stepped : w.step (.record n) = recorded := step_record_of_ok ok
        obtain ⟨newest, older, rfl⟩ := List.exists_cons_of_ne_nil tracks.periods_ne_nil
        have modified := ages.modifyCurrent pos (n :: ·)
        have sameLength : recorded.h.length = w.h.length := by
          rw [recordedHolds.length_eq, List.length_modify, holds.length_eq]
        rw [stepped]
        simp only [periodsStep, if_pos accepted]
        refine ⟨⟨_, recordedHolds, ?_⟩, by rw [sameIdx]; exact tracks.idx_nonneg, ?_, by simp⟩
        · rw [sameIdx, tracks.current_eq, holds.length_eq]
          simpa using modified
        · rw [sameCurrent, sameIdx, sameLength]
          exact tracks.current_eq
      · have refused : ¬ ∃ recorded, w.recordValue v = .ok recorded :=
          fun ok => accepted ((holds.recordValue_ok_iff v).mp ok)
        have stepped : w.step (.record v) = w := by
          cases found : w.recordValue v with
          | error err => exact step_record_of_error found
          | ok recorded => exact absurd ⟨recorded, found⟩ refused
        rw [stepped]
        simp only [periodsStep, if_neg accepted]
        exact tracks
  | rotate =>
      show w.rotate.Tracks L ([] :: periods)
      refine ⟨⟨sections.set w.next [], holds.rotate, ?_⟩, ?_, ?_, ?_⟩
      · rw [rotate_idx, next_eq_slot, holds.length_eq]
        exact ages.moveOn pos
      · have := tracks.idx_nonneg
        rw [rotate_idx]
        omega
      · rw [rotate_current, rotate_h, rotate_idx, List.length_modify]
        rfl
      · exact List.cons_ne_nil _ _
  | merge =>
      show w.merge.Tracks L periods
      exact ⟨⟨sections, (holds.merge).1, ages⟩, tracks.idx_nonneg, tracks.current_eq,
        tracks.periods_ne_nil⟩

@[simp]
theorem length_step (e : WindowEvent) : (w.step e).h.length = w.h.length := by
  cases e with
  | record v =>
      cases found : w.recordValue v with
      | error err => rw [step_record_of_error found]
      | ok recorded =>
          obtain ⟨hist, -, -, sections, -, -⟩ := recordValue_eq_ok found
          rw [step_record_of_ok found, sections, List.length_set]
  | rotate => exact List.length_modify ..
  | merge => rfl

@[simp]
theorem m_step_record (v : ℤ) : (w.step (.record v)).m = w.m := by
  cases found : w.recordValue v with
  | error err => rw [step_record_of_error found]
  | ok recorded =>
      obtain ⟨hist, -, -, -, sameM, -⟩ := recordValue_eq_ok found
      rw [step_record_of_ok found, sameM]

/-- `Current.RecordValue` fails only with the error of `RecordValues` for the value. -/
theorem eq_tooLarge_of_recordValue {v : ℤ} {err : Error} (failed : w.recordValue v = .error err) :
    err = Histogram.tooLarge v := by
  unfold WindowedHistogram.recordValue at failed
  cases found : w.currentSection.recordValue v with
  | ok recorded =>
      rw [found] at failed
      cases failed
  | error e =>
      rw [found] at failed
      cases failed
      exact w.currentSection.eq_tooLarge_of_recordValues found

/-- The window after the events `events`, the first first. -/
def run (w : WindowedHistogram) (events : List WindowEvent) : WindowedHistogram :=
  events.foldl step w

@[simp]
theorem run_nil : w.run [] = w :=
  rfl

@[simp]
theorem run_cons (e : WindowEvent) (events : List WindowEvent) :
    w.run (e :: events) = (w.step e).run events :=
  rfl

@[simp]
theorem length_run (events : List WindowEvent) : (w.run events).h.length = w.h.length := by
  induction events generalizing w with
  | nil => rfl
  | cons e events ih => rw [run_cons, ih, length_step]

/-- Every run keeps a window tracking the periods the abstract steps make. -/
theorem Tracks.run (tracks : w.Tracks L periods) (events : List WindowEvent) :
    (w.run events).Tracks L
      (events.foldl (periodsStep (2 ^ (L.maskBits + L.bucketCount - 1))) periods) := by
  -- the invariant is carried along the events by `Tracks.step`
  induction events generalizing w periods with
  | nil => exact tracks
  | cons e events ih => exact ih (tracks.step e)

end WindowedHistogram

/-- The merge target of `NewWindowed` is the histogram `New` returns. -/
theorem newWindowed_m {n : ℕ} {minValue maxValue sigfigs : ℤ} {w : WindowedHistogram}
    (created : newWindowed n minValue maxValue sigfigs = some (.ok w)) :
    new minValue maxValue sigfigs = some (.ok w.m) := by
  obtain ⟨hist, made, -, rfl⟩ := newWindowed_eq_ok created
  exact made

/-- `NewWindowed` tracks a single period, with no value in it yet. -/
theorem newWindowed_tracks {n : ℕ} {minValue maxValue sigfigs : ℤ} {w : WindowedHistogram}
    (created : newWindowed n minValue maxValue sigfigs = some (.ok w)) :
    w.Tracks w.m.toLayout [[]] ∧ w.h.length = n := by
  obtain ⟨L, holds, idxZero, currentZero, length⟩ := newWindowed_holds created
  rw [holds.layout_m]
  refine ⟨⟨⟨_, holds, fun i inside => ?_⟩, by rw [idxZero], ?_, List.cons_ne_nil _ _⟩, length⟩
  · -- every section is empty, and so is every period
    have older : ∀ k, ([[]] : List (List ℕ)).getD k [] = [] := fun k => by
      rw [List.getD_eq_getElem?_getD, List.getElem?_getD_singleton_default_eq]
    simp only [older, List.get_eq_getElem, List.getElem_replicate]
  · rw [currentZero, idxZero]
    rfl

/-- After any run from `NewWindowed(n, ..)`, `Merge` holds exactly the values `RecordValue`
accepted in the last `n` rotation periods. -/
theorem newWindowed_merge_periods {n : ℕ} {minValue maxValue sigfigs : ℤ} {w : WindowedHistogram}
    (created : newWindowed n minValue maxValue sigfigs = some (.ok w)) (events : List WindowEvent) :
    ((w.run events).merge).m.Represents
      ((events.foldl (periodsStep (2 ^ (w.m.maskBits + w.m.bucketCount - 1))) [[]]).take n).flatten := by
  obtain ⟨tracks, length⟩ := newWindowed_tracks created
  have merged := (tracks.run events).merge
  rwa [WindowedHistogram.length_run, length] at merged

theorem newWindowed_merge_periods_two :
    ∃ w, newWindowed 2 1 2048 3 = some (.ok w) ∧
      ((w.run [.record 5, .rotate, .record 7, .rotate, .record 9]).merge).m.Represents
        (([WindowEvent.record 5, .rotate, .record 7, .rotate, .record 9].foldl
          (periodsStep (2 ^ (w.m.maskBits + w.m.bucketCount - 1))) [[]]).take 2).flatten := by
  obtain ⟨buckets, made⟩ := @new_of_loop_some 1 2048 3 ⟨by decide, by decide⟩ 1 (by decide)
  have created : ∃ w, newWindowed 2 1 2048 3 = some (.ok w) := by
    rw [newWindowed, made]
    exact ⟨_, rfl⟩
  obtain ⟨w, created⟩ := created
  exact ⟨w, created, newWindowed_merge_periods created _⟩

end JsonProxy.Hdr
