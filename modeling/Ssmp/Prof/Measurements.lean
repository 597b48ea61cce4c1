import Mathlib

/-!
# Prof.Measurements — the profiler of `include/measurements.h`

`PF_START` takes the time at a position, and `PF_STOP` adds what has passed since then to a sum, less
`getticks_correction`.  The subtraction is unsigned and nothing compares its operands, so that an
interval shorter than the correction makes the sum too large.
-/

namespace Ssmp
namespace Prof

/-! ## The macros -/

/-- `ENTRY_TIMES_SIZE` -/
def entryTimesSize : Nat := 16

instance : NeZero entryTimesSize :=
  ⟨by decide⟩

abbrev Position : Type := Fin entryTimesSize

structure Measurements where
  entryTime : Position → UInt64
  entryTimeValid : Position → Bool
  totalSumTicks : Position → UInt64
  totalSamples : Position → Int64

namespace Measurements

def initial : Measurements where
  entryTime _ := 0
  entryTimeValid _ := false
  totalSumTicks _ := 0
  totalSamples _ := 0

/-- `ENTRY_TIME_POS(position)`, where `getticks()` returns `reading`. -/
def entryTimePos (position : Position) (reading : UInt64) (m : Measurements) : Measurements :=
  { m with
    entryTime := Function.update m.entryTime position reading
    entryTimeValid := Function.update m.entryTimeValid position true }

/-- `EXIT_TIME_POS(position)`, where `getticks()` returns `exitTime`. -/
def exitTimePos (getticksCorrection : UInt64) (position : Position) (exitTime : UInt64)
    (m : Measurements) : Measurements :=
  if m.entryTimeValid position then
    { m with
      entryTimeValid := Function.update m.entryTimeValid position false
      totalSumTicks := Function.update m.totalSumTicks position
        (m.totalSumTicks position + (exitTime - m.entryTime position - getticksCorrection))
      totalSamples := Function.update m.totalSamples position (m.totalSamples position + 1) }
  else m

end Measurements

/-- `PF_START(pos)` and `PF_STOP(pos)`, with what the counter reads. -/
inductive PfEvent where
  | start (pos : Position) (reading : UInt64)
  | stop (pos : Position) (reading : UInt64)
  deriving DecidableEq

namespace PfEvent

def pos : PfEvent → Position
  | start pos _ | stop pos _ => pos

def reading : PfEvent → UInt64
  | start _ reading | stop _ reading => reading

@[simp] theorem pos_start (pos : Position) (reading : UInt64) : (start pos reading).pos = pos := rfl

@[simp] theorem pos_stop (pos : Position) (reading : UInt64) : (stop pos reading).pos = pos := rfl

end PfEvent

def pfStep (getticksCorrection : UInt64) (m : Measurements) : PfEvent → Measurements
  | .start pos reading => m.entryTimePos pos reading
  | .stop pos reading => m.exitTimePos getticksCorrection pos reading

def pfRun (getticksCorrection : UInt64) (events : List PfEvent) : Measurements :=
  events.foldl (pfStep getticksCorrection) Measurements.initial

/-- The counter does not go backwards. -/
def Chronological (events : List PfEvent) : Prop :=
  events.Pairwise fun e e' => e.reading ≤ e'.reading

instance (events : List PfEvent) : Decidable (Chronological events) :=
  inferInstanceAs (Decidable (events.Pairwise fun e e' => e.reading ≤ e'.reading))

/-! ## What there is to report -/

/-- The reading of the latest start of `p`, if no stop of `p` has come since. -/
def latestStart (p : Position) (before : List PfEvent) : Option UInt64 :=
  match before.reverse.find? fun e => e.pos = p with
  | some (.start _ reading) => some reading
  | _ => none

/-- The sample that an event ends: the readings of the start and the stop. -/
def endedSample (p : Position) (before : List PfEvent) : PfEvent → List (UInt64 × UInt64)
  | .start .. => []
  | .stop pos reading =>
      if pos = p then ((latestStart p before).map fun entry => (entry, reading)).toList else []

def samplesAfter (p : Position) (before : List PfEvent) : List PfEvent → List (UInt64 × UInt64)
  | [] => []
  | e :: rest => endedSample p before e ++ samplesAfter p (before ++ [e]) rest

/-- The stops of `p` that follow a start of `p` with no other stop of `p` in between, each with the
latest start before it. -/
def samples (p : Position) (events : List PfEvent) : List (UInt64 × UInt64) :=
  samplesAfter p [] events

/-- The time that has passed in the samples. -/
def elapsed (p : Position) (events : List PfEvent) : Nat :=
  ((samples p events).map fun sample => sample.2.toNat - sample.1.toNat).sum

section Samples

variable {p : Position} {before events : List PfEvent} {e : PfEvent} {reading : UInt64}

theorem latestStart_eq_some_iff :
    latestStart p before = some reading ↔
      ∃ a b, before = a ++ .start p reading :: b ∧ ∀ e ∈ b, e.pos ≠ p := by
  unfold latestStart
  constructor
  · intro h
    split at h
    · rename_i pos reading' hfind
      cases h
      rcases List.find?_eq_some_iff_append.1 hfind with ⟨hpos, b, a, hrev, hb⟩
      have hpos' : pos = p := of_decide_eq_true hpos
      subst hpos'
      refine ⟨a.reverse, b.reverse, ?_, ?_⟩
      · have hbefore := congrArg List.reverse hrev
        simpa using hbefore
      · intro e he
        simpa using hb e (List.mem_reverse.1 he)
    · cases h
  · rintro ⟨a, b, rfl, hb⟩
    have hnone : b.reverse.find? (fun e => decide (e.pos = p)) = none := by
      rw [List.find?_eq_none]
      intro e he
      simpa using hb e (List.mem_reverse.1 he)
    simp [List.find?_append, hnone]

/-- A stop ends a sample if and only if a start of `p` comes before it with no other stop of `p` in
between. -/
theorem isSome_latestStart_iff :
    (latestStart p before).isSome ↔
      ∃ a r b, before = a ++ .start p r :: b ∧ ∀ r', .stop p r' ∉ b := by
  constructor
  · intro h
    rcases Option.isSome_iff_exists.1 h with ⟨r, hr⟩
    rcases latestStart_eq_some_iff.1 hr with ⟨a, b, hbefore, hb⟩
    exact ⟨a, r, b, hbefore, fun r' hmem => hb _ hmem rfl⟩
  · rintro ⟨a, r, b, hbefore, hb⟩
    -- by induction on what comes after the start: a later start takes its place
    subst hbefore
    induction b using List.reverseRecOn with
    | nil =>
        have hsome : latestStart p (a ++ [.start p r]) = some r :=
          latestStart_eq_some_iff.2 ⟨a, [], rfl, by simp⟩
        rw [hsome]
        rfl
    | append_singleton b e ih =>
        have hrest := ih fun r' hmem => hb r' (List.mem_append_left _ hmem)
        by_cases hpos : e.pos = p
        · cases e with
          | stop pos r' =>
              have heq : pos = p := hpos
              subst heq
              exact absurd (List.mem_append_right b (List.mem_singleton.2 rfl)) (hb r')
          | start pos r' =>
              have heq : pos = p := hpos
              subst heq
              have hsome : latestStart pos (a ++ .start pos r :: (b ++ [.start pos r'])) = some r' :=
                latestStart_eq_some_iff.2 ⟨a ++ .start pos r :: b, [], by simp, by simp⟩
              rw [hsome]
              rfl
        · have hsame : latestStart p (a ++ .start p r :: (b ++ [e])) =
              latestStart p (a ++ .start p r :: b) := by
            simp [latestStart, hpos]
          rw [hsame]
          exact hrest

theorem latestStart_concat_start (pos : Position) :
    latestStart p (before ++ [.start pos reading]) =
      if pos = p then some reading else latestStart p before := by
  by_cases h : pos = p <;> simp [latestStart, h]

theorem latestStart_concat_stop (pos : Position) :
    latestStart p (before ++ [.stop pos reading]) =
      if pos = p then none else latestStart p before := by
  by_cases h : pos = p <;> simp [latestStart, h]

theorem endedSample_stop (pos : Position) :
    endedSample p before (.stop pos reading) =
      if pos = p then ((latestStart p before).map fun entry => (entry, reading)).toList else [] :=
  rfl

theorem samplesAfter_concat (p : Position) (before events : List PfEvent) (e : PfEvent) :
    samplesAfter p before (events ++ [e]) =
      samplesAfter p before events ++ endedSample p (before ++ events) e := by
  induction events generalizing before with
  | nil => simp [samplesAfter]
  | cons e' rest ih =>
      rw [List.cons_append, samplesAfter, samplesAfter, ih, List.append_assoc, List.append_assoc]
      rfl

theorem samples_concat (p : Position) (events : List PfEvent) (e : PfEvent) :
    samples p (events ++ [e]) = samples p events ++ endedSample p events e :=
  samplesAfter_concat p [] events e

theorem mem_of_latestStart (h : latestStart p events = some reading) :
    .start p reading ∈ events := by
  rcases latestStart_eq_some_iff.1 h with ⟨a, b, rfl, _⟩
  exact List.mem_append_right a List.mem_cons_self

end Samples

/-! ## What the arrays hold -/

/-- The entries of `p` after `events`. -/
structure Tracks (c : UInt64) (events : List PfEvent) (p : Position) (m : Measurements) : Prop where
  valid : m.entryTimeValid p = (latestStart p events).isSome
  entry : ∀ reading, latestStart p events = some reading → m.entryTime p = reading
  samples : m.totalSamples p = Int64.ofNat (samples p events).length
  /-- The sum and the corrections together are the time that has passed. -/
  ticks : m.totalSumTicks p + UInt64.ofNat (Prof.samples p events).length * c =
    UInt64.ofNat (elapsed p events)

section Runs

variable {c : UInt64} {p : Position} {events : List PfEvent} {m : Measurements} {e : PfEvent}

theorem elapsed_concat_of_ended {entry reading : UInt64}
    (h : endedSample p events e = [(entry, reading)]) :
    elapsed p (events ++ [e]) = elapsed p events + (reading.toNat - entry.toNat) := by
  simp [elapsed, samples_concat, h]

/-- An event that ends no sample of `p`. -/
theorem samples_concat_of_quiet (h : endedSample p events e = []) :
    samples p (events ++ [e]) = samples p events := by
  rw [samples_concat, h, List.append_nil]

theorem elapsed_concat_of_quiet (h : endedSample p events e = []) :
    elapsed p (events ++ [e]) = elapsed p events := by
  rw [elapsed, elapsed, samples_concat_of_quiet h]

theorem Tracks.start (h : Tracks c events p m) (pos : Position) (reading : UInt64) :
    Tracks c (events ++ [.start pos reading]) p (m.entryTimePos pos reading) := by
  have hquiet : endedSample p events (.start pos reading) = [] := rfl
  refine ⟨?_, ?_, ?_, ?_⟩
  · rw [latestStart_concat_start]
    by_cases hpos : pos = p
    · simp [Measurements.entryTimePos, hpos]
    · simpa [Measurements.entryTimePos, hpos, Ne.symm hpos] using h.valid
  · intro r hr
    rw [latestStart_concat_start] at hr
    by_cases hpos : pos = p
    · simp only [hpos, if_true, Option.some.injEq] at hr
      simp [Measurements.entryTimePos, hpos, hr]
    · rw [if_neg hpos] at hr
      simpa [Measurements.entryTimePos, Ne.symm hpos] using h.entry r hr
  · rw [samples_concat_of_quiet hquiet]
    exact h.samples
  · rw [samples_concat_of_quiet hquiet, elapsed_concat_of_quiet hquiet]
    exact h.ticks

/-- A stop that changes nothing at `p`. -/
theorem Tracks.quietStop {pos : Position} {reading : UInt64} (h : Tracks c events p m)
    (hquiet : pos ≠ p ∨ latestStart p events = none) :
    Tracks c (events ++ [.stop pos reading]) p (m.exitTimePos c pos reading) := by
  have hended : endedSample p events (.stop pos reading) = [] := by
    rw [endedSample_stop]
    split
    · rw [hquiet.resolve_left (fun hne => hne ‹_›)]
      rfl
    · rfl
  have hlatest : latestStart p (events ++ [.stop pos reading]) = latestStart p events := by
    rw [latestStart_concat_stop]
    split
    · rw [hquiet.resolve_left (fun hne => hne ‹_›)]
    · rfl
  -- the entries of `p` stay as they are
  have hsame : (m.exitTimePos c pos reading).entryTimeValid p = m.entryTimeValid p ∧
      (m.exitTimePos c pos reading).entryTime p = m.entryTime p ∧
      (m.exitTimePos c pos reading).totalSamples p = m.totalSamples p ∧
      (m.exitTimePos c pos reading).totalSumTicks p = m.totalSumTicks p := by
    by_cases hvalid : m.entryTimeValid pos = true
    · have hne : p ≠ pos := by
        rintro rfl
        rw [h.valid, hquiet.resolve_left (fun hne => hne rfl)] at hvalid
        cases hvalid
      simp [Measurements.exitTimePos, hvalid, hne]
    · simp [Measurements.exitTimePos, hvalid]
  rcases hsame with ⟨hvalid, hentry, hsamples, hticks⟩
  refine ⟨?_, ?_, ?_, ?_⟩
  · rw [hvalid, hlatest]
    exact h.valid
  · intro r hr
    rw [hlatest] at hr
    rw [hentry]
    exact h.entry r hr
  · rw [hsamples, samples_concat_of_quiet hended]
    exact h.samples
  · rw [hticks, samples_concat_of_quiet hended, elapsed_concat_of_quiet hended]
    exact h.ticks

theorem ofNat_sub_toNat {a b : UInt64} (h : a ≤ b) :
    UInt64.ofNat (b.toNat - a.toNat) = b - a := by
  refine UInt64.toNat_inj.1 ?_
  rw [UInt64.toNat_sub_of_le _ _ h, UInt64.toNat_ofNat']
  have := b.toNat_lt
  exact Nat.mod_eq_of_lt (by omega)

/-- A stop that ends a sample. -/
theorem Tracks.endedStop {entry reading : UInt64} (h : Tracks c events p m)
    (hlatest : latestStart p events = some entry) (hle : entry ≤ reading) :
    Tracks c (events ++ [.stop p reading]) p (m.exitTimePos c p reading) := by
  have hended : endedSample p events (.stop p reading) = [(entry, reading)] := by
    simp [endedSample, hlatest]
  have hvalid : m.entryTimeValid p = true := by rw [h.valid, hlatest]; rfl
  have hentry : m.entryTime p = entry := h.entry entry hlatest
  have hlength : (Prof.samples p (events ++ [.stop p reading])).length =
      (Prof.samples p events).length + 1 := by
    rw [samples_concat, hended, List.length_append, List.length_singleton]
  refine ⟨?_, ?_, ?_, ?_⟩
  · rw [latestStart_concat_stop, if_pos rfl]
    simp [Measurements.exitTimePos, hvalid]
  · intro r hr
    rw [latestStart_concat_stop, if_pos rfl] at hr
    cases hr
  · rw [hlength, Int64.ofNat_add, ← h.samples]
    simp [Measurements.exitTimePos, hvalid]
  · have hticks := h.ticks
    rw [hlength, elapsed_concat_of_ended hended, UInt64.ofNat_add, UInt64.ofNat_add,
      ofNat_sub_toNat hle, ← hticks]
    simp only [Measurements.exitTimePos, hvalid, if_true, Function.update_self, hentry]
    grind

/-- One event, with a reading that is not before the earlier ones. -/
theorem Tracks.step (h : Tracks c events p m)
    (hlast : ∀ e' ∈ events, e'.reading ≤ e.reading) :
    Tracks c (events ++ [e]) p (pfStep c m e) := by
  cases e with
  | start pos reading => exact h.start pos reading
  | stop pos reading =>
      by_cases hpos : pos = p
      · subst hpos
        cases hlatest : latestStart pos events with
        | none => exact h.quietStop (Or.inr hlatest)
        | some entry => exact h.endedStop hlatest (hlast _ (mem_of_latestStart hlatest))
      · exact h.quietStop (Or.inl hpos)

theorem chronological_concat :
    Chronological (events ++ [e]) ↔
      Chronological events ∧ ∀ e' ∈ events, e'.reading ≤ e.reading := by
  simp [Chronological, List.pairwise_append]

theorem tracks_pfRun (hchron : Chronological events) (p : Position) :
    Tracks c events p (pfRun c events) := by
  -- by induction on the history, from its end
  induction events using List.reverseRecOn with
  | nil =>
      refine ⟨rfl, ?_, rfl, by simp [pfRun, samples, samplesAfter, elapsed, Measurements.initial]⟩
      intro reading h
      cases h
  | append_singleton events e ih =>
      rcases chronological_concat.1 hchron with ⟨hinit, hlast⟩
      rw [pfRun, List.foldl_append]
      exact (ih hinit).step hlast

/-! ## Samples do not overlap -/

/-- What has passed in the samples ends before a start that is still open. -/
theorem elapsed_le (hchron : Chronological events) {now : Nat}
    (hnow : ∀ e ∈ events, e.reading.toNat ≤ now) :
    elapsed p events ≤ (latestStart p events).elim now UInt64.toNat := by
  induction events using List.reverseRecOn generalizing now with
  | nil => exact Nat.zero_le _
  | append_singleton events e ih =>
      rcases chronological_concat.1 hchron with ⟨hinit, hlast⟩
      have hbefore : elapsed p events ≤ (latestStart p events).elim e.reading.toNat UInt64.toNat :=
        ih hinit fun e' he' => UInt64.le_iff_toNat_le.1 (hlast e' he')
      have hnow' : e.reading.toNat ≤ now :=
        hnow e (List.mem_append_right _ (List.mem_singleton.2 rfl))
      have hrest : elapsed p events ≤ (latestStart p events).elim now UInt64.toNat :=
        ih hinit fun e' he' => hnow e' (List.mem_append_left _ he')
      -- an open start is not behind the last event
      have hopen : elapsed p events ≤ e.reading.toNat := by
        cases hlatest : latestStart p events with
        | none => rwa [hlatest] at hbefore
        | some entry =>
            rw [hlatest] at hbefore
            exact Nat.le_trans hbefore
              (UInt64.le_iff_toNat_le.1 (hlast _ (mem_of_latestStart hlatest)))
      cases e with
      | start pos reading =>
          rw [elapsed_concat_of_quiet rfl, latestStart_concat_start]
          split
          · exact hopen
          · exact hrest
      | stop pos reading =>
          rw [latestStart_concat_stop]
          split
          case isFalse hpos =>
            rw [elapsed_concat_of_quiet (by rw [endedSample_stop, if_neg hpos])]
            exact hrest
          case isTrue hpos =>
            cases hlatest : latestStart p events with
            | none =>
                rw [elapsed_concat_of_quiet (by simp [endedSample, hlatest])]
                exact Nat.le_trans hopen hnow'
            | some entry =>
                have hended : endedSample p events (.stop pos reading) = [(entry, reading)] := by
                  simp [endedSample, hpos, hlatest]
                rw [hlatest] at hbefore
                have hle : entry.toNat ≤ reading.toNat :=
                  UInt64.le_iff_toNat_le.1 (hlast _ (mem_of_latestStart hlatest))
                rw [elapsed_concat_of_ended hended]
                simp only [Option.elim_some, Option.elim_none] at hbefore ⊢
                simp only [PfEvent.reading] at hnow'
                omega

theorem elapsed_lt (hchron : Chronological events) : elapsed p events < 2 ^ 64 := by
  have hle : elapsed p events ≤ (latestStart p events).elim (2 ^ 64 - 1) UInt64.toNat := by
    refine elapsed_le hchron fun e _ => ?_
    have := e.reading.toNat_lt
    omega
  cases hlatest : latestStart p events with
  | none =>
      rw [hlatest, Option.elim_none] at hle
      omega
  | some entry =>
      rw [hlatest, Option.elim_some] at hle
      have := entry.toNat_lt
      omega

/-! ## When the report is right -/

theorem toInt_totalSamples_iff (hchron : Chronological events) :
    ((pfRun c events).totalSamples p).toInt = (samples p events).length ↔
      (samples p events).length < 2 ^ 63 := by
  rw [(tracks_pfRun (c := c) hchron p).samples]
  constructor
  · intro h
    have hlt := Int64.toInt_lt (Int64.ofNat (samples p events).length)
    omega
  · exact Int64.toInt_ofNat_of_lt

/-- The sum exceeds the time that has passed where the corrections do. -/
theorem totalSumTicks_le_iff (hchron : Chronological events) :
    ((pfRun c events).totalSumTicks p).toNat ≤ elapsed p events ↔
      (samples p events).length * c.toNat % 2 ^ 64 ≤ elapsed p events := by
  have hticks := congrArg UInt64.toNat (tracks_pfRun (c := c) hchron p).ticks
  have helapsed := @elapsed_lt p events hchron
  have hsum := ((pfRun c events).totalSumTicks p).toNat_lt
  have hcorr : (samples p events).length % 2 ^ 64 * c.toNat % 2 ^ 64 =
      (samples p events).length * c.toNat % 2 ^ 64 := by
    rw [Nat.mul_mod, Nat.mod_mod, ← Nat.mul_mod]
  rw [UInt64.toNat_add, UInt64.toNat_mul, UInt64.toNat_ofNat', UInt64.toNat_ofNat', hcorr,
    Nat.mod_eq_of_lt helapsed] at hticks
  have hlt := Nat.mod_lt ((samples p events).length * c.toNat) (y := 2 ^ 64) (by decide)
  omega

/-- With readings that do not go backwards, the profiler counts the samples of a position and
reports no more time than has passed in them if and only if their number is a `long long` and the
corrections together, as a 64-bit number, are at most that time. -/
theorem reported_iff (c : UInt64) {events : List PfEvent} (hchron : Chronological events)
    (p : Position) :
    ((pfRun c events).totalSamples p).toInt = (samples p events).length ∧
        ((pfRun c events).totalSumTicks p).toNat ≤ elapsed p events ↔
      (samples p events).length < 2 ^ 63 ∧
        (samples p events).length * c.toNat % 2 ^ 64 ≤ elapsed p events :=
  and_congr (toInt_totalSamples_iff hchron) (totalSumTicks_le_iff hchron)

/-- One interval of 5 ticks, with a start of another position in between. -/
def shortInterval : List PfEvent :=
  [.start 0 100, .start 1 103, .stop 0 105]

theorem reported_iff_short :
    Chronological shortInterval ∧
      (((pfRun 4 shortInterval).totalSamples 0).toInt = (samples 0 shortInterval).length ∧
          ((pfRun 4 shortInterval).totalSumTicks 0).toNat ≤ elapsed 0 shortInterval ↔
        (samples 0 shortInterval).length < 2 ^ 63 ∧
          (samples 0 shortInterval).length * (4 : UInt64).toNat % 2 ^ 64 ≤
            elapsed 0 shortInterval) :=
  ⟨by decide, reported_iff 4 (by decide) 0⟩

/-- Less the correction of 10 ticks, the interval has `2 ^ 64 - 5` ticks. -/
theorem overreported_short :
    Chronological shortInterval ∧ elapsed 0 shortInterval = 5 ∧
      ((pfRun 10 shortInterval).totalSumTicks 0).toNat = 2 ^ 64 - 5 ∧
      ¬ ((pfRun 10 shortInterval).totalSumTicks 0).toNat ≤ elapsed 0 shortInterval := by
  decide

end Runs

end Prof
end Ssmp
