import ClMalloc.Lib.Transition
import ClMalloc.PprofFloats
import ClMalloc.PprofMessage

/-!
# When a sampler keeps to its draws

A `Meter` is what a sampler is for: it counts the bytes since its draw and fires when they
reach it. The sampler counts down in an `i64`, into which it loads the bits of the draw, a
`u64`. A draw that fits leaves the countdown in step with the meter. A larger one is loaded as
a negative countdown, so that the next check fires whatever the size, or overflows.
-/

namespace ClMalloc

open Transition

/-- `i64::MAX`, which is `isize::MAX`. -/
def i64Max : ℕ := 0x7fffffffffffffff

/-- The draws and the bytes since the last one, both unbounded. -/
structure Meter (R : Type*) where
  rng : R
  interval : ℕ
  draw : ℕ
  bytes : ℕ

/-- A sampler and the meter beside it. -/
structure Metered (R : Type*) where
  sampler : Sampler R
  meter : Meter R

section Meter

variable {R : Type*} (fl : Floats R)

/-- Every draw is a positive `u64`. -/
def Floats.DrawsU64 : Prop :=
  ∀ rng mean, 1 ≤ (fl.geometric rng mean).1 ∧ (fl.geometric rng mean).1 < 0x10000000000000000

/-- A meter with its first draw. -/
def Meter.new (seed interval : ℕ) : Meter R :=
  let (draw, rng) := fl.geometric (fl.seedFromU64 seed) interval
  ⟨rng, interval, draw, 0⟩

/-- A meter with its next draw. -/
def Meter.redraw (m : Meter R) : Meter R :=
  let (draw, rng) := fl.geometric m.rng m.interval
  ⟨rng, m.interval, draw, 0⟩

/-- A new draw starts with no bytes. -/
@[simp] theorem Meter.redraw_bytes (m : Meter R) : (m.redraw fl).bytes = 0 := rfl

/-- Count the bytes, and fire and draw again if they reach the draw. -/
def Meter.check (m : Meter R) (size : ℕ) : Meter R × Bool :=
  if m.draw ≤ m.bytes + size then (m.redraw fl, true)
    else ({ m with bytes := m.bytes + size }, false)

/-- One check of a meter. -/
def meterStep (m : Meter R) (size : ℕ) : Option (Meter R) := some (m.check fl size).1

/-- The draw fits an `i64`, and so does the next one if the check takes it. -/
def Meter.Fits (m : Meter R) (size : ℕ) : Prop :=
  m.draw ≤ i64Max ∧ (m.draw ≤ m.bytes + size → (m.redraw fl).draw ≤ i64Max)

/-- Whether the draws fit can be computed. -/
instance (m : Meter R) (size : ℕ) :
    Decidable (m.Fits fl size) := inferInstanceAs (Decidable (_ ∧ (_ → _)))

/-- A new sampler and a new meter take the same draw. -/
def Metered.new (seed interval : ℕ) : Metered R := ⟨.new fl seed interval, .new fl seed interval⟩

/-- One check of both. -/
def meteredStep (s : Metered R) (size : ℕ) : Option (Metered R) :=
  some ⟨(s.sampler.check fl size).1, (s.meter.check fl size).1⟩

/-- The check fires when the bytes reach the draw, does not overflow, and leaves a positive
countdown. -/
structure Metered.Exact (s : Metered R) (size : ℕ) : Prop where
  fires : (s.sampler.check fl size).2 = (s.meter.check fl size).2
  fits : IsI64 (s.sampler.countdown - i64 size)
  positive : 0 < (s.sampler.check fl size).1.countdown

end Meter

section Tracks

variable {R : Type*} {fl : Floats R} {s : Metered R} {size : ℕ}

/-- The draws on exact reals are positive values of a `u64`. -/
theorem exactFloats_drawsU64 (seedFromU64 : ℕ → R) (random : R → ℝ × R) :
    (exactFloats seedFromU64 random).DrawsU64 :=
  fun _ _ => ⟨one_le_geometric _ _, geometric_lt _ _⟩

/-- The countdown is what is missing to the draw. -/
structure Metered.InStep (s : Metered R) : Prop where
  rng : s.sampler.rng = s.meter.rng
  interval : s.sampler.interval = s.meter.interval
  countdown : s.sampler.countdown = s.meter.draw - s.meter.bytes
  missing : s.meter.bytes < s.meter.draw
  fits : s.meter.draw ≤ i64Max

/-- The countdown is a draw that does not fit, loaded as a negative number. -/
structure Metered.Misread (s : Metered R) : Prop where
  countdown : s.sampler.countdown = s.meter.draw - 0x10000000000000000
  bytes : s.meter.bytes = 0
  exceeds : i64Max < s.meter.draw
  draw : s.meter.draw < 0x10000000000000000

/-- A draw that fits is loaded as it is. -/
theorem castSigned_of_le {draw : ℕ} (hfits : draw ≤ i64Max) : castSigned draw = draw := by
  unfold i64Max at hfits
  unfold castSigned
  exact i64_natCast (by omega)

/-- A draw that does not fit is loaded as a negative number. -/
theorem castSigned_of_gt {draw : ℕ} (hexceeds : i64Max < draw) (hlt : draw < 0x10000000000000000) :
    castSigned draw = draw - 0x10000000000000000 := by
  unfold i64Max at hexceeds
  unfold castSigned i64
  omega

/-- A positive draw is loaded as a positive number when it fits. -/
theorem castSigned_pos_iff {draw : ℕ} (hpos : 1 ≤ draw) (hlt : draw < 0x10000000000000000) :
    0 < castSigned draw ↔ draw ≤ i64Max := by
  by_cases hfits : draw ≤ i64Max
  · rw [castSigned_of_le hfits]
    exact iff_of_true (by omega) hfits
  · rw [castSigned_of_gt (not_le.mp hfits) hlt]
    exact iff_of_false (by omega) hfits

/-- A new sampler is in step with its meter, or has misread the draw. -/
theorem Metered.new_cases (hdraws : fl.DrawsU64) (seed interval : ℕ) :
    (Metered.new fl seed interval).InStep ∨ (Metered.new fl seed interval).Misread := by
  obtain ⟨hpos, hlt⟩ := hdraws (fl.seedFromU64 seed) interval
  by_cases hfits : (fl.geometric (fl.seedFromU64 seed) interval).1 ≤ i64Max
  · refine .inl ⟨rfl, rfl, ?_, hpos, hfits⟩
    exact (castSigned_of_le hfits).trans (by rw [Metered.new, Meter.new, Nat.cast_zero, sub_zero])
  · exact .inr ⟨castSigned_of_gt (not_le.mp hfits) hlt, rfl, not_le.mp hfits, hlt⟩

/-- A new sampler whose draw does not fit has misread it. -/
theorem Metered.new_misread (hdraws : fl.DrawsU64) {seed interval : ℕ}
    (hexceeds : i64Max < (Metered.new fl seed interval).meter.draw) :
    (Metered.new fl seed interval).Misread :=
  (new_cases hdraws seed interval).resolve_left fun hstep => absurd hstep.fits (not_le.mpr hexceeds)

/-- A countdown in step is taken down without overflow. -/
theorem Metered.InStep.left (h : s.InStep) (hsize : size ≤ i64Max) :
    IsI64 (s.sampler.countdown - i64 size) ∧
      i64 (s.sampler.countdown - i64 size) = s.meter.draw - (s.meter.bytes + size : ℕ) := by
  have hmissing := h.missing
  have hfits := h.fits
  rw [h.countdown]
  unfold IsI64 i64
  unfold i64Max at hsize hfits
  omega

/-- A check that the bytes reach the draw at takes the next draw, with the meter. -/
theorem Metered.InStep.check_fires (fl : Floats R) (h : s.InStep) (hsize : size ≤ i64Max)
    (hfire : s.meter.draw ≤ s.meter.bytes + size) :
    s.sampler.check fl size =
        (⟨castSigned (s.meter.redraw fl).draw, (s.meter.redraw fl).rng, s.sampler.interval⟩, true) ∧
      s.meter.check fl size = (s.meter.redraw fl, true) := by
  have hcount := (h.left hsize).2
  have hnonpos : i64 (s.sampler.countdown - i64 size) ≤ 0 := by omega
  constructor
  · simp only [Sampler.check, if_pos hnonpos, Sampler.reset, Meter.redraw, h.rng, h.interval]
  · rw [Meter.check, if_pos hfire]

/-- A check that the bytes do not reach the draw at counts them, with the meter. -/
theorem Metered.InStep.check_quiet (fl : Floats R) (h : s.InStep) (hsize : size ≤ i64Max)
    (hquiet : ¬s.meter.draw ≤ s.meter.bytes + size) :
    s.sampler.check fl size =
        ({ s.sampler with countdown := s.meter.draw - (s.meter.bytes + size : ℕ) }, false) ∧
      s.meter.check fl size = ({ s.meter with bytes := s.meter.bytes + size }, false) := by
  have hcount := (h.left hsize).2
  have hpos : ¬i64 (s.sampler.countdown - i64 size) ≤ 0 := by omega
  constructor
  · rw [Sampler.check, if_neg hpos, hcount]
  · rw [Meter.check, if_neg hquiet]

/-- A check in step is exact when the draws fit. -/
theorem Metered.InStep.exact_iff (hdraws : fl.DrawsU64) (h : s.InStep) (hsize : size ≤ i64Max) :
    s.Exact fl size ↔ s.meter.Fits fl size := by
  have hleft := (h.left hsize).1
  by_cases hfire : s.meter.draw ≤ s.meter.bytes + size
  · obtain ⟨hsampler, hmeter⟩ := h.check_fires fl hsize hfire
    obtain ⟨hpos, hlt⟩ := hdraws s.meter.rng s.meter.interval
    have hloaded : 0 < castSigned (s.meter.redraw fl).draw ↔ (s.meter.redraw fl).draw ≤ i64Max :=
      castSigned_pos_iff hpos hlt
    constructor
    · intro hexact
      have hpositive := hexact.positive
      rw [hsampler] at hpositive
      exact ⟨h.fits, fun _ => hloaded.mp hpositive⟩
    · intro hfits
      refine ⟨by rw [hsampler, hmeter], hleft, ?_⟩
      rw [hsampler]
      exact hloaded.mpr (hfits.2 hfire)
  · obtain ⟨hsampler, hmeter⟩ := h.check_quiet fl hsize hfire
    refine iff_of_true ⟨by rw [hsampler, hmeter], hleft, ?_⟩ ⟨h.fits,
      fun hreach => absurd hreach hfire⟩
    rw [hsampler]
    dsimp only
    omega

/-- Sampler and meter are in step when their parts are; the countdown is a variable, so that the
cast or difference it stands for is not unfolded. -/
theorem Metered.inStep_mk {countdown : ℤ} {rng : R} {interval : ℕ} {m : Meter R}
    (hrng : rng = m.rng) (hinterval : interval = m.interval)
    (hcountdown : countdown = m.draw - m.bytes) (hmissing : m.bytes < m.draw)
    (hfits : m.draw ≤ i64Max) : Metered.InStep ⟨⟨countdown, rng, interval⟩, m⟩ :=
  ⟨hrng, hinterval, hcountdown, hmissing, hfits⟩

/-- A draw that fits is loaded in step. -/
theorem Metered.InStep.redraw (hdraws : fl.DrawsU64) (h : s.InStep)
    (hnext : (s.meter.redraw fl).draw ≤ i64Max) :
    Metered.InStep ⟨⟨castSigned (s.meter.redraw fl).draw, (s.meter.redraw fl).rng,
      s.sampler.interval⟩, s.meter.redraw fl⟩ := by
  have hinterval : s.sampler.interval = (s.meter.redraw fl).interval := h.interval
  have hmissing : (s.meter.redraw fl).bytes < (s.meter.redraw fl).draw :=
    (hdraws s.meter.rng s.meter.interval).1
  have hcountdown : castSigned (s.meter.redraw fl).draw =
      (s.meter.redraw fl).draw - ((s.meter.redraw fl).bytes : ℤ) := by
    rw [castSigned_of_le hnext, Meter.redraw_bytes, Nat.cast_zero, sub_zero]
  exact inStep_mk rfl hinterval hcountdown hmissing hnext

/-- Bytes that do not reach the draw are counted in step. -/
theorem Metered.InStep.count (h : s.InStep) (hquiet : ¬s.meter.draw ≤ s.meter.bytes + size) :
    Metered.InStep ⟨{ s.sampler with countdown := s.meter.draw - (s.meter.bytes + size : ℕ) },
      { s.meter with bytes := s.meter.bytes + size }⟩ :=
  inStep_mk h.rng h.interval rfl (not_le.mp hquiet) h.fits

/-- A check in step with draws that fit leaves sampler and meter in step. -/
theorem Metered.InStep.check (hdraws : fl.DrawsU64) (h : s.InStep) (hsize : size ≤ i64Max)
    (hfits : s.meter.Fits fl size) :
    Metered.InStep ⟨(s.sampler.check fl size).1, (s.meter.check fl size).1⟩ := by
  by_cases hfire : s.meter.draw ≤ s.meter.bytes + size
  · obtain ⟨hsampler, hmeter⟩ := h.check_fires fl hsize hfire
    rw [hsampler, hmeter]
    exact h.redraw hdraws (hfits.2 hfire)
  · obtain ⟨hsampler, hmeter⟩ := h.check_quiet fl hsize hfire
    rw [hsampler, hmeter]
    exact h.count hfire

/-- A misread draw fires at the next check, or overflows; the bytes do not reach it. -/
theorem Metered.Misread.not_exact (h : s.Misread) (hsize : size ≤ i64Max) : ¬s.Exact fl size := by
  intro hexact
  have hcountdown := h.countdown
  have hexceeds := h.exceeds
  have hdraw := h.draw
  have hleft := hexact.fits
  have hbytes := h.bytes
  unfold i64Max at hsize hexceeds
  have hnonpos : i64 (s.sampler.countdown - i64 size) ≤ 0 := by
    unfold IsI64 at hleft
    unfold i64 at hleft ⊢
    omega
  have hfires := hexact.fires
  rw [Sampler.check, if_pos hnonpos, Meter.check, if_neg (by omega)] at hfires
  cases hfires

/-- A sampler in step, or with a draw misread, keeps to its draws over the sizes for which the draws
fit. -/
theorem Metered.meets_exact_iff (hdraws : fl.DrawsU64) (hs : s.InStep ∨ s.Misread) {sizes : List ℕ}
    (hsizes : ∀ size ∈ sizes, size ≤ i64Max) :
    Meets (meteredStep fl) (Metered.Exact fl) s sizes ↔
      Meets (meterStep fl) (Meter.Fits fl) s.meter sizes := by
  apply meets_iff_of_project (f := Metered.meter) (I := fun s => s.InStep ∨ s.Misread)
    (P := fun size => size ≤ i64Max) (fun _ _ => rfl) _ _ hs hsizes
  · intro s size hs hsize
    rcases hs with hstep | hmisread
    · exact hstep.exact_iff hdraws hsize
    · exact iff_of_false (hmisread.not_exact hsize) fun hfits =>
        absurd hfits.1 (not_le.mpr hmisread.exceeds)
  · intro s size s' hs hsize hexact hs'
    obtain rfl := Option.some.inj hs'
    rcases hs with hstep | hmisread
    · exact .inl (hstep.check hdraws hsize ((hstep.exact_iff hdraws hsize).mp hexact))
    · exact absurd hexact (hmisread.not_exact hsize)

/-- A misread draw fires at the first check that does not overflow. -/
theorem Metered.Misread.fires (h : s.Misread) (hsize : size ≤ i64Max)
    (hfits : i64Max + size < s.meter.draw) : (s.sampler.check fl size).2 = true := by
  have hcountdown := h.countdown
  have hdraw := h.draw
  unfold i64Max at hsize hfits
  have hnonpos : i64 (s.sampler.countdown - i64 size) ≤ 0 := by
    unfold i64
    omega
  rw [Sampler.check, if_pos hnonpos]

/-- A sampler keeps to its draws over the sizes checked exactly when the draws it takes on the way
fit an `i64`. -/
theorem sampler_exact_iff (hdraws : fl.DrawsU64) (seed interval : ℕ) (sizes : List ℕ)
    (hsizes : ∀ size ∈ sizes, size ≤ i64Max) :
    Meets (meteredStep fl) (Metered.Exact fl) (.new fl seed interval) sizes ↔
      Meets (meterStep fl) (Meter.Fits fl) (.new fl seed interval) sizes :=
  Metered.meets_exact_iff hdraws (Metered.new_cases hdraws seed interval) hsizes

end Tracks

/-- A generator that makes every draw one hundred. -/
def hundredDraws : Floats Unit := ⟨fun _ => (), fun rng _ => (100, rng), coarseWeight⟩

/-- One hundred is a positive `u64`. -/
theorem hundredDraws_drawsU64 : hundredDraws.DrawsU64 := by
  intro rng mean
  change 1 ≤ 100 ∧ 100 < 0x10000000000000000
  decide

/-- Draws of one hundred are kept to over four checks, two of which fire. -/
theorem sampler_exact_hundred :
    Meets (meteredStep hundredDraws) (Metered.Exact hundredDraws)
      (.new hundredDraws 0 defaultSampleInterval)
      [64, 48, 16, 1000] :=
  (sampler_exact_iff hundredDraws_drawsU64 0 defaultSampleInterval [64, 48, 16,
    1000] (by decide)).mpr (by decide)

/-- The profiler's floating point with a generator that always returns the same number. -/
noncomputable def repeatFloats (u : ℝ) : Floats Unit :=
  exactFloats (fun _ => ()) fun rng => (u, rng)

/-- At the largest interval a draw from one half is over `i64::MAX` by more than sixteen. -/
theorem geometric_half : i64Max + 16 < geometric (1 / 2) 0xffffffffffffffff := by
  have hlog : -Real.log (1 / 2) = Real.log 2 := by rw [one_div, Real.log_inv, neg_neg]
  have htwo := Real.log_two_gt_d9
  apply le_geometric (n := i64Max + 17) (by norm_num) _ (by decide)
  rw [neg_mul, ← mul_neg, hlog, i64Max]
  push_cast
  linarith

/-- At the largest interval a sampler whose generator returns one half fires after sixteen bytes,
far from its draw. -/
theorem sampler_fires_early :
    ∃ fl, fl = repeatFloats (1 / 2) ∧ ((Sampler.new fl 0 0xffffffffffffffff).check fl 16).2 = true ∧
      0x8000000000000000 < (Meter.new fl 0 0xffffffffffffffff).draw ∧
      ¬Meets (meteredStep fl) (Metered.Exact fl) (.new fl 0 0xffffffffffffffff) [16] := by
  have hdraw : i64Max + 16 < (Metered.new (repeatFloats (1 / 2)) 0 0xffffffffffffffff).meter.draw :=
    geometric_half
  have hmisread := Metered.new_misread (exactFloats_drawsU64 _ _)
    ((Nat.le_add_right _ _).trans_lt hdraw)
  refine ⟨_, rfl, hmisread.fires (by decide) hdraw, ?_, fun hmeets => ?_⟩
  · apply lt_of_lt_of_le _ hdraw.le
    decide
  · exact hmisread.not_exact (by decide) hmeets.1

/-- Where every draw of the interval fits an `i64`, so do those of a run. -/
theorem Meter.meets_fits {R : Type*} {fl : Floats R} {interval : ℕ}
    (hdraws : ∀ rng, (fl.geometric rng interval).1 ≤ i64Max) (seed : ℕ) (sizes : List ℕ) :
    Meets (meterStep fl) (Meter.Fits fl) (.new fl seed interval) sizes := by
  have hredraw {m : Meter R} (hm : m.interval = interval) : (m.redraw fl).draw ≤ i64Max := by
    change (fl.geometric m.rng m.interval).1 ≤ i64Max
    rw [hm]
    exact hdraws m.rng
  apply meets_of_invariant (I := fun m => m.interval = interval ∧
    m.draw ≤ i64Max) _ _ ⟨rfl, hdraws _⟩
  · intro m size hm
    exact ⟨hm.2, fun _ => hredraw hm.1⟩
  · intro m size m' hm hm'
    obtain rfl := Option.some.inj hm'
    unfold Meter.check
    split
    · exact ⟨hm.1, hredraw hm.1⟩
    · exact hm

/-- At an interval up to `2^53` a sampler keeps to its draws, whatever the generator returns. -/
theorem sampler_exact_of_interval_le {R : Type*} (seedFromU64 : ℕ → R) (random : R → ℝ × R)
    (hrandom : ∀ rng, (random rng).1 ≤ 0 ∨ minPositive ≤ (random rng).1) (seed : ℕ) {interval : ℕ}
    (hinterval : interval ≤ 0x20000000000000) (sizes : List ℕ)
    (hsizes : ∀ size ∈ sizes, size ≤ i64Max) :
    Meets (meteredStep (exactFloats seedFromU64 random))
      (Metered.Exact (exactFloats seedFromU64 random))
      (.new (exactFloats seedFromU64 random) seed interval) sizes := by
  have hdraws := exactFloats_drawsU64 seedFromU64 random
  apply (Metered.meets_exact_iff hdraws (Metered.new_cases hdraws seed interval) hsizes).mpr
  exact Meter.meets_fits (fun rng => geometric_le_of_mean_le (hrandom rng) hinterval) seed sizes

end ClMalloc
