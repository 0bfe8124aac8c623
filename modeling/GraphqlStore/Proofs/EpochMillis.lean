import GraphqlStore.Proofs.Calendar
import GraphqlStore.Scalar.Codec

/-!
Timestamps as milliseconds since 1970. Seconds and nanoseconds are taken apart
and put together by division to the floor, so that instants before 1970 are
rounded the same way as later ones. Timestamps are the instants of the years
from -262143 to 262142, and their milliseconds are well inside the 64-bit range.
-/

set_option autoImplicit false

namespace GraphqlStore

namespace Timestamp

/-! ## Instants as numbers -/

/-- Nanoseconds since the start of 1970. Those of a leap second are counted twice. -/
def elapsed (instant : Timestamp) : Int := instant.seconds * 1000000000 + instant.nanos

theorem isLeap_eq_false_iff {instant : Timestamp} :
    instant.isLeap = false ↔ instant.nanos < 1000000000 := by
  rw [isLeap, decide_eq_false_iff_not, Nat.not_le]

theorem eq_of_parts {first second : Timestamp} (seconds : first.seconds = second.seconds)
    (nanos : first.nanos = second.nanos) : first = second := by
  cases first
  cases second
  cases seconds
  cases nanos
  rfl

private theorem elapsed_injective {first second : Timestamp} (firstOrdinary : first.isLeap = false)
    (secondOrdinary : second.isLeap = false) (same : first.elapsed = second.elapsed) :
    first = second := by
  rw [isLeap_eq_false_iff] at firstOrdinary secondOrdinary
  unfold elapsed at same
  exact eq_of_parts (by omega) (by omega)

theorem year_bounds_iff {seconds : Int} :
    (-262143 ≤ (Date.ofDays (seconds / 86400)).year ∧
        (Date.ofDays (seconds / 86400)).year ≤ 262142) ↔
      -8334601228800 ≤ seconds ∧ seconds ≤ 8210266876799 := by
  have first : -262143 ≤ (Date.ofDays (seconds / 86400)).year ↔ -96465292 ≤ seconds / 86400 :=
    Date.le_year_ofDays_iff
  have next : 262143 ≤ (Date.ofDays (seconds / 86400)).year ↔ 95026237 ≤ seconds / 86400 :=
    Date.le_year_ofDays_iff
  omega

/-! ## Milliseconds -/

/-- Some milliseconds have elapsed on a day of the years from -262143 to 262142. -/
def HasMillis (millis : Int) : Prop :=
  -262143 ≤ (Date.ofDays (millis / 86400000)).year ∧
    (Date.ofDays (millis / 86400000)).year ≤ 262142

theorem hasMillis_iff {millis : Int} :
    HasMillis millis ↔ -8334601228800 ≤ millis / 1000 ∧ millis / 1000 ≤ 8210266876799 := by
  have days : millis / 86400000 = millis / 1000 / 86400 := by omega
  rw [HasMillis, days, year_bounds_iff]

theorem ofMillis?_eq_some_iff {millis : Int} {instant : Timestamp} :
    ofMillis? millis = some instant ↔
      HasMillis millis ∧ instant.isLeap = false ∧ instant.elapsed = millis * 1000000 := by
  rw [hasMillis_iff, isLeap_eq_false_iff, elapsed, ofMillis?, ofParts?]
  constructor
  · intro found
    split at found
    · rename_i known
      cases found
      exact ⟨known.1, by simp only; omega, by simp only; omega⟩
    · cases found
  · rintro ⟨bounds, ordinary, same⟩
    rw [dif_pos ⟨bounds, by omega, by omega⟩, Option.some.injEq]
    exact eq_of_parts (by simp only; omega) (by simp only; omega)

theorem exists_ofMillis? {millis : Int} (known : HasMillis millis) :
    ∃ instant, ofMillis? millis = some instant := by
  rw [hasMillis_iff] at known
  exact ⟨_, dif_pos ⟨known, by omega, by omega⟩⟩

private theorem elapsed_div (instant : Timestamp) : instant.elapsed / 1000000 = instant.millis := by
  unfold elapsed millis
  omega

private theorem hasMillis_millis {instant : Timestamp} (ordinary : instant.isLeap = false) :
    HasMillis instant.millis := by
  have early := instant.notTooEarly
  have late := instant.notTooLate
  rw [isLeap_eq_false_iff] at ordinary
  rw [hasMillis_iff]
  unfold millis
  omega

/-- The second instant is the last one of whole milliseconds that is not after the first. -/
structure RoundsDownTo (instant rounded : Timestamp) : Prop where
  ordinary : rounded.isLeap = false
  whole : 1000000 ∣ rounded.elapsed
  notAfter : rounded.elapsed ≤ instant.elapsed
  last : instant.elapsed < rounded.elapsed + 1000000

theorem RoundsDownTo.eq_iff {instant rounded : Timestamp} (ordinary : instant.isLeap = false)
    (rounds : instant.RoundsDownTo rounded) : rounded = instant ↔ 1000000 ∣ instant.elapsed := by
  refine ⟨fun same => same ▸ rounds.whole, fun whole => ?_⟩
  have least := rounds.notAfter
  have most := rounds.last
  have divides := rounds.whole
  exact elapsed_injective rounds.ordinary ordinary (by omega)

private theorem ofMillis?_millis {instant : Timestamp} (ordinary : instant.isLeap = false) :
    ∃ rounded, ofMillis? instant.millis = some rounded ∧ instant.RoundsDownTo rounded := by
  obtain ⟨rounded, found⟩ := exists_ofMillis? (hasMillis_millis ordinary)
  obtain ⟨_, whole, same⟩ := ofMillis?_eq_some_iff.1 found
  rw [← elapsed_div] at same
  exact ⟨rounded, found, whole, by omega, by omega, by omega⟩

end Timestamp

/-! ## The conversion -/

def JsonNumber.IsSigned (number : Int) : Prop := least ≤ number ∧ number ≤ greatestSigned

namespace Timestamp

private theorem isSigned_seconds_mul (instant : Timestamp) :
    JsonNumber.IsSigned (instant.seconds * 1000) := by
  have early := instant.notTooEarly
  have late := instant.notTooLate
  unfold JsonNumber.IsSigned JsonNumber.least JsonNumber.greatestSigned
  omega

private theorem isSigned_millis (instant : Timestamp) : JsonNumber.IsSigned instant.millis := by
  have early := instant.notTooEarly
  have late := instant.notTooLate
  have bound := instant.nanosBound
  unfold JsonNumber.IsSigned JsonNumber.least JsonNumber.greatestSigned millis
  omega

end Timestamp

namespace Codec

theorem unmarshal_epochMillis_eq_ok_iff {scalar : String} {wire : Json} {value : RuntimeValue} :
    epochMillis.unmarshal scalar wire = .ok value ↔
      ∃ millis instant, wire = .number (.integer millis) ∧ JsonNumber.IsSigned millis ∧
        Timestamp.ofMillis? millis = some instant ∧ value = .timestamp instant := by
  rw [unmarshal, readMillis]
  constructor
  · intro accepted
    cases held : wire.signed? with
    | none => simp [held] at accepted
    | some millis =>
        cases told : Timestamp.ofMillis? millis with
        | none => simp [held, told] at accepted
        | some instant =>
            simp only [held, told, Except.ok.injEq] at accepted
            unfold Json.signed? at held
            split at held
            · rename_i number
              split at held
              · rename_i atMost
                cases held
                have known := Timestamp.hasMillis_iff.1 (Timestamp.ofMillis?_eq_some_iff.1 told).1
                refine ⟨millis, instant, rfl, ⟨?_, atMost⟩, told, accepted.symm⟩
                unfold JsonNumber.least
                omega
              · cases held
            · cases held
  · rintro ⟨millis, instant, rfl, signed, told, rfl⟩
    simp only [Json.signed?, if_pos signed.2, told]

/-- Milliseconds are read exactly if they are an integer of the signed 64-bit range whose instant
is in the years of the calendar, and are written back as they were. Instants outside leap seconds
are written without overflow, and read back rounded down to the millisecond. -/
theorem epochMillis_exact (scalar : String) :
    (∀ wire, (∃ value, epochMillis.unmarshal scalar wire = .ok value) ↔
      ∃ millis, wire = .number (.integer millis) ∧ JsonNumber.IsSigned millis ∧
        Timestamp.HasMillis millis) ∧
      (∀ wire value, epochMillis.unmarshal scalar wire = .ok value →
        epochMillis.marshal scalar value = .ok wire) ∧
      ∀ instant : Timestamp, instant.isLeap = false →
        ∃ millis rounded,
          epochMillis.marshal scalar (.timestamp instant) = .ok (.number (.integer millis)) ∧
          JsonNumber.IsSigned (instant.seconds * 1000) ∧ JsonNumber.IsSigned millis ∧
          epochMillis.unmarshal scalar (.number (.integer millis)) = .ok (.timestamp rounded) ∧
          instant.RoundsDownTo rounded ∧ (rounded = instant ↔ 1000000 ∣ instant.elapsed) := by
  refine ⟨fun wire => ⟨?_, ?_⟩, ?_, ?_⟩
  · rintro ⟨value, accepted⟩
    obtain ⟨millis, instant, written, signed, told, -⟩ := unmarshal_epochMillis_eq_ok_iff.1 accepted
    exact ⟨millis, written, signed, (Timestamp.ofMillis?_eq_some_iff.1 told).1⟩
  · rintro ⟨millis, written, signed, known⟩
    obtain ⟨instant, told⟩ := Timestamp.exists_ofMillis? known
    exact ⟨.timestamp instant,
      unmarshal_epochMillis_eq_ok_iff.2 ⟨millis, instant, written, signed, told, rfl⟩⟩
  · intro wire value accepted
    obtain ⟨millis, instant, rfl, -, told, rfl⟩ := unmarshal_epochMillis_eq_ok_iff.1 accepted
    obtain ⟨-, -, same⟩ := Timestamp.ofMillis?_eq_some_iff.1 told
    have back : instant.millis = millis := by
      rw [← instant.elapsed_div, same, Int.mul_ediv_cancel _ (by decide)]
    rw [marshal, back]
  · intro instant ordinary
    obtain ⟨rounded, told, rounds⟩ := Timestamp.ofMillis?_millis ordinary
    have product := instant.isSigned_seconds_mul
    have signed := instant.isSigned_millis
    exact ⟨instant.millis, rounded, rfl, product, signed,
      unmarshal_epochMillis_eq_ok_iff.2 ⟨_, _, rfl, signed, told, rfl⟩, rounds,
      rounds.eq_iff ordinary⟩

/-- One and a half milliseconds before 1970 are read back as two. -/
theorem epochMillis_exact_before :
    ∃ instant rounded : Timestamp, instant.isLeap = false ∧ instant.elapsed = -1500000 ∧
      epochMillis.marshal "Instant" (.timestamp instant) = .ok (.number (.integer (-2))) ∧
      epochMillis.unmarshal "Instant" (.number (.integer (-2))) = .ok (.timestamp rounded) ∧
      instant.RoundsDownTo rounded ∧ rounded ≠ instant ∧
      epochMillis.marshal "Instant" (.timestamp rounded) = .ok (.number (.integer (-2))) := by
  let instant : Timestamp := { seconds := -1, nanos := 998500000 }
  obtain ⟨-, back, each⟩ := epochMillis_exact "Instant"
  obtain ⟨millis, rounded, written, -, -, read, rounds, same⟩ := each instant (by decide)
  obtain rfl : millis = -2 := by
    cases written
    decide
  refine ⟨instant, rounded, by decide, by decide, written, read, rounds, ?_, back _ _ read⟩
  rw [ne_eq, same]
  decide

end Codec

end GraphqlStore
