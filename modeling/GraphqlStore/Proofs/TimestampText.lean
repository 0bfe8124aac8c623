import GraphqlStore.Proofs.Calendar
import GraphqlStore.Scalar.Codec

/-!
Instants and their RFC 3339 texts. What writing puts into a text, reading takes
out again part by part, whatever follows: numbers of a fixed width, dates that
exist, seconds of a day with the leap second as the 60th, and fractions in the
fewest digits that lose nothing.
-/

set_option autoImplicit false

namespace GraphqlStore

namespace Timestamp

private theorem secondOfDay_lt (instant : Timestamp) : instant.secondOfDay < 86400 := by
  unfold secondOfDay
  omega

private theorem secondOfDay_of_isLeap (instant : Timestamp) (leap : instant.isLeap = true) :
    instant.secondOfDay % 60 = 59 := by
  have last := instant.leapPlace (of_decide_eq_true leap)
  unfold secondOfDay
  omega

private theorem seconds_eq (instant : Timestamp) :
    instant.date.toDays * 86400 + instant.secondOfDay = instant.seconds := by
  unfold date secondOfDay
  rw [Date.toDays_ofDays]
  omega

private theorem nanos_eq (instant : Timestamp) :
    instant.nanos % 1000000000 + (if instant.isLeap then 1000000000 else 0) = instant.nanos := by
  have bound := instant.nanosBound
  by_cases leap : 1000000000 ≤ instant.nanos
  · simp only [isLeap, leap, decide_true, if_true]
    omega
  · simp only [isLeap, leap, decide_false, Bool.false_eq_true, if_false]
    omega

private theorem ofParts?_parts (instant : Timestamp) :
    ofParts? instant.seconds instant.nanos = some instant :=
  dif_pos ⟨⟨instant.notTooEarly, instant.notTooLate⟩, instant.nanosBound, instant.leapPlace⟩

end Timestamp

namespace Rfc3339

/-! ## Numbers -/

/-- The number of some digits, after the digits already read. -/
def digitsValue (number : Nat) (digits : List Char) : Nat :=
  digits.foldl (fun number c => number * 10 + (c.toNat - '0'.toNat)) number

theorem digitChar_digit :
    ∀ digit < 10, (Nat.digitChar digit).isDigit = true ∧
      (Nat.digitChar digit).toNat - '0'.toNat = digit := by
  decide

@[simp] theorem length_lastDigits (count number : Nat) :
    (lastDigits count number).length = count := by
  induction count generalizing number with
  | zero => rfl
  | succ count inductionHypothesis => simp [lastDigits, inductionHypothesis]

theorem isDigit_of_mem_lastDigits {count number : Nat} {c : Char}
    (member : c ∈ lastDigits count number) :
    c.isDigit = true := by
  induction count generalizing number with
  | zero => cases member
  | succ count inductionHypothesis =>
      rw [lastDigits, List.mem_append, List.mem_singleton] at member
      rcases member with earlier | rfl
      · exact inductionHypothesis earlier
      · exact (digitChar_digit _ (Nat.mod_lt _ (by decide))).1

theorem digitsValue_lastDigits (start count number : Nat) :
    digitsValue start (lastDigits count number) =
      start * Nat.pow 10 count + number % Nat.pow 10 count := by
  induction count generalizing number with
  | zero =>
      show start = start * 1 + number % 1
      omega
  | succ count inductionHypothesis =>
      have last := (digitChar_digit _ (Nat.mod_lt number (by decide : 0 < 10))).2
      have parts : number % (10 * Nat.pow 10 count) =
          number % 10 + 10 * (number / 10 % Nat.pow 10 count) := Nat.mod_mul
      have earlier := inductionHypothesis (number / 10)
      unfold digitsValue at earlier ⊢
      rw [lastDigits, List.foldl_append, earlier, List.foldl_cons, List.foldl_nil, last,
        show Nat.pow 10 (count + 1) = 10 * Nat.pow 10 count from Nat.mul_comm _ _, parts,
        Nat.mul_left_comm]
      omega

theorem readNumber_append {digits : List Char} (digital : ∀ c ∈ digits, c.isDigit = true)
    (number : Nat) (rest : List Char) :
    readNumber digits.length number (digits ++ rest) = .ok (digitsValue number digits, rest) := by
  induction digits generalizing number with
  | nil => rfl
  | cons digit digits inductionHypothesis =>
      have first := digital digit List.mem_cons_self
      have later := inductionHypothesis fun c member => digital c (List.mem_cons_of_mem digit member)
      simp only [List.length_cons, List.cons_append, readNumber, readDigit, if_pos first, later]
      rfl

theorem readNumber_lastDigits {count number : Nat} (fits : number < Nat.pow 10 count)
    (rest : List Char) :
    readNumber count 0 (lastDigits count number ++ rest) = .ok (number, rest) := by
  have found := readNumber_append (fun _ => @isDigit_of_mem_lastDigits count number _) 0 rest
  rwa [length_lastDigits, digitsValue_lastDigits, Nat.zero_mul, Nat.zero_add,
    Nat.mod_eq_of_lt fits] at found

theorem readOneOf_cons {accepted : List Char} {c : Char} (member : c ∈ accepted) (rest : List Char) :
    readOneOf accepted (c :: rest) = .ok rest := by
  rw [readOneOf, if_pos (List.contains_iff_mem.2 member)]

/-! ## Fractions -/

private theorem readFraction_lastDigits {count number : Nat} (counted : 0 < count ∧ count ≤ 9)
    (fits : number < Nat.pow 10 count) (rest : List Char) :
    readFraction ('.' :: lastDigits count number ++ 'Z' :: rest) =
      .ok (number * Nat.pow 10 (9 - count), 'Z' :: rest) := by
  have digital : ∀ c ∈ lastDigits count number, c.isDigit = true :=
    fun _ => isDigit_of_mem_lastDigits
  have taken : (lastDigits count number ++ 'Z' :: rest).takeWhile Char.isDigit =
      lastDigits count number := by
    rw [List.takeWhile_append_of_pos digital]
    exact List.append_nil _
  have dropped : (lastDigits count number ++ 'Z' :: rest).dropWhile Char.isDigit = 'Z' :: rest :=
    List.dropWhile_append_of_pos digital
  have nonempty : (lastDigits count number).isEmpty = false := by
    rw [List.isEmpty_eq_false_iff, ← List.length_pos_iff, length_lastDigits]
    exact counted.1
  have short : (lastDigits count number).take 9 = lastDigits count number :=
    List.take_of_length_le (by simpa using counted.2)
  have value := digitsValue_lastDigits 0 count number
  rw [Nat.zero_mul, Nat.zero_add, Nat.mod_eq_of_lt fits, digitsValue] at value
  have more : (lastDigits count number ++ 'Z' :: rest).isEmpty = false :=
    List.isEmpty_eq_false_iff.2 (List.append_ne_nil_of_right_ne_nil _ (List.cons_ne_nil _ _))
  simp only [List.cons_append, readFraction, taken, dropped, nonempty, more, short, value,
    length_lastDigits, Bool.false_eq_true, if_false]

private theorem readFraction_fractionText {nanos : Nat} (fits : nanos < 1000000000)
    (rest : List Char) :
    readFraction (fractionText .shortest nanos ++ 'Z' :: rest) = .ok (nanos, 'Z' :: rest) := by
  unfold fractionText
  by_cases whole : nanos = 0
  · simp only [if_pos whole]
    rw [whole]
    rfl
  by_cases millis : nanos % 1000000 = 0
  · simp only [if_neg whole, if_pos millis]
    rw [readFraction_lastDigits (by decide) (show nanos / 1000000 < 1000 by omega)]
    rw [show nanos / 1000000 * Nat.pow 10 (9 - 3) = nanos from
      Nat.div_mul_cancel (Nat.dvd_of_mod_eq_zero millis)]
  by_cases micros : nanos % 1000 = 0
  · simp only [if_neg whole, if_neg millis, if_pos micros]
    rw [readFraction_lastDigits (by decide) (show nanos / 1000 < 1000000 by omega)]
    rw [show nanos / 1000 * Nat.pow 10 (9 - 6) = nanos from
      Nat.div_mul_cancel (Nat.dvd_of_mod_eq_zero micros)]
  · simp only [if_neg whole, if_neg millis, if_neg micros]
    rw [readFraction_lastDigits (by decide) fits]
    rw [show nanos * Nat.pow 10 (9 - 9) = nanos from Nat.mul_one nanos]

/-! ## Dates and times -/

theorem readDate_append {date : Date} (known : date.exists? = true)
    (fourDigits : 0 ≤ date.year ∧ date.year ≤ 9999) (rest : List Char) :
    readDate (yearText date.year ++ '-' :: (lastDigits 2 date.month ++ '-' ::
      (lastDigits 2 date.day ++ rest))) = .ok (date, rest) := by
  obtain ⟨year, month, day⟩ := date
  have bounds := known
  replace fourDigits : 0 ≤ year ∧ year ≤ 9999 := fourDigits
  simp only [Date.exists?, Bool.and_eq_true, decide_eq_true_iff] at bounds
  have short : Date.monthLength year month ≤ 31 := by
    unfold Date.monthLength
    split <;> split <;> decide
  have sameYear : ((year.toNat : Nat) : Int) = year := Int.toNat_of_nonneg fourDigits.1
  unfold readDate yearText
  simp only [if_pos fourDigits]
  rw [readNumber_lastDigits (show year.toNat < 10000 by omega)]
  simp only [bind, Except.bind, readOneOf_cons List.mem_cons_self]
  rw [readNumber_lastDigits (show month < 100 by omega)]
  simp only [readOneOf_cons List.mem_cons_self]
  rw [readNumber_lastDigits (show day < 100 by omega)]
  simp only [sameYear, if_pos known]
  rfl

theorem readTime_append {second nanos : Nat} (inDay : second < 86400) (fits : nanos < 1000000000)
    (leap : Bool) (leapPlace : leap = true → second % 60 = 59) (rest : List Char) :
    readTime (lastDigits 2 (second / 3600) ++ ':' :: (lastDigits 2 (second / 60 % 60) ++ ':' ::
        (lastDigits 2 (second % 60 + if leap then 1 else 0) ++
          (fractionText .shortest nanos ++ 'Z' :: rest)))) =
      .ok ((second, nanos + if leap then 1000000000 else 0), 'Z' :: rest) := by
  unfold readTime
  rw [readNumber_lastDigits (show second / 3600 < 100 by omega)]
  simp only [bind, Except.bind, readOneOf_cons List.mem_cons_self]
  rw [readNumber_lastDigits (show second / 60 % 60 < 100 by omega)]
  simp only [readOneOf_cons List.mem_cons_self]
  have spelled : second % 60 + (if leap then 1 else 0) ≤ 60 := by
    split <;> omega
  rw [readNumber_lastDigits (show second % 60 + (if leap then 1 else 0) < 100 by omega)]
  simp only [readFraction_fractionText fits]
  rw [if_pos ⟨by omega, by omega, spelled⟩]
  have split : second / 3600 * 3600 + second / 60 % 60 * 60 + second % 60 = second := by omega
  cases leap with
  | false =>
      rw [if_neg (by simp only [Bool.false_eq_true, if_false]; omega)]
      simp only [Bool.false_eq_true, if_false, Nat.add_zero, split]
      rfl
  | true =>
      have last := leapPlace rfl
      rw [last] at split
      simp only [if_true, last, split]
      rfl

/-! ## Instants -/

private theorem length_le_utf8ByteSize (text : List Char) :
    text.length ≤ (String.ofList text).utf8ByteSize := by
  induction text with
  | nil => exact Nat.zero_le _
  | cons c text inductionHypothesis =>
      have size := Char.utf8Size_pos c
      rw [show c :: text = [c] ++ text from rfl, String.ofList_append, String.utf8ByteSize_append,
        ← String.singleton_eq_ofList, String.utf8ByteSize_singleton, List.length_append,
        List.length_singleton]
      omega

theorem chars_eq (fraction : Fraction) (instant : Timestamp) :
    chars fraction instant =
      yearText instant.date.year ++ '-' :: (lastDigits 2 instant.date.month ++ '-' ::
        (lastDigits 2 instant.date.day ++ 'T' :: (lastDigits 2 (instant.secondOfDay / 3600) ++ ':' ::
          (lastDigits 2 (instant.secondOfDay / 60 % 60) ++ ':' ::
            (lastDigits 2 (instant.secondOfDay % 60 + if instant.isLeap then 1 else 0) ++
              (fractionText fraction (instant.nanos % 1000000000) ++ ['Z'])))))) := by
  simp only [chars, List.append_assoc, List.cons_append]

private theorem length_chars (instant : Timestamp)
    (fourDigits : 0 ≤ instant.date.year ∧ instant.date.year ≤ 9999) :
    19 ≤ (chars .shortest instant).length := by
  simp only [chars_eq, yearText, if_pos fourDigits, List.length_append, List.length_cons,
    length_lastDigits, List.length_nil]
  omega

private theorem read_canonical (instant : Timestamp)
    (fourDigits : 0 ≤ instant.date.year ∧ instant.date.year ≤ 9999) :
    read (canonical instant) = .ok instant := by
  have long : ¬ (canonical instant).utf8ByteSize < 19 :=
    Nat.not_lt.2 (Nat.le_trans (length_chars instant fourDigits) (length_le_utf8ByteSize _))
  have text : (canonical instant).toList = chars .shortest instant := String.toList_ofList
  have known : instant.date.exists? = true := Date.exists?_ofDays _
  have time := readTime_append instant.secondOfDay_lt
    (Nat.mod_lt instant.nanos (by decide : 0 < 1000000000)) instant.isLeap
    instant.secondOfDay_of_isLeap []
  simp only [read, if_neg long, text, chars_eq, readDate_append known fourDigits, bind, Except.bind,
    readOneOf_cons List.mem_cons_self, time, instant.nanos_eq, readOffset, true_or, if_true,
    Int.sub_zero, instant.seconds_eq, instant.ofParts?_parts]
  rfl

private theorem read_canonical_of_signed (instant : Timestamp)
    (signed : ¬ (0 ≤ instant.date.year ∧ instant.date.year ≤ 9999)) (other : Timestamp) :
    read (canonical instant) ≠ .ok other := by
  have text : (canonical instant).toList = chars .shortest instant := String.toList_ofList
  have refused : readDate (canonical instant).toList = .error .invalidCharacter := by
    rw [text, chars_eq, yearText, if_neg signed]
    by_cases negative : instant.date.year < 0
    · simp only [if_pos negative]
      rfl
    · simp only [if_neg negative]
      rfl
  intro found
  simp only [read, refused] at found
  split at found
  · cases found
  · cases found

end Rfc3339

namespace Codec

theorem unmarshal_rfc3339_eq_ok_iff {scalar : String} {wire : Json} {value : RuntimeValue} :
    rfc3339.unmarshal scalar wire = .ok value ↔
      ∃ instant, value = .timestamp instant ∧ wire = .string (Rfc3339.canonical instant) ∧
        Rfc3339.read (Rfc3339.canonical instant) = .ok instant := by
  constructor
  · intro accepted
    unfold unmarshal readRfc3339 at accepted
    cases wire with
    | string text =>
        simp only [Json.string?] at accepted
        cases told : Rfc3339.read text with
        | error reason => simp [told] at accepted
        | ok instant =>
            by_cases same : Rfc3339.canonical instant = text
            · subst same
              simp only [told, if_true, Except.ok.injEq] at accepted
              exact ⟨instant, accepted.symm, rfl, told⟩
            · simp [told, same] at accepted
    | _ => cases accepted
  · rintro ⟨instant, rfl, rfl, told⟩
    simp only [unmarshal, readRfc3339, Json.string?, told, if_true]

/-- UTC timestamps of the years 0 to 9999, leap seconds included, and their texts in shortest
spelling are the same thing: the text of such a timestamp is read back, the text of another one is
refused, and a text that is read is the one that its timestamp is written with. -/
theorem rfc3339_inverse (scalar : String) :
    (∀ instant : Timestamp, ∃ wire,
      rfc3339.marshal scalar (.timestamp instant) = .ok wire ∧
        (rfc3339.unmarshal scalar wire = .ok (.timestamp instant) ↔
          0 ≤ instant.date.year ∧ instant.date.year ≤ 9999)) ∧
      ∀ wire value, rfc3339.unmarshal scalar wire = .ok value →
        rfc3339.marshal scalar value = .ok wire := by
  constructor
  · intro instant
    refine ⟨.string (Rfc3339.canonical instant), rfl, ?_, ?_⟩
    · intro accepted
      obtain ⟨_, ⟨⟩, -, told⟩ := unmarshal_rfc3339_eq_ok_iff.1 accepted
      exact Decidable.not_not.1 fun signed =>
        Rfc3339.read_canonical_of_signed instant signed instant told
    · intro fourDigits
      exact unmarshal_rfc3339_eq_ok_iff.2
        ⟨instant, rfl, rfl, Rfc3339.read_canonical instant fourDigits⟩
  · intro wire value accepted
    obtain ⟨instant, rfl, rfl, -⟩ := unmarshal_rfc3339_eq_ok_iff.1 accepted
    rfl

/-- The last instant before the year 10000, in a leap second. -/
theorem rfc3339_inverse_last :
    ∃ instant : Timestamp, instant.seconds = 253402300799 ∧ instant.nanos = 1999999999 ∧
      rfc3339.unmarshal "Instant" (.string "9999-12-31T23:59:60.999999999Z") =
        .ok (.timestamp instant) ∧
      rfc3339.marshal "Instant" (.timestamp instant) =
        .ok (.string "9999-12-31T23:59:60.999999999Z") := by
  refine ⟨{ seconds := 253402300799, nanos := 1999999999 }, rfl, rfl, ?_⟩
  have written : Rfc3339.canonical { seconds := 253402300799, nanos := 1999999999 } =
      "9999-12-31T23:59:60.999999999Z" := by
    decide +kernel
  obtain ⟨wire, ⟨⟩, accepted⟩ :=
    (rfc3339_inverse "Instant").1 { seconds := 253402300799, nanos := 1999999999 }
  rw [written] at accepted
  have read := accepted.2 (by decide +kernel)
  exact ⟨read, (rfc3339_inverse "Instant").2 _ _ read⟩

end Codec

end GraphqlStore
