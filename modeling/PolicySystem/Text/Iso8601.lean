import Mathlib
import PolicySystem.Text.Positional

/-!
# Timestamps in ISO 8601

A local date and time with its offset from UTC, to the microsecond.

* `Timestamp.isoformat`, `fromIsoformat`: its text, and the reading of such texts;
* `fromIsoformat_isoformat`: a timestamp is read back from its text;
* `Timestamp.micros`: the instant it denotes.
-/

namespace Text

/-- An offset from UTC, of less than a day. -/
structure UtcOffset where
  negative : Bool
  hours : ℕ
  minutes : ℕ
  seconds : ℕ
  microseconds : ℕ
  deriving DecidableEq

/-- A local date and time. -/
structure DateTime where
  year : ℕ
  month : ℕ
  day : ℕ
  hour : ℕ
  minute : ℕ
  second : ℕ
  microsecond : ℕ
  offset : UtcOffset
  deriving DecidableEq

def isLeap (year : ℕ) : Bool := year % 4 = 0 ∧ (year % 100 ≠ 0 ∨ year % 400 = 0)

def daysInMonth (year : ℕ) : ℕ → ℕ
  | 2 => if isLeap year then 29 else 28
  | 4 => 30
  | 6 => 30
  | 9 => 30
  | 11 => 30
  | _ => 31

/-- The offset's magnitude in microseconds. -/
def UtcOffset.magnitude (o : UtcOffset) : ℕ := ((o.hours * 60 + o.minutes) * 60 + o.seconds) * 1000000 + o.microseconds

/-- A zero offset is written without a minus. -/
def UtcOffset.Valid (o : UtcOffset) : Prop :=
  o.hours < 24 ∧ o.minutes < 60 ∧ o.seconds < 60 ∧ o.microseconds < 1000000 ∧ (o.negative = true → o.magnitude ≠ 0)

instance {o : UtcOffset} : Decidable o.Valid := inferInstanceAs (Decidable (_ ∧ _))

/-- The dates of the years 1 to 9999. -/
def DateTime.Valid (t : DateTime) : Prop :=
  1 ≤ t.year ∧ t.year < 10000 ∧ 1 ≤ t.month ∧ t.month ≤ 12 ∧ 1 ≤ t.day ∧ t.day ≤ daysInMonth t.year t.month ∧
    t.hour < 24 ∧ t.minute < 60 ∧ t.second < 60 ∧ t.microsecond < 1000000 ∧ t.offset.Valid

instance {t : DateTime} : Decidable t.Valid := inferInstanceAs (Decidable (_ ∧ _))

/-- An aware `datetime`. -/
structure Timestamp extends DateTime where
  valid : toDateTime.Valid
  deriving DecidableEq

/-! ## Texts -/

/-- The fraction of a second, unless it is zero. -/
def fraction (microseconds : ℕ) : List Char :=
  if microseconds = 0 then [] else '.' :: decimalDigits.write 6 microseconds

def UtcOffset.text (o : UtcOffset) : List Char :=
  (if o.negative then '-' else '+') :: (decimalDigits.write 2 o.hours ++ ':' :: (decimalDigits.write 2 o.minutes ++
    if o.seconds = 0 ∧ o.microseconds = 0 then [] else ':' :: (decimalDigits.write 2 o.seconds ++ fraction o.microseconds)))

/-- `isoformat()`. -/
def DateTime.isoformat (t : DateTime) : List Char :=
  decimalDigits.write 4 t.year ++ '-' :: (decimalDigits.write 2 t.month ++ '-' :: (decimalDigits.write 2 t.day ++
    'T' :: (decimalDigits.write 2 t.hour ++ ':' :: (decimalDigits.write 2 t.minute ++ ':' ::
      (decimalDigits.write 2 t.second ++ (fraction t.microsecond ++ t.offset.text))))))

/-! ## Reading -/

def readFraction : List Char → Option (ℕ × List Char)
  | '.' :: text => field 6 text
  | text => some (0, text)

def readSign : List Char → Option (Bool × List Char)
  | '+' :: text => some (false, text)
  | '-' :: text => some (true, text)
  | _ => none

/-- The seconds of an offset, unless it ends before them. -/
def readSeconds : List Char → Option (ℕ × ℕ × List Char)
  | ':' :: text => do
    let (seconds, text) ← field 2 text
    let (microseconds, text) ← readFraction text
    return (seconds, microseconds, text)
  | text => some (0, 0, text)

/-- A minus before a zero offset is dropped. -/
def UtcOffset.normal (o : UtcOffset) : UtcOffset := { o with negative := o.negative && decide (o.magnitude ≠ 0) }

def readOffset (text : List Char) : Option (UtcOffset × List Char) := do
  let (negative, text) ← readSign text
  let (hours, text) ← field 2 text
  let text ← expect ':' text
  let (minutes, text) ← field 2 text
  let (seconds, microseconds, text) ← readSeconds text
  return (UtcOffset.normal ⟨negative, hours, minutes, seconds, microseconds⟩, text)

def readDateTime (text : List Char) : Option DateTime := do
  let (year, text) ← field 4 text
  let text ← expect '-' text
  let (month, text) ← field 2 text
  let text ← expect '-' text
  let (day, text) ← field 2 text
  let text ← expect 'T' text
  let (hour, text) ← field 2 text
  let text ← expect ':' text
  let (minute, text) ← field 2 text
  let text ← expect ':' text
  let (second, text) ← field 2 text
  let (microsecond, text) ← readFraction text
  let (offset, text) ← readOffset text
  if text = [] then return ⟨year, month, day, hour, minute, second, microsecond, offset⟩ else none

/-- `datetime.fromisoformat`, of the texts that `isoformat` writes. -/
def fromIsoformat (text : List Char) : Option Timestamp :=
  (readDateTime text).bind fun t => if h : t.Valid then some ⟨t, h⟩ else none

/-! ## The round trip -/

theorem readFraction_text {microseconds : ℕ} (h : microseconds < 1000000) {rest : List Char} (hrest : rest.head? ≠ some '.') :
    readFraction (fraction microseconds ++ rest) = some (microseconds, rest) := by
  unfold fraction
  split
  · rename_i hzero
    rw [hzero, List.nil_append]
    unfold readFraction
    split
    · exact absurd rfl hrest
    · rfl
  · rw [List.cons_append]
    exact field_write (by omega) rest

theorem readSeconds_text {o : UtcOffset} (h : o.Valid) :
    readSeconds (if o.seconds = 0 ∧ o.microseconds = 0 then [] else
      ':' :: (decimalDigits.write 2 o.seconds ++ fraction o.microseconds)) = some (o.seconds, o.microseconds, []) := by
  obtain ⟨-, -, hseconds, hmicro, -⟩ := h
  split
  · rename_i hzero
    rw [hzero.1, hzero.2]
    rfl
  · have hfraction := readFraction_text hmicro (show ([] : List Char).head? ≠ some '.' by simp)
    rw [List.append_nil] at hfraction
    simp only [readSeconds, field_write (show o.seconds < 10 ^ 2 by omega), hfraction, bind, Option.bind]
    rfl

theorem normal_eq {o : UtcOffset} (h : o.Valid) : o.normal = o := by
  obtain ⟨negative, hours, minutes, seconds, microseconds⟩ := o
  obtain ⟨-, -, -, -, hsign⟩ := h
  unfold UtcOffset.normal
  cases negative with
  | false => rfl
  | true => simp [hsign rfl]

theorem readOffset_text {o : UtcOffset} (h : o.Valid) : readOffset o.text = some (o, []) := by
  have hsign : ∀ text : List Char, readSign ((if o.negative then '-' else '+') :: text) = some (o.negative, text) := by
    intro text
    cases o.negative <;> rfl
  have hhours : o.hours < 10 ^ 2 := by
    have := h.1
    omega
  have hminutes : o.minutes < 10 ^ 2 := by
    have := h.2.1
    omega
  unfold readOffset UtcOffset.text
  simp only [hsign, field_write hhours, expect_cons, field_write hminutes, readSeconds_text h, bind, Option.bind]
  rw [normal_eq h]
  rfl

theorem offset_head (o : UtcOffset) : o.text.head? ≠ some '.' := by
  unfold UtcOffset.text
  cases o.negative <;> simp

theorem readDateTime_isoformat {t : DateTime} (h : t.Valid) : readDateTime t.isoformat = some t := by
  obtain ⟨-, hyear, -, hmonth, -, hday, hhour, hminute, hsecond, hmicro, hoffset⟩ := h
  have hday' : t.day ≤ 31 := by
    refine hday.trans ?_
    unfold daysInMonth
    split
    · split <;> omega
    all_goals omega
  unfold readDateTime DateTime.isoformat
  simp only [field_write (show t.year < 10 ^ 4 by omega), field_write (show t.month < 10 ^ 2 by omega),
    field_write (show t.day < 10 ^ 2 by omega), field_write (show t.hour < 10 ^ 2 by omega),
    field_write (show t.minute < 10 ^ 2 by omega), field_write (show t.second < 10 ^ 2 by omega), expect_cons,
    readFraction_text hmicro (offset_head t.offset), readOffset_text hoffset, bind, Option.bind]
  rfl

/-- **A timestamp is read back from its text.** -/
theorem fromIsoformat_isoformat (t : Timestamp) : fromIsoformat t.isoformat = some t := by
  unfold fromIsoformat
  rw [readDateTime_isoformat t.valid, Option.bind_some, dif_pos t.valid]

/-- Every character of a text of a timestamp is a digit or one of `-T:.+`. -/
theorem mem_isoformat {t : DateTime} {c : Char} (h : c ∈ t.isoformat) :
    (∃ d, c = decimalDigits.char d) ∨ c ∈ ['-', 'T', ':', '.', '+'] := by
  have hdigits : ∀ {width n : ℕ}, c ∈ decimalDigits.write width n → ∃ d, c = decimalDigits.char d :=
    fun hc => decimalDigits.mem_write hc
  have hfraction : ∀ {n : ℕ}, c ∈ fraction n → (∃ d, c = decimalDigits.char d) ∨ c = '.' := by
    intro n hc
    unfold fraction at hc
    split at hc
    · cases hc
    · rcases List.mem_cons.1 hc with hc | hc
      · exact .inr hc
      · exact .inl (hdigits hc)
  have hoffset : c ∈ t.offset.text → (∃ d, c = decimalDigits.char d) ∨ c ∈ ['-', 'T', ':', '.', '+'] := by
    intro hc
    unfold UtcOffset.text at hc
    rcases List.mem_cons.1 hc with hc | hc
    · split at hc <;> simp [hc]
    · rcases List.mem_append.1 hc with hc | hc
      · exact .inl (hdigits hc)
      · rcases List.mem_cons.1 hc with hc | hc
        · simp [hc]
        · rcases List.mem_append.1 hc with hc | hc
          · exact .inl (hdigits hc)
          · split at hc
            · cases hc
            · rcases List.mem_cons.1 hc with hc | hc
              · simp [hc]
              · rcases List.mem_append.1 hc with hc | hc
                · exact .inl (hdigits hc)
                · exact (hfraction hc).imp_right fun h => by simp [h]
  unfold DateTime.isoformat at h
  simp only [List.mem_append, List.mem_cons] at h
  rcases h with h | h | h | h | h | h | h | h | h | h | h | h | h
  all_goals first
    | exact .inl (hdigits h)
    | exact hoffset h
    | exact (hfraction h).imp_right fun h => by simp [h]
    | simp [h]

/-! ## Instants -/

/-- The days before a year, from the year 1. -/
def daysBeforeYear (year : ℕ) : ℕ := (year - 1) * 365 + (year - 1) / 4 - (year - 1) / 100 + (year - 1) / 400

def daysBeforeMonth (year month : ℕ) : ℕ := ((List.range (month - 1)).map fun m => daysInMonth year (m + 1)).sum

/-- The local microseconds from the start of the year 1. -/
def DateTime.local (t : DateTime) : ℕ :=
  ((((daysBeforeYear t.year + daysBeforeMonth t.year t.month + (t.day - 1)) * 24 + t.hour) * 60 + t.minute) * 60 + t.second) *
    1000000 + t.microsecond

/-- The offset in microseconds. -/
def UtcOffset.micros (o : UtcOffset) : ℤ := if o.negative then -(o.magnitude : ℤ) else o.magnitude

/-- The instant of a timestamp, in microseconds from the start of the year 1 in UTC. -/
def DateTime.micros (t : DateTime) : ℤ := t.local - t.offset.micros

/-- No instant is more than a day before the year 1. -/
theorem Timestamp.micros_gt (t : Timestamp) : -86400000000 < t.micros := by
  obtain ⟨-, -, -, -, -, -, -, -, -, -, hhours, hminutes, hseconds, hmicro, -⟩ := t.valid
  unfold DateTime.micros UtcOffset.micros UtcOffset.magnitude
  split <;> omega

end Text
