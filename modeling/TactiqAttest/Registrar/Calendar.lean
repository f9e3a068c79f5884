import TactiqAttest.Calendar.Gregorian
import TactiqAttest.Registrar.Record
import TactiqAttest.Registrar.Utc

/-!
# The dates that are written

`utc` computes a date by divisions of day counts.

* `exists_locals`: its arithmetic neither overflows nor leaves the natural numbers, and the date is
  the one of the calendar;
* `utc_injective`: no two instants are rendered alike, so that comparing texts is comparing
  instants;
* `utc_renders_instants`: both, with what `cmd_verify` asks of the dates in a record.
-/

namespace TactiqAttest.Registrar

open Gregorian

/-! ## The arithmetic -/

/-- The result of an operation on `i64`.  One that does not fit panics, where overflow is
checked. -/
def i64 (n : ℤ) : Option ℤ := if -2 ^ 63 ≤ n ∧ n < 2 ^ 63 then some n else none

/-- The same, with negative results left out as well. -/
def nonneg (n : ℤ) : Option ℤ := if 0 ≤ n then i64 n else none

section Lines

/-! The lines of `utc`, where every sum, difference and product is `op` of the exact one. -/

variable (op : ℤ → Option ℤ)

def dayOfEra (z era : ℤ) : Option ℤ := do op (z - (← op (era * 146097)))

def yearOfEra (doe : ℤ) : Option ℤ := do
  let days ← op ((← op ((← op (doe - doe.tdiv 1460)) + doe.tdiv 36524)) - doe.tdiv 146096)
  return days.tdiv 365

def dayOfYear (doe yoe : ℤ) : Option ℤ := do
  op (doe - (← op ((← op ((← op (365 * yoe)) + yoe.tdiv 4)) - yoe.tdiv 100)))

def monthIndex (doy : ℤ) : Option ℤ := do return (← op ((← op (5 * doy)) + 2)).tdiv 153

def dayOfMonth (doy mp : ℤ) : Option ℤ := do
  op ((← op (doy - (← op ((← op (153 * mp)) + 2)).tdiv 5)) + 1)

def monthOf (mp : ℤ) : Option ℤ := op (if mp < 10 then mp + 3 else mp - 9)

def yearOf (yoe era m : ℤ) : Option ℤ := do
  op ((← op (yoe + (← op (era * 400)))) + if m ≤ 2 then 1 else 0)

end Lines

/-- The local variables of `utc`. -/
structure Locals where
  days : ℤ
  rem : ℕ
  z : ℤ
  era : ℤ
  doe : ℤ
  yoe : ℤ
  doy : ℤ
  mp : ℤ
  d : ℤ
  m : ℤ
  y : ℤ

/-- What `utc` computes. -/
def locals (op : ℤ → Option ℤ) (secs : UInt64) : Option Locals := do
  -- `as i64` wraps
  let days := Int.bmod (secs / 86400).toNat (2 ^ 64)
  let rem := (secs % 86400).toNat
  let z ← op (days + 719468)
  let era := z / 146097
  let doe ← dayOfEra op z era
  let yoe ← yearOfEra op doe
  let doy ← dayOfYear op doe yoe
  let mp ← monthIndex op doy
  let d ← dayOfMonth op doy mp
  let m ← monthOf op mp
  let y ← yearOf op yoe era m
  return { days, rem, z, era, doe, yoe, doy, mp, d, m, y }

/-- What `utc` writes of them. -/
def Locals.render (v : Locals) : String :=
  s!"{padded 4 v.y}-{padded 2 v.m}-{padded 2 v.d}T" ++
  s!"{padded 2 (v.rem / 3600 : ℕ)}:{padded 2 (v.rem % 3600 / 60 : ℕ)}:{padded 2 (v.rem % 60 : ℕ)}Z"

/-- An operation that takes a natural number below `2 ^ 63` as it is. -/
def Exact (op : ℤ → Option ℤ) : Prop := ∀ n : ℤ, 0 ≤ n → n < 2 ^ 63 → op n = some n

theorem exact_i64 : Exact i64 := fun n h0 hlt => if_pos ⟨by omega, hlt⟩

theorem exact_nonneg : Exact nonneg := fun n h0 hlt => by
  rw [nonneg, if_pos h0, exact_i64 n h0 hlt]

variable {op : ℤ → Option ℤ} {secs : UInt64} {z era doe yoe doy mp : ℕ}

theorem dayOfEra_eq (hop : Exact op) (hz : z < 2 ^ 63) :
    dayOfEra op z (z / 146097) = some ((z % 146097 : ℕ) : ℤ) := by
  unfold Exact at hop
  simp (disch := omega) only [dayOfEra, hop, Option.bind_eq_bind, Option.bind_some]
  rw [Option.some_inj]
  omega

theorem yearOfEra_eq (hop : Exact op) (hdoe : doe < 146097) :
    yearOfEra op doe =
      some (((doe - doe / 1460 + doe / 36524 - doe / 146096) / 365 : ℕ) : ℤ) := by
  unfold Exact at hop
  simp (disch := omega) only [yearOfEra, hop, Option.bind_eq_bind, Option.bind_some,
    Option.pure_def, Int.tdiv_eq_ediv_of_nonneg]
  rw [Option.some_inj]
  omega

theorem dayOfYear_eq (hop : Exact op) (hyoe : yoe < 400) (hstart : marchStart yoe ≤ doe)
    (hdoe : doe < 146097) : dayOfYear op doe yoe = some ((doe - marchStart yoe : ℕ) : ℤ) := by
  unfold Exact at hop
  unfold marchStart at hstart ⊢
  simp (disch := omega) only [dayOfYear, hop, Option.bind_eq_bind, Option.bind_some,
    Int.tdiv_eq_ediv_of_nonneg]
  rw [Option.some_inj]
  omega

theorem monthIndex_eq (hop : Exact op) (hdoy : doy < 366) :
    monthIndex op doy = some (((5 * doy + 2) / 153 : ℕ) : ℤ) := by
  unfold Exact at hop
  simp (disch := omega) only [monthIndex, hop, Option.bind_eq_bind, Option.bind_some,
    Option.pure_def, Int.tdiv_eq_ediv_of_nonneg]
  rw [Option.some_inj]
  omega

theorem dayOfMonth_eq (hop : Exact op) (hdoy : doy < 366) (hmp : (153 * mp + 2) / 5 ≤ doy) :
    dayOfMonth op doy mp = some ((doy - (153 * mp + 2) / 5 + 1 : ℕ) : ℤ) := by
  unfold Exact at hop
  simp (disch := omega) only [dayOfMonth, hop, Option.bind_eq_bind, Option.bind_some,
    Int.tdiv_eq_ediv_of_nonneg]
  rw [Option.some_inj]
  omega

theorem monthOf_eq (hop : Exact op) (hmp : mp < 12) :
    monthOf op mp = some ((marchMonth mp : ℕ) : ℤ) := by
  unfold monthOf marchMonth
  rw [hop _ (by split_ifs <;> omega) (by split_ifs <;> omega), Option.some_inj]
  split_ifs <;> omega

theorem yearOf_eq (hop : Exact op) (hyoe : yoe < 400) (hera : era < 2 ^ 48) (hmp : mp < 12) :
    yearOf op yoe era (marchMonth mp) = some ((marchYear (yoe + era * 400) mp : ℕ) : ℤ) := by
  unfold Exact at hop
  have hfeb : ((marchMonth mp : ℕ) : ℤ) ≤ 2 ↔ ¬ mp < 10 := by
    unfold marchMonth
    split_ifs <;> omega
  simp only [yearOf, marchYear, hfeb]
  split_ifs with hlt
  all_goals
    simp (disch := omega) only [hop, Option.bind_eq_bind, Option.bind_some]
    rw [Option.some_inj]
    omega

/-- The conversion of the day number wraps nowhere. -/
theorem bmod_days (secs : UInt64) :
    Int.bmod (secs / 86400).toNat (2 ^ 64) = (secs.toNat / 86400 : ℕ) := by
  have hdiv : (secs / 86400).toNat = secs.toNat / 86400 := UInt64.toNat_div _ _
  have hsecs := secs.toNat_lt
  rw [hdiv]
  exact Int.bmod_eq_of_le (by omega) (by omega)

/-- The remainders and quotients are not negative, and below what they divide by or into. -/
structure Locals.InRange (v : Locals) : Prop where
  doe : 0 ≤ v.doe ∧ v.doe < 146097
  yoe : 0 ≤ v.yoe ∧ v.yoe < 400
  doy : 0 ≤ v.doy ∧ v.doy < 366
  mp : 0 ≤ v.mp ∧ v.mp < 12

/-- The date that is computed is the given one. -/
structure Locals.Names (v : Locals) (date : Date) : Prop where
  year : v.y = date.year
  month : v.m = date.month
  day : v.d = date.day

/-- **Every operation that is exact on the natural numbers makes the date of the day.** -/
theorem exists_locals (secs : UInt64) : ∃ v : Locals, ∃ date : Date,
    (∀ op, Exact op → locals op secs = some v) ∧ v.InRange ∧ v.rem = secs.toNat % 86400 ∧
      v.Names date ∧ date.dayNumber = (secs.toNat / 86400 : ℕ) := by
  have hsecs := secs.toNat_lt
  obtain ⟨z, hz⟩ : ∃ z, z = secs.toNat / 86400 + 719468 := ⟨_, rfl⟩
  obtain ⟨doe, hdoe⟩ : ∃ doe, doe = z % 146097 := ⟨_, rfl⟩
  obtain ⟨yoe, hyoe⟩ : ∃ yoe, yoe = (doe - doe / 1460 + doe / 36524 - doe / 146096) / 365 :=
    ⟨_, rfl⟩
  obtain ⟨doy, hdoy⟩ : ∃ doy, doy = doe - marchStart yoe := ⟨_, rfl⟩
  obtain ⟨mp, hmp⟩ : ∃ mp, mp = (5 * doy + 2) / 153 := ⟨_, rfl⟩
  have hdoelt : doe < 146097 := hdoe ▸ Nat.mod_lt _ (by decide)
  obtain ⟨hyoelt, hstart, hdoylt⟩ := yearOfEra_spec hdoelt hyoe
  rw [← hdoy, ← yearLength_era (z / 146097), Nat.add_right_comm] at hdoylt
  obtain ⟨hmplt, hday, date, hyear, hmonth, hdate, hnumber⟩ := exists_date_march hdoylt hmp
  have hdoy366 : doy < 366 := hdoylt.trans_le (yearLength_le _)
  have hera : z / 146097 < 2 ^ 48 := by
    rw [hz]
    omega
  have hrange : ∀ {k n : ℕ}, k < n → (0 : ℤ) ≤ k ∧ (k : ℤ) < n := fun h =>
    ⟨Int.natCast_nonneg _, Int.ofNat_lt.mpr h⟩
  refine ⟨⟨(secs.toNat / 86400 : ℕ), secs.toNat % 86400, z, (z / 146097 : ℕ), doe, yoe, doy, mp,
    date.day, date.month, date.year⟩, date, ?_, ⟨hrange hdoelt, hrange hyoelt, hrange hdoy366,
    hrange hmplt⟩, rfl, ⟨rfl, rfl, rfl⟩, ?_⟩
  · intro op hop
    have hplus : op ((secs.toNat / 86400 : ℕ) + 719468) = some (z : ℤ) := by
      rw [hop _ (by omega) (by omega), Option.some_inj]
      omega
    have hdiv : (z : ℤ) / 146097 = (z / 146097 : ℕ) := rfl
    simp only [locals, bmod_days, hplus, Option.bind_eq_bind, Option.bind_some, Option.pure_def,
      dayOfEra_eq hop (show z < 2 ^ 63 by omega), ← hdoe, yearOfEra_eq hop hdoelt, ← hyoe,
      dayOfYear_eq hop hyoelt hstart hdoelt, ← hdoy, monthIndex_eq hop hdoy366, ← hmp,
      dayOfMonth_eq hop hdoy366 hday, ← hdate, monthOf_eq hop hmplt, ← hmonth]
    rw [hdiv, hmonth, yearOf_eq hop hyoelt hera hmplt, ← hyear]
    rfl
  · rw [hnumber, marchStart_era]
    omega

/-- `utc` writes what is computed in exact arithmetic. -/
theorem utc_eq_render {v : Locals} (h : locals some secs = some v) : utc secs = v.render := by
  have hdays := bmod_days secs
  have hv := Option.some_inj.mp h
  subst hv
  rw [hdays]
  rfl

/-! ## The text -/

/-- A date and a time as RFC 3339 writes them, in UTC. -/
def rfc3339 (date : Date) (time : TimeOfDay) : String :=
  s!"{padded 4 date.year}-{padded 2 date.month}-{padded 2 date.day}T" ++
    s!"{padded 2 time.hour}:{padded 2 time.minute}:{padded 2 time.second}Z"

theorem toList_padded (width n : ℕ) : (padded width n).toList =
    List.replicate (width - (Nat.toDigits 10 n).length) '0' ++ Nat.toDigits 10 n := by
  have hnonneg : ¬ (n : ℤ) < 0 := by omega
  rw [padded, if_neg hnonneg, String.toList_ofList, Int.natAbs_natCast]

theorem padded_injective {width n n' : ℕ} (h : padded width n = padded width n') : n = n' := by
  have hvalue : ∀ k : ℕ, Nat.ofDigitChars 10 (padded width k).toList 0 = k := by
    intro k
    rw [toList_padded, Nat.ofDigitChars_append, Nat.ofDigitChars_replicate_zero, Nat.mul_zero,
      Nat.ofDigitChars_ten_toDigits]
  rw [← hvalue n, h, hvalue]

/-- Two digits are enough below a hundred. -/
theorem length_padded_two {n : ℕ} (h : n < 100) : (padded 2 n).toList.length = 2 := by
  have hlen : (Nat.toDigits 10 n).length ≤ 2 :=
    (Nat.length_toDigits_le_iff (by decide) (by decide)).mpr h
  rw [toList_padded, List.length_append, List.length_replicate]
  omega

variable {date date' : Date} {time time' : TimeOfDay}

/-- Only the year has a variable width. -/
theorem toList_rfc3339 : (rfc3339 date time).toList = (padded 4 date.year).toList ++
    '-' :: ((padded 2 date.month).toList ++ '-' :: ((padded 2 date.day).toList ++
      'T' :: ((padded 2 time.hour).toList ++ ':' :: ((padded 2 time.minute).toList ++
        ':' :: ((padded 2 time.second).toList ++ ['Z']))))) := by
  simp [rfc3339, toString]

theorem padded_two_cons_inj {n n' : ℕ} {c : Char} {tl tl' : List Char} (hn : n < 100)
    (hn' : n' < 100) (h : (padded 2 n).toList ++ c :: tl = (padded 2 n').toList ++ c :: tl') :
    n = n' ∧ tl = tl' := by
  obtain ⟨hpadded, htl⟩ := List.append_inj h (by rw [length_padded_two hn, length_padded_two hn'])
  exact ⟨padded_injective (String.toList_inj.mp hpadded), (List.cons.inj htl).2⟩

/-- **A rendering reads back as one date and one time.** -/
theorem rfc3339_inj (h : rfc3339 date time = rfc3339 date' time') :
    date = date' ∧ time = time' := by
  have hmonth : ∀ date : Date, date.month < 100 := fun date => by
    have hle := date.month_le
    omega
  have hday : ∀ date : Date, date.day < 100 := fun date => by
    have hle := date.day_le.trans (monthLength_le _ _)
    omega
  have hhour : ∀ time : TimeOfDay, time.hour < 100 := fun time => time.hour_lt.trans (by decide)
  have hminute : ∀ time : TimeOfDay, time.minute < 100 :=
    fun time => time.minute_lt.trans (by decide)
  have hsecond : ∀ time : TimeOfDay, time.second < 100 :=
    fun time => time.second_lt.trans (by decide)
  have hlist := congrArg String.toList h
  rw [toList_rfc3339, toList_rfc3339] at hlist
  -- what follows the year is as long on both sides
  obtain ⟨hyear, hrest⟩ := List.append_inj' hlist (by
    simp only [List.length_cons, List.length_append, length_padded_two, hmonth,
      hday, hhour, hminute, hsecond])
  obtain ⟨hmonths, hrest⟩ := padded_two_cons_inj (hmonth _) (hmonth _) (List.cons.inj hrest).2
  obtain ⟨hdays, hrest⟩ := padded_two_cons_inj (hday _) (hday _) hrest
  obtain ⟨hhours, hrest⟩ := padded_two_cons_inj (hhour _) (hhour _) hrest
  obtain ⟨hminutes, hrest⟩ := padded_two_cons_inj (hminute _) (hminute _) hrest
  obtain ⟨hseconds, -⟩ := padded_two_cons_inj (hsecond _) (hsecond _) hrest
  exact ⟨Date.ext (padded_injective (String.toList_inj.mp hyear)) hmonths hdays,
    TimeOfDay.ext hhours hminutes hseconds⟩

/-- The rendering of an instant is the one of its date and time. -/
theorem exists_rfc3339 (secs : UInt64) : ∃ v : Locals, ∃ date : Date, ∃ time : TimeOfDay,
    (∀ op, Exact op → locals op secs = some v) ∧ v.InRange ∧ v.Names date ∧
      date.dayNumber = (secs.toNat / 86400 : ℕ) ∧ time.seconds = secs.toNat % 86400 ∧
      utc secs = rfc3339 date time := by
  obtain ⟨v, date, hlocals, hrange, hrem, hnames, hnumber⟩ := exists_locals secs
  obtain ⟨time, hhour, hminute, hsecond, hseconds⟩ :=
    exists_time (n := secs.toNat % 86400) (Nat.mod_lt _ (by decide))
  refine ⟨v, date, time, hlocals, hrange, hnames, hnumber, hseconds, ?_⟩
  rw [utc_eq_render (hlocals some fun n _ _ => rfl), Locals.render, rfc3339,
    hnames.year, hnames.month, hnames.day, hrem, hhour, hminute, hsecond]

theorem utc_injective : Function.Injective utc := by
  intro secs secs' h
  obtain ⟨v, date, time, -, -, -, hnumber, hseconds, hutc⟩ := exists_rfc3339 secs
  obtain ⟨v', date', time', -, -, -, hnumber', hseconds', hutc'⟩ := exists_rfc3339 secs'
  obtain ⟨rfl, rfl⟩ := rfc3339_inj (hutc.symm.trans (h.trans hutc'))
  have hdays : secs.toNat / 86400 = secs'.toNat / 86400 :=
    Int.ofNat_inj.mp (hnumber.symm.trans hnumber')
  have hrem : secs.toNat % 86400 = secs'.toNat % 86400 := hseconds.symm.trans hseconds'
  rw [← UInt64.toNat_inj, ← Nat.div_add_mod secs.toNat 86400, hdays, hrem, Nat.div_add_mod]

/-! ## What `cmd_verify` compares -/

/-- A record with the dates of its revocation lists rendered from instants. -/
def Record.withCrlDates (rec : Record) (ekThis ekNext intThis intNext : UInt64) : Record :=
  { rec with
    ekCrlThisUpdateUtc := some (utc ekThis)
    ekCrlNextUpdateUtc := some (utc ekNext)
    intermediateCrlThisUpdateUtc := some (utc intThis)
    intermediateCrlNextUpdateUtc := some (utc intNext) }

/-- Texts are compared, and instants are meant. -/
theorem some_utc_eq_iff {secs secs' : UInt64} : some (utc secs) = some (utc secs') ↔ secs = secs' :=
  Option.some_inj.trans utc_injective.eq_iff

theorem judgeCrls_withCrlDates {K : Crates} {rec : Record} {ekDer intDer rootDer : Bytes}
    {now : Duration} {ekThis ekNext intThis intNext : UInt64} :
    judgeCrls K (rec.withCrlDates ekThis ekNext intThis intNext) ekDer intDer rootDer now = .ok () ↔
      ∃ ekHex ekCrl intHex intCrl ec ic, rec.ekCrl = some ekHex ∧ Hex.decode ekHex = .ok ekCrl ∧
        rec.intermediateCrl = some intHex ∧ Hex.decode intHex = .ok intCrl ∧
        Crl.checkChain K.pki ekDer intDer rootDer ekCrl intCrl now = .ok (ec, ic) ∧
        ekThis = ec.thisUpdateUnix ∧ ekNext = ec.nextUpdateUnix ∧
        intThis = ic.thisUpdateUnix ∧ intNext = ic.nextUpdateUnix := by
  rw [judgeCrls_ok]
  constructor
  · rintro ⟨ec, ic, ⟨ekHex, ekCrl, intHex, intCrl, hekHex, hekCrl, hintHex, hintCrl, hchecked⟩,
      hekThis, hekNext, hintThis, hintNext⟩
    exact ⟨ekHex, ekCrl, intHex, intCrl, ec, ic, hekHex, hekCrl, hintHex, hintCrl, hchecked,
      some_utc_eq_iff.mp hekThis, some_utc_eq_iff.mp hekNext, some_utc_eq_iff.mp hintThis,
      some_utc_eq_iff.mp hintNext⟩
  · rintro ⟨ekHex, ekCrl, intHex, intCrl, ec, ic, hekHex, hekCrl, hintHex, hintCrl, hchecked,
      rfl, rfl, rfl, rfl⟩
    exact ⟨ec, ic, ⟨ekHex, ekCrl, intHex, intCrl, hekHex, hekCrl, hintHex, hintCrl, hchecked⟩,
      rfl, rfl, rfl, rfl⟩

/-- **`utc` renders every instant, and as no other.**  Its arithmetic neither overflows nor has a
negative value on the way; it makes the Gregorian date of the day and the time of the rest.  Of
dates rendered from instants, `cmd_verify` therefore asks that the instants are those of the
lists. -/
theorem utc_renders_instants :
    (∀ secs : UInt64, ∃ v : Locals, ∃ date : Date, ∃ time : TimeOfDay,
      locals i64 secs = some v ∧ locals nonneg secs = some v ∧ v.InRange ∧ v.Names date ∧
        date.dayNumber = (secs.toNat / 86400 : ℕ) ∧ time.seconds = secs.toNat % 86400 ∧
        utc secs = rfc3339 date time) ∧
      Function.Injective utc ∧
      ∀ (K : Crates) (rec : Record) (ekDer intDer rootDer : Bytes) (now : Duration)
        (ekThis ekNext intThis intNext : UInt64),
        judgeCrls K (rec.withCrlDates ekThis ekNext intThis intNext) ekDer intDer rootDer now =
            .ok () ↔
          ∃ ekHex ekCrl intHex intCrl ec ic, rec.ekCrl = some ekHex ∧
            Hex.decode ekHex = .ok ekCrl ∧ rec.intermediateCrl = some intHex ∧
            Hex.decode intHex = .ok intCrl ∧
            Crl.checkChain K.pki ekDer intDer rootDer ekCrl intCrl now = .ok (ec, ic) ∧
            ekThis = ec.thisUpdateUnix ∧ ekNext = ec.nextUpdateUnix ∧
            intThis = ic.thisUpdateUnix ∧ intNext = ic.nextUpdateUnix := by
  refine ⟨fun secs => ?_, utc_injective, fun _ _ _ _ _ _ _ _ _ _ => judgeCrls_withCrlDates⟩
  obtain ⟨v, date, time, hlocals, hrange, hnames, hnumber, hseconds, hutc⟩ := exists_rfc3339 secs
  exact ⟨v, date, time, hlocals i64 exact_i64, hlocals nonneg exact_nonneg, hrange, hnames, hnumber,
    hseconds, hutc⟩

end TactiqAttest.Registrar
