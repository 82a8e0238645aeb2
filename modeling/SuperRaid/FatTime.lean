import Mathlib.Tactic

namespace SuperRaid.FatTime

section Calendar

def Leap (y : Int) : Prop := 4 ∣ y ∧ (¬ 100 ∣ y ∨ 400 ∣ y)

instance (y : Int) : Decidable (Leap y) := inferInstanceAs (Decidable (_ ∧ _))

def yearStart (y : Int) : Int := 365 * (y - 1970) + (y - 1969) / 4 - (y - 1901) / 100 + (y - 1601) / 400

theorem yearStart_mono {y z : Int} (h : y ≤ z) : yearStart y ≤ yearStart z := by
  unfold yearStart
  omega

def monthLength (y : Int) (m : Nat) : Nat :=
  if m = 1 then (if Leap y then 29 else 28) else if m = 3 ∨ m = 5 ∨ m = 8 ∨ m = 10 then 30 else 31

def monthStart (y : Int) : Nat → Nat
  | 0 => 0
  | m + 1 => monthStart y m + monthLength y m

theorem monthStart_twelve (y : Int) : monthStart y 12 = if Leap y then 366 else 365 := by
  by_cases hleap : Leap y <;> simp [monthStart, monthLength, hleap]

theorem yearStart_succ (y : Int) : yearStart (y + 1) = yearStart y + monthStart y 12 := by
  rw [monthStart_twelve, Nat.cast_ite]
  unfold yearStart Leap
  split_ifs <;> omega

theorem monthStart_mono (y : Int) {m n : Nat} (h : m ≤ n) : monthStart y m ≤ monthStart y n := by
  induction h with
  | refl => rfl
  | step _ ih => exact ih.trans (Nat.le_add_right _ _)

structure Tm where
  year : Int
  mon : Nat
  mday : Nat
  hour : Nat
  min : Nat
  sec : Nat

/-- The fields stand for a time, given in seconds since 1970. -/
structure IsTm (secs : Int) (tm : Tm) : Prop where
  mon : tm.mon < 12
  mday : 1 ≤ tm.mday ∧ tm.mday ≤ monthLength (tm.year + 1900) tm.mon
  hour : tm.hour < 24
  min : tm.min < 60
  sec : tm.sec < 60
  secs : secs = (yearStart (tm.year + 1900) + monthStart (tm.year + 1900) tm.mon + tm.mday - 1) * 86400 +
    tm.hour * 3600 + tm.min * 60 + tm.sec

variable {secs : Int} {tm : Tm}

theorem IsTm.mday_lt (h : IsTm secs tm) : tm.mday < 32 := by
  have hle := h.mday.2
  unfold monthLength at hle
  split_ifs at hle <;> omega

theorem IsTm.bounds (h : IsTm secs tm) :
    yearStart (tm.year + 1900) * 86400 ≤ secs ∧ secs < yearStart (tm.year + 1900 + 1) * 86400 := by
  have hle : monthStart (tm.year + 1900) tm.mon + monthLength (tm.year + 1900) tm.mon ≤ _ :=
    monthStart_mono (tm.year + 1900) h.mon
  have hmday := h.mday
  have hhour := h.hour
  have hmin := h.min
  have hsec := h.sec
  rw [yearStart_succ, h.secs]
  omega

/-- The year a day is in. The first guess is off by at most one. -/
def yearOf (days : Int) : Int :=
  let y := 400 * days / 146097 + 1970
  if yearStart (y + 1) ≤ days then y + 1 else if yearStart y ≤ days then y else y - 1

theorem yearOf_bounds (days : Int) : yearStart (yearOf days) ≤ days ∧ days < yearStart (yearOf days + 1) := by
  unfold yearOf
  dsimp only
  split_ifs with h₁ h₂
  · refine ⟨h₁, ?_⟩
    unfold yearStart
    omega
  · exact ⟨h₂, not_le.mp h₁⟩
  · refine ⟨?_, by rw [sub_add_cancel]; exact not_le.mp h₂⟩
    unfold yearStart
    omega

def monthOf (y : Int) (day : Nat) : Nat → Nat
  | 0 => 0
  | m + 1 => if monthStart y (m + 1) ≤ day then m + 1 else monthOf y day m

theorem monthOf_spec (y : Int) (day : Nat) (m : Nat) (hday : day < monthStart y (m + 1)) :
    monthOf y day m ≤ m ∧ monthStart y (monthOf y day m) ≤ day ∧ day < monthStart y (monthOf y day m + 1) := by
  induction m with
  | zero => exact ⟨le_rfl, Nat.zero_le _, hday⟩
  | succ m ih =>
    unfold monthOf
    split_ifs with h
    · exact ⟨le_rfl, h, hday⟩
    · obtain ⟨hle, hspec⟩ := ih (not_le.mp h)
      exact ⟨Nat.le_succ_of_le hle, hspec⟩

def time64ToTm (secs : Int) : Tm :=
  let days := secs / 86400
  let rem := (secs % 86400).toNat
  let y := yearOf days
  let day := (days - yearStart y).toNat
  let m := monthOf y day 11
  ⟨y - 1900, m, day - monthStart y m + 1, rem / 3600, rem / 60 % 60, rem % 60⟩

theorem isTm_time64ToTm (secs : Int) : IsTm secs (time64ToTm secs) := by
  have hyear := yearOf_bounds (secs / 86400)
  rw [yearStart_succ] at hyear
  obtain ⟨hmon, hle, hlt⟩ := monthOf_spec (yearOf (secs / 86400))
    (secs / 86400 - yearStart (yearOf (secs / 86400))).toNat 11
    (show _ < monthStart _ 12 by omega)
  rw [monthStart] at hlt
  constructor <;> dsimp only [time64ToTm] <;> (try rw [sub_add_cancel]) <;> omega

end Calendar

section Model

structure Timespec where
  sec : Int
  nsec : Nat
  deriving DecidableEq

/-- The time, the date and the hundredths of seconds of a directory entry. -/
structure Stamp where
  time : Nat
  date : Nat
  cs : Nat
  deriving DecidableEq

structure Zone where
  timeOffset : Option Int
  minutesWest : Int

variable (zone : Zone)

def fatTzOffset : Int := (match zone.timeOffset with | some t => -t | none => zone.minutesWest) * 60

def daysInYear : List Nat := [0, 0, 31, 59, 90, 120, 151, 181, 212, 243, 273, 304, 334, 0, 0, 0]

def isLeapYear (y : Nat) : Bool := y &&& 3 = 0 ∧ y ≠ 120

def leapDay (year month : Nat) : Nat :=
  let days := if 120 < year then (year + 3) / 4 - 1 else (year + 3) / 4
  if isLeapYear year ∧ 2 < month then days + 1 else days

def dateDays (date : Nat) : Nat :=
  let year := date >>> 9
  let month := max 1 ((date >>> 5) &&& 0xf)
  let day := max 1 (date &&& 0x1f) - 1
  year * 365 + leapDay year month + daysInYear.getD month 0 + day + 3652

def timeSeconds (time : Nat) : Nat :=
  ((time &&& 0x1f) <<< 1) + ((time >>> 5) &&& 0x3f) * 60 + (time >>> 11) * 3600

def fatTimeFat2unix (st : Stamp) : Timespec :=
  let second : Int := timeSeconds st.time + dateDays st.date * 86400 + fatTzOffset zone
  if st.cs ≠ 0 then ⟨second + (st.cs / 100 : Nat), st.cs % 100 * 10000000⟩ else ⟨second, 0⟩

def fatTimeUnix2fat (ts : Timespec) : Stamp :=
  let tm := time64ToTm (ts.sec - fatTzOffset zone)
  if tm.year < 80 then ⟨0, 0 <<< 9 ||| 1 <<< 5 ||| 1, 0⟩
  else if 207 < tm.year then ⟨23 <<< 11 ||| 59 <<< 5 ||| 29, 127 <<< 9 ||| 12 <<< 5 ||| 31, 199⟩
  else ⟨tm.hour <<< 11 ||| tm.min <<< 5 ||| tm.sec >>> 1,
    (tm.year - 80).toNat <<< 9 ||| (tm.mon + 1) <<< 5 ||| tm.mday,
    (ts.sec % 2).toNat * 100 + ts.nsec / 10000000⟩

def fatTruncateMtime (ts : Timespec) : Timespec := ⟨ts.sec - ts.sec % 2, 0⟩

/-- fat_truncate_atime. The division rounds towards zero. -/
def fatTruncateAtime (ts : Timespec) : Timespec :=
  ⟨ts.sec - fatTzOffset zone + fatTzOffset zone - (ts.sec - fatTzOffset zone).tmod 86400, 0⟩

end Model

section Fields

theorem pack_eq (i j a : Nat) {b c : Nat} (hb : b < 2 ^ i) (hc : c < 2 ^ j) :
    a <<< (i + j) ||| b <<< j ||| c = (a * 2 ^ i + b) * 2 ^ j + c := by
  rw [Nat.shiftLeft_add, ← Nat.shiftLeft_or_distrib, ← Nat.shiftLeft_add_eq_or_of_lt hb,
    ← Nat.shiftLeft_add_eq_or_of_lt hc, Nat.shiftLeft_eq, Nat.shiftLeft_eq]

theorem mul_add_lt {a b m n : Nat} (ha : a < m) (hb : b < n) : a * n + b < m * n := by
  calc a * n + b < (a + 1) * n := by rw [Nat.succ_mul]; exact Nat.add_lt_add_left hb _
    _ ≤ m * n := Nat.mul_le_mul_right n ha

theorem pack_lt (i j k : Nat) {a b c : Nat} (ha : a < 2 ^ k) (hb : b < 2 ^ i) (hc : c < 2 ^ j) :
    a <<< (i + j) ||| b <<< j ||| c < 2 ^ (k + i + j) := by
  rw [pack_eq i j a hb hc, Nat.pow_add, Nat.pow_add]
  exact mul_add_lt (mul_add_lt ha hb) hc

theorem timeSeconds_pack {hour min sec : Nat} (hmin : min < 64) (hsec : sec < 32) :
    timeSeconds (hour <<< 11 ||| min <<< 5 ||| sec) = sec * 2 + min * 60 + hour * 3600 := by
  have heq : hour <<< 11 ||| min <<< 5 ||| sec = (hour * 2 ^ 6 + min) * 2 ^ 5 + sec := pack_eq 6 5 hour hmin hsec
  have h31 : ∀ n, n &&& 0x1f = n % 32 := fun n => Nat.and_two_pow_sub_one_eq_mod n 5
  have h63 : ∀ n, n &&& 0x3f = n % 64 := fun n => Nat.and_two_pow_sub_one_eq_mod n 6
  rw [heq]
  simp only [timeSeconds, h31, h63, Nat.shiftRight_eq_div_pow, Nat.shiftLeft_eq]
  omega

theorem isLeapYear_iff {n : Nat} (hn : n < 128) : isLeapYear n = true ↔ Leap (n + 1980) := by
  have h3 : n &&& 3 = n % 4 := Nat.and_two_pow_sub_one_eq_mod n 2
  simp only [isLeapYear, Leap, h3, decide_eq_true_eq]
  omega

theorem monthStart_eq (y : Int) {m : Nat} (hm : m < 12) :
    monthStart y m = daysInYear.getD (m + 1) 0 + if Leap y ∧ 2 < m + 1 then 1 else 0 := by
  by_cases hleap : Leap y <;> interval_cases m <;> simp [daysInYear, monthStart, monthLength, hleap]

theorem leapDay_daysInYear {n m : Nat} (hn : n < 128) (hm : m < 12) :
    ((n * 365 + leapDay n (m + 1) + daysInYear.getD (m + 1) 0 + 3652 : Nat) : Int) =
      yearStart (n + 1980) + monthStart (n + 1980) m := by
  have hyear : yearStart (n + 1980) = n * 365 + ((n + 3) / 4 : Nat) + 3652 - if 120 < n then 1 else 0 := by
    unfold yearStart
    split_ifs <;> omega
  simp only [hyear, monthStart_eq _ hm, leapDay, isLeapYear_iff hn]
  split_ifs <;> omega

theorem dateDays_pack {year mon mday : Nat} (hyear : year < 128) (hmon : mon < 12) (hmday : mday < 32) :
    (dateDays (year <<< 9 ||| (mon + 1) <<< 5 ||| mday) : Int) =
      yearStart (year + 1980) + monthStart (year + 1980) mon + (mday - 1 : Nat) := by
  have heq : year <<< 9 ||| (mon + 1) <<< 5 ||| mday = (year * 2 ^ 4 + (mon + 1)) * 2 ^ 5 + mday :=
    pack_eq 4 5 year (show mon + 1 < 2 ^ 4 by omega) hmday
  have h31 : ∀ n, n &&& 0x1f = n % 32 := fun n => Nat.and_two_pow_sub_one_eq_mod n 5
  have h15 : ∀ n, n &&& 0xf = n % 16 := fun n => Nat.and_two_pow_sub_one_eq_mod n 4
  rw [← leapDay_daysInYear hyear hmon, heq]
  simp only [dateDays, h31, h15, Nat.shiftRight_eq_div_pow]
  have hy : ((year * 2 ^ 4 + (mon + 1)) * 2 ^ 5 + mday) / 2 ^ 9 = year := by omega
  have hm : ((year * 2 ^ 4 + (mon + 1)) * 2 ^ 5 + mday) / 2 ^ 5 % 16 = mon + 1 := by omega
  have hd : ((year * 2 ^ 4 + (mon + 1)) * 2 ^ 5 + mday) % 32 = mday := by omega
  rw [hy, hm, hd, Nat.max_eq_right (Nat.le_add_left 1 mon)]
  omega

end Fields

section RoundTrip

variable (zone : Zone) {ts : Timespec}

/-- The local time is in the years from 1980 to 2107. -/
def Representable (ts : Timespec) : Prop :=
  315532800 ≤ ts.sec - fatTzOffset zone ∧ ts.sec - fatTzOffset zone < 4354819200

instance : Decidable (Representable zone ts) := inferInstanceAs (Decidable (_ ∧ _))

theorem fatTzOffset_even : fatTzOffset zone % 2 = 0 := by
  unfold fatTzOffset
  omega

variable {zone}

theorem year_lt_iff (secs : Int) : (time64ToTm secs).year < 80 ↔ secs < 315532800 := by
  have hbounds := (isTm_time64ToTm secs).bounds
  have h1980 : yearStart 1980 = 3652 := by decide
  constructor
  · intro h
    have := yearStart_mono (show (time64ToTm secs).year + 1900 + 1 ≤ 1980 by omega)
    omega
  · intro h
    by_contra hge
    have := yearStart_mono (show 1980 ≤ (time64ToTm secs).year + 1900 by omega)
    omega

theorem lt_year_iff (secs : Int) : 207 < (time64ToTm secs).year ↔ 4354819200 ≤ secs := by
  have hbounds := (isTm_time64ToTm secs).bounds
  have h2108 : yearStart 2108 = 50403 := by decide
  constructor
  · intro h
    have := yearStart_mono (show 2108 ≤ (time64ToTm secs).year + 1900 by omega)
    omega
  · intro h
    by_contra hle
    have := yearStart_mono (show (time64ToTm secs).year + 1900 + 1 ≤ 2108 by omega)
    omega

theorem fatTimeUnix2fat_eq (h : Representable zone ts) :
    fatTimeUnix2fat zone ts =
      let tm := time64ToTm (ts.sec - fatTzOffset zone)
      ⟨tm.hour <<< 11 ||| tm.min <<< 5 ||| tm.sec >>> 1,
        (tm.year - 80).toNat <<< 9 ||| (tm.mon + 1) <<< 5 ||| tm.mday,
        (ts.sec % 2).toNat * 100 + ts.nsec / 10000000⟩ := by
  have hlow := (year_lt_iff (ts.sec - fatTzOffset zone)).not.mpr (not_lt.mpr h.1)
  have hhigh := (lt_year_iff (ts.sec - fatTzOffset zone)).not.mpr (not_le.mpr h.2)
  rw [fatTimeUnix2fat]
  dsimp only
  rw [if_neg hlow, if_neg hhigh]

theorem seconds_fatTimeUnix2fat (h : Representable zone ts) :
    (dateDays (fatTimeUnix2fat zone ts).date : Int) = (ts.sec - fatTzOffset zone) / 86400 ∧
      (timeSeconds (fatTimeUnix2fat zone ts).time : Int) =
        (ts.sec - fatTzOffset zone) % 86400 - ts.sec % 2 := by
  have hlow := (year_lt_iff (ts.sec - fatTzOffset zone)).not.mpr (not_lt.mpr h.1)
  have hhigh := (lt_year_iff (ts.sec - fatTzOffset zone)).not.mpr (not_le.mpr h.2)
  have htm := isTm_time64ToTm (ts.sec - fatTzOffset zone)
  have heven := fatTzOffset_even zone
  rw [fatTimeUnix2fat_eq h]
  dsimp only
  generalize time64ToTm (ts.sec - fatTzOffset zone) = tm at *
  have hmday := htm.mday
  have hhour := htm.hour
  have hmin := htm.min
  have hsec := htm.sec
  have hsecs := htm.secs
  rw [dateDays_pack (by omega) htm.mon htm.mday_lt, timeSeconds_pack (by omega) (by omega),
    Int.toNat_of_nonneg (by omega), show tm.year - 80 + 1980 = tm.year + 1900 by ring]
  omega

theorem fatTimeFat2unix_fatTimeUnix2fat (h : Representable zone ts) (hnsec : ts.nsec < 1000000000) :
    fatTimeFat2unix zone (fatTimeUnix2fat zone ts) = ⟨ts.sec, ts.nsec / 10000000 * 10000000⟩ := by
  obtain ⟨hdate, htime⟩ := seconds_fatTimeUnix2fat h
  have hcs : (fatTimeUnix2fat zone ts).cs = (ts.sec % 2).toNat * 100 + ts.nsec / 10000000 := by
    rw [fatTimeUnix2fat_eq h]
  unfold fatTimeFat2unix
  rw [hdate, htime, hcs]
  split_ifs <;> simp only [Timespec.mk.injEq] <;> omega

theorem fatTimeFat2unix_mtime (h : Representable zone ts) :
    fatTimeFat2unix zone ⟨(fatTimeUnix2fat zone ts).time, (fatTimeUnix2fat zone ts).date, 0⟩ =
      fatTruncateMtime ts := by
  obtain ⟨hdate, htime⟩ := seconds_fatTimeUnix2fat h
  unfold fatTimeFat2unix fatTruncateMtime
  rw [if_neg (by simp), hdate, htime, Timespec.mk.injEq]
  omega

theorem fatTimeFat2unix_atime (h : Representable zone ts) :
    fatTimeFat2unix zone ⟨0, (fatTimeUnix2fat zone ts).date, 0⟩ = fatTruncateAtime zone ts := by
  obtain ⟨hdate, -⟩ := seconds_fatTimeUnix2fat h
  have htmod : (ts.sec - fatTzOffset zone).tmod 86400 = (ts.sec - fatTzOffset zone) % 86400 :=
    Int.tmod_eq_emod_of_nonneg (le_trans (by decide) h.1)
  unfold fatTimeFat2unix fatTruncateAtime
  rw [if_neg (by simp), hdate, htmod, Timespec.mk.injEq]
  refine ⟨?_, rfl⟩
  simp only [timeSeconds, Nat.zero_and, Nat.zero_shiftLeft, Nat.zero_shiftRight]
  omega

theorem fatTimeUnix2fat_lt (hnsec : ts.nsec < 1000000000) :
    (fatTimeUnix2fat zone ts).time < 2 ^ 16 ∧ (fatTimeUnix2fat zone ts).date < 2 ^ 16 ∧
      (fatTimeUnix2fat zone ts).cs < 2 ^ 8 := by
  have htm := isTm_time64ToTm (ts.sec - fatTzOffset zone)
  unfold fatTimeUnix2fat
  dsimp only
  split_ifs with hlow hhigh
  · decide
  · decide
  · generalize time64ToTm (ts.sec - fatTzOffset zone) = tm at *
    have hhour := htm.hour
    have hmin := htm.min
    have hsec := htm.sec
    have hmon := htm.mon
    refine ⟨pack_lt 6 5 5 ?_ ?_ ?_, pack_lt 4 5 7 ?_ ?_ htm.mday_lt, show _ * 100 + _ < _ from ?_⟩ <;> omega

theorem fatTime_roundTrip (zone : Zone) (ts : Timespec) (hnsec : ts.nsec < 1000000000) :
    let st := fatTimeUnix2fat zone ts
    (st.time < 2 ^ 16 ∧ st.date < 2 ^ 16 ∧ st.cs < 2 ^ 8) ∧
      fatTimeFat2unix zone st =
        if ts.sec < 315532800 + fatTzOffset zone then ⟨315532800 + fatTzOffset zone, 0⟩
        else if 4354819200 + fatTzOffset zone ≤ ts.sec then ⟨4354819199 + fatTzOffset zone, 990000000⟩
        else ⟨ts.sec, ts.nsec / 10000000 * 10000000⟩ := by
  refine ⟨fatTimeUnix2fat_lt hnsec, ?_⟩
  have hlow := year_lt_iff (ts.sec - fatTzOffset zone)
  have hhigh := lt_year_iff (ts.sec - fatTzOffset zone)
  have hfirst : timeSeconds 0 = 0 ∧ dateDays (0 <<< 9 ||| 1 <<< 5 ||| 1) = 3652 := by decide
  have hlast : timeSeconds (23 <<< 11 ||| 59 <<< 5 ||| 29) = 86398 ∧
      dateDays (127 <<< 9 ||| 12 <<< 5 ||| 31) = 50402 := by decide
  split_ifs with h₁ h₂
  · rw [fatTimeUnix2fat, if_pos (hlow.mpr (by omega)), fatTimeFat2unix, if_neg (by decide), hfirst.1, hfirst.2]
    simp
  · rw [fatTimeUnix2fat, if_neg (hlow.not.mpr (by omega)), if_pos (hhigh.mpr (by omega)), fatTimeFat2unix,
      if_pos (by decide), hlast.1, hlast.2]
    dsimp only
    rw [Timespec.mk.injEq]
    omega
  · exact fatTimeFat2unix_fatTimeUnix2fat ⟨by omega, by omega⟩ hnsec

theorem fatTime_roundTrip_leapDay :
    fatTimeFat2unix ⟨some 60, 0⟩ (fatTimeUnix2fat ⟨some 60, 0⟩ ⟨1709210001, 123456789⟩) =
      ⟨1709210001, 120000000⟩ :=
  (fatTime_roundTrip ⟨some 60, 0⟩ ⟨1709210001, 123456789⟩ (by decide)).2.trans (by decide)

end RoundTrip

end SuperRaid.FatTime
