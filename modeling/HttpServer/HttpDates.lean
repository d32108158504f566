import HttpServer.Calendar
import HttpServer.CivilCalendar
import HttpServer.ResponseFraming
import HttpServer.SerializedSize
import Mathlib.Tactic.IntervalCases

/-!
# Dates that are written and read back

`http_date_format` writes the Gregorian date, and `http_date_parse` reads back every
date whose year has at most four digits, and no other.
-/

namespace HttpServer

open CivilCalendar

variable {t year u : ℤ}

/-! ## The date of a time -/

/-- The month that a day is in, months counted from March. -/
def monthOfDay (u : ℤ) : ℤ := (5 * u + 2) / 153

/-- The first day of that month. -/
def dayOfMonth (mp : ℤ) : ℤ := (153 * mp + 2) / 5

theorem gmtime_date (h : MarchDay (t / 86400 + 719468) year u) :
    (gmtime t).mday = u - dayOfMonth (monthOfDay u) + 1 ∧
      (gmtime t).mon =
        (if monthOfDay u < 10 then monthOfDay u + 2 else monthOfDay u - 10) ∧
      (gmtime t).year = year + if (gmtime t).mon ≤ 1 then 1 else 0 := by
  have hmod : t / 86400 + 719468 - (t / 86400 + 719468) / 146097 * 146097 =
      (t / 86400 + 719468) % 146097 := by omega
  obtain ⟨hera, hyear, hday⟩ := h.divides hmod
  have hwhole : year % 400 + year / 400 * 400 = year := by omega
  rw [hera] at hyear hday
  unfold monthOfDay dayOfMonth
  simp only [gmtime, hyear, hday, hera, hwhole, and_self]

/-- The days of the months from March on; February is as long as it can be. -/
theorem monthOfDay_spec (h0 : 0 ≤ u) (h1 : u ≤ 365) :
    0 ≤ monthOfDay u ∧ monthOfDay u ≤ 11 ∧ 0 ≤ u - dayOfMonth (monthOfDay u) ∧
      u - dayOfMonth (monthOfDay u) <
        (if monthOfDay u = 11 then 29
          else if monthOfDay u = 1 ∨ monthOfDay u = 3 ∨ monthOfDay u = 6 ∨ monthOfDay u = 8 then 30
          else 31) := by
  unfold dayOfMonth
  obtain ⟨mp, hmp⟩ : ∃ mp, mp = monthOfDay u := ⟨_, rfl⟩
  rw [← hmp]
  unfold monthOfDay at hmp
  have hlow : 0 ≤ mp := by omega
  have hhigh : mp ≤ 11 := by omega
  refine ⟨hlow, hhigh, by omega, ?_⟩
  interval_cases mp <;> simp <;> omega

theorem monthLength_of_monthOfDay (h : MarchDay t year u) :
    u - dayOfMonth (monthOfDay u) + 1 ≤
      monthLength
        (year + if (if monthOfDay u < 10 then monthOfDay u + 2 else monthOfDay u - 10) ≤ 1 then 1
          else 0)
        (if monthOfDay u < 10 then monthOfDay u + 2 else monthOfDay u - 10) := by
  obtain ⟨hlow, hhigh, hfirst, hlast⟩ := monthOfDay_spec h.nonneg h.le
  have hleap := h.leap
  unfold dayOfMonth at *
  unfold monthOfDay at *
  generalize hmp : (5 * u + 2) / 153 = mp at *
  unfold monthLength
  interval_cases mp <;> simp at hlast ⊢ <;> try omega
  split
  · omega
  · next hno =>
    have hne : u ≠ 365 := fun hu => hno (hleap hu)
    omega

theorem mon_range (h0 : 0 ≤ u) (h1 : u ≤ 365) :
    0 ≤ (if monthOfDay u < 10 then monthOfDay u + 2 else monthOfDay u - 10) ∧
      (if monthOfDay u < 10 then monthOfDay u + 2 else monthOfDay u - 10) < 12 := by
  obtain ⟨hlow, hhigh, -⟩ := monthOfDay_spec h0 h1
  split <;> omega

theorem gmtime_month (t : ℤ) : 0 ≤ (gmtime t).mon ∧ (gmtime t).mon < 12 := by
  obtain ⟨year, u, h⟩ := exists_marchDay (t / 86400 + 719468)
  obtain ⟨-, hmon, -⟩ := gmtime_date h
  rw [hmon]
  exact mon_range h.nonneg h.le

theorem gmtime_day (t : ℤ) :
    1 ≤ (gmtime t).mday ∧ (gmtime t).mday ≤ monthLength (gmtime t).year (gmtime t).mon := by
  obtain ⟨year, u, h⟩ := exists_marchDay (t / 86400 + 719468)
  obtain ⟨hday, hmon, hyear⟩ := gmtime_date h
  obtain ⟨-, -, hfirst, -⟩ := monthOfDay_spec h.nonneg h.le
  rw [hyear, hmon, hday]
  exact ⟨by omega, monthLength_of_monthOfDay h⟩

/-- The date of a time. -/
def civilDate (t : ℤ) : Date :=
  ⟨(gmtime t).year, (gmtime t).mon, (gmtime t).mday, gmtime_month t, gmtime_day t⟩

theorem civilDate_date {n : ℤ} (h : MarchDay (n + 719468) year u) :
    (civilDate (n * 86400)).day = u - dayOfMonth (monthOfDay u) + 1 ∧
      (civilDate (n * 86400)).month =
        (if monthOfDay u < 10 then monthOfDay u + 2 else monthOfDay u - 10) ∧
      (civilDate (n * 86400)).year = year + if (civilDate (n * 86400)).month ≤ 1 then 1 else 0 := by
  apply gmtime_date
  rw [Int.mul_ediv_cancel n (by decide)]
  exact h

/-- The day after is in the same month, or begins the next. -/
theorem monthOfDay_succ (u : ℤ) :
    monthOfDay (u + 1) = monthOfDay u ∨
      monthOfDay (u + 1) = monthOfDay u + 1 ∧ dayOfMonth (monthOfDay u + 1) = u + 1 := by
  unfold dayOfMonth monthOfDay
  omega

theorem monthLength_full {mp : ℤ} (h0 : 0 ≤ mp) (h1 : mp ≤ 10) (year : ℤ) :
    monthLength year (if mp < 10 then mp + 2 else mp - 10) =
      dayOfMonth (mp + 1) - dayOfMonth mp := by
  unfold dayOfMonth monthLength
  interval_cases mp <;> rfl

theorem civilDate_next {n : ℤ} (h : MarchDay (n + 719468) year u) :
    civilDate ((n + 1) * 86400) = (civilDate (n * 86400)).next := by
  obtain ⟨hday, hmon, hyear⟩ := civilDate_date h
  obtain ⟨hlow, hhigh, -⟩ := monthOfDay_spec h.nonneg h.le
  have htomorrow : ∀ {year' u'}, MarchDay (n + 719468 + 1) year' u' →
      MarchDay (n + 1 + 719468) year' u' := by
    intro year' u' h'
    rw [Int.add_right_comm]
    exact h'
  generalize civilDate (n * 86400) = d at *
  rcases h.next with ⟨hu, -, hnext⟩ | ⟨hu, hleap, hnext⟩
  · have hlast := monthLength_of_monthOfDay hnext
    obtain ⟨-, hhigh', -⟩ := monthOfDay_spec hnext.nonneg hnext.le
    obtain ⟨hday', hmon', hyear'⟩ := civilDate_date (htomorrow hnext)
    generalize civilDate ((n + 1) * 86400) = d' at *
    have hsucc := monthOfDay_succ u
    generalize monthOfDay u = mp at *
    rcases hsucc with hsame | ⟨hsame, hfirst⟩
    · rw [hsame] at hday' hmon' hlast
      rw [← hmon, ← hyear] at hlast
      obtain ⟨hy, hm, hd⟩ := Date.next_of_lt (show d.day < monthLength d.year d.month by omega)
      refine Date.ext (.trans ?_ hy.symm) (.trans ?_ hm.symm) (.trans ?_ hd.symm)
      · rw [hyear', hmon', ← hmon, hyear]
      · rw [hmon', hmon]
      · omega
    · have hfull := monthLength_full hlow (by omega) d.year
      rw [hsame] at hday' hmon'
      rw [← hmon] at hfull
      have hend : d.day = monthLength d.year d.month := by omega
      by_cases hdecember : d.month = 11
      · obtain ⟨hy, hm, hd⟩ := Date.next_of_year hend hdecember
        have hmp : mp = 9 := by
          rw [hdecember] at hmon
          split at hmon <;> omega
        have hjanuary : d'.month = 0 := by rw [hmon', hmp]; rfl
        refine Date.ext (.trans ?_ hy.symm) (.trans ?_ hm.symm) (.trans ?_ hd.symm)
        · rw [hyear', hjanuary, hyear, hdecember]
          simp
        · exact hjanuary
        · omega
      · have hmonth : d'.month = d.month + 1 ∧ (d'.month ≤ 1 ↔ d.month ≤ 1) := by
          rw [hmon']
          rw [hmon] at hdecember ⊢
          split at hdecember <;> split <;> omega
        have hrange := d.month_range
        obtain ⟨hy, hm, hd⟩ := Date.next_of_month hend (by omega)
        refine Date.ext (.trans ?_ hy.symm) (.trans ?_ hm.symm) (.trans ?_ hd.symm)
        · simp only [hyear', hyear, hmonth.2]
        · exact hmonth.1
        · omega
  · -- the end of February
    have hmp : monthOfDay u = 11 := by
      have hle := h.le
      unfold monthOfDay
      omega
    obtain ⟨hday', hmon', hyear'⟩ := civilDate_date (htomorrow hnext)
    rw [hmp] at hday hmon
    rw [hmon'] at hyear'
    rw [hmon] at hyear
    have hlength : monthLength d.year d.month = if Leap (year + 1) then 29 else 28 := by
      rw [hmon, hyear]
      rfl
    have hend : d.day = monthLength d.year d.month := by
      have hle := h.le
      have hlast := h.leap
      have hfebruary : dayOfMonth 11 = 337 := rfl
      rw [hlength]
      split
      · next hyes =>
        have hu := hleap hyes
        omega
      · next hno =>
        have hne : u ≠ 365 := fun hu => hno (hlast hu)
        omega
    obtain ⟨hy, hm, hd⟩ := Date.next_of_month hend (by rw [hmon]; decide)
    refine Date.ext (.trans ?_ hy.symm) (.trans ?_ hm.symm) (.trans ?_ hd.symm)
    · rw [hyear', hyear]
      exact Int.add_zero _
    · rw [hmon', hmon]
      rfl
    · exact hday'

theorem civilDate_counts : Counts fun n => civilDate (n * 86400) where
  start := Date.ext (by decide) (by decide) (by decide)
  next n := by
    obtain ⟨year, u, h⟩ := exists_marchDay (n + 719468)
    exact civilDate_next h

theorem timegm_gmtime (t : ℤ) : timegm (gmtime t) = t := by
  obtain ⟨year, u, h⟩ := exists_marchDay (t / 86400 + 719468)
  obtain ⟨hday, hmon, hyear⟩ := gmtime_date h
  obtain ⟨hlow, hhigh, -⟩ := monthOfDay_spec h.nonneg h.le
  have hmarch : (if (gmtime t).mon ≤ 1 then (gmtime t).year - 1 else (gmtime t).year) = year ∧
      (if (gmtime t).mon ≤ 1 then (gmtime t).mon + 10 else (gmtime t).mon - 2) =
        monthOfDay u := by
    rw [hyear, hmon]
    split <;> split <;> omega
  have hstart : daysOfMonthStart (gmtime t).year (gmtime t).mon =
      marchFirst year + dayOfMonth (monthOfDay u) - 719468 := by
    unfold daysOfMonthStart marchFirst dayOfMonth
    dsimp only
    rw [hmarch.1, hmarch.2]
    omega
  have hclock : (gmtime t).hour * 3600 + (gmtime t).min * 60 + (gmtime t).sec = t % 86400 := by
    unfold gmtime
    dsimp only
    omega
  have heq := h.eq
  unfold timegm
  rw [hstart, hday]
  omega

/-! ## Numbers -/

theorem isDigit_of_digitValue {c : Byte} {d : ℕ} (h : digitValue c 10 = some d) :
    isDigit c = true ∧ c.toNat - 48 = d := by
  unfold digitValue at h
  obtain ⟨v, hv, hd⟩ := Option.bind_eq_some_iff.mp h
  obtain ⟨hlt, hd⟩ := Option.ite_none_right_eq_some.mp hd
  obtain rfl := Option.some.inj hd
  split at hv
  · next hdigit => exact ⟨hdigit, Option.some.inj hv⟩
  · split at hv
    · have hten := Option.some.inj hv
      omega
    · split at hv
      · have hten := Option.some.inj hv
        omega
      · cases hv

/-- The digit loop reads a number that is not too large up to where it ends. -/
theorem scanDigits_numeral {hi k v n : ℕ} {ds rest : Bytes} (hvalue : numeral 10 v ds = some n)
    (hbound : n ≤ hi) (hlength : ds.length ≤ k) (hends : ∀ c ∈ rest.head?, isDigit c = false) :
    scanDigits hi k v (ds ++ rest) = (n, rest) := by
  induction ds generalizing k v with
  | nil =>
    obtain rfl := Option.some.inj hvalue
    cases k with
    | zero => rfl
    | succ k =>
      cases rest with
      | nil => rfl
      | cons c rest =>
        have hc : isDigit c = false := hends c rfl
        rw [List.nil_append, scanDigits, hc, Bool.and_false]
        rfl
  | cons c ds ih =>
    rw [numeral] at hvalue
    cases hd : digitValue c 10 with
    | none => simp [hd] at hvalue
    | some d =>
      rw [hd] at hvalue
      obtain ⟨hdigit, hsub⟩ := isDigit_of_digitValue hd
      have hge := le_of_numeral (by decide) hvalue
      cases k with
      | zero => exact absurd hlength (Nat.not_succ_le_zero _)
      | succ k =>
        have hgrows : v * 10 ≤ hi := by omega
        rw [List.cons_append, scanDigits, hdigit, Bool.and_true, decide_eq_true hgrows, if_pos rfl,
          hsub]
        exact ih hvalue (Nat.le_of_succ_le_succ hlength)

theorem not_space_of_isDigit {c : Byte} (hc : isDigit c = true) :
    (c == SP) = false ∧ isSpace c = false := by
  obtain ⟨hlow, -⟩ : 48 ≤ c ∧ c ≤ 57 := by
    unfold isDigit at hc
    simpa using hc
  have hsp : (c == SP) = false := beq_eq_false_iff_ne.mpr (by
    rintro rfl
    exact absurd hlow (by decide))
  have hcontrol : decide (c ≤ 13) = false :=
    decide_eq_false fun h => absurd (UInt8.le_trans hlow h) (by decide : ¬ (48 : Byte) ≤ 13)
  refine ⟨hsp, ?_⟩
  unfold isSpace
  rw [hsp, hcontrol, Bool.and_false]
  rfl

/-- A numeric conversion reads a number of as many digits as it may have. -/
theorem scanNumber_numeral {lo hi k n : ℕ} {ds rest : Bytes} (hne : ds ≠ [])
    (hvalue : numeral 10 0 ds = some n) (hlow : lo ≤ n) (hhigh : n ≤ hi) (hlength : ds.length ≤ k)
    (hends : ∀ c ∈ rest.head?, isDigit c = false) :
    scanNumber lo hi k (ds ++ rest) = some (n, rest) := by
  cases ds with
  | nil => exact absurd rfl hne
  | cons c ds =>
    rw [numeral] at hvalue
    cases hd : digitValue c 10 with
    | none => simp [hd] at hvalue
    | some d =>
      rw [hd] at hvalue
      dsimp only at hvalue
      rw [Nat.zero_mul, Nat.zero_add] at hvalue
      obtain ⟨hdigit, hsub⟩ := isDigit_of_digitValue hd
      have hloop := scanDigits_numeral hvalue hhigh (Nat.le_sub_of_add_le hlength) hends
      have hin : ¬ (decide (n < lo) || decide (hi < n)) = true := by simp [hlow, hhigh]
      unfold scanNumber
      rw [List.cons_append, List.dropWhile_cons, (not_space_of_isDigit hdigit).1]
      simp only [Bool.false_eq_true, if_false, hdigit, Bool.not_true, hsub, hloop, if_neg hin]

/-! ## Texts -/

theorem scanName_weekday {i : ℕ} (hi : i < 7) (rest : Bytes) :
    scanName weekdayNames ((weekdayNames.getD i []).take 3 ++ 44 :: rest) =
      some (i, 44 :: rest) := by
  interval_cases i <;> rfl

theorem scanName_month {i : ℕ} (hi : i < 12) (rest : Bytes) :
    scanName monthNames ((monthNames.getD i []).take 3 ++ SP :: rest) = some (i, SP :: rest) := by
  interval_cases i <;> rfl

/-- The fields of a time within their ranges, whatever the year. -/
structure Tm.Shown (tm : Tm) : Prop where
  sec : 0 ≤ tm.sec ∧ tm.sec < 60
  min : 0 ≤ tm.min ∧ tm.min < 60
  hour : 0 ≤ tm.hour ∧ tm.hour < 24
  mday : 1 ≤ tm.mday ∧ tm.mday ≤ 31
  mon : 0 ≤ tm.mon ∧ tm.mon < 12
  wday : 0 ≤ tm.wday ∧ tm.wday < 7

theorem gmtime_shown (t : ℤ) : (gmtime t).Shown := by
  have hday := gmtime_day t
  have hlength : monthLength (gmtime t).year (gmtime t).mon ≤ 31 := by
    unfold monthLength
    split_ifs <;> decide
  refine ⟨?_, ?_, ?_, ⟨hday.1, hday.2.trans hlength⟩, gmtime_month t, ?_⟩
  all_goals
    unfold gmtime
    dsimp only
    omega

theorem numeral_showTwo {n : ℤ} (h0 : 0 ≤ n) (h1 : n < 100) :
    numeral 10 0 (showTwo n) = some n.toNat ∧ (showTwo n).length = 2 := by
  have hdigit : ∀ {d : ℕ}, d < 10 → showNat d = [(Nat.digitChar d).val.toUInt8] := fun hd => by
    rw [showNat, Nat.toDigits_of_lt_base hd]
    rfl
  have htens : (n / 10).toNat < 10 := by omega
  have hones : (n % 10).toNat < 10 := by omega
  unfold showTwo
  constructor
  · rw [numeral_append, numeral_showNat, Option.bind_some, hdigit hones]
    simp only [numeral, digitValue_digitChar hones, Option.some.injEq]
    omega
  · rw [hdigit htens, hdigit hones]
    rfl

/-- A field of two digits is read back. -/
theorem scanNumber_showTwo {n : ℤ} {lo hi : ℕ} (hlow : lo ≤ n) (hhigh : n ≤ hi) (hhi : hi < 100)
    {c : Byte} (hc : isDigit c = false) (rest : Bytes) :
    scanNumber lo hi 2 (showTwo n ++ c :: rest) = some (n.toNat, c :: rest) := by
  obtain ⟨hvalue, hlength⟩ := numeral_showTwo (n := n) (by omega) (by omega)
  refine scanNumber_numeral ?_ hvalue (by omega) (by omega) hlength.le ?_
  · exact List.ne_nil_of_length_pos (by omega)
  · intro c' hc'
    obtain rfl := Option.some.inj hc'
    exact hc

/-- The white space before a number or a name is skipped. -/
theorem dropWhile_space {s : Bytes} (hs : ∀ c ∈ s.head?, isSpace c = false) :
    (SP :: s).dropWhile isSpace = s := by
  have hsp : isSpace SP = true := rfl
  rw [List.dropWhile_cons, hsp, if_pos rfl]
  cases s with
  | nil => rfl
  | cons c s =>
    rw [List.dropWhile_cons, hs c rfl]
    rfl

def Tm.clockText (tm : Tm) : Bytes :=
  showTwo tm.hour ++ 58 :: (showTwo tm.min ++ 58 :: (showTwo tm.sec ++ SP :: ascii "GMT"))

theorem strftimeHttp_eq (tm : Tm) :
    strftimeHttp tm = (weekdayNames.getD tm.wday.toNat []).take 3 ++ 44 :: SP ::
      (showTwo tm.mday ++ SP :: ((monthNames.getD tm.mon.toNat []).take 3 ++ SP ::
        (showInt tm.year ++ SP :: tm.clockText))) := by
  have hcomma : ascii ", " = [44, SP] := rfl
  have hgmt : ascii " GMT" = SP :: ascii "GMT" := rfl
  unfold strftimeHttp Tm.clockText
  rw [hcomma, hgmt]
  simp only [List.append_assoc, List.cons_append, List.nil_append]

/-- The number of a numeric conversion leaves a digit, or what follows the digits. -/
theorem scanNumber_rest {lo hi k v : ℕ} {ds rest s : Bytes} (hds : ∀ c ∈ ds, isDigit c = true)
    (hne : ds ≠ []) (hends : ∀ c ∈ rest.head?, isDigit c = false) (hk : 0 < k)
    (h : scanNumber lo hi k (ds ++ rest) = some (v, s)) :
    ∃ j, j ≤ k ∧ s = ds.drop j ++ rest := by
  have hloop : ∀ (k v : ℕ) (ds : Bytes), (∀ c ∈ ds, isDigit c = true) →
      ∃ j, j ≤ k ∧ (scanDigits hi k v (ds ++ rest)).2 = ds.drop j ++ rest := by
    intro k
    induction k with
    | zero => exact fun v ds _ => ⟨0, le_rfl, by unfold scanDigits; rfl⟩
    | succ k ih =>
      intro v ds hds
      cases ds with
      | nil =>
        refine ⟨0, Nat.zero_le _, ?_⟩
        cases rest with
        | nil => rfl
        | cons c rest =>
          have hc : isDigit c = false := hends c rfl
          rw [List.nil_append, scanDigits, hc, Bool.and_false]
          rfl
      | cons c ds =>
        obtain ⟨-, hrest⟩ := List.forall_mem_cons.mp hds
        rw [List.cons_append, scanDigits]
        split
        · obtain ⟨j, hj, heq⟩ := ih (v * 10 + (c.toNat - 48)) ds hrest
          exact ⟨j + 1, Nat.succ_le_succ hj, heq⟩
        · exact ⟨0, Nat.zero_le _, rfl⟩
  cases ds with
  | nil => exact absurd rfl hne
  | cons c ds =>
    obtain ⟨hc, hrest⟩ := List.forall_mem_cons.mp hds
    obtain ⟨j, hj, heq⟩ := hloop (k - 1) (c.toNat - 48) ds hrest
    unfold scanNumber at h
    rw [List.cons_append, List.dropWhile_cons, (not_space_of_isDigit hc).1] at h
    simp only [Bool.false_eq_true, if_false, hc, Bool.not_true] at h
    split at h
    · cases h
    · obtain ⟨-, rfl⟩ := Prod.mk.inj (Option.some.inj h)
      exact ⟨j + 1, by omega, heq⟩

/-- A year of more than four digits leaves a digit where the hour would have to end. -/
theorem scanHour_none {ds rest s : Bytes} {lo hi year : ℕ} (hds : ∀ c ∈ ds, isDigit c = true)
    (hlength : 4 < ds.length) (h : scanNumber lo hi 4 (ds ++ SP :: rest) = some (year, s)) :
    ((scanNumber 0 23 2 (s.dropWhile isSpace)).bind fun p => scanByte 58 p.2) = none := by
  have hsp : ∀ c ∈ (SP :: rest).head?, isDigit c = false := fun c hc => by
    obtain rfl := Option.some.inj hc
    rfl
  obtain ⟨j, hj, rfl⟩ := scanNumber_rest hds (List.ne_nil_of_length_pos (by omega)) hsp
    (by decide) h
  have hleft : ds.drop j ≠ [] := by
    rw [ne_eq, List.drop_eq_nil_iff]
    omega
  have hdrop : ∀ c ∈ ds.drop j, isDigit c = true := fun c hc => hds c (List.mem_of_mem_drop hc)
  have hspace : (ds.drop j ++ SP :: rest).dropWhile isSpace = ds.drop j ++ SP :: rest := by
    generalize ds.drop j = left at hleft hdrop
    cases left with
    | nil => exact absurd rfl hleft
    | cons c left =>
      rw [List.cons_append, List.dropWhile_cons,
        (not_space_of_isDigit (hdrop c (List.mem_cons_self ..))).2]
      rfl
  rw [hspace]
  cases hhour : scanNumber 0 23 2 (ds.drop j ++ SP :: rest) with
  | none => rfl
  | some p =>
    obtain ⟨hour, s⟩ := p
    obtain ⟨j', -, rfl⟩ := scanNumber_rest hdrop hleft hsp (by decide) hhour
    have hdrop' : ∀ c ∈ (ds.drop j).drop j', isDigit c = true :=
      fun c hc => hdrop c (List.mem_of_mem_drop hc)
    rw [Option.bind_some]
    generalize (ds.drop j).drop j' = left at hdrop'
    cases left with
    | nil => rfl
    | cons c left =>
      have hc := hdrop' c (List.mem_cons_self ..)
      refine if_neg ?_
      rintro rfl
      exact absurd hc (by decide)

theorem isDigit_of_mem_showNat {n : ℕ} : ∀ c ∈ showNat n, isDigit c = true := by
  intro c hc
  obtain ⟨d, hd⟩ := Option.ne_none_iff_exists'.mp (numeral_digits (numeral_showNat n) c hc)
  exact (isDigit_of_digitValue hd).1

theorem head_not_space {ds rest : Bytes} (hds : ∀ c ∈ ds, isDigit c = true) (hne : ds ≠ []) :
    ∀ c ∈ (ds ++ rest).head?, isSpace c = false := by
  intro c hc
  cases ds with
  | nil => exact absurd rfl hne
  | cons c' ds =>
    obtain rfl := Option.some.inj hc
    exact (not_space_of_isDigit (hds c' (List.mem_cons_self ..))).2

theorem isDigit_of_mem_showTwo {n : ℤ} : ∀ c ∈ showTwo n, isDigit c = true := by
  intro c hc
  exact (List.mem_append.mp hc).elim (isDigit_of_mem_showNat c) (isDigit_of_mem_showNat c)

theorem showTwo_ne_nil (n : ℤ) : showTwo n ≠ [] := by
  intro hnil
  exact showNat_ne_nil _ (List.append_eq_nil_iff.mp hnil).1

/-- Of what has been written everything is read back, if the year has at most four digits. -/
theorem strptimeHttp_strftimeHttp {tm : Tm} (h : tm.Shown) :
    strptimeHttp (strftimeHttp tm) =
      if 0 ≤ tm.year ∧ tm.year ≤ 9999 then some tm else none := by
  obtain ⟨hsec, hmin, hhour, hmday, hmon, hwday⟩ := h
  have hcomma : ∀ s, scanByte 44 (44 :: s) = some s := fun _ => rfl
  have hcolon : ∀ s, scanByte 58 (58 :: s) = some s := fun _ => rfl
  have hdigits : ∀ n s, (SP :: (showTwo n ++ s)).dropWhile isSpace = showTwo n ++ s := fun n s =>
    dropWhile_space (head_not_space isDigit_of_mem_showTwo (showTwo_ne_nil n))
  have hmonth : ∀ s, (SP :: ((monthNames.getD tm.mon.toNat []).take 3 ++ s)).dropWhile isSpace =
      (monthNames.getD tm.mon.toNat []).take 3 ++ s := by
    intro s
    obtain ⟨i, hi⟩ : ∃ i, i = tm.mon.toNat := ⟨_, rfl⟩
    have hrange : i < 12 := by omega
    rw [← hi]
    interval_cases i <;> rfl
  have hmdayScan : ∀ s, scanNumber 1 31 2 (showTwo tm.mday ++ SP :: s) = _ :=
    scanNumber_showTwo hmday.1 hmday.2 (by decide) rfl
  rw [strftimeHttp_eq]
  unfold strptimeHttp
  rw [scanName_weekday (by omega)]
  simp only [Option.bind_eq_bind, Option.bind_some, hcomma, hdigits, hmdayScan, hmonth,
    scanName_month (show tm.mon.toNat < 12 by omega)]
  by_cases hneg : tm.year < 0
  · -- the sign is no digit
    have hshown : showInt tm.year = 45 :: showNat tm.year.natAbs := if_pos hneg
    rw [if_neg (by omega), hshown]
    rfl
  · have hshown : showInt tm.year = showNat tm.year.natAbs := if_neg hneg
    have hyear : ∀ s, (SP :: (showNat tm.year.natAbs ++ s)).dropWhile isSpace =
        showNat tm.year.natAbs ++ s := fun s =>
      dropWhile_space (head_not_space isDigit_of_mem_showNat (showNat_ne_nil _))
    rw [hshown, hyear]
    by_cases hlong : tm.year ≤ 9999
    · have hlength : (showNat tm.year.natAbs).length ≤ 4 :=
        showNat_length (by decide) (by omega)
      have hends : ∀ c ∈ (SP :: tm.clockText).head?, isDigit c = false := fun c hc => by
        obtain rfl := Option.some.inj hc
        rfl
      have hscan : scanNumber 0 9999 4 (showNat tm.year.natAbs ++ SP :: tm.clockText) = _ :=
        scanNumber_numeral (showNat_ne_nil _) (numeral_showNat tm.year.natAbs) (Nat.zero_le _)
          (by omega) hlength hends
      have hhourScan : ∀ s, scanNumber 0 23 2 (showTwo tm.hour ++ 58 :: s) = _ :=
        scanNumber_showTwo hhour.1 (Int.le_of_lt_add_one hhour.2) (by decide) rfl
      have hminScan : ∀ s, scanNumber 0 59 2 (showTwo tm.min ++ 58 :: s) = _ :=
        scanNumber_showTwo hmin.1 (Int.le_of_lt_add_one hmin.2) (by decide) rfl
      have hsecScan : ∀ s, scanNumber 0 61 2 (showTwo tm.sec ++ SP :: s) = _ :=
        scanNumber_showTwo hsec.1 (by omega) (by decide) rfl
      rw [hscan, if_pos ⟨by omega, hlong⟩]
      unfold Tm.clockText
      simp only [Option.bind_some, hdigits, hhourScan, hcolon, hminScan, hsecScan]
      obtain ⟨sec, min, hour, mday, mon, year, wday⟩ := tm
      dsimp only at *
      rw [Int.toNat_of_nonneg hsec.1, Int.toNat_of_nonneg hmin.1, Int.toNat_of_nonneg hhour.1,
        Int.toNat_of_nonneg (le_trans (by decide) hmday.1), Int.toNat_of_nonneg hmon.1,
        Int.toNat_of_nonneg hwday.1, Int.natAbs_of_nonneg (not_lt.mp hneg)]
      rfl
    · have hdigitsLong : 4 < (showNat tm.year.natAbs).length := by
        rw [showNat, List.length_map, ← not_le, Nat.length_toDigits_le_iff (by decide) (by decide)]
        omega
      rw [if_neg (by omega)]
      cases hscan : scanNumber 0 9999 4 (showNat tm.year.natAbs ++ SP :: tm.clockText) with
      | none => rfl
      | some p =>
        obtain ⟨year, s⟩ := p
        have hnone := scanHour_none isDigit_of_mem_showNat hdigitsLong hscan
        simp only [Option.bind_some]
        cases hhourScan : scanNumber 0 23 2 (s.dropWhile isSpace) with
        | none => rfl
        | some q =>
          rw [hhourScan, Option.bind_some] at hnone
          simp only [Option.bind_some, hnone]
          rfl

/-! ## `http_date_parse` behind `http_date_format` -/

theorem httpDateParse_format (t : ℤ) :
    httpDateParse (httpDateFormat t) =
      if 0 ≤ (gmtime t).year ∧ (gmtime t).year ≤ 9999 then some t else none := by
  unfold httpDateParse httpDateFormat
  rw [strptimeHttp_strftimeHttp (gmtime_shown t)]
  split
  · exact congrArg some (timegm_gmtime t)
  · rfl

/-- Of a time whose year `gmtime_r` can give, the date that the calendar gives is written, and it is
read back as the same time, unless the year is not one of four digits at most. -/
theorem date_round_trip (f : ℤ → Date) (hf : Counts f) (t : ℤ)
    (hlow : -2 ^ 31 ≤ (f (t / 86400)).year - 1900) (hhigh : (f (t / 86400)).year - 1900 < 2 ^ 31) :
    gmtimeR t = some (gmtime t) ∧
      httpDateFormat t =
        (weekdayNames.getD ((t / 86400 + 4) % 7).toNat []).take 3 ++ ascii ", " ++
          showTwo (f (t / 86400)).day ++ [SP] ++
          (monthNames.getD (f (t / 86400)).month.toNat []).take 3 ++ [SP] ++
          showInt (f (t / 86400)).year ++ [SP] ++ showTwo (t % 86400 / 3600) ++ [58] ++
          showTwo (t % 86400 / 60 % 60) ++ [58] ++ showTwo (t % 86400 % 60) ++ ascii " GMT" ∧
      httpDateParse (httpDateFormat t) =
        if 0 ≤ (f (t / 86400)).year ∧ (f (t / 86400)).year ≤ 9999 then some t else none := by
  have hdate : f (t / 86400) = civilDate t := by
    have hday : gmtime (t / 86400 * 86400) = { gmtime t with sec := 0, min := 0, hour := 0 } := by
      have hdays : t / 86400 * 86400 / 86400 = t / 86400 := Int.mul_ediv_cancel _ (by decide)
      have hsecs : t / 86400 * 86400 % 86400 = 0 := Int.mul_emod_left _ _
      unfold gmtime
      rw [hdays, hsecs]
      rfl
    rw [hf.unique civilDate_counts]
    refine Date.ext ?_ ?_ ?_
    · exact (congrArg Tm.year hday :)
    · exact (congrArg Tm.mon hday :)
    · exact (congrArg Tm.mday hday :)
  rw [hdate] at hlow hhigh ⊢
  exact ⟨if_pos ⟨hlow, hhigh⟩, rfl, httpDateParse_format t⟩

theorem date_round_trip_leap_day :
    gmtimeR 951825600 = some (gmtime 951825600) ∧
      httpDateFormat 951825600 = ascii "Tue, 29 Feb 2000 12:00:00 GMT" ∧
      httpDateParse (httpDateFormat 951825600) = some 951825600 := by
  obtain ⟨hgmtime, -, hparse⟩ :=
    date_round_trip _ civilDate_counts 951825600 (by decide) (by decide)
  refine ⟨hgmtime, by decide +kernel, hparse.trans (if_pos ?_)⟩
  decide

end HttpServer
