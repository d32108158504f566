import Mathlib.Data.Int.Order.Basic
import Mathlib.Tactic.Linarith

/-!
# The Gregorian calendar

A calendar is a numbering of the days by dates that steps from each date to the next
one, so there is only one. Its arithmetic is that of years that begin in March: the
leap day is then the last day of a year.
-/

namespace CivilCalendar

/-- Years before year 1 are counted down through 0. -/
def Leap (year : ℤ) : Prop := 4 ∣ year ∧ (100 ∣ year → 400 ∣ year)

instance (year : ℤ) : Decidable (Leap year) := instDecidableAnd

/-- Months are counted from 0. -/
def monthLength (year month : ℤ) : ℤ :=
  if month = 1 then if Leap year then 29 else 28
  else if month = 3 ∨ month = 5 ∨ month = 8 ∨ month = 10 then 30
  else 31

theorem monthLength_pos (year month : ℤ) : 1 ≤ monthLength year month := by
  unfold monthLength
  split_ifs <;> decide

@[ext]
structure Date where
  year : ℤ
  month : ℤ
  day : ℤ
  month_range : 0 ≤ month ∧ month < 12
  day_range : 1 ≤ day ∧ day ≤ monthLength year month

/-- The day after. -/
def Date.next (d : Date) : Date :=
  if h : d.day < monthLength d.year d.month then
    ⟨d.year, d.month, d.day + 1, d.month_range, by have := d.day_range; omega, by omega⟩
  else if h : d.month < 11 then
    ⟨d.year, d.month + 1, 1, by have := d.month_range; omega, le_rfl, monthLength_pos _ _⟩
  else ⟨d.year + 1, 0, 1, by decide, le_rfl, monthLength_pos _ _⟩

/-- The first day of 1970. -/
def epoch : Date := ⟨1970, 0, 1, by decide, by decide⟩

/-- The calendar: `f n` is the date `n` days after the epoch. -/
structure Counts (f : ℤ → Date) : Prop where
  start : f 0 = epoch
  next : ∀ n, f (n + 1) = (f n).next

theorem Date.next_of_lt {d : Date} (h : d.day < monthLength d.year d.month) :
    d.next.year = d.year ∧ d.next.month = d.month ∧ d.next.day = d.day + 1 := by
  unfold next
  rw [dif_pos h]
  exact ⟨rfl, rfl, rfl⟩

theorem Date.next_of_month {d : Date} (h : d.day = monthLength d.year d.month)
    (hmonth : d.month < 11) :
    d.next.year = d.year ∧ d.next.month = d.month + 1 ∧ d.next.day = 1 := by
  unfold next
  rw [dif_neg h.not_lt, dif_pos hmonth]
  exact ⟨rfl, rfl, rfl⟩

theorem Date.next_of_year {d : Date} (h : d.day = monthLength d.year d.month)
    (hmonth : d.month = 11) :
    d.next.year = d.year + 1 ∧ d.next.month = 0 ∧ d.next.day = 1 := by
  unfold next
  rw [dif_neg h.not_lt, dif_neg hmonth.not_lt]
  exact ⟨rfl, rfl, rfl⟩

/-- Which of its three cases the next day is. -/
theorem Date.next_cases (d : Date) :
    (d.day < monthLength d.year d.month ∧
      d.next.year = d.year ∧ d.next.month = d.month ∧ d.next.day = d.day + 1) ∨
    (d.day = monthLength d.year d.month ∧ d.month < 11 ∧
      d.next.year = d.year ∧ d.next.month = d.month + 1 ∧ d.next.day = 1) ∨
    (d.day = monthLength d.year d.month ∧ d.month = 11 ∧
      d.next.year = d.year + 1 ∧ d.next.month = 0 ∧ d.next.day = 1) := by
  rcases lt_or_eq_of_le d.day_range.2 with h | h
  · exact .inl ⟨h, next_of_lt h⟩
  · rcases lt_or_eq_of_le (show d.month ≤ 11 from Int.lt_add_one_iff.mp d.month_range.2) with
      hmonth | hmonth
    · exact .inr (.inl ⟨h, hmonth, next_of_month h hmonth⟩)
    · exact .inr (.inr ⟨h, hmonth, next_of_year h hmonth⟩)

theorem Date.next_injective : Function.Injective Date.next := by
  intro d d' heq
  have hyear := congrArg year heq
  have hmonth := congrArg month heq
  have hday := congrArg day heq
  have hd := d.day_range
  have hd' := d'.day_range
  have hm := d.month_range
  have hm' := d'.month_range
  have hsame : d.year = d'.year ∧ d.month = d'.month := by
    rcases d.next_cases with h | h | h <;> rcases d'.next_cases with h' | h' | h' <;> omega
  have hlength : monthLength d.year d.month = monthLength d'.year d'.month := by
    rw [hsame.1, hsame.2]
  refine Date.ext hsame.1 hsame.2 ?_
  rcases d.next_cases with h | h | h <;> rcases d'.next_cases with h' | h' | h' <;> omega

/-- There is only one calendar. -/
theorem Counts.unique {f g : ℤ → Date} (hf : Counts f) (hg : Counts g) : f = g := by
  funext n
  induction n using Int.induction_on with
  | zero => rw [hf.start, hg.start]
  | succ n ih => rw [hf.next, hg.next, ih]
  | pred n ih =>
    apply Date.next_injective
    rw [← hf.next, ← hg.next, Int.sub_add_cancel, ih]

/-! ## Years that begin in March -/

/-- The number of the day before which year `year` begins, that of 1 March of year 0 being 0. -/
def marchFirst (year : ℤ) : ℤ := 365 * year + year / 4 - year / 100 + year / 400

theorem marchFirst_succ (year : ℤ) :
    marchFirst (year + 1) = marchFirst year + if Leap (year + 1) then 366 else 365 := by
  unfold marchFirst
  split
  · next hleap =>
    unfold Leap at hleap
    omega
  · next hleap =>
    unfold Leap at hleap
    omega

/-- Day `z` is day `u` of the year that begins in March of `year`. -/
structure MarchDay (z year u : ℤ) : Prop where
  eq : z = marchFirst year + u
  nonneg : 0 ≤ u
  le : u ≤ 365
  leap : u = 365 → Leap (year + 1)

theorem MarchDay.start (year : ℤ) : MarchDay (marchFirst year) year 0 :=
  ⟨(Int.add_zero _).symm, le_rfl, by decide, fun h => absurd h (by decide)⟩

/-- The next day is in the same year, or begins one. -/
theorem MarchDay.next {z year u : ℤ} (h : MarchDay z year u) :
    (u < 365 ∧ (u = 364 → Leap (year + 1)) ∧ MarchDay (z + 1) year (u + 1)) ∨
      (364 ≤ u ∧ (Leap (year + 1) → u = 365) ∧ MarchDay (z + 1) (year + 1) 0) := by
  have hsucc := marchFirst_succ year
  have hnonneg := h.nonneg
  have hle := h.le
  have heq := h.eq
  have hends : 364 ≤ u → (Leap (year + 1) ↔ u = 365) → z + 1 = marchFirst (year + 1) := by
    intro hlow hiff
    split at hsucc
    · next hleap =>
      have hu := hiff.mp hleap
      omega
    · next hleap =>
      have hu : u ≠ 365 := fun hu => hleap (hiff.mpr hu)
      omega
  by_cases hu : u < 364 ∨ u = 364 ∧ Leap (year + 1)
  · refine .inl ⟨by omega, fun heq => ?_, by rw [h.eq, Int.add_assoc], by omega, by omega, ?_⟩
    · exact hu.elim (fun hlt => absurd heq hlt.ne) And.right
    · exact fun heq => hu.elim (fun hlt => by omega) And.right
  · obtain ⟨hlow, hlast⟩ := not_or.mp hu
    have hleap : Leap (year + 1) → u = 365 := fun hleap => by
      have hne : u ≠ 364 := fun heq => hlast ⟨heq, hleap⟩
      omega
    rw [hends (not_lt.mp hlow) ⟨hleap, h.leap⟩]
    exact .inr ⟨not_lt.mp hlow, hleap, .start (year + 1)⟩

theorem exists_marchDay (z : ℤ) : ∃ year u, MarchDay z year u := by
  induction z using Int.induction_on with
  | zero => exact ⟨0, 0, .start 0⟩
  | succ z ih =>
    obtain ⟨year, u, h⟩ := ih
    rcases h.next with ⟨-, -, hnext⟩ | ⟨-, -, hnext⟩ <;> exact ⟨_, _, hnext⟩
  | pred z ih =>
    obtain ⟨year, u, heq, hnonneg, hle, hleap⟩ := ih
    by_cases hu : u = 0
    · -- the last day of the year before
      have hsucc := marchFirst_succ (year - 1)
      rw [Int.sub_add_cancel] at hsucc
      by_cases hyear : Leap year
      · rw [if_pos hyear] at hsucc
        refine ⟨year - 1, 365, by omega, by decide, le_rfl, fun _ => ?_⟩
        rw [Int.sub_add_cancel]
        exact hyear
      · rw [if_neg hyear] at hsucc
        exact ⟨year - 1, 364, by omega, by decide, by decide, fun h => absurd h (by decide)⟩
    · exact ⟨year, u - 1, by omega, by omega, by omega, fun h => absurd h (by omega)⟩

/-- The days before a year that is the `p`th in the `q`th cycle of four years in century `d` of an
era. -/
theorem days_before {d q p : ℤ} (hq : 0 ≤ q ∧ q ≤ 24) (hp : 0 ≤ p ∧ p ≤ 3) :
    365 * (100 * d + 4 * q + p) + (100 * d + 4 * q + p) / 4 - (100 * d + 4 * q + p) / 100 =
      36524 * d + 1461 * q + 365 * p := by
  have hfour : (100 * d + 4 * q + p) / 4 = 25 * d + q := by omega
  have hhundred : (100 * d + 4 * q + p) / 100 = d := by omega
  rw [hfour, hhundred]
  omega

/-- The usual division for the year of an era. -/
theorem year_of_era {doe d q p u : ℤ} (heq : doe = 36524 * d + 1461 * q + 365 * p + u)
    (hd : 0 ≤ d ∧ d ≤ 3) (hq : 0 ≤ q ∧ q ≤ 24) (hp : 0 ≤ p ∧ p ≤ 3) (hu : 0 ≤ u ∧ u ≤ 365)
    (hlast : u = 365 → p = 3 ∧ (q = 24 → d = 3)) :
    (doe - doe / 1460 + doe / 36524 - doe / 146096) / 365 = 100 * d + 4 * q + p := by
  have hcentury : doe / 36524 - doe / 146096 = d := by
    by_cases hend : doe = 146096
    · rw [hend]
      omega
    · have hrest : 1461 * q + 365 * p + u ≤ 36523 := by omega
      have hbound : doe / 146096 = 0 := by omega
      rw [hbound]
      omega
  obtain ⟨e, hcycle, he⟩ : ∃ e, doe / 1460 = 25 * d + q + e ∧
      (e = 0 ∧ 24 * d + q + 365 * p + u < 1460 ∨ e = 1 ∧ 1460 ≤ 24 * d + q + 365 * p + u) :=
    ⟨doe / 1460 - 25 * d - q, by omega, by omega⟩
  have hdays : doe - doe / 1460 + doe / 36524 - doe / 146096 =
      365 * (100 * d + 4 * q + p) + (u - e) := by omega
  rw [hdays]
  omega

/-- Where a day stands, by division: an era is 400 years. -/
theorem MarchDay.divides {z year u doe : ℤ} (h : MarchDay z year u) (hdoe : doe = z % 146097) :
    z / 146097 = year / 400 ∧
      (doe - doe / 1460 + doe / 36524 - doe / 146096) / 365 = year % 400 ∧
      doe - (365 * (year % 400) + year % 400 / 4 - year % 400 / 100) = u := by
  obtain ⟨heq, hnonneg, hle, hleap⟩ := h
  obtain ⟨d, hd⟩ : ∃ d, d = year % 400 / 100 := ⟨_, rfl⟩
  obtain ⟨q, hq⟩ : ∃ q, q = year % 100 / 4 := ⟨_, rfl⟩
  obtain ⟨p, hp⟩ : ∃ p, p = year % 4 := ⟨_, rfl⟩
  have hlast : u = 365 → p = 3 ∧ (q = 24 → d = 3) := by
    intro hu
    have hleap := hleap hu
    unfold Leap at hleap
    omega
  have hyear : year % 400 = 100 * d + 4 * q + p := by omega
  have hz : z = 146097 * (year / 400) + (36524 * d + 1461 * q + 365 * p + u) := by
    unfold marchFirst at heq
    omega
  have hd' : 0 ≤ d ∧ d ≤ 3 := by omega
  have hq' : 0 ≤ q ∧ q ≤ 24 := by omega
  have hp' : 0 ≤ p ∧ p ≤ 3 := by omega
  clear hd hq hp heq hleap
  have hera : z / 146097 = year / 400 := by omega
  have hday : doe = 36524 * d + 1461 * q + 365 * p + u := by omega
  rw [hyear, days_before hq' hp']
  exact ⟨hera, year_of_era hday hd' hq' hp' ⟨hnonneg, hle⟩ hlast, by omega⟩

end CivilCalendar
