import HttpServer.Parser

/-!
# What `uint_parse` computes

`numeral base v s` is the positional value of the digits `s` read after the value
`v`, an unbounded number. Under a maximum that every single digit respects,
`uint_parse` accepts exactly the numerals up to that maximum.
-/

namespace HttpServer

/-- `none` when some byte is no digit of the base. -/
def numeral (base : ℕ) : ℕ → Bytes → Option ℕ
  | v, [] => some v
  | v, c :: s =>
    match digitValue c base with
    | none => none
    | some digit => numeral base (v * base + digit) s

theorem digitValue_lt {c : Byte} {base d : ℕ} (h : digitValue c base = some d) : d < base := by
  unfold digitValue at h
  obtain ⟨v, -, hv⟩ := Option.bind_eq_some_iff.mp h
  split at hv
  · next hlt => cases hv; exact hlt
  · cases hv

theorem numeral_append (base v : ℕ) (s t : Bytes) :
    numeral base v (s ++ t) = (numeral base v s).bind fun w => numeral base w t := by
  induction s generalizing v with
  | nil => rfl
  | cons c s ih =>
    simp only [List.cons_append, numeral]
    cases digitValue c base with
    | none => rfl
    | some d => exact ih _

/-- Reading on never makes the value smaller. -/
theorem le_of_numeral {base v n : ℕ} {s : Bytes} (hbase : 0 < base)
    (h : numeral base v s = some n) : v ≤ n := by
  induction s generalizing v with
  | nil => cases h; exact le_rfl
  | cons c s ih =>
    simp only [numeral] at h
    cases hd : digitValue c base with
    | none => simp [hd] at h
    | some d =>
      rw [hd] at h
      calc v ≤ v * base := Nat.le_mul_of_pos_right v hbase
        _ ≤ v * base + d := Nat.le_add_right _ _
        _ ≤ n := ih h

theorem uintParseLoop_ok_iff {base max v n : ℕ} {s : Bytes} (hbase : base ≤ max + 1)
    (hpos : 0 < base) (hmax : max < 2 ^ 64) (hv : v ≤ max) :
    uintParseLoop base max v s = (.ok, some n) ↔ numeral base v s = some n ∧ n ≤ max := by
  induction s generalizing v with
  | nil =>
    simp only [uintParseLoop, numeral, Prod.mk.injEq, true_and, Option.some.injEq]
    constructor
    · rintro rfl; exact ⟨rfl, hv⟩
    · rintro ⟨rfl, -⟩; rfl
  | cons c s ih =>
    simp only [uintParseLoop, numeral]
    cases hd : digitValue c base with
    | none => simp
    | some d =>
      have hdlt := digitValue_lt hd
      have hsub : wrapSub max d = max - d := by unfold wrapSub; omega
      have hcap : v > wrapSub max d / base ↔ max < v * base + d := by
        rw [hsub, gt_iff_lt, Nat.div_lt_iff_lt_mul hpos]
        omega
      simp only
      by_cases hover : max < v * base + d
      · rw [if_pos (hcap.mpr hover)]
        refine iff_of_false (by simp) ?_
        rintro ⟨hn, hle⟩
        have := le_of_numeral hpos hn
        omega
      · rw [if_neg (mt hcap.mp hover)]
        have hwrap : wrap (wrap (v * base) + d) = v * base + d := by unfold wrap; omega
        rw [hwrap]
        exact ih (by omega)

/-- The three results, and that `out` is written exactly on success. -/
theorem uintParseLoop_cases (base max v : ℕ) (s : Bytes) :
    (∃ n, uintParseLoop base max v s = (.ok, some n)) ∨
      uintParseLoop base max v s = (.badRequest, none) ∨
      uintParseLoop base max v s = (.payloadTooLarge, none) := by
  induction s generalizing v with
  | nil => exact .inl ⟨v, rfl⟩
  | cons c s ih =>
    simp only [uintParseLoop]
    cases digitValue c base with
    | none => exact .inr (.inl rfl)
    | some d =>
      simp only
      split
      · exact .inr (.inr rfl)
      · exact ih _

theorem uintParse_cases (s : Bytes) (base max : ℕ) :
    (∃ n, uintParse s base max = (.ok, some n)) ∨ uintParse s base max = (.badRequest, none) ∨
      uintParse s base max = (.payloadTooLarge, none) := by
  unfold uintParse
  split
  · exact .inr (.inl rfl)
  · exact uintParseLoop_cases base max 0 s

theorem uintParse_ok_iff {base max n : ℕ} {s : Bytes} (hbase : base ≤ max + 1) (hpos : 0 < base)
    (hmax : max < 2 ^ 64) :
    uintParse s base max = (.ok, some n) ↔ s ≠ [] ∧ numeral base 0 s = some n ∧ n ≤ max := by
  cases s with
  | nil => simp [uintParse]
  | cons c s =>
    have hnul : (byteAt (c :: s) 0 == 0) = true → digitValue c base = none := by
      intro h
      have hc : c = 0 := by simpa [byteAt] using h
      subst hc
      rfl
    unfold uintParse
    by_cases h0 : (byteAt (c :: s) 0 == 0) = true
    · simp [h0, numeral, hnul h0]
    · simp only [List.length_cons, Nat.add_one_ne_zero, decide_false, Bool.false_or, h0,
        ne_eq, List.cons_ne_nil, not_false_eq_true, true_and]
      exact uintParseLoop_ok_iff hbase hpos hmax (Nat.zero_le _)

/-! ## Every maximum -/

/-- What `uint_parse` is documented to answer. -/
structure UintParsed (s : Bytes) (base max : ℕ) (r : ParseStatus × Option ℕ) : Prop where
  ok : ∀ v, r = (.ok, some v) ↔ s ≠ [] ∧ numeral base 0 s = some v ∧ v ≤ max
  tooLarge : r.1 = .payloadTooLarge ↔ ∃ p v, p <+: s ∧ numeral base 0 p = some v ∧ max < v
  otherwise : r.1 = .ok ∨ r.1 = .payloadTooLarge ∨ r.1 = .badRequest
  untouched : r.1 ≠ .ok → r.2 = none

/-- The guard of `uint_parse` stops at `digit`. A digit above the maximum makes the difference
wrap, and only a value beyond `2 ^ 64` stops there. -/
def Overflows (base max result digit : ℕ) : Prop :=
  if digit ≤ max then max < result * base + digit else 2 ^ 64 + max < result * base + digit

/-- The guard stops at one of the leading digits of `s`, read after the value `v`. -/
def Caught (base max : ℕ) : ℕ → Bytes → Prop
  | _, [] => False
  | v, c :: s =>
    match digitValue c base with
    | none => False
    | some digit =>
      Overflows base max (v % 2 ^ 64) digit ∨ Caught base max (v * base + digit) s

theorem overflows_iff {base max result digit : ℕ} (hpos : 0 < base) (hmax : max < 2 ^ 64)
    (hdigit : digit < 2 ^ 64) :
    result > wrapSub max digit / base ↔ Overflows base max result digit := by
  rw [gt_iff_lt, Nat.div_lt_iff_lt_mul hpos, Overflows]
  split
  · next hle =>
    have hsub : wrapSub max digit = max - digit := by unfold wrapSub; omega
    rw [hsub]
    omega
  · next hgt =>
    have hsub : wrapSub max digit = 2 ^ 64 + max - digit := by unfold wrapSub; omega
    rw [hsub]
    omega

/-- The accumulator is the value of the digits modulo `2 ^ 64`. -/
theorem uintParseLoop_eq {base max : ℕ} (s : Bytes) (v : ℕ) (hpos : 0 < base)
    (hbase : base ≤ 2 ^ 64) (hmax : max < 2 ^ 64) :
    (Caught base max v s → uintParseLoop base max (v % 2 ^ 64) s = (.payloadTooLarge, none)) ∧
      (¬ Caught base max v s → uintParseLoop base max (v % 2 ^ 64) s =
        match numeral base v s with
        | none => (.badRequest, none)
        | some n => (.ok, some (n % 2 ^ 64))) := by
  induction s generalizing v with
  | nil => exact ⟨False.elim, fun _ => rfl⟩
  | cons c s ih =>
    simp only [uintParseLoop, numeral, Caught]
    cases hd : digitValue c base with
    | none => exact ⟨False.elim, fun _ => rfl⟩
    | some digit =>
      have hdlt := digitValue_lt hd
      have hguard : v % 2 ^ 64 > wrapSub max digit / base ↔
          Overflows base max (v % 2 ^ 64) digit :=
        overflows_iff hpos hmax (hdlt.trans_le hbase)
      have hwrap : wrap (wrap (v % 2 ^ 64 * base) + digit) = (v * base + digit) % 2 ^ 64 := by
        unfold wrap
        rw [Nat.mod_add_mod, Nat.add_mod, Nat.mod_mul_mod, ← Nat.add_mod]
      obtain ⟨hcaught, hpassed⟩ := ih (v * base + digit)
      dsimp only
      rw [hwrap]
      constructor
      · rintro (hover | hlater)
        · rw [if_pos (hguard.mpr hover)]
        · rw [hcaught hlater, ite_self]
      · intro hnone
        obtain ⟨hover, hlater⟩ := not_or.mp hnone
        rw [if_neg (mt hguard.mp hover)]
        exact hpassed hlater

/-- Where the guard stops, the digits up to there have a value above the maximum. -/
theorem Caught.exceeds {base max v : ℕ} {s : Bytes} (h : Caught base max v s) :
    ∃ p n, p <+: s ∧ numeral base v p = some n ∧ max < n := by
  induction s generalizing v with
  | nil => exact h.elim
  | cons c s ih =>
    simp only [Caught] at h
    cases hd : digitValue c base with
    | none =>
      rw [hd] at h
      exact h.elim
    | some digit =>
      rw [hd] at h
      rcases h with hover | hlater
      · refine ⟨[c], v * base + digit, ⟨s, rfl⟩, by simp only [numeral, hd], ?_⟩
        have hmod : v % 2 ^ 64 * base ≤ v * base := Nat.mul_le_mul_right _ (Nat.mod_le _ _)
        unfold Overflows at hover
        split at hover <;> omega
      · obtain ⟨p, n, hp, hn, hlt⟩ := ih hlater
        refine ⟨c :: p, n, List.cons_prefix_cons.mpr ⟨rfl, hp⟩, ?_, hlt⟩
        simp only [numeral, hd]
        exact hn

theorem numeral_prefix_le {base n k : ℕ} {p s : Bytes} (hbase : 0 < base) (hp : p <+: s)
    (hn : numeral base 0 p = some n) (hk : numeral base 0 s = some k) : n ≤ k := by
  obtain ⟨t, rfl⟩ := hp
  rw [numeral_append, hn, Option.bind_some] at hk
  exact le_of_numeral hbase hk

/-- No value above the maximum, or the guard stops. -/
def Guarded (base max : ℕ) (s : Bytes) : Prop :=
  (∀ p v, p <+: s → numeral base 0 p = some v → v ≤ max) ∨ Caught base max 0 s

theorem uintParse_eq_loop {base : ℕ} (max : ℕ) {s : Bytes} (hne : s ≠ []) :
    uintParse s base max = uintParseLoop base max 0 s := by
  unfold uintParse
  split
  · next hbad =>
    cases s with
    | nil => exact absurd rfl hne
    | cons c s =>
      have hc : c = 0 := by simpa [byteAt] using hbad
      subst hc
      rfl
  · rfl

/-- For every string, base and maximum. -/
theorem uintParse_parsed_iff (s : Bytes) (base max : ℕ) (hbase : 2 ≤ base) (hbase' : base ≤ 16)
    (hmax : max < 2 ^ 64) :
    UintParsed s base max (uintParse s base max) ↔ Guarded base max s := by
  have hpos : 0 < base := by omega
  obtain ⟨hcaught, hpassed⟩ := uintParseLoop_eq s 0 hpos (by omega) hmax
  rw [Nat.zero_mod] at hcaught hpassed
  by_cases hnil : s = []
  · subst hnil
    refine iff_of_true ⟨?_, ?_, .inr (.inr rfl), fun _ => rfl⟩ (.inl ?_)
    · intro v
      exact iff_of_false (by simp [uintParse]) fun h => h.1 rfl
    · refine iff_of_false (by simp [uintParse]) ?_
      rintro ⟨p, v, hp, hv, hlt⟩
      rw [List.prefix_nil.mp hp] at hv
      obtain rfl := Option.some.inj hv
      exact absurd hlt (Nat.not_lt_zero _)
    · intro p v hp hv
      rw [List.prefix_nil.mp hp] at hv
      obtain rfl := Option.some.inj hv
      exact Nat.zero_le _
  · rw [uintParse_eq_loop max hnil]
    by_cases hstop : Caught base max 0 s
    · refine iff_of_true ?_ (.inr hstop)
      obtain ⟨p, n, hp, hn, hlt⟩ := hstop.exceeds
      rw [hcaught hstop]
      refine ⟨?_, iff_of_true rfl ⟨p, n, hp, hn, hlt⟩, .inr (.inl rfl), fun _ => rfl⟩
      intro v
      refine iff_of_false (by simp) ?_
      rintro ⟨-, hv, hle⟩
      have := numeral_prefix_le hpos hp hn hv
      omega
    · rw [hpassed hstop]
      constructor
      · intro hparsed
        refine .inl fun p v hp hv => ?_
        by_contra hgt
        have hlarge := hparsed.tooLarge.mpr ⟨p, v, hp, hv, Nat.not_le.mp hgt⟩
        revert hlarge
        cases numeral base 0 s <;> simp
      · rintro (hall | hstop')
        · cases hnum : numeral base 0 s with
          | none =>
            refine ⟨?_, iff_of_false (by simp) ?_, .inr (.inr rfl), fun _ => rfl⟩
            · intro v
              refine iff_of_false (by simp) ?_
              rintro ⟨-, hv, -⟩
              rw [hnum] at hv
              cases hv
            · rintro ⟨p, v, hp, hv, hlt⟩
              have := hall p v hp hv
              omega
          | some n =>
            have hle := hall s n (List.prefix_refl s) hnum
            have hmod : n % 2 ^ 64 = n := Nat.mod_eq_of_lt (by omega)
            refine ⟨?_, iff_of_false (by simp) ?_, .inl rfl, fun h => absurd rfl h⟩
            · intro v
              dsimp only
              rw [hmod]
              constructor
              · intro h
                obtain rfl := Option.some.inj (Prod.mk.inj h).2
                exact ⟨hnil, hnum, hle⟩
              · rintro ⟨-, hv, -⟩
                rw [hnum] at hv
                rw [Option.some.inj hv]
            · rintro ⟨p, v, hp, hv, hlt⟩
              have := hall p v hp hv
              omega
        · exact absurd hstop' hstop

theorem uintParse_parsed_iff_large :
    UintParsed (ascii "1024001") 10 HTTP_MAX_BODY_LEN
        (uintParse (ascii "1024001") 10 HTTP_MAX_BODY_LEN) ↔
      Guarded 10 HTTP_MAX_BODY_LEN (ascii "1024001") :=
  uintParse_parsed_iff (ascii "1024001") 10 HTTP_MAX_BODY_LEN (by decide) (by decide) (by decide)

/-- The digit is above the maximum, and the value is accepted. -/
theorem uintParse_seven_of_five :
    uintParse (ascii "7") 10 5 = (.ok, some 7) ∧
      ¬ UintParsed (ascii "7") 10 5 (uintParse (ascii "7") 10 5) := by
  have hparse : uintParse (ascii "7") 10 5 = (.ok, some 7) := by decide
  refine ⟨hparse, fun h => ?_⟩
  obtain ⟨-, -, hle⟩ := (h.ok 7).mp hparse
  exact absurd hle (by decide)

end HttpServer
