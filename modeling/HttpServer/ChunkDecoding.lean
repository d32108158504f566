import HttpServer.Body
import HttpServer.IncrementalDecoder
import HttpServer.NumberParsing

/-!
# The chunk decoder as an incremental decoder

`chunkStep` is one call of `chunk_advance` by a caller that keeps the decoded
bytes. Each phase has an equation for it; from these follow that the decoder is
resumable and that it can be driven to an end.
-/

namespace HttpServer

open IncrementalDecoder

/-- The decoder together with the bytes it has written. -/
structure Dechunk where
  dec : ChunkDecoder := {}
  out : Bytes := []
  deriving DecidableEq, Repr

def chunkStep (cap : ℕ) (s : Dechunk) (input : Bytes) : Verdict Dechunk ParseStatus :=
  let (cr, dec, written) := chunkAdvance s.dec input (cap - s.out.length)
  let s : Dechunk := { dec := dec, out := s.out ++ written }
  let n := cr.parseResult.next.getD 0
  match cr.parseResult.status with
  | .ok => if dec.phase = .done then .done s n else .next s n
  | .incomplete => .more s n
  | e => .fail e

variable {cap : ℕ} {s : Dechunk} {u v line : Bytes}

/-- A refusal leaves the decoder as it is. -/
theorem chunkAdvance_dec_of_refused (dec : ChunkDecoder) (input : Bytes) (outAvail : ℕ)
    (hok : (chunkAdvance dec input outAvail).1.parseResult.status ≠ .ok)
    (hinc : (chunkAdvance dec input outAvail).1.parseResult.status ≠ .incomplete) :
    (chunkAdvance dec input outAvail).2.1 = dec ∧ dec.phase ≠ .done := by
  revert hok hinc
  simp only [chunkAdvance]
  cases dec.phase with
  | size =>
    dsimp only
    split
    · simp [parseErrorSet]
    · split
      · simp [parseErrorSet]
      · rcases uintParse_cases (range input 0 ((memchr input 0
          (crlfFind input 0 input.length) 59).getD (crlfFind input 0 input.length))) 16
          HTTP_MAX_BODY_LEN with ⟨n, h⟩ | h | h
        · rw [h]; dsimp only; split <;> simp
        · rw [h]; simp
        · rw [h]; simp
  | data =>
    dsimp only
    generalize (if dec.remaining < input.length then dec.remaining else input.length) = take
    split
    · simp [parseErrorSet]
    · by_cases h0 : dec.remaining - take = 0 <;> simp [h0]
  | trailCr => dsimp only; split <;> [skip; split] <;> simp [parseErrorSet]
  | trailLf => dsimp only; split <;> [skip; split] <;> simp [parseErrorSet]
  | trailer => dsimp only; split <;> [skip; split] <;> simp [parseErrorSet]
  | done => simp

/-! ## One equation for each phase -/

theorem range_zero_length (u : Bytes) : range u 0 u.length = u := by simp [range]

theorem range_zero (u : Bytes) (k : ℕ) : range u 0 k = u.take k := by simp [range]

theorem crlfFind_zero (u : Bytes) : crlfFind u 0 u.length = PatternSearch.find CRLF u := by
  simp [crlfFind, range_zero_length]

/-- `;` -/
def SEMICOLON : Byte := 59

def sizeDigits (line : Bytes) : Bytes := line.takeWhile (· != SEMICOLON)

/-- The verdict on a complete size line, given without its CRLF. -/
def sizeLineVerdict (s : Dechunk) (line : Bytes) : Verdict Dechunk ParseStatus :=
  match uintParse (sizeDigits line) 16 HTTP_MAX_BODY_LEN with
  | (.ok, some 0) => .next { s with dec.phase := .trailer } (line.length + 2)
  | (.ok, some n) => .next { s with dec := { phase := .data, remaining := n } } (line.length + 2)
  | (e, _) => .fail e

theorem find_crlf_lt_iff (u : Bytes) :
    PatternSearch.find CRLF u < u.length ↔ ¬ u.length - PatternSearch.find CRLF u < 2 := by
  have hle := PatternSearch.find_le_length CRLF u
  constructor
  · intro hlt
    have hfit := PatternSearch.find_add_length_le hlt
    rw [CRLF_length] at hfit
    omega
  · intro h
    omega

/-- `memchr` for the semicolon cuts the size line where its digits end. -/
theorem memchr_semicolon (u : Bytes) (k : ℕ) (hk : k ≤ u.length) :
    range u 0 ((memchr u 0 k SEMICOLON).getD k) = sizeDigits (u.take k) := by
  have hlen : (u.take k).length = k := by simp [hk]
  have hidx : sizeDigits (u.take k) = (u.take k).take ((u.take k).findIdx (· == SEMICOLON)) := by
    rw [sizeDigits, List.takeWhile_eq_take_findIdx_not]
    simp [bne]
  rw [range_zero, hidx, List.take_take]
  unfold memchr
  simp only [range_zero, hlen, Nat.zero_add]
  have hle : (u.take k).findIdx (· == SEMICOLON) ≤ (u.take k).length := List.findIdx_le_length
  rw [hlen] at hle
  split
  · rw [Option.getD_some, Nat.min_eq_left hle]
  · rw [Option.getD_none, Nat.min_eq_left hle]
    congr 1
    omega

theorem chunkStep_size_more (hp : s.dec.phase = .size)
    (hk : ¬ PatternSearch.find CRLF u < u.length) : chunkStep cap s u = .more s 0 := by
  rw [find_crlf_lt_iff, not_not] at hk
  simp [chunkStep, chunkAdvance, hp, crlfFind_zero, hk, parseErrorSet]

theorem chunkStep_size (hp : s.dec.phase = .size) (hk : PatternSearch.find CRLF u < u.length) :
    chunkStep cap s u = sizeLineVerdict s (u.take (PatternSearch.find CRLF u)) := by
  have hle := PatternSearch.find_le_length CRLF u
  have hk' := (find_crlf_lt_iff u).mp hk
  have hdig := memchr_semicolon u _ hle
  have hlen : (u.take (PatternSearch.find CRLF u)).length = PatternSearch.find CRLF u := by
    simp [hle]
  generalize hk₀ : PatternSearch.find CRLF u = k at *
  generalize he : (memchr u 0 k SEMICOLON).getD k = sizeEnd at hdig
  rw [show SEMICOLON = 59 from rfl] at he
  simp only [chunkStep, chunkAdvance, hp, crlfFind_zero, hk₀, hk', if_false, he, sizeLineVerdict,
    ← hdig, hlen]
  by_cases h0 : sizeEnd = 0
  · subst h0
    simp [range_zero, uintParse, parseErrorSet]
  · simp only [h0, if_false]
    rcases uintParse_cases (range u 0 sizeEnd) 16 HTTP_MAX_BODY_LEN with ⟨n, h⟩ | h | h
    · rw [h]
      cases n <;> simp
    · rw [h]
    · rw [h]

theorem chunkStep_data (hp : s.dec.phase = .data) :
    chunkStep cap s u =
      if cap - s.out.length < min s.dec.remaining u.length then .fail .payloadTooLarge
      else if s.dec.remaining ≤ u.length then
        .next { dec := { phase := .trailCr, remaining := 0 },
                out := s.out ++ u.take s.dec.remaining } s.dec.remaining
      else .more { dec := { phase := .data, remaining := s.dec.remaining - u.length },
                   out := s.out ++ u } u.length := by
  have hmin : (if s.dec.remaining < u.length then s.dec.remaining else u.length) =
      min s.dec.remaining u.length := by
    split <;> omega
  simp only [chunkStep, chunkAdvance, hp, hmin, gt_iff_lt]
  by_cases hcap : cap - s.out.length < min s.dec.remaining u.length
  · simp [hcap, parseErrorSet]
  · simp only [hcap, if_false]
    by_cases hle : s.dec.remaining ≤ u.length
    · simp [hle]
    · have hne : s.dec.remaining - u.length ≠ 0 := by omega
      have hle' : u.length ≤ s.dec.remaining := by omega
      simp [hle, hne, hle']

/-- The phases that look for fixed bytes: `expect` is what they want to see. -/
def trailVerdict (s : Dechunk) (expect : Bytes) (phase : ChunkedPhase) (u : Bytes) :
    Verdict Dechunk ParseStatus :=
  if u.length < expect.length then .more s 0
  else if expect <+: u then
    if phase = .done then .done { s with dec.phase := phase } expect.length
    else .next { s with dec.phase := phase } expect.length
  else .fail .badRequest

theorem chunkStep_trailCr (hp : s.dec.phase = .trailCr) :
    chunkStep cap s u = trailVerdict s [CR] .trailLf u := by
  cases u with
  | nil => simp [chunkStep, chunkAdvance, hp, parseErrorSet, trailVerdict]
  | cons c u =>
    by_cases hc : c = CR
    · simp [chunkStep, chunkAdvance, hp, byteAt, trailVerdict, hc]
    · have hc' : ¬ CR = c := fun h => hc h.symm
      simp [chunkStep, chunkAdvance, hp, byteAt, parseErrorSet, trailVerdict, hc, hc']

theorem chunkStep_trailLf (hp : s.dec.phase = .trailLf) :
    chunkStep cap s u = trailVerdict s [LF] .size u := by
  cases u with
  | nil => simp [chunkStep, chunkAdvance, hp, parseErrorSet, trailVerdict]
  | cons c u =>
    by_cases hc : c = LF
    · simp [chunkStep, chunkAdvance, hp, byteAt, trailVerdict, hc]
    · have hc' : ¬ LF = c := fun h => hc h.symm
      simp [chunkStep, chunkAdvance, hp, byteAt, parseErrorSet, trailVerdict, hc, hc']

theorem chunkStep_trailer (hp : s.dec.phase = .trailer) :
    chunkStep cap s u = trailVerdict s CRLF .done u := by
  match u with
  | [] => simp [chunkStep, chunkAdvance, hp, parseErrorSet, trailVerdict, CRLF]
  | [c] => simp [chunkStep, chunkAdvance, hp, parseErrorSet, trailVerdict, CRLF]
  | c :: d :: u =>
    have hlen : ¬ u.length + 1 + 1 < 2 := by omega
    by_cases hcd : c = CR ∧ d = LF
    · obtain ⟨rfl, rfl⟩ := hcd
      simp [chunkStep, chunkAdvance, hp, byteAt, trailVerdict, CRLF, hlen]
    · have hcd' : ¬ (CR = c ∧ LF = d) := fun h => hcd ⟨h.1.symm, h.2.symm⟩
      have hbad : ¬ c = CR ∨ ¬ d = LF := not_and_or.mp hcd
      simp [chunkStep, chunkAdvance, hp, byteAt, parseErrorSet, trailVerdict, CRLF, hcd', hlen,
        hbad]

theorem chunkStep_done (hp : s.dec.phase = .done) : chunkStep cap s u = .done s 0 := by
  simp [chunkStep, chunkAdvance, hp]

/-! ## Resuming -/

theorem sizeLineVerdict_cases (s : Dechunk) (line : Bytes) :
    (∃ dec, (dec.phase = .data ∨ dec.phase = .trailer) ∧
      sizeLineVerdict s line = .next { s with dec := dec } (line.length + 2)) ∨
      ∃ e, sizeLineVerdict s line = .fail e := by
  unfold sizeLineVerdict
  rcases uintParse_cases (sizeDigits line) 16 HTTP_MAX_BODY_LEN with ⟨n, h⟩ | h | h
  · rw [h]
    cases n with
    | zero => exact .inl ⟨{ s.dec with phase := .trailer }, .inr rfl, rfl⟩
    | succ n => exact .inl ⟨{ phase := .data, remaining := n + 1 }, .inl rfl, rfl⟩
  · rw [h]; exact .inr ⟨_, rfl⟩
  · rw [h]; exact .inr ⟨_, rfl⟩

theorem trailVerdict_used_le (s : Dechunk) (expect : Bytes) (phase : ChunkedPhase) (u : Bytes) :
    (trailVerdict s expect phase u).used ≤ u.length := by
  unfold trailVerdict
  split
  · exact Nat.zero_le _
  · split
    · split <;> simp only [Verdict.used] <;> omega
    · exact Nat.zero_le _

/-- Enough bytes to compare with are enough for good. -/
theorem trailVerdict_append (s : Dechunk) (expect : Bytes) (phase : ChunkedPhase)
    (h : expect.length ≤ u.length) (v : Bytes) :
    trailVerdict s expect phase (u ++ v) = trailVerdict s expect phase u := by
  have hpre : expect <+: u ++ v ↔ expect <+: u :=
    ⟨fun hp => List.prefix_of_prefix_length_le hp (List.prefix_append u v) h,
      fun hp => hp.trans (List.prefix_append u v)⟩
  have hlen : ¬ (u ++ v).length < expect.length := by rw [List.length_append]; omega
  simp only [trailVerdict, hlen, if_false, hpre, Nat.not_lt.mpr h]

theorem chunkStep_data_append (hp : s.dec.phase = .data) (v : Bytes)
    (hlt : u.length < s.dec.remaining) (hcap : u.length ≤ cap - s.out.length) :
    chunkStep cap s (u ++ v) =
      (chunkStep cap
        { dec := { phase := .data, remaining := s.dec.remaining - u.length }, out := s.out ++ u }
        v).shift u.length := by
  rw [chunkStep_data hp, chunkStep_data rfl]
  have hcap' : cap - s.out.length < min s.dec.remaining (u ++ v).length ↔
      cap - (s.out ++ u).length < min (s.dec.remaining - u.length) v.length := by
    simp only [List.length_append]; omega
  have hrem : s.dec.remaining ≤ (u ++ v).length ↔ s.dec.remaining - u.length ≤ v.length := by
    simp only [List.length_append]; omega
  by_cases h₁ : cap - (s.out ++ u).length < min (s.dec.remaining - u.length) v.length
  · rw [if_pos (hcap'.mpr h₁), if_pos h₁]
    rfl
  · rw [if_neg (mt hcap'.mp h₁), if_neg h₁]
    by_cases h₂ : s.dec.remaining - u.length ≤ v.length
    · have htake : (u ++ v).take s.dec.remaining = u ++ v.take (s.dec.remaining - u.length) := by
        rw [List.take_append, List.take_of_length_le hlt.le]
      have hsum : u.length + (s.dec.remaining - u.length) = s.dec.remaining := by omega
      rw [if_pos (hrem.mpr h₂), if_pos h₂, htake, Verdict.shift, hsum, List.append_assoc]
    · have hsub : s.dec.remaining - (u.length + v.length) =
          s.dec.remaining - u.length - v.length := by omega
      rw [if_neg (mt hrem.mp h₂), if_neg h₂, Verdict.shift, List.length_append, hsub,
        List.append_assoc]

theorem chunkStep_resumable (cap : ℕ) : Resumable (chunkStep cap) where
  used_le s u := by
    cases hp : s.dec.phase with
    | size =>
      by_cases hk : PatternSearch.find CRLF u < u.length
      · have hfit := PatternSearch.find_add_length_le hk
        rw [chunkStep_size hp hk]
        rcases sizeLineVerdict_cases s (u.take (PatternSearch.find CRLF u)) with
          ⟨dec, -, h⟩ | ⟨e, h⟩
        · rw [h]
          simp only [Verdict.used, List.length_take, CRLF_length] at hfit ⊢
          omega
        · rw [h]; exact Nat.zero_le _
      · rw [chunkStep_size_more hp hk]; exact Nat.zero_le _
    | data =>
      rw [chunkStep_data hp]
      split
      · exact Nat.zero_le _
      · split
        · assumption
        · exact le_rfl
    | trailCr => rw [chunkStep_trailCr hp]; exact trailVerdict_used_le ..
    | trailLf => rw [chunkStep_trailLf hp]; exact trailVerdict_used_le ..
    | trailer => rw [chunkStep_trailer hp]; exact trailVerdict_used_le ..
    | done => rw [chunkStep_done hp]; exact Nat.zero_le _
  append s u v := by
    have waits : chunkStep cap s u = .more s 0 →
        chunkStep cap s (u ++ v) = (chunkStep cap s u).resume (chunkStep cap) u v := by
      intro h
      rw [h, Verdict.resume, List.drop_zero, Verdict.shift_zero]
    have trail : ∀ expect phase,
        (∀ w, chunkStep cap s w = trailVerdict s expect phase w) →
        chunkStep cap s (u ++ v) = (chunkStep cap s u).resume (chunkStep cap) u v := by
      intro expect phase h
      by_cases hlen : u.length < expect.length
      · exact waits (by rw [h, trailVerdict, if_pos hlen])
      · rw [h (u ++ v), trailVerdict_append s expect phase (by omega), h u]
        unfold trailVerdict
        rw [if_neg hlen]
        split
        · split <;> rfl
        · rfl
    cases hp : s.dec.phase with
    | size =>
      by_cases hk : PatternSearch.find CRLF u < u.length
      · have hfind := PatternSearch.find_append hk v
        have hk' : PatternSearch.find CRLF (u ++ v) < (u ++ v).length := by
          rw [hfind, List.length_append]; omega
        rw [chunkStep_size hp hk, chunkStep_size hp hk', hfind,
          List.take_append_of_le_length hk.le]
        rcases sizeLineVerdict_cases s (u.take (PatternSearch.find CRLF u)) with
          ⟨dec, -, h⟩ | ⟨e, h⟩
        · rw [h]; rfl
        · rw [h]; rfl
      · exact waits (chunkStep_size_more hp hk)
    | data =>
      have hstep : chunkStep cap s u = _ := chunkStep_data hp
      by_cases hcap : cap - s.out.length < min s.dec.remaining u.length
      · rw [if_pos hcap] at hstep
        rw [hstep, chunkStep_data hp, if_pos (by rw [List.length_append]; omega)]
        rfl
      · rw [if_neg hcap] at hstep
        by_cases hle : s.dec.remaining ≤ u.length
        · rw [if_pos hle] at hstep
          rw [hstep, chunkStep_data hp, if_neg (by rw [List.length_append]; omega),
            if_pos (by rw [List.length_append]; omega), List.take_append_of_le_length hle]
          rfl
        · rw [if_neg hle] at hstep
          rw [hstep, Verdict.resume, List.drop_length, List.nil_append]
          exact chunkStep_data_append hp v (by omega) (by omega)
    | trailCr => exact trail _ _ fun w => chunkStep_trailCr hp
    | trailLf => exact trail _ _ fun w => chunkStep_trailLf hp
    | trailer => exact trail _ _ fun w => chunkStep_trailer hp
    | done => rw [chunkStep_done hp, chunkStep_done hp]; rfl

/-! ## Driving to an end -/

/-- Every call that goes on uses a byte or leaves the data phase. -/
def chunkRank (s : Dechunk) (u : Bytes) : ℕ :=
  u.length + if s.dec.phase = .data then 1 else 0

theorem chunkRank_decreases (s : Dechunk) (u : Bytes) (s' : Dechunk) (n : ℕ)
    (h : chunkStep cap s u = .next s' n) : chunkRank s' (u.drop n) < chunkRank s u := by
  have hn := (chunkStep_resumable cap).next_le h
  have trail : ∀ expect phase, 0 < expect.length → phase ≠ .data →
      chunkStep cap s u = trailVerdict s expect phase u →
      chunkRank s' (u.drop n) < chunkRank s u := by
    intro expect phase hpos hphase heq
    rw [h, trailVerdict] at heq
    split at heq
    · cases heq
    · split at heq
      · split at heq
        · cases heq
        · obtain ⟨rfl, rfl⟩ := Verdict.next.inj heq
          simp only [chunkRank, hphase, if_false, List.length_drop]
          split <;> omega
      · cases heq
  cases hp : s.dec.phase with
  | size =>
    by_cases hk : PatternSearch.find CRLF u < u.length
    · rw [chunkStep_size hp hk] at h
      rcases sizeLineVerdict_cases s (u.take (PatternSearch.find CRLF u)) with
        ⟨dec, hdec, h'⟩ | ⟨e, h'⟩
      · obtain ⟨rfl, rfl⟩ := Verdict.next.inj (h'.symm.trans h)
        simp only [chunkRank, hp, List.length_drop, reduceCtorEq, if_false]
        simp only [List.length_take] at hn ⊢
        split <;> omega
      · rw [h'] at h; cases h
    · rw [chunkStep_size_more hp hk] at h; cases h
  | data =>
    rw [chunkStep_data hp] at h
    split at h
    · cases h
    · split at h
      · obtain ⟨rfl, rfl⟩ := Verdict.next.inj h
        simp only [chunkRank, hp, List.length_drop, reduceCtorEq, if_false, if_true]
        omega
      · cases h
  | trailCr => exact trail _ _ (by simp) (by simp) (chunkStep_trailCr hp)
  | trailLf => exact trail _ _ (by simp) (by simp) (chunkStep_trailLf hp)
  | trailer => exact trail _ _ (by simp) (by simp) (chunkStep_trailer hp)
  | done => rw [chunkStep_done hp] at h; cases h

theorem exists_chunkRun (cap : ℕ) (s : Dechunk) (u : Bytes) : ∃ o, Run (chunkStep cap) s u o :=
  exists_run chunkRank (fun s u s' n h => chunkRank_decreases s u s' n h) s u

end HttpServer
