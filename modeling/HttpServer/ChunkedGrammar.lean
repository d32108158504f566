import HttpServer.ChunkDecoding

/-!
# The grammar of a chunked body

`ChunkedBody wire payload` says that `wire` is a chunked body, terminator
included, whose chunk data is `payload`. Driving the decoder ends in the done
phase exactly on inputs that begin with such a body whose payload fits, having
used that body and written that payload.
-/

namespace HttpServer

open IncrementalDecoder

/-! ## The grammar -/

/-- A hexadecimal digit of either case and its value. -/
def HexDigit (c : Byte) (d : ℕ) : Prop :=
  (48 ≤ c.toNat ∧ c.toNat ≤ 57 ∧ d + 48 = c.toNat) ∨
    (65 ≤ c.toNat ∧ c.toNat ≤ 70 ∧ d + 55 = c.toNat) ∨
    (97 ≤ c.toNat ∧ c.toNat ≤ 102 ∧ d + 87 = c.toNat)

instance (c : Byte) (d : ℕ) : Decidable (HexDigit c d) :=
  inferInstanceAs (Decidable ((48 ≤ c.toNat ∧ c.toNat ≤ 57 ∧ d + 48 = c.toNat) ∨
    (65 ≤ c.toNat ∧ c.toNat ≤ 70 ∧ d + 55 = c.toNat) ∨
    (97 ≤ c.toNat ∧ c.toNat ≤ 102 ∧ d + 87 = c.toNat)))

inductive HexNumeral : Bytes → ℕ → Prop where
  | digit {c d} (h : HexDigit c d) : HexNumeral [c] d
  | snoc {s v c d} (hs : HexNumeral s v) (h : HexDigit c d) : HexNumeral (s ++ [c]) (v * 16 + d)

/-- A size line of value `n`, without its CRLF: digits, then nothing or a semicolon and any bytes
that do not complete a CRLF. -/
structure SizeLine (line : Bytes) (n : ℕ) : Prop where
  split : ∃ digits ext, line = digits ++ ext ∧ HexNumeral digits n ∧
    (ext = [] ∨ ∃ rest, ext = SEMICOLON :: rest)
  first_crlf : PatternSearch.find CRLF (line ++ CRLF) = line.length

inductive ChunkedBody : Bytes → Bytes → Prop where
  | last {line} (hline : SizeLine line 0) : ChunkedBody (line ++ CRLF ++ CRLF) []
  | chunk {line n data wire payload} (hline : SizeLine line n) (hpos : 1 ≤ n)
      (hmax : n ≤ HTTP_MAX_BODY_LEN) (hdata : data.length = n) (rest : ChunkedBody wire payload) :
      ChunkedBody (line ++ CRLF ++ (data ++ (CRLF ++ wire))) (data ++ payload)

/-! ## Size lines -/

theorem digitValue_sixteen_iff (c : Byte) (d : ℕ) :
    digitValue c 16 = some d ↔ HexDigit c d := by
  unfold digitValue HexDigit
  simp only [Bool.and_eq_true, decide_eq_true_eq, UInt8.le_iff_toNat_le, UInt8.reduceToNat]
  split
  · simp only [Option.bind_some, Option.ite_none_right_eq_some, Option.some.injEq]; omega
  · split
    · simp only [Option.bind_some, Option.ite_none_right_eq_some, Option.some.injEq]; omega
    · split
      · simp only [Option.bind_some, Option.ite_none_right_eq_some, Option.some.injEq]; omega
      · simp only [Option.bind_none, reduceCtorEq, false_iff]; omega

theorem hexNumeral_iff (s : Bytes) (n : ℕ) :
    HexNumeral s n ↔ s ≠ [] ∧ numeral 16 0 s = some n := by
  constructor
  · intro h
    induction h with
    | @digit c d h =>
      rw [← digitValue_sixteen_iff] at h
      simp [numeral, h]
    | @snoc s v c d hs h ih =>
      rw [← digitValue_sixteen_iff] at h
      refine ⟨by simp, ?_⟩
      rw [numeral_append, ih.2]
      simp [numeral, h]
  · rintro ⟨hne, h⟩
    induction s using List.reverseRecOn generalizing n with
    | nil => exact absurd rfl hne
    | append_singleton s c ih =>
      rw [numeral_append] at h
      obtain ⟨v, hv, h⟩ := Option.bind_eq_some_iff.mp h
      simp only [numeral] at h
      cases hd : digitValue c 16 with
      | none => simp [hd] at h
      | some d =>
        rw [hd] at h
        obtain rfl := Option.some.inj h
        have hdigit := (digitValue_sixteen_iff c d).mp hd
        rcases List.eq_nil_or_concat s with rfl | ⟨s', c', rfl⟩
        · obtain rfl := Option.some.inj hv
          simpa using HexNumeral.digit hdigit
        · exact .snoc (ih v (by simp) hv) hdigit

theorem HexNumeral.ne_semicolon {s : Bytes} {n : ℕ} (h : HexNumeral s n) :
    ∀ c ∈ s, c ≠ SEMICOLON := by
  have hdigit : ∀ c d, HexDigit c d → c ≠ SEMICOLON := by
    rintro c d h rfl
    revert h
    simp [HexDigit, SEMICOLON]
  induction h with
  | digit h => simpa using hdigit _ _ h
  | snoc hs h ih =>
    intro c hc
    rcases List.mem_append.mp hc with hc | hc
    · exact ih c hc
    · obtain rfl := List.mem_singleton.mp hc
      exact hdigit _ _ h

theorem SizeLine.uintParse {line : Bytes} {n : ℕ} (h : SizeLine line n)
    (hn : n ≤ HTTP_MAX_BODY_LEN) :
    uintParse (sizeDigits line) 16 HTTP_MAX_BODY_LEN = (.ok, some n) := by
  obtain ⟨digits, ext, rfl, hnum, hext⟩ := h.split
  have hdigits : sizeDigits (digits ++ ext) = digits := by
    have hall : ∀ c ∈ digits, (c != SEMICOLON) = true := fun c hc => by
      simpa using hnum.ne_semicolon c hc
    rw [sizeDigits, List.takeWhile_append_of_pos hall]
    rcases hext with rfl | ⟨rest, rfl⟩
    · simp
    · simp
  rw [hdigits, uintParse_ok_iff (by decide) (by decide) (by decide)]
  obtain ⟨hne, hval⟩ := (hexNumeral_iff digits n).mp hnum
  exact ⟨hne, hval, hn⟩

/-- The size line that the decoder takes from an input that has a CRLF. -/
theorem sizeLine_of_uintParse {u : Bytes} {n : ℕ}
    (hk : PatternSearch.find CRLF u < u.length)
    (h : uintParse (sizeDigits (u.take (PatternSearch.find CRLF u))) 16 HTTP_MAX_BODY_LEN =
      (.ok, some n)) :
    SizeLine (u.take (PatternSearch.find CRLF u)) n ∧ n ≤ HTTP_MAX_BODY_LEN ∧
      u.take (PatternSearch.find CRLF u + 2) = u.take (PatternSearch.find CRLF u) ++ CRLF := by
  have hcut : u.take (PatternSearch.find CRLF u + 2) =
      u.take (PatternSearch.find CRLF u) ++ CRLF := by
    obtain ⟨t, ht⟩ := PatternSearch.prefix_drop_find hk
    rw [List.take_add, ← ht]
    rfl
  have hfit := PatternSearch.find_add_length_le hk
  generalize hline : u.take (PatternSearch.find CRLF u) = line at *
  have hlen : line.length = PatternSearch.find CRLF u := by
    rw [← hline, List.length_take]; omega
  obtain ⟨hne, hval, hmax⟩ := (uintParse_ok_iff (by decide) (by decide) (by decide)).mp h
  refine ⟨⟨⟨sizeDigits line, line.dropWhile (· != SEMICOLON), ?_, ?_, ?_⟩, ?_⟩, hmax, hcut⟩
  · exact List.takeWhile_append_dropWhile.symm
  · exact (hexNumeral_iff _ n).mpr ⟨hne, hval⟩
  · cases hd : line.dropWhile (· != SEMICOLON) with
    | nil => exact .inl rfl
    | cons c rest =>
      have hhead := List.head_dropWhile_not (· != SEMICOLON) (l := line) (by simp [hd])
      simp only [hd, List.head_cons, bne_eq_false_iff_eq] at hhead
      exact .inr ⟨rest, by rw [hhead]⟩
  · have happ : line ++ CRLF ++ u.drop (PatternSearch.find CRLF u + 2) = u := by
      rw [← hcut, List.take_append_drop]
    rw [hlen]
    conv_rhs => rw [← happ]
    refine PatternSearch.find_of_append (by simp [CRLF]) ?_
    rw [happ, List.length_append, hlen]

/-! ## What is left to read -/

/-- The rest of a body and its payload, for a decoder in the middle of it. -/
def Remains (dec : ChunkDecoder) (wire payload : Bytes) : Prop :=
  match dec.phase with
  | .size => ChunkedBody wire payload
  | .data => ∃ data rest payload', wire = data ++ (CRLF ++ rest) ∧
      data.length = dec.remaining ∧ payload = data ++ payload' ∧ ChunkedBody rest payload'
  | .trailCr => ∃ rest, wire = CRLF ++ rest ∧ ChunkedBody rest payload
  | .trailLf => ∃ rest, wire = LF :: rest ∧ ChunkedBody rest payload
  | .trailer => wire = CRLF ∧ payload = []
  | .done => wire = [] ∧ payload = []

/-- What the reader of a fixed text makes of the bytes. -/
theorem trailVerdict_cases (s : Dechunk) (expect : Bytes) (phase : ChunkedPhase) (u : Bytes) :
    trailVerdict s expect phase u = .more s 0 ∨
    (u.take expect.length = expect ∧ trailVerdict s expect phase u =
      if phase = .done then .done { s with dec.phase := phase } expect.length
      else .next { s with dec.phase := phase } expect.length) ∨
    trailVerdict s expect phase u = .fail .badRequest := by
  unfold trailVerdict
  by_cases hshort : u.length < expect.length
  · exact .inl (if_pos hshort)
  rw [if_neg hshort]
  by_cases hpre : expect <+: u
  · exact .inr (.inl ⟨(List.prefix_iff_eq_take.mp hpre).symm, if_pos hpre⟩)
  · exact .inr (.inr (if_neg hpre))

theorem trailVerdict_next {s s' : Dechunk} {expect u : Bytes} {phase : ChunkedPhase} {n : ℕ}
    (h : trailVerdict s expect phase u = .next s' n) :
    u.take n = expect ∧ s' = { s with dec.phase := phase } := by
  rcases trailVerdict_cases s expect phase u with heq | ⟨htake, heq⟩ | heq
  · cases heq.symm.trans h
  · rw [heq] at h
    split at h
    · cases h
    · obtain ⟨rfl, rfl⟩ := Verdict.next.inj h
      exact ⟨htake, rfl⟩
  · cases heq.symm.trans h

theorem trailVerdict_done {s s' : Dechunk} {expect u : Bytes} {phase : ChunkedPhase} {n : ℕ}
    (h : trailVerdict s expect phase u = .done s' n) :
    phase = .done ∧ u.take n = expect ∧ s' = { s with dec.phase := phase } := by
  rcases trailVerdict_cases s expect phase u with heq | ⟨htake, heq⟩ | heq
  · cases heq.symm.trans h
  · rw [heq] at h
    split at h
    · next hphase =>
      obtain ⟨rfl, rfl⟩ := Verdict.done.inj h
      exact ⟨hphase, htake, rfl⟩
    · cases h
  · cases heq.symm.trans h

theorem trailVerdict_more {s s' : Dechunk} {expect u : Bytes} {phase : ChunkedPhase} {n : ℕ}
    (h : trailVerdict s expect phase u = .more s' n) : s' = s := by
  rcases trailVerdict_cases s expect phase u with heq | ⟨-, heq⟩ | heq
  · exact (Verdict.more.inj (heq.symm.trans h)).1.symm
  · rw [heq] at h
    split at h <;> cases h
  · cases heq.symm.trans h

variable {cap : ℕ} {s s' : Dechunk} {u : Bytes} {n : ℕ}

/-- A call that goes on reads the beginning of what is left. -/
theorem chunkStep_next_remains (h : chunkStep cap s u = .next s' n) (hfit : s.out.length ≤ cap) :
    ∃ written, s'.out = s.out ++ written ∧ s'.out.length ≤ cap ∧
      ∀ wire payload, Remains s'.dec wire payload →
        Remains s.dec (u.take n ++ wire) (written ++ payload) := by
  cases hp : s.dec.phase with
  | size =>
    by_cases hk : PatternSearch.find CRLF u < u.length
    · rw [chunkStep_size hp hk, sizeLineVerdict] at h
      have hlen : (u.take (PatternSearch.find CRLF u)).length = PatternSearch.find CRLF u := by
        rw [List.length_take]; omega
      split at h
      · next hparse =>
        obtain ⟨rfl, rfl⟩ := Verdict.next.inj h
        obtain ⟨hline, -, hcut⟩ := sizeLine_of_uintParse hk hparse
        refine ⟨[], by simp, hfit, ?_⟩
        rintro wire payload ⟨rfl, rfl⟩
        rw [hlen, hcut]
        simp only [Remains, hp]
        exact .last hline
      · next k hzero hparse =>
        obtain ⟨rfl, rfl⟩ := Verdict.next.inj h
        obtain ⟨hline, hmax, hcut⟩ := sizeLine_of_uintParse hk hparse
        refine ⟨[], by simp, hfit, ?_⟩
        rintro wire payload ⟨data, rest, payload', rfl, hdata, rfl, hrest⟩
        rw [hlen, hcut]
        simp only [Remains, hp, List.nil_append]
        have hpos : 1 ≤ k := Nat.one_le_iff_ne_zero.mpr fun h0 => hzero h0
        exact .chunk hline hpos hmax hdata hrest
      · cases h
    · rw [chunkStep_size_more hp hk] at h; cases h
  | data =>
    rw [chunkStep_data hp] at h
    split at h
    · cases h
    · next hcap =>
      split at h
      · next hle =>
        obtain ⟨rfl, rfl⟩ := Verdict.next.inj h
        refine ⟨u.take s.dec.remaining, rfl, ?_, ?_⟩
        · rw [List.length_append, List.length_take]; omega
        · rintro wire payload ⟨rest, rfl, hrest⟩
          simp only [Remains, hp]
          refine ⟨u.take s.dec.remaining, rest, payload, rfl, ?_, rfl, hrest⟩
          rw [List.length_take]; omega
      · cases h
  | trailCr =>
    obtain ⟨hcut, rfl⟩ := trailVerdict_next ((chunkStep_trailCr hp).symm.trans h)
    refine ⟨[], by simp, hfit, ?_⟩
    rintro wire payload ⟨rest, rfl, hrest⟩
    simp only [Remains, hp]
    exact ⟨rest, by rw [hcut]; rfl, hrest⟩
  | trailLf =>
    obtain ⟨hcut, rfl⟩ := trailVerdict_next ((chunkStep_trailLf hp).symm.trans h)
    refine ⟨[], by simp, hfit, ?_⟩
    intro wire payload hrest
    simp only [Remains, hp]
    exact ⟨wire, by rw [hcut]; rfl, hrest⟩
  | trailer =>
    obtain ⟨-, rfl⟩ := trailVerdict_next ((chunkStep_trailer hp).symm.trans h)
    rw [chunkStep_trailer hp, trailVerdict] at h
    split at h
    · cases h
    · split at h <;> simp at h
  | done => rw [chunkStep_done hp] at h; cases h

/-- A line with a size is read as a whole, or not at all. -/
theorem chunkStep_size_cases (cap : ℕ) (u : Bytes) (hp : s.dec.phase = .size) :
    chunkStep cap s u = .more s 0 ∨
    (∃ dec m, chunkStep cap s u = .next { s with dec := dec } m) ∨
    ∃ e, chunkStep cap s u = .fail e := by
  by_cases hk : PatternSearch.find CRLF u < u.length
  · rw [chunkStep_size hp hk]
    rcases sizeLineVerdict_cases s (u.take (PatternSearch.find CRLF u)) with ⟨dec, -, h⟩ | ⟨e, h⟩
    · exact .inr (.inl ⟨dec, _, h⟩)
    · exact .inr (.inr ⟨e, h⟩)
  · exact .inl (chunkStep_size_more hp hk)

/-- A call that ends the body reads all of what is left. -/
theorem chunkStep_done_remains (h : chunkStep cap s u = .done s' n) :
    Remains s.dec (u.take n) [] ∧ s'.out = s.out ∧ s'.dec.phase = .done := by
  cases hp : s.dec.phase with
  | size =>
    rcases chunkStep_size_cases cap u hp with heq | ⟨dec, m, heq⟩ | ⟨e, heq⟩
    all_goals cases heq.symm.trans h
  | data =>
    rw [chunkStep_data hp] at h
    split at h
    · cases h
    · split at h <;> cases h
  | trailCr =>
    obtain ⟨hphase, -⟩ := trailVerdict_done ((chunkStep_trailCr hp).symm.trans h)
    cases hphase
  | trailLf =>
    obtain ⟨hphase, -⟩ := trailVerdict_done ((chunkStep_trailLf hp).symm.trans h)
    cases hphase
  | trailer =>
    obtain ⟨-, hcut, rfl⟩ := trailVerdict_done ((chunkStep_trailer hp).symm.trans h)
    simp [Remains, hp, hcut]
  | done =>
    rw [chunkStep_done hp] at h
    obtain ⟨rfl, rfl⟩ := Verdict.done.inj h
    simp [Remains, hp]

theorem chunkStep_more_phase (h : chunkStep cap s u = .more s' n) :
    s'.dec.phase = s.dec.phase ∧ s.dec.phase ≠ .done := by
  cases hp : s.dec.phase with
  | size =>
    rcases chunkStep_size_cases cap u hp with heq | ⟨dec, m, heq⟩ | ⟨e, heq⟩
    · obtain ⟨rfl, -⟩ := Verdict.more.inj (heq.symm.trans h)
      exact ⟨hp, by simp⟩
    · cases heq.symm.trans h
    · cases heq.symm.trans h
  | data =>
    rw [chunkStep_data hp] at h
    split at h
    · cases h
    · split at h
      · cases h
      · obtain ⟨rfl, -⟩ := Verdict.more.inj h
        exact ⟨rfl, by simp⟩
  | trailCr =>
    rw [trailVerdict_more ((chunkStep_trailCr hp).symm.trans h)]
    exact ⟨hp, by simp⟩
  | trailLf =>
    rw [trailVerdict_more ((chunkStep_trailLf hp).symm.trans h)]
    exact ⟨hp, by simp⟩
  | trailer =>
    rw [trailVerdict_more ((chunkStep_trailer hp).symm.trans h)]
    exact ⟨hp, by simp⟩
  | done => rw [chunkStep_done hp] at h; cases h

theorem phase_ne_done_of_run_more (h : Run (chunkStep cap) s u (.more s' n)) :
    s'.dec.phase ≠ .done := by
  generalize ho : Outcome.more s' n = o at h
  induction h generalizing n with
  | @more s s₁ u k h =>
    obtain ⟨rfl, rfl⟩ := Outcome.more.inj ho
    obtain ⟨heq, hne⟩ := chunkStep_more_phase h
    rwa [heq]
  | done h => cases ho
  | fail h => cases ho
  | @next s s₁ u k o h rest ih =>
    cases o with
    | more s₂ m =>
      obtain ⟨rfl, rfl⟩ := Outcome.more.inj ho
      exact ih rfl
    | done => cases ho
    | fail => cases ho

/-- What a run to the end has used is the rest of a body, and it has written its payload. -/
theorem remains_of_run (h : Run (chunkStep cap) s u (.done s' n)) (hfit : s.out.length ≤ cap) :
    ∃ payload, Remains s.dec (u.take n) payload ∧ s'.out = s.out ++ payload ∧
      s'.dec.phase = .done ∧ s'.out.length ≤ cap := by
  generalize ho : Outcome.done s' n = o at h
  induction h generalizing n with
  | more h => cases ho
  | fail h => cases ho
  | @done s s₁ u k h =>
    obtain ⟨rfl, rfl⟩ := Outcome.done.inj ho
    obtain ⟨hrem, hout, hphase⟩ := chunkStep_done_remains h
    exact ⟨[], hrem, by rw [hout, List.append_nil], hphase, by rwa [hout]⟩
  | @next s s₁ u k o h rest ih =>
    cases o with
    | more => cases ho
    | fail => cases ho
    | done s₂ m =>
      obtain ⟨rfl, rfl⟩ := Outcome.done.inj ho
      obtain ⟨written, hout, hfit', hrem⟩ := chunkStep_next_remains h hfit
      obtain ⟨payload, hrest, hout', hphase, hlen⟩ := ih hfit' rfl
      refine ⟨written ++ payload, ?_, ?_, hphase, hlen⟩
      · rw [List.take_add]
        exact hrem _ _ hrest
      · rw [hout', hout, List.append_assoc]

/-! ## Reading a body of the grammar -/

/-- A run that is extended by one call at its beginning. -/
theorem run_done_cons {s₁ s₂ : Dechunk} {pre wire : Bytes} {m : ℕ}
    (h : chunkStep cap s (pre ++ wire) = .next s₁ pre.length)
    (rest : Run (chunkStep cap) s₁ wire (.done s₂ m)) :
    Run (chunkStep cap) s (pre ++ wire) (.done s₂ (pre.length + m)) := by
  have hdrop : (pre ++ wire).drop pre.length = wire := List.drop_left
  exact .next h (hdrop.symm ▸ rest)

theorem chunkStep_sizeLine {line : Bytes} (hp : s.dec.phase = .size) (hline : SizeLine line n)
    (hmax : n ≤ HTTP_MAX_BODY_LEN) (rest : Bytes) :
    chunkStep cap s (line ++ CRLF ++ rest) =
      .next { s with dec :=
        if n = 0 then { s.dec with phase := .trailer } else { phase := .data, remaining := n } }
        (line ++ CRLF).length := by
  have hlt : PatternSearch.find CRLF (line ++ CRLF) < (line ++ CRLF).length := by
    rw [hline.first_crlf, List.length_append, CRLF_length]; omega
  have hfind : PatternSearch.find CRLF (line ++ CRLF ++ rest) = line.length := by
    rw [PatternSearch.find_append hlt, hline.first_crlf]
  have hfound : PatternSearch.find CRLF (line ++ CRLF ++ rest) <
      (line ++ CRLF ++ rest).length := by
    simp only [hfind, List.length_append, CRLF_length]
    omega
  rw [chunkStep_size hp hfound, hfind, List.append_assoc, List.take_left, sizeLineVerdict,
    hline.uintParse hmax, List.length_append, CRLF_length]
  cases n with
  | zero => rfl
  | succ n => rfl

/-- The decoder reads a body whose payload fits. -/
theorem run_of_chunkedBody {wire payload : Bytes} (h : ChunkedBody wire payload)
    (hp : s.dec.phase = .size) (hfit : s.out.length + payload.length ≤ cap) :
    ∃ s', Run (chunkStep cap) s wire (.done s' wire.length) ∧ s'.dec.phase = .done ∧
      s'.out = s.out ++ payload := by
  induction h generalizing s with
  | @last line hline =>
    have hsize : chunkStep cap s _ = _ := chunkStep_sizeLine hp hline (Nat.zero_le _) CRLF
    rw [if_pos rfl] at hsize
    have htrail : chunkStep cap { s with dec.phase := .trailer } CRLF =
        .done { s with dec.phase := .done } 2 := by
      rw [chunkStep_trailer rfl]; rfl
    refine ⟨{ s with dec.phase := .done }, ?_, rfl, by simp⟩
    have hlen : (line ++ CRLF ++ CRLF).length = (line ++ CRLF).length + 2 := by simp
    rw [hlen]
    exact run_done_cons hsize (.done htrail)
  | @chunk line n data wire payload hline hpos hmax hdata rest ih =>
    have hsize : chunkStep cap s _ = _ :=
      chunkStep_sizeLine hp hline hmax (data ++ (CRLF ++ wire))
    rw [if_neg (by omega)] at hsize
    rw [List.length_append, ← Nat.add_assoc] at hfit
    have hbody : chunkStep cap { s with dec := { phase := .data, remaining := n } }
        (data ++ (CRLF ++ wire)) =
        .next { dec := { phase := .trailCr }, out := s.out ++ data } data.length := by
      rw [chunkStep_data rfl, if_neg (by simp only [List.length_append]; omega),
        if_pos (by simp only [List.length_append]; omega)]
      simp only [← hdata, List.take_left]
    have hcr : chunkStep cap { dec := { phase := .trailCr }, out := s.out ++ data }
        ([CR] ++ (LF :: wire)) =
        .next { dec := { phase := .trailLf }, out := s.out ++ data } [CR].length := by
      rw [chunkStep_trailCr rfl]; simp [trailVerdict]
    have hlf : chunkStep cap { dec := { phase := .trailLf }, out := s.out ++ data }
        ([LF] ++ wire) = .next { dec := { phase := .size }, out := s.out ++ data } [LF].length := by
      rw [chunkStep_trailLf rfl]; simp [trailVerdict]
    obtain ⟨s', hrun, hdone, hout⟩ :=
      ih (s := { dec := { phase := .size }, out := s.out ++ data }) rfl
        (by rw [List.length_append]; exact hfit)
    have htail : Run (chunkStep cap) _ ([CR] ++ (LF :: wire)) _ :=
      run_done_cons hcr (run_done_cons hlf hrun)
    have hall := run_done_cons hsize (run_done_cons hbody htail)
    refine ⟨s', ?_, hdone, by rw [hout, List.append_assoc]⟩
    have hlen : (line ++ CRLF ++ (data ++ (CRLF ++ wire))).length =
        (line ++ CRLF).length + (data.length + ([CR].length + ([LF].length + wire.length))) := by
      simp only [List.length_append, CRLF_length, List.length_cons, List.length_nil]; omega
    rw [hlen]
    exact hall

/-! ## The driver -/

/-- One turn of the driver. -/
theorem dechunkDrive_succ (input : Bytes) (cap fuel : ℕ) (d : ChunkDrive) :
    ∃ r, (∀ e, chunkStep cap ⟨d.dec, d.out⟩ (input.drop d.consumed) = .fail e →
        r.status = e ∧ e ≠ .ok ∧ e ≠ .incomplete ∧ r.dec.phase ≠ .done) ∧
      dechunkDrive input cap (fuel + 1) d =
        match chunkStep cap ⟨d.dec, d.out⟩ (input.drop d.consumed) with
        | .more s n => some ⟨s.dec, d.consumed + n, s.out, .incomplete⟩
        | .done s n => some ⟨s.dec, d.consumed + n, s.out, .ok⟩
        | .next s n => dechunkDrive input cap fuel ⟨s.dec, d.consumed + n, s.out, .ok⟩
        | .fail _ => some r := by
  have hkeep := chunkAdvance_dec_of_refused d.dec (input.drop d.consumed) (cap - d.out.length)
  simp only [dechunkDrive, chunkStep]
  generalize chunkAdvance d.dec (input.drop d.consumed) (cap - d.out.length) = p at *
  obtain ⟨cr, dec, written⟩ := p
  dsimp only at hkeep ⊢
  refine ⟨⟨dec, d.consumed + cr.parseResult.next.getD 0, d.out ++ written,
    cr.parseResult.status⟩, ?_, ?_⟩
  · intro e he
    split at he
    · split at he <;> cases he
    · cases he
    · next hok hinc =>
      obtain rfl := Verdict.fail.inj he
      obtain ⟨rfl, hdone⟩ := hkeep hok hinc
      exact ⟨rfl, hok, hinc, hdone⟩
  · split
    · next hdone =>
      cases hst : cr.parseResult.status <;> simp_all
    · next hdone =>
      cases hst : cr.parseResult.status <;> simp_all

/-- What the driver returns for an outcome of the run. -/
def DriveEnd (d : ChunkDrive) : Outcome Dechunk ParseStatus → ChunkDrive → Prop
  | .more s n, r => r = ⟨s.dec, d.consumed + n, s.out, .incomplete⟩
  | .done s n, r => r = ⟨s.dec, d.consumed + n, s.out, .ok⟩
  | .fail e, r => r.status = e ∧ e ≠ .ok ∧ e ≠ .incomplete ∧ r.dec.phase ≠ .done

/-- With fuel above the rank the driver computes the outcome of the run. -/
theorem dechunkDrive_of_run {input : Bytes} {o : Outcome Dechunk ParseStatus} {d : ChunkDrive}
    {fuel : ℕ} (h : Run (chunkStep cap) ⟨d.dec, d.out⟩ (input.drop d.consumed) o)
    (hfuel : chunkRank ⟨d.dec, d.out⟩ (input.drop d.consumed) < fuel) :
    ∃ r, dechunkDrive input cap fuel d = some r ∧ DriveEnd d o r := by
  induction fuel generalizing d o with
  | zero => exact absurd hfuel (Nat.not_lt_zero _)
  | succ fuel ih =>
    obtain ⟨r, hr, hturn⟩ := dechunkDrive_succ input cap fuel d
    rw [hturn]
    cases h with
    | more h => rw [h]; exact ⟨_, rfl, rfl⟩
    | done h => rw [h]; exact ⟨_, rfl, rfl⟩
    | fail h => rw [h]; exact ⟨_, rfl, hr _ h⟩
    | @next _ s₁ _ n o h rest =>
      rw [h]
      rw [List.drop_drop] at rest
      have hrank := chunkRank_decreases _ _ _ _ h
      rw [List.drop_drop] at hrank
      obtain ⟨r', hdrive, hend⟩ := ih (d := ⟨s₁.dec, d.consumed + n, s₁.out, .ok⟩) rest
        (lt_of_lt_of_le hrank (Nat.le_of_lt_succ hfuel))
      refine ⟨r', hdrive, ?_⟩
      cases o <;> simpa [DriveEnd, Outcome.shift, Nat.add_assoc] using hend

/-- From the zero decoder, fuel above the length of the input is enough. -/
theorem exists_dechunkDrive (input : Bytes) (cap : ℕ) {fuel : ℕ} (hfuel : input.length < fuel) :
    ∃ o r, Run (chunkStep cap) {} input o ∧ dechunkDrive input cap fuel {} = some r ∧
      DriveEnd {} o r := by
  obtain ⟨o, hrun⟩ := exists_chunkRun cap {} input
  have hrank : chunkRank {} (input.drop 0) < fuel := by simpa [chunkRank] using hfuel
  obtain ⟨r, hdrive, hend⟩ := dechunkDrive_of_run (d := {}) hrun hrank
  exact ⟨o, r, hrun, hdrive, hend⟩

/-- On an input that begins with a body whose payload fits, the driver reads exactly that. -/
theorem driveEnd_of_chunkedBody {wire payload rest : Bytes}
    {o : Outcome Dechunk ParseStatus} {r : ChunkDrive} (hbody : ChunkedBody wire payload)
    (hfit : payload.length ≤ cap) (hrun : Run (chunkStep cap) {} (wire ++ rest) o)
    (hend : DriveEnd {} o r) :
    r.dec.phase = .done ∧ r.status = .ok ∧ r.consumed = wire.length ∧ r.out = payload := by
  obtain ⟨s', hwire, hdone, hout⟩ := run_of_chunkedBody (s := {}) hbody rfl (by simpa using hfit)
  obtain rfl := ((chunkStep_resumable cap).run_done_append hwire rest).unique hrun
  obtain rfl := hend
  exact ⟨hdone, rfl, Nat.zero_add _, by simpa using hout⟩

theorem dechunkDrive_iff_chunkedBody (W : Bytes) (C fuel : ℕ) (hfuel : W.length < fuel) :
    ∃ r, dechunkDrive W C fuel {} = some r ∧
      (r.dec.phase = .done ↔
        ∃ P payload, P <+: W ∧ ChunkedBody P payload ∧ payload.length ≤ C) ∧
      (∀ P payload, P <+: W → ChunkedBody P payload → payload.length ≤ C →
        r.consumed = P.length ∧ r.out = payload) ∧
      (∀ P payload, W <+: P → W ≠ P → ChunkedBody P payload → payload.length ≤ C →
        r.status = .incomplete) := by
  obtain ⟨o, r, hrun, hdrive, hend⟩ := exists_dechunkDrive W C hfuel
  refine ⟨r, hdrive, ⟨?_, ?_⟩, ?_, ?_⟩
  · intro hdone
    cases o with
    | more s n =>
      obtain rfl := hend
      exact absurd hdone (phase_ne_done_of_run_more hrun)
    | done s n =>
      obtain ⟨payload, hbody, hout, -, hfit⟩ := remains_of_run hrun (Nat.zero_le _)
      refine ⟨W.take n, payload, List.take_prefix n W, hbody, ?_⟩
      simpa [hout] using hfit
    | fail e => exact absurd hdone hend.2.2.2
  · rintro ⟨P, payload, ⟨rest, rfl⟩, hbody, hfit⟩
    exact (driveEnd_of_chunkedBody hbody hfit hrun hend).1
  · rintro P payload ⟨rest, rfl⟩ hbody hfit
    exact (driveEnd_of_chunkedBody hbody hfit hrun hend).2.2
  · rintro P payload ⟨rest, rfl⟩ hne hbody hfit
    have hlt : W.length < (W ++ rest).length := by
      rcases rest with _ | ⟨c, rest⟩
      · simp at hne
      · simp
    obtain ⟨s', hwire, -, -⟩ := run_of_chunkedBody (s := {}) hbody rfl (by simpa using hfit)
    cases o with
    | more s n => rw [show r = _ from hend]
    | done s n =>
      obtain ⟨rfl, hn⟩ := Outcome.done.inj
        (((chunkStep_resumable C).run_done_append hrun rest).unique hwire)
      have := (chunkStep_resumable C).run_used_le hrun
      simp only [Outcome.used] at this
      omega
    | fail e =>
      cases ((chunkStep_resumable C).run_fail_append hrun rest).unique hwire

theorem dechunkDrive_iff_chunkedBody_three_bytes :
    ∃ r, dechunkDrive (ascii "3" ++ CRLF ++ ascii "a;b" ++ CRLF ++ ascii "0" ++ CRLF ++ CRLF ++
        ascii "GET") 16 20 {} = some r ∧
      (r.dec.phase = .done ↔ ∃ P payload, P <+: ascii "3" ++ CRLF ++ ascii "a;b" ++ CRLF ++
        ascii "0" ++ CRLF ++ CRLF ++ ascii "GET" ∧ ChunkedBody P payload ∧
        payload.length ≤ 16) :=
  let ⟨r, hdrive, hdone, _⟩ := dechunkDrive_iff_chunkedBody (ascii "3" ++ CRLF ++ ascii "a;b" ++
    CRLF ++ ascii "0" ++ CRLF ++ CRLF ++ ascii "GET") 16 20 (by decide)
  ⟨r, hdrive, hdone⟩

end HttpServer
