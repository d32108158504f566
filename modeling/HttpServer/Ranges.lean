import HttpServer.RequestParser

/-!
# Ranges of a buffer

How the bytes of `[cur, fin)` split, what the scanners of `parser.c` find in them,
and which reads stay inside the first `n` bytes of the buffer.
-/

namespace HttpServer

variable {buf u v : Bytes} {cur mid fin n : ℕ} {c : Byte}

theorem range_eq_take (buf : Bytes) (cur fin : ℕ) :
    range buf cur fin = (buf.drop cur).take (fin - cur) := List.drop_take ..

theorem length_range (hfin : fin ≤ buf.length) : (range buf cur fin).length = fin - cur := by
  rw [range, List.length_drop, List.length_take, Nat.min_eq_left hfin]

theorem length_range_le (buf : Bytes) (cur fin : ℕ) : (range buf cur fin).length ≤ fin - cur := by
  rw [range_eq_take]
  exact List.length_take_le _ _

theorem range_append (hmid : cur ≤ mid) (hfin : mid ≤ fin) :
    range buf cur fin = range buf cur mid ++ range buf mid fin := by
  have hsplit : fin - cur = (mid - cur) + (fin - mid) := by omega
  rw [range_eq_take, range_eq_take, range_eq_take, hsplit, List.take_add, List.drop_drop]
  congr 3
  omega

/-- The two parts of a range that is known to be an append. -/
theorem range_split (hfin : fin ≤ buf.length) (hcur : cur ≤ fin)
    (h : range buf cur fin = u ++ v) :
    range buf cur (cur + u.length) = u ∧ range buf (cur + u.length) fin = v ∧
      cur + u.length ≤ fin := by
  have hlen := congrArg List.length h
  rw [length_range hfin, List.length_append] at hlen
  have hle : cur + u.length ≤ fin := by omega
  rw [range_append (Nat.le_add_right cur u.length) hle] at h
  have hfirst : (range buf cur (cur + u.length)).length = u.length := by
    rw [length_range (hle.trans hfin)]
    omega
  obtain ⟨hu, hv⟩ := List.append_inj h hfirst
  exact ⟨hu, hv, hle⟩

theorem range_cons (hcur : cur < fin) (hfin : fin ≤ buf.length) :
    range buf cur fin = byteAt buf cur :: range buf (cur + 1) fin := by
  have hlt : cur < buf.length := by omega
  have hsub : fin - cur = (fin - (cur + 1)) + 1 := by omega
  rw [range_eq_take, range_eq_take, hsub, List.drop_eq_getElem_cons hlt, List.take_succ_cons,
    byteAt, List.getD_eq_getElem?_getD, List.getElem?_eq_getElem hlt, Option.getD_some]

theorem range_of_le (h : fin ≤ cur) : range buf cur fin = [] := by
  rw [range_eq_take, Nat.sub_eq_zero_of_le h, List.take_zero]

theorem byteAt_range_head (hcur : cur < fin) (hfin : fin ≤ buf.length)
    (h : range buf cur fin = c :: u) : byteAt buf cur = c := by
  rw [range_cons hcur hfin] at h
  exact (List.cons.inj h).1

theorem byteAt_range {i : ℕ} (h : cur + i < fin) :
    byteAt (range buf cur fin) i = byteAt buf (cur + i) := by
  rw [range_eq_take]
  simp only [byteAt, List.getD_eq_getElem?_getD]
  rw [List.getElem?_take_of_lt (by omega), List.getElem?_drop]

theorem memEq_range {i : ℕ} {s : Bytes} (h : cur + i + s.length ≤ fin) :
    memEq (range buf cur fin) i s = memEq buf (cur + i) s := by
  unfold memEq
  rw [range_eq_take, List.drop_take, List.take_take, List.drop_drop, Nat.min_eq_left (by omega)]

/-- A comparison of the first bytes together with the length. -/
theorem memEq_zero (u s : Bytes) : (memEq u 0 s && u.length == s.length) = (u == s) := by
  unfold memEq
  rw [List.drop_zero, Bool.eq_iff_iff, Bool.and_eq_true, beq_iff_eq, beq_iff_eq, beq_iff_eq]
  constructor
  · rintro ⟨hs, hlen⟩
    rwa [← hlen, List.take_length] at hs
  · rintro rfl
    exact ⟨List.take_length, rfl⟩

/-! ## Scanners -/

theorem findIdx_append_cons (h : c ∉ u) : (u ++ c :: v).findIdx (· == c) = u.length := by
  have hnone : u.findIdx (· == c) = u.length := by
    rw [List.findIdx_eq_length]
    intro x hx
    exact beq_eq_false_iff_ne.mpr fun heq => h (heq ▸ hx)
  rw [List.findIdx_append, hnone, if_neg (lt_irrefl _), List.findIdx_cons]
  simp

/-- `memchr` splits its range at the first occurrence. -/
theorem memchr_eq_some_iff {p : ℕ} : memchr buf cur fin c = some p ↔
    ∃ u v, range buf cur fin = u ++ c :: v ∧ c ∉ u ∧ p = cur + u.length := by
  unfold memchr
  dsimp only
  constructor
  · intro h
    split at h
    · next hlt =>
      obtain ⟨x, hx, heq⟩ := List.findIdx_lt_length.mp hlt
      obtain rfl : x = c := beq_iff_eq.mp heq
      obtain ⟨u, v, hsplit, hu⟩ := List.eq_append_cons_of_mem hx
      refine ⟨u, v, hsplit, hu, ?_⟩
      rw [hsplit, findIdx_append_cons hu] at h
      exact (Option.some.inj h).symm
    · cases h
  · rintro ⟨u, v, hsplit, hu, rfl⟩
    rw [hsplit, findIdx_append_cons hu, if_pos (by simp)]

theorem colonFind_eq (h : range buf cur fin = u ++ 58 :: v) (hu : 58 ∉ u) :
    colonFind buf cur fin = cur + u.length := by
  have hcolon : isColon = fun c : Byte => c == 58 := rfl
  rw [colonFind, h, hcolon, findIdx_append_cons hu]

theorem le_crlfFind (buf : Bytes) (cur fin : ℕ) : cur ≤ crlfFind buf cur fin :=
  Nat.le_add_right _ _

theorem crlfFind_le (buf : Bytes) (hcur : cur ≤ fin) : crlfFind buf cur fin ≤ fin := by
  have hle := (PatternSearch.find_le_length CRLF _).trans (length_range_le buf cur fin)
  unfold crlfFind
  omega

theorem colonFind_le (buf : Bytes) (hcur : cur ≤ fin) : colonFind buf cur fin ≤ fin := by
  have hidx : (range buf cur fin).findIdx isColon ≤ (range buf cur fin).length :=
    List.findIdx_le_length
  have hle := hidx.trans (length_range_le buf cur fin)
  unfold colonFind
  omega

theorem owsSkip_le (buf : Bytes) (hcur : cur ≤ fin) : owsSkip buf cur fin ≤ fin := by
  have hle := (List.takeWhile_prefix isOws).length_le.trans (length_range_le buf cur fin)
  unfold owsSkip
  omega

theorem owsTrimTrailing_le (buf : Bytes) (hcur : cur ≤ fin) : owsTrimTrailing buf cur fin ≤ fin := by
  have hle := (List.rdropWhile_prefix isOws (range buf cur fin)).length_le.trans
    (length_range_le buf cur fin)
  unfold owsTrimTrailing
  omega

theorem isCrlf_iff (hcur : cur + 2 ≤ buf.length) :
    isCrlf buf cur = true ↔ range buf cur (cur + 2) = CRLF := by
  rw [range_cons (by omega) hcur, range_cons (by omega) hcur, range_of_le le_rfl]
  simp [isCrlf, CRLF]

/-- A line that has no `CR` ends at the first CRLF behind it. -/
theorem crlfFind_eq (hu : CR ∉ u) (h : range buf cur fin = u ++ CRLF ++ v) :
    crlfFind buf cur fin = cur + u.length := by
  unfold crlfFind
  congr 1
  rw [h]
  refine PatternSearch.find_eq (by simp [CRLF]) ?_ ?_
  · rw [List.append_assoc, List.drop_left]
    exact List.prefix_append _ _
  · intro j hj hp
    rw [List.append_assoc, List.drop_append_of_le_length hj.le,
      List.drop_eq_getElem_cons hj] at hp
    obtain ⟨t, ht⟩ := hp
    have hhead : CR = u[j] := (List.cons.inj ht).1
    exact hu (hhead ▸ List.getElem_mem hj)

/-- What `crlf_parse` accepts. -/
theorem crlfParse_ok_iff (hfin : fin ≤ buf.length) :
    (crlfParse buf cur fin).status = .ok ↔ cur + 2 ≤ fin ∧ range buf cur (cur + 2) = CRLF := by
  unfold crlfParse
  by_cases hroom : cur + 2 ≤ fin
  · have hiff : isCrlf buf cur = true ↔ range buf cur (cur + 2) = CRLF :=
      isCrlf_iff (hroom.trans hfin)
    by_cases hcrlf : isCrlf buf cur = true
    · rw [if_pos (by simp [hroom, hcrlf])]
      simp [hroom, hiff.mp hcrlf]
    · rw [if_neg (by simp [hcrlf])]
      simp [parseErrorSet, mt hiff.mpr hcrlf]
  · rw [if_neg (by simp [hroom])]
    simp [parseErrorSet, hroom]

theorem crlfParse_of_ok (h : (crlfParse buf cur fin).status = .ok) :
    crlfParse buf cur fin = { next := some (cur + 2) } := by
  unfold crlfParse at h ⊢
  split at h
  · next hcrlf => rw [if_pos hcrlf]
  · cases h

end HttpServer
