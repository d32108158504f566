import HttpServer.CheckedParser
import HttpServer.RequestLocality

/-!
# The request parser stays inside its buffers

Wherever the received bytes contain an empty line, no access of `request_parse` is a
fault: the parser with checked accesses returns what the parser of `RequestParser` does.
-/

namespace HttpServer

open CheckedMemory

variable {buf : Bytes} {cur fin pos t : ℕ} {c : Byte}

/-! ## parser.c -/

theorem byte_checked {i : ℕ} (h : i < buf.length) : Checked.byte buf i = pure (byteAt buf i) :=
  load_getD 0 rfl h

theorem byte_checked_pred (h : cur < fin) (hfin : fin ≤ buf.length) :
    Checked.byte buf (fin - 1) = pure (byteAt buf (fin - 1)) :=
  load_getD 0 (by omega) (by omega)

theorem memEq_checked {s : Bytes} {i : ℕ} (h : i + s.length ≤ buf.length) :
    Checked.memEq buf i s = pure (memEq buf i s) := by
  rw [Checked.memEq, loadAll_eq rfl h, pure_bind]
  rfl

theorem memchr_step (hcur : cur < fin) (hfin : fin ≤ buf.length) :
    memchr buf cur fin c =
      if byteAt buf cur == c then some cur else memchr buf (cur + 1) fin c := by
  unfold memchr
  rw [range_cons hcur hfin, List.findIdx_cons, List.length_cons]
  cases byteAt buf cur == c with
  | true => rfl
  | false => simp [Nat.add_assoc, Nat.add_comm 1]

theorem memchr_checked (hfin : fin ≤ buf.length) :
    Checked.memchr buf cur fin c = pure (memchr buf cur fin c) := by
  fun_induction Checked.memchr buf cur fin c with
  | case1 cur hcur ih =>
    rw [byte_checked (by omega), pure_bind, memchr_step hcur hfin, ih, ← apply_ite pure]
  | case2 cur hcur =>
    unfold memchr
    rw [range_of_le (by omega)]
    rfl

theorem isCrlf_checked (h : cur + 1 < buf.length) :
    Checked.isCrlf buf cur = pure (isCrlf buf cur) := by
  rw [Checked.isCrlf, byte_checked (by omega), byte_checked h, pure_bind, pure_bind, isCrlf]
  cases byteAt buf cur == CR <;> rfl

theorem crlfFind_step (hcur : cur + 1 < fin) (hfin : fin ≤ buf.length) :
    crlfFind buf cur fin = if isCrlf buf cur then cur else crlfFind buf (cur + 1) fin := by
  unfold crlfFind
  rw [range_cons (by omega) hfin, PatternSearch.find]
  have hoccurs : CRLF <+: byteAt buf cur :: range buf (cur + 1) fin ↔ isCrlf buf cur = true := by
    rw [range_cons hcur hfin, CRLF, List.cons_prefix_cons, List.cons_prefix_cons, isCrlf,
      Bool.and_eq_true, beq_iff_eq, beq_iff_eq, eq_comm, eq_comm (a := LF)]
    simp only [List.nil_prefix, and_true]
  by_cases h : isCrlf buf cur = true
  · rw [if_pos (hoccurs.mpr h), if_pos h, Nat.add_zero]
  · rw [if_neg (mt hoccurs.mp h), if_neg h]
    omega

theorem crlfFind_checked (hcur : cur ≤ fin) (hfin : fin ≤ buf.length) :
    Checked.crlfFind buf cur fin = pure (crlfFind buf cur fin) := by
  fun_induction Checked.crlfFind buf cur fin with
  | case1 cur hlt ih =>
    rw [isCrlf_checked (by omega), pure_bind, crlfFind_step hlt hfin, ih (by omega),
      ← apply_ite pure]
  | case2 cur hlt =>
    unfold crlfFind
    rcases Nat.lt_or_ge cur fin with h | h
    · have hshort : ¬ CRLF <+: [byteAt buf cur] := fun hoccurs => by simpa using hoccurs.length_le
      rw [range_cons h hfin, range_of_le (by omega), PatternSearch.find, if_neg hshort,
        PatternSearch.find_nil]
      exact congrArg pure (by omega)
    · rw [range_of_le h, PatternSearch.find_nil, Nat.add_zero, Nat.le_antisymm hcur h]

theorem colonFind_step (hcur : cur < fin) (hfin : fin ≤ buf.length) :
    colonFind buf cur fin =
      if isColon (byteAt buf cur) then cur else colonFind buf (cur + 1) fin := by
  unfold colonFind
  rw [range_cons hcur hfin, List.findIdx_cons]
  cases isColon (byteAt buf cur) with
  | true => rfl
  | false => simp [Nat.add_assoc, Nat.add_comm 1]

theorem colonFind_checked (hcur : cur ≤ fin) (hfin : fin ≤ buf.length) :
    Checked.colonFind buf cur fin = pure (colonFind buf cur fin) := by
  fun_induction Checked.colonFind buf cur fin with
  | case1 cur hlt ih =>
    rw [byte_checked (by omega), pure_bind, colonFind_step hlt hfin, ih (by omega),
      ← apply_ite pure]
  | case2 cur hlt =>
    unfold colonFind
    rw [range_of_le (by omega), Nat.le_antisymm hcur (by omega)]
    rfl

theorem owsSkip_step (hcur : cur < fin) (hfin : fin ≤ buf.length) :
    owsSkip buf cur fin =
      if isOws (byteAt buf cur) then owsSkip buf (cur + 1) fin else cur := by
  unfold owsSkip
  rw [range_cons hcur hfin, List.takeWhile_cons]
  cases isOws (byteAt buf cur) with
  | true => simp [Nat.add_assoc, Nat.add_comm 1]
  | false => rfl

theorem owsSkip_checked (hfin : fin ≤ buf.length) :
    Checked.owsSkip buf cur fin = pure (owsSkip buf cur fin) := by
  fun_induction Checked.owsSkip buf cur fin with
  | case1 cur hlt ih =>
    rw [byte_checked (by omega), pure_bind, owsSkip_step hlt hfin, ih, ← apply_ite pure]
  | case2 cur hlt =>
    unfold owsSkip
    rw [range_of_le (by omega)]
    rfl

theorem owsTrimTrailing_step (hcur : cur < fin) (hfin : fin ≤ buf.length) :
    owsTrimTrailing buf cur fin =
      if isOws (byteAt buf (fin - 1)) then owsTrimTrailing buf cur (fin - 1) else fin := by
  unfold owsTrimTrailing
  have hlast : range buf cur fin = range buf cur (fin - 1) ++ [byteAt buf (fin - 1)] := by
    rw [range_append (by omega) (Nat.sub_le fin 1), range_cons (by omega) hfin,
      range_of_le (by omega : fin ≤ fin - 1 + 1)]
  rw [hlast, List.rdropWhile_concat]
  split
  · rfl
  · rw [← hlast, length_range hfin]
    omega

theorem owsTrimTrailing_checked (hcur : cur ≤ fin) (hfin : fin ≤ buf.length) :
    Checked.owsTrimTrailing buf cur fin = pure (owsTrimTrailing buf cur fin) := by
  fun_induction Checked.owsTrimTrailing buf cur fin with
  | case1 fin hlt ih =>
    rw [byte_checked_pred hlt hfin, pure_bind, owsTrimTrailing_step hlt hfin,
      ih (by omega) (by omega), ← apply_ite pure]
  | case2 fin hlt =>
    unfold owsTrimTrailing
    rw [range_of_le (by omega), Nat.le_antisymm hcur (by omega)]
    rfl

/-! ## HttpRequestLine.c -/

theorem memchr_bounds {p : ℕ} (hfin : fin ≤ buf.length) (h : memchr buf cur fin c = some p) :
    cur ≤ p ∧ p < fin := by
  obtain ⟨u, v, hsplit, -, rfl⟩ := memchr_eq_some_iff.mp h
  have hlen := congrArg List.length hsplit
  rw [length_range hfin, List.length_append, List.length_cons] at hlen
  omega

/-- The first byte of the range is not the one that is found. -/
theorem lt_memchr {p : ℕ} (hcur : cur < fin) (hfin : fin ≤ buf.length)
    (hne : ¬ (byteAt buf cur == c) = true) (h : memchr buf cur fin c = some p) : cur < p := by
  rw [memchr_step hcur hfin, if_neg hne] at h
  exact (memchr_bounds hfin h).1

theorem httpMethodParse_checked {n : ℕ} (h : cur + 6 ≤ buf.length) :
    Checked.httpMethodParse buf cur n = pure (httpMethodParse buf cur n) := by
  unfold Checked.httpMethodParse httpMethodParse
  rw [memEq_checked (show cur + 3 ≤ _ by omega), memEq_checked (show cur + 4 ≤ _ by omega),
    memEq_checked (show cur + 3 ≤ _ by omega), memEq_checked h]
  simp only [pure_bind, apply_ite pure]

/-- The six bytes that may be compared are there, since a line has at least two bytes before its
end and four behind it. -/
theorem methodParse_checked {parsed : HttpRequestLine} (hfin : fin + 4 ≤ buf.length) :
    Checked.methodParse buf cur fin parsed = pure (methodParse buf cur fin parsed) := by
  unfold Checked.methodParse methodParse
  dsimp only
  refine ite_eq_pure (fun _ => rfl) fun hcur => ?_
  rw [byte_checked (by omega), pure_bind]
  refine ite_eq_pure (fun _ => rfl) fun hsp => ?_
  rw [memchr_checked (by omega), pure_bind]
  cases hfound : memchr buf cur fin SP with
  | none => rfl
  | some sp =>
    have hlt := lt_memchr (by omega) (by omega) hsp hfound
    have hle := memchr_bounds (by omega) hfound
    dsimp only
    rw [httpMethodParse_checked (by omega), pure_bind, apply_ite pure]

@[simp] theorem UriScan.put_inQuery (s : UriScan) (bs : Bytes) :
    (s.put bs).inQuery = s.inQuery := by
  unfold put
  split <;> rfl

@[simp] theorem UriScan.put_cap (s : UriScan) (bs : Bytes) : (s.put bs).cap = s.cap := by
  rw [cap, cap, put_inQuery]

@[simp] theorem UriScan.put_len (s : UriScan) (bs : Bytes) :
    (s.put bs).len = s.len + bs.length := by
  unfold len put
  cases s.inQuery <;> simp

theorem UriScan.put_put (s : UriScan) (bs bs' : Bytes) :
    (s.put bs).put bs' = s.put (bs ++ bs') := by
  unfold put
  cases s.inQuery <;> simp

theorem uriPut_checked {s : UriScan} (h : s.len < s.cap) :
    Checked.uriPut s c = pure (s.put [c]) := by
  rw [Checked.uriPut, checkStore_eq h, pure_bind]

theorem uriPut_escape {s : UriScan} {h₁ h₂ : Byte} {α : Type} {k : UriScan → Checked.Parse α}
    (h : ¬ s.len + 3 > s.cap - 1) :
    (do
      let s ← Checked.uriPut s c
      let s ← Checked.uriPut s h₁
      let s ← Checked.uriPut s h₂
      k s) = k (s.put [c, h₁, h₂]) := by
  have hlen : ∀ bs, (s.put bs).len = s.len + bs.length := s.put_len
  have hcap : ∀ bs, (s.put bs).cap = s.cap := s.put_cap
  rw [uriPut_checked (by omega), pure_bind,
    uriPut_checked (by rw [hlen, hcap, List.length_singleton]; omega), pure_bind, UriScan.put_put,
    uriPut_checked (by rw [hlen, hcap, List.length_append, List.length_singleton]; simp; omega),
    pure_bind, UriScan.put_put]
  rfl

/-- The first `?` begins the query. -/
theorem UriScan.query_of_question {s : UriScan} {c : Byte}
    (hquery : s.inQuery = false → s.query = []) (h : (!s.inQuery && c == 63) = true) :
    s.query = [] := by
  rw [Bool.and_eq_true, Bool.not_eq_true'] at h
  exact hquery h.1

theorem uriParseLoop_checked {s : UriScan} {sp : ℕ} (hsp : sp ≤ buf.length) (hfits : s.Fits)
    (hquery : s.inQuery = false → s.query = []) :
    Checked.uriParseLoop buf sp pos s = pure (uriParseLoop pos (range buf pos sp) s) := by
  fun_induction Checked.uriParseLoop buf sp pos s with
  | case1 pos s hpos ih ihEscape =>
    rw [byte_checked (by omega), pure_bind, range_cons hpos hsp, uriParseLoop.eq_def]
    dsimp only
    generalize byteAt buf pos = c
    refine ite_eq_pure (fun _ => rfl) fun hctl => ?_
    refine ite_eq_pure (fun _ => rfl) fun hhash => ?_
    refine ite_eq_pure (fun hquestion => ?_) fun hquestion => ?_
    · have hnil := UriScan.query_of_question hquery hquestion
      have hlen : ({ s with inQuery := true } : UriScan).len = 0 := congrArg List.length hnil
      have hcap : ({ s with inQuery := true } : UriScan).cap = 512 := rfl
      rw [uriPut_checked (by omega), pure_bind]
      refine ih _ ((UriScan.put_fits (s := { s with inQuery := true }) hfits).mpr ?_) fun h => by
        cases h
      rw [hlen, hcap, List.length_singleton]
      decide
    refine ite_eq_pure (fun _ => rfl) fun hlong => ?_
    refine ite_eq_pure (fun hpercent => ?_) fun hpercent => ?_
    · by_cases hroom : pos + 1 + 2 > sp
      · have hshort : (range buf (pos + 1) sp).length < 2 := by
          rw [length_range hsp]
          omega
        rw [if_pos hroom]
        generalize range buf (pos + 1) sp = rest at hshort ⊢
        cases rest with
        | nil => rfl
        | cons b rest =>
          cases rest with
          | nil => rfl
          | cons =>
            rw [List.length_cons, List.length_cons] at hshort
            omega
      · rw [if_neg hroom, range_cons (by omega) hsp, range_cons (by omega) hsp,
          byte_checked (by omega), pure_bind, byte_checked (by omega)]
        generalize byteAt buf (pos + 1) = h₁
        generalize byteAt buf (pos + 1 + 1) = h₂
        simp only [pure_bind]
        cases isHex h₁ with
        | false => rfl
        | true =>
          cases isHex h₂ with
          | false => rfl
          | true =>
            simp only [Bool.not_true, Bool.or_false, Bool.false_eq_true, if_false]
            refine ite_eq_pure (fun _ => rfl) fun hlarge => ?_
            rw [uriPut_escape hlarge]
            exact ihEscape hroom _ ((UriScan.put_fits hfits).mpr (Nat.not_lt.mp hlarge))
              (UriScan.put_query hquery)
    · rw [uriPut_checked (by omega), pure_bind]
      exact ih _ ((UriScan.put_fits hfits).mpr (by rw [List.length_singleton]; omega))
        (UriScan.put_query hquery)
  | case2 pos s hpos =>
    rw [range_of_le (by omega)]
    rfl

/-- After the loop both strings leave room for their `NUL`. -/
theorem uriParseLoop_fits (pos : ℕ) (bs : Bytes) {s : UriScan} (hfits : s.Fits)
    (hquery : s.inQuery = false → s.query = []) : (uriParseLoop pos bs s).2.Fits := by
  fun_induction uriParseLoop pos bs s with
  | case1 | case2 | case3 | case5 | case6 | case7 | case9 => exact hfits
  | case4 pos c rest s hctl hhash hquestion ih =>
    have hnil := UriScan.query_of_question hquery hquestion
    refine ih ⟨hfits.1, ?_⟩ fun h => by cases h
    rw [hnil]
    exact (by decide : 1 ≤ HTTP_MAX_QUERY_LEN - 1)
  | case8 pos c s hctl hhash hquestion hroom hpercent h₁ h₂ rest hhex hlarge ih =>
    exact ih ((UriScan.put_fits hfits).mpr (Nat.not_lt.mp hlarge)) (UriScan.put_query hquery)
  | case10 pos c rest s hctl hhash hquestion hroom hpercent ih =>
    refine ih ((UriScan.put_fits hfits).mpr ?_) (UriScan.put_query hquery)
    rw [List.length_singleton]
    omega

theorem UriScan.empty_fits : ({} : UriScan).Fits := ⟨Nat.zero_le _, Nat.zero_le _⟩

theorem uriParse_checked {parsed : HttpRequestLine} (hfin : fin ≤ buf.length) :
    Checked.uriParse buf cur fin parsed = pure (uriParse buf cur fin parsed) := by
  unfold Checked.uriParse uriParse
  dsimp only
  refine ite_eq_pure (fun _ => rfl) fun hcur => ?_
  rw [memchr_checked hfin, pure_bind]
  cases hfound : memchr buf cur fin SP with
  | none => rfl
  | some sp =>
    have hle := memchr_bounds hfin hfound
    dsimp only
    rw [byte_checked (by omega), pure_bind]
    refine ite_eq_pure (fun _ => rfl) fun hslash => ?_
    rw [uriParseLoop_checked (by omega) UriScan.empty_fits fun _ => rfl, pure_bind]
    have hfits := uriParseLoop_fits cur (range buf cur sp) UriScan.empty_fits fun _ => rfl
    generalize uriParseLoop cur (range buf cur sp) {} = res at hfits
    obtain ⟨_ | ⟨status, at'⟩, s⟩ := res
    · obtain ⟨hpath, hquery⟩ := hfits
      have hpathCap : HTTP_MAX_PATH_LEN = 2048 := rfl
      have hqueryCap : HTTP_MAX_QUERY_LEN = 512 := rfl
      dsimp only at hpath hquery ⊢
      rw [checkStore_eq (by omega), pure_bind, checkStore_eq (by omega), pure_bind]
    · rfl

theorem validVersion_checked (h : cur + 3 ≤ buf.length) :
    Checked.validVersion buf cur = pure (memEq buf cur (ascii "0.9") ||
      memEq buf cur (ascii "1.0") || memEq buf cur (ascii "1.1")) := by
  unfold Checked.validVersion
  rw [memEq_checked (s := ascii "0.9") h, memEq_checked (s := ascii "1.0") h,
    memEq_checked (s := ascii "1.1") h, pure_bind, pure_bind]
  cases memEq buf cur (ascii "0.9") <;> cases memEq buf cur (ascii "1.0") <;> rfl

theorem versionParse_checked {parsed : HttpRequestLine} (hfin : fin ≤ buf.length) :
    Checked.versionParse buf cur fin parsed = pure (versionParse buf cur fin parsed) := by
  unfold Checked.versionParse versionParse
  dsimp only
  refine ite_eq_pure (fun _ => rfl) fun hsize => ?_
  have hlen : HTTP_VERSION_LEN = 8 := rfl
  have hend : fin = cur + 8 := by omega
  rw [memEq_checked (show cur + 5 ≤ _ by omega), pure_bind]
  refine ite_eq_pure (fun _ => rfl) fun hname => ?_
  rw [byte_checked (by omega), pure_bind, byte_checked (by omega), pure_bind,
    byte_checked_pred (show cur < fin by omega) hfin, pure_bind]
  refine ite_eq_pure (fun _ => rfl) fun hdigits => ?_
  rw [validVersion_checked (by omega), pure_bind]
  refine ite_eq_pure (fun _ => rfl) fun hvalid => ?_
  rw [loadAll_eq rfl (by omega), pure_bind, checkStores_eq (by decide), pure_bind,
    checkStore_eq (by decide), pure_bind, range_eq_take, Nat.add_sub_cancel_left]

theorem requestLineParse_checked {parsed : HttpRequestLine} (hfin : fin + 4 ≤ buf.length) :
    Checked.requestLineParse buf cur fin parsed = pure (requestLineParse buf cur fin parsed) := by
  unfold Checked.requestLineParse requestLineParse
  rw [methodParse_checked hfin, pure_bind]
  generalize methodParse buf cur fin parsed = method
  obtain ⟨methodRes, line⟩ := method
  refine ite_eq_pure (fun _ => rfl) fun _ => ?_
  rw [uriParse_checked (by omega), pure_bind]
  generalize uriParse buf (methodRes.next.getD 0) fin line = uri
  obtain ⟨uriRes, line⟩ := uri
  refine ite_eq_pure (fun _ => rfl) fun _ => ?_
  rw [versionParse_checked (by omega)]

/-! ## HttpHeaders.c -/

theorem headerKeyLoop_checked {start : ℕ} {key : Bytes} (hfin : fin ≤ buf.length) :
    Checked.headerKeyLoop buf start fin pos key =
      pure (headerKeyLoop start pos (range buf pos fin) key) := by
  fun_induction Checked.headerKeyLoop buf start fin pos key with
  | case1 pos key hpos ih =>
    rw [byte_checked (by omega), pure_bind, range_cons hpos hfin, headerKeyLoop]
    split
    · rfl
    split
    · rfl
    · next hroom =>
      rw [checkStore_eq (by omega), pure_bind]
      exact ih _
  | case2 pos key hpos =>
    rw [range_of_le (by omega)]
    rfl

/-- A key that has been read leaves room for its `NUL`. -/
theorem headerKeyLoop_length {start : ℕ} {bs key key' : Bytes}
    (hkey : key.length < HTTP_MAX_HEADER_KEY_LEN)
    (h : headerKeyLoop start pos bs key = .ok key') : key'.length < HTTP_MAX_HEADER_KEY_LEN := by
  fun_induction headerKeyLoop start pos bs key with
  | case1 pos key =>
    obtain rfl := Except.ok.inj h
    exact hkey
  | case2 | case3 => cases h
  | case4 pos c rest key htchar hroom ih =>
    refine ih ?_ h
    rw [List.length_append, List.length_singleton]
    omega

theorem headerKeyParse_checked {header : Header} (hfin : fin < buf.length) :
    Checked.headerKeyParse buf cur fin header = pure (headerKeyParse buf cur fin header) := by
  unfold Checked.headerKeyParse headerKeyParse
  dsimp only
  by_cases hcur : cur ≥ fin
  · rw [if_pos hcur, if_pos (by simp [hcur])]
  rw [if_neg hcur, byte_checked hfin, pure_bind]
  by_cases hcolon : (!isColon (byteAt buf fin)) = true
  · rw [if_pos hcolon, if_pos (by simp [hcolon])]
  rw [if_neg hcolon, if_neg (by simp [hcur, hcolon]), headerKeyLoop_checked hfin.le, pure_bind]
  cases hloop : headerKeyLoop cur cur (range buf cur fin) [] with
  | error e => rfl
  | ok key =>
    have hroom := headerKeyLoop_length (by decide) hloop
    dsimp only
    rw [checkStore_eq hroom, pure_bind]

theorem headerValueLoop_checked {value : Bytes} (hfin : fin ≤ buf.length)
    (hroom : value.length + (fin - pos) < HTTP_MAX_HEADER_VALUE_LEN) :
    Checked.headerValueLoop buf fin pos value =
      pure (if (range buf pos fin).all isFieldContentByte then some (value ++ range buf pos fin)
        else none) := by
  fun_induction Checked.headerValueLoop buf fin pos value with
  | case1 pos value hpos ih =>
    rw [byte_checked (by omega), pure_bind, range_cons hpos hfin, List.all_cons]
    cases isFieldContentByte (byteAt buf pos) with
    | false => rfl
    | true =>
      rw [Bool.not_true, if_neg Bool.false_ne_true, checkStore_eq (by omega), pure_bind,
        ih _ (by rw [List.length_append, List.length_singleton]; omega), Bool.true_and,
        List.append_assoc, List.singleton_append]
  | case2 pos value hpos =>
    rw [range_of_le (by omega), List.append_nil]
    rfl

theorem headerValueParse_checked {header : Header} (hfin : fin ≤ buf.length) :
    Checked.headerValueParse buf cur fin header = pure (headerValueParse buf cur fin header) := by
  unfold Checked.headerValueParse headerValueParse
  dsimp only
  refine ite_eq_pure (fun _ => rfl) fun hlong => ?_
  refine ite_eq_pure (fun _ => rfl) fun hcur => ?_
  have hskip := owsSkip_le buf (Nat.not_lt.mp hcur)
  have hle : cur ≤ owsSkip buf cur fin := Nat.le_add_right _ _
  have htrim := owsTrimTrailing_le buf hskip
  rw [owsSkip_checked hfin, pure_bind, owsTrimTrailing_checked hskip hfin, pure_bind,
    headerValueLoop_checked (htrim.trans hfin) (by rw [List.length_nil]; omega), pure_bind]
  generalize hvalue : range buf (owsSkip buf cur fin)
    (owsTrimTrailing buf (owsSkip buf cur fin) fin) = value
  have hlen := length_range_le buf (owsSkip buf cur fin)
    (owsTrimTrailing buf (owsSkip buf cur fin) fin)
  rw [hvalue] at hlen
  by_cases hall : value.all isFieldContentByte = true
  · rw [if_pos hall, if_pos hall]
    dsimp only
    rw [List.nil_append, checkStore_eq (by omega), pure_bind]
  · rw [if_neg hall, if_neg hall]

theorem headerLineParse_checked {headers : List Header} (hfin : fin < buf.length) :
    Checked.headerLineParse buf cur fin headers = pure (headerLineParse buf cur fin headers) := by
  unfold Checked.headerLineParse headerLineParse
  refine ite_eq_pure (fun _ => rfl) fun hcur => ?_
  have hcolon := colonFind_le buf (Nat.le_of_not_le hcur)
  rw [colonFind_checked (Nat.le_of_not_le hcur) hfin.le, pure_bind,
    headerKeyParse_checked (hcolon.trans_lt hfin), pure_bind]
  generalize headerKeyParse buf cur (colonFind buf cur fin) {} = key
  obtain ⟨keyRes, header⟩ := key
  refine ite_eq_pure (fun _ => rfl) fun _ => ?_
  rw [headerValueParse_checked hfin.le, pure_bind]
  generalize headerValueParse buf (keyRes.next.getD 0) fin header = value
  obtain ⟨valueRes, header⟩ := value
  refine ite_eq_pure (fun _ => rfl) fun _ => ?_
  refine ite_eq_pure (fun _ => rfl) fun hroom => ?_
  rw [checkStore_eq (Nat.not_le.mp hroom), pure_bind]

theorem crlfParse_checked (hfin : fin ≤ buf.length) :
    Checked.crlfParse buf cur fin = pure (crlfParse buf cur fin) := by
  unfold Checked.crlfParse crlfParse
  by_cases hcur : cur + 2 ≤ fin
  · rw [if_pos hcur, isCrlf_checked (by omega), pure_bind, decide_eq_true hcur, Bool.true_and,
      apply_ite pure]
  · rw [if_neg hcur, decide_eq_false hcur]
    rfl

/-! ## HttpRequest.c -/

/-- From a line that begins behind a line end: no line begins behind the first empty one, so the
walk is over before the bytes are. -/
theorem requestParseLoop_checked (h : FirstBlank buf t) (fuel : ℕ) {k : ℕ}
    (headerRes : ParseResult) (headers : List Header) (hfin : t + 4 ≤ fin)
    (hlen : fin ≤ buf.length) (hcrlf : range buf k (k + 2) = CRLF) (hk : k + 2 ≤ t ∨ k = t)
    (hfuel : t + 4 < fuel + (k + 2)) :
    Checked.requestParseLoop buf fin fuel (k + 2) headerRes headers =
      pure (requestParseLoop buf fin fuel (k + 2) headerRes headers) := by
  induction fuel generalizing k headerRes headers with
  | zero => omega
  | succ fuel ih =>
    rw [Checked.requestParseLoop, requestParseLoop, crlfParse_checked hlen, pure_bind]
    dsimp only
    refine ite_eq_pure (fun _ => rfl) fun heol => ?_
    have hbefore := h.before hfin hlen hk heol
    obtain ⟨e, hfind, -, hcur, hend, he⟩ := h.crlfFind hbefore hfin
    rw [crlfFind_checked (by omega) hlen, pure_bind, hfind, headerLineParse_checked (by omega),
      pure_bind]
    generalize hline : headerLineParse buf (k + 2) e headers = lineRes
    obtain ⟨lineRes, headers₁⟩ := lineRes
    dsimp only
    refine ite_eq_pure (fun _ => rfl) fun hok => ?_
    obtain ⟨header, -, -, -, rfl⟩ :=
      (headerLineParse_ok_iff headers hcur (by omega)).mp ⟨hline, not_not.mp hok⟩
    have hcrlfOk : (crlfParse buf e fin).status = .ok :=
      (crlfParse_ok_iff hlen).mpr ⟨by omega, hend⟩
    rw [Option.getD_some, crlfParse_checked hlen, pure_bind, crlfParse_of_ok hcrlfOk]
    exact ih _ _ hend he (by omega)

/-- All that `request_parse` reads of a buffer with an empty line is inside the buffer, all that it
stores is inside the arrays, and what it returns is what it returns without the checks. -/
theorem requestParse_checked (h : HEADER_END <:+: buf) (req : HttpRequest) :
    Checked.requestParse buf req = .ok (requestParse buf req) := by
  obtain ⟨t, hfind⟩ := memmem_of_infix h
  have h := firstBlank_of_memmem hfind
  obtain ⟨-, htrim⟩ := take_owsTrimTrailing h
  have hlen := owsTrimTrailing_le buf (Nat.zero_le buf.length)
  unfold Checked.requestParse requestParse
  rw [owsTrimTrailing_checked (Nat.zero_le _) le_rfl, pure_bind]
  dsimp only
  generalize owsTrimTrailing buf 0 buf.length = fin at htrim hlen
  obtain ⟨e, hcrlf, -, -, hend, he⟩ := h.crlfFind (Nat.zero_le t) htrim
  rw [crlfFind_checked (Nat.zero_le _) hlen, pure_bind, hcrlf,
    requestLineParse_checked (by have := h.inside; omega), pure_bind]
  generalize hline : requestLineParse buf 0 e req.requestLine = lineRes
  obtain ⟨lineRes, line⟩ := lineRes
  dsimp only
  by_cases hok : lineRes.status = .ok
  · obtain ⟨-, rfl⟩ := (requestLineParse_ok_iff req.requestLine (Nat.zero_le e)
      (by have := h.inside; omega)).mp ⟨hline, hok⟩
    have hcrlfOk : (crlfParse buf e fin).status = .ok :=
      (crlfParse_ok_iff hlen).mpr ⟨by omega, hend⟩
    rw [if_neg (not_not.mpr rfl), if_neg (not_not.mpr rfl), Option.getD_some,
      crlfParse_checked hlen, pure_bind, crlfParse_of_ok hcrlfOk, if_neg (not_not.mpr rfl),
      if_neg (not_not.mpr rfl), Option.getD_some,
      requestParseLoop_checked h _ _ _ htrim hlen hend he (by have := h.inside; omega), pure_bind]
    rfl
  · rw [if_pos hok, if_pos hok]
    rfl

/-- The shortest buffer for which all six bytes of `DELETE` are compared. -/
theorem requestParse_checked_short :
    Checked.requestParse (ascii "A \r\n\r\n") {} = .ok (requestParse (ascii "A \r\n\r\n") {}) :=
  requestParse_checked (by decide) {}

end HttpServer
