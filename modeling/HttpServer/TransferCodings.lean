import HttpServer.RequestGrammar
import HttpServer.Connection

/-!
# What `transfer_encoding_parse` accepts

A value is a comma-separated list. Each element is of one kind, empty elements do
not count, and `chunked` is accepted exactly when it is the one element that counts.
The last section reads the loop of `step_header_read` over several lines.
-/

namespace HttpServer

def COMMA : Byte := 44

def listElements (val : Bytes) : List Bytes := (val.splitOn COMMA).map owsTrim

inductive CodingKind where
  | blank | malformed | chunked | other
  deriving DecidableEq, Repr

/-- The coding of an element, without its parameters. -/
def codingName (tok : Bytes) : Bytes :=
  match memchr tok 0 tok.length 59 with
  | some semi => range tok 0 (owsTrimTrailing tok 0 semi)
  | none => tok

def codingKind (tok : Bytes) : CodingKind :=
  if tok.length = 0 then .blank
  else if !isToken (codingName tok) then .malformed
  else if eqChunked (codingName tok) then .chunked
  else .other

/-- One turn of the scan, by the kind of the element. -/
def TransferCodingScan.step (s : TransferCodingScan) : CodingKind → Option TransferCodingScan
  | .blank => some s
  | .malformed => none
  | .chunked =>
    if s.chunkedFound then none
    else some { s with
      chunkedFound := true
      chunkedPosition := some s.totalNonEmpty
      totalNonEmpty := s.totalNonEmpty + 1 }
  | .other => some { s with hasUnsupported := true, totalNonEmpty := s.totalNonEmpty + 1 }

variable {val u v : Bytes} {s s' : TransferCodingScan}

theorem transferCodingElement_eq (tok : Bytes) (s : TransferCodingScan) :
    transferCodingElement tok s = s.step (codingKind tok) := by
  unfold transferCodingElement codingKind
  by_cases htok : tok.length = 0
  · rw [if_pos htok, if_pos htok]
    rfl
  · rw [if_neg htok, if_neg htok]
    show (if (codingName tok).length = 0 then none
      else if !isToken (codingName tok) then none
      else if eqChunked (codingName tok) then (if s.chunkedFound then none else some _)
      else some _) = _
    by_cases htoken : isToken (codingName tok) = true
    · have hname : ¬ (codingName tok).length = 0 := by
        intro hnil
        rw [List.length_eq_zero_iff.mp hnil] at htoken
        cases htoken
      have hgood : ¬ (!isToken (codingName tok)) = true := by simp [htoken]
      rw [if_neg hname, if_neg hgood, if_neg hgood]
      by_cases hchunked : eqChunked (codingName tok) = true
      · rw [if_pos hchunked, if_pos hchunked]
        rfl
      · rw [if_neg hchunked, if_neg hchunked]
        rfl
    · have hnot : (!isToken (codingName tok)) = true := by simpa using htoken
      rw [if_pos hnot, if_pos hnot, ite_self]
      rfl

def codingKinds (val : Bytes) : List CodingKind := (listElements val).map codingKind

/-! ## The loop over the elements -/

theorem splitOn_append_comma (u v : Bytes) :
    (u ++ COMMA :: v).splitOn COMMA = u.splitOn COMMA ++ v.splitOn COMMA := by
  unfold List.splitOn
  induction u with
  | nil =>
    rw [List.nil_append, List.splitOnP_cons_eq_if_modifyHead, if_pos (by simp), List.splitOnP_nil]
    rfl
  | cons c u ih =>
    rw [List.cons_append, List.splitOnP_cons_eq_if_modifyHead, List.splitOnP_cons_eq_if_modifyHead, ih]
    split
    · rfl
    · obtain ⟨x, xs, hxs⟩ := List.exists_cons_of_ne_nil (List.splitOnP_ne_nil (· == COMMA) u)
      rw [hxs]
      rfl

theorem codingKinds_append_comma (u v : Bytes) :
    codingKinds (u ++ COMMA :: v) = codingKinds u ++ codingKinds v := by
  rw [codingKinds, listElements, splitOn_append_comma, List.map_append, List.map_append]
  rfl

theorem codingKinds_of_not_mem (h : COMMA ∉ u) : codingKinds u = [codingKind (owsTrim u)] := by
  have hone : u.splitOn COMMA = [u] := by
    refine List.splitOnP_eq_singleton fun c hc => ?_
    exact beq_eq_false_iff_ne.mpr fun heq => h (heq ▸ hc)
  rw [codingKinds, listElements, hone]
  rfl

/-- White space is skipped up to the comma at most. -/
theorem takeWhile_isOws_comma (u v : Bytes) :
    (u ++ COMMA :: v).takeWhile isOws = u.takeWhile isOws := by
  induction u with
  | nil => rfl
  | cons c u ih =>
    rw [List.cons_append, List.takeWhile_cons, List.takeWhile_cons, ih]

/-- The loop goes through the elements from left to right. -/
theorem transferCodingLoop_eq (fuel cur : ℕ) (hfuel : val.length ≤ fuel + cur)
    (hcur : cur ≤ val.length) :
    transferCodingLoop val fuel cur s =
      (codingKinds (val.drop cur)).foldlM TransferCodingScan.step s := by
  induction fuel generalizing cur s with
  | zero =>
    have hall : val.drop cur = [] := List.drop_of_length_le (by omega)
    rw [hall]
    rfl
  | succ fuel ih =>
    rw [transferCodingLoop]
    by_cases hend : cur ≥ val.length
    · have hall : val.drop cur = [] := List.drop_of_length_le hend
      rw [if_pos hend, hall]
      rfl
    · rw [if_neg hend]
      have hrange : range val cur val.length = val.drop cur := by
        rw [range, List.take_length]
      dsimp only
      cases hcomma : memchr val cur val.length 44 with
      | none =>
        have hnot : COMMA ∉ val.drop cur := by
          intro hmem
          obtain ⟨u, v, hsplit, hu⟩ := List.eq_append_cons_of_mem hmem
          have hsome := memchr_eq_some_iff.mpr ⟨u, v, hrange.trans hsplit, hu, rfl⟩
          rw [show COMMA = 44 from rfl, hcomma] at hsome
          cases hsome
        rw [Option.getD_none, range_owsTrim (by omega) le_rfl, hrange, transferCodingElement_eq,
          codingKinds_of_not_mem hnot, List.foldlM_cons]
        cases s.step (codingKind (owsTrim (val.drop cur))) with
        | none => rfl
        | some s₁ =>
          dsimp only [Option.bind_eq_bind, Option.bind_some]
          rw [if_neg (lt_irrefl _), ih val.length (by omega) le_rfl,
            List.drop_of_length_le le_rfl]
          rfl
      | some comma =>
        obtain ⟨u, v, hsplit, hu, rfl⟩ := memchr_eq_some_iff.mp hcomma
        obtain ⟨hfront, hback, hle⟩ := range_split le_rfl hcur hsplit
        have hskip : owsSkip val cur val.length = owsSkip val cur (cur + u.length) := by
          unfold owsSkip
          rw [hsplit, hfront]
          exact congrArg (fun w : Bytes => cur + w.length) (takeWhile_isOws_comma u v)
        have hlt : cur + u.length < val.length := by
          have hlen := congrArg List.length hsplit
          rw [length_range le_rfl, List.length_append, List.length_cons] at hlen
          omega
        have hrest : val.drop (cur + u.length + 1) = v := by
          rw [range_cons hlt le_rfl] at hback
          rw [← (List.cons.inj hback).2, range, List.take_length]
        rw [Option.getD_some, hskip, range_owsTrim (Nat.le_add_right _ _) hle, hfront,
          transferCodingElement_eq, ← hrange, hsplit]
        rw [show (44 : Byte) = COMMA from rfl, codingKinds_append_comma,
          codingKinds_of_not_mem hu, List.singleton_append, List.foldlM_cons]
        cases s.step (codingKind (owsTrim u)) with
        | none => rfl
        | some s₁ =>
          dsimp only [Option.bind_eq_bind, Option.bind_some]
          rw [if_pos hlt, ih (cur + u.length + 1) (by omega) (by omega), hrest]

/-! ## Acceptance -/

/-- The kinds of the elements that count. -/
def countedKinds (val : Bytes) : List CodingKind := (codingKinds val).filter (· ≠ .blank)

theorem foldlM_step_filter (kinds : List CodingKind) (s : TransferCodingScan) :
    kinds.foldlM TransferCodingScan.step s =
      (kinds.filter (· ≠ .blank)).foldlM TransferCodingScan.step s := by
  induction kinds generalizing s with
  | nil => rfl
  | cons kind kinds ih =>
    cases kind with
    | blank => exact ih s
    | malformed => rfl
    | chunked =>
      rw [List.foldlM_cons, List.filter_cons_of_pos (by simp), List.foldlM_cons]
      exact congrArg _ (funext ih)
    | other =>
      rw [List.foldlM_cons, List.filter_cons_of_pos (by simp), List.foldlM_cons]
      exact congrArg _ (funext ih)

/-- Once a coding is unsupported the list stays so. -/
theorem foldlM_step_unsupported {kinds : List CodingKind} (hs : s.hasUnsupported = true)
    (h : kinds.foldlM TransferCodingScan.step s = some s') : s'.hasUnsupported = true := by
  induction kinds generalizing s with
  | nil =>
    obtain rfl := Option.some.inj h
    exact hs
  | cons kind kinds ih =>
    rw [List.foldlM_cons] at h
    obtain ⟨s₁, hstep, hrest⟩ := Option.bind_eq_some_iff.mp h
    refine ih ?_ hrest
    cases kind with
    | blank =>
      obtain rfl := Option.some.inj hstep
      exact hs
    | malformed => cases hstep
    | chunked =>
      simp only [TransferCodingScan.step] at hstep
      split at hstep
      · cases hstep
      · obtain rfl := Option.some.inj hstep
        exact hs
    | other =>
      obtain rfl := Option.some.inj hstep
      rfl

/-- What `transfer_encoding_parse` makes of the scan. -/
def TransferCodingScan.verdict : Option TransferCodingScan → ParseStatus × TransferCoding
  | none => (.badRequest, .none)
  | some s =>
    if s.totalNonEmpty = 0 then (.badRequest, .none)
    else if s.chunkedFound && s.hasUnsupported && s.chunkedPosition != some (s.totalNonEmpty - 1)
    then (.badRequest, .none)
    else if s.hasUnsupported then (.notImplemented, .unsupported)
    else (.ok, .chunked)

theorem transferEncodingParse_eq (val : Bytes) : transferEncodingParse val =
    TransferCodingScan.verdict ((countedKinds val).foldlM TransferCodingScan.step {}) := by
  have hloop : transferCodingLoop val val.length 0 {} =
      (countedKinds val).foldlM TransferCodingScan.step {} := by
    rw [transferCodingLoop_eq val.length 0 (by omega) (Nat.zero_le _), List.drop_zero,
      foldlM_step_filter]
    rfl
  rw [transferEncodingParse, hloop]
  cases (countedKinds val).foldlM TransferCodingScan.step {} <;> rfl

theorem verdict_unsupported {kinds : List CodingKind} (hs : s.hasUnsupported = true) :
    TransferCodingScan.verdict (kinds.foldlM TransferCodingScan.step s) ≠ (.ok, .chunked) := by
  cases hfold : kinds.foldlM TransferCodingScan.step s with
  | none => simp [TransferCodingScan.verdict]
  | some s' =>
    have hs' := foldlM_step_unsupported hs hfold
    simp only [TransferCodingScan.verdict, hs', if_true]
    split
    · simp
    · split <;> simp

/-- `chunked` is accepted when it is the one element that counts. -/
theorem transferEncodingParse_chunked_iff (val : Bytes) :
    transferEncodingParse val = (.ok, .chunked) ↔ countedKinds val = [.chunked] := by
  have hcounted : ∀ kind ∈ countedKinds val, kind ≠ .blank := fun kind hmem => by
    simpa using (List.mem_filter.mp hmem).2
  rw [transferEncodingParse_eq]
  generalize countedKinds val = kinds at hcounted
  constructor
  · intro h
    cases kinds with
    | nil => exact absurd h (by decide)
    | cons kind kinds =>
      cases kind with
      | blank => exact absurd rfl (hcounted _ (List.mem_cons_self ..))
      | malformed => exact absurd h (by simp [TransferCodingScan.step, TransferCodingScan.verdict])
      | other =>
        have h : TransferCodingScan.verdict (kinds.foldlM TransferCodingScan.step
            { hasUnsupported := true, totalNonEmpty := 1 }) = (.ok, .chunked) := h
        exact absurd h (verdict_unsupported rfl)
      | chunked =>
        cases kinds with
        | nil => rfl
        | cons kind kinds =>
          cases kind with
          | blank => exact absurd rfl (hcounted _ (by simp))
          | malformed =>
            exact absurd h (by simp [TransferCodingScan.step, TransferCodingScan.verdict])
          | other =>
            have h : TransferCodingScan.verdict (kinds.foldlM TransferCodingScan.step
                { chunkedFound := true, chunkedPosition := some 0, hasUnsupported := true,
                  totalNonEmpty := 2 }) = (.ok, .chunked) := h
            exact absurd h (verdict_unsupported rfl)
          | chunked =>
            exact absurd h (by simp [TransferCodingScan.step, TransferCodingScan.verdict])
  · rintro rfl
    decide

/-! ## Blank values and joined values -/

/-- Nothing but commas and white space. -/
def blankList (val : Bytes) : Bool := val.all fun c => isOws c || c == COMMA

theorem owsTrim_eq_nil_iff : owsTrim u = [] ↔ u.all isOws = true := by
  rw [owsTrim, List.rdropWhile_eq_nil_iff, List.all_eq_true]
  constructor
  · intro h
    have hhead := List.head?_dropWhile_not isOws u
    cases hdrop : u.dropWhile isOws with
    | nil => exact List.dropWhile_eq_nil_iff.mp hdrop
    | cons c rest =>
      rw [hdrop] at h hhead
      have hc := h c (List.mem_cons_self ..)
      simp [hc] at hhead
  · intro h c hc
    exact h c ((List.dropWhile_suffix _).subset hc)

theorem codingKind_blank_iff (tok : Bytes) : codingKind tok = .blank ↔ tok = [] := by
  unfold codingKind
  constructor
  · intro h
    split at h
    · next hnil => exact List.length_eq_zero_iff.mp hnil
    · split at h
      · cases h
      · split at h <;> cases h
  · rintro rfl
    rfl

theorem splitOn_cons_of_ne {c : Byte} (hc : c ≠ COMMA) (u : Bytes) :
    ∃ x xs, u.splitOn COMMA = x :: xs ∧ (c :: u).splitOn COMMA = (c :: x) :: xs := by
  unfold List.splitOn
  obtain ⟨x, xs, hxs⟩ := List.exists_cons_of_ne_nil (List.splitOnP_ne_nil (· == COMMA) u)
  refine ⟨x, xs, hxs, ?_⟩
  rw [List.splitOnP_cons_eq_if_modifyHead, if_neg (by simpa using hc), hxs]
  rfl

theorem splitOn_all_ows_iff (val : Bytes) :
    (∀ tok ∈ val.splitOn COMMA, tok.all isOws = true) ↔ blankList val = true := by
  induction val with
  | nil => simp [blankList]
  | cons c val ih =>
    have hcons : blankList (c :: val) = ((isOws c || c == COMMA) && blankList val) := rfl
    rw [hcons, Bool.and_eq_true, ← ih]
    by_cases hc : c = COMMA
    · subst hc
      have hsplit : (COMMA :: val).splitOn COMMA = [] :: val.splitOn COMMA :=
        splitOn_append_comma [] val
      simp [hsplit]
    · obtain ⟨x, xs, hx, hsplit⟩ := splitOn_cons_of_ne hc val
      simp [hx, hsplit, hc, and_assoc]

theorem countedKinds_eq_nil_iff (val : Bytes) : countedKinds val = [] ↔ blankList val = true := by
  rw [← splitOn_all_ows_iff, countedKinds, List.filter_eq_nil_iff]
  simp only [codingKinds, listElements, List.mem_map, decide_not, Bool.not_eq_true',
    decide_eq_false_iff_not, not_not]
  constructor
  · intro h tok htok
    have hblank := h (codingKind (owsTrim tok)) ⟨owsTrim tok, ⟨tok, htok, rfl⟩, rfl⟩
    exact owsTrim_eq_nil_iff.mp ((codingKind_blank_iff _).mp hblank)
  · rintro h kind ⟨tok, ⟨raw, hraw, rfl⟩, rfl⟩
    exact (codingKind_blank_iff _).mpr (owsTrim_eq_nil_iff.mpr (h raw hraw))

/-- The values of several lines as one. -/
def joinValues (values : List Bytes) : Bytes := (ascii ", ").intercalate values

theorem codingKinds_sp (val : Bytes) : codingKinds (SP :: val) = codingKinds val := by
  obtain ⟨x, xs, hx, hsplit⟩ := splitOn_cons_of_ne (show SP ≠ COMMA by decide) val
  have htrim : owsTrim (SP :: x) = owsTrim x := rfl
  rw [codingKinds, codingKinds, listElements, listElements, hx, hsplit, List.map_cons,
    List.map_cons, htrim]
  rfl

theorem countedKinds_joinValues (values : List Bytes) :
    countedKinds (joinValues values) = values.flatMap countedKinds := by
  induction values with
  | nil => rfl
  | cons val values ih =>
    cases values with
    | nil =>
      have hone : joinValues [val] = val := List.append_nil val
      rw [hone, List.flatMap_singleton]
    | cons next values =>
      have hjoin : joinValues (val :: next :: values) =
          val ++ COMMA :: SP :: joinValues (next :: values) := by
        have hsep : ascii ", " = [COMMA, SP] := by decide
        simp [joinValues, List.intercalate, hsep]
      rw [List.flatMap_cons, ← ih, hjoin, countedKinds, codingKinds_append_comma, codingKinds_sp,
        List.filter_append]
      rfl

theorem flatMap_eq_singleton_iff {α β : Type*} {f : α → List β} {l : List α} {b : β} :
    l.flatMap f = [b] ↔
      ∃ front a back, l = front ++ a :: back ∧ f a = [b] ∧ ∀ x ∈ front ++ back, f x = [] := by
  induction l with
  | nil => simp
  | cons x l ih =>
    rw [List.flatMap_cons, List.append_eq_singleton_iff, ih]
    constructor
    · rintro (⟨hx, front, a, back, rfl, ha, hrest⟩ | ⟨hx, hrest⟩)
      · refine ⟨x :: front, a, back, rfl, ha, fun y hy => ?_⟩
        rcases List.mem_cons.mp hy with rfl | hy
        · exact hx
        · exact hrest y hy
      · exact ⟨[], x, l, rfl, hx, List.flatMap_eq_nil_iff.mp hrest⟩
    · rintro ⟨front, a, back, hsplit, ha, hrest⟩
      cases front with
      | nil =>
        obtain ⟨rfl, rfl⟩ := List.cons.inj hsplit
        exact .inr ⟨ha, List.flatMap_eq_nil_iff.mpr hrest⟩
      | cons y front =>
        obtain ⟨rfl, rfl⟩ := List.cons.inj hsplit
        exact .inl ⟨hrest x (List.mem_cons_self ..), front, a, back, rfl, ha,
          fun z hz => hrest z (List.mem_cons_of_mem _ hz)⟩

/-- One value is accepted by itself and the others are blank. -/
def OneAmongBlanks (values : List Bytes) : Prop :=
  ∃ front val back, values = front ++ val :: back ∧
    transferEncodingParse val = (.ok, .chunked) ∧ ∀ w ∈ front ++ back, blankList w = true

theorem joinValues_chunked_iff (values : List Bytes) :
    transferEncodingParse (joinValues values) = (.ok, .chunked) ↔ OneAmongBlanks values := by
  rw [transferEncodingParse_chunked_iff, countedKinds_joinValues, flatMap_eq_singleton_iff]
  simp only [OneAmongBlanks, transferEncodingParse_chunked_iff, countedKinds_eq_nil_iff]

/-- A blank value is not accepted. -/
theorem not_chunked_of_blankList (h : blankList val = true) :
    transferEncodingParse val ≠ (.ok, .chunked) := by
  intro hchunked
  rw [transferEncodingParse_chunked_iff, (countedKinds_eq_nil_iff val).mpr h] at hchunked
  cases hchunked

/-! ## Several lines -/

def Header.Named (header : Header) (name : Bytes) : Prop := asciiIeq header.key name = true

instance (header : Header) (name : Bytes) : Decidable (header.Named name) :=
  inferInstanceAs (Decidable (_ = true))

/-- The values of the header lines of this name. -/
def headerValues (headers : List Header) (name : Bytes) : List Bytes :=
  (headers.filter fun header => header.Named name).map Header.value

theorem transferEncodingParse_cases (val : Bytes) :
    transferEncodingParse val = (.badRequest, .none) ∨
      transferEncodingParse val = (.notImplemented, .unsupported) ∨
      transferEncodingParse val = (.ok, .chunked) := by
  rw [transferEncodingParse_eq]
  cases (countedKinds val).foldlM TransferCodingScan.step {} with
  | none => exact .inl rfl
  | some s =>
    simp only [TransferCodingScan.verdict]
    split
    · exact .inl rfl
    · split
      · exact .inl rfl
      · split
        · exact .inr (.inl rfl)
        · exact .inr (.inr rfl)

theorem teHeadersScan_stopped {coding : TransferCoding} {status : ParseStatus}
    (h : coding = .unsupported ∨ status ≠ .ok) (headers : List Header) :
    teHeadersScan headers coding status = (coding, status) := by
  cases headers with
  | nil => rfl
  | cons header headers => rw [teHeadersScan, if_pos h]

/-- The loop over the header lines goes through when each line is accepted by itself. -/
theorem teHeadersScan_iff (headers : List Header) {coding result : TransferCoding}
    (hcoding : coding ≠ .unsupported) :
    teHeadersScan headers coding .ok = (result, .ok) ∧ result ≠ .unsupported ↔
      (∀ val ∈ headerValues headers (ascii "transfer-encoding"),
        transferEncodingParse val = (.ok, .chunked)) ∧
      result = if headerValues headers (ascii "transfer-encoding") = [] then coding
        else .chunked := by
  induction headers generalizing coding with
  | nil =>
    simp only [teHeadersScan, headerValues, List.filter_nil, List.map_nil, List.not_mem_nil,
      false_implies, implies_true, true_and, if_true, Prod.mk.injEq, and_true]
    constructor
    · rintro ⟨rfl, -⟩
      rfl
    · rintro rfl
      exact ⟨rfl, hcoding⟩
  | cons header headers ih =>
    have hgo : ¬ (coding = .unsupported ∨ ParseStatus.ok ≠ .ok) := by simp [hcoding]
    rw [teHeadersScan, if_neg hgo]
    by_cases hname : header.Named (ascii "transfer-encoding")
    · have hvalues : headerValues (header :: headers) (ascii "transfer-encoding") =
          header.value :: headerValues headers (ascii "transfer-encoding") := by
        rw [headerValues, List.filter_cons_of_pos (by simpa using hname)]
        rfl
      have hyes : ¬ (!asciiIeq header.key (ascii "transfer-encoding")) = true := by
        rw [show asciiIeq header.key (ascii "transfer-encoding") = true from hname]
        simp
      rw [if_neg hyes, hvalues, List.forall_mem_cons, if_neg (List.cons_ne_nil _ _)]
      rcases transferEncodingParse_cases header.value with hbad | hunsupported | hchunked
      · rw [hbad]
        dsimp only
        rw [teHeadersScan_stopped (.inr (by simp))]
        simp
      · rw [hunsupported]
        dsimp only
        rw [teHeadersScan_stopped (.inl rfl)]
        simp
      · rw [hchunked]
        dsimp only
        rw [ih (by simp), ite_self]
        simp
    · have hvalues : headerValues (header :: headers) (ascii "transfer-encoding") =
          headerValues headers (ascii "transfer-encoding") := by
        rw [headerValues, List.filter_cons_of_neg (by simpa using hname)]
        rfl
      have hno : (!asciiIeq header.key (ascii "transfer-encoding")) = true := by
        simpa [Header.Named] using hname
      rw [if_pos hno, hvalues]
      exact ih hcoding

/-- The lines are accepted one by one exactly when their join is, unless they are several and
accepted each, or one is accepted and the others are blank. -/
theorem lines_iff_join_iff {values : List Bytes} (hne : values ≠ []) :
    ((∀ val ∈ values, transferEncodingParse val = (.ok, .chunked)) ↔
        transferEncodingParse (joinValues values) = (.ok, .chunked)) ↔
      values.length = 1 ∨
        (∃ val ∈ values, transferEncodingParse val ≠ (.ok, .chunked)) ∧
          ¬ OneAmongBlanks values := by
  rw [joinValues_chunked_iff]
  by_cases hone : values.length = 1
  · obtain ⟨val, rfl⟩ := List.length_eq_one_iff.mp hone
    refine iff_of_true ?_ (.inl rfl)
    constructor
    · intro h
      exact ⟨[], val, [], rfl, h val (List.mem_singleton_self _), by simp⟩
    · rintro ⟨front, v, back, hsplit, hv, -⟩ w hw
      have hlen : 1 = front.length + (back.length + 1) := by
        simpa using congrArg List.length hsplit
      obtain rfl : front = [] := List.length_eq_zero_iff.mp (by omega)
      obtain rfl : back = [] := List.length_eq_zero_iff.mp (by omega)
      obtain rfl : val = v := (List.cons.inj hsplit).1
      rwa [List.mem_singleton.mp hw]
  · by_cases hall : ∀ val ∈ values, transferEncodingParse val = (.ok, .chunked)
    · refine iff_of_false ?_ ?_
      · intro hiff
        obtain ⟨front, v, back, rfl, hv, hblank⟩ := hiff.mp hall
        have hothers : front ++ back ≠ [] := by
          intro hnil
          obtain ⟨rfl, rfl⟩ := List.append_eq_nil_iff.mp hnil
          exact hone rfl
        obtain ⟨w, hw⟩ := List.exists_mem_of_ne_nil _ hothers
        refine not_chunked_of_blankList (hblank w hw) (hall w ?_)
        rcases List.mem_append.mp hw with hw | hw
        · exact List.mem_append_left _ hw
        · exact List.mem_append_right _ (List.mem_cons_of_mem _ hw)
      · rintro (h | ⟨⟨val, hmem, hno⟩, -⟩)
        · exact hone h
        · exact hno (hall val hmem)
    · have hsome : ∃ val ∈ values, transferEncodingParse val ≠ (.ok, .chunked) := by
        by_contra hnone
        exact hall fun val hmem => not_not.mp fun hno => hnone ⟨val, hmem, hno⟩
      simp only [hall, hone, hsome, false_iff, false_or, true_and]

end HttpServer
