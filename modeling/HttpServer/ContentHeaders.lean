import HttpServer.ChunkedFrames
import HttpServer.ContentFreshness
import HttpServer.ResponseFraming

/-!
# The headers of registered content

The values that the registry gives its headers are short, stand on one line each and
are read back as they are.
-/

namespace HttpServer

variable {line : Bytes} {lines : List Bytes}

/-! ## On one line -/

def OneLine (s : Bytes) : Prop := ∀ c ∈ s, c ≠ CR ∧ c ≠ LF

theorem OneLine.append {s t : Bytes} (hs : OneLine s) (ht : OneLine t) : OneLine (s ++ t) :=
  fun c hc => (List.mem_append.mp hc).elim (hs c) (ht c)

theorem OneLine.take {s : Bytes} (hs : OneLine s) (n : ℕ) : OneLine (s.take n) :=
  fun c hc => hs c (List.mem_of_mem_take hc)

instance (s : Bytes) : Decidable (OneLine s) :=
  decidable_of_iff (s.all fun c => c != CR && c != LF) (by simp [OneLine])

theorem oneLine_showHex (n : ℕ) : OneLine (showHex n) := by
  have hdigit : ∀ c d, HexDigit c d → c ≠ CR ∧ c ≠ LF := by
    intro c d h
    constructor
    all_goals
      rintro rfl
      revert h
      simp [HexDigit, CR, LF]
  have hnumeral := hexNumeral_showHex n
  generalize showHex n = s at hnumeral
  induction hnumeral with
  | digit h =>
    intro c hc
    obtain rfl := List.mem_singleton.mp hc
    exact hdigit _ _ h
  | snoc hs h ih =>
    refine ih.append fun c hc => ?_
    obtain rfl := List.mem_singleton.mp hc
    exact hdigit _ _ h

theorem lf_not_mem_showNat (n : ℕ) : LF ∉ showNat n := fun h =>
  numeral_digits (numeral_showNat n) LF h rfl

theorem lf_not_mem_showInt (n : ℤ) : LF ∉ showInt n := by
  unfold showInt
  split
  · rw [List.mem_cons]
    rintro (h | h)
    · exact absurd h (by decide)
    · exact lf_not_mem_showNat _ h
  · exact lf_not_mem_showNat _

theorem lf_not_mem_showTwo (n : ℤ) : LF ∉ showTwo n := by
  rw [showTwo, List.mem_append]
  rintro (h | h) <;> exact lf_not_mem_showNat _ h

theorem lf_not_mem_name (names : List Bytes) (hnames : ∀ name ∈ names, LF ∉ name) (i : ℕ) :
    LF ∉ (names.getD i []).take 3 := by
  intro h
  rw [List.getD_eq_getElem?_getD] at h
  cases hget : names[i]? with
  | none => simp [hget] at h
  | some name =>
    rw [hget] at h
    exact hnames name (List.mem_of_getElem? hget) (List.mem_of_mem_take h)

theorem oneLine_httpDateFormat (t : ℤ) : OneLine (httpDateFormat t) := by
  have hlf : LF ∉ httpDateFormat t := by
    unfold httpDateFormat strftimeHttp
    generalize gmtime t = tm
    have hweekday := lf_not_mem_name weekdayNames (by decide) tm.wday.toNat
    have hmonth := lf_not_mem_name monthNames (by decide) tm.mon.toNat
    simp only [List.mem_append, lf_not_mem_showInt, lf_not_mem_showTwo, hweekday, hmonth, or_false,
      false_or]
    decide
  intro c hc
  constructor
  · rintro rfl
    exact cr_not_mem_httpDateFormat t hc
  · rintro rfl
    exact hlf hc

theorem oneLine_contentType (path : Bytes) : OneLine (contentType path) := by
  unfold contentType
  split_ifs <;> decide

theorem oneLine_etag (st : Stat) (path : Bytes) : OneLine (revalFill st path).etag := by
  refine OneLine.take ?_ _
  have hfront : OneLine (ascii "W/\"") := by decide
  have hmid : OneLine (ascii "-") := by decide
  have hback : OneLine (ascii "\"") := by decide
  exact (((hfront.append (oneLine_showHex _)).append hmid).append (oneLine_showHex _)).append hback

theorem oneLine_lastModified (st : Stat) (path : Bytes) :
    OneLine (revalFill st path).lastModified := by
  unfold revalFill
  dsimp only
  split
  · exact oneLine_httpDateFormat _
  · exact fun c hc => (nomatch hc)

theorem oneLine_lenText (len : ℕ) : OneLine (lenText len) := by
  refine OneLine.take (fun c hc => ⟨(mem_showNat hc).1, ?_⟩) _
  rintro rfl
  exact lf_not_mem_showNat len hc

theorem fieldLine_of_oneLine {key value : Bytes} (hkey : OneLine key) (hvalue : OneLine value) :
    FieldLine (headerField ⟨key, value⟩) := by
  have hcolon : OneLine (ascii ": ") := by decide
  refine ⟨by simp [headerField, ascii], one_line_of_cr_not_mem fun hmem => ?_⟩
  exact (((hkey.append hcolon).append hvalue) CR hmem).1 rfl

theorem contentType_length (path : Bytes) : (contentType path).length ≤ 24 := by
  unfold contentType
  split_ifs <;> decide

theorem etag_length (st : Stat) (path : Bytes) : (revalFill st path).etag.length < ETAG_SIZE :=
  (List.length_take_le _ _).trans_lt (by decide)

theorem lastModified_length (st : Stat) (path : Bytes) :
    (revalFill st path).lastModified.length < LAST_MODIFIED_SIZE := by
  unfold revalFill
  dsimp only
  split
  · assumption
  · decide

/-! ## Read back -/

/-- A text that neither begins nor ends with white space is its own value. -/
theorem owsTrim_of_ends {s : Bytes} (hfirst : ∀ c ∈ s.head?, isOws c = false)
    (hlast : ∀ c ∈ s.getLast?, isOws c = false) : owsTrim s = s := by
  have hdrop : s.dropWhile isOws = s := by
    cases s with
    | nil => rfl
    | cons c s => rw [List.dropWhile_cons_of_neg (by simp [hfirst c rfl])]
  rw [owsTrim, hdrop, List.rdropWhile_eq_self_iff]
  intro hne
  rw [hlast _ (List.getLast?_eq_some_getLast hne)]
  simp

theorem owsTrim_etag (st : Stat) (path : Bytes) :
    owsTrim (revalFill st path).etag = (revalFill st path).etag := by
  rw [revalFill_etag]
  refine owsTrim_of_ends ?_ ?_
  · intro c hc
    obtain rfl : 87 = c := Option.some.inj hc
    rfl
  · intro c hc
    rw [etagText, List.getLast?_append] at hc
    obtain rfl : 34 = c := Option.some.inj hc
    rfl

theorem owsTrim_httpDateFormat (t : ℤ) : owsTrim (httpDateFormat t) = httpDateFormat t := by
  have hweekday : ∀ i, ((weekdayNames.getD i []).take 3 ++ ascii ", ").head?.any isOws =
      false := by
    intro i
    by_cases hi : i < 7
    · revert i
      decide
    · rw [List.getD_eq_getElem?_getD, List.getElem?_eq_none (not_lt.mp hi)]
      decide
  have hsplit : ∃ rest, httpDateFormat t =
      ((weekdayNames.getD (gmtime t).wday.toNat []).take 3 ++ ascii ", ") ++ rest := by
    simp only [httpDateFormat, strftimeHttp, List.append_assoc]
    exact ⟨_, rfl⟩
  refine owsTrim_of_ends (fun c hc => ?_) fun c hc => ?_
  · obtain ⟨rest, hsplit⟩ := hsplit
    rw [hsplit, List.head?_append_of_ne_nil _
      (List.append_ne_nil_of_right_ne_nil _ (by decide))] at hc
    have hany := hweekday (gmtime t).wday.toNat
    rw [Option.mem_def.mp hc] at hany
    exact hany
  · rw [httpDateFormat, strftimeHttp, List.getLast?_append] at hc
    obtain rfl : 84 = c := Option.some.inj hc
    rfl

theorem owsTrim_lastModified (st : Stat) (path : Bytes) :
    owsTrim (revalFill st path).lastModified = (revalFill st path).lastModified := by
  unfold revalFill
  dsimp only
  split
  · exact owsTrim_httpDateFormat _
  · rfl

/-- The text of a length that `size_t` holds is not cut off. -/
theorem owsTrim_lenText {len : ℕ} (h : len < 2 ^ 64) : owsTrim (lenText len) = showNat len := by
  have hshort : (showNat len).length ≤ LEN_BUF_SIZE - 1 := by
    rw [showNat, List.length_map]
    exact (Nat.length_toDigits_le_iff (by decide) (by decide)).mpr (h.trans (by decide))
  rw [lenText, List.take_of_length_le hshort]
  exact owsTrim_of_not_ows fun _ hc => (mem_showNat hc).2

/-- The value behind a key is read without the white space around it. -/
theorem fieldValue_headerField {key : Bytes} (hkey : 58 ∉ key) (value : Bytes) :
    fieldValue (headerField ⟨key, value⟩) = owsTrim value := by
  have hcolon : headerField ⟨key, value⟩ = key ++ 58 :: (SP :: value) := by
    rw [headerField, List.append_assoc]
    rfl
  have hdrop : (key ++ 58 :: (SP :: value)).dropWhile (· != 58) = 58 :: (SP :: value) := by
    rw [List.dropWhile_append_of_pos fun c hc => ?_]
    · rfl
    · rw [bne_iff_ne]
      rintro rfl
      exact hkey hc
  rw [hcolon, fieldValue, hdrop]
  rfl

theorem fieldValues_cons {key name : Bytes} (hkey : 58 ∉ key)
    (hname : asciiIeq (fieldName key) name = true) (value : Bytes) (lines : List Bytes) :
    fieldValues (headerField ⟨key, value⟩ :: lines) name =
      owsTrim value :: fieldValues lines name := by
  unfold fieldValues
  rw [List.filter_cons_of_pos (by rw [fieldName_headerField, hname]), List.map_cons,
    fieldValue_headerField hkey]

theorem fieldValues_cons_ne {key name : Bytes} (hname : asciiIeq (fieldName key) name = false)
    (value : Bytes) (lines : List Bytes) :
    fieldValues (headerField ⟨key, value⟩ :: lines) name = fieldValues lines name := by
  unfold fieldValues
  rw [List.filter_cons_of_neg (by rw [fieldName_headerField, hname]; simp)]

end HttpServer
