import HttpServer.ChunkDecoding
import HttpServer.TransferCodings

/-!
# The names of a list of codings

The result of `transfer_encoding_parse` by the names of the elements. The scan is read
once in closed form, so that a fault met early and one met late count the same.
-/

namespace HttpServer

variable {kinds : List CodingKind} {names : List Bytes} {val tok : Bytes}

/-- The part of an element before its first `;`. -/
def elementName (element : Bytes) : Bytes :=
  (element.takeWhile (· != SEMICOLON)).rdropWhile isOws

def codingNames (val : Bytes) : List Bytes :=
  ((listElements val).filter (· ≠ [])).map elementName

def IsChunked (name : Bytes) : Prop := name.map toLower = ascii "chunked"

instance (name : Bytes) : Decidable (IsChunked name) := inferInstanceAs (Decidable (_ = _))

/-- The framing faults. -/
inductive MalformedNames (names : List Bytes) : Prop where
  | nothing (h : names = [])
  | emptyName (h : [] ∈ names)
  | badByte {name : Bytes} {c : Byte} (h : name ∈ names) (hc : c ∈ name) (hbad : isTchar c = false)
  | chunkedTwice (h : 2 ≤ names.countP (IsChunked ·))
  | notLast {front back : List Bytes} {name : Bytes} (h : names = front ++ name :: back)
      (hname : IsChunked name) (hback : back ≠ []) (hlast : ∀ next ∈ back, ¬ IsChunked next)

/-! ## The scan in closed form -/

/-- The local variables behind elements none of which stops the scan. -/
def TransferCodingScan.after (s : TransferCodingScan) (kinds : List CodingKind) :
    TransferCodingScan :=
  { chunkedFound := s.chunkedFound || kinds.contains .chunked
    totalNonEmpty := s.totalNonEmpty + kinds.length
    chunkedPosition :=
      if .chunked ∈ kinds then some (s.totalNonEmpty + kinds.idxOf .chunked)
      else s.chunkedPosition
    hasUnsupported := s.hasUnsupported || kinds.contains .other }

theorem foldlM_step_eq (s : TransferCodingScan) (hcounted : .blank ∉ kinds) :
    kinds.foldlM TransferCodingScan.step s =
      if .malformed ∈ kinds ∨ 2 ≤ s.chunkedFound.toNat + kinds.count .chunked then none
      else some (s.after kinds) := by
  induction kinds generalizing s with
  | nil => cases s with | mk found => cases found <;> simp [TransferCodingScan.after]
  | cons kind kinds ih =>
    obtain ⟨hkind, hrest⟩ := not_or.mp (List.mem_cons.not.mp hcounted)
    rw [List.foldlM_cons]
    cases kind with
    | blank => exact absurd rfl hkind
    | malformed => simp [TransferCodingScan.step]
    | other =>
      simp only [TransferCodingScan.step, Option.bind_eq_bind, Option.bind_some]
      rw [ih _ hrest]
      simp [TransferCodingScan.after, Nat.add_comm, Nat.add_left_comm]
    | chunked =>
      by_cases hfound : s.chunkedFound = true
      · have htwice : 2 ≤ s.chunkedFound.toNat + (CodingKind.chunked :: kinds).count .chunked := by
          rw [List.count_cons_self, hfound, Bool.toNat_true]
          omega
        rw [if_pos (.inr htwice)]
        simp [TransferCodingScan.step, hfound]
      · have hmore : (.malformed ∈ kinds ∨ 2 ≤ true.toNat + kinds.count .chunked) ↔
            (.malformed ∈ CodingKind.chunked :: kinds ∨
              2 ≤ s.chunkedFound.toNat + (CodingKind.chunked :: kinds).count .chunked) := by
          simp [hfound, Nat.add_comm]
        simp only [TransferCodingScan.step, hfound, Option.bind_eq_bind]
        rw [if_neg Bool.false_ne_true, Option.bind_some, ih _ hrest]
        simp only [hfound] at hmore
        by_cases hbad : .malformed ∈ kinds ∨ 2 ≤ true.toNat + kinds.count .chunked
        · rw [if_pos hbad, if_pos (hmore.mp hbad)]
        · have hnone : CodingKind.chunked ∉ kinds := by
            intro hmem
            have hpos := List.count_pos_iff.mpr hmem
            have hlow := (not_or.mp hbad).2
            rw [Bool.toNat_true] at hlow
            omega
          rw [if_neg hbad, if_neg (hmore.not.mp hbad)]
          simp [TransferCodingScan.after, hnone, Nat.add_comm, Nat.add_left_comm]

/-! ## Names and kinds -/

def nameKind (name : Bytes) : CodingKind :=
  if !isToken name then .malformed
  else if eqChunked name then .chunked
  else .other

theorem owsTrim_rdropWhile (raw : Bytes) : (owsTrim raw).rdropWhile isOws = owsTrim raw :=
  List.rdropWhile_idempotent _ _

/-- The name is cut off the trimmed element as the code cuts it. -/
theorem codingName_eq (h : tok.rdropWhile isOws = tok) : codingName tok = elementName tok := by
  have hcut := memchr_semicolon tok tok.length le_rfl
  rw [List.take_length] at hcut
  unfold codingName elementName
  change _ = (sizeDigits tok).rdropWhile isOws
  rw [← hcut, show (59 : Byte) = SEMICOLON from rfl]
  cases hsemi : memchr tok 0 tok.length SEMICOLON with
  | none =>
    rw [Option.getD_none, range_zero_length, h]
  | some semi =>
    change range tok 0 (owsTrimTrailing tok 0 semi) = _
    rw [Option.getD_some, range_zero, range_zero, owsTrimTrailing, Nat.zero_add, range_zero]
    have hpre : (tok.take semi).rdropWhile isOws <+: tok :=
      (List.rdropWhile_prefix _ _).trans (List.take_prefix _ _)
    exact (List.prefix_iff_eq_take.mp hpre).symm

theorem codingKind_eq (h : tok.rdropWhile isOws = tok) (hne : tok ≠ []) :
    codingKind tok = nameKind (elementName tok) := by
  rw [codingKind, if_neg (List.length_eq_zero_iff.not.mpr hne), codingName_eq h]
  rfl

theorem countedKinds_eq (val : Bytes) : countedKinds val = (codingNames val).map nameKind := by
  have htrimmed : ∀ tok ∈ listElements val, tok.rdropWhile isOws = tok := by
    intro tok htok
    obtain ⟨raw, -, rfl⟩ := List.mem_map.mp htok
    exact owsTrim_rdropWhile raw
  unfold countedKinds codingKinds codingNames
  generalize listElements val = elements at htrimmed
  induction elements with
  | nil => rfl
  | cons tok elements ih =>
    obtain ⟨htok, hrest⟩ := List.forall_mem_cons.mp htrimmed
    by_cases hnil : tok = []
    · subst hnil
      have hblank : codingKind [] = .blank := rfl
      rw [List.map_cons, hblank, List.filter_cons_of_neg (by simp),
        List.filter_cons_of_neg (by simp)]
      exact ih hrest
    · have hcount : codingKind tok ≠ .blank := (codingKind_blank_iff tok).not.mpr hnil
      rw [List.map_cons, List.filter_cons_of_pos (by simpa using hcount),
        List.filter_cons_of_pos (by simpa using hnil), List.map_cons, List.map_cons,
        codingKind_eq htok hnil, ih hrest]

theorem nameKind_ne_blank (name : Bytes) : nameKind name ≠ .blank := by
  unfold nameKind
  split
  · simp
  · split <;> simp

theorem nameKind_malformed_iff (name : Bytes) :
    nameKind name = .malformed ↔ name = [] ∨ ∃ c ∈ name, isTchar c = false := by
  have htoken : isToken name = true ↔ ¬ (name = [] ∨ ∃ c ∈ name, isTchar c = false) := by
    simp [isToken]
  rw [← not_iff_not, ← htoken, nameKind]
  cases isToken name with
  | true =>
    simp only [Bool.not_true, Bool.false_eq_true, if_false]
    split <;> simp
  | false => simp

theorem isTchar_of_toLower {c : Byte} (h : toLower c ∈ ascii "chunked") : isTchar c = true := by
  by_cases hupper : isUpper c = true
  · simp [isTchar, isAlnum, hupper]
  · rw [toLower, if_neg hupper] at h
    have htchars : ∀ d ∈ ascii "chunked", isTchar d = true := by decide +kernel
    exact htchars c h

theorem isToken_of_isChunked {name : Bytes} (h : IsChunked name) : isToken name = true := by
  have hne : name ≠ [] := by
    rintro rfl
    exact absurd h (by decide)
  have hall : name.all isTchar = true := by
    refine List.all_eq_true.mpr fun c hc => isTchar_of_toLower ?_
    rw [← h]
    exact List.mem_map_of_mem hc
  simp [isToken, hne, hall]

theorem eqChunked_iff (name : Bytes) : eqChunked name = true ↔ IsChunked name := by
  rw [eqChunked, Bool.and_eq_true, beq_iff_eq, beq_iff_eq]
  constructor
  · exact And.right
  · intro h
    have hlen := congrArg List.length h
    rw [List.length_map] at hlen
    exact ⟨hlen, h⟩

theorem nameKind_chunked_iff (name : Bytes) : nameKind name = .chunked ↔ IsChunked name := by
  rw [← eqChunked_iff, nameKind]
  constructor
  · intro h
    split at h
    · cases h
    · split at h
      · assumption
      · cases h
  · intro h
    have htoken := isToken_of_isChunked ((eqChunked_iff name).mp h)
    simp [htoken, h]

/-! ## The matrix -/

/-- `chunked` stands before the last element, and not behind that. -/
def ChunkedNotLast (kinds : List CodingKind) : Prop :=
  ∃ front back, kinds = front ++ .chunked :: back ∧ back ≠ [] ∧ .chunked ∉ back

/-- The faults, by the kinds of the names. -/
def FaultyKinds (kinds : List CodingKind) : Prop :=
  kinds = [] ∨ .malformed ∈ kinds ∨ 2 ≤ kinds.count .chunked ∨ ChunkedNotLast kinds

theorem malformedNames_iff (names : List Bytes) :
    MalformedNames names ↔ FaultyKinds (names.map nameKind) := by
  have hcount : (names.map nameKind).count .chunked = names.countP (IsChunked ·) := by
    rw [List.count, List.countP_map]
    refine List.countP_congr fun name _ => ?_
    simp [nameKind_chunked_iff]
  have hmalformed : .malformed ∈ names.map nameKind ↔
      ∃ name ∈ names, name = [] ∨ ∃ c ∈ name, isTchar c = false := by
    simp [List.mem_map, nameKind_malformed_iff]
  rw [FaultyKinds, hcount, hmalformed, List.map_eq_nil_iff]
  constructor
  · rintro (h | h | ⟨h, hc, hbad⟩ | h | ⟨rfl, hname, hback, hlast⟩)
    · exact .inl h
    · exact .inr (.inl ⟨[], h, .inl rfl⟩)
    · exact .inr (.inl ⟨_, h, .inr ⟨_, hc, hbad⟩⟩)
    · exact .inr (.inr (.inl h))
    · next front back name =>
      refine .inr (.inr (.inr ⟨front.map nameKind, back.map nameKind, ?_, ?_, ?_⟩))
      · rw [List.map_append, List.map_cons, (nameKind_chunked_iff name).mpr hname]
      · exact List.map_eq_nil_iff.not.mpr hback
      · intro hmem
        obtain ⟨next, hnext, hkind⟩ := List.mem_map.mp hmem
        exact hlast next hnext ((nameKind_chunked_iff next).mp hkind)
  · rintro (h | ⟨name, hname, rfl | ⟨c, hc, hbad⟩⟩ | h | ⟨front, back, hsplit, hback, hlast⟩)
    · exact .nothing h
    · exact .emptyName hname
    · exact .badByte hname hc hbad
    · exact .chunkedTwice h
    · obtain ⟨front', rest, rfl, rfl, hrest⟩ := List.map_eq_append_iff.mp hsplit
      obtain ⟨name, back', rfl, hkind, rfl⟩ := List.map_eq_cons_iff.mp hrest
      refine .notLast rfl ((nameKind_chunked_iff name).mp hkind)
        (List.map_eq_nil_iff.not.mp hback) fun next hnext hchunked => hlast ?_
      exact List.mem_map.mpr ⟨next, hnext, (nameKind_chunked_iff next).mpr hchunked⟩

/-- The position that the scan noted tells whether `chunked` was the last element. -/
theorem chunkedNotLast_iff (hblank : .blank ∉ kinds) (hgood : .malformed ∉ kinds)
    (honce : kinds.count .chunked < 2) :
    ChunkedNotLast kinds ↔
      .chunked ∈ kinds ∧ .other ∈ kinds ∧ kinds.idxOf .chunked ≠ kinds.length - 1 := by
  have hsplit : ∀ front back, kinds = front ++ .chunked :: back →
      CodingKind.chunked ∉ front ∧ .chunked ∉ back ∧
        (kinds.idxOf .chunked ≠ kinds.length - 1 ↔ back ≠ []) := by
    rintro front back rfl
    rw [List.count_append, List.count_cons_self] at honce
    have hfront : CodingKind.chunked ∉ front := List.count_eq_zero.mp (by omega)
    have hback : CodingKind.chunked ∉ back := List.count_eq_zero.mp (by omega)
    refine ⟨hfront, hback, ?_⟩
    rw [List.idxOf_append_of_notMem hfront, List.idxOf_cons_self, List.length_append,
      List.length_cons, ← List.length_pos_iff]
    omega
  constructor
  · rintro ⟨front, back, rfl, hback, hlast⟩
    obtain ⟨kind, hkind⟩ := List.exists_mem_of_ne_nil back hback
    have hmem : kind ∈ front ++ CodingKind.chunked :: back := by simp [hkind]
    have hother : kind = .other := by
      cases kind with
      | blank => exact absurd hmem hblank
      | malformed => exact absurd hmem hgood
      | chunked => exact absurd hkind hlast
      | other => rfl
    exact ⟨by simp, hother ▸ hmem, (hsplit _ _ rfl).2.2.mpr hback⟩
  · rintro ⟨hchunked, -, hposition⟩
    obtain ⟨front, back, rfl, -⟩ := List.eq_append_cons_of_mem hchunked
    obtain ⟨-, hlast, hback⟩ := hsplit front back rfl
    exact ⟨front, back, rfl, hback.mp hposition, hlast⟩

theorem verdict_faulty (hblank : .blank ∉ kinds) (h : FaultyKinds kinds) :
    TransferCodingScan.verdict (kinds.foldlM TransferCodingScan.step {}) =
      (.badRequest, .none) := by
  rw [foldlM_step_eq _ hblank]
  by_cases hstop : .malformed ∈ kinds ∨ 2 ≤ false.toNat + kinds.count .chunked
  · rw [if_pos hstop]
    rfl
  · rw [if_neg hstop, TransferCodingScan.verdict]
    rw [Bool.toNat_false, Nat.zero_add] at hstop
    obtain ⟨hgood, honce⟩ := not_or.mp hstop
    rcases h with rfl | h | h | h
    · rfl
    · exact absurd h hgood
    · exact absurd h honce
    · obtain ⟨hchunked, hother, hposition⟩ :=
        (chunkedNotLast_iff hblank hgood (not_le.mp honce)).mp h
      simp [TransferCodingScan.after, hchunked, hother, hposition]

theorem verdict_sound (hblank : .blank ∉ kinds) (h : ¬ FaultyKinds kinds) :
    TransferCodingScan.verdict (kinds.foldlM TransferCodingScan.step {}) =
      if .other ∈ kinds then (.notImplemented, .unsupported) else (.ok, .chunked) := by
  obtain ⟨hne, hgood, honce, hlast⟩ : kinds ≠ [] ∧ .malformed ∉ kinds ∧
      ¬ 2 ≤ kinds.count .chunked ∧ ¬ ChunkedNotLast kinds := by
    simpa [FaultyKinds] using h
  have hgo : ¬ (.malformed ∈ kinds ∨ 2 ≤ false.toNat + kinds.count .chunked) := by
    rw [Bool.toNat_false, Nat.zero_add]
    exact not_or.mpr ⟨hgood, honce⟩
  rw [chunkedNotLast_iff hblank hgood (not_le.mp honce)] at hlast
  rw [foldlM_step_eq _ hblank, if_neg hgo, TransferCodingScan.verdict]
  have htotal : ¬ (({} : TransferCodingScan).after kinds).totalNonEmpty = 0 := by
    simpa [TransferCodingScan.after] using hne
  rw [if_neg htotal]
  by_cases hother : .other ∈ kinds
  · have hfinal : .chunked ∈ kinds → kinds.idxOf .chunked = kinds.length - 1 := by
      intro hchunked
      by_contra hposition
      exact hlast ⟨hchunked, hother, hposition⟩
    rw [if_pos hother]
    simp only [TransferCodingScan.after, Bool.false_or, Nat.zero_add]
    by_cases hchunked : .chunked ∈ kinds
    · simp [hother, hchunked, hfinal hchunked]
    · simp [hother, hchunked]
  · rw [if_neg hother]
    simp [TransferCodingScan.after, hother]

/-- The result of `transfer_encoding_parse` for every value. -/
theorem transferEncodingParse_matrix (val : Bytes) :
    ((transferEncodingParse val).1 = .badRequest ↔ MalformedNames (codingNames val)) ∧
    (transferEncodingParse val = (.notImplemented, .unsupported) ↔
      ¬ MalformedNames (codingNames val) ∧ ∃ name ∈ codingNames val, ¬ IsChunked name) ∧
    (transferEncodingParse val = (.ok, .chunked) ↔
      ¬ MalformedNames (codingNames val) ∧ ∀ name ∈ codingNames val, IsChunked name) := by
  rw [transferEncodingParse_eq, countedKinds_eq]
  have hblank : .blank ∉ (codingNames val).map nameKind := by
    intro hmem
    obtain ⟨name, -, hname⟩ := List.mem_map.mp hmem
    exact nameKind_ne_blank name hname
  by_cases hfaulty : MalformedNames (codingNames val)
  · rw [verdict_faulty hblank ((malformedNames_iff _).mp hfaulty)]
    simp [hfaulty]
  · have hsound := (malformedNames_iff _).not.mp hfaulty
    have hother : .other ∈ (codingNames val).map nameKind ↔
        ∃ name ∈ codingNames val, ¬ IsChunked name := by
      have hgood : .malformed ∉ (codingNames val).map nameKind := fun h => hsound (.inr (.inl h))
      constructor
      · intro hmem
        obtain ⟨name, hname, hkind⟩ := List.mem_map.mp hmem
        refine ⟨name, hname, fun hchunked => ?_⟩
        rw [(nameKind_chunked_iff name).mpr hchunked] at hkind
        cases hkind
      · rintro ⟨name, hname, hnot⟩
        refine List.mem_map.mpr ⟨name, hname, ?_⟩
        cases hkind : nameKind name with
        | blank => exact absurd hkind (nameKind_ne_blank name)
        | malformed => exact absurd (List.mem_map.mpr ⟨name, hname, hkind⟩) hgood
        | chunked => exact absurd ((nameKind_chunked_iff name).mp hkind) hnot
        | other => rfl
    rw [verdict_sound hblank hsound]
    by_cases hsome : .other ∈ (codingNames val).map nameKind
    · rw [if_pos hsome]
      refine ⟨iff_of_false (by simp) hfaulty, iff_of_true rfl ⟨hfaulty, hother.mp hsome⟩,
        iff_of_false (by simp) ?_⟩
      rintro ⟨-, hall⟩
      obtain ⟨name, hname, hnot⟩ := hother.mp hsome
      exact hnot (hall name hname)
    · rw [if_neg hsome]
      have hnone := hother.not.mp hsome
      refine ⟨iff_of_false (by simp) hfaulty, iff_of_false (by simp) fun h => hnone h.2,
        iff_of_true rfl ⟨hfaulty, fun name hname => ?_⟩⟩
      by_contra hnot
      exact hnone ⟨name, hname, hnot⟩

end HttpServer
