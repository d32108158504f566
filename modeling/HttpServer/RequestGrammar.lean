import HttpServer.Ranges

/-!
# The grammar of a request head

`RequestHead head req` says that `head` is a request line, header lines and an empty
line, and that `req` holds their parts verbatim. `request_parse` accepts exactly the
buffers that begin with such a head.
-/

namespace HttpServer

/-! ## The grammar -/

/-- Visible bytes other than `#`; a percent sign stands before two hex digits. -/
inductive TargetBytes : Bytes → Prop where
  | nil : TargetBytes []
  | char {c rest} (hvchar : isVchar c) (hfragment : c ≠ 35) (hpercent : c ≠ 37)
      (h : TargetBytes rest) : TargetBytes (c :: rest)
  | escape {h₁ h₂ rest} (hex₁ : isHex h₁) (hex₂ : isHex h₂) (h : TargetBytes rest) :
      TargetBytes (37 :: h₁ :: h₂ :: rest)

/-- The path ends before the first question mark, the query begins with it. -/
structure Target (target path query : Bytes) : Prop where
  split : target = path ++ query
  slash : path.head? = some 47
  path_only : 63 ∉ path
  question : query = [] ∨ query.head? = some 63
  bytes : TargetBytes target
  path_fits : path.length ≤ HTTP_MAX_PATH_LEN - 1
  query_fits : query.length ≤ HTTP_MAX_QUERY_LEN - 1

def requestMethods : List HttpMethod := [.get, .post, .put, .delete]

def requestVersions : List Bytes := [ascii "HTTP/0.9", ascii "HTTP/1.0", ascii "HTTP/1.1"]

structure RequestLine (line : Bytes) (parsed : HttpRequestLine) : Prop where
  split : line = httpMethodShow parsed.method ++ [SP] ++ (parsed.path ++ parsed.query) ++ [SP] ++
    parsed.version
  method : parsed.method ∈ requestMethods
  target : Target (parsed.path ++ parsed.query) parsed.path parsed.query
  version : parsed.version ∈ requestVersions

/-- A field value without the white space around it. -/
def owsTrim (raw : Bytes) : Bytes := (raw.dropWhile isOws).rdropWhile isOws

structure HeaderLine (line : Bytes) (header : Header) : Prop where
  split : ∃ raw, line = header.key ++ [58] ++ raw ∧ raw.length ≤ HTTP_MAX_HEADER_VALUE_LEN - 1 ∧
    header.value = owsTrim raw
  key : isToken header.key
  key_fits : header.key.length ≤ HTTP_MAX_HEADER_KEY_LEN - 1
  value : header.value.all isFieldContentByte

/-- Header lines and the empty line behind them. -/
inductive HeaderLines : Bytes → List Header → Prop where
  | blank : HeaderLines CRLF []
  | line {line header rest headers} (hline : HeaderLine line header)
      (h : HeaderLines rest headers) : HeaderLines (line ++ CRLF ++ rest) (header :: headers)

structure RequestHead (head : Bytes) (req : HttpRequest) : Prop where
  split : ∃ line fields, head = line ++ CRLF ++ fields ∧ RequestLine line req.requestLine ∧
    HeaderLines fields req.headers
  few : req.headers.length ≤ HTTP_MAX_HEADERS
  body : req.body = none
  bodyLen : req.bodyLen = 0

variable {buf line raw target path query : Bytes} {cur fin n : ℕ}

/-! ## The target -/

theorem isVchar_iff {c : Byte} : isVchar c = true ↔ ¬ (c < 0x20 || 0x7f ≤ c) = true ∧ c ≠ SP := by
  simp only [isVchar, SP]
  grind

theorem isHex_ne {c : Byte} (h : isHex c = true) : c ≠ 37 ∧ c ≠ 63 := by
  simp only [isHex, isDigit] at h
  grind

theorem targetBytes_cons {c : Byte} {rest : Bytes} (hc : c ≠ 37) :
    TargetBytes (c :: rest) ↔ isVchar c ∧ c ≠ 35 ∧ TargetBytes rest := by
  constructor
  · intro h
    cases h with
    | char hvchar hfragment hpercent h => exact ⟨hvchar, hfragment, h⟩
    | escape => exact absurd rfl hc
  · rintro ⟨hvchar, hfragment, h⟩
    exact .char hvchar hfragment hc h

theorem targetBytes_escape {h₁ h₂ : Byte} {rest : Bytes} :
    TargetBytes (37 :: h₁ :: h₂ :: rest) ↔ isHex h₁ ∧ isHex h₂ ∧ TargetBytes rest := by
  constructor
  · intro h
    cases h with
    | char hvchar hfragment hpercent => exact absurd rfl hpercent
    | escape hex₁ hex₂ h => exact ⟨hex₁, hex₂, h⟩
  · rintro ⟨hex₁, hex₂, h⟩
    exact .escape hex₁ hex₂ h

theorem two_le_of_targetBytes {rest : Bytes} (h : TargetBytes (37 :: rest)) :
    ∃ h₁ h₂ rest', rest = h₁ :: h₂ :: rest' := by
  cases h with
  | char hvchar hfragment hpercent => exact absurd rfl hpercent
  | escape => exact ⟨_, _, _, rfl⟩

/-- The bytes before the first question mark, and from there on. -/
def pathPart (target : Bytes) : Bytes := target.takeWhile (· != 63)

def queryPart (target : Bytes) : Bytes := target.dropWhile (· != 63)

/-- The scan after all of `bs`, wherever they belong. -/
def UriScan.finish (s : UriScan) (bs : Bytes) : UriScan :=
  if s.inQuery then { s with query := s.query ++ bs }
  else
    { inQuery := !(queryPart bs).isEmpty
      path := s.path ++ pathPart bs
      query := s.query ++ queryPart bs }

def UriScan.Fits (s : UriScan) : Prop :=
  s.path.length ≤ HTTP_MAX_PATH_LEN - 1 ∧ s.query.length ≤ HTTP_MAX_QUERY_LEN - 1

variable {s s' : UriScan} {w bs : Bytes}

theorem UriScan.finish_fits (h : (s.finish bs).Fits) : s.Fits := by
  unfold finish at h
  split at h <;> simp only [Fits, List.length_append] at h ⊢ <;> omega

theorem UriScan.put_fits (h : s.Fits) : (s.put w).Fits ↔ s.len + w.length ≤ s.cap - 1 := by
  unfold Fits at h ⊢
  unfold put len cap
  split <;> simp only [List.length_append] <;> omega

/-- Bytes that do not change over to the query. -/
theorem UriScan.put_finish (h : s.inQuery = true ∨ 63 ∉ w) :
    (s.put w).finish bs = s.finish (w ++ bs) := by
  unfold put finish
  cases hs : s.inQuery with
  | true => simp
  | false =>
    have hw : ∀ c ∈ w, (c != 63) = true := by
      intro c hc
      have hne : c ≠ 63 := fun heq => h.elim (by simp [hs]) fun hw => hw (heq ▸ hc)
      exact bne_iff_ne.mpr hne
    simp [pathPart, queryPart, List.takeWhile_append_of_pos hw,
      List.dropWhile_append_of_pos hw]

theorem UriScan.put_query (h : s.inQuery = false → s.query = []) :
    (s.put w).inQuery = false → (s.put w).query = [] := by
  unfold put
  split
  · next hs => simp [hs]
  · exact h

theorem uriParseLoop_iff (pos : ℕ) (hfits : s.Fits) (hquery : s.inQuery = false → s.query = [])
    (hsp : SP ∉ bs) :
    uriParseLoop pos bs s = (none, s') ↔
      TargetBytes bs ∧ (s.finish bs).Fits ∧ s' = s.finish bs := by
  have stops : ∀ {status at' bs} {s : UriScan}, ¬ (TargetBytes bs ∧ (s.finish bs).Fits) →
      ((some (status, at'), s) = ((none, s') : Option (ParseStatus × Option ℕ) × UriScan) ↔
        TargetBytes bs ∧ (s.finish bs).Fits ∧ s' = s.finish bs) :=
    fun hno => iff_of_false (by simp) fun h => hno ⟨h.1, h.2.1⟩
  have same : ∀ {c : Byte} {s : UriScan}, ¬ (!s.inQuery && c == 63) = true →
      s.inQuery = true ∨ c ≠ 63 := by
    intro c s h
    cases hs : s.inQuery <;> simp_all
  have escaped : ∀ {h₁ h₂ : Byte} {s : UriScan}, ¬ (!isHex h₁ || !isHex h₂) = true →
      s.inQuery = true ∨ 63 ∉ [37, h₁, h₂] := by
    intro h₁ h₂ s h
    obtain ⟨hex₁, hex₂⟩ : isHex h₁ = true ∧ isHex h₂ = true := by simpa using h
    exact .inr (by simp [(isHex_ne hex₁).2.symm, (isHex_ne hex₂).2.symm])
  fun_induction uriParseLoop pos bs s with
  | case1 pos s =>
    have hfinish : s.finish [] = s := by
      unfold UriScan.finish
      split
      · simp
      · next hs =>
        simp only [Bool.not_eq_true] at hs
        simp [pathPart, queryPart, ← hs]
    rw [hfinish]
    simp only [Prod.mk.injEq, true_and]
    exact ⟨fun h => ⟨.nil, hfits, h.symm⟩, fun h => h.2.2.symm⟩
  | case2 pos s c rest hctl =>
    refine stops fun h => ?_
    cases h.1 with
    | char hvchar => exact (isVchar_iff.mp hvchar).1 hctl
    | escape => exact absurd hctl (by decide)
  | case3 pos s c rest hctl hhash =>
    refine stops fun h => ?_
    cases h.1 with
    | char hvchar hfragment => exact hfragment (beq_iff_eq.mp hhash)
    | escape => exact absurd hhash (by decide)
  | case4 pos c rest s hctl hhash hquestion ih =>
    obtain ⟨hs, rfl⟩ : s.inQuery = false ∧ c = 63 := by simpa using hquestion
    have hnil := hquery hs
    have hrest : SP ∉ rest := fun h => hsp (List.mem_cons_of_mem _ h)
    have hfinish : ({ s with inQuery := true, query := s.query ++ [63] } : UriScan).finish rest =
        s.finish (63 :: rest) := by
      simp [UriScan.finish, hs, pathPart, queryPart]
    have hfits' : ({ s with inQuery := true, query := s.query ++ [63] } : UriScan).Fits := by
      rw [hnil]
      exact ⟨hfits.1, show ([63] : Bytes).length ≤ _ by decide⟩
    refine (ih hfits' (fun h => by cases h) hrest).trans ?_
    rw [hfinish, targetBytes_cons (by decide)]
    simp [show isVchar 63 = true by decide]
  | case5 pos c rest s hctl hhash hquestion hlong =>
    refine stops fun h => ?_
    have hne : s.inQuery = true ∨ 63 ∉ [c] := (same hquestion).imp_right fun h => by simpa using h.symm
    have hput : ((s.put [c]).finish rest).Fits := by rw [UriScan.put_finish hne]; exact h.2
    have hroom := (UriScan.put_fits hfits).mp (UriScan.finish_fits hput)
    simp only [List.length_singleton] at hroom
    omega
  | case6 pos c s hctl hhash hquestion hroom hpercent h₁ h₂ rest hhex =>
    obtain rfl : c = 37 := beq_iff_eq.mp hpercent
    refine stops fun h => ?_
    obtain ⟨hex₁, hex₂, -⟩ := targetBytes_escape.mp h.1
    simp [hex₁, hex₂] at hhex
  | case7 pos c s hctl hhash hquestion hroom hpercent h₁ h₂ rest hhex hlong =>
    obtain rfl : c = 37 := beq_iff_eq.mp hpercent
    refine stops fun h => ?_
    have hput : ((s.put [37, h₁, h₂]).finish rest).Fits := by
      rw [UriScan.put_finish (escaped hhex)]
      exact h.2
    have hroom := (UriScan.put_fits hfits).mp (UriScan.finish_fits hput)
    simp only [List.length_cons, List.length_nil] at hroom
    omega
  | case8 pos c s hctl hhash hquestion hroom hpercent h₁ h₂ rest hhex hfit ih =>
    obtain rfl : c = 37 := beq_iff_eq.mp hpercent
    have hrest : SP ∉ rest := fun h => hsp (by simp [h])
    have hput : (s.put [37, h₁, h₂]).Fits := (UriScan.put_fits hfits).mpr (by simpa using hfit)
    refine (ih hput (UriScan.put_query hquery) hrest).trans ?_
    rw [UriScan.put_finish (escaped hhex)]
    obtain ⟨hex₁, hex₂⟩ : isHex h₁ = true ∧ isHex h₂ = true := by simpa using hhex
    simp [targetBytes_escape, hex₁, hex₂]
  | case9 pos c rest s hctl hhash hquestion hroom hpercent hcut =>
    obtain rfl : c = 37 := beq_iff_eq.mp hpercent
    refine stops fun h => ?_
    obtain ⟨h₁, h₂, rest', rfl⟩ := two_le_of_targetBytes h.1
    exact hcut h₁ h₂ rest' rfl
  | case10 pos c rest s hctl hhash hquestion hroom hpercent ih =>
    have hne : s.inQuery = true ∨ 63 ∉ [c] := (same hquestion).imp_right fun h => by simpa using h.symm
    have hrest : SP ∉ rest := fun h => hsp (List.mem_cons_of_mem _ h)
    have hput : (s.put [c]).Fits := (UriScan.put_fits hfits).mpr (by
      simp only [List.length_singleton]
      omega)
    have hc : c ≠ SP := fun heq => hsp (heq ▸ List.mem_cons_self ..)
    refine (ih hput (UriScan.put_query hquery) hrest).trans ?_
    rw [UriScan.put_finish hne, targetBytes_cons (by simpa using hpercent)]
    have hvchar : isVchar c = true := isVchar_iff.mpr ⟨hctl, hc⟩
    have hfragment : c ≠ 35 := by simpa using hhash
    simp [hvchar, hfragment]

theorem TargetBytes.sp_not_mem (h : TargetBytes target) : SP ∉ target := by
  induction h with
  | nil => simp
  | @char c rest hvchar hfragment hpercent h ih =>
    intro hsp
    rcases List.mem_cons.mp hsp with rfl | hsp
    · exact absurd hvchar (by decide)
    · exact ih hsp
  | @escape h₁ h₂ rest hex₁ hex₂ h ih =>
    intro hsp
    simp only [List.mem_cons] at hsp
    rcases hsp with hsp | rfl | rfl | hsp
    · exact absurd hsp (by decide)
    · exact absurd hex₁ (by decide)
    · exact absurd hex₂ (by decide)
    · exact ih hsp

theorem Target.parts (h : Target target path query) :
    pathPart target = path ∧ queryPart target = query := by
  have hpath : ∀ c ∈ path, (c != 63) = true := fun c hc =>
    bne_iff_ne.mpr fun heq => h.path_only (heq ▸ hc)
  rw [h.split, pathPart, queryPart, List.takeWhile_append_of_pos hpath,
    List.dropWhile_append_of_pos hpath]
  rcases h.question with rfl | hquestion
  · simp
  · cases query with
    | nil => cases hquestion
    | cons c rest =>
      obtain rfl : c = 63 := Option.some.inj hquestion
      simp

theorem target_parts (hslash : target.head? = some 47) (hbytes : TargetBytes target)
    (hfits : (({} : UriScan).finish target).Fits) :
    Target target (pathPart target) (queryPart target) where
  split := List.takeWhile_append_dropWhile.symm
  slash := by
    cases target with
    | nil => cases hslash
    | cons c rest =>
      obtain rfl : c = 47 := Option.some.inj hslash
      rfl
  path_only h := absurd (List.mem_takeWhile_imp h) (by decide)
  question := by
    have hhead := List.head?_dropWhile_not (· != 63) target
    unfold queryPart
    cases hdrop : (target.dropWhile (· != 63)).head? with
    | none => exact .inl (List.head?_eq_none_iff.mp hdrop)
    | some c =>
      rw [hdrop] at hhead
      exact .inr (congrArg some (by simpa using hhead))
  bytes := hbytes
  path_fits := hfits.1
  query_fits := hfits.2

theorem Target.fits (h : Target target path query) : (({} : UriScan).finish target).Fits := by
  obtain ⟨rfl, rfl⟩ := h.parts
  exact ⟨h.path_fits, h.query_fits⟩

/-! ## The request line -/

theorem httpMethodParse_range (hfin : cur + n ≤ fin) :
    httpMethodParse (range buf cur fin) 0 n = httpMethodParse buf cur n := by
  have same : ∀ s : Bytes, (memEq (range buf cur fin) 0 s && n == s.length) =
      (memEq buf cur s && n == s.length) := by
    intro s
    by_cases hn : n = s.length
    · rw [memEq_range (by omega)]
      rfl
    · rw [beq_false_of_ne hn, Bool.and_false, Bool.and_false]
  have hget : (memEq (range buf cur fin) 0 (ascii "GET") && n == 3) =
      (memEq buf cur (ascii "GET") && n == 3) := same _
  have hpost : (memEq (range buf cur fin) 0 (ascii "POST") && n == 4) =
      (memEq buf cur (ascii "POST") && n == 4) := same _
  have hput : (memEq (range buf cur fin) 0 (ascii "PUT") && n == 3) =
      (memEq buf cur (ascii "PUT") && n == 3) := same _
  have hdelete : (memEq (range buf cur fin) 0 (ascii "DELETE") && n == 6) =
      (memEq buf cur (ascii "DELETE") && n == 6) := same _
  unfold httpMethodParse
  rw [hget, hpost, hput, hdelete]

theorem httpMethodParse_known_iff {m : Bytes} {method : HttpMethod} (hne : method ≠ .unknown) :
    httpMethodParse m 0 m.length = method ↔ method ∈ requestMethods ∧ m = httpMethodShow method := by
  have hget : (memEq m 0 (ascii "GET") && m.length == 3) = (m == ascii "GET") := memEq_zero _ _
  have hpost : (memEq m 0 (ascii "POST") && m.length == 4) = (m == ascii "POST") := memEq_zero _ _
  have hput : (memEq m 0 (ascii "PUT") && m.length == 3) = (m == ascii "PUT") := memEq_zero _ _
  have hdelete : (memEq m 0 (ascii "DELETE") && m.length == 6) = (m == ascii "DELETE") :=
    memEq_zero _ _
  unfold httpMethodParse
  rw [hget, hpost, hput, hdelete]
  constructor
  · intro h
    simp only [beq_iff_eq] at h
    split at h
    · next hm => exact ⟨by simp [← h, requestMethods], by rw [hm, ← h]; rfl⟩
    · split at h
      · next hm => exact ⟨by simp [← h, requestMethods], by rw [hm, ← h]; rfl⟩
      · split at h
        · next hm => exact ⟨by simp [← h, requestMethods], by rw [hm, ← h]; rfl⟩
        · split at h
          · next hm => exact ⟨by simp [← h, requestMethods], by rw [hm, ← h]; rfl⟩
          · exact absurd h.symm hne
  · rintro ⟨hmem, rfl⟩
    simp only [requestMethods, List.mem_cons, List.not_mem_nil, or_false] at hmem
    rcases hmem with rfl | rfl | rfl | rfl <;> decide

/-- What is returned with an error is not what has been accepted. -/
theorem refused_ne {α : Type*} {r res : ParseResult} {x y : α} (hok : res.status = .ok)
    (hne : r.status ≠ .ok) : (r, x) ≠ (res, y) := by
  intro heq
  rw [← (Prod.mk.inj heq).1] at hok
  exact hne hok

/-- A known method and a space behind it. -/
theorem methodParse_ok_iff (parsed : HttpRequestLine) {parsed' : HttpRequestLine} {res : ParseResult}
    (hcur : cur ≤ fin) (hfin : fin ≤ buf.length) :
    methodParse buf cur fin parsed = (res, parsed') ∧ res.status = .ok ↔
      ∃ method rest, range buf cur fin = httpMethodShow method ++ SP :: rest ∧
        method ∈ requestMethods ∧ parsed' = { parsed with method := method } ∧
        res = { errorPosition := some cur, next := some (cur + (httpMethodShow method).length + 1) }
    := by
  have known : ∀ {m rest : Bytes} {method : HttpMethod}, range buf cur fin = m ++ SP :: rest →
      method ≠ .unknown → (httpMethodParse buf cur (cur + m.length - cur) = method ↔
        method ∈ requestMethods ∧ m = httpMethodShow method) := by
    intro m rest method hsplit hne
    obtain ⟨hm, -, hle⟩ := range_split hfin hcur hsplit
    rw [← httpMethodParse_known_iff hne, Nat.add_sub_cancel_left]
    nth_rewrite 2 [← hm]
    rw [httpMethodParse_range le_rfl]
  unfold methodParse
  dsimp only
  constructor
  · rintro ⟨h, hok⟩
    have stops : ∀ {line : HttpRequestLine},
        (parseErrorSet {} .badRequest cur, line) ≠ (res, parsed') :=
      refused_ne hok (by simp [parseErrorSet])
    split at h
    · exact absurd h stops
    · split at h
      · exact absurd h stops
      · split at h
        · exact absurd h stops
        · next sp hsp =>
          obtain ⟨m, rest, hsplit, -, rfl⟩ := memchr_eq_some_iff.mp hsp
          generalize hmethod : httpMethodParse buf cur (cur + m.length - cur) = method at h
          split at h
          · exact absurd h stops
          · next hne =>
            obtain ⟨hmem, rfl⟩ := (known hsplit hne).mp hmethod
            obtain ⟨rfl, rfl⟩ := Prod.mk.inj h
            exact ⟨_, rest, hsplit, hmem, rfl, rfl⟩
  · rintro ⟨method, rest, hsplit, hmem, rfl, rfl⟩
    have hshow : SP ∉ httpMethodShow method ∧ method ≠ .unknown ∧
        ∃ c t, httpMethodShow method = c :: t ∧ c ≠ SP := by
      simp only [requestMethods, List.mem_cons, List.not_mem_nil, or_false] at hmem
      rcases hmem with rfl | rfl | rfl | rfl <;>
        exact ⟨by decide, by decide, _, _, rfl, by decide⟩
    obtain ⟨hsp, hne, c, t, hshown, hc⟩ := hshow
    have hmethod := (known hsplit hne).mpr ⟨hmem, rfl⟩
    have hmemchr := memchr_eq_some_iff.mpr ⟨_, _, hsplit, hsp, rfl⟩
    have hlt : cur < fin := by
      by_contra hle
      rw [range_of_le (Nat.not_lt.mp hle)] at hsplit
      simp at hsplit
    have hfirst : byteAt buf cur = c := by
      rw [hshown] at hsplit
      exact byteAt_range_head hlt hfin hsplit
    rw [if_neg (Nat.not_le.mpr hlt), hfirst, if_neg (by simpa using hc), hmemchr]
    dsimp only
    rw [hmethod, if_neg hne]
    exact ⟨rfl, rfl⟩

theorem uriParseLoop_refuses {pos : ℕ} {status : ParseStatus} {at' : Option ℕ}
    (h : uriParseLoop pos bs s = (some (status, at'), s')) : status ≠ .ok := by
  fun_induction uriParseLoop pos bs s with
  | case1 => cases h
  | case4 pos c rest s hctl hhash hquestion ih => exact ih h
  | case8 pos c s hctl hhash hquestion hroom hpercent h₁ h₂ rest hhex hfit ih => exact ih h
  | case10 pos c rest s hctl hhash hquestion hroom hpercent ih => exact ih h
  | _ =>
    cases h
    simp

/-- A target and a space behind it. -/
theorem uriParse_ok_iff (parsed : HttpRequestLine) {parsed' : HttpRequestLine} {res : ParseResult}
    (hcur : cur ≤ fin) (hfin : fin ≤ buf.length) :
    uriParse buf cur fin parsed = (res, parsed') ∧ res.status = .ok ↔
      ∃ path query rest, range buf cur fin = (path ++ query) ++ SP :: rest ∧
        Target (path ++ query) path query ∧
        parsed' = { parsed with path := path, query := query } ∧
        res = { errorPosition := some cur, next := some (cur + (path ++ query).length + 1) } := by
  have scanned : ∀ {target rest : Bytes} {s' : UriScan},
      range buf cur fin = target ++ SP :: rest → SP ∉ target →
      (uriParseLoop cur (range buf cur (cur + target.length)) {} = (none, s') ↔
        TargetBytes target ∧ (({} : UriScan).finish target).Fits ∧
          s' = ({} : UriScan).finish target) := by
    intro target rest s' hsplit hsp
    rw [(range_split hfin hcur hsplit).1]
    exact uriParseLoop_iff cur ⟨Nat.zero_le _, Nat.zero_le _⟩ (fun _ => rfl) hsp
  have head : ∀ {target rest : Bytes}, range buf cur fin = target ++ SP :: rest → cur < fin →
      (byteAt buf cur = 47 ↔ target.head? = some 47) := by
    intro target rest hsplit hlt
    rw [range_cons hlt hfin] at hsplit
    cases target with
    | nil =>
      have hfirst : byteAt buf cur = SP := (List.cons.inj hsplit).1
      rw [hfirst]
      decide
    | cons c t =>
      have hfirst : byteAt buf cur = c := (List.cons.inj hsplit).1
      rw [hfirst, List.head?_cons, Option.some_inj]
  unfold uriParse
  dsimp only
  constructor
  · rintro ⟨h, hok⟩
    have stops : ∀ {line : HttpRequestLine},
        (parseErrorSet {} .badRequest cur, line) ≠ (res, parsed') :=
      refused_ne hok (by simp [parseErrorSet])
    split at h
    · exact absurd h stops
    · next hlt =>
      split at h
      · exact absurd h stops
      · next sp hsp =>
        obtain ⟨target, rest, hsplit, hnot, rfl⟩ := memchr_eq_some_iff.mp hsp
        split at h
        · exact absurd h stops
        · next hslash =>
          have hslash' := (head hsplit (Nat.not_le.mp hlt)).mp (by simpa using hslash)
          split at h
          · next status pos s' hloop =>
            rw [← (Prod.mk.inj h).1] at hok
            exact absurd hok (uriParseLoop_refuses hloop)
          · next s' hloop =>
            obtain ⟨hbytes, hfits, rfl⟩ := (scanned hsplit hnot).mp hloop
            obtain ⟨rfl, rfl⟩ := Prod.mk.inj h
            have htarget := target_parts hslash' hbytes hfits
            have hsame : pathPart target ++ queryPart target = target := htarget.split.symm
            refine ⟨pathPart target, queryPart target, rest, ?_, ?_, rfl, ?_⟩
            · rw [hsame]
              exact hsplit
            · rw [hsame]
              exact htarget
            · rw [hsame]
              rfl
  · rintro ⟨path, query, rest, hsplit, htarget, rfl, rfl⟩
    have hnot := htarget.bytes.sp_not_mem
    have hmemchr := memchr_eq_some_iff.mpr ⟨_, _, hsplit, hnot, rfl⟩
    have hlt : cur < fin := by
      by_contra hle
      rw [range_of_le (Nat.not_lt.mp hle)] at hsplit
      simp at hsplit
    have hslash : (path ++ query).head? = some 47 := by
      rw [List.head?_append, htarget.slash]
      rfl
    have hloop := (scanned hsplit hnot).mpr ⟨htarget.bytes, htarget.fits, rfl⟩
    rw [if_neg (Nat.not_le.mpr hlt), hmemchr]
    dsimp only
    rw [(head hsplit hlt).mpr hslash, if_neg (by decide), hloop]
    obtain ⟨hpath, hquery⟩ := htarget.parts
    have hfinish : (({} : UriScan).finish (path ++ query)).path = path ∧
        (({} : UriScan).finish (path ++ query)).query = query := ⟨hpath, hquery⟩
    dsimp only
    rw [hfinish.1, hfinish.2]
    exact ⟨rfl, rfl⟩

/-- The text that `version_parse` compares, piece by piece. -/
theorem mem_requestVersions_iff {v : Bytes} (hlen : v.length = 8) :
    v ∈ requestVersions ↔ memEq v 0 (ascii "HTTP/") = true ∧
      (memEq v 5 (ascii "0.9") || memEq v 5 (ascii "1.0") || memEq v 5 (ascii "1.1")) = true := by
  have hversions : requestVersions = [[72, 84, 84, 80, 47, 48, 46, 57],
      [72, 84, 84, 80, 47, 49, 46, 48], [72, 84, 84, 80, 47, 49, 46, 49]] := by decide
  have hname : ascii "HTTP/" = [72, 84, 84, 80, 47] := by decide
  have h09 : ascii "0.9" = [48, 46, 57] := by decide
  have h10 : ascii "1.0" = [49, 46, 48] := by decide
  have h11 : ascii "1.1" = [49, 46, 49] := by decide
  match v, hlen with
  | [a, b, c, d, e, f, g, h], _ =>
    simp only [hversions, hname, h09, h10, h11, memEq, List.drop_zero, List.drop_succ_cons,
      List.length_cons, List.length_nil, List.take_succ_cons, List.take_zero, List.mem_cons,
      List.cons.injEq, and_true, List.not_mem_nil, or_false, Bool.or_eq_true, beq_iff_eq]
    tauto

/-- One of the three versions up to the end of the range. -/
theorem versionParse_ok_iff (parsed : HttpRequestLine) {parsed' : HttpRequestLine} {res : ParseResult}
    (hcur : cur ≤ fin) (hfin : fin ≤ buf.length) :
    versionParse buf cur fin parsed = (res, parsed') ∧ res.status = .ok ↔
      range buf cur fin ∈ requestVersions ∧
        parsed' = { parsed with version := range buf cur fin } ∧
        res = { errorPosition := some cur, next := some fin } := by
  have hlength : range buf cur fin ∈ requestVersions → fin = cur + 8 := by
    intro hmem
    have hlen : (range buf cur fin).length = 8 := by
      simp only [requestVersions, List.mem_cons, List.not_mem_nil, or_false] at hmem
      rcases hmem with h | h | h <;> rw [h] <;> rfl
    rw [length_range hfin] at hlen
    omega
  unfold versionParse
  dsimp only
  by_cases hsize : fin = cur + 8
  · subst hsize
    have hlen : (range buf cur (cur + 8)).length = 8 := by
      rw [length_range hfin]
      omega
    have hhttp : memEq buf cur (ascii "HTTP/") =
        memEq (range buf cur (cur + 8)) 0 (ascii "HTTP/") :=
      (memEq_range (i := 0) (by simp [show (ascii "HTTP/").length = 5 from rfl])).symm
    have hdigits : ∀ s : Bytes, s.length = 3 →
        memEq buf (cur + 5) s = memEq (range buf cur (cur + 8)) 5 s :=
      fun s hs => (memEq_range (by omega)).symm
    have hbyte : ∀ i < 8, byteAt buf (cur + i) = byteAt (range buf cur (cur + 8)) i :=
      fun i hi => (byteAt_range (by omega)).symm
    have hiff := mem_requestVersions_iff hlen
    rw [if_neg (by simp [HTTP_VERSION_LEN]), hhttp, hdigits _ rfl, hdigits _ rfl, hdigits _ rfl,
      hbyte 5 (by omega), hbyte 6 (by omega), show cur + 8 - 1 = cur + 7 from rfl,
      hbyte 7 (by omega)]
    constructor
    · rintro ⟨h, hok⟩
      split at h
      · exact absurd h (refused_ne hok (by simp [parseErrorSet]))
      · next hname =>
        split at h
        · exact absurd h (refused_ne hok (by simp [parseErrorSet]))
        · split at h
          · exact absurd h (refused_ne hok (by simp [parseErrorSet]))
          · next hdigits =>
            obtain ⟨rfl, rfl⟩ := Prod.mk.inj h
            have hnumber := hdigits
            rw [Bool.not_eq_true', Bool.not_eq_false] at hnumber
            exact ⟨hiff.mpr ⟨by simpa using hname, hnumber⟩, rfl, rfl⟩
    · rintro ⟨hmem, rfl, rfl⟩
      obtain ⟨hname, hnumber⟩ := hiff.mp hmem
      have hdots : (!isDigit (byteAt (range buf cur (cur + 8)) 5) ||
          !isDigit (byteAt (range buf cur (cur + 8)) 7) ||
          byteAt (range buf cur (cur + 8)) 6 != 46) = false := by
        simp only [requestVersions, List.mem_cons, List.not_mem_nil, or_false] at hmem
        rcases hmem with h | h | h <;> rw [h] <;> decide
      rw [hname, hnumber, hdots]
      exact ⟨rfl, rfl⟩
  · rw [if_pos (by simp only [HTTP_VERSION_LEN]; omega)]
    refine iff_of_false ?_ fun h => hsize (hlength h.1)
    rintro ⟨h, hok⟩
    rw [← (Prod.mk.inj h).1] at hok
    cases hok

/-- The range behind a first part and a space. -/
theorem range_after_space {rest : Bytes} (hcur : cur ≤ fin) (hfin : fin ≤ buf.length)
    (h : range buf cur fin = bs ++ SP :: rest) :
    cur + bs.length + 1 ≤ fin ∧ range buf (cur + bs.length + 1) fin = rest := by
  rw [List.append_cons] at h
  obtain ⟨-, hrest, hle⟩ := range_split hfin hcur h
  rw [List.length_append] at hrest hle
  exact ⟨hle, hrest⟩

theorem requestLineParse_ok_iff (parsed : HttpRequestLine) {parsed' : HttpRequestLine} {res : ParseResult}
    (hcur : cur ≤ fin) (hfin : fin ≤ buf.length) :
    requestLineParse buf cur fin parsed = (res, parsed') ∧ res.status = .ok ↔
      RequestLine (range buf cur fin) parsed' ∧
        res = { errorPosition := some (fin - HTTP_VERSION_LEN), next := some fin } := by
  have versioned : ∀ {start : ℕ}, range buf start fin ∈ requestVersions →
      fin - HTTP_VERSION_LEN = start := by
    intro start hmem
    have hlen : (range buf start fin).length = 8 := by
      simp only [requestVersions, List.mem_cons, List.not_mem_nil, or_false] at hmem
      rcases hmem with h | h | h <;> rw [h] <;> rfl
    rw [length_range hfin] at hlen
    unfold HTTP_VERSION_LEN
    omega
  unfold requestLineParse
  constructor
  · rintro ⟨h, hok⟩
    generalize hmethod : methodParse buf cur fin parsed = methodRes at h
    obtain ⟨methodRes, line₁⟩ := methodRes
    dsimp only at h
    generalize huri : uriParse buf (methodRes.next.getD 0) fin line₁ = uriRes at h
    obtain ⟨uriRes, line₂⟩ := uriRes
    dsimp only at h
    split at h
    · next hne => exact absurd h (refused_ne hok hne)
    · next hmethodOk =>
      split at h
      · next hne => exact absurd h (refused_ne hok hne)
      · next huriOk =>
        obtain ⟨method, rest₁, hsplit, hmem, rfl, rfl⟩ :=
          (methodParse_ok_iff parsed hcur hfin).mp ⟨hmethod, not_not.mp hmethodOk⟩
        obtain ⟨hcur₁, hrest₁⟩ := range_after_space hcur hfin hsplit
        obtain ⟨path, query, rest₂, hsplit₂, htarget, rfl, rfl⟩ :=
          (uriParse_ok_iff _ hcur₁ hfin).mp ⟨huri, not_not.mp huriOk⟩
        obtain ⟨hcur₂, hrest₂⟩ := range_after_space hcur₁ hfin hsplit₂
        obtain ⟨hversion, rfl, rfl⟩ := (versionParse_ok_iff _ hcur₂ hfin).mp ⟨h, hok⟩
        refine ⟨⟨?_, hmem, htarget, hversion⟩, by rw [versioned hversion]⟩
        rw [hsplit, ← hrest₁, hsplit₂, ← hrest₂]
        simp
  · rintro ⟨⟨hsplit, hmem, htarget, hversion⟩, rfl⟩
    obtain ⟨method, path, query, version⟩ := parsed'
    dsimp only at hsplit hmem htarget hversion
    have hsplit₁ : range buf cur fin =
        httpMethodShow method ++ SP :: (path ++ query ++ SP :: version) := by
      rw [hsplit]
      simp
    obtain ⟨hmethod, -⟩ := (methodParse_ok_iff parsed hcur hfin).mpr
      ⟨method, _, hsplit₁, hmem, rfl, rfl⟩
    obtain ⟨hcur₁, hrest₁⟩ := range_after_space hcur hfin hsplit₁
    obtain ⟨huri, -⟩ := (uriParse_ok_iff { parsed with method := method } hcur₁
      hfin).mpr ⟨path, query, version, hrest₁, htarget, rfl, rfl⟩
    obtain ⟨hcur₂, hrest₂⟩ := range_after_space hcur₁ hfin hrest₁
    rw [← hrest₂] at hversion
    obtain ⟨hver, -⟩ := (versionParse_ok_iff
      { parsed with method := method, path := path, query := query } hcur₂ hfin).mpr
      ⟨hversion, rfl, rfl⟩
    rw [versioned hversion, ← hrest₂]
    simp only [hmethod, Option.getD_some, ne_eq, not_true_eq_false, if_false, huri, hver, and_self]

/-! ## Header lines -/

theorem headerKeyLoop_ok_iff (start pos : ℕ) (bs key : Bytes) {key' : Bytes}
    (hfits : key.length ≤ HTTP_MAX_HEADER_KEY_LEN - 1) :
    headerKeyLoop start pos bs key = .ok key' ↔
      bs.all isTchar = true ∧ key.length + bs.length ≤ HTTP_MAX_HEADER_KEY_LEN - 1 ∧
        key' = key ++ bs := by
  induction bs generalizing pos key with
  | nil =>
    simp only [headerKeyLoop, List.all_nil, List.length_nil, Nat.add_zero, hfits, true_and,
      List.append_nil, Except.ok.injEq]
    exact eq_comm
  | cons c bs ih =>
    simp only [headerKeyLoop, List.all_cons, List.length_cons]
    by_cases htchar : isTchar c = true
    · rw [if_neg (by simp [htchar])]
      by_cases hroom : key.length ≥ HTTP_MAX_HEADER_KEY_LEN - 1
      · rw [if_pos hroom]
        exact iff_of_false (by simp) fun h => by omega
      · have hsnoc : (key ++ [c]).length ≤ HTTP_MAX_HEADER_KEY_LEN - 1 := by
          rw [List.length_append, List.length_singleton]
          omega
        rw [if_neg hroom, ih (pos + 1) _ hsnoc, htchar, Bool.true_and, List.length_append,
          List.length_singleton, List.append_assoc, List.singleton_append, Nat.add_assoc,
          Nat.add_comm 1]
    · rw [if_pos (by simpa using htchar)]
      exact iff_of_false (by simp) fun h => by simp [htchar] at h

theorem range_owsTrim (hcur : cur ≤ fin) (hfin : fin ≤ buf.length) :
    range buf (owsSkip buf cur fin) (owsTrimTrailing buf (owsSkip buf cur fin) fin) =
      owsTrim (range buf cur fin) := by
  have hsplit : range buf cur fin =
      (range buf cur fin).takeWhile isOws ++ (range buf cur fin).dropWhile isOws :=
    List.takeWhile_append_dropWhile.symm
  obtain ⟨-, hskip, hle⟩ := range_split hfin hcur hsplit
  have hskip' : range buf (owsSkip buf cur fin) fin = (range buf cur fin).dropWhile isOws := hskip
  have hle' : owsSkip buf cur fin ≤ fin := hle
  obtain ⟨rest, hrest⟩ := List.rdropWhile_prefix isOws (range buf (owsSkip buf cur fin) fin)
  obtain ⟨htrim, -⟩ := range_split hfin hle' hrest.symm
  rw [owsTrimTrailing, htrim, hskip', owsTrim]

theorem headerValueParse_ok_iff (header : Header) {header' : Header} {res : ParseResult}
    (hcur : cur ≤ fin) (hfin : fin ≤ buf.length) :
    headerValueParse buf cur fin header = (res, header') ∧ res.status = .ok ↔
      (range buf cur fin).length ≤ HTTP_MAX_HEADER_VALUE_LEN - 1 ∧
        (owsTrim (range buf cur fin)).all isFieldContentByte = true ∧
        header' = { header with value := owsTrim (range buf cur fin) } ∧
        res = { errorPosition := some cur, next := some fin } := by
  have hlen : (range buf cur fin).length = fin - cur := length_range hfin
  unfold headerValueParse
  dsimp only
  rw [range_owsTrim hcur hfin, hlen]
  have hlong : ((fin : ℤ) - cur > (HTTP_MAX_HEADER_VALUE_LEN : ℤ) - 1) ↔
      ¬ fin - cur ≤ HTTP_MAX_HEADER_VALUE_LEN - 1 := by
    simp only [HTTP_MAX_HEADER_VALUE_LEN]
    omega
  have stops : ∀ {r : ParseResult} {h : Header}, r.status ≠ .ok →
      ¬ ((r, h) = (res, header') ∧ res.status = .ok) := fun hne h => refused_ne h.2 hne h.1
  by_cases hfits : fin - cur ≤ HTTP_MAX_HEADER_VALUE_LEN - 1
  · rw [if_neg (fun h => hlong.mp h hfits), if_neg (Nat.not_lt.mpr hcur)]
    by_cases hall : (owsTrim (range buf cur fin)).all isFieldContentByte = true
    · rw [if_pos hall]
      constructor
      · rintro ⟨h, -⟩
        obtain ⟨rfl, rfl⟩ := Prod.mk.inj h
        exact ⟨hfits, hall, rfl, rfl⟩
      · rintro ⟨-, -, rfl, rfl⟩
        exact ⟨rfl, rfl⟩
    · rw [if_neg hall]
      exact iff_of_false (stops (by simp [parseErrorSet])) fun h => hall h.2.1
  · rw [if_pos (hlong.mpr hfits)]
    exact iff_of_false (stops (by simp [parseErrorSet])) fun h => hfits h.1

theorem headerKeyLoop_refuses {start pos : ℕ} {key : Bytes} {e : ParseStatus × ℕ}
    (h : headerKeyLoop start pos bs key = .error e) : e.1 ≠ .ok := by
  induction bs generalizing pos key with
  | nil => cases h
  | cons c bs ih =>
    simp only [headerKeyLoop] at h
    split at h
    · cases h
      simp
    · split at h
      · cases h
        simp
      · exact ih h

/-- A key up to its colon. -/
theorem headerKeyParse_ok_iff (header : Header) {header' : Header} {res : ParseResult}
    (hfin : fin ≤ buf.length) :
    headerKeyParse buf cur fin header = (res, header') ∧ res.status = .ok ↔
      (isToken (range buf cur fin) = true ∧ byteAt buf fin = 58) ∧
        (range buf cur fin).length ≤ HTTP_MAX_HEADER_KEY_LEN - 1 ∧
        header' = { header with key := range buf cur fin } ∧
        res = { errorPosition := some cur, next := some (fin + 1) } := by
  have hlen : (range buf cur fin).length = fin - cur := length_range hfin
  have stops : ∀ {r : ParseResult} {h : Header}, r.status ≠ .ok →
      ¬ ((r, h) = (res, header') ∧ res.status = .ok) := fun hne h => refused_ne h.2 hne h.1
  unfold headerKeyParse
  dsimp only
  split
  · next hno =>
    refine iff_of_false (stops (by simp [parseErrorSet])) ?_
    rintro ⟨⟨htoken, hcolon⟩, -⟩
    have hempty : (range buf cur fin) = [] := by
      rw [hcolon, show isColon 58 = true from rfl, Bool.not_true, Bool.or_false,
        decide_eq_true_eq] at hno
      exact range_of_le hno
    rw [hempty] at htoken
    cases htoken
  · next hyes =>
    simp only [Bool.or_eq_true, decide_eq_true_eq, Bool.not_eq_true', not_or, Bool.not_eq_false] at hyes
    have hcolon : byteAt buf fin = 58 := beq_iff_eq.mp hyes.2
    have htoken : isToken (range buf cur fin) = (range buf cur fin).all isTchar := by
      have hne : (range buf cur fin).isEmpty = false := by
        rw [range_cons (by omega) hfin]
        rfl
      rw [isToken, hne, Bool.not_false, Bool.true_and]
    have hloop : ∀ key, headerKeyLoop cur cur (range buf cur fin) [] = .ok key ↔
        (range buf cur fin).all isTchar = true ∧
          (range buf cur fin).length ≤ HTTP_MAX_HEADER_KEY_LEN - 1 ∧
          key = range buf cur fin := by
      intro key
      rw [headerKeyLoop_ok_iff cur cur (range buf cur fin) [] (Nat.zero_le _), List.length_nil,
        Nat.zero_add, List.nil_append]
    rw [htoken]
    cases hscan : headerKeyLoop cur cur (range buf cur fin) [] with
    | error e =>
      have hrefuses := headerKeyLoop_refuses hscan
      refine iff_of_false (stops hrefuses) fun h => ?_
      have hok := (hloop _).mpr ⟨h.1.1, h.2.1, rfl⟩
      rw [hscan] at hok
      cases hok
    | ok key =>
      obtain ⟨hall, hfits, rfl⟩ := (hloop key).mp hscan
      constructor
      · rintro ⟨h, -⟩
        obtain ⟨rfl, rfl⟩ := Prod.mk.inj h
        exact ⟨⟨hall, hcolon⟩, hfits, rfl, rfl⟩
      · rintro ⟨-, -, rfl, rfl⟩
        exact ⟨rfl, rfl⟩

theorem headerValueParse_of_lt (buf : Bytes) (header : Header) (h : fin < cur) :
    (headerValueParse buf cur fin header).1.status ≠ .ok := by
  unfold headerValueParse
  dsimp only
  split
  · simp [parseErrorSet]
  · simp [parseErrorSet]

theorem isToken_colon {key : Bytes} (h : isToken key = true) : 58 ∉ key := by
  intro hmem
  rw [isToken, Bool.and_eq_true, List.all_eq_true] at h
  exact absurd (h.2 58 hmem) (by decide)

/-- A colon with a key before it and a value behind it splits the range. -/
theorem range_colon {colon : ℕ} (hcur : cur ≤ colon) (hlt : colon < fin) (hfin : fin ≤ buf.length)
    (hcolon : byteAt buf colon = 58) :
    range buf cur fin = range buf cur colon ++ [58] ++ range buf (colon + 1) fin := by
  rw [range_append hcur hlt.le, range_cons hlt hfin, hcolon, List.append_assoc,
    List.singleton_append]

theorem headerLineParse_ok_iff (headers : List Header) {headers' : List Header} {res : ParseResult}
    (hcur : cur ≤ fin) (hfin : fin ≤ buf.length) :
    (headerLineParse buf cur fin headers = (res, headers') ∧ res.status = .ok) ↔
      ∃ header, HeaderLine (range buf cur fin) header ∧ headers.length < HTTP_MAX_HEADERS ∧
        headers' = headers ++ [header] ∧
        res = { errorPosition := some (cur + header.key.length + 1), next := some fin } := by
  have hcolonLe := colonFind_le buf hcur
  have hcurColon : cur ≤ colonFind buf cur fin := Nat.le_add_right _ _
  constructor
  · rintro ⟨h, hok⟩
    unfold headerLineParse at h
    split at h
    · exact absurd h (refused_ne hok (by simp [parseErrorSet]))
    · generalize hkey : headerKeyParse buf cur (colonFind buf cur fin) {} = keyRes at h
      obtain ⟨keyRes, header₁⟩ := keyRes
      dsimp only at h
      generalize hvalue : headerValueParse buf (keyRes.next.getD 0) fin header₁ = valueRes at h
      obtain ⟨valueRes, header₂⟩ := valueRes
      dsimp only at h
      split at h
      · next hne => exact absurd h (refused_ne hok hne)
      · next hkeyOk =>
        split at h
        · next hne => exact absurd h (refused_ne hok hne)
        · next hvalueOk =>
          split at h
          · exact absurd h (refused_ne hok (by simp [parseErrorSet]))
          · next hfew =>
            obtain ⟨⟨htoken, hcolon⟩, hkeyFits, rfl, rfl⟩ :=
              (headerKeyParse_ok_iff _ (hcolonLe.trans hfin)).mp ⟨hkey, not_not.mp hkeyOk⟩
            rw [Option.getD_some] at hvalue
            have hlt : colonFind buf cur fin < fin := by
              by_contra hge
              refine hvalueOk ?_
              have hrefuses := headerValueParse_of_lt buf
                { key := range buf cur (colonFind buf cur fin) }
                (Nat.lt_succ_of_le (Nat.not_lt.mp hge))
              rwa [hvalue] at hrefuses
            obtain ⟨hvalueFits, hcontent, rfl, rfl⟩ :=
              (headerValueParse_ok_iff _ (Nat.succ_le_of_lt hlt) hfin).mp
                ⟨hvalue, not_not.mp hvalueOk⟩
            obtain ⟨rfl, rfl⟩ := Prod.mk.inj h
            refine ⟨_, ⟨⟨_, range_colon hcurColon hlt hfin hcolon, hvalueFits, rfl⟩, htoken,
              hkeyFits, hcontent⟩, Nat.not_le.mp hfew, rfl, ?_⟩
            have hkeyLen : cur + (range buf cur (colonFind buf cur fin)).length =
                colonFind buf cur fin := by
              rw [length_range (hcolonLe.trans hfin)]
              omega
            rw [hkeyLen]
  · rintro ⟨header, ⟨⟨raw, hsplit, hraw, hvalue⟩, htoken, hkeyFits, hcontent⟩, hfew, rfl, rfl⟩
    obtain ⟨key, value⟩ := header
    dsimp only at hsplit hraw hvalue htoken hkeyFits hcontent
    rw [List.append_assoc, List.singleton_append] at hsplit
    have hcolon := colonFind_eq hsplit (isToken_colon htoken)
    obtain ⟨hkeyRange, hrest, hle⟩ := range_split hfin hcur hsplit
    have hlt : cur + key.length < fin := by
      by_contra hge
      rw [range_of_le (Nat.not_lt.mp hge)] at hrest
      cases hrest
    have hbyte := byteAt_range_head hlt hfin hrest
    have hrawRange : range buf (cur + key.length + 1) fin = raw := by
      rw [range_cons hlt hfin] at hrest
      exact (List.cons.inj hrest).2
    have hkey := (headerKeyParse_ok_iff {} (hle.trans hfin)).mpr
      ⟨⟨hkeyRange.symm ▸ htoken, hbyte⟩, hkeyRange.symm ▸ hkeyFits, rfl, rfl⟩
    have hval := (headerValueParse_ok_iff { key := key } (Nat.succ_le_of_lt hlt)
      hfin).mpr ⟨hrawRange.symm ▸ hraw, by rw [hrawRange, ← hvalue]; exact hcontent, rfl, rfl⟩
    rw [hrawRange, ← hvalue] at hval
    rw [hkeyRange] at hkey
    unfold headerLineParse
    rw [if_neg (by omega), hcolon]
    simp only [hkey.1, Option.getD_some, ne_eq, not_true_eq_false, if_false, hval.1,
      Nat.not_le.mpr hfew, and_self]

/-! ## The whole head -/

theorem mem_owsTrim {c : Byte} (h : c ∈ raw) (hc : isOws c = false) : c ∈ owsTrim raw := by
  have hleft : c ∈ raw.dropWhile isOws := by
    rw [← List.takeWhile_append_dropWhile (p := isOws) (l := raw)] at h
    refine (List.mem_append.mp h).resolve_left fun hmem => ?_
    rw [List.mem_takeWhile_imp hmem] at hc
    cases hc
  have hright : c ∈ (raw.dropWhile isOws).reverse.dropWhile isOws := by
    rw [← List.mem_reverse, ← List.takeWhile_append_dropWhile (p := isOws)
      (l := (raw.dropWhile isOws).reverse)] at hleft
    refine (List.mem_append.mp hleft).resolve_left fun hmem => ?_
    rw [List.mem_takeWhile_imp hmem] at hc
    cases hc
  exact List.mem_reverse.mpr hright

theorem HeaderLine.cr_not_mem {header : Header} (h : HeaderLine line header) : CR ∉ line := by
  obtain ⟨raw, rfl, -, hvalue⟩ := h.split
  have hkey := h.key
  have hcontent := h.value
  rw [isToken, Bool.and_eq_true, List.all_eq_true] at hkey
  rw [List.all_eq_true, hvalue] at hcontent
  intro hmem
  rcases List.mem_append.mp hmem with hmem | hmem
  · rcases List.mem_append.mp hmem with hmem | hmem
    · exact absurd (hkey.2 _ hmem) (by decide)
    · exact absurd hmem (by decide)
  · exact absurd (hcontent _ (mem_owsTrim hmem (by decide))) (by decide)

theorem HeaderLine.ne_nil {header : Header} (h : HeaderLine line header) : line ≠ [] := by
  obtain ⟨raw, rfl, -⟩ := h.split
  simp

theorem RequestLine.cr_not_mem {parsed : HttpRequestLine} (h : RequestLine line parsed) :
    CR ∉ line := by
  have htarget : CR ∉ parsed.path ++ parsed.query := by
    have hbytes := h.target.bytes
    generalize parsed.path ++ parsed.query = target at hbytes
    induction hbytes with
    | nil => simp
    | @char c rest hvchar hfragment hpercent hbytes ih =>
      intro hmem
      rcases List.mem_cons.mp hmem with rfl | hmem
      · exact absurd hvchar (by decide)
      · exact ih hmem
    | @escape h₁ h₂ rest hex₁ hex₂ hbytes ih =>
      intro hmem
      simp only [List.mem_cons] at hmem
      rcases hmem with hmem | rfl | rfl | hmem
      · exact absurd hmem (by decide)
      · exact absurd hex₁ (by decide)
      · exact absurd hex₂ (by decide)
      · exact ih hmem
  have hmethod : CR ∉ httpMethodShow parsed.method := by
    cases parsed.method <;> decide
  have hversion : CR ∉ parsed.version := by
    have hall : ∀ v ∈ requestVersions, CR ∉ v := by decide
    exact hall _ h.version
  rw [h.split]
  simp only [List.mem_append, List.mem_singleton, not_or]
  exact ⟨⟨⟨⟨hmethod, by decide⟩, by simpa using htarget⟩, by decide⟩, hversion⟩

/-- Accepted header lines are lines of the grammar, in order. -/
theorem requestParseLoop_sound {fuel : ℕ} {headerRes res : ParseResult}
    {headers headers' : List Header} (hcur : cur ≤ fin) (hfin : fin ≤ buf.length)
    (hpos : headerRes.errorPosition = none)
    (h : requestParseLoop buf fin fuel cur headerRes headers = (res, headers'))
    (hok : res.status = .ok) :
    ∃ n parsed, cur ≤ n ∧ n ≤ fin ∧ HeaderLines (range buf cur n) parsed ∧
      headers' = headers ++ parsed ∧ (headers.length ≤ HTTP_MAX_HEADERS →
        headers'.length ≤ HTTP_MAX_HEADERS) ∧ res = { next := some n } := by
  induction fuel generalizing cur headerRes headers with
  | zero =>
    rw [requestParseLoop] at h
    rw [← (Prod.mk.inj h).1] at hok
    cases hok
  | succ fuel ih =>
    rw [requestParseLoop] at h
    dsimp only at h
    split at h
    · next heol =>
      obtain ⟨hroom, hcrlf⟩ := (crlfParse_ok_iff hfin).mp heol
      obtain ⟨rfl, rfl⟩ := Prod.mk.inj h
      refine ⟨cur + 2, [], by omega, hroom, hcrlf ▸ .blank, (List.append_nil _).symm,
        fun hfew => hfew, ?_⟩
      rw [hpos, crlfParse_of_ok heol]
    · generalize hline : headerLineParse buf cur (crlfFind buf cur fin) headers = lineRes at h
      obtain ⟨lineRes, headers₁⟩ := lineRes
      dsimp only at h
      split at h
      · next hne =>
        rw [← (Prod.mk.inj h).1] at hok
        exact absurd hok hne
      · next hlineOk =>
        have hend := le_crlfFind buf cur fin
        have hendLe := crlfFind_le buf hcur
        obtain ⟨header, hgrammar, hfew, rfl, rfl⟩ :=
          (headerLineParse_ok_iff headers hend (hendLe.trans hfin)).mp ⟨hline, not_not.mp hlineOk⟩
        rw [Option.getD_some] at h
        split at h
        · next hne =>
          rw [← (Prod.mk.inj h).1] at hok
          exact absurd hok hne
        · next hcrlfOk =>
          have hcrlfOk := not_not.mp hcrlfOk
          obtain ⟨hroom, hcrlf⟩ := (crlfParse_ok_iff hfin).mp hcrlfOk
          rw [crlfParse_of_ok hcrlfOk] at h
          obtain ⟨n, parsed, hle, hn, hlines, rfl, hcount, rfl⟩ := ih hroom rfl h
          refine ⟨n, header :: parsed, by omega, hn, ?_, by simp, ?_, rfl⟩
          · rw [range_append (Nat.le_add_right_of_le hend : cur ≤ crlfFind buf cur fin + 2) hle,
              range_append hend (Nat.le_add_right _ 2), hcrlf]
            exact .line hgrammar hlines
          · intro _
            refine hcount ?_
            rw [List.length_append, List.length_singleton]
            omega

/-- Lines of the grammar are accepted, wherever they stand. -/
theorem requestParseLoop_complete {fields : Bytes} {parsed : List Header}
    (hlines : HeaderLines fields parsed) {fuel : ℕ} {headerRes : ParseResult}
    {headers : List Header} (hfin : fin ≤ buf.length) (hle : cur + fields.length ≤ fin)
    (hrange : range buf cur (cur + fields.length) = fields)
    (hpos : headerRes.errorPosition = none) (hfuel : fields.length < fuel)
    (hfew : headers.length + parsed.length ≤ HTTP_MAX_HEADERS) :
    requestParseLoop buf fin fuel cur headerRes headers =
      ({ next := some (cur + fields.length) }, headers ++ parsed) := by
  induction hlines generalizing cur fuel headerRes headers with
  | blank =>
    obtain ⟨fuel, rfl⟩ : ∃ k, fuel = k + 1 := ⟨fuel - 1, by omega⟩
    have heol : (crlfParse buf cur fin).status = .ok := (crlfParse_ok_iff hfin).mpr ⟨hle, hrange⟩
    rw [requestParseLoop]
    dsimp only
    rw [if_pos heol, crlfParse_of_ok heol, hpos, List.append_nil]
    rfl
  | @line line header rest parsed hline hlines ih =>
    obtain ⟨fuel, rfl⟩ : ∃ k, fuel = k + 1 := ⟨fuel - 1, by omega⟩
    rw [List.length_append, List.length_append, CRLF_length] at hle hrange hfuel ⊢
    rw [List.length_cons] at hfew
    have hlt : cur < fin := by omega
    have hsplit : range buf cur fin =
        line ++ CRLF ++ (rest ++ range buf (cur + (line.length + 2 + rest.length)) fin) := by
      rw [range_append (Nat.le_add_right cur _) hle, hrange, List.append_assoc]
    have hfind := crlfFind_eq hline.cr_not_mem hsplit
    rw [List.append_assoc] at hsplit
    obtain ⟨hlineRange, hbehind, -⟩ := range_split hfin hlt.le hsplit
    obtain ⟨hcrlf, hrest, -⟩ := range_split hfin (by omega) hbehind
    obtain ⟨hrestRange, -⟩ := range_split hfin (by rw [CRLF_length]; omega) hrest
    rw [CRLF_length] at hcrlf hrestRange
    have heol : ¬ (crlfParse buf cur fin).status = .ok := by
      intro hok
      obtain ⟨hroom, hblank⟩ := (crlfParse_ok_iff hfin).mp hok
      have hfirst := byteAt_range_head (by omega) (hroom.trans hfin) hblank
      obtain ⟨c, t, rfl⟩ := List.exists_cons_of_ne_nil hline.ne_nil
      have hc := byteAt_range_head (by rw [List.length_cons]; omega) (by omega) hlineRange
      exact hline.cr_not_mem (hfirst ▸ hc ▸ List.mem_cons_self ..)
    have hparse := (headerLineParse_ok_iff headers (Nat.le_add_right cur line.length)
      (by omega : cur + line.length ≤ buf.length)).mpr
      ⟨header, hlineRange.symm ▸ hline, by omega, rfl, rfl⟩
    have hend : (crlfParse buf (cur + line.length) fin).status = .ok :=
      (crlfParse_ok_iff hfin).mpr ⟨by omega, hcrlf⟩
    have hnext : requestParseLoop buf fin fuel (cur + line.length + 2)
        { next := some (cur + line.length + 2) } (headers ++ [header]) =
        ({ next := some (cur + line.length + 2 + rest.length) }, headers ++ [header] ++ parsed) := by
      refine ih (by omega) hrestRange rfl (by omega) ?_
      rw [List.length_append, List.length_singleton]
      omega
    rw [requestParseLoop]
    simp only [if_neg heol, hfind, hparse.1, Option.getD_some, ne_eq, not_true_eq_false, if_false,
      crlfParse_of_ok hend, hnext]
    rw [List.append_assoc, List.singleton_append]
    congr 3
    omega

/-- White space at the end of the buffer does not reach into a part that ends with `LF`. -/
theorem le_owsTrimTrailing {pre : Bytes} (h : pre ++ [LF] <+: buf) :
    pre.length + 1 ≤ owsTrimTrailing buf 0 buf.length := by
  obtain ⟨tail, rfl⟩ := h
  have hrange : range (pre ++ [LF] ++ tail) 0 (pre ++ [LF] ++ tail).length =
      pre ++ [LF] ++ tail := by simp [range]
  rw [owsTrimTrailing, hrange, Nat.zero_add]
  have hkeep : pre ++ [LF] <+: (pre ++ [LF] ++ tail).rdropWhile isOws := by
    induction tail using List.reverseRecOn with
    | nil =>
      rw [List.append_nil, List.rdropWhile_concat_neg _ _ _ (by decide)]
    | append_singleton tail c ih =>
      rw [← List.append_assoc]
      by_cases hc : isOws c = true
      · rw [List.rdropWhile_concat_pos _ _ _ hc]
        exact ih (by simp [range])
      · rw [List.rdropWhile_concat_neg _ _ _ hc, List.append_assoc]
        exact List.prefix_append _ _
  have hlen := hkeep.length_le
  rwa [List.length_append, List.length_singleton] at hlen

/-- The empty line stands behind another line end. -/
theorem HeaderLines.terminated {fields : Bytes} {parsed : List Header}
    (h : HeaderLines fields parsed) : ∃ front, CRLF ++ fields = front ++ (CRLF ++ CRLF) := by
  induction h with
  | blank => exact ⟨[], rfl⟩
  | @line line header rest parsed hline h ih =>
    obtain ⟨front, hfront⟩ := ih
    exact ⟨CRLF ++ line ++ front, by simp only [List.append_assoc, hfront]⟩

theorem RequestHead.terminated {head : Bytes} {req : HttpRequest} (h : RequestHead head req) :
    ∃ front, head = front ++ (CRLF ++ CRLF) := by
  obtain ⟨line, fields, rfl, -, hlines⟩ := h.split
  obtain ⟨front, hfront⟩ := hlines.terminated
  exact ⟨line ++ front, by rw [List.append_assoc, hfront, List.append_assoc]⟩

/-- What is accepted is a head, returned with its end and its parts. -/
theorem requestParse_sound {res : ParseResult} {req : HttpRequest}
    (h : requestParse buf {} = (res, req)) (hok : res.status = .ok) :
    ∃ n, n ≤ buf.length ∧ RequestHead (buf.take n) req ∧ res = { next := some n } := by
  have hfin := owsTrimTrailing_le buf (Nat.zero_le buf.length)
  unfold requestParse at h
  dsimp only at h
  generalize owsTrimTrailing buf 0 buf.length = fin at hfin h
  have hendLe := crlfFind_le buf (Nat.zero_le fin)
  generalize hline : requestLineParse buf 0 (crlfFind buf 0 fin) {} = lineRes at h
  obtain ⟨lineRes, line⟩ := lineRes
  dsimp only at h
  split at h
  · next hne => exact absurd h (refused_ne hok hne)
  · next hlineOk =>
    obtain ⟨hgrammar, rfl⟩ := (requestLineParse_ok_iff {} (Nat.zero_le _) (hendLe.trans hfin)).mp
      ⟨hline, not_not.mp hlineOk⟩
    rw [Option.getD_some] at h
    split at h
    · next hne => exact absurd h (refused_ne hok hne)
    · next hcrlfOk =>
      have hcrlfOk := not_not.mp hcrlfOk
      obtain ⟨hroom, hcrlf⟩ := (crlfParse_ok_iff hfin).mp hcrlfOk
      rw [crlfParse_of_ok hcrlfOk, Option.getD_some] at h
      generalize hloop : requestParseLoop buf fin (buf.length + 1) (crlfFind buf 0 fin + 2) {}
        [] = headerRes at h
      obtain ⟨headerRes, headers⟩ := headerRes
      obtain ⟨rfl, rfl⟩ := Prod.mk.inj h
      obtain ⟨n, parsed, hle, hn, hlines, rfl, hfew, rfl⟩ :=
        requestParseLoop_sound hroom hfin rfl hloop hok
      refine ⟨n, hn.trans hfin, ⟨⟨_, _, ?_, hgrammar, hlines⟩, hfew (Nat.zero_le _), rfl, rfl⟩, rfl⟩
      have htake : buf.take n = range buf 0 n := List.drop_zero.symm
      rw [htake, range_append (Nat.zero_le _) hle,
        range_append (Nat.zero_le (crlfFind buf 0 fin)) (Nat.le_add_right _ 2), hcrlf]

theorem requestParse_complete {req : HttpRequest} (hn : n ≤ buf.length)
    (h : RequestHead (buf.take n) req) : requestParse buf {} = ({ next := some n }, req) := by
  obtain ⟨front, hfront⟩ := h.terminated
  have hfin := owsTrimTrailing_le buf (Nat.zero_le buf.length)
  have hnFin : n ≤ owsTrimTrailing buf 0 buf.length := by
    have hends : buf.take n = front ++ CRLF ++ [CR] ++ [LF] := by
      rw [hfront]
      simp [CRLF]
    have hle := le_owsTrimTrailing (hends ▸ List.take_prefix n buf)
    have hlen := congrArg List.length hends
    rw [List.length_take, Nat.min_eq_left hn, List.length_append, List.length_singleton] at hlen
    omega
  obtain ⟨⟨line, fields, hsplit, hline, hlines⟩, hfew, hbody, hbodyLen⟩ := h
  have htake : buf.take n = range buf 0 n := List.drop_zero.symm
  unfold requestParse
  dsimp only
  generalize owsTrimTrailing buf 0 buf.length = fin at hfin hnFin
  have hsplitFin : range buf 0 fin = line ++ CRLF ++ (fields ++ range buf n fin) := by
    rw [range_append (Nat.zero_le n) hnFin, ← htake, hsplit, List.append_assoc]
  have hfind := crlfFind_eq hline.cr_not_mem hsplitFin
  rw [List.append_assoc] at hsplitFin
  obtain ⟨hlineRange, hbehind, hle⟩ := range_split hfin (Nat.zero_le fin) hsplitFin
  obtain ⟨hcrlf, hrest, hle₂⟩ := range_split hfin hle hbehind
  obtain ⟨hfields, -, hle₃⟩ := range_split hfin hle₂ hrest
  rw [Nat.zero_add] at hfind hlineRange hle hcrlf hle₂ hfields hle₃
  rw [CRLF_length] at hcrlf hfields hle₂ hle₃
  have hlen : n = line.length + 2 + fields.length := by
    have hlen := congrArg List.length hsplit
    rw [List.length_take, Nat.min_eq_left hn, List.length_append, List.length_append,
      CRLF_length] at hlen
    exact hlen
  obtain ⟨hparse, -⟩ := (requestLineParse_ok_iff {} (Nat.zero_le line.length)
    (hle.trans hfin)).mpr ⟨hlineRange.symm ▸ hline, rfl⟩
  have hend : (crlfParse buf line.length fin).status = .ok :=
    (crlfParse_ok_iff hfin).mpr ⟨hle₂, hcrlf⟩
  have hloop : requestParseLoop buf fin (buf.length + 1) (line.length + 2) {} [] =
      ({ next := some (line.length + 2 + fields.length) }, [] ++ req.headers) :=
    requestParseLoop_complete hlines hfin hle₃ hfields rfl (by omega) (by simpa using hfew)
  simp only [hfind, hparse, Option.getD_some, ne_eq, not_true_eq_false, if_false,
    crlfParse_of_ok hend, hloop, List.nil_append]
  obtain ⟨requestLine, headers, body, bodyLen⟩ := req
  obtain rfl : body = none := hbody
  obtain rfl : bodyLen = 0 := hbodyLen
  rw [hlen]

theorem requestParse_grammar (buf : Bytes) :
    ((requestParse buf {}).1.status = .ok ↔
      ∃ head rest req, buf = head ++ rest ∧ RequestHead head req) ∧
    ∀ n req, requestParse buf {} = ({ next := some n }, req) ↔
      ∃ head rest, buf = head ++ rest ∧ RequestHead head req ∧ n = head.length := by
  have complete : ∀ head rest req, buf = head ++ rest → RequestHead head req →
      requestParse buf {} = ({ next := some head.length }, req) := by
    rintro head rest req rfl h
    refine requestParse_complete (by simp) ?_
    rwa [List.take_left]
  have sound : ∀ res req, requestParse buf {} = (res, req) → res.status = .ok →
      ∃ head rest, buf = head ++ rest ∧ RequestHead head req ∧
        res = { next := some head.length } := by
    intro res req h hok
    obtain ⟨n, hn, hhead, rfl⟩ := requestParse_sound h hok
    refine ⟨_, _, (List.take_append_drop n buf).symm, hhead, ?_⟩
    rw [List.length_take, Nat.min_eq_left hn]
  constructor
  · constructor
    · intro hok
      generalize hparse : requestParse buf {} = parsed at hok
      obtain ⟨head, rest, hsplit, hhead, -⟩ := sound parsed.1 parsed.2 hparse hok
      exact ⟨head, rest, _, hsplit, hhead⟩
    · rintro ⟨head, rest, req, hsplit, hhead⟩
      rw [complete head rest req hsplit hhead]
  · intro n req
    constructor
    · intro h
      obtain ⟨head, rest, hsplit, hhead, hres⟩ := sound _ _ h rfl
      exact ⟨head, rest, hsplit, hhead, by simpa using hres⟩
    · rintro ⟨head, rest, hsplit, hhead, rfl⟩
      exact complete head rest req hsplit hhead

end HttpServer
