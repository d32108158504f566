import HttpServer.Parser

/-!
# HTTP dates

`gmtime`, `timegm` and the C-locale `strftime` and `strptime` for the one format
the server uses, `%a, %d %b %Y %H:%M:%S GMT`, and the functions of
`ParseResult.c` over them. Times are seconds since the epoch.
-/

namespace HttpServer

/-- Decimal digits of a number, as `%zu` prints them. -/
def showNat (n : ℕ) : Bytes := (Nat.toDigits 10 n).map fun c => c.val.toUInt8

/-- `%d`. -/
def showInt (n : ℤ) : Bytes := if n < 0 then 45 :: showNat n.natAbs else showNat n.natAbs

/-- `%zx`. -/
def showHex (n : ℕ) : Bytes := (Nat.toDigits 16 n).map fun c => c.val.toUInt8

def showTwo (n : ℤ) : Bytes := showNat (n / 10).toNat ++ showNat (n % 10).toNat

structure Tm where
  sec : ℤ := 0
  min : ℤ := 0
  hour : ℤ := 0
  mday : ℤ := 0
  mon : ℤ := 0
  year : ℤ := 0
  wday : ℤ := 0
  deriving DecidableEq, Repr

def weekdayNames : List Bytes :=
  ["Sunday", "Monday", "Tuesday", "Wednesday", "Thursday", "Friday", "Saturday"].map ascii

def monthNames : List Bytes :=
  ["January", "February", "March", "April", "May", "June", "July", "August", "September",
    "October", "November", "December"].map ascii

/-- Days since the epoch of the first day of a month, months counted from 0. -/
def daysOfMonthStart (year mon : ℤ) : ℤ :=
  let y := if mon ≤ 1 then year - 1 else year
  let era := y / 400
  let yoe := y - era * 400
  let mp := if mon ≤ 1 then mon + 10 else mon - 2
  era * 146097 + (yoe * 365 + yoe / 4 - yoe / 100 + (153 * mp + 2) / 5) - 719468

def timegm (tm : Tm) : ℤ :=
  (daysOfMonthStart tm.year tm.mon + tm.mday - 1) * 86400 + tm.hour * 3600 + tm.min * 60 + tm.sec

def gmtime (t : ℤ) : Tm :=
  let days := t / 86400
  let secs := t % 86400
  let z := days + 719468
  let era := z / 146097
  let doe := z - era * 146097
  let yoe := (doe - doe / 1460 + doe / 36524 - doe / 146096) / 365
  let doy := doe - (365 * yoe + yoe / 4 - yoe / 100)
  let mp := (5 * doy + 2) / 153
  let mon := if mp < 10 then mp + 2 else mp - 10
  { sec := secs % 60
    min := secs / 60 % 60
    hour := secs / 3600
    mday := doy - (153 * mp + 2) / 5 + 1
    mon := mon
    year := yoe + era * 400 + if mon ≤ 1 then 1 else 0
    wday := (days + 4) % 7 }

/-- The years that `tm_year`, an `int` that counts from 1900, can hold. -/
def YearFits (t : ℤ) : Prop := -2 ^ 31 ≤ (gmtime t).year - 1900 ∧ (gmtime t).year - 1900 < 2 ^ 31

instance (t : ℤ) : Decidable (YearFits t) := instDecidableAnd

/-- What `gmtime` and `gmtime_r` return: for other years they fail. Neither `response_serialize` nor
`http_date_format` looks at that, so `gmtime` alone says nothing of the code there. -/
def gmtimeR (t : ℤ) : Option Tm := if YearFits t then some (gmtime t) else none

/-- The text of `HTTP_DATE_FMT`. -/
def strftimeHttp (tm : Tm) : Bytes :=
  (weekdayNames.getD tm.wday.toNat []).take 3 ++ ascii ", " ++ showTwo tm.mday ++ [SP] ++
    (monthNames.getD tm.mon.toNat []).take 3 ++ [SP] ++ showInt tm.year ++ [SP] ++
    showTwo tm.hour ++ [58] ++ showTwo tm.min ++ [58] ++ showTwo tm.sec ++ ascii " GMT"

/-! ## strptime -/

def isSpace (c : Byte) : Bool := c == SP || (9 ≤ c && c ≤ 13)

/-- A literal byte of the format. -/
def scanByte (c : Byte) : Bytes → Option Bytes
  | b :: s => if b = c then some s else none
  | [] => none

/-- A name from a table, in full or by its first three letters, in any case. -/
def scanName (names : List Bytes) (s : Bytes) : Option (ℕ × Bytes) :=
  let hit (name : Bytes) : Bool := asciiIeq (s.take name.length) name
  (names.zipIdx.findSome? fun (name, i) =>
    if hit name then some (i, s.drop name.length)
    else if hit (name.take 3) then some (i, s.drop 3)
    else none)

/-- The digit loop of a numeric conversion: at most `n` further digits while the value can
still grow below `hi`. -/
def scanDigits (hi : ℕ) : ℕ → ℕ → Bytes → ℕ × Bytes
  | n + 1, val, c :: s =>
    if val * 10 ≤ hi && isDigit c then scanDigits hi n (val * 10 + (c.toNat - 48)) s
    else (val, c :: s)
  | _, val, s => (val, s)

def scanNumber (lo hi n : ℕ) (s : Bytes) : Option (ℕ × Bytes) :=
  match s.dropWhile (· == SP) with
  | c :: s =>
    if !isDigit c then none
    else
      let (val, s) := scanDigits hi (n - 1) (c.toNat - 48) s
      if val < lo || hi < val then none else some (val, s)
  | [] => none

def strptimeHttp (s : Bytes) : Option Tm := do
  let (wday, s) ← scanName weekdayNames s
  let s ← scanByte 44 s
  let (mday, s) ← scanNumber 1 31 2 (s.dropWhile isSpace)
  let (mon, s) ← scanName monthNames (s.dropWhile isSpace)
  let (year, s) ← scanNumber 0 9999 4 (s.dropWhile isSpace)
  let (hour, s) ← scanNumber 0 23 2 (s.dropWhile isSpace)
  let s ← scanByte 58 s
  let (min, s) ← scanNumber 0 59 2 s
  let s ← scanByte 58 s
  let (sec, s) ← scanNumber 0 61 2 s
  let s ← scanByte 71 (s.dropWhile isSpace)
  let s ← scanByte 77 s
  let _ ← scanByte 84 s
  pure { sec := sec, min := min, hour := hour, mday := mday, mon := mon, year := year, wday := wday }

def httpDateParse (s : Bytes) : Option ℤ := (strptimeHttp s).map timegm

def httpDateFormat (t : ℤ) : Bytes := strftimeHttp (gmtime t)

example : httpDateFormat 784111777 = ascii "Sun, 06 Nov 1994 08:49:37 GMT" := by decide +kernel

end HttpServer
