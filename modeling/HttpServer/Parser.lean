import HttpServer.Types
import HttpServer.PatternSearch
import Mathlib.Data.List.DropRight

/-!
# Byte-level helpers and number parsing

The functions of `parser.c` and `ParseResult.c`. A half-open pointer range
`[cur, end)` into a buffer is the pair of offsets together with the buffer;
`range` lists its bytes. `size_t` arithmetic that can wrap is reduced modulo
`2 ^ 64`.
-/

namespace HttpServer

/-- The bytes of `[cur, fin)`. -/
def range (buf : Bytes) (cur fin : ℕ) : Bytes := (buf.take fin).drop cur

/-- `*p`. A byte past the received ones reads as `NUL`. -/
def byteAt (buf : Bytes) (p : ℕ) : Byte := buf.getD p 0

def wrap (n : ℕ) : ℕ := n % 2 ^ 64

def wrapSub (a b : ℕ) : ℕ := (a + 2 ^ 64 - b) % 2 ^ 64

/-! ## parser.c -/

/-- Returns `fin` when no CRLF is found. -/
def crlfFind (buf : Bytes) (cur fin : ℕ) : ℕ := cur + PatternSearch.find CRLF (range buf cur fin)

def isCrlf (buf : Bytes) (cur : ℕ) : Bool := byteAt buf cur == CR && byteAt buf (cur + 1) == LF

def isOws (c : Byte) : Bool := c == SP || c == HTAB

def isColon (c : Byte) : Bool := c == 58

/-- Returns `fin` when no colon is found. -/
def colonFind (buf : Bytes) (cur fin : ℕ) : ℕ := cur + (range buf cur fin).findIdx isColon

def owsSkip (buf : Bytes) (cur fin : ℕ) : ℕ := cur + ((range buf cur fin).takeWhile isOws).length

def owsTrimTrailing (buf : Bytes) (start fin : ℕ) : ℕ :=
  start + ((range buf start fin).rdropWhile isOws).length

def isDigit (c : Byte) : Bool := 48 ≤ c && c ≤ 57

def isUpper (c : Byte) : Bool := 65 ≤ c && c ≤ 90

def isLower (c : Byte) : Bool := 97 ≤ c && c ≤ 122

def isAlnum (c : Byte) : Bool := isDigit c || isUpper c || isLower c

def toLower (c : Byte) : Byte := if isUpper c then c + 32 else c

def isHex (c : Byte) : Bool := isDigit c || (97 ≤ c && c ≤ 102) || (65 ≤ c && c ≤ 70)

def isTchar (c : Byte) : Bool :=
  (ascii "!#$%&'*+-.^_`|~").contains c || isAlnum c

def isToken (token : Bytes) : Bool := !token.isEmpty && token.all isTchar

def isVchar (c : Byte) : Bool := 0x21 ≤ c && c ≤ 0x7e

def isFieldContentByte (c : Byte) : Bool := isOws c || isVchar c || 0x80 ≤ c

def asciiIeq : Bytes → Bytes → Bool
  | a :: as, b :: bs => toLower a == toLower b && asciiIeq as bs
  | [], [] => true
  | _, _ => false

def strEndsWith (str suffix : Bytes) : Bool :=
  suffix.length ≤ str.length && str.drop (str.length - suffix.length) == suffix

/-- `memchr`: the first occurrence of `c` in `[cur, fin)`. -/
def memchr (buf : Bytes) (cur fin : ℕ) (c : Byte) : Option ℕ :=
  let i := (range buf cur fin).findIdx (· == c)
  if i < (range buf cur fin).length then some (cur + i) else none

/-- `memcmp(p, s, strlen(s)) == 0`. -/
def memEq (buf : Bytes) (p : ℕ) (s : Bytes) : Bool := (buf.drop p).take s.length == s

/-- `memmem` with a non-empty needle: the offset of the first occurrence. -/
def memmem (hay needle : Bytes) : Option ℕ :=
  let i := PatternSearch.find needle hay
  if i < hay.length then some i else none

/-! ## ParseResult.c -/

def parseErrorSet (res : ParseResult) (status : ParseStatus) (pos : ℕ) : ParseResult :=
  { res with status := status, errorPosition := some pos }

/-- `none` stands for the result `-1`. -/
def digitValue (c : Byte) (base : ℕ) : Option ℕ :=
  let v : Option ℕ :=
    if 48 ≤ c && c ≤ 57 then some (c.toNat - 48)
    else if 97 ≤ c && c ≤ 102 then some (10 + (c.toNat - 97))
    else if 65 ≤ c && c ≤ 70 then some (10 + (c.toNat - 65))
    else none
  v.bind fun v => if v < base then some v else none

/-- The digit loop of `uint_parse`, from the value accumulated so far. -/
def uintParseLoop (base max : ℕ) : ℕ → Bytes → ParseStatus × Option ℕ
  | result, [] => (.ok, some result)
  | result, c :: s =>
    match digitValue c base with
    | none => (.badRequest, none)
    | some digit =>
      if result > wrapSub max digit / base then (.payloadTooLarge, none)
      else uintParseLoop base max (wrap (wrap (result * base) + digit)) s

/-- The second component is the value stored through `out`, `none` when it is untouched. -/
def uintParse (s : Bytes) (base max : ℕ) : ParseStatus × Option ℕ :=
  if s.length = 0 || byteAt s 0 == 0 then (.badRequest, none) else uintParseLoop base max 0 s

end HttpServer
