import ExpressAuth.Library.Decimal

/-!
# Number conversions of `util.c`

The protocol's lengths and counts and the packed integers of a hash go through `ll2string` and
`string2ll`. Words are 64 bits wide; a buffer is the list of its bytes.
-/

namespace ExpressAuth.Redis

def ULLONG_MAX : UInt64 := 0xffffffffffffffff

def LLONG_MAX : UInt64 := 0x7fffffffffffffff

/-! ### Writing -/

/-- The recursion divides by `10 ^ 12`, so a 64-bit word is finished on the second call. -/
def digits10Loop : ℕ → UInt64 → ℕ
  | 0, _ => 0
  | fuel + 1, v =>
    if v < 10 then 1
    else if v < 100 then 2
    else if v < 1000 then 3
    else if v < 1000000000000 then
      if v < 100000000 then
        if v < 1000000 then
          if v < 10000 then 4
          else 5 + (decide (v ≥ 100000)).toNat
        else 7 + (decide (v ≥ 10000000)).toNat
      else if v < 10000000000 then 9 + (decide (v ≥ 1000000000)).toNat
      else 11 + (decide (v ≥ 100000000000)).toNat
    else 12 + digits10Loop fuel (v / 1000000000000)

def digits10 (v : UInt64) : ℕ := digits10Loop 2 v

/-- The magnitude that `ll2string` computes; `LLONG_MIN` has no negative of its own. -/
def magnitude (v : Int64) : UInt64 :=
  if v < 0 then
    if v ≠ Int64.minValue then (-v).toUInt64 else LLONG_MAX + 1
  else v.toUInt64

/-- The static table of `ll2string`: the two digits of every number below 100. -/
def digitTable : List UInt8 :=
  ("0001020304050607080910111213141516171819" ++
    "2021222324252627282930313233343536373839" ++
    "4041424344454647484950515253545556575859" ++
    "6061626364656667686970717273747576777879" ++
    "8081828384858687888990919293949596979899").toList.map (fun c => UInt8.ofNat c.toNat)

/-- The table's pair for `i`, written to `next - 1` and `next`. -/
def writePair (dst : List UInt8) (next i : ℕ) : List UInt8 :=
  (dst.set next (digitTable.getD (2 * i + 1) 0)).set (next - 1) (digitTable.getD (2 * i) 0)

/-- The loop of `ll2string`; the value shrinks by two digits for each unit of fuel. -/
def ll2stringLoop : ℕ → UInt64 → ℕ → List UInt8 → UInt64 × ℕ × List UInt8
  | 0, value, next, dst => (value, next, dst)
  | fuel + 1, value, next, dst =>
    if value ≥ 100 then
      ll2stringLoop fuel (value / 100) (next - 2) (writePair dst next (value % 100).toNat)
    else (value, next, dst)

/-- The number of characters written and the buffer afterwards. -/
def ll2string (dst : List UInt8) (svalue : Int64) : ℕ × List UInt8 :=
  let negative := decide (svalue < 0)
  let length := digits10 (magnitude svalue) + negative.toNat
  if length ≥ dst.length then (0, dst)
  else
    let (value, next, dst) := ll2stringLoop 10 (magnitude svalue) (length - 1) (dst.set length 0)
    let dst :=
      if value < 10 then dst.set next (0x30 + value.toUInt8) else writePair dst next value.toNat
    (length, if negative then dst.set 0 0x2d else dst)

/-! ### Reading -/

/-- The loop over the digits behind the first one. A byte that is no digit ends it before all bytes
are used, and the conversion fails. -/
def string2llLoop : UInt64 → List UInt8 → Option UInt64
  | v, [] => some v
  | v, c :: p =>
    if 0x30 ≤ c ∧ c ≤ 0x39 then
      if v > ULLONG_MAX / 10 then none
      else if v * 10 > ULLONG_MAX - (c - 0x30).toUInt64 then none
      else string2llLoop (v * 10 + (c - 0x30).toUInt64) p
    else none

/-- The digits behind the sign; `slen` is the length with the sign. -/
def string2llDigits (slen : ℕ) (negative : Bool) : List UInt8 → Option Int64
  | [] => none
  | c :: p =>
    if 0x31 ≤ c ∧ c ≤ 0x39 then
      match string2llLoop (c - 0x30).toUInt64 p with
      | none => none
      | some v =>
        if negative then
          if v > LLONG_MAX + 1 then none else some (-v).toInt64
        else if v > LLONG_MAX then none else some v.toInt64
    else if c = 0x30 ∧ slen = 1 then some 0
    else none

def string2ll (s : List UInt8) : Option Int64 :=
  match s with
  | [] => none
  | c :: p =>
    if s.length = 1 ∧ c = 0x30 then some 0
    else if c = 0x2d then string2llDigits s.length true p
    else string2llDigits s.length false s

end ExpressAuth.Redis
