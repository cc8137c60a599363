import Mathlib.Algebra.Group.Nat.Defs
import Mathlib.Data.Int.Notation
import Mathlib.Data.Nat.Notation

/-!
# The reply parser of the Redis client

`redis-parser/lib/parser.js` with `returnBuffers` and `stringNumbers` off, as the client creates it. A
string is kept as its bytes, before they are decoded as UTF-8. `undefined` is `none`. Numbers are doubles,
rounded after every operation; an overflow to infinity and lengths below -1 are left out.
-/

namespace ExpressAuth.NodeRedis

inductive Value where
  | str (bytes : List UInt8)
  | num (n : ℤ)
  | null
  | error (message : List UInt8)
  | array (elements : List Value)

/-- A whole number as a double holds it: 53 significant bits, and a tie goes to the even neighbour. -/
def toDouble (n : ℤ) : ℤ :=
  let unit := 2 ^ (n.natAbs.log2 + 1 - 53)
  let q := n.natAbs / unit
  let r := n.natAbs % unit
  n.sign * ((if unit < 2 * r ∨ (2 * r = unit ∧ q % 2 = 1) then q + 1 else q) * unit : ℕ)

structure Parser where
  offset : ℕ := 0
  buffer : Option (List UInt8) := none
  bigStrSize : ℕ := 0
  bigOffset : ℕ := 0
  totalChunkSize : ℕ := 0
  bufferCache : List (List UInt8) := []
  /-- The length of the unfinished array and its first `arrayPos` elements. -/
  arrayCache : Option (ℕ × List Value) := none
  /-- What `returnReply` and, for an error, `returnError` were called with. -/
  returned : List Value := []
  /-- Whether `returnFatalError` was called, or the call stack was exhausted. -/
  fatal : Bool := false

namespace Parser

def bytes (p : Parser) : List UInt8 := p.buffer.getD []

def returnReply (p : Parser) (reply : Value) : Parser := { p with returned := p.returned ++ [reply] }

/-- The loop of `parseSimpleNumbers` on the bytes from `offset` on. The last byte of the buffer is never
looked at, so a carriage return counts only when another byte follows it. -/
def parseSimpleNumbersLoop : List UInt8 → ℕ → ℤ → Option (ℤ × ℕ)
  | c1 :: c2 :: rest, offset, number =>
    if c1 = 13 then some (number, offset + 2)
    else parseSimpleNumbersLoop (c2 :: rest) (offset + 1) (toDouble (toDouble (number * 10) + ((c1.toNat : ℤ) - 48)))
  | _, _, _ => none

def parseSimpleNumbers (p : Parser) : Parser × Option ℤ :=
  let negative := p.bytes[p.offset]? = some 45
  let offset := if negative then p.offset + 1 else p.offset
  match parseSimpleNumbersLoop (p.bytes.drop offset) offset 0 with
  | none => (p, none)
  | some (number, offset) => ({ p with offset }, some (if negative then -number else number))

def convertBufferRange (p : Parser) (start stop : ℕ) : Parser × List UInt8 :=
  ({ p with offset := stop + 2 }, (p.bytes.take stop).drop start)

/-- The position of the first carriage return that another byte follows. -/
def parseSimpleStringLoop : List UInt8 → ℕ → Option ℕ
  | c1 :: c2 :: rest, offset =>
    if c1 = 13 then some offset else parseSimpleStringLoop (c2 :: rest) (offset + 1)
  | _, _ => none

def parseSimpleStringViaOffset (p : Parser) : Parser × Option (List UInt8) :=
  match parseSimpleStringLoop (p.bytes.drop p.offset) p.offset with
  | none => (p, none)
  | some stop =>
    let (p, string) := p.convertBufferRange p.offset stop
    (p, some string)

def parseBulkString (p : Parser) : Parser × Option Value :=
  match p.parseSimpleNumbers with
  | (p, none) => (p, none)
  | (p, some length) =>
    if length = -1 then (p, some .null)
    else
      let offsetEnd := p.offset + length.toNat
      if offsetEnd + 2 > p.bytes.length then
        ({ p with
          bigStrSize := offsetEnd + 2
          bigOffset := p.offset
          totalChunkSize := p.bytes.length
          bufferCache := p.bufferCache ++ [p.bytes] }, none)
      else
        let (p, string) := p.convertBufferRange p.offset offsetEnd
        (p, some (.str string))

/-- Resets the buffer; the client drops the connection. -/
def handleError (p : Parser) : Parser := { p with buffer := none, fatal := true }

/-- The loop over the elements, with the number of elements still to come. -/
def parseArrayElements (parseType : Parser → UInt8 → Parser × Option Value) (length : ℕ) :
    ℕ → List Value → Parser → Parser × Option Value
  | 0, responses, p => (p, some (.array responses))
  | count + 1, responses, p =>
    let stuck := fun (p' : Parser) => { p' with arrayCache := some (length, responses), offset := p.offset }
    match p.bytes[p.offset]? with
    | none => (stuck p, none)
    | some type =>
      match parseType { p with offset := p.offset + 1 } type with
      | (p, none) => (stuck p, none)
      | (p, some response) => parseArrayElements parseType length count (responses ++ [response]) p

def parseArray (parseType : Parser → UInt8 → Parser × Option Value) (p : Parser) : Parser × Option Value :=
  match p.parseSimpleNumbers with
  | (p, none) => (p, none)
  | (p, some length) =>
    if length = -1 then (p, some .null)
    else parseArrayElements parseType length.toNat length.toNat [] p

/-- `stack` is the number of nested arrays that the call stack has room for. -/
def parseType : ℕ → Parser → UInt8 → Parser × Option Value
  | stack, p, type =>
    if type = 36 then p.parseBulkString
    else if type = 58 then
      let (p, number) := p.parseSimpleNumbers
      (p, number.map .num)
    else if type = 43 then
      let (p, string) := p.parseSimpleStringViaOffset
      (p, string.map .str)
    else if type = 42 then
      match stack with
      | 0 => ({ p with fatal := true }, none)
      | stack + 1 => p.parseArray (parseType stack)
    else if type = 45 then
      let (p, string) := p.parseSimpleStringViaOffset
      (p, string.map .error)
    else (p.handleError, none)

/-- The elements of an unfinished array from `arrayPos` on; the array is one of those on the stack. -/
def parseArrayChunks : ℕ → Parser → ℕ → List Value → Parser × Option Value
  | 0, p, _, _ => ({ p with fatal := true }, none)
  | stack + 1, p, length, responses =>
    parseArrayElements (parseType stack) length (length - responses.length) responses p

/-- A buffer up to an index that counts from the end when it is negative. -/
def sliceTo (buffer : List UInt8) (stop : ℤ) : List UInt8 :=
  if stop < 0 then buffer.take (buffer.length - stop.natAbs) else buffer.take stop.toNat

/-- The string that began at `bigOffset` of the first chunk, without its line break, of which the
carriage return may end the chunk before the last. -/
def concatBulkString (p : Parser) : Parser × List UInt8 :=
  let list := p.bufferCache
  let offset := p.bigStrSize - p.totalChunkSize
  let first := list.headD []
  let chunks := if offset = 1 then list.length - 1 else list.length
  let string :=
    if offset = 1 ∧ list.length = 2 then (first.take (first.length - 1)).drop p.bigOffset
    else
      first.drop p.bigOffset ++ ((list.take (chunks - 1)).drop 1).flatten ++
        sliceTo (list.getD (chunks - 1) []) ((offset : ℤ) - 2)
  ({ p with offset }, string)

/-- The collected chunks from `offset` on. -/
def concatBuffer (p : Parser) : List UInt8 :=
  (p.bufferCache.headD []).drop p.offset ++ (p.bufferCache.drop 1).flatten

/-- The loop of `execute`; every round takes at least one byte off the buffer. -/
def executeLoop (stack : ℕ) : ℕ → Parser → Parser
  | 0, p => p
  | fuel + 1, p =>
    match p.bytes[p.offset]? with
    | none => { p with buffer := none }
    | some type =>
      match parseType stack { p with offset := p.offset + 1 } type with
      | (p', none) => if p'.arrayCache.isNone then { p' with offset := p.offset } else p'
      | (p', some response) => executeLoop stack fuel (p'.returnReply response)

def executeRest (stack : ℕ) (p : Parser) : Parser := executeLoop stack (p.bytes.length + 1) p

def execute (stack : ℕ) (p : Parser) (buffer : List UInt8) : Parser :=
  match p.buffer with
  | none => executeRest stack { p with buffer := some buffer, offset := 0 }
  | some oldBuffer =>
    if p.bigStrSize = 0 then
      let p := { p with buffer := some (oldBuffer.drop p.offset ++ buffer), offset := 0 }
      match p.arrayCache with
      | none => executeRest stack p
      | some (length, responses) =>
        match parseArrayChunks stack p length responses with
        | (p, none) => p
        | (p, some arr) => executeRest stack { p.returnReply arr with arrayCache := none }
    else if p.totalChunkSize + buffer.length ≥ p.bigStrSize then
      let p := { p with bufferCache := p.bufferCache ++ [buffer] }
      match p.arrayCache with
      | none =>
        let (p, string) := p.concatBulkString
        executeRest stack
          { p.returnReply (.str string) with buffer := some buffer, bigStrSize := 0, bufferCache := [] }
      | some (length, responses) =>
        let p := { p with buffer := some p.concatBuffer, offset := 0 }
        match parseArrayChunks stack p length responses with
        | (p, none) => { p with bigStrSize := 0, bufferCache := [] }
        | (p, some arr) =>
          executeRest stack
            { p.returnReply arr with arrayCache := none, bigStrSize := 0, bufferCache := [] }
    else
      { p with
        bufferCache := p.bufferCache ++ [buffer]
        totalChunkSize := p.totalChunkSize + buffer.length }

end Parser

end ExpressAuth.NodeRedis
