import ExpressAuth.Redis.Util

/-!
# The connection of a client, from `networking.c`

Bytes are appended to the query buffer as they are read, and commands are taken off its front. Requests
that do not begin with `*` (inline requests) are not modelled: meeting one is recorded and stops the
client, as a protocol error does. Of the commands that end, block or pause a connection only `QUIT` is
modelled.
-/

namespace ExpressAuth.Redis

def PROTO_INLINE_MAX_SIZE : ℕ := 1024 * 64

def PROTO_MBULK_BIG_ARG : ℕ := 1024 * 32

def PROTO_IOBUF_LEN : ℕ := 1024 * 16

def PROTO_MAX_QUERYBUF_LEN : ℕ := 1024 * 1024 * 1024

/-- Why a client is served no further. -/
inductive Halt where
  | protocolError (reply : String)
  | queryBufferTooLong
  | inlineRequest
  | closeAfterReply
  deriving DecidableEq, Repr

structure Client where
  querybuf : List UInt8 := []
  /-- Whether the request at the front of the buffer is known to be a multibulk one. -/
  multibulk : Bool := false
  /-- Arguments of the current request still to be read. -/
  multibulklen : ℕ := 0
  /-- The length of the argument being read, once it is known. -/
  bulklen : Option ℕ := none
  argv : List (List UInt8) := []
  halt : Option Halt := none
  /-- What `processCommand` was called with, in order. -/
  commands : List (List (List UInt8)) := []
  deriving DecidableEq, Repr

/-- The index of a byte in a C string, which ends at the first zero byte. -/
def strchr (c : UInt8) : List UInt8 → Option ℕ
  | [] => none
  | b :: s => if b = c then some 0 else if b = 0 then none else (strchr c s).map (· + 1)

namespace Client

/-- The reply has no line breaks of its own. -/
def setProtocolError (c : Client) (message : String) (pos : ℕ) : Client :=
  { c with
    halt := some (.protocolError ("-ERR " ++ message.map (fun a => if a = '\r' ∨ a = '\n' then ' ' else a)))
    querybuf := c.querybuf.drop pos }

/-- A step of the loop over the arguments: it goes on, it waits for more bytes, or it has failed. -/
inductive Progress where
  | next (c : Client) (pos : ℕ)
  | wait (c : Client) (pos : ℕ)
  | error (c : Client)

/-- The length of the next argument. A large argument is moved to the front of the buffer. -/
def readBulkLength (c : Client) (pos : ℕ) : Progress :=
  match strchr 0x0d (c.querybuf.drop pos) with
  | none =>
    if c.querybuf.length > PROTO_INLINE_MAX_SIZE then
      .error (c.setProtocolError "Protocol error: too big bulk count string" 0)
    else .wait c pos
  | some newline =>
    if pos + newline + 2 > c.querybuf.length then .wait c pos
    else if c.querybuf[pos]? ≠ some 0x24 then
      .error (c.setProtocolError ("Protocol error: expected '$', got '" ++
        String.singleton (Char.ofNat ((c.querybuf[pos]?.getD 0).toNat)) ++ "'") pos)
    else
      match string2ll ((c.querybuf.drop (pos + 1)).take (newline - 1)) with
      | none => .error (c.setProtocolError "Protocol error: invalid bulk length" pos)
      | some ll =>
        if ll.toInt < 0 ∨ ll.toInt > 512 * 1024 * 1024 then
          .error (c.setProtocolError "Protocol error: invalid bulk length" pos)
        else if ll.toInt.toNat ≥ PROTO_MBULK_BIG_ARG then
          .next { c with querybuf := c.querybuf.drop (pos + newline + 2), bulklen := some ll.toInt.toNat } 0
        else .next { c with bulklen := some ll.toInt.toNat } (pos + newline + 2)

/-- The argument itself. A large one that is all the buffer holds takes over the buffer. -/
def readBulkArgument (c : Client) (pos bulklen : ℕ) : Progress :=
  if c.querybuf.length - pos < bulklen + 2 then .wait c pos
  else if pos = 0 ∧ bulklen ≥ PROTO_MBULK_BIG_ARG ∧ c.querybuf.length = bulklen + 2 then
    .next { c with
      argv := c.argv ++ [c.querybuf.take (c.querybuf.length - 2)]
      querybuf := []
      bulklen := none
      multibulklen := c.multibulklen - 1 } 0
  else
    .next { c with
      argv := c.argv ++ [(c.querybuf.drop pos).take bulklen]
      bulklen := none
      multibulklen := c.multibulklen - 1 } (pos + bulklen + 2)

def readArgument (c : Client) (pos : ℕ) : Progress :=
  match c.bulklen with
  | some bulklen => c.readBulkArgument pos bulklen
  | none =>
    match c.readBulkLength pos with
    | .next c pos => c.readBulkArgument pos (c.bulklen.getD 0)
    | stop => stop

/-- The loop over the arguments; every round that goes on reads one of them. -/
def readArguments : ℕ → Client → ℕ → Progress
  | 0, c, pos => .next c pos
  | count + 1, c, pos =>
    match c.readArgument pos with
    | .next c pos => readArguments count c pos
    | stop => stop

/-- The buffer is trimmed to what has not been read. The result says whether the request is complete. -/
def processArguments (c : Client) (pos : ℕ) : Client × Bool :=
  match readArguments c.multibulklen c pos with
  | .next c pos => ({ c with querybuf := c.querybuf.drop pos }, true)
  | .wait c pos => ({ c with querybuf := c.querybuf.drop pos }, false)
  | .error c => (c, false)

def processMultibulkBuffer (c : Client) : Client × Bool :=
  if c.multibulklen = 0 then
    match strchr 0x0d c.querybuf with
    | none =>
      if c.querybuf.length > PROTO_INLINE_MAX_SIZE then
        (c.setProtocolError "Protocol error: too big mbulk count string" 0, false)
      else (c, false)
    | some newline =>
      if newline + 2 > c.querybuf.length then (c, false)
      else
        match string2ll ((c.querybuf.drop 1).take (newline - 1)) with
        | none => (c.setProtocolError "Protocol error: invalid multibulk length" 0, false)
        | some ll =>
          if ll.toInt > 1024 * 1024 then (c.setProtocolError "Protocol error: invalid multibulk length" 0, false)
          else if ll.toInt ≤ 0 then ({ c with querybuf := c.querybuf.drop (newline + 2) }, true)
          else processArguments { c with multibulklen := ll.toInt.toNat, argv := [] } (newline + 2)
  else c.processArguments 0

def resetClient (c : Client) : Client :=
  { c with argv := [], multibulk := false, multibulklen := 0, bulklen := none }

/-- `!strcasecmp(c->argv[0]->ptr, "quit")`; the C string ends at its first zero byte. -/
def isQuit (argv : List (List UInt8)) : Bool :=
  ((argv.headD []).takeWhile (· ≠ 0)).map (fun b => if 0x41 ≤ b ∧ b ≤ 0x5a then b + 0x20 else b) =
    [0x71, 0x75, 0x69, 0x74]

/-- The result says whether the client is reset. What a command does is not part of its connection. -/
def processCommand (c : Client) : Client × Bool :=
  let c := { c with commands := c.commands ++ [c.argv] }
  if isQuit c.argv then ({ c with halt := some .closeAfterReply }, false) else (c, true)

/-- Every round that goes on takes at least one byte off the buffer. -/
def processInputBufferLoop : ℕ → Client → Client
  | 0, c => c
  | fuel + 1, c =>
    if c.querybuf = [] then c
    else if c.halt.isSome then c
    else if ¬c.multibulk ∧ c.querybuf.head? ≠ some 0x2a then { c with halt := some .inlineRequest }
    else
      match processMultibulkBuffer { c with multibulk := true } with
      | (c, false) => c
      | (c, true) =>
        if c.argv = [] then processInputBufferLoop fuel c.resetClient
        else
          match c.processCommand with
          | (c, true) => processInputBufferLoop fuel c.resetClient
          | (c, false) => processInputBufferLoop fuel c

def processInputBuffer (c : Client) : Client := processInputBufferLoop (c.querybuf.length + 1) c

/-- How many bytes the next read asks for: no more than what a large argument is missing. -/
def readlen (c : Client) : ℕ :=
  match c.bulklen with
  | some bulklen =>
    if c.multibulk ∧ c.multibulklen ≠ 0 ∧ bulklen ≥ PROTO_MBULK_BIG_ARG then
      min PROTO_IOBUF_LEN (bulklen + 2 - c.querybuf.length)
    else PROTO_IOBUF_LEN
  | none => PROTO_IOBUF_LEN

/-- `bytes` is what the read returned, at most `readlen` bytes. -/
def readQueryFromClient (c : Client) (bytes : List UInt8) : Client :=
  if (c.querybuf ++ bytes).length > PROTO_MAX_QUERYBUF_LEN then
    { c with querybuf := c.querybuf ++ bytes, halt := some .queryBufferTooLong }
  else processInputBuffer { c with querybuf := c.querybuf ++ bytes }

end Client

/-! ### Replies -/

def OBJ_SHARED_BULKHDR_LEN : ℤ := 32

/-- The digits go into a local buffer of 128 bytes behind the type byte. A small header is a shared object
with the same bytes. -/
def addReplyLongLongWithPrefix (ll : Int64) (type : UInt8) : List UInt8 :=
  if (type = 0x2a ∨ type = 0x24) ∧ ll.toInt < OBJ_SHARED_BULKHDR_LEN ∧ ll.toInt ≥ 0 then
    type :: (Decimal.text ll.toInt ++ [0x0d, 0x0a])
  else
    let (len, buf) := ll2string (List.replicate 127 0) ll
    type :: (buf.take len ++ [0x0d, 0x0a])

def addReplyLongLong (ll : Int64) : List UInt8 :=
  if ll = 0 then [0x3a, 0x30, 0x0d, 0x0a]
  else if ll = 1 then [0x3a, 0x31, 0x0d, 0x0a]
  else addReplyLongLongWithPrefix ll 0x3a

def addReplyBulkCBuffer (p : List UInt8) : List UInt8 :=
  addReplyLongLongWithPrefix (Int64.ofNat p.length) 0x24 ++ p ++ [0x0d, 0x0a]

/-- A stored integer is written into a buffer of 64 bytes and sent as a string. -/
def addReplyBulkLongLong (ll : Int64) : List UInt8 :=
  let (len, buf) := ll2string (List.replicate 64 0) ll
  addReplyBulkCBuffer (buf.take len)

def nullbulk : List UInt8 := [0x24, 0x2d, 0x31, 0x0d, 0x0a]

end ExpressAuth.Redis
