import ExpressAuth.JavaScript
import ExpressAuth.Redis
import ExpressAuth.NodeRedis.Deque
import ExpressAuth.NodeRedis.Parser

/-!
# The client's side of the connection

A command is written to the stream and its object waits in the command queue; replies come in the order of
the commands, so each one belongs to the object at the front. Before the connection is ready, commands wait
in a queue of their own. Prefixes, renamed commands, pipelines, subscriptions and reconnecting are not
used by the application.
-/

namespace ExpressAuth.NodeRedis

/-- `new Command(command, args, callback)`. -/
structure Command (κ : Type*) where
  command : String
  args : List JsVal
  callback : κ
  deriving DecidableEq

/-- An entry of `args_copy`. -/
inductive ArgCopy where
  | text (s : String)
  | buffer (bytes : List UInt8)
  deriving DecidableEq

/-- `s.length`, which counts UTF-16 units. -/
def textLength (s : String) : ℕ := (s.toList.flatMap utf16Units).length

def copyArg : JsVal → ArgCopy
  | .str s => if textLength s > 30000 then .buffer (utf8Bytes s) else .text s
  | v => .text v.toText

def ArgCopy.isBuffer : ArgCopy → Bool
  | .text _ => false
  | .buffer _ => true

structure RedisClient (κ : Type*) where
  ready : Bool := false
  /-- What has been written to the stream and not been read by Redis. -/
  stream : List UInt8 := []
  commandQueue : Deque (Command κ) := .new
  offlineQueue : Deque (Command κ) := .new
  replyParser : Parser := {}

namespace RedisClient

variable {κ : Type*}

/-- `stream.write` of a string. -/
def write (c : RedisClient κ) (data : String) : RedisClient κ := { c with stream := c.stream ++ utf8Bytes data }

/-- `stream.write` of a buffer. -/
def writeBuffer (c : RedisClient κ) (data : List UInt8) : RedisClient κ := { c with stream := c.stream ++ data }

/-- `'*' + (len + 1) + '\r\n$' + command.length + '\r\n' + command + '\r\n'`. -/
def commandText (command : String) (len : ℕ) : String :=
  "*" ++ numberText (len + 1) ++ "\r\n$" ++ numberText (textLength command) ++ "\r\n" ++ command ++ "\r\n"

/-- `'$' + Buffer.byteLength(arg) + '\r\n' + arg + '\r\n'`. -/
def argText (arg : String) : String := "$" ++ numberText (utf8Bytes arg).length ++ "\r\n" ++ arg ++ "\r\n"

/-- The loop that adds the arguments to the one string. -/
def appendArgs (str : String) : List ArgCopy → String
  | [] => str
  | .text arg :: args => appendArgs (str ++ argText arg) args
  | .buffer _ :: args => appendArgs str args

/-- The writes for one argument when there are buffers. -/
def writeArg (c : RedisClient κ) : ArgCopy → RedisClient κ
  | .text arg => c.write (argText arg)
  | .buffer bytes => ((c.write ("$" ++ numberText bytes.length ++ "\r\n")).writeBuffer bytes).write "\r\n"

def internalSendCommand (c : RedisClient κ) (obj : Command κ) : RedisClient κ :=
  if c.ready = false then { c with offlineQueue := (c.offlineQueue.push [obj]).2 }
  else
    let argsCopy := obj.args.map copyArg
    let bigData := argsCopy.any ArgCopy.isBuffer
    let commandStr := commandText obj.command obj.args.length
    let c :=
      if bigData = false then c.write (appendArgs commandStr argsCopy)
      else argsCopy.foldl writeArg (c.write commandStr)
    { c with commandQueue := (c.commandQueue.push [obj]).2 }

/-- The loop shifts once more than there are commands. -/
def sendOfflineQueue : ℕ → RedisClient κ → RedisClient κ
  | 0, c => c
  | fuel + 1, c =>
    match c.offlineQueue.shift with
    | (none, queue) => { c with offlineQueue := queue }
    | (some obj, queue) => sendOfflineQueue fuel (internalSendCommand { c with offlineQueue := queue } obj)

def onReady (c : RedisClient κ) : RedisClient κ :=
  sendOfflineQueue (c.offlineQueue.length + 1) { c with ready := true }

/-- The listener of the stream's data; `stack` is how deep calls may nest. -/
def onData (stack : ℕ) (c : RedisClient κ) (chunk : List UInt8) : RedisClient κ :=
  { c with replyParser := c.replyParser.execute stack chunk }

end RedisClient

end ExpressAuth.NodeRedis
