import ExpressAuth.Server
import ExpressAuth.Redis.Call
import ExpressAuth.NodeRedis.Client

/-!
# The application and Redis, joined by a byte stream

The same handlers as in `Server`, but a command goes through the client library, travels as bytes, is parsed
and executed by Redis, and its reply travels back as bytes that the library parses and hands to the callback
at the front of its queue. Each side reads any number of the bytes that are on their way. The source runs
the commands of a read, and the callbacks of a chunk, before it reads on; here they are steps of their own,
so that this is one of the orders. The end of the connection is not modelled.
-/

namespace ExpressAuth

/-- The name under which the client library sends a command. -/
def Cmd.name : Cmd → String
  | .hget _ _ => "hget"
  | .hset _ _ _ => "hset"
  | .keys _ => "keys"
  | .del _ => "del"
  | .refused name _ _ => name.text

def Cmd.args : Cmd → List String
  | .hget key field => [key, field.name]
  | .hset key field value => [key, field.name, value]
  | .keys pattern => [pattern]
  | .del key => [key]
  | .refused _ args _ => args

/-- What the callback of a command is called with: the task it belongs to and its code. -/
structure Ticket where
  task : ℕ
  callback : Callback
  deriving DecidableEq, Repr

/-- The call of the client library for a command. -/
def Pending.command (p : Pending) : NodeRedis.Command Ticket :=
  { command := p.cmd.name, args := p.cmd.args.map .str, callback := ⟨p.task, p.callback⟩ }

/-! ### Replies as the callbacks see them -/

/-- The string that the parser makes of the bytes. -/
def stringValue : NodeRedis.Value → Option String
  | .str bytes => Redis.textOf bytes
  | _ => none

/-- `handle_reply`, and the text of the error in `return_error`. -/
def handleReply : NodeRedis.Value → Option Reply
  | .str bytes => (Redis.textOf bytes).map (fun s => .bulk (some s))
  | .null => some (.bulk none)
  | .num n => some (.int n.toNat)
  | .array values => (values.mapM stringValue).map .names
  | .error message => (Redis.textOf message).map .error

/-! ### The system -/

structure Wire where
  /-- The process and the store. Its queue holds only what the running segment has issued. -/
  app : Server
  client : NodeRedis.RedisClient Ticket := {}
  /-- How many of the parsed replies have been handed to their callbacks. -/
  returned : ℕ := 0
  /-- Bytes that Redis has written and the client has not read. -/
  toClient : List UInt8 := []
  redis : Redis.Client := {}
  /-- How many of the parsed commands Redis has executed. -/
  executed : ℕ := 0
  /-- The tasks of the commands that Redis has not executed; only the log uses it. -/
  issuers : List ℕ := []

inductive WireEvent where
  | arrive (sid : ℕ) (request : Request) (now : ℕ)
  | spawn (argv : List String)
  | adminStep (j : ℕ) (now : ℕ)
  /-- The connection is ready. -/
  | ready
  /-- Redis reads at most `n` bytes and parses them. -/
  | redisRead (n : ℕ)
  /-- Redis executes the next command it has parsed. -/
  | redisExec
  /-- The client reads a chunk of at most `n` bytes and parses it. -/
  | clientRead (n : ℕ)
  /-- The callback of the next reply runs. -/
  | callback (now : ℕ)
  deriving DecidableEq, Repr

namespace Wire

/-- The commands of the segment that has run go to the client library, in the order they were issued. -/
def send (w : Wire) : Wire :=
  { w with
    app := { w.app with queue := [] }
    client := w.app.queue.foldl (fun c p => c.internalSendCommand p.command) w.client
    issuers := w.issuers ++ w.app.queue.map (·.task) }

/-- A read returns no more than Redis asks for; without bytes there is nothing to read. -/
def redisRead (w : Wire) (n : ℕ) : Wire :=
  let bytes := w.client.stream.take (min n w.redis.readlen)
  if bytes = [] then w
  else
    { w with
      redis := w.redis.readQueryFromClient bytes
      client := { w.client with stream := w.client.stream.drop bytes.length } }

/-- An argument vector that is no command of the server is not modelled and stays, and so does a command
in which Redis crashes: it is then the last thing that happens there. -/
def redisExec (e : Redis.Encoding) (w : Wire) : Wire :=
  match (w.redis.commands[w.executed]?).bind Redis.lookupCommand with
  | none => w
  | some cmd =>
    match Redis.call e w.app.store cmd with
    | none => w
    | some bytes =>
      { w with
        app := { w.app with
          store := (cmd.exec w.app.store).1
          log := w.app.log ++ [.executed (.task (w.issuers.headD 0)) cmd (cmd.exec w.app.store).2] }
        executed := w.executed + 1
        toClient := w.toClient ++ bytes
        issuers := w.issuers.tail }

def clientRead (stack : ℕ) (w : Wire) (n : ℕ) : Wire :=
  let chunk := w.toClient.take n
  if chunk = [] then w
  else { w with client := w.client.onData stack chunk, toClient := w.toClient.drop chunk.length }

/-- The object at the front of the queue gets the reply, an error as well. -/
def callback (w : Wire) (now : ℕ) : Wire :=
  match w.client.replyParser.returned[w.returned]?, w.client.commandQueue.shift with
  | some value, (some obj, queue) =>
    match handleReply value with
    | none => w
    | some reply =>
      { w with
        app := w.app.segment .process obj.callback.task now (obj.callback.callback.run reply)
        client := { w.client with commandQueue := queue }
        returned := w.returned + 1 }.send
  | _, _ => w

def step (e : Redis.Encoding) (stack : ℕ) (w : Wire) : WireEvent → Wire
  | .arrive sid request now => { w with app := w.app.step .process (.arrive sid request now) }.send
  | .spawn argv => { w with app := w.app.step .process (.spawn argv) }
  | .adminStep j now => { w with app := w.app.step .process (.adminStep j now) }
  | .ready => { w with client := w.client.onReady }
  | .redisRead n => w.redisRead n
  | .redisExec => w.redisExec e
  | .clientRead n => w.clientRead stack n
  | .callback now => w.callback now

/-- The system after a schedule of events from a given store. -/
def run (e : Redis.Encoding) (stack : ℕ) (store : Store) (es : List WireEvent) : Wire :=
  Runs.after (step e stack) { app := { store } } es

end Wire

end ExpressAuth
