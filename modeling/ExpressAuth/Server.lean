import ExpressAuth.Routes
import ExpressAuth.AdminTool
import ExpressAuth.Library.Runs

/-!
# Requests in flight

The process holds one Redis connection: commands are executed and answered in the order they
are issued. A request works on its own copy of its session, which is written back whole when
the response ends. Every event is one synchronous segment, one command reaching Redis, or one
step of an `admin.py` invocation, and events come in any order.
-/

namespace ExpressAuth

/-- Where the undeclared variables live: in the process, as the code has them, or in each
request, as if they were declared in the handler. -/
inductive Scope where
  | process
  | request
  deriving DecidableEq, Repr

/-- The first value for variables of the process, the second for variables of the request. -/
def Scope.select {α : Type} : Scope → α → α → α
  | .process, a, _ => a
  | .request, _, b => b

structure Task where
  sid : ℕ
  request : Request
  session : Session
  vars : Vars := {}
  response : Option Response := none

structure Pending where
  task : ℕ
  cmd : Cmd
  callback : Callback
  deriving DecidableEq, Repr

structure Answer where
  task : ℕ
  callback : Callback
  reply : Reply
  deriving DecidableEq, Repr

inductive Actor where
  | task (i : ℕ)
  | admin (j : ℕ)
  deriving DecidableEq, Repr

/-- What can be seen from outside, in the order it happens. -/
inductive Observation where
  | executed (actor : Actor) (cmd : Cmd) (reply : Reply)
  | listed (admin : ℕ) (user : String) (fields : Finmap (fun _ : Field => String))
  | file (actor : Actor) (file : MailFile)
  | printed (admin : ℕ) (line : String)
  | saved (sid : ℕ) (session : Session)
  | responded (task : ℕ) (response : Response)
  /-- A callback of this task ended the process. The code stops here; the model lets the events go
  on, so that its runs include those of the code. -/
  | crashed (task : ℕ)
  deriving DecidableEq

structure Server where
  store : Store
  /-- Commands issued on the connection and not executed yet. -/
  queue : List Pending := []
  /-- Replies whose callback has not run yet. -/
  replies : List Answer := []
  vars : Vars := {}
  /-- Saved sessions; a fresh session id has the empty session. -/
  sessions : ℕ → Session := fun _ => {}
  tasks : ℕ → Option Task := fun _ => none
  started : ℕ := 0
  admins : ℕ → AdminTool.Proc := fun _ => .todo []
  spawned : ℕ := 0
  log : List Observation := []

inductive Event where
  /-- A request arrives and runs its first segment. -/
  | arrive (sid : ℕ) (request : Request) (now : ℕ)
  /-- Redis executes the next command of the connection. -/
  | exec
  /-- The next reply is delivered and its callback runs. -/
  | deliver (now : ℕ)
  | spawn (argv : List String)
  | adminStep (j : ℕ) (now : ℕ)
  deriving DecidableEq, Repr

namespace Server

/-- What a segment of a task starts with. -/
def context (scope : Scope) (s : Server) (t : Task) (now : ℕ) : Ctx :=
  { now, vars := scope.select s.vars t.vars, session := t.session }

def observations (i sid : ℕ) (c : Ctx) : List Observation :=
  c.files.map (.file (.task i)) ++
    (match c.response with
    | none => []
    | some response => [.saved sid c.session, .responded i response]) ++
    if c.crashed then [.crashed i] else []

/-- The effect of a segment that ends in `c`. -/
def commit (scope : Scope) (s : Server) (i : ℕ) (t : Task) (c : Ctx) : Server :=
  { s with
    queue := s.queue ++ c.issued.map (fun p => ⟨i, p.1, p.2⟩)
    vars := scope.select c.vars s.vars
    sessions := if c.response.isSome then Function.update s.sessions t.sid c.session else s.sessions
    tasks := Function.update s.tasks i (some { t with
      session := c.session
      vars := scope.select t.vars c.vars
      response := c.response.or t.response })
    log := s.log ++ observations i t.sid c }

def segment (scope : Scope) (s : Server) (i now : ℕ) (f : Ctx → Ctx) : Server :=
  match s.tasks i with
  | none => s
  | some t => s.commit scope i t (f (s.context scope t now))

def observeAdmin (j : ℕ) : AdminTool.Output → Observation
  | .executed cmd reply => .executed (.admin j) cmd reply
  | .listed user fields => .listed j user fields
  | .file file => .file (.admin j) file
  | .printed line => .printed j line

/-- Redis executes the command `p` at the head of the connection. -/
def perform (s : Server) (p : Pending) (rest : List Pending) : Server :=
  { s with
    store := (p.cmd.exec s.store).1
    queue := rest
    replies := s.replies ++ [⟨p.task, p.callback, (p.cmd.exec s.store).2⟩]
    log := s.log ++ [.executed (.task p.task) p.cmd (p.cmd.exec s.store).2] }

/-- A new request before its first segment. -/
def enter (s : Server) (sid : ℕ) (request : Request) : Server :=
  { s with
    tasks := Function.update s.tasks s.started (some { sid, request, session := s.sessions sid })
    started := s.started + 1 }

def step (scope : Scope) (s : Server) : Event → Server
  | .arrive sid request now => (s.enter sid request).segment scope s.started now request.begin
  | .exec =>
    match s.queue with
    | [] => s
    | p :: rest => s.perform p rest
  | .deliver now =>
    match s.replies with
    | [] => s
    | a :: rest => { s with replies := rest }.segment scope a.task now (a.callback.run a.reply)
  | .spawn argv =>
    { s with admins := Function.update s.admins s.spawned (AdminTool.main argv), spawned := s.spawned + 1 }
  | .adminStep j now =>
    let r := (s.admins j).step s.store now
    { s with
      store := r.1
      admins := Function.update s.admins j r.2.1
      log := s.log ++ r.2.2.map (observeAdmin j) }

end Server

/-- The server as written, after a schedule of events from a given store. -/
abbrev run (store : Store) (es : List Event) : Server :=
  Runs.after (Server.step .process) { store } es

end ExpressAuth
