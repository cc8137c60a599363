import ExpressAuth.Routes
import ExpressAuth.AdminTool
import ExpressAuth.Library.Runs

/-!
# Serial runs

Each request with all its callbacks, and each `admin.py` invocation, completes before the
next starts. No handler reads the clock twice, so one reading a request is enough.
-/

namespace ExpressAuth

/-- A request alone: its commands are executed and answered in order until none is left. -/
def settle : ℕ → Store → Ctx → Store × Ctx
  | 0, store, c => (store, c)
  | n + 1, store, c =>
    match c.issued with
    | [] => (store, c)
    | (cmd, callback) :: rest =>
      settle n (cmd.exec store).1 (callback.run (cmd.exec store).2 { c with issued := rest })

/-- What is left between two operations of a serial run. -/
structure Site where
  store : Store := ∅
  vars : Vars := {}
  sessions : ℕ → Session := fun _ => {}

inductive Op where
  | web (sid : ℕ) (request : Request) (now : ℕ)
  | admin (argv : List String) (now : ℕ)
  deriving DecidableEq, Repr

def Op.now : Op → ℕ
  | .web _ _ now => now
  | .admin _ now => now

@[simp] lemma Op.now_web (sid : ℕ) (req : Request) (now : ℕ) : (Op.web sid req now).now = now := rfl

@[simp] lemma Op.now_admin (argv : List String) (now : ℕ) : (Op.admin argv now).now = now := rfl

/-- The user name of the operation is not an array. -/
def Op.textual : Op → Bool
  | .web _ request _ => request.textual
  | .admin _ _ => true

@[simp] lemma Op.textual_web (sid : ℕ) (req : Request) (now : ℕ) : (Op.web sid req now).textual = req.textual := rfl

@[simp] lemma Op.textual_admin (argv : List String) (now : ℕ) : (Op.admin argv now).textual = true := rfl

namespace Site

/-- No session belongs to an array. -/
def Textual (s : Site) : Prop := ∀ sid, (s.sessions sid).user.isArray = false

/-- The first segment of a request. -/
def opening (s : Site) (sid : ℕ) (req : Request) (now : ℕ) : Ctx :=
  req.begin { now, vars := s.vars, session := s.sessions sid }

/-- A request with all its callbacks; no handler issues more than four commands. -/
def serve (s : Site) (sid : ℕ) (req : Request) (now : ℕ) : Store × Ctx :=
  settle 4 s.store (s.opening sid req now)

def step (s : Site) : Op → Site
  | .web sid req now =>
    let r := s.serve sid req now
    { store := r.1
      vars := r.2.vars
      sessions := if r.2.response.isSome then Function.update s.sessions sid r.2.session else s.sessions }
  | .admin argv now => { s with store := AdminTool.invoke s.store now argv }

/-- The response of a request in a serial run. -/
def response (s : Site) (sid : ℕ) (req : Request) (now : ℕ) : Option Response :=
  (s.serve sid req now).2.response

end Site

/-- The site after a serial run from an empty store and no sessions. -/
abbrev site (ops : List Op) : Site := Runs.after Site.step {} ops

end ExpressAuth
