import ExpressAuth.Server
import ExpressAuth.Proofs.Segments

/-!
# What every event keeps

For both scopes and every schedule: a task keeps its request and its session id, and every
command in flight belongs to a task of the kind that issues it.
-/

namespace ExpressAuth.Proofs
open Server

/-- The request and the session id of a task. -/
def identity (s : Server) (i : ℕ) : Option (Request × ℕ) := (s.tasks i).map (fun t => (t.request, t.sid))

lemma identity_eq_some {s : Server} {i : ℕ} {req : Request} {sid : ℕ} :
    identity s i = some (req, sid) ↔ ∃ t, s.tasks i = some t ∧ t.request = req ∧ t.sid = sid := by
  simp [identity]

lemma identity_of_task {s : Server} {i : ℕ} {t : Task} (h : s.tasks i = some t) :
    identity s i = some (t.request, t.sid) := by
  simp [identity, h]

lemma enter_task (s : Server) (sid : ℕ) (req : Request) :
    (s.enter sid req).tasks s.started = some { sid, request := req, session := s.sessions sid } := by
  simp [Server.enter]

lemma step_arrive (scope : Scope) (s : Server) (sid : ℕ) (req : Request) (now : ℕ) :
    s.step scope (.arrive sid req now) = (s.enter sid req).commit scope s.started
      { sid, request := req, session := s.sessions sid }
      (req.begin ((s.enter sid req).context scope { sid, request := req, session := s.sessions sid } now)) := by
  simp only [Server.step, Server.segment, enter_task]

lemma step_exec_nil (scope : Scope) {s : Server} (h : s.queue = []) : s.step scope .exec = s := by
  simp only [Server.step, h]

lemma step_exec_cons (scope : Scope) {s : Server} {p : Pending} {rest : List Pending}
    (h : s.queue = p :: rest) : s.step scope .exec = s.perform p rest := by
  simp only [Server.step, h]

lemma step_deliver_nil (scope : Scope) {s : Server} (h : s.replies = []) (now : ℕ) :
    s.step scope (.deliver now) = s := by
  simp only [Server.step, h]

lemma step_deliver_cons (scope : Scope) {s : Server} {a : Answer} {rest : List Answer} {t : Task}
    (h : s.replies = a :: rest) (ht : s.tasks a.task = some t) (now : ℕ) :
    s.step scope (.deliver now) = { s with replies := rest }.commit scope a.task t
      (a.callback.run a.reply (s.context scope t now)) := by
  simp only [Server.step, h, Server.segment, ht]
  rfl

lemma started_exec (scope : Scope) (s : Server) : (s.step scope .exec).started = s.started := by
  cases hq : s.queue with
  | nil => rw [step_exec_nil scope hq]
  | cons p rest =>
    rw [step_exec_cons scope hq]
    rfl

lemma started_deliver (scope : Scope) {s : Server} {a : Answer} {rest : List Answer} {t : Task}
    (h : s.replies = a :: rest) (ht : s.tasks a.task = some t) (now : ℕ) :
    (s.step scope (.deliver now)).started = s.started := by
  rw [step_deliver_cons scope h ht]
  rfl

lemma log_arrive (s : Server) (sid : ℕ) (req : Request) (now : ℕ) :
    (s.step .process (.arrive sid req now)).log = s.log ++ observations s.started sid
      (req.begin { now, vars := s.vars, session := s.sessions sid }) := by
  rw [step_arrive]
  rfl

lemma log_deliver {s : Server} {a : Answer} {rest : List Answer} {t : Task} (h : s.replies = a :: rest)
    (ht : s.tasks a.task = some t) (now : ℕ) :
    (s.step .process (.deliver now)).log = s.log ++ observations a.task t.sid
      (a.callback.run a.reply { now, vars := s.vars, session := t.session }) := by
  rw [step_deliver_cons .process h ht]
  rfl

/-- A callback of a request can only continue in a callback of the same request. -/
def isCallbackOf : Callback → Request → Bool
  | .ignore, _ | .missing, _ => true
  | .secureValid, .getSecure _ => true
  | .secureMail, .getSecure _ => true
  | .loginPassword _ _, .postLogin _ _ => true
  | .loginValid _, .postLogin _ _ => true
  | .updateMailDone, .postUpdateMail _ _ => true
  | .updatePasswordDone, .postUpdatePassword _ => true
  | .createUserKeys _ _ _, .postCreateUser _ _ _ => true
  | .verifyValid, .getVerify _ _ => true
  | .verifyTimestamp, .getVerify _ _ => true
  | .verifyMailLink _, .getVerifyMail _ => true
  | .resetMail _ _, .postResetPassword _ _ _ => true
  | .resetValid _, .postResetPassword _ _ _ => true
  | .newPasswordValid, .getNewPassword _ _ => true
  | .newPasswordTimestamp, .getNewPassword _ _ => true
  | .newPasswordFlag _, .getNewPassword _ _ => true
  | .newPasswordDone, .postNewPassword _ => true
  | _, _ => false

lemma Opening.belongs {c : Ctx} {req : Request} {cmd : Cmd} {callback : Callback}
    (h : Opening c req cmd callback) : isCallbackOf callback req = true := by
  cases h <;> rfl

lemma FollowUp.belongs {c : Ctx} {r : Reply} {callback callback' : Callback} {cmd : Cmd} {req : Request}
    (h : FollowUp c r callback cmd callback') (hb : isCallbackOf callback req = true) :
    isCallbackOf callback' req = true := by
  cases h <;> first | rfl | (cases req <;> simp_all [isCallbackOf])

structure WellFormed (s : Server) : Prop where
  bound : ∀ i t, s.tasks i = some t → i < s.started
  queue : ∀ p ∈ s.queue, ∃ req sid, identity s p.task = some (req, sid) ∧ isCallbackOf p.callback req = true
  replies : ∀ a ∈ s.replies, ∃ req sid, identity s a.task = some (req, sid) ∧ isCallbackOf a.callback req = true
  log : ∀ i cmd r, .executed (.task i) cmd r ∈ s.log → i < s.started

lemma wellFormed_init (store : Store) (sessions : ℕ → Session) : WellFormed { store, sessions } :=
  ⟨by simp, by simp, by simp, by simp⟩

lemma identity_commit (scope : Scope) (s : Server) {i : ℕ} {t : Task} (ht : s.tasks i = some t) (c : Ctx)
    (j : ℕ) : identity (s.commit scope i t c) j = identity s j := by
  unfold identity commit
  by_cases hj : j = i
  · subst hj
    simp [ht]
  · simp [Function.update_of_ne hj]

lemma identity_enter (s : Server) (sid : ℕ) (req : Request) (j : ℕ) :
    identity (s.enter sid req) j = if j = s.started then some (req, sid) else identity s j := by
  unfold identity enter
  by_cases hj : j = s.started
  · simp [hj]
  · simp [hj]

lemma mem_observations {i sid : ℕ} {c : Ctx} {o : Observation} :
    o ∈ observations i sid c ↔ (∃ file ∈ c.files, .file (.task i) file = o) ∨
      (∃ response, c.response = some response ∧ (o = .saved sid c.session ∨ o = .responded i response)) ∨
      c.crashed = true ∧ o = .crashed i := by
  unfold observations
  cases c.response <;> cases c.crashed <;> simp [or_assoc]

lemma executed_mem_observations {i sid : ℕ} {c : Ctx} {actor : Actor} {cmd : Cmd} {r : Reply} :
    Observation.executed actor cmd r ∉ observations i sid c := by
  simp [mem_observations]

/-- A segment executes no command. -/
lemma executed_mem_commit {scope : Scope} {s : Server} {i : ℕ} {t : Task} {c : Ctx} {actor : Actor}
    {cmd : Cmd} {r : Reply} :
    Observation.executed actor cmd r ∈ (s.commit scope i t c).log ↔ Observation.executed actor cmd r ∈ s.log := by
  simp [commit, executed_mem_observations]

/-- A step of an invocation executes no command of a task. -/
lemma executed_mem_adminStep {scope : Scope} {s : Server} {j now i : ℕ} {cmd : Cmd} {r : Reply} :
    Observation.executed (.task i) cmd r ∈ (s.step scope (.adminStep j now)).log ↔
      Observation.executed (.task i) cmd r ∈ s.log := by
  have h : ∀ o : AdminTool.Output, observeAdmin j o ≠ .executed (.task i) cmd r := by
    rintro (_ | _ | _) <;> simp [observeAdmin]
  simp [Server.step, h]

lemma commit_tasks (scope : Scope) (s : Server) (i : ℕ) (t : Task) (c : Ctx) {j : ℕ} {t' : Task}
    (h : (s.commit scope i t c).tasks j = some t') (hj : j ≠ i) : s.tasks j = some t' := by
  simpa [commit, Function.update_of_ne hj] using h

lemma commit_task (scope : Scope) (s : Server) (i : ℕ) (t : Task) (c : Ctx) :
    (s.commit scope i t c).tasks i = some { t with
      session := c.session
      vars := scope.select t.vars c.vars
      response := c.response.or t.response } := by
  simp [commit]

lemma enter_tasks (s : Server) (sid : ℕ) (req : Request) {j : ℕ} {t : Task}
    (h : (s.enter sid req).tasks j = some t) (hj : j ≠ s.started) : s.tasks j = some t := by
  simpa [Server.enter, Function.update_of_ne hj] using h

/-- A segment that issues only commands of its own request keeps the server well formed. -/
lemma WellFormed.commit {s : Server} (hs : WellFormed s) (scope : Scope) {i : ℕ} {t : Task}
    (ht : s.tasks i = some t) (c : Ctx) (hc : ∀ p ∈ c.issued, isCallbackOf p.2 t.request = true) :
    WellFormed (s.commit scope i t c) := by
  refine ⟨?_, ?_, ?_, fun j cmd r h => hs.log j cmd r (executed_mem_commit.mp h)⟩
  · intro j t' hj
    by_cases hji : j = i
    · exact hs.bound j t (hji ▸ ht)
    · exact hs.bound j t' (by simpa [Server.commit, Function.update_of_ne hji] using hj)
  · intro p hp
    rw [identity_commit scope s ht]
    simp only [Server.commit, List.mem_append, List.mem_map] at hp
    rcases hp with hp | ⟨q, hq, rfl⟩
    · exact hs.queue p hp
    · exact ⟨_, _, identity_of_task ht, hc q hq⟩
  · intro a ha
    rw [identity_commit scope s ht]
    exact hs.replies a ha

lemma WellFormed.enter {s : Server} (hs : WellFormed s) (sid : ℕ) (req : Request) :
    WellFormed (s.enter sid req) := by
  have hold : ∀ {j : ℕ} {r : Request} {k : ℕ}, identity s j = some (r, k) →
      identity (s.enter sid req) j = some (r, k) := by
    intro j r k hj
    obtain ⟨t, ht, _⟩ := identity_eq_some.mp hj
    rw [identity_enter, if_neg (hs.bound j t ht).ne, hj]
  refine ⟨?_, ?_, ?_, fun j cmd r h => Nat.lt_succ_of_lt (hs.log j cmd r h)⟩
  · intro j t hj
    by_cases hji : j = s.started
    · simp [Server.enter, hji]
    · have h := hs.bound j t (by simpa [Server.enter, Function.update_of_ne hji] using hj)
      simp only [Server.enter]
      omega
  · intro p hp
    obtain ⟨r, k, hr, hb⟩ := hs.queue p hp
    exact ⟨r, k, hold hr, hb⟩
  · intro a ha
    obtain ⟨r, k, hr, hb⟩ := hs.replies a ha
    exact ⟨r, k, hold hr, hb⟩

/-- The task of the reply at the head exists in a well-formed server. -/
lemma WellFormed.head_task {s : Server} (hs : WellFormed s) {a : Answer} {rest : List Answer}
    (h : s.replies = a :: rest) :
    ∃ t, s.tasks a.task = some t ∧ isCallbackOf a.callback t.request = true := by
  obtain ⟨req, sid, hid, hb⟩ := hs.replies a (h ▸ List.mem_cons_self)
  obtain ⟨t, ht, hreq, _⟩ := identity_eq_some.mp hid
  exact ⟨t, ht, hreq ▸ hb⟩

lemma lt_started_of_identity {s : Server} (hs : WellFormed s) {i : ℕ} {id : Request × ℕ}
    (h : identity s i = some id) : i < s.started := by
  obtain ⟨t, ht, -⟩ := identity_eq_some.mp h
  exact hs.bound i t ht

lemma WellFormed.queue_lt {s : Server} (hs : WellFormed s) {p : Pending} (hp : p ∈ s.queue) : p.task < s.started := by
  obtain ⟨req, sid, hid, -⟩ := hs.queue p hp
  exact lt_started_of_identity hs hid

lemma WellFormed.replies_lt {s : Server} (hs : WellFormed s) {a : Answer} (ha : a ∈ s.replies) :
    a.task < s.started := by
  obtain ⟨req, sid, hid, -⟩ := hs.replies a ha
  exact lt_started_of_identity hs hid

theorem WellFormed.step {s : Server} (hs : WellFormed s) (scope : Scope) (e : Event) :
    WellFormed (s.step scope e) := by
  cases e with
  | arrive sid req now =>
    rw [step_arrive]
    exact (hs.enter sid req).commit scope (enter_task s sid req) _
      (fun p hp => (begin_issued req _ rfl p hp).belongs)
  | exec =>
    cases hq : s.queue with
    | nil => rwa [step_exec_nil scope hq]
    | cons p rest =>
      rw [step_exec_cons scope hq]
      have hp := hs.queue p (hq ▸ List.mem_cons_self)
      refine ⟨hs.bound, fun q hqr => hs.queue q (hq ▸ List.mem_cons_of_mem _ hqr), ?_, ?_⟩
      · intro a ha
        rcases List.mem_append.mp ha with ha | ha
        · exact hs.replies a ha
        · obtain rfl := List.mem_singleton.mp ha
          exact hp
      · intro i cmd r h
        rcases List.mem_append.mp h with h | h
        · exact hs.log i cmd r h
        · simp only [List.mem_singleton, Observation.executed.injEq, Actor.task.injEq] at h
          exact h.1 ▸ hs.queue_lt (hq ▸ List.mem_cons_self)
  | deliver now =>
    cases hr : s.replies with
    | nil => rwa [step_deliver_nil scope hr]
    | cons a rest =>
      obtain ⟨t, ht, hb⟩ := hs.head_task hr
      have hrest : WellFormed { s with replies := rest } :=
        ⟨hs.bound, hs.queue, fun b hb => hs.replies b (hr ▸ List.mem_cons_of_mem _ hb), hs.log⟩
      rw [step_deliver_cons scope hr ht]
      exact hrest.commit scope ht _ (fun p hp => (run_issued a.callback a.reply _ rfl p hp).belongs hb)
  | spawn argv => exact ⟨hs.bound, hs.queue, hs.replies, hs.log⟩
  | adminStep j now =>
    refine ⟨hs.bound, hs.queue, hs.replies, fun i cmd r h => hs.log i cmd r ?_⟩
    exact executed_mem_adminStep.mp h

theorem wellFormed_after (scope : Scope) (store : Store) (sessions : ℕ → Session) (es : List Event) :
    WellFormed (Runs.after (Server.step scope) { store, sessions } es) := by
  induction es using List.reverseRecOn with
  | nil => exact wellFormed_init store sessions
  | append_singleton es e ih =>
    rw [Runs.after_concat]
    exact ih.step scope e

/-- A task keeps its request and its session id. -/
lemma identity_step {s : Server} (hs : WellFormed s) (scope : Scope) (e : Event) {i : ℕ} {id : Request × ℕ}
    (h : identity s i = some id) : identity (s.step scope e) i = some id := by
  cases e with
  | arrive sid req now =>
    obtain ⟨t, hi, _⟩ := identity_eq_some.mp h
    rw [step_arrive, identity_commit scope _ (enter_task s sid req), identity_enter,
      if_neg (hs.bound i t hi).ne, h]
  | exec =>
    cases hq : s.queue with
    | nil => rwa [step_exec_nil scope hq]
    | cons p rest =>
      rw [step_exec_cons scope hq]
      exact h
  | deliver now =>
    cases hr : s.replies with
    | nil => rwa [step_deliver_nil scope hr]
    | cons a rest =>
      obtain ⟨t, ht, _⟩ := hs.head_task hr
      rw [step_deliver_cons scope hr ht, identity_commit scope { s with replies := rest } ht]
      exact h
  | spawn argv => exact h
  | adminStep j now => exact h

/-! ### Invocations -/

lemma admins_adminStep_self (scope : Scope) (s : Server) (j now : ℕ) :
    (s.step scope (.adminStep j now)).admins j = ((s.admins j).step s.store now).2.1 :=
  Function.update_self _ _ _

lemma admins_adminStep_of_ne (scope : Scope) (s : Server) {i j : ℕ} (h : i ≠ j) (now : ℕ) :
    (s.step scope (.adminStep j now)).admins i = s.admins i :=
  Function.update_of_ne h _ _

/-- What holds of every invocation and of a new one holds after the start of one. -/
lemma forall_admins_spawn {P : AdminTool.Proc → Prop} (scope : Scope) {s : Server} (h : ∀ j, P (s.admins j))
    {argv : List String} (hnew : P (AdminTool.main argv)) (j : ℕ) : P ((s.step scope (.spawn argv)).admins j) := by
  by_cases hj : j = s.spawned
  · subst hj
    simpa [Server.step] using hnew
  · simpa [Server.step, Function.update_of_ne hj] using h j

/-- What holds of every invocation holds after a step of one that keeps it. -/
lemma forall_admins_adminStep {P : AdminTool.Proc → Prop} (scope : Scope) {s : Server} (h : ∀ j, P (s.admins j))
    {j now : ℕ} (hstep : P ((s.admins j).step s.store now).2.1) (i : ℕ) :
    P ((s.step scope (.adminStep j now)).admins i) := by
  by_cases hij : i = j
  · rwa [hij, admins_adminStep_self]
  · rw [admins_adminStep_of_ne scope s hij]
    exact h i

/-- An invocation that was not started has nothing to do. -/
def Unstarted (s : Server) : Prop := ∀ j, s.spawned ≤ j → s.admins j = .todo []

lemma Unstarted.spawn {s : Server} (h : Unstarted s) (scope : Scope) (argv : List String) :
    Unstarted (s.step scope (.spawn argv)) := by
  intro j hj
  have hlt : s.spawned < j := hj
  simpa [Server.step, Function.update_of_ne hlt.ne'] using h j hlt.le

lemma Unstarted.adminStep {s : Server} (h : Unstarted s) (scope : Scope) (j now : ℕ) :
    Unstarted (s.step scope (.adminStep j now)) := by
  intro i hi
  by_cases hij : i = j
  · have htodo : s.admins j = .todo [] := h j (hij ▸ hi)
    rw [hij, admins_adminStep_self, htodo]
    rfl
  · rw [admins_adminStep_of_ne scope s hij]
    exact h i hi

end ExpressAuth.Proofs
