import ExpressAuth.Proofs.ServerInvariants

/-!
# Request isolation

The server as written keeps `user` and `token` in the process. It behaves as if they were
local to each request on every schedule on which no callback finds the value of another
request in them.
-/

namespace ExpressAuth.Proofs
open Server

/-- What a request assigns to `user` in order to read it back in a callback. -/
def ownUser : Request → JsVal
  | .getVerify uid _ => .str uid
  | .getNewPassword uid _ => .str uid
  | .postResetPassword username _ _ => username
  | _ => .undefined

/-- What a request assigns to `token`. -/
def ownToken : Request → JsVal
  | .getVerify _ token => .str token
  | .getNewPassword _ token => .str token
  | _ => .undefined

/-- When a callback that reads `user` or `token` runs, the variable still holds what the
callback's own request assigned to it. -/
def KeepsOwn (s : Server) : Event → Prop
  | .deliver _ => ∀ a ∈ s.replies.head?, ∀ t ∈ s.tasks a.task,
      (readsUser a.callback = true → s.vars.user = ownUser t.request) ∧
      (readsToken a.callback = true → s.vars.token = ownToken t.request)
  | _ => True

instance (s : Server) (e : Event) : Decidable (KeepsOwn s e) :=
  match e with
  | .deliver _ => inferInstanceAs (Decidable (∀ a ∈ s.replies.head?, ∀ t ∈ s.tasks a.task,
      (readsUser a.callback = true → s.vars.user = ownUser t.request) ∧
      (readsToken a.callback = true → s.vars.token = ownToken t.request)))
  | .arrive _ _ _ | .exec | .spawn _ | .adminStep _ _ => inferInstanceAs (Decidable True)

/-- The requests that act on the record of the user they name. -/
def actsOnOwn : Request → Bool
  | .getVerify _ _ | .getNewPassword _ _ | .postResetPassword _ _ _ => true
  | _ => false

/-- The token of a link request was compared with the timestamp read for its own user. -/
def DecidedOn (log : List Observation) (i : ℕ) (uid token : String) : Prop :=
  ∃ v, .executed (.task i) (.hget uid .timestamp) (.bulk v) ∈ log ∧
    token = sha256Hex (JsVal.ofReply v).toText

lemma DecidedOn.mono {log log' : List Observation} {i : ℕ} {uid token : String} (h : DecidedOn log i uid token)
    (hl : ∀ o ∈ log, o ∈ log') : DecidedOn log' i uid token := by
  obtain ⟨v, hv, htoken⟩ := h
  exact ⟨v, hl _ hv, htoken⟩

/-- Every link request acts on its own user and its own token. -/
structure OwnRecords (s : Server) : Prop where
  writes : ∀ i req sid k f v r, identity s i = some (req, sid) → actsOnOwn req = true →
    .executed (.task i) (.hset k f v) r ∈ s.log → k = (ownUser req).toText
  verify : ∀ i t uid token, s.tasks i = some t → t.request = .getVerify uid token →
    t.response = some (.render .success) → DecidedOn s.log i uid token
  newPassword : ∀ i t uid token flash, s.tasks i = some t → t.request = .getNewPassword uid token →
    t.response = some (.render (.acceptPassword flash)) →
    DecidedOn s.log i uid token ∧ t.session.user = .str uid

/-! ### The server with local variables -/

/-- A command of a link request writes to its own user's hash only, a callback waits for it only
if that user is not an array, and the timestamp its callbacks work with was read for that user. -/
structure OwnCommand (log : List Observation) (i : ℕ) (req : Request) (cmd : Cmd) (callback : Callback) :
    Prop where
  key : actsOnOwn req = true → ∀ k f v, cmd = .hset k f v → k = (ownUser req).toText
  plain : actsOnOwn req = true → callback ≠ .missing → (ownUser req).isArray = false
  verify : ∀ uid token, req = .getVerify uid token → callback = .verifyTimestamp → cmd = .hget uid .timestamp
  newPassword : ∀ uid token, req = .getNewPassword uid token → callback = .newPasswordTimestamp →
    cmd = .hget uid .timestamp
  flag : ∀ uid token timestamp, req = .getNewPassword uid token → callback = .newPasswordFlag timestamp →
    ∃ v, .executed (.task i) (.hget uid .timestamp) (.bulk v) ∈ log ∧ timestamp = JsVal.ofReply v

lemma OwnCommand.mono {log log' : List Observation} (h : ∀ o ∈ log, o ∈ log') {i : ℕ} {req : Request}
    {cmd : Cmd} {callback : Callback} (hc : OwnCommand log i req cmd callback) :
    OwnCommand log' i req cmd callback := by
  refine ⟨hc.key, hc.plain, hc.verify, hc.newPassword, ?_⟩
  intro uid token timestamp hreq hcb
  obtain ⟨v, hv, ht⟩ := hc.flag uid token timestamp hreq hcb
  exact ⟨v, h _ hv, ht⟩

/-- The local variables of a link request are its own. -/
def OwnVars (s : Server) : Prop :=
  ∀ i t, s.tasks i = some t → actsOnOwn t.request = true →
    t.vars.user = ownUser t.request ∧ t.vars.token = ownToken t.request

/-- What the server with local variables keeps. -/
structure OwnRun (s : Server) : Prop where
  queue : ∀ p ∈ s.queue, ∀ req sid, identity s p.task = some (req, sid) →
    OwnCommand s.log p.task req p.cmd p.callback
  replies : ∀ a ∈ s.replies, ∀ req sid, identity s a.task = some (req, sid) →
    ∃ cmd store, OwnCommand s.log a.task req cmd a.callback ∧ a.reply = (cmd.exec store).2 ∧
      .executed (.task a.task) cmd a.reply ∈ s.log
  executed : ∀ i k f v r req sid, .executed (.task i) (.hset k f v) r ∈ s.log → identity s i = some (req, sid) →
    actsOnOwn req = true → k = (ownUser req).toText
  verify : ∀ i t uid token, s.tasks i = some t → t.request = .getVerify uid token →
    t.response = some (.render .success) → DecidedOn s.log i uid token
  newPassword : ∀ i t uid token flash, s.tasks i = some t → t.request = .getNewPassword uid token →
    t.response = some (.render (.acceptPassword flash)) →
    DecidedOn s.log i uid token ∧ t.session.user = .str uid

lemma ownRun_init (store : Store) : OwnRun { store } :=
  ⟨by simp, by simp, by simp, by simp, by simp⟩

lemma Opening.own {c : Ctx} {req : Request} {cmd : Cmd} {callback : Callback}
    (h : Opening c req cmd callback) (log : List Observation) (i : ℕ) : OwnCommand log i req cmd callback := by
  cases h with
  | array h hcmd =>
    refine ⟨fun ha k f v hset => ?_, by simp, by simp, by simp, by simp⟩
    have hname := Cmd.eq_hset_of_ofArgs (hcmd.symm.trans hset)
    cases req <;> simp [actsOnOwn] at ha <;> simp [openingCall, hname] at h
  | _ => constructor <;> simp_all [actsOnOwn, ownUser, JsVal.isArray]

/-- Where `user` and `token` are the request's own, so is every command of a callback. -/
lemma FollowUp.own {c : Ctx} {r : Reply} {callback callback' : Callback} {cmd cmd' : Cmd} {req : Request}
    {log : List Observation} {i : ℕ} {store : Store} (h : FollowUp c r callback cmd' callback')
    (hb : isCallbackOf callback req = true) (hu : actsOnOwn req = true → c.vars.user = ownUser req)
    (hc : OwnCommand log i req cmd callback) (hr : r = (cmd.exec store).2)
    (he : .executed (.task i) cmd r ∈ log) : OwnCommand log i req cmd' callback' := by
  cases h with
  | newPasswordTimestamp =>
    refine ⟨by simp, fun ha _ => hc.plain ha (by simp), by simp, by simp, ?_⟩
    intro uid token timestamp hreq hcb
    obtain rfl := hc.newPassword uid token hreq rfl
    subst hr
    refine ⟨store.hget uid .timestamp, he, ?_⟩
    simpa [Reply.obj, Cmd.exec] using hcb.symm
  | login h | createPassword h | createMail h =>
    cases req <;> simp [isCallbackOf] at hb
    constructor <;> simp [actsOnOwn]
  | resetMail h => exact ⟨by simp, fun ha _ => hc.plain ha (by simp), by simp, by simp, by simp⟩
  | verify h | resetTimestamp h | resetFlag h | newPasswordFlag h =>
    refine ⟨fun ha k f v hset => ?_, fun ha _ => hc.plain ha (by simp), by simp, by simp, by simp⟩
    obtain ⟨rfl, -⟩ := Cmd.hset.inj hset
    exact congrArg JsVal.toText (hu ha)
  | array h hcmd =>
    -- The user of a request with a callback to run is not an array.
    refine ⟨fun ha => ?_, by simp, by simp, by simp, by simp⟩
    have hplain := hc.plain ha (by rintro rfl; simp [followUpCall] at h)
    cases callback <;> simp [followUpCall] at h <;> cases req <;> simp [isCallbackOf, actsOnOwn] at hb ha <;>
      simp [← hu rfl, h, JsVal.isArray] at hplain

lemma begin_own_vars (req : Request) (c : Ctx) (hc : c.vars.token = .undefined) (ha : actsOnOwn req = true) :
    (req.begin c).vars.user = ownUser req ∧ (req.begin c).vars.token = ownToken req := by
  have hreq : ∀ url, req ≠ .getSecure url := by
    rintro url rfl
    simp [actsOnOwn] at ha
  rw [begin_eq_handler req hreq]
  cases req <;> simp [actsOnOwn] at ha <;>
    simp [Request.handler, Routes.getVerify, Routes.getNewPassword, Routes.postResetPassword, ownUser, ownToken, hc]

lemma OwnVars.commit {s : Server} {i : ℕ} {t : Task} {c : Ctx}
    (hs : ∀ j t', j ≠ i → s.tasks j = some t' → actsOnOwn t'.request = true →
      t'.vars.user = ownUser t'.request ∧ t'.vars.token = ownToken t'.request)
    (hc : actsOnOwn t.request = true → c.vars.user = ownUser t.request ∧ c.vars.token = ownToken t.request) :
    OwnVars (s.commit .request i t c) := by
  intro j t' hj ha
  by_cases hji : j = i
  · subst hji
    rw [commit_task, Option.some.injEq] at hj
    subst hj
    exact hc ha
  · exact hs j t' hji (commit_tasks _ _ _ _ _ hj hji) ha

theorem OwnVars.step {s : Server} (hw : WellFormed s) (hs : OwnVars s) (e : Event) :
    OwnVars (s.step .request e) := by
  cases e with
  | arrive sid req now =>
    rw [step_arrive]
    exact .commit (fun j t' hj ht' => hs j t' (enter_tasks s sid req ht' hj))
      (fun ha => begin_own_vars req _ rfl ha)
  | exec =>
    cases hq : s.queue with
    | nil => rwa [step_exec_nil _ hq]
    | cons p rest =>
      rw [step_exec_cons _ hq]
      exact hs
  | deliver now =>
    cases hr : s.replies with
    | nil => rwa [step_deliver_nil _ hr]
    | cons a rest =>
      obtain ⟨t, ht, -⟩ := hw.head_task hr
      rw [step_deliver_cons _ hr ht]
      refine .commit (fun j t' _ ht' => hs j t' ht') (fun ha => ?_)
      obtain ⟨hu, htok⟩ := run_keeps_user_token a.callback a.reply (s.context .request t now)
      rw [hu, htok]
      exact hs a.task t ht ha
  | spawn argv => exact hs
  | adminStep j now => exact hs

/-- A segment keeps the local run in order when its commands and its answer are its own. -/
lemma OwnRun.commit {s : Server} (hs : OwnRun s) {i : ℕ} {t : Task} (ht : s.tasks i = some t) (c : Ctx)
    (hi : ∀ p ∈ c.issued, OwnCommand s.log i t.request p.1 p.2)
    (hverify : ∀ uid token, t.request = .getVerify uid token → c.response = some (.render .success) →
      DecidedOn s.log i uid token)
    (hnew : ∀ uid token flash, t.request = .getNewPassword uid token →
      c.response = some (.render (.acceptPassword flash)) → DecidedOn s.log i uid token ∧ c.session.user = .str uid)
    (hkeep : ∀ uid token, t.request = .getNewPassword uid token → t.session.user = .str uid →
      c.session.user = .str uid) :
    OwnRun (s.commit .request i t c) := by
  have hlog : ∀ o ∈ s.log, o ∈ (s.commit .request i t c).log := fun o ho => List.mem_append_left _ ho
  refine ⟨?_, ?_, ?_, ?_, ?_⟩
  · intro p hp req sid hid
    rw [identity_commit _ _ ht] at hid
    rcases List.mem_append.mp hp with hp | hp
    · exact (hs.queue p hp req sid hid).mono hlog
    · obtain ⟨q, hq, rfl⟩ := List.mem_map.mp hp
      rw [identity_of_task ht, Option.some.injEq, Prod.mk.injEq] at hid
      exact (hid.1 ▸ hi q hq).mono hlog
  · intro a ha req sid hid
    rw [identity_commit _ _ ht] at hid
    obtain ⟨cmd, store, hc, hr, he⟩ := hs.replies a ha req sid hid
    exact ⟨cmd, store, hc.mono hlog, hr, hlog _ he⟩
  · intro j k f v r req sid he hid
    rw [identity_commit _ _ ht] at hid
    exact hs.executed j k f v r req sid (executed_mem_commit.mp he) hid
  · intro j t' uid token hj hreq hres
    by_cases hji : j = i
    · subst hji
      rw [commit_task, Option.some.injEq] at hj
      subst hj
      rcases Option.or_eq_some_iff.mp hres with hc | ⟨-, hold⟩
      · exact (hverify uid token hreq hc).mono hlog
      · exact (hs.verify j t uid token ht hreq hold).mono hlog
    · exact (hs.verify j t' uid token (commit_tasks _ _ _ _ _ hj hji) hreq hres).mono hlog
  · intro j t' uid token flash hj hreq hres
    by_cases hji : j = i
    · subst hji
      rw [commit_task, Option.some.injEq] at hj
      subst hj
      rcases Option.or_eq_some_iff.mp hres with hc | ⟨-, hold⟩
      · exact ⟨(hnew uid token flash hreq hc).1.mono hlog, (hnew uid token flash hreq hc).2⟩
      · have h := hs.newPassword j t uid token flash ht hreq hold
        exact ⟨h.1.mono hlog, hkeep uid token hreq h.2⟩
    · have h := hs.newPassword j t' uid token flash (commit_tasks _ _ _ _ _ hj hji) hreq hres
      exact ⟨h.1.mono hlog, h.2⟩

lemma OwnRun.enter {s : Server} (hw : WellFormed s) (hs : OwnRun s)
    (hlog : ∀ cmd r, .executed (.task s.started) cmd r ∉ s.log) (sid : ℕ) (req : Request) :
    OwnRun (s.enter sid req) := by
  have hold : ∀ {j : ℕ} {r : Request} {k : ℕ}, (∃ id, identity s j = some id) →
      identity (s.enter sid req) j = some (r, k) → identity s j = some (r, k) := by
    rintro j r k ⟨⟨r', k'⟩, hid⟩ h
    obtain ⟨t, ht, -⟩ := identity_eq_some.mp hid
    rwa [identity_enter, if_neg (hw.bound j t ht).ne] at h
  refine ⟨?_, ?_, ?_, ?_, ?_⟩
  · intro p hp r k hid
    obtain ⟨r', k', h, -⟩ := hw.queue p hp
    exact hs.queue p hp r k (hold ⟨_, h⟩ hid)
  · intro a ha r k hid
    obtain ⟨r', k', h, -⟩ := hw.replies a ha
    exact hs.replies a ha r k (hold ⟨_, h⟩ hid)
  · intro j key f v r req' k he hid
    rw [identity_enter] at hid
    by_cases hj : j = s.started
    · exact absurd (hj ▸ he) (hlog _ r)
    · rw [if_neg hj] at hid
      exact hs.executed j key f v r req' k he hid
  · intro j t uid token hj hreq hres
    by_cases hji : j = s.started
    · subst hji
      rw [enter_task, Option.some.injEq] at hj
      simp [← hj] at hres
    · exact hs.verify j t uid token (enter_tasks s sid req hj hji) hreq hres
  · intro j t uid token flash hj hreq hres
    by_cases hji : j = s.started
    · subst hji
      rw [enter_task, Option.some.injEq] at hj
      simp [← hj] at hres
    · exact hs.newPassword j t uid token flash (enter_tasks s sid req hj hji) hreq hres

/-- Only tasks, commands in flight and the commands executed for tasks matter. -/
lemma OwnRun.congr {s s' : Server} (hs : OwnRun s) (ht : s'.tasks = s.tasks) (hq : s'.queue = s.queue)
    (hr : s'.replies = s.replies) (hl : ∀ o ∈ s.log, o ∈ s'.log)
    (he : ∀ i cmd r, .executed (.task i) cmd r ∈ s'.log → .executed (.task i) cmd r ∈ s.log) : OwnRun s' := by
  have hid : ∀ j, identity s' j = identity s j := by simp [identity, ht]
  refine ⟨?_, ?_, ?_, ?_, ?_⟩
  · intro p hp req sid h
    exact (hs.queue p (hq ▸ hp) req sid (hid _ ▸ h)).mono hl
  · intro a ha req sid h
    obtain ⟨cmd, store, hc, hrep, hex⟩ := hs.replies a (hr ▸ ha) req sid (hid _ ▸ h)
    exact ⟨cmd, store, hc.mono hl, hrep, hl _ hex⟩
  · intro i k f v r req sid h hi
    exact hs.executed i k f v r req sid (he i _ r h) (hid _ ▸ hi)
  · intro i t uid token hi hreq hres
    exact (hs.verify i t uid token (ht ▸ hi) hreq hres).mono hl
  · intro i t uid token flash hi hreq hres
    have h := hs.newPassword i t uid token flash (ht ▸ hi) hreq hres
    exact ⟨h.1.mono hl, h.2⟩

/-- Executing the oldest command. -/
lemma OwnRun.perform {s : Server} (hs : OwnRun s) {p : Pending} {rest : List Pending} (hq : s.queue = p :: rest) :
    OwnRun (s.perform p rest) := by
  have hlog : ∀ o ∈ s.log, o ∈ (s.perform p rest).log := fun o ho => List.mem_append_left _ ho
  have hp : p ∈ s.queue := hq ▸ List.mem_cons_self
  refine ⟨?_, ?_, ?_, ?_, ?_⟩
  · intro q hqr req sid hid
    exact (hs.queue q (hq ▸ List.mem_cons_of_mem _ hqr) req sid hid).mono hlog
  · intro a ha req sid hid
    rcases List.mem_append.mp ha with ha | ha
    · obtain ⟨cmd, store, hc, hrep, hex⟩ := hs.replies a ha req sid hid
      exact ⟨cmd, store, hc.mono hlog, hrep, hlog _ hex⟩
    · obtain rfl := List.mem_singleton.mp ha
      exact ⟨p.cmd, s.store, (hs.queue p hp req sid hid).mono hlog, rfl, by simp [Server.perform]⟩
  · intro i k f v r req sid he hid ha
    rcases List.mem_append.mp he with he | he
    · exact hs.executed i k f v r req sid he hid ha
    · simp only [List.mem_singleton, Observation.executed.injEq, Actor.task.injEq] at he
      obtain ⟨rfl, hcmd, -⟩ := he
      exact (hs.queue p hp req sid hid).key ha k f v hcmd.symm
  · intro i t uid token hi hreq hres
    exact (hs.verify i t uid token hi hreq hres).mono hlog
  · intro i t uid token flash hi hreq hres
    have h := hs.newPassword i t uid token flash hi hreq hres
    exact ⟨h.1.mono hlog, h.2⟩

/-- Running the callback of the oldest reply. -/
lemma OwnRun.deliver {s : Server} (hs : OwnRun s) (hv : OwnVars s) {a : Answer} {rest : List Answer} {t : Task}
    (hr : s.replies = a :: rest) (ht : s.tasks a.task = some t) (hb : isCallbackOf a.callback t.request = true)
    (now : ℕ) : OwnRun ({ s with replies := rest }.commit .request a.task t
      (a.callback.run a.reply (s.context .request t now))) := by
  have hrest : OwnRun { s with replies := rest } :=
    ⟨hs.queue, fun b hb => hs.replies b (hr ▸ List.mem_cons_of_mem _ hb), hs.executed, hs.verify,
      hs.newPassword⟩
  obtain ⟨cmd, store, hc, hrep, hex⟩ :=
    hs.replies a (hr ▸ List.mem_cons_self) t.request t.sid (identity_of_task ht)
  have huser : actsOnOwn t.request = true → t.vars.user = ownUser t.request := fun ha => (hv _ t ht ha).1
  have htoken : actsOnOwn t.request = true → t.vars.token = ownToken t.request := fun ha => (hv _ t ht ha).2
  refine hrest.commit ht _
    (fun p hp => (run_issued a.callback a.reply _ rfl p hp).own hb huser hc hrep hex) ?_ ?_ ?_
  · intro uid token hreq hres
    obtain ⟨hcb, hacc, -⟩ | ⟨_, _, -, -, hpage, -⟩ := run_accepts a.callback a.reply _ rfl hres rfl
    · obtain rfl := hc.verify uid token hreq hcb
      have htok := (htoken (by simp [hreq, actsOnOwn])).symm.trans hacc.1
      rw [hreq, hrep] at htok
      exact ⟨_, hrep ▸ hex, by simpa [ownToken, Cmd.exec, Reply.obj] using htok⟩
    · simp at hpage
  · intro uid token flash hreq hres
    have ha : actsOnOwn t.request = true := by simp [hreq, actsOnOwn]
    obtain ⟨-, -, hpage⟩ | ⟨timestamp, _, hcb, hacc, -, hu⟩ := run_accepts a.callback a.reply _ rfl hres rfl
    · simp at hpage
    · obtain ⟨v, hv, rfl⟩ := hc.flag uid token timestamp hreq hcb
      have htok := (htoken ha).symm.trans hacc.1
      refine ⟨⟨v, hv, by simpa [hreq, ownToken] using htok⟩, ?_⟩
      rw [hu]
      exact (huser ha).trans (by simp [hreq, ownUser])
  · intro uid token hreq hu
    obtain h | ⟨username, hcb, -⟩ | ⟨_, -, -, h⟩ := run_user a.callback a.reply (s.context .request t now)
    · exact h.trans hu
    · simp [hcb, hreq, isCallbackOf] at hb
    · rw [h]
      exact (huser (by simp [hreq, actsOnOwn])).trans (by simp [hreq, ownUser])

theorem OwnRun.step {s : Server} (hw : WellFormed s) (hv : OwnVars s) (hs : OwnRun s) (e : Event) :
    OwnRun (s.step .request e) := by
  cases e with
  | arrive sid req now =>
    rw [step_arrive]
    have haccept := begin_accepts req ((s.enter sid req).context .request
      { sid, request := req, session := s.sessions sid } now) rfl
    refine (hs.enter hw (fun cmd r h => (hw.log _ cmd r h).ne rfl) sid req).commit (enter_task s sid req) _
      (fun p hp => (begin_issued req _ rfl p hp).own _ _) ?_ ?_ ?_
    · intro uid token _ hres
      simpa [acceptsLink] using haccept _ hres
    · intro uid token flash _ hres
      simpa [acceptsLink] using haccept _ hres
    · intro uid token _ hu
      rw [begin_user]
      exact hu
  | exec =>
    cases hq : s.queue with
    | nil => rwa [step_exec_nil _ hq]
    | cons p rest =>
      rw [step_exec_cons _ hq]
      exact hs.perform hq
  | deliver now =>
    cases hr : s.replies with
    | nil => rwa [step_deliver_nil _ hr]
    | cons a rest =>
      obtain ⟨t, ht, hb⟩ := hw.head_task hr
      rw [step_deliver_cons _ hr ht]
      exact hs.deliver hv hr ht hb now
  | spawn argv => exact hs.congr rfl rfl rfl (fun _ h => h) (fun _ _ _ h => h)
  | adminStep j now =>
    exact hs.congr rfl rfl rfl (fun _ h => List.mem_append_left _ h) (fun _ _ _ h => executed_mem_adminStep.mp h)

/-! ### Lockstep of the two servers -/

def forgetTask (t : Task) : Task := { t with vars := {} }

/-- A server without its undeclared variables. -/
def forget (s : Server) : Server := { s with vars := {}, tasks := fun i => (s.tasks i).map forgetTask }

lemma forget_task {s s' : Server} (h : forget s = forget s') {i : ℕ} {t : Task} (ht : s.tasks i = some t) :
    ∃ t', s'.tasks i = some t' ∧ forgetTask t' = forgetTask t := by
  have hi : (s.tasks i).map forgetTask = (s'.tasks i).map forgetTask := congrFun (congrArg Server.tasks h) i
  rw [ht] at hi
  simpa [eq_comm] using hi

lemma forget_commit {s s' : Server} (h : forget s = forget s') (i : ℕ) {t t' : Task}
    (ht : forgetTask t' = forgetTask t) {c c' : Ctx} (hc : outputs c = outputs c') :
    forget (s.commit .process i t c) = forget (s'.commit .request i t' c') := by
  simp only [forget, Server.mk.injEq] at h
  simp only [forgetTask, Task.mk.injEq] at ht
  simp only [outputs, Prod.mk.injEq] at hc
  obtain ⟨hstore, hqueue, hreplies, -, hsessions, htasks, hstarted, hadmins, hspawned, hlog⟩ := h
  obtain ⟨hsid, hreq, hsession, -, hresponse⟩ := ht
  obtain ⟨hcs, hci, hcr, hcf⟩ := hc
  simp only [forget, commit, Server.mk.injEq]
  refine ⟨hstore, by rw [hqueue, hci], hreplies, trivial, by rw [hcr, hcs, hsid, hsessions], ?_, hstarted, hadmins,
    hspawned, by simp only [observations, hlog, hcf, hcr, hcs, hsid]⟩
  funext j
  by_cases hj : j = i
  · subst hj
    simp [forgetTask, hreq, hsid, hcs, hcr, hresponse]
  · simpa [Function.update_of_ne hj] using congrFun htasks j

lemma forget_enter {s s' : Server} (h : forget s = forget s') (sid : ℕ) (req : Request) :
    forget (s.enter sid req) = forget (s'.enter sid req) := by
  simp only [forget, Server.mk.injEq] at h
  obtain ⟨hstore, hqueue, hreplies, -, hsessions, htasks, hstarted, hadmins, hspawned, hlog⟩ := h
  simp only [forget, Server.enter, Server.mk.injEq]
  refine ⟨hstore, hqueue, hreplies, trivial, hsessions, ?_, by rw [hstarted], hadmins, hspawned, hlog⟩
  funext j
  by_cases hj : j = s'.started
  · subst hj
    simp [hstarted, hsessions]
  · simpa [hstarted, Function.update_of_ne hj] using congrFun htasks j

lemma actsOnOwn_of_reads {callback : Callback} {req : Request} (hb : isCallbackOf callback req = true)
    (h : readsUser callback = true ∨ readsToken callback = true) : actsOnOwn req = true := by
  cases callback <;> simp [readsUser, readsToken] at h <;> cases req <;> simp [isCallbackOf] at hb <;> rfl

/-- One event, in which no callback reads another request's value, keeps the two servers alike. -/
theorem lockstep {s s' : Server} (h : forget s = forget s') (hw : WellFormed s) (hv : OwnVars s')
    {e : Event} (hk : KeepsOwn s e) : forget (s.step .process e) = forget (s'.step .request e) := by
  have hf := h
  simp only [forget, Server.mk.injEq] at hf
  obtain ⟨hstore, hqueue, hreplies, -, hsessions, htasks, hstarted, hadmins, hspawned, hlog⟩ := hf
  cases e with
  | arrive sid req now =>
    rw [step_arrive, step_arrive, hstarted, hsessions]
    refine forget_commit (forget_enter h sid req) _ rfl ?_
    exact begin_outputs req { now, vars := {}, session := s'.sessions sid } s.vars
  | exec =>
    cases hq : s.queue with
    | nil => rwa [step_exec_nil _ hq, step_exec_nil _ (hqueue ▸ hq)]
    | cons p rest =>
      rw [step_exec_cons _ hq, step_exec_cons _ (hqueue ▸ hq)]
      simp only [forget, perform, Server.mk.injEq]
      exact ⟨by rw [hstore], trivial, by rw [hreplies, hstore], trivial, hsessions, htasks, hstarted, hadmins,
        hspawned, by rw [hlog, hstore]⟩
  | deliver now =>
    cases hr : s.replies with
    | nil => rwa [step_deliver_nil _ hr, step_deliver_nil _ (hreplies ▸ hr)]
    | cons a rest =>
      obtain ⟨t, ht, hb⟩ := hw.head_task hr
      obtain ⟨t', ht', htt⟩ := forget_task h ht
      rw [step_deliver_cons _ hr ht, step_deliver_cons _ (hreplies ▸ hr) ht']
      have hrest : forget { s with replies := rest } = forget { s' with replies := rest } := by
        simp only [forget, Server.mk.injEq]
        exact ⟨hstore, hqueue, trivial, trivial, hsessions, htasks, hstarted, hadmins, hspawned, hlog⟩
      refine forget_commit hrest _ htt ?_
      simp only [forgetTask, Task.mk.injEq] at htt
      obtain ⟨-, hreq, hsession, -, -⟩ := htt
      obtain ⟨huser, htoken⟩ := hk a (by rw [hr, List.head?_cons]; rfl) t ht
      have hctx : s.context .process t now = { s'.context .request t' now with vars := s.vars } := by
        simp only [context, Scope.select, hsession]
      rw [hctx]
      apply run_outputs
      · intro hread
        have hown := hv a.task t' ht' (hreq ▸ actsOnOwn_of_reads hb (Or.inl hread))
        exact (huser hread).trans (hreq ▸ hown.1.symm)
      · intro hread
        have hown := hv a.task t' ht' (hreq ▸ actsOnOwn_of_reads hb (Or.inr hread))
        exact (htoken hread).trans (hreq ▸ hown.2.symm)
  | spawn argv =>
    simp only [forget, Server.step, Server.mk.injEq]
    exact ⟨hstore, hqueue, hreplies, trivial, hsessions, htasks, hstarted, by rw [hadmins, hspawned],
      by rw [hspawned], hlog⟩
  | adminStep j now =>
    simp only [forget, Server.step, Server.mk.injEq]
    exact ⟨by rw [hadmins, hstore], hqueue, hreplies, trivial, hsessions, htasks, hstarted,
      by rw [hadmins, hstore], hspawned, by rw [hlog, hadmins, hstore]⟩

/-- The server in which the undeclared variables are local to each request. -/
abbrev runLocal (store : Store) (es : List Event) : Server :=
  Runs.after (Server.step .request) { store } es

lemma ownRun_after (store : Store) (es : List Event) :
    OwnVars (runLocal store es) ∧ OwnRun (runLocal store es) := by
  induction es using List.reverseRecOn with
  | nil => exact ⟨fun i t h => by simp at h, ownRun_init store⟩
  | append_singleton es e ih =>
    have hw := wellFormed_after .request store (fun _ => {}) es
    rw [runLocal, Runs.after_concat]
    exact ⟨ih.1.step hw e, ih.2.step hw ih.1 e⟩

theorem lockstep_run (store : Store) (es : List Event)
    (h : Runs.Guarded (fun pre e => KeepsOwn (run store pre) e) es) :
    forget (run store es) = forget (runLocal store es) := by
  refine Runs.guarded_induction (P := fun es => forget (run store es) = forget (runLocal store es)) rfl ?_ es h
  intro pre e ih hk
  rw [run, runLocal, Runs.after_concat, Runs.after_concat]
  exact lockstep ih (wellFormed_after .process store _ pre) (ownRun_after store pre).1 hk

lemma ownRecords_of_forget {s s' : Server} (h : forget s = forget s') (hs : OwnRun s') : OwnRecords s := by
  have hlog : s.log = s'.log := by
    simp only [forget, Server.mk.injEq] at h
    exact h.2.2.2.2.2.2.2.2.2
  refine ⟨?_, ?_, ?_⟩
  · intro i req sid k f v r hid ha he
    obtain ⟨t, ht, rfl, rfl⟩ := identity_eq_some.mp hid
    obtain ⟨t', ht', htt⟩ := forget_task h ht
    simp only [forgetTask, Task.mk.injEq] at htt
    obtain ⟨hsid, hreq, -⟩ := htt
    exact hs.executed i k f v r _ _ (hlog ▸ he) (identity_eq_some.mpr ⟨t', ht', hreq, hsid⟩) ha
  · intro i t uid token ht hr hres
    obtain ⟨t', ht', htt⟩ := forget_task h ht
    simp only [forgetTask, Task.mk.injEq] at htt
    obtain ⟨-, hreq, -, -, hresponse⟩ := htt
    exact hlog ▸ hs.verify i t' uid token ht' (hreq.trans hr) (hresponse.trans hres)
  · intro i t uid token flash ht hr hres
    obtain ⟨t', ht', htt⟩ := forget_task h ht
    simp only [forgetTask, Task.mk.injEq] at htt
    obtain ⟨-, hreq, hsession, -, hresponse⟩ := htt
    have hn := hs.newPassword i t' uid token flash ht' (hreq.trans hr) (hresponse.trans hres)
    exact ⟨hlog ▸ hn.1, hsession ▸ hn.2⟩

/-- On every schedule on which the shared `user` and `token` still hold a request's own value
whenever one of its callbacks reads them back, the server as written executes the same
commands with the same replies, saves the same sessions and sends the same responses as the
server with local variables, and every link request acts on its own user and token. -/
theorem request_isolation (store : Store) (es : List Event)
    (h : Runs.Guarded (fun pre e => KeepsOwn (run store pre) e) es) :
    (run store es).log = (runLocal store es).log ∧ (run store es).store = (runLocal store es).store ∧
      (run store es).sessions = (runLocal store es).sessions ∧ OwnRecords (run store es) := by
  have hf := lockstep_run store es h
  have hr := ownRecords_of_forget hf (ownRun_after store es).2
  simp only [forget, Server.mk.injEq] at hf
  exact ⟨hf.2.2.2.2.2.2.2.2.2, hf.1, hf.2.2.2.2.1, hr⟩

/-- Two accounts, one of them able to ask for a reset link. -/
def twoAccounts : Store :=
  HashStore.writes ∅ [("mallory", .mail, "mallory@itsp.com"), ("mallory", .valid, "True"),
    ("alice", .mail, "alice@itsp.com"), ("alice", .valid, "True")]

/-- A reset for one user during which a link of another user is clicked. -/
def overlappingReset (clicked : String) : List Event :=
  [.arrive 0 (.postResetPassword (.str "mallory") (.str "mallory@itsp.com") true) 1480000000000, .exec,
    .arrive 1 (.getVerify clicked "0") 1480000000000, .deliver 1480000000000, .exec, .exec, .exec,
    .deliver 1480000000000, .deliver 1480000000000, .deliver 1480000000000, .exec, .exec]

theorem request_isolation_same_user :
    Runs.Guarded (fun pre e => KeepsOwn (run twoAccounts pre) e) (overlappingReset "mallory") ∧
      (run twoAccounts (overlappingReset "mallory")).log =
        (runLocal twoAccounts (overlappingReset "mallory")).log := by
  have hg : Runs.Guarded (fun pre e => KeepsOwn (run twoAccounts pre) e) (overlappingReset "mallory") :=
    Runs.guarded_of_forall_lt (by decide +kernel)
  exact ⟨hg, (request_isolation twoAccounts _ hg).1⟩

/-- With a click for another user in between, `POST /reset_password` of `mallory` marks the
record of `alice` for a new password; with local variables it does not. -/
theorem shared_user_redirects_reset :
    (run twoAccounts (overlappingReset "alice")).log ≠ (runLocal twoAccounts (overlappingReset "alice")).log ∧
      ¬OwnRecords (run twoAccounts (overlappingReset "alice")) := by
  have hmarked : .executed (.task 0) (.hset "alice" .newPassword "True") (.int 1) ∈
      (run twoAccounts (overlappingReset "alice")).log := by decide +kernel
  have hunmarked : .executed (.task 0) (.hset "alice" .newPassword "True") (.int 1) ∉
      (runLocal twoAccounts (overlappingReset "alice")).log := by decide +kernel
  have hid : identity (run twoAccounts (overlappingReset "alice")) 0 =
      some (.postResetPassword (.str "mallory") (.str "mallory@itsp.com") true, 0) := by decide +kernel
  constructor
  · intro heq
    exact hunmarked (heq ▸ hmarked)
  · intro hown
    have hkey := hown.writes 0 _ _ _ _ _ _ hid rfl hmarked
    exact absurd hkey (by decide)

end ExpressAuth.Proofs
