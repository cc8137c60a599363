import ExpressAuth.Proofs.OneUser

/-!
# Names that are not arrays

In a run whose forms have no array for the user name, none gets into a session, into the
undeclared `user` or into a callback, and every command has a callback that waits for it.
-/

namespace ExpressAuth.Proofs
open Server

/-- No form of the event has an array for the user name. -/
def textualEvent : Event → Bool
  | .arrive _ req _ => req.textual
  | _ => true

/-- There is a callback, and it closes over no array for the user name. -/
def plainCallback : Callback → Bool
  | .loginPassword username _ | .loginValid username | .createUserKeys username _ _ => !username.isArray
  | .missing => false
  | _ => true

structure PlainNames (s : Server) : Prop where
  sessions : ∀ sid, (s.sessions sid).user.isArray = false
  tasks : ∀ i t, s.tasks i = some t → t.session.user.isArray = false
  user : s.vars.user.isArray = false
  callbacks : ∀ x ∈ inFlight s, plainCallback x.2 = true

section Opening

variable {c : Ctx} {req : Request} (hreq : req.textual = true) (hs : c.session.user.isArray = false)
include hreq hs

lemma openingCall_ne_of_textual {name : CmdName} {items : List (Option String)} :
    openingCall c req ≠ some (name, .array items) := by
  intro harr
  cases req <;> simp [openingCall] at harr <;> simp [Request.textual, harr, JsVal.isArray] at hreq hs

lemma Opening.plainCallback {cmd : Cmd} {callback : Callback} (h : Opening c req cmd callback) :
    plainCallback callback = true := by
  cases h with
  | array h => exact absurd h (openingCall_ne_of_textual hreq hs)
  | _ => simp_all [Proofs.plainCallback, Request.textual]

lemma begin_vars_user_plain (hu : c.vars.user.isArray = false) : (req.begin c).vars.user.isArray = false := by
  rw [Request.begin, checkAuth_eq]
  split
  · exact hu
  · cases req with
    | postUpdateMail mail secure => exact hs
    | postResetPassword username mail secure =>
      have hname : username.isArray = false := by simpa [Request.textual] using hreq
      exact hname
    | getVerify | postVerifyMail | getNewPassword => rfl
    | postLogin | postUpdatePassword | postCreateUser | postNewPassword =>
      simp only [Request.handler, Routes.postLogin, Routes.postUpdatePassword, Routes.postCreateUser,
        Routes.postNewPassword]
      split <;> exact hu
    | _ => exact hu

end Opening

section FollowUp

variable {c : Ctx} {callback : Callback} (hb : plainCallback callback = true) (hu : c.vars.user.isArray = false)
include hb hu

lemma followUpCall_ne_of_plain {name : CmdName} {items : List (Option String)} :
    followUpCall c.vars.user callback ≠ some (name, .array items) := by
  intro harr
  cases callback <;> simp [followUpCall] at harr <;> simp [plainCallback, harr, JsVal.isArray] at hb hu

lemma FollowUp.plainCallback {r : Reply} {cmd : Cmd} {callback' : Callback}
    (h : FollowUp c r callback cmd callback') : Proofs.plainCallback callback' = true := by
  cases h with
  | array h => exact absurd h (followUpCall_ne_of_plain hb hu)
  | _ => simp_all [Proofs.plainCallback]

lemma run_session_plain (r : Reply) (hs : c.session.user.isArray = false) :
    (callback.run r c).session.user.isArray = false := by
  rcases run_user callback r c with h | ⟨username, rfl, -, h⟩ | ⟨timestamp, -, -, h⟩
  · rwa [h]
  · rw [h]
    simpa [plainCallback] using hb
  · rwa [h]

end FollowUp

lemma plainNames_init (store : Store) {sessions : ℕ → Session} (h : ∀ sid, (sessions sid).user.isArray = false) :
    PlainNames { store, sessions } :=
  ⟨h, by simp, rfl, by simp [inFlight]⟩

lemma PlainNames.commit {s : Server} (h : PlainNames s) (i : ℕ) (t : Task) {c : Ctx}
    (hs : c.session.user.isArray = false) (hu : c.vars.user.isArray = false)
    (hc : ∀ p ∈ c.issued, plainCallback p.2 = true) : PlainNames (s.commit .process i t c) := by
  refine ⟨fun sid => ?_, fun j t' hj => ?_, hu, fun x hx => ?_⟩
  · simp only [Server.commit]
    split
    · by_cases hsid : sid = t.sid
      · rwa [hsid, Function.update_self]
      · rw [Function.update_of_ne hsid]
        exact h.sessions sid
    · exact h.sessions sid
  · by_cases hji : j = i
    · subst hji
      rw [commit_task, Option.some.injEq] at hj
      rwa [← hj]
    · exact h.tasks j t' (commit_tasks _ _ _ _ _ hj hji)
  · rw [inFlight_commit, List.mem_append] at hx
    rcases hx with hx | hx
    · exact h.callbacks x hx
    · obtain ⟨p, hp, rfl⟩ := List.mem_map.mp hx
      exact hc p hp

lemma PlainNames.enter {s : Server} (h : PlainNames s) (sid : ℕ) (req : Request) : PlainNames (s.enter sid req) := by
  refine ⟨h.sessions, fun j t hj => ?_, h.user, h.callbacks⟩
  by_cases hji : j = s.started
  · subst hji
    rw [enter_task, Option.some.injEq] at hj
    rw [← hj]
    exact h.sessions sid
  · exact h.tasks j t (enter_tasks s sid req hj hji)

theorem PlainNames.step {s : Server} (h : PlainNames s) (hw : WellFormed s) {e : Event}
    (he : textualEvent e = true) : PlainNames (s.step .process e) := by
  cases e with
  | arrive sid req now =>
    rw [step_arrive]
    refine (h.enter sid req).commit _ _ ?_ (begin_vars_user_plain he (h.sessions sid) h.user) (fun p hp => ?_)
    · rw [begin_user]
      exact h.sessions sid
    · exact (begin_issued req _ rfl p hp).plainCallback he (h.sessions sid)
  | exec =>
    cases hq : s.queue with
    | nil => rwa [step_exec_nil .process hq]
    | cons p rest =>
      rw [step_exec_cons .process hq]
      refine ⟨h.sessions, h.tasks, h.user, fun x hx => h.callbacks x ?_⟩
      simpa [inFlight, Server.perform, hq] using hx
  | deliver now =>
    cases hr : s.replies with
    | nil => rwa [step_deliver_nil .process hr]
    | cons a rest =>
      obtain ⟨t, ht, -⟩ := hw.head_task hr
      rw [step_deliver_cons .process hr ht]
      have hb : plainCallback a.callback = true := h.callbacks _ (head_mem_inFlight hr)
      have hrest : PlainNames { s with replies := rest } := by
        refine ⟨h.sessions, h.tasks, h.user, fun x hx => h.callbacks x ?_⟩
        rw [inFlight, hr]
        exact List.mem_cons_of_mem _ hx
      refine hrest.commit _ _ (run_session_plain hb h.user _ (h.tasks _ t ht)) ?_ (fun p hp => ?_)
      · rw [(run_keeps_user_token a.callback a.reply _).1]
        exact h.user
      · exact (run_issued a.callback a.reply _ rfl p hp).plainCallback hb h.user
  | spawn argv | adminStep => exact ⟨h.sessions, h.tasks, h.user, h.callbacks⟩

theorem plainNames_runFrom (store : Store) {sessions : ℕ → Session}
    (hs : ∀ sid, (sessions sid).user.isArray = false) {es : List Event} (h : ∀ e ∈ es, textualEvent e = true) :
    PlainNames (runFrom store sessions es) := by
  induction es using Runs.history_induction with
  | h0 => exact plainNames_init store hs
  | hs es e ih =>
    rw [runFrom_concat]
    have hpre : ∀ e ∈ es, textualEvent e = true := fun e' he' => h e' (List.mem_append_left _ he')
    exact (ih hpre).step (wellFormed_runFrom store sessions es) (h e (by simp))

end ExpressAuth.Proofs
