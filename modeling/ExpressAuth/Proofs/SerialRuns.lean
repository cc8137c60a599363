import ExpressAuth.Proofs.SerialEffects
import ExpressAuth.Proofs.Flow

/-!
# Serial runs are runs of the server

A server with nothing in flight that gets one request, and then executes and delivers until
nothing is left, ends where the serial model does; so does one that lets an `admin.py`
invocation run to its end. Every serial run is therefore one of the schedules of the server.
-/

namespace ExpressAuth.Proofs
open Server

/-! ### Requests alone -/

/-- A callback adds to what was issued and written, and answers over what was answered. -/
lemma run_fresh (callback : Callback) (r : Reply) (c : Ctx) :
    callback.run r c =
      let f := callback.run r { now := c.now, vars := c.vars, session := c.session }
      { f with issued := c.issued ++ f.issued, response := f.response.or c.response, files := c.files ++ f.files,
               crashed := f.crashed || c.crashed } := by
  obtain ⟨now, vars, session, issued, response, files, crashed⟩ := c
  cases callback with
  | missing => cases r <;> simp [Callback.run, Ctx.crash]
  | loginPassword username generatedHash =>
    simp only [Callback.run, Routes.loginPassword]
    split <;> simp [Ctx.hget, Ctx.flash, Ctx.redirect]
  | loginValid username =>
    simp only [Callback.run, Routes.loginValid]
    split <;> simp [Ctx.flash, Ctx.redirect]
  | createUserKeys username mail generatedHash =>
    simp only [Callback.run, Routes.createUserKeys]
    split <;> simp [Ctx.hset, Ctx.flash, Ctx.redirect]
  | verifyTimestamp =>
    simp only [Callback.run, Routes.verifyTimestamp]
    split <;> simp [Ctx.hset, Ctx.render]
  | resetMail mail secure =>
    simp only [Callback.run, Routes.resetMail]
    split <;> simp [Ctx.hget, Ctx.flash, Ctx.redirect]
  | resetValid secure =>
    simp only [Callback.run, Routes.resetValid]
    split <;> simp [Ctx.hset, Ctx.writeFile, Ctx.flash, Ctx.redirect]
  | newPasswordFlag timestamp =>
    simp only [Callback.run, Routes.newPasswordFlag]
    split <;> simp [Ctx.hset, Ctx.renderFlash, Ctx.render]
  | _ => simp [Callback.run, Routes.secureMail, Ctx.hget, Ctx.renderFlash, Ctx.render, Ctx.flash, Ctx.redirect]

/-- The callbacks that do nothing to the request. -/
def isPassive : Callback → Bool
  | .ignore | .missing => true
  | _ => false

/-- The callbacks that only note a reply. -/
def onlyNotes : Callback → Bool
  | .ignore | .missing | .secureValid | .verifyValid | .newPasswordValid => true
  | _ => false

lemma isPassive_clientCall {callback : Callback} (h : isPassive callback = true) (name : CmdName) (key : JsVal)
    (rest : List String) : isPassive (clientCall name key rest callback).2 = true := by
  rcases clientCall_snd name key rest callback with hsnd | hsnd <;> rw [hsnd]
  exacts [h, rfl]

/-- Behind a callback that may answer or go on, and behind the answer, every reply is passed over. -/
structure Tidy (issued : List (Cmd × Callback)) (response : Option Response) : Prop where
  answered : response.isSome = true → ∀ p ∈ issued, isPassive p.2 = true
  order : issued.Pairwise (fun p q => onlyNotes p.2 = false → isPassive q.2 = true)

lemma run_onlyNotes {callback : Callback} (h : onlyNotes callback = true) (r : Reply) (c : Ctx) :
    (callback.run r c).issued = c.issued ∧ (callback.run r c).response = c.response := by
  cases callback with
  | missing => cases r <;> exact ⟨rfl, rfl⟩
  | _ => first | exact ⟨rfl, rfl⟩ | cases h

lemma run_isPassive {callback : Callback} (h : isPassive callback = true) (r : Reply) (c : Ctx) :
    (callback.run r c).session = c.session := by
  cases callback with
  | missing => cases r <;> rfl
  | _ => first | rfl | cases h

lemma run_tidy (callback : Callback) (r : Reply) (now : ℕ) (vars : Vars) (session : Session) :
    Tidy (callback.run r { now, vars, session }).issued (callback.run r { now, vars, session }).response := by
  have hignore : ∀ key rest, isPassive (clientCall .hset key rest .ignore).2 = true := isPassive_clientCall rfl .hset
  cases callback with
  | missing => cases r <;> exact ⟨by simp [Callback.run], by simp [Callback.run]⟩
  | loginPassword username generatedHash =>
    simp only [Callback.run, Routes.loginPassword]
    split <;> exact ⟨by simp, by simp⟩
  | loginValid username =>
    simp only [Callback.run, Routes.loginValid]
    split <;> exact ⟨by simp, by simp⟩
  | createUserKeys username mail generatedHash =>
    simp only [Callback.run, Routes.createUserKeys]
    split <;> exact ⟨by simp [hignore], by simp [hignore]⟩
  | verifyTimestamp =>
    simp only [Callback.run, Routes.verifyTimestamp]
    split <;> exact ⟨by simp [hignore], by simp⟩
  | resetMail mail secure =>
    simp only [Callback.run, Routes.resetMail]
    split <;> exact ⟨by simp, by simp⟩
  | resetValid secure =>
    simp only [Callback.run, Routes.resetValid]
    split <;> exact ⟨by simp [hignore], by simp [hignore]⟩
  | newPasswordFlag timestamp =>
    simp only [Callback.run, Routes.newPasswordFlag]
    split <;> exact ⟨by simp [hignore], by simp⟩
  | _ => exact ⟨by simp [Callback.run, Routes.secureMail], by simp [Callback.run, Routes.secureMail]⟩

lemma onlyNotes_clientCall {callback : Callback} (h : onlyNotes callback = true) (name : CmdName) (key : JsVal)
    (rest : List String) : onlyNotes (clientCall name key rest callback).2 = true := by
  rcases clientCall_snd name key rest callback with hsnd | hsnd <;> rw [hsnd]
  exacts [h, rfl]

lemma begin_tidy (req : Request) (now : ℕ) (vars : Vars) (session : Session) :
    Tidy (req.begin { now, vars, session }).issued (req.begin { now, vars, session }).response := by
  have hnotes : ∀ name key rest callback, onlyNotes callback = true →
      onlyNotes (clientCall name key rest callback).2 = true :=
    fun name key rest callback h => onlyNotes_clientCall h name key rest
  rw [Request.begin, checkAuth_eq]
  split
  · exact ⟨by simp, by simp⟩
  · cases req with
    | postLogin | postUpdatePassword | postCreateUser | postNewPassword =>
      simp only [Request.handler, Routes.postLogin, Routes.postUpdatePassword, Routes.postCreateUser,
        Routes.postNewPassword]
      split <;> exact ⟨by simp, by simp⟩
    | getSecure url =>
      exact ⟨by simp [Request.handler, Routes.getSecure],
        by simp [Request.handler, Routes.getSecure, hnotes _ _ _ .secureValid rfl]⟩
    | postUpdateMail mail secure =>
      exact ⟨by simp [Request.handler, Routes.postUpdateMail],
        by simp [Request.handler, Routes.postUpdateMail, hnotes _ _ _ .ignore rfl]⟩
    | _ =>
      constructor <;>
        simp [Request.handler, Routes.getLogout, Routes.getVerify, Routes.postVerifyMail, Routes.getVerifyMail,
          Routes.postResetPassword, Routes.getNewPassword, onlyNotes, isPassive]

lemma Tidy.step {cmd : Cmd} {callback : Callback} {rest : List (Cmd × Callback)} {response : Option Response}
    (h : Tidy ((cmd, callback) :: rest) response) (r : Reply) (now : ℕ) (vars : Vars) (session : Session) :
    Tidy (rest ++ (callback.run r { now, vars, session }).issued)
      ((callback.run r { now, vars, session }).response.or response) := by
  obtain ⟨hbehind, hrest⟩ := List.pairwise_cons.mp h.order
  by_cases hnotes : onlyNotes callback = true
  · obtain ⟨hissued, hresp⟩ := run_onlyNotes hnotes r { now, vars, session }
    rw [hissued, hresp, List.append_nil]
    exact ⟨fun hr p hp => h.answered hr p (List.mem_cons_of_mem _ hp), hrest⟩
  · have hbehind : ∀ q ∈ rest, isPassive q.2 = true := fun q hq => hbehind q hq (by simpa using hnotes)
    have hnotesOf : ∀ callback, isPassive callback = true → onlyNotes callback = true := by
      rintro (_ | _) hp <;> first | rfl | cases hp
    have hrun := run_tidy callback r now vars session
    refine ⟨fun hr p hp => ?_, List.pairwise_append.mpr ⟨hrest, hrun.order, fun p hp q _ hn => ?_⟩⟩
    · have hnone : response = none := by
        by_contra hne
        exact hnotes (hnotesOf _ (h.answered (Option.isSome_iff_ne_none.mpr hne) _ List.mem_cons_self))
      rcases List.mem_append.mp hp with hp | hp
      · exact hbehind p hp
      · exact hrun.answered (by simpa [hnone] using hr) p hp
    · rw [hnotesOf _ (hbehind p hp)] at hn
      cases hn

/-! ### How many commands a request causes -/

/-- The deliveries a callback stands for: its own, and those of the commands it may issue. -/
def effort : Callback → ℕ
  | .loginPassword _ _ | .verifyTimestamp | .newPasswordFlag _ => 2
  | .createUserKeys _ _ _ | .resetValid _ | .newPasswordTimestamp => 3
  | .resetMail _ _ => 4
  | _ => 1

lemma effort_pos (callback : Callback) : 0 < effort callback := by
  cases callback <;> exact Nat.succ_pos _

lemma effort_clientCall_le (name : CmdName) (key : JsVal) (rest : List String) (callback : Callback) :
    effort (clientCall name key rest callback).2 ≤ effort callback := by
  rcases clientCall_snd name key rest callback with hsnd | hsnd <;> rw [hsnd]
  exact effort_pos callback

lemma effort_clientCall {callback : Callback} (h : effort callback = 1) (name : CmdName) (key : JsVal)
    (rest : List String) : effort (clientCall name key rest callback).2 = 1 :=
  le_antisymm (h ▸ effort_clientCall_le name key rest callback) (effort_pos _)

def totalEffort (issued : List (Cmd × Callback)) : ℕ := (issued.map (fun p => effort p.2)).sum

lemma totalEffort_append (issued issued' : List (Cmd × Callback)) :
    totalEffort (issued ++ issued') = totalEffort issued + totalEffort issued' := by
  simp [totalEffort]

lemma totalEffort_begin (req : Request) (now : ℕ) (vars : Vars) (session : Session) :
    totalEffort (req.begin { now, vars, session }).issued ≤ 4 := by
  have hone : ∀ callback, effort callback = 1 → ∀ name key rest, effort (clientCall name key rest callback).2 = 1 :=
    fun callback => effort_clientCall
  have hle : ∀ name key rest callback, totalEffort [clientCall name key rest callback] ≤ effort callback :=
    effort_clientCall_le
  rw [Request.begin, checkAuth_eq]
  split
  · exact Nat.zero_le 4
  · cases req with
    | postLogin | postUpdatePassword | postCreateUser | postNewPassword =>
      simp only [Request.handler, Routes.postLogin, Routes.postUpdatePassword, Routes.postCreateUser,
        Routes.postNewPassword]
      split
      · exact Nat.zero_le 4
      · exact (hle _ _ _ _).trans (Nat.le_of_ble_eq_true rfl)
    | postResetPassword username mail secure => exact hle _ _ _ (.resetMail mail secure)
    | getSecure url =>
      simp [Request.handler, Routes.getSecure, totalEffort, hone .secureValid rfl, hone .secureMail rfl]
    | postUpdateMail mail secure =>
      simp [Request.handler, Routes.postUpdateMail, totalEffort, hone .ignore rfl, hone .updateMailDone rfl]
    | _ => exact Nat.le_of_ble_eq_true rfl

lemma totalEffort_run (callback : Callback) (r : Reply) (now : ℕ) (vars : Vars) (session : Session) :
    totalEffort (callback.run r { now, vars, session }).issued < effort callback := by
  have hone : ∀ key rest, effort (clientCall .hset key rest .ignore).2 = 1 := effort_clientCall rfl .hset
  have hle : ∀ name key rest callback, totalEffort [clientCall name key rest callback] ≤ effort callback :=
    effort_clientCall_le
  cases callback with
  | missing => cases r <;> exact Nat.zero_lt_one
  | loginPassword username generatedHash =>
    simp only [Callback.run, Routes.loginPassword]
    split
    · exact Nat.lt_succ_of_le (hle _ _ _ (.loginValid username))
    · exact Nat.zero_lt_succ _
  | loginValid username =>
    simp only [Callback.run, Routes.loginValid]
    split <;> exact Nat.zero_lt_succ _
  | createUserKeys username mail generatedHash =>
    simp only [Callback.run, Routes.createUserKeys]
    split
    · exact Nat.zero_lt_succ _
    · simp only [Ctx.flash_issued, Ctx.redirect_issued, Ctx.hset_issued, List.nil_append, List.singleton_append,
        totalEffort, List.map_cons, List.map_nil, hone]
      exact Nat.le_of_ble_eq_true rfl
  | verifyTimestamp =>
    simp only [Callback.run, Routes.verifyTimestamp]
    split
    · exact Nat.lt_succ_of_le (hle _ _ _ .ignore)
    · exact Nat.zero_lt_succ _
  | resetMail mail secure =>
    simp only [Callback.run, Routes.resetMail]
    split
    · exact Nat.lt_succ_of_le (hle _ _ _ (.resetValid secure))
    · exact Nat.zero_lt_succ _
  | resetValid secure =>
    rcases (resetValid_spec secure r.obj { now, vars, session }).2 with ⟨-, hissued, -⟩ | ⟨hissued, -⟩
    · simp only [Callback.run, hissued, List.nil_append, totalEffort, List.map_cons, List.map_nil, hone]
      exact Nat.le_of_ble_eq_true rfl
    · rw [Callback.run, hissued]
      exact Nat.zero_lt_succ _
  | newPasswordTimestamp => exact Nat.lt_succ_of_le (hle _ _ _ (.newPasswordFlag r.obj))
  | newPasswordFlag timestamp =>
    rcases (newPasswordFlag_spec timestamp r.obj { now, vars, session }).2 with ⟨-, hissued, -⟩ | ⟨hissued, -⟩ <;>
      rw [Callback.run, hissued]
    · exact Nat.lt_succ_of_le (hle _ _ _ .ignore)
    · exact Nat.zero_lt_succ _
  | _ => exact Nat.zero_lt_one

/-- A request alone comes to its end within the rounds its commands stand for. -/
lemma settle_issued (n : ℕ) (store : Store) {c : Ctx} (h : totalEffort c.issued ≤ n) :
    (settle n store c).2.issued = [] := by
  induction n generalizing store c with
  | zero =>
    cases hissued : c.issued with
    | nil => exact hissued
    | cons p rest =>
      have hp := effort_pos p.2
      simp only [hissued, totalEffort, List.map_cons, List.sum_cons] at h
      omega
  | succ n ih =>
    unfold settle
    cases hissued : c.issued with
    | nil => exact hissued
    | cons p rest =>
      obtain ⟨cmd, callback⟩ := p
      apply ih
      have hrun := totalEffort_run callback (cmd.exec store).2 c.now c.vars c.session
      simp only [hissued, totalEffort, List.map_cons, List.sum_cons] at h
      rw [run_fresh, totalEffort_append]
      simp only [totalEffort] at hrun ⊢
      omega

/-- The server works on task `i` alone, and has come as far as the serial context `c`; `old` is the
session saved before. -/
structure Working (s : Server) (i sid : ℕ) (old : Session) (c : Ctx) : Prop where
  queue : s.queue = c.issued.map (fun p => ⟨i, p.1, p.2⟩)
  replies : s.replies = []
  vars : s.vars = c.vars
  task : ∃ t, s.tasks i = some t ∧ t.sid = sid ∧ t.session = c.session
  saved : s.sessions sid = if c.response.isSome then c.session else old
  responded : ∀ response, c.response = some response → .responded i response ∈ s.log
  tidy : Tidy c.issued c.response

/-- One command is executed and its reply delivered. -/
lemma Working.step {s : Server} {i sid : ℕ} {old : Session} {c : Ctx} (h : Working s i sid old c) {cmd : Cmd}
    {callback : Callback} {rest : List (Cmd × Callback)} (hissued : c.issued = (cmd, callback) :: rest) :
    let s' := Runs.after (Server.step .process) s [.exec, .deliver c.now]
    Working s' i sid old (callback.run (cmd.exec s.store).2 { c with issued := rest }) ∧
      s'.store = (cmd.exec s.store).1 ∧ ∀ sid', sid' ≠ sid → s'.sessions sid' = s.sessions sid' := by
  obtain ⟨t, ht, hsid, hsession⟩ := h.task
  have hqueue : s.queue = ⟨i, cmd, callback⟩ :: rest.map (fun p => ⟨i, p.1, p.2⟩) := by
    rw [h.queue, hissued]
    rfl
  have hreplies : (s.perform ⟨i, cmd, callback⟩ (rest.map (fun p => ⟨i, p.1, p.2⟩))).replies =
      [⟨i, callback, (cmd.exec s.store).2⟩] := by
    simp [Server.perform, h.replies]
  have hstep := step_deliver_cons .process hreplies (t := t) ht c.now
  have hcontext : (s.perform ⟨i, cmd, callback⟩ (rest.map (fun p => ⟨i, p.1, p.2⟩))).context .process t c.now =
      { now := c.now, vars := c.vars, session := c.session } := by
    simp [Server.context, Server.perform, Scope.select, h.vars, hsession]
  rw [hcontext] at hstep
  have htidy := (hissued ▸ h.tidy).step (cmd.exec s.store).2 c.now c.vars c.session
  have hafter : Runs.after (Server.step .process) s [.exec, .deliver c.now] =
      (s.perform ⟨i, cmd, callback⟩ (rest.map (fun p => ⟨i, p.1, p.2⟩))).step .process (.deliver c.now) := by
    rw [Runs.after_cons, Runs.after_cons, Runs.after_nil, step_exec_cons .process hqueue]
  rw [run_fresh callback (cmd.exec s.store).2 { c with issued := rest }]
  have hkeeps : c.response.isSome = true →
      (callback.run (cmd.exec s.store).2 { now := c.now, vars := c.vars, session := c.session }).session = c.session := by
    intro hr
    exact run_isPassive (h.tidy.answered hr (cmd, callback) (hissued ▸ List.mem_cons_self)) _ _
  dsimp only
  rw [hafter, hstep]
  generalize callback.run (cmd.exec s.store).2 { now := c.now, vars := c.vars, session := c.session } = f at htidy hkeeps
  refine ⟨⟨by simp [Server.commit, Server.perform], rfl, rfl, ?_, ?_, fun response hr => ?_, htidy⟩, rfl,
    fun sid' hne => ?_⟩
  · exact ⟨_, commit_task .process _ i t f, hsid, rfl⟩
  · cases hf : f.response with
    | some response => simp [Server.commit, hf, hsid]
    | none =>
      have hsaved : (s.perform ⟨i, cmd, callback⟩ (rest.map (fun p => ⟨i, p.1, p.2⟩))).sessions sid =
          if c.response.isSome then c.session else old := h.saved
      by_cases hr : c.response.isSome = true
      · simp [Server.commit, hf, hsaved, hr, hkeeps hr]
      · simp [Server.commit, hf, hsaved, hr]
  · cases hf : f.response with
    | some response' =>
      obtain rfl : response' = response := by simpa [hf] using hr
      simp [Server.commit, observations, hf]
    | none =>
      have hr : c.response = some response := by simpa [hf] using hr
      exact List.mem_append_left _ (List.mem_append_left _ (h.responded response hr))
  · by_cases hf : f.response.isSome = true
    · simp [Server.commit, hf, hsid, Function.update_of_ne hne, Server.perform]
    · simp [Server.commit, hf, Server.perform]

/-- The server keeps up with the serial model until nothing is left. -/
lemma Working.settle (n : ℕ) {s : Server} {i sid : ℕ} {old : Session} {c : Ctx} (h : Working s i sid old c) :
    ∃ es, Working (Runs.after (Server.step .process) s es) i sid old (ExpressAuth.settle n s.store c).2 ∧
      (Runs.after (Server.step .process) s es).store = (ExpressAuth.settle n s.store c).1 ∧
      ∀ sid', sid' ≠ sid → (Runs.after (Server.step .process) s es).sessions sid' = s.sessions sid' := by
  induction n generalizing s c with
  | zero => exact ⟨[], h, rfl, fun _ _ => rfl⟩
  | succ n ih =>
    cases hissued : c.issued with
    | nil =>
      have hsettle : ExpressAuth.settle (n + 1) s.store c = (s.store, c) := by simp [ExpressAuth.settle, hissued]
      rw [hsettle]
      exact ⟨[], h, rfl, fun _ _ => rfl⟩
    | cons p rest =>
      obtain ⟨cmd, callback⟩ := p
      obtain ⟨hworking, hstore, hothers⟩ := h.step hissued
      obtain ⟨es, hw, hs, ho⟩ := ih hworking
      have hsettle : ExpressAuth.settle (n + 1) s.store c = ExpressAuth.settle n (cmd.exec s.store).1
          (callback.run (cmd.exec s.store).2 { c with issued := rest }) := by
        rw [ExpressAuth.settle, hissued]
      rw [hsettle, ← hstore]
      refine ⟨[.exec, .deliver c.now] ++ es, ?_⟩
      rw [Runs.after_append]
      exact ⟨hw, hs, fun sid' hne => (ho sid' hne).trans (hothers sid' hne)⟩

/-- Nothing is in flight, and the server is where the serial model is. -/
structure Idle (s : Server) (site : Site) : Prop where
  queue : s.queue = []
  replies : s.replies = []
  store : s.store = site.store
  vars : s.vars = site.vars
  sessions : s.sessions = site.sessions

lemma Idle.arrive {s : Server} {site : Site} (h : Idle s site) (sid : ℕ) (req : Request) (now : ℕ) :
    Working (s.step .process (.arrive sid req now)) s.started sid (site.sessions sid) (site.opening sid req now) ∧
      (s.step .process (.arrive sid req now)).store = site.store ∧
      ∀ sid', sid' ≠ sid → (s.step .process (.arrive sid req now)).sessions sid' = site.sessions sid' := by
  have hcontext : (s.enter sid req).context .process { sid, request := req, session := s.sessions sid } now =
      { now, vars := site.vars, session := site.sessions sid } := by
    simp [Server.context, Server.enter, Scope.select, h.vars, h.sessions]
  have htidy := begin_tidy req now site.vars (site.sessions sid)
  rw [step_arrive, hcontext, Site.opening]
  generalize req.begin { now, vars := site.vars, session := site.sessions sid } = c at htidy
  refine ⟨⟨by simp [Server.commit, Server.enter, h.queue], h.replies, rfl, ⟨_, commit_task .process _ _ _ c, rfl, rfl⟩,
    ?_, fun response hr => by simp [Server.commit, observations, hr], htidy⟩, h.store, fun sid' hne => ?_⟩
  all_goals by_cases hr : c.response.isSome = true
  · simp [Server.commit, hr]
  · simp [Server.commit, hr, Server.enter, h.sessions]
  · simp [Server.commit, hr, Function.update_of_ne hne, Server.enter, h.sessions]
  · simp [Server.commit, hr, Server.enter, h.sessions]

/-- A request alone ends in the state, and with the response, of the serial model. -/
theorem Idle.web {s : Server} {site : Site} (h : Idle s site) (sid : ℕ) (req : Request) (now : ℕ) :
    ∃ es, Idle (Runs.after (Server.step .process) s es) (site.step (.web sid req now)) ∧
      ∀ response, site.response sid req now = some response →
        .responded s.started response ∈ (Runs.after (Server.step .process) s es).log := by
  obtain ⟨hworking, hstore, hothers⟩ := h.arrive sid req now
  obtain ⟨es, hw, hs, ho⟩ := hworking.settle 4
  rw [hstore] at hw hs
  have hissued : (ExpressAuth.settle 4 site.store (site.opening sid req now)).2.issued = [] :=
    settle_issued 4 site.store (totalEffort_begin req now site.vars (site.sessions sid))
  refine ⟨.arrive sid req now :: es, ⟨?_, hw.replies, hs, hw.vars, ?_⟩, hw.responded⟩
  · rw [Runs.after_cons, hw.queue, hissued]
    rfl
  · have hstep : (site.step (.web sid req now)).sessions =
        if (ExpressAuth.settle 4 site.store (site.opening sid req now)).2.response.isSome then
          Function.update site.sessions sid (ExpressAuth.settle 4 site.store (site.opening sid req now)).2.session
        else site.sessions := rfl
    have hsaved := hw.saved
    rw [Runs.after_cons, hstep]
    generalize (ExpressAuth.settle 4 site.store (site.opening sid req now)).2 = c at hsaved
    funext sid'
    by_cases hsid : sid' = sid
    · subst hsid
      rw [hsaved]
      split_ifs
      · rw [Function.update_self]
      · rfl
    · rw [(ho sid' hsid).trans (hothers sid' hsid)]
      split_ifs
      · rw [Function.update_of_ne hsid]
      · rfl

/-! ### Invocations alone -/

open AdminTool

/-- One step of an invocation on the store it works on. -/
def advance (now : ℕ) (x : Store × Proc) : Store × Proc := ((x.2.step x.1 now).1, (x.2.step x.1 now).2.1)

/-- Steps of one invocation change only the store and the invocation. -/
lemma Idle.adminSteps {s : Server} {site : Site} (h : Idle s site) (j now n : ℕ) :
    let s' := Runs.after (Server.step .process) s (List.replicate n (.adminStep j now))
    let x := (advance now)^[n] (s.store, s.admins j)
    Idle s' { site with store := x.1 } ∧ s'.admins j = x.2 := by
  induction n with
  | zero => exact ⟨⟨h.queue, h.replies, rfl, h.vars, h.sessions⟩, rfl⟩
  | succ n ih =>
    obtain ⟨hidle, hproc⟩ := ih
    dsimp only
    rw [List.replicate_succ', Runs.after_concat, Function.iterate_succ_apply']
    generalize Runs.after (Server.step .process) s (List.replicate n (.adminStep j now)) = s' at hidle hproc
    have hx : (advance now)^[n] (s.store, s.admins j) = (s'.store, s'.admins j) := Prod.ext hidle.store.symm hproc.symm
    rw [hx]
    exact ⟨⟨hidle.queue, hidle.replies, rfl, hidle.vars, hidle.sessions⟩, Function.update_self _ _ _⟩

def isRaise : Action → Bool
  | .raise _ => true
  | _ => false

/-- Without an exception an invocation performs its actions to the end. -/
lemma advance_actions (now : ℕ) (actions : List Action) (store : Store)
    (h : ∀ action ∈ actions, isRaise action = false) :
    ∃ n, (advance now)^[n] (store, .todo actions) = (actions.foldl (Action.apply now) store, .todo []) := by
  induction actions generalizing store with
  | nil => exact ⟨0, rfl⟩
  | cons action rest ih =>
    obtain ⟨n, hn⟩ := ih (action.apply now store) (fun a ha => h a (List.mem_cons_of_mem _ ha))
    cases action with
    | createMail username mail =>
      -- the call, its two writes and its file
      refine ⟨n + 4, ?_⟩
      rw [Function.iterate_add_apply]
      exact hn
    | raise exception => exact absurd (h _ List.mem_cons_self) (by simp [isRaise])
    | _ =>
      refine ⟨n + 1, ?_⟩
      rw [Function.iterate_add_apply]
      exact hn

/-- Only the reading of `KEYS` stands before the actions of an invocation. -/
lemma advance_proc (now : ℕ) (proc : Proc) (store : Store) :
    ∃ n, (advance now)^[n] (store, proc) = (store, .todo (proc.actions store)) := by
  cases proc with
  | todo actions => exact ⟨0, rfl⟩
  | _ => exact ⟨1, rfl⟩

/-- An invocation comes to its end with the store of `invoke`; one that raises does nothing else. -/
lemma advance_main (now : ℕ) (argv : List String) (store : Store) :
    ∃ n, (advance now)^[n] (store, main argv) = (invoke store now argv, .todo []) := by
  obtain ⟨n, hn⟩ := advance_proc now (main argv) store
  have hend : ∃ k, (advance now)^[k] (store, .todo ((main argv).actions store)) = (invoke store now argv, .todo []) := by
    unfold invoke
    have hacts := adminActs store argv
    generalize (main argv).actions store = actions at hacts
    cases hacts with
    | @message _ action ha =>
      cases action with
      | print line | raise exception => exact ⟨1, rfl⟩
      | _ => cases ha
    | _ => exact advance_actions now _ store (by simp [isRaise])
  obtain ⟨k, hk⟩ := hend
  exact ⟨k + n, by rw [Function.iterate_add_apply, hn, hk]⟩

theorem Idle.admin {s : Server} {site : Site} (h : Idle s site) (argv : List String) (now : ℕ) :
    ∃ es, Idle (Runs.after (Server.step .process) s es) (site.step (.admin argv now)) := by
  obtain ⟨n, hn⟩ := advance_main now argv s.store
  have hspawn : Idle (s.step .process (.spawn argv)) site := ⟨h.queue, h.replies, h.store, h.vars, h.sessions⟩
  have hproc : (s.step .process (.spawn argv)).admins s.spawned = main argv := Function.update_self _ _ _
  have hsteps := (hspawn.adminSteps s.spawned now n).1
  rw [hproc] at hsteps
  have hstore : (s.step .process (.spawn argv)).store = s.store := rfl
  rw [hstore, hn, h.store] at hsteps
  exact ⟨.spawn argv :: List.replicate n (.adminStep s.spawned now), hsteps⟩

/-- Every serial run is a schedule of the server. -/
theorem serial_run_is_run (ops : List Op) : ∃ es, Idle (run ∅ es) (site ops) := by
  induction ops using Runs.history_induction with
  | h0 => exact ⟨[], rfl, rfl, rfl, rfl, rfl⟩
  | hs ops op ih =>
    obtain ⟨es, hidle⟩ := ih
    have hstep : ∃ es', Idle (Runs.after (Server.step .process) (run ∅ es) es') ((site ops).step op) := by
      cases op with
      | web sid req now =>
        obtain ⟨es', hweb, -⟩ := hidle.web sid req now
        exact ⟨es', hweb⟩
      | admin argv now => exact hidle.admin argv now
    obtain ⟨es', hidle'⟩ := hstep
    refine ⟨es ++ es', ?_⟩
    rw [site, Runs.after_concat, run, Runs.after_append]
    exact hidle'

end ExpressAuth.Proofs
