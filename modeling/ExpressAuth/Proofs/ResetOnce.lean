import ExpressAuth.Proofs.OneUser
import Mathlib.Data.Finset.Card

/-!
# How often a reset link opens

`GET /new_password` reads the flag in one round trip and clears it in a later one. As long as no
two of these checks overlap, every opening uses up a link that was mailed and not used before.
-/

namespace ExpressAuth.Proofs
open Server

/-- `accept_password` is rendered. -/
def isOpening : Observation → Bool
  | .responded _ (.render (.acceptPassword _)) => true
  | _ => false

def isPasswordFile (u : String) (file : MailFile) : Bool := file.file = "../mails/" ++ u ++ "_password.html"

/-- `POST /reset_password` writes a mail with a link for `u`. -/
def isResetMail (u : String) : Observation → Bool
  | .file (.task _) file => isPasswordFile u file
  | _ => false

def openings (s : Server) : ℕ := s.log.countP isOpening

def resetMails (u : String) (s : Server) : ℕ := s.log.countP (isResetMail u)

/-- The callback that decides on the flag. -/
def decidesFlag : Callback → Bool
  | .newPasswordFlag _ => true
  | _ => false

/-- No check of the flag starts while another one is in flight. -/
def checksAlone (s : Server) : Event → Bool
  | .deliver _ =>
    match s.replies with
    | [] => true
    | a :: _ => a.callback ≠ .newPasswordTimestamp ∨ (inFlight s).all (fun x => !decidesFlag x.2)
  | _ => true

lemma countP_isOpening_observations (i sid : ℕ) {c : Ctx}
    (h : ∀ flash, c.response ≠ some (.render (.acceptPassword flash))) :
    (observations i sid c).countP isOpening = 0 := by
  rw [List.countP_eq_zero]
  intro o ho
  rcases mem_observations.mp ho with ⟨file, -, rfl⟩ | ⟨response, hr, rfl | rfl⟩ | ⟨-, rfl⟩
  · simp [isOpening]
  · simp [isOpening]
  · intro hopen
    cases response with
    | render page =>
      cases page with
      | acceptPassword flash => exact h flash hr
      | _ => cases hopen
    | _ => cases hopen
  · simp [isOpening]

lemma countP_isOpening_of_accept (i sid : ℕ) {c : Ctx} {flash : List Flash}
    (h : c.response = some (.render (.acceptPassword flash))) : (observations i sid c).countP isOpening = 1 := by
  have hfiles : (c.files.map (Observation.file (.task i))).countP isOpening = 0 := by
    simp [List.countP_eq_zero, isOpening]
  unfold observations
  rw [List.countP_append, List.countP_append, hfiles, h]
  cases c.crashed <;> rfl

lemma countP_isResetMail_observations (u : String) (i sid : ℕ) (c : Ctx) :
    (observations i sid c).countP (isResetMail u) =
      c.files.countP (isPasswordFile u) := by
  have hfiles : (c.files.map (Observation.file (.task i))).countP (isResetMail u) = c.files.countP (isPasswordFile u) :=
    List.countP_map
  unfold observations
  rw [List.countP_append, List.countP_append, hfiles]
  cases c.response <;> cases c.crashed <;> rfl

/-- What an event about the account of `u` does to the flag and to the two counts. -/
inductive FlagWork (u : String) (s : Server) (e : Event) : List Pending → Prop
  | plain {ps} (h : ∀ p ∈ ps, writesField u .newPassword p.cmd = false ∧ decidesFlag p.callback = false)
      (hopen : openings (s.step .process e) = openings s)
      (hmail : resetMails u (s.step .process e) = resetMails u s) : FlagWork u s e ps
  | reset {i text} (hopen : openings (s.step .process e) = openings s)
      (hmail : resetMails u (s.step .process e) = resetMails u s + 1) :
      FlagWork u s e [⟨i, .hset u .timestamp text, .ignore⟩, ⟨i, .hset u .newPassword "True", .ignore⟩]
  | check {i timestamp} (halone : ∀ x ∈ inFlight s, decidesFlag x.2 = false)
      (hopen : openings (s.step .process e) = openings s)
      (hmail : resetMails u (s.step .process e) = resetMails u s) :
      FlagWork u s e [⟨i, .hget u .newPassword, .newPasswordFlag timestamp⟩]
  | accept {a rest now} (he : e = .deliver now) (hr : s.replies = a :: rest)
      (ha : decidesFlag a.callback = true) (hobj : a.reply.obj = .str "True")
      (hopen : openings (s.step .process e) = openings s + 1)
      (hmail : resetMails u (s.step .process e) = resetMails u s) :
      FlagWork u s e [⟨a.task, .hset u .newPassword "False", .ignore⟩]

lemma openings_of_log {s s' : Server} {i sid : ℕ} {c : Ctx} (h : s'.log = s.log ++ observations i sid c)
    (hc : ∀ flash, c.response ≠ some (.render (.acceptPassword flash))) : openings s' = openings s := by
  rw [openings, h, List.countP_append, countP_isOpening_observations i sid hc]
  rfl

lemma resetMails_of_log {u : String} {s s' : Server} {i sid : ℕ} {c : Ctx}
    (h : s'.log = s.log ++ observations i sid c) :
    resetMails u s' = resetMails u s +
      c.files.countP (isPasswordFile u) := by
  rw [resetMails, h, List.countP_append, countP_isResetMail_observations]
  rfl

lemma flagWork_arrive {u : String} {s : Server} {sid now : ℕ} {req : Request}
    (hc : concerns u s (.arrive sid req now) = true) :
    FlagWork u s (.arrive sid req now) (issues s (.arrive sid req now)) := by
  have hb := begin_eq_handler req (by rintro url rfl; cases hc)
  have hlog := log_arrive s sid req now
  rw [hb] at hlog
  have hfiles := resetMails_of_log (u := u) hlog
  simp only [issues, segmentOf, hb]
  cases req with
  | postUpdateMail mail secure =>
    obtain ⟨hplain, rfl⟩ := isName_iff.mp hc
    refine .plain (by simp [Request.handler, Routes.postUpdateMail, clientCall_hset hplain, writesField, decidesFlag])
      (openings_of_log hlog (by simp [Request.handler, Routes.postUpdateMail])) ?_
    rw [hfiles]
    simp [Request.handler, Routes.postUpdateMail, isPasswordFile]
  | getVerify uid token =>
    exact .plain (by simp [Request.handler, Routes.getVerify, writesField, decidesFlag])
      (openings_of_log hlog (by simp [Request.handler, Routes.getVerify])) hfiles
  | postResetPassword username mail secure =>
    obtain ⟨hplain, -⟩ := isName_iff.mp hc
    exact .plain (by simp [Request.handler, Routes.postResetPassword, clientCall_hget hplain, writesField, decidesFlag])
      (openings_of_log hlog (by simp [Request.handler, Routes.postResetPassword])) hfiles
  | getNewPassword uid token =>
    exact .plain (by simp [Request.handler, Routes.getNewPassword, writesField, decidesFlag])
      (openings_of_log hlog (by simp [Request.handler, Routes.getNewPassword])) hfiles
  | _ => cases hc

/-- The callbacks that neither mail a link nor decide on the flag nor start a check. -/
def leavesFlag : Callback → Bool
  | .ignore | .updateMailDone | .verifyValid | .verifyTimestamp | .resetMail _ _ | .newPasswordValid => true
  | _ => false

lemma run_leavesFlag {callback : Callback} (h : leavesFlag callback = true) (u : String) (r : Reply) {c : Ctx}
    (harr : ∀ name items, followUpCall c.vars.user callback ≠ some (name, .array items))
    (hissued : c.issued = []) (hresp : c.response = none) :
    (∀ p ∈ (callback.run r c).issued, writesField u .newPassword p.1 = false ∧ decidesFlag p.2 = false) ∧
      (callback.run r c).files = c.files ∧
      ∀ flash, (callback.run r c).response ≠ some (.render (.acceptPassword flash)) := by
  refine ⟨fun p hp => ?_, ?_⟩
  · have hfollow := run_issued callback r c hissued p hp
    generalize p.1 = cmd, p.2 = callback' at hfollow
    cases hfollow with
    | array hcall => exact absurd hcall (harr _ _)
    | _ => simp_all [leavesFlag, writesField, decidesFlag]
  · cases callback with
    | verifyTimestamp =>
      obtain ⟨hfiles, ⟨-, -, hr⟩ | ⟨-, hr⟩⟩ := verifyTimestamp_spec r.obj c
      · exact ⟨hfiles, by simp only [Callback.run, hr]; simp⟩
      · exact ⟨hfiles, by simp only [Callback.run, hr]; simp⟩
    | resetMail mail secure =>
      simp only [Callback.run, Routes.resetMail]
      split <;> simp [hresp]
    | ignore | updateMailDone | verifyValid | newPasswordValid => simp [Callback.run, hresp]
    | _ => cases h

lemma flagWork_of_leavesFlag {u : String} {s : Server} (h : LinksOnly u s) {a : Answer} {rest : List Answer} {t : Task}
    (hr : s.replies = a :: rest) (ht : s.tasks a.task = some t) (hleaves : leavesFlag a.callback = true) (now : ℕ) :
    FlagWork u s (.deliver now) (issues s (.deliver now)) := by
  have hlog := log_deliver hr ht now
  have hmails := resetMails_of_log (u := u) hlog
  obtain ⟨hplain, hfiles, hresp⟩ := run_leavesFlag hleaves u a.reply
    (c := { now, vars := s.vars, session := t.session }) (h.followUpCall_ne_array (head_mem_inFlight hr)) rfl rfl
  rw [hfiles] at hmails
  refine .plain (fun p hp => ?_) (openings_of_log hlog hresp) hmails
  rw [issues_deliver hr ht now] at hp
  obtain ⟨q, hq, rfl⟩ := List.mem_map.mp hp
  exact hplain q hq

lemma flagWork_deliver {u : String} {s : Server} (h : LinksOnly u s) (hs : WellFormed s) {now : ℕ}
    (hd : checksAlone s (.deliver now) = true) : FlagWork u s (.deliver now) (issues s (.deliver now)) := by
  cases hr : s.replies with
  | nil =>
    have hstep := step_deliver_nil .process hr now
    exact .plain (by simp [issues, segmentOf, hr]) (by rw [hstep]) (by rw [hstep])
  | cons a rest =>
    obtain ⟨t, ht, -⟩ := hs.head_task hr
    by_cases hleaves : leavesFlag a.callback = true
    · exact flagWork_of_leavesFlag h hr ht hleaves now
    have hhead := head_mem_inFlight hr
    have hname : readsUser a.callback = true → s.vars.user.isArray = false ∧ s.vars.user.toText = u :=
      fun hreads => isName_iff.mp (h.user hhead hreads)
    have hlog := log_deliver hr ht now
    have hissues := issues_deliver hr ht now
    have hmails := resetMails_of_log (u := u) hlog
    have habout := h.callbacks _ hhead
    obtain ⟨i, callback, reply⟩ := a
    cases callback with
    | resetValid secure =>
      simp only [Callback.run] at hlog hissues hmails
      obtain ⟨hplain, huser⟩ := hname rfl
      obtain ⟨⟨target, hresp⟩, ⟨-, hissued, text, hfiles⟩ | ⟨hissued, hfiles⟩⟩ :=
        resetValid_spec secure reply.obj { now, vars := s.vars, session := t.session }
      · rw [hfiles, huser] at hmails
        rw [hissues, hissued, clientCall_hset hplain, clientCall_hset hplain, huser]
        exact .reset (openings_of_log hlog (by simp only [hresp]; simp)) (by simpa [isPasswordFile] using hmails)
      · rw [hfiles] at hmails
        rw [hissues, hissued]
        exact .plain (by simp) (openings_of_log hlog (by simp only [hresp]; simp)) hmails
    | newPasswordTimestamp =>
      have halone : (inFlight s).all (fun x => !decidesFlag x.2) = true := by simpa [checksAlone, hr] using hd
      have hread : issues s (.deliver now) = [⟨i, .hget u .newPassword, .newPasswordFlag reply.obj⟩] := by
        obtain ⟨hplain, rfl⟩ := hname rfl
        rw [hissues, Callback.run, Ctx.hget_issued, clientCall_hget hplain]
        rfl
      rw [hread]
      exact .check (by simpa using halone) (openings_of_log hlog (by simp [Callback.run])) hmails
    | newPasswordFlag timestamp =>
      simp only [Callback.run] at hlog hissues hmails
      obtain ⟨hfiles, ⟨haccepts, hissued, flash, hresp⟩ | ⟨hissued, hresp⟩⟩ :=
        newPasswordFlag_spec timestamp reply.obj { now, vars := s.vars, session := t.session }
      · rw [hfiles] at hmails
        obtain ⟨hplain, huser⟩ := hname rfl
        rw [hissues, hissued, clientCall_hset hplain, huser]
        refine .accept rfl hr rfl haccepts.2.2 ?_ hmails
        rw [openings, hlog, List.countP_append, countP_isOpening_of_accept _ _ hresp]
        rfl
      · rw [hfiles] at hmails
        rw [hissues, hissued]
        exact .plain (by simp) (openings_of_log hlog (by simp only [hresp]; simp)) hmails
    | ignore | updateMailDone | verifyValid | verifyTimestamp | resetMail | newPasswordValid =>
      exact absurd rfl hleaves
    | _ => cases habout

lemma flagWork {u : String} {s : Server} (h : LinksOnly u s) (hs : WellFormed s) {e : Event}
    (hc : concerns u s e = true) (hd : checksAlone s e = true) : FlagWork u s e (issues s e) := by
  cases e with
  | arrive sid req now => exact flagWork_arrive hc
  | deliver now => exact flagWork_deliver h hs hd
  | exec =>
    have hsame : openings (s.step .process .exec) = openings s ∧
        resetMails u (s.step .process .exec) = resetMails u s := by
      cases hq : s.queue with
      | nil => simp [step_exec_nil .process hq]
      | cons p rest => simp [step_exec_cons .process hq, Server.perform, openings, resetMails, isOpening, isResetMail]
    exact .plain (by simp [issues, segmentOf]) hsame.1 hsame.2
  | _ => cases hc

/-! ### Links that were mailed and not used -/

/-- Openings are covered by mails, with one to spare while the last write of the flag is `"True"`. -/
structure LinkUse (u : String) (s : Server) : Prop where
  bound : openings s ≤ resetMails u s
  unused : LastWrite u .newPassword "True" (line s) → openings s < resetMails u s
  single : (inFlight s).countP (fun x => decidesFlag x.2) ≤ 1
  writes : ∀ p ∈ s.queue, writesField u .newPassword p.cmd = true →
    p.cmd = .hset u .newPassword "True" ∨ p.cmd = .hset u .newPassword "False"
  reads : ∀ p ∈ s.queue, decidesFlag p.callback = true → p.cmd = .hget u .newPassword
  /-- The flag is not cleared behind a check that is still to be executed. -/
  queued : s.queue.Pairwise (fun p q => decidesFlag p.callback = true → q.cmd ≠ .hset u .newPassword "False")
  answered : ∀ a ∈ s.replies, decidesFlag a.callback = true → a.reply.obj = .str "True" →
    LastWrite u .newPassword "True" (line s)

lemma hget_eq_of_obj {store : Store} {u : String} {f : Field} {v : String}
    (h : ((Cmd.hget u f).exec store).2.obj = .str v) : store.hget u f = some v := by
  cases hv : store.hget u f with
  | none => simp [Cmd.exec, hv, JsVal.ofReply] at h
  | some w => simpa [Cmd.exec, hv, JsVal.ofReply] using h

/-- Executing a command moves nothing in the line; a check that finds `"True"` finds the last write. -/
lemma LinkUse.exec {u : String} {s : Server} (h : LinkUse u s) (hs : WellFormed s) {store : Store}
    (h₀ : store.hget u .newPassword ≠ some "True") (hstore : s.store = execLine store (executedLine s.log)) :
    LinkUse u (s.step .process .exec) := by
  cases hq : s.queue with
  | nil => rwa [step_exec_nil .process hq]
  | cons p rest =>
    have hline := line_exec hs
    have hflight := inFlight_exec hs
    have hopen : openings (s.step .process .exec) = openings s := by
      simp [step_exec_cons .process hq, Server.perform, openings, isOpening]
    have hmail : resetMails u (s.step .process .exec) = resetMails u s := by
      simp [step_exec_cons .process hq, Server.perform, resetMails, isResetMail]
    have hqueue : (s.step .process .exec).queue = rest := by
      rw [step_exec_cons .process hq]
      rfl
    have hpair := List.pairwise_cons.mp (hq ▸ h.queued)
    refine ⟨by rw [hopen, hmail]; exact h.bound, by rw [hopen, hmail, hline]; exact h.unused,
      by rw [hflight]; exact h.single, ?_, ?_, by rw [hqueue]; exact hpair.2, ?_⟩
    · intro p' hp'
      exact h.writes p' (hq ▸ List.mem_cons_of_mem _ (hqueue ▸ hp'))
    · intro p' hp'
      exact h.reads p' (hq ▸ List.mem_cons_of_mem _ (hqueue ▸ hp'))
    · intro a ha hflag hobj
      rw [hline]
      rw [step_exec_cons .process hq] at ha
      rcases List.mem_append.mp ha with ha | ha
      · exact h.answered a ha hflag hobj
      · obtain rfl := List.mem_singleton.mp ha
        have hcmd := h.reads p (hq ▸ List.mem_cons_self) hflag
        have hget : s.store.hget u .newPassword = some "True" := hget_eq_of_obj (by simpa [hcmd] using hobj)
        have hlast := lastWrite_of_hget h₀ (hstore ▸ hget)
        refine hlast.append fun x hx hw => ?_
        -- what waits behind the check may set the flag but does not clear it
        rw [hq, List.map_cons] at hx
        rcases List.mem_cons.mp hx with rfl | hx
        · simp [hcmd, writesField] at hw
        · obtain ⟨q, hqr, rfl⟩ := List.mem_map.mp hx
          have hwrites := h.writes q (hq ▸ List.mem_cons_of_mem _ hqr) hw
          exact hwrites.resolve_right (hpair.1 q hqr hflag)

/-- While the oldest reply belongs to a check, no other check is in flight. -/
lemma LinkUse.no_other {u : String} {s : Server} (h : LinkUse u s) {a : Answer} {rest : List Answer}
    (hr : s.replies = a :: rest) (ha : decidesFlag a.callback = true) :
    (∀ b ∈ rest, decidesFlag b.callback = false) ∧ ∀ p ∈ s.queue, decidesFlag p.callback = false := by
  have hsingle := h.single
  simp only [inFlight, hr, List.map_cons, List.cons_append, List.countP_cons, ha, if_true,
    List.countP_append, List.countP_map] at hsingle
  have hrest : rest.countP (fun b => decidesFlag b.callback) = 0 := by
    change _ + List.countP (fun p => decidesFlag p.callback) s.queue + 1 ≤ 1 at hsingle
    change List.countP (fun b => decidesFlag b.callback) rest + _ + 1 ≤ 1 at hsingle
    omega
  have hqueue : s.queue.countP (fun p => decidesFlag p.callback) = 0 := by
    change _ + List.countP (fun p => decidesFlag p.callback) s.queue + 1 ≤ 1 at hsingle
    omega
  exact ⟨fun b hb => by simpa using List.countP_eq_zero.mp hrest b hb,
    fun p hp => by simpa using List.countP_eq_zero.mp hqueue p hp⟩

section

variable {u : String} {s s' : Server} {ps : List Pending}

/-- A segment that clears no flag behind a check and leaves the counts covered. -/
lemma LinkUse.append (h : LinkUse u s) (happ : Appends s s' ps) (hbound : openings s' ≤ resetMails u s')
    (hunused : LastWrite u .newPassword "True" (line s') → openings s' < resetMails u s')
    (hsingle : (inFlight s').countP (fun x => decidesFlag x.2) ≤ 1)
    (hwrites : ∀ p ∈ ps, writesField u .newPassword p.cmd = true →
      p.cmd = .hset u .newPassword "True" ∨ p.cmd = .hset u .newPassword "False")
    (hreads : ∀ p ∈ ps, decidesFlag p.callback = true → p.cmd = .hget u .newPassword)
    (hpair : ps.Pairwise (fun p q => decidesFlag p.callback = true → q.cmd ≠ .hset u .newPassword "False"))
    (hbehind : ∀ p ∈ s.queue, decidesFlag p.callback = true → ∀ q ∈ ps, q.cmd ≠ .hset u .newPassword "False")
    (hanswered : ∀ a ∈ s'.replies, decidesFlag a.callback = true → a.reply.obj = .str "True" →
      LastWrite u .newPassword "True" (line s')) : LinkUse u s' := by
  refine ⟨hbound, hunused, hsingle, ?_, ?_, ?_, hanswered⟩ <;> rw [happ.queue]
  · exact fun p hp => (List.mem_append.mp hp).elim (h.writes p) (hwrites p)
  · exact fun p hp => (List.mem_append.mp hp).elim (h.reads p) (hreads p)
  · exact List.pairwise_append.mpr ⟨h.queued, hpair, fun p hp q hq hflag => hbehind p hp hflag q hq⟩

/-- A check that found `"True"` still found the last write if nothing clears the flag. -/
lemma LinkUse.answered_append (h : LinkUse u s) (happ : Appends s s' ps)
    (hkeeps : ∀ p ∈ ps, writesField u .newPassword p.cmd = true → p.cmd = .hset u .newPassword "True") :
    ∀ a ∈ s'.replies, decidesFlag a.callback = true → a.reply.obj = .str "True" →
      LastWrite u .newPassword "True" (line s') := by
  intro a ha hflag hobj
  rw [happ.line]
  refine (h.answered a (happ.replies a ha) hflag hobj).append fun x hx hw => ?_
  obtain ⟨p, hp, rfl⟩ := List.mem_map.mp hx
  exact hkeeps p hp hw

lemma LinkUse.plain (h : LinkUse u s) (happ : Appends s s' ps)
    (hps : ∀ p ∈ ps, writesField u .newPassword p.cmd = false ∧ decidesFlag p.callback = false)
    (hopen : openings s' = openings s) (hmail : resetMails u s' = resetMails u s) : LinkUse u s' := by
  have hnone : ∀ x ∈ ps.map (fun p => (p.task, p.cmd)), writesField u .newPassword x.2 = false := by
    intro x hx
    obtain ⟨p, hp, rfl⟩ := List.mem_map.mp hx
    exact (hps p hp).1
  have hzero : (ps.map (fun p => (p.task, p.callback))).countP (fun x => decidesFlag x.2) = 0 := by
    rw [List.countP_eq_zero]
    intro x hx
    obtain ⟨p, hp, rfl⟩ := List.mem_map.mp hx
    simp [(hps p hp).2]
  have hcount := happ.count (fun x => decidesFlag x.2)
  have hsingle := h.single
  refine h.append happ (by rw [hopen, hmail]; exact h.bound) (fun hlast => ?_) (by omega)
    (fun p hp hw => absurd hw (by simp [(hps p hp).1])) (fun p hp hf => absurd hf (by simp [(hps p hp).2]))
    (List.pairwise_of_forall_mem_list fun p hp q _ hf => absurd hf (by simp [(hps p hp).2]))
    (fun p _ _ q hq hcmd => absurd (hps q hq).1 (by simp [hcmd, writesField]))
    (h.answered_append happ fun p hp hw => absurd hw (by simp [(hps p hp).1]))
  rw [hopen, hmail]
  exact h.unused ((happ.line ▸ hlast).of_append hnone)

/-- A mailed link is one opening to spare. -/
lemma LinkUse.reset (h : LinkUse u s) {i : ℕ} {text : String}
    (happ : Appends s s' [⟨i, .hset u .timestamp text, .ignore⟩, ⟨i, .hset u .newPassword "True", .ignore⟩])
    (hopen : openings s' = openings s) (hmail : resetMails u s' = resetMails u s + 1) : LinkUse u s' := by
  have hbound := h.bound
  have hcount : _ ≤ _ + 0 := happ.count (fun x => decidesFlag x.2)
  exact h.append happ (by omega) (fun _ => by omega) (hcount.trans h.single) (by simp [writesField])
    (by simp [decidesFlag]) (by simp [decidesFlag]) (by simp) (h.answered_append happ (by simp [writesField]))

lemma LinkUse.check (h : LinkUse u s) {i : ℕ} {timestamp : JsVal}
    (happ : Appends s s' [⟨i, .hget u .newPassword, .newPasswordFlag timestamp⟩])
    (halone : ∀ x ∈ inFlight s, decidesFlag x.2 = false) (hopen : openings s' = openings s)
    (hmail : resetMails u s' = resetMails u s) : LinkUse u s' := by
  have hzero : (inFlight s).countP (fun x => decidesFlag x.2) = 0 :=
    List.countP_eq_zero.mpr fun x hx => by simp [halone x hx]
  have hcount : _ ≤ _ + 1 := happ.count (fun x => decidesFlag x.2)
  refine h.append happ (by rw [hopen, hmail]; exact h.bound) (fun hlast => ?_) (by omega) (by simp [writesField])
    (by simp) (by simp) (by simp) (h.answered_append happ (by simp [writesField]))
  rw [hopen, hmail]
  exact h.unused ((happ.line ▸ hlast).of_append (by simp [writesField]))

/-- The check found a link that nobody used: it is used now, and no other check is left. -/
lemma LinkUse.accept (h : LinkUse u s) {a : Answer} {rest : List Answer}
    (happ : Appends s s' [⟨a.task, .hset u .newPassword "False", .ignore⟩]) (hr : s.replies = a :: rest)
    (hr' : s'.replies = rest) (ha : decidesFlag a.callback = true) (hobj : a.reply.obj = .str "True")
    (hopen : openings s' = openings s + 1) (hmail : resetMails u s' = resetMails u s) : LinkUse u s' := by
  have hunused := h.unused (h.answered a (hr ▸ List.mem_cons_self) ha hobj)
  have hcount : _ ≤ _ + 0 := happ.count (fun x => decidesFlag x.2)
  obtain ⟨hrest, hnone⟩ := h.no_other hr ha
  refine h.append happ (by omega) (fun hlast => ?_) (hcount.trans h.single) (by simp) (by simp [decidesFlag]) (by simp)
    (fun p hp hf => absurd hf (by simp [hnone p hp])) (fun b hb hf => ?_)
  · rw [happ.line] at hlast
    rcases Runs.since_concat.mp hlast with hx | ⟨-, hx⟩
    · simp at hx
    · simp [writesField] at hx
  · rw [hr'] at hb
    simp [hrest b hb] at hf

end

lemma LinkUse.segment {u : String} {s : Server} (h : LinkUse u s) (hu : LinksOnly u s) (hs : WellFormed s)
    {e : Event} (he : e ≠ .exec) (hc : concerns u s e = true) (hd : checksAlone s e = true) :
    LinkUse u (s.step .process e) := by
  have happ := appends_step hs he
  have hwork := flagWork hu hs hc hd
  generalize issues s e = ps at happ hwork
  cases hwork with
  | plain hps hopen hmail => exact h.plain happ hps hopen hmail
  | reset hopen hmail => exact h.reset happ hopen hmail
  | check halone hopen hmail => exact h.check happ halone hopen hmail
  | accept hdeliver hr ha hobj hopen hmail =>
    subst hdeliver
    exact h.accept happ hr (by rw [replies_step hs he, hr]; rfl) ha hobj hopen hmail

/-! ### One link for each reset -/

/-- The callbacks of `POST /reset_password`. -/
def isReset : Callback → Bool
  | .resetMail _ _ | .resetValid _ => true
  | _ => false

/-- Only the first callback of a reset continues in a callback of one. -/
lemma countP_isReset_run {callback : Callback} (h : ∀ mail secure, callback ≠ .resetMail mail secure) (r : Reply)
    {c : Ctx} (hissued : c.issued = []) : (callback.run r c).issued.countP (fun p => isReset p.2) = 0 := by
  rw [List.countP_eq_zero]
  intro p hp
  have hfollow := run_issued callback r c hissued p hp
  generalize p.1 = cmd, p.2 = callback' at hfollow
  cases hfollow with
  | resetMail => exact absurd rfl (h _ _)
  | _ => simp [isReset]

/-- Only the second callback of a reset writes files. -/
lemma files_run {callback : Callback} (h : ∀ secure, callback ≠ .resetValid secure) (r : Reply) (c : Ctx) :
    (callback.run r c).files = c.files := by
  cases callback with
  | missing => cases r <;> rfl
  | resetValid secure => exact absurd rfl (h secure)
  | verifyTimestamp => exact (verifyTimestamp_spec r.obj c).1
  | newPasswordFlag timestamp => exact (newPasswordFlag_spec timestamp r.obj c).1
  | resetMail mail secure =>
    simp only [Callback.run, Routes.resetMail]
    split <;> rfl
  | loginPassword username generatedHash =>
    simp only [Callback.run, Routes.loginPassword]
    split <;> rfl
  | loginValid username =>
    simp only [Callback.run, Routes.loginValid]
    split <;> rfl
  | createUserKeys username mail generatedHash =>
    simp only [Callback.run, Routes.createUserKeys]
    split <;> rfl
  | _ => rfl

/-- A callback of a reset continues in at most one further callback or one mail, any other in none. -/
lemma run_reset_balance (callback : Callback) (u : String) (r : Reply) {c : Ctx} (hissued : c.issued = [])
    (hfiles : c.files = []) :
    (callback.run r c).issued.countP (fun p => isReset p.2) + (callback.run r c).files.countP (isPasswordFile u) ≤
      (isReset callback).toNat := by
  cases callback with
  | resetMail mail secure =>
    rw [files_run (by simp), hfiles]
    refine (Nat.add_zero _).trans_le (List.countP_le_length.trans ?_)
    simp only [Callback.run, Routes.resetMail]
    split <;> simp [hissued, isReset]
  | resetValid secure =>
    rw [countP_isReset_run (by simp) r hissued, Nat.zero_add]
    refine List.countP_le_length.trans ?_
    obtain ⟨-, ⟨-, -, text, hf⟩ | ⟨-, hf⟩⟩ := resetValid_spec secure r.obj c <;> rw [Callback.run, hf, hfiles]
    exacts [le_rfl, Nat.zero_le _]
  | _ =>
    rw [countP_isReset_run (by simp) r hissued, files_run (by simp), hfiles]
    exact Nat.zero_le _

/-- The request that mailed a reset link for `u`. -/
def issuer (u : String) : Observation → Option ℕ
  | .file (.task i) file => if isPasswordFile u file then some i else none
  | _ => none

/-- The request that rendered `accept_password`. -/
def opener : Observation → Option ℕ
  | .responded i (.render (.acceptPassword _)) => some i
  | _ => none

def issuers (u : String) (s : Server) : List ℕ := s.log.filterMap (issuer u)

def openers (s : Server) : List ℕ := s.log.filterMap opener

/-- A reset waits for one reply or has mailed one link, never both and never twice. -/
structure ResetChain (u : String) (s : Server) : Prop where
  once : ∀ i, (inFlight s).countP (fun x => x.1 = i ∧ isReset x.2) + (issuers u s).count i ≤ 1
  started : ∀ i ∈ issuers u s, i < s.started

lemma filterMap_issuer_observations (u : String) (i sid : ℕ) (c : Ctx) :
    (observations i sid c).filterMap (issuer u) = List.replicate (c.files.countP (isPasswordFile u)) i := by
  have hfiles : (c.files.map (Observation.file (.task i))).filterMap (issuer u) =
      List.replicate (c.files.countP (isPasswordFile u)) i := by
    induction c.files with
    | nil => rfl
    | cons file files ih => cases hf : isPasswordFile u file <;> simp [issuer, hf, ih, List.replicate_succ]
  unfold observations
  rw [List.filterMap_append, List.filterMap_append, hfiles]
  cases c.response <;> cases c.crashed <;> simp [issuer]

/-- The balance of a task after a segment of task `i`. -/
lemma issuers_of_log {u : String} {s s' : Server} {i sid : ℕ} {c : Ctx}
    (h : s'.log = s.log ++ observations i sid c) :
    issuers u s' = issuers u s ++ List.replicate (c.files.countP (isPasswordFile u)) i := by
  rw [issuers, h, List.filterMap_append, filterMap_issuer_observations]
  rfl

lemma countP_of_task (i j : ℕ) (issued : List (Cmd × Callback)) :
    (issued.map (fun p => (i, p.2))).countP (fun x => x.1 = j ∧ isReset x.2) =
      if i = j then issued.countP (fun p => isReset p.2) else 0 := by
  rw [List.countP_map]
  by_cases hij : i = j
  · simp [hij, Function.comp_def]
  · simp [hij, Function.comp_def]

lemma begin_passwordFiles (u : String) {c : Ctx} {req : Request} (hc : namesOnly u c.session req = true)
    (hfiles : c.files = []) :
    (req.begin c).files.countP (isPasswordFile u) = 0 := by
  rw [Request.begin, checkAuth_eq]
  split
  · simp [hfiles]
  · cases req with
    | postUpdateMail mail secure =>
      obtain ⟨-, rfl⟩ := isName_iff.mp hc
      simp [Request.handler, Routes.postUpdateMail, hfiles, isPasswordFile]
    | postLogin | postUpdatePassword | postCreateUser | postNewPassword =>
      simp only [Request.handler, Routes.postLogin, Routes.postUpdatePassword, Routes.postCreateUser,
        Routes.postNewPassword]
      split <;> simp [hfiles]
    | _ => simp [Request.handler, Routes.getSecure, Routes.getLogout, Routes.getVerify, Routes.postVerifyMail,
        Routes.getVerifyMail, Routes.postResetPassword, Routes.getNewPassword, hfiles]

lemma begin_resets {u : String} {s : Server} {sid now : ℕ} {req : Request}
    (hc : concerns u s (.arrive sid req now) = true) :
    (req.begin { now, vars := s.vars, session := s.sessions sid }).issued.countP (fun p => isReset p.2) ≤ 1 := by
  rw [begin_eq_handler req (by rintro url rfl; cases hc)]
  cases req with
  | postUpdateMail mail secure =>
    obtain ⟨hplain, -⟩ := isName_iff.mp hc
    simp [Request.handler, Routes.postUpdateMail, clientCall_hset hplain, isReset]
  | getVerify => simp [Request.handler, Routes.getVerify, isReset]
  | postResetPassword => exact List.countP_le_length.trans (by simp [Request.handler, Routes.postResetPassword])
  | getNewPassword => simp [Request.handler, Routes.getNewPassword, isReset]
  | _ => cases hc

lemma ResetChain.arrive {u : String} {s : Server} (h : ResetChain u s) (hs : WellFormed s) {sid now : ℕ}
    {req : Request} (hc : concerns u s (.arrive sid req now) = true) :
    ResetChain u (s.step .process (.arrive sid req now)) := by
  have hone := begin_resets hc
  have hissuers : issuers u (s.step .process (.arrive sid req now)) = issuers u s := by
    rw [issuers_of_log (log_arrive s sid req now),
      begin_passwordFiles u (c := { now, vars := s.vars, session := s.sessions sid }) (webNames_of_concerns hc) rfl]
    simp
  have hflight : inFlight (s.step .process (.arrive sid req now)) = inFlight s ++
      (req.begin { now, vars := s.vars, session := s.sessions sid }).issued.map (fun p => (s.started, p.2)) := by
    rw [step_arrive, inFlight_commit]
    rfl
  refine ⟨fun i => ?_, fun i hi => ?_⟩
  · rw [hissuers, hflight, List.countP_append, countP_of_task]
    by_cases hi : s.started = i
    · have hnone : (inFlight s).countP (fun x => x.1 = i ∧ isReset x.2) = 0 := by
        rw [List.countP_eq_zero]
        intro x hx
        have hlt := hs.inFlight_lt hx
        simp only [decide_eq_true_eq, not_and]
        omega
      have hfresh : (issuers u s).count i = 0 := by
        rw [List.count_eq_zero]
        intro hmem
        have hlt := h.started i hmem
        omega
      simp only [hi, if_true]
      omega
    · simpa [hi] using h.once i
  · have hlt := h.started i (hissuers ▸ hi)
    rw [step_arrive]
    exact Nat.lt_succ_of_lt hlt

lemma ResetChain.deliver {u : String} {s : Server} (h : ResetChain u s) (hs : WellFormed s) (now : ℕ) :
    ResetChain u (s.step .process (.deliver now)) := by
  cases hr : s.replies with
  | nil => rwa [step_deliver_nil .process hr]
  | cons a rest =>
    obtain ⟨t, ht, -⟩ := hs.head_task hr
    have hbalance := run_reset_balance a.callback u a.reply (c := s.context .process t now) rfl rfl
    have hstep := step_deliver_cons .process hr ht now
    generalize a.callback.run a.reply (s.context .process t now) = c at hbalance hstep
    have hissuers : issuers u (s.step .process (.deliver now)) =
        issuers u s ++ List.replicate (c.files.countP (isPasswordFile u)) a.task := by
      rw [hstep]
      exact issuers_of_log rfl
    have hflight : inFlight (s.step .process (.deliver now)) =
        inFlight { s with replies := rest } ++ c.issued.map (fun p => (a.task, p.2)) := by
      rw [hstep, inFlight_commit]
    have hold : inFlight s = (a.task, a.callback) :: inFlight { s with replies := rest } := by
      simp [inFlight, hr]
    refine ⟨fun i => ?_, fun i hi => ?_⟩
    · have honce := h.once i
      rw [hold, List.countP_cons] at honce
      rw [hissuers, hflight, List.countP_append, countP_of_task, List.count_append, List.count_replicate]
      by_cases hi : a.task = i
      · cases hreset : isReset a.callback <;>
          simp only [hi, hreset, Bool.toNat_false, Bool.toNat_true, and_true, decide_true, if_true, beq_self_eq_true,
            Bool.false_eq_true, and_false, decide_false, if_false] at honce hbalance ⊢ <;>
          omega
      · simp [hi] at honce ⊢
        omega
    · rw [started_deliver .process hr ht]
      rw [hissuers] at hi
      rcases List.mem_append.mp hi with hi | hi
      · exact h.started i hi
      · rw [List.eq_of_mem_replicate hi]
        exact hs.bound a.task t ht

lemma ResetChain.exec {u : String} {s : Server} (h : ResetChain u s) (hs : WellFormed s) :
    ResetChain u (s.step .process .exec) := by
  have hflight := inFlight_exec hs
  cases hq : s.queue with
  | nil => rwa [step_exec_nil .process hq]
  | cons p rest =>
    have hissuers : issuers u (s.step .process .exec) = issuers u s := by
      simp [step_exec_cons .process hq, Server.perform, issuers, issuer]
    exact ⟨by rw [hflight, hissuers]; exact h.once, by rw [hissuers, started_exec]; exact h.started⟩

theorem ResetChain.step {u : String} {s : Server} (h : ResetChain u s) (hs : WellFormed s) {e : Event}
    (hc : concerns u s e = true) : ResetChain u (s.step .process e) := by
  cases e with
  | arrive sid req now => exact h.arrive hs hc
  | exec => exact h.exec hs
  | deliver now => exact h.deliver hs now
  | _ => cases hc

/-- No request mails two links. -/
lemma ResetChain.nodup {u : String} {s : Server} (h : ResetChain u s) : (issuers u s).Nodup :=
  List.nodup_iff_count_le_one.mpr fun i => (Nat.le_add_left _ _).trans (h.once i)

lemma length_issuers (u : String) (s : Server) : (issuers u s).length = resetMails u s := by
  rw [issuers, resetMails, List.length_filterMap_eq_countP]
  congr 1
  funext o
  cases o with
  | file actor file =>
    cases actor with
    | task i => cases hf : isPasswordFile u file <;> simp [issuer, isResetMail, hf]
    | admin j => rfl
  | _ => rfl

lemma length_openers (s : Server) : (openers s).length = openings s := by
  rw [openers, openings, List.length_filterMap_eq_countP]
  congr 1
  funext o
  cases o with
  | responded i response =>
    cases response with
    | render page => cases page <;> rfl
    | _ => rfl
  | _ => rfl

section

variable (u : String) (store : Store) (sessions : ℕ → Session)

lemma linkUse_runFrom (h₀ : store.hget u .newPassword ≠ some "True") (es : List Event)
    (h : Runs.Guarded (fun pre e => concerns u (runFrom store sessions pre) e = true ∧
      checksAlone (runFrom store sessions pre) e = true) es) :
    LinksOnly u (runFrom store sessions es) ∧ LinkUse u (runFrom store sessions es) ∧
      ResetChain u (runFrom store sessions es) := by
  induction es using Runs.history_induction with
  | h0 =>
    exact ⟨linksOnly_init u store sessions,
      ⟨by simp [runFrom, openings], fun hlast => absurd hlast (Runs.not_since_nil _ _), by simp [runFrom, inFlight],
        by simp [runFrom], by simp [runFrom], by simp [runFrom], by simp [runFrom]⟩,
      ⟨by simp [runFrom, inFlight, issuers], by simp [runFrom, issuers]⟩⟩
  | hs es e ih =>
    obtain ⟨hu, hl, hr⟩ := ih h.init
    obtain ⟨hc, hd⟩ := h.last
    have hs := wellFormed_runFrom store sessions es
    rw [runFrom_concat]
    refine ⟨hu.step hs hc, ?_, hr.step hs hc⟩
    by_cases he : e = .exec
    · subst he
      refine hl.exec hs h₀ (store_eq_execLine store sessions es fun e he => ?_)
      obtain ⟨pre, post, rfl⟩ := List.append_of_mem he
      exact isAdmin_of_concerns (h.init pre e ⟨post, by simp⟩).1
    · exact hl.segment hu hs he hc hd

/-- A reset link opens at most once: in every run of requests about `u` in which no check of the
flag starts while another is in flight, no more requests render `accept_password` than requests
mailed a link. -/
theorem reset_link_opens_once (h₀ : store.hget u .newPassword ≠ some "True") (es : List Event)
    (h : Runs.Guarded (fun pre e => concerns u (runFrom store sessions pre) e = true ∧
      checksAlone (runFrom store sessions pre) e = true) es) :
    (openers (runFrom store sessions es)).toFinset.card ≤ (issuers u (runFrom store sessions es)).toFinset.card := by
  obtain ⟨-, hl, hr⟩ := linkUse_runFrom u store sessions h₀ es h
  calc (openers (runFrom store sessions es)).toFinset.card
      ≤ (openers (runFrom store sessions es)).length := List.toFinset_card_le _
    _ = openings (runFrom store sessions es) := length_openers _
    _ ≤ resetMails u (runFrom store sessions es) := hl.bound
    _ = (issuers u (runFrom store sessions es)).length := (length_issuers u _).symm
    _ = (issuers u (runFrom store sessions es)).toFinset.card := (List.toFinset_card_of_nodup hr.nodup).symm

end

/-- `alice` has a confirmed address and no reset link. -/
def confirmedAlice : Store :=
  HashStore.writes ∅ [("alice", .mail, "alice@example.org"), ("alice", .valid, "True")]

/-- `alice` asks for a reset link. -/
def askForLink : List Event :=
  [.arrive 0 (.postResetPassword (.str "alice") (.str "alice@example.org") true) 1700000000000, .exec,
    .deliver 1700000000000, .exec, .deliver 1700000000000, .exec, .exec, .deliver 1700000000000,
    .deliver 1700000000000]

/-- A click on the link, with nothing else in flight. -/
def clickLink (now : ℕ) : List Event :=
  [.arrive 1 (.getNewPassword "alice" (sha256Hex "1700000000")) now, .exec, .exec, .deliver now, .deliver now,
    .exec, .deliver now, .exec, .deliver now]

theorem reset_link_opens_once_alice :
    let es := askForLink ++ clickLink 1700000060000 ++ clickLink 1700000120000
    Runs.Guarded (fun pre e => concerns "alice" (runFrom confirmedAlice (fun _ => {}) pre) e = true ∧
        checksAlone (runFrom confirmedAlice (fun _ => {}) pre) e = true) es ∧
      openers (runFrom confirmedAlice (fun _ => {}) es) = [1] ∧
      (openers (runFrom confirmedAlice (fun _ => {}) es)).toFinset.card ≤
        (issuers "alice" (runFrom confirmedAlice (fun _ => {}) es)).toFinset.card := by
  intro es
  have hg : Runs.Guarded (fun pre e => concerns "alice" (runFrom confirmedAlice (fun _ => {}) pre) e = true ∧
      checksAlone (runFrom confirmedAlice (fun _ => {}) pre) e = true) es :=
    Runs.guarded_of_forall_lt (by decide +kernel)
  exact ⟨hg, by decide +kernel, reset_link_opens_once "alice" _ _ (by decide +kernel) es hg⟩

/-- Two clicks on the link at the same time. -/
def clickTwice : List Event :=
  [.arrive 1 (.getNewPassword "alice" (sha256Hex "1700000000")) 1700000060000,
    .arrive 2 (.getNewPassword "alice" (sha256Hex "1700000000")) 1700000060000, .exec, .exec, .exec, .exec,
    .deliver 1700000060000, .deliver 1700000060000, .deliver 1700000060000, .deliver 1700000060000, .exec, .exec,
    .deliver 1700000060000, .deliver 1700000060000]

/-- Both clicks find the flag set, and one link opens twice. -/
theorem reset_link_opens_twice :
    Runs.Guarded (fun pre e => concerns "alice" (runFrom confirmedAlice (fun _ => {}) pre) e = true)
        (askForLink ++ clickTwice) ∧
      ¬(openers (runFrom confirmedAlice (fun _ => {}) (askForLink ++ clickTwice))).toFinset.card ≤
        (issuers "alice" (runFrom confirmedAlice (fun _ => {}) (askForLink ++ clickTwice))).toFinset.card := by
  refine ⟨Runs.guarded_of_forall_lt (by decide +kernel), ?_⟩
  have hopeners : openers (runFrom confirmedAlice (fun _ => {}) (askForLink ++ clickTwice)) = [1, 2] := by
    decide +kernel
  have hissuers : issuers "alice" (runFrom confirmedAlice (fun _ => {}) (askForLink ++ clickTwice)) = [0] := by
    decide +kernel
  rw [hopeners, hissuers]
  decide

end ExpressAuth.Proofs
