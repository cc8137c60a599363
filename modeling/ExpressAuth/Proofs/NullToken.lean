import ExpressAuth.Proofs.DatedRecords
import ExpressAuth.Proofs.Isolation

/-!
# The token of a missing timestamp

For a record without `timestamp` both link handlers compute the hash of the text `null`, which
anybody can send. `GET /verify` is safe because an address that waits for confirmation has a
timestamp; `GET /new_password` because `null` counts as zero and makes the link too old.
-/

namespace ExpressAuth.Proofs
open Server

section

variable (store : Store) (sessions : ℕ → Session)

/-! ### What a request has read -/

/-- The request `i` has read a `timestamp` and got `v`, which is `null` or a clock reading. -/
def StampRead (i : ℕ) (v : JsVal) (es : List Event) : Prop :=
  ∃ uid stored, .executed (.task i) (.hget uid .timestamp) (.bulk stored) ∈ (runFrom store sessions es).log ∧
    JsVal.ofReply stored = v ∧ ∀ text, stored = some text → ClockText text

/-- The timestamp that both link handlers decide on is the one they read. -/
def stampFlow : Flow where
  queued es p :=
    match p.callback with
    | .verifyTimestamp | .newPasswordTimestamp => ∃ uid, p.cmd = .hget uid .timestamp
    | .newPasswordFlag timestamp => StampRead store sessions p.task timestamp es
    | _ => True
  answered es a :=
    match a.callback with
    | .verifyTimestamp | .newPasswordTimestamp => StampRead store sessions a.task a.reply.obj es
    | .newPasswordFlag timestamp => StampRead store sessions a.task timestamp es
    | _ => True
  session _ _ _ := True

variable {store sessions} in
lemma StampRead.concat {i : ℕ} {v : JsVal} {es : List Event} (h : StampRead store sessions i v es) (e : Event) :
    StampRead store sessions i v (es ++ [e]) := by
  obtain ⟨uid, stored, hread, hv, htext⟩ := h
  refine ⟨uid, stored, ?_, hv, htext⟩
  rw [runFrom_concat]
  exact mem_log_step (wellFormed_runFrom store sessions es) e hread

lemma stampRead_exec {es : List Event} (hdated : Dated (runFrom store sessions es).store) {i : ℕ} {uid : String}
    {callback : Callback} {rest : List Pending}
    (hq : (runFrom store sessions es).queue = ⟨i, .hget uid .timestamp, callback⟩ :: rest) :
    StampRead store sessions i (JsVal.ofReply ((runFrom store sessions es).store.hget uid .timestamp))
      (es ++ [.exec]) := by
  refine ⟨uid, (runFrom store sessions es).store.hget uid .timestamp, ?_, rfl, fun text => hdated.text uid text⟩
  rw [runFrom_concat, step_exec_cons .process hq]
  exact List.mem_append_right _ List.mem_cons_self

lemma stampFlow_sound :
    (stampFlow store sessions).Sound store sessions (fun es _ => Dated (runFrom store sessions es).store) := by
  refine ⟨fun _ => trivial, ?_, ?_, fun _ _ _ _ _ _ => trivial, ?_, ?_, ?_⟩
  · rintro es e - h ⟨i, cmd, callback⟩ hp
    have hold := h.queue _ hp
    cases callback with
    | verifyTimestamp | newPasswordTimestamp => exact hold
    | newPasswordFlag timestamp => exact StampRead.concat hold e
    | _ => trivial
  · rintro es e - h ⟨i, callback, reply⟩ hr
    have hold := h.replies _ hr
    cases callback with
    | verifyTimestamp | newPasswordTimestamp | newPasswordFlag timestamp => exact StampRead.concat hold e
    | _ => trivial
  · rintro es sid req now - h
    refine ⟨trivial, fun cmd callback ho => ?_⟩
    cases ho with
    | verifyTimestamp | newPasswordTimestamp => exact ⟨_, rfl⟩
    | _ => trivial
  · rintro es ⟨i, cmd, callback⟩ rest hdated h hq
    have hold := h.queue _ (hq ▸ List.mem_cons_self)
    cases callback with
    | verifyTimestamp | newPasswordTimestamp =>
      obtain ⟨uid, rfl⟩ := hold
      exact stampRead_exec store sessions hdated hq
    | newPasswordFlag timestamp => exact StampRead.concat hold _
    | _ => trivial
  · rintro es now ⟨i, callback, reply⟩ rest t - h hr ht
    refine ⟨trivial, fun cmd callback' hf => ?_⟩
    have hold := h.replies _ (hr ▸ List.mem_cons_self)
    cases hf with
    | newPasswordTimestamp => exact StampRead.concat hold _
    | _ => trivial

/-! ### Each request reads once -/

/-- The command of the line is a read of a `timestamp` by the request `i`. -/
def readsStamp (i : ℕ) : ℕ × Cmd → Bool
  | (k, .hget _ .timestamp) => k = i
  | _ => false

lemma task_of_readsStamp {i : ℕ} {x : ℕ × Cmd} (h : readsStamp i x = true) : x.1 = i := by
  unfold readsStamp at h
  split at h <;> simp_all

lemma countP_readsStamp_begin (req : Request) {c : Ctx} (hs : c.session.user.isArray = false) (hc : c.issued = [])
    (i k : ℕ) : ((req.begin c).issued.map (fun p => (k, p.1))).countP (readsStamp i) ≤ 1 := by
  rw [Request.begin, checkAuth_eq]
  split
  · simp [hc]
  · cases req with
    | postLogin username password =>
      simp only [Request.handler, Routes.postLogin]
      split <;> exact List.countP_le_length.trans (by simp [hc])
    | postUpdatePassword password =>
      simp only [Request.handler, Routes.postUpdatePassword]
      split <;> exact List.countP_le_length.trans (by simp [hc])
    | postCreateUser username password mail =>
      simp only [Request.handler, Routes.postCreateUser]
      split <;> exact List.countP_le_length.trans (by simp [hc])
    | postNewPassword password =>
      simp only [Request.handler, Routes.postNewPassword]
      split <;> exact List.countP_le_length.trans (by simp [hc])
    | postResetPassword username mail secure =>
      exact List.countP_le_length.trans (by simp [Request.handler, Routes.postResetPassword, hc])
    | getVerify uid token | getNewPassword uid token =>
      by_cases hk : k = i <;>
        simp [Request.handler, Routes.getVerify, Routes.getNewPassword, hc, readsStamp, hk]
    | _ =>
      simp [Request.handler, Routes.getSecure, Routes.postUpdateMail, Routes.getLogout, Routes.postVerifyMail,
        Routes.getVerifyMail, hc, clientCall_hget hs, clientCall_hset hs, readsStamp]

lemma countP_readsStamp_of_le {s : Server} (hs : WellFormed s) {i : ℕ} (hi : s.started ≤ i) :
    (line s).countP (readsStamp i) = 0 := by
  rw [List.countP_eq_zero]
  intro x hx hread
  have hlt := hs.line_lt hx
  rw [task_of_readsStamp hread] at hlt
  omega

lemma readsStamp_deliver {s : Server} (hs : PlainNames s) {now i : ℕ} {p : Pending}
    (hp : p ∈ issues s (.deliver now)) : readsStamp i (p.task, p.cmd) = false := by
  rcases mem_issues hp with ⟨sid, req, now', he, -⟩ | ⟨now', a, rest, t, -, hr, -, -, hf⟩
  · cases he
  · have hb : plainCallback a.callback = true := hs.callbacks _ (head_mem_inFlight hr)
    generalize a.callback = callback, p.cmd = cmd, p.callback = callback' at hf hb
    cases hf with
    | array harr => exact absurd harr (followUpCall_ne_of_plain hb hs.user)
    | _ => rfl

variable {sessions} in
lemma countP_readsStamp_le_one (hsessions : ∀ sid, (sessions sid).user.isArray = false) {es : List Event}
    (htext : ∀ e ∈ es, textualEvent e = true) (i : ℕ) :
    (line (runFrom store sessions es)).countP (readsStamp i) ≤ 1 := by
  induction es using Runs.history_induction with
  | h0 => simp [line, executedLine]
  | hs es e ih =>
    have hs := wellFormed_runFrom store sessions es
    have hpre : ∀ e ∈ es, textualEvent e = true := fun e' he' => htext e' (List.mem_append_left _ he')
    have hplain := plainNames_runFrom store hsessions hpre
    have ih := ih hpre
    rw [runFrom_concat, line_step hs, List.countP_append]
    cases e with
    | arrive sid req now =>
      let c : Ctx :=
        { now, vars := (runFrom store sessions es).vars, session := (runFrom store sessions es).sessions sid }
      have hissues : (issues (runFrom store sessions es) (.arrive sid req now)).map (fun p => (p.task, p.cmd)) =
          (req.begin c).issued.map (fun p => ((runFrom store sessions es).started, p.1)) := by
        simp [issues, segmentOf, c]
      rw [hissues]
      by_cases hi : (runFrom store sessions es).started = i
      · rw [countP_readsStamp_of_le hs hi.le, Nat.zero_add]
        exact countP_readsStamp_begin req (hplain.sessions sid) rfl i _
      · have hnone : ∀ x ∈ (req.begin c).issued.map (fun p => ((runFrom store sessions es).started, p.1)),
            ¬readsStamp i x = true := by
          intro x hx hread
          obtain ⟨p, -, rfl⟩ := List.mem_map.mp hx
          exact hi (task_of_readsStamp hread)
        rw [List.countP_eq_zero.mpr hnone]
        exact ih
    | deliver now =>
      have hnone : ∀ x ∈ (issues (runFrom store sessions es) (.deliver now)).map (fun p => (p.task, p.cmd)),
          ¬readsStamp i x = true := by
        intro x hx
        obtain ⟨p, hp, rfl⟩ := List.mem_map.mp hx
        rw [readsStamp_deliver hplain hp]
        simp
      rw [List.countP_eq_zero.mpr hnone]
      exact ih
    | exec | spawn | adminStep => simpa [issues, segmentOf] using ih

lemma eq_of_countP_le_one {α : Type*} {q : α → Bool} {l : List α} (h : l.countP q ≤ 1) {x y : α} (hx : x ∈ l)
    (hy : y ∈ l) (hqx : q x = true) (hqy : q y = true) : x = y := by
  have hx' : x ∈ l.filter q := List.mem_filter.mpr ⟨hx, hqx⟩
  have hy' : y ∈ l.filter q := List.mem_filter.mpr ⟨hy, hqy⟩
  rw [List.countP_eq_length_filter] at h
  rcases hl : l.filter q with _ | ⟨z, _ | ⟨z', rest⟩⟩
  · rw [hl] at hx'
    cases hx'
  · rw [hl, List.mem_singleton] at hx' hy'
    rw [hx', hy']
  · rw [hl] at h
    simp at h

variable {sessions} in
/-- A request that has read a `timestamp` has not read another. -/
lemma stampRead_unique (hsessions : ∀ sid, (sessions sid).user.isArray = false) {es : List Event}
    (htext : ∀ e ∈ es, textualEvent e = true) {i : ℕ} {uid uid' : String} {r r' : Reply}
    (h : .executed (.task i) (.hget uid .timestamp) r ∈ (runFrom store sessions es).log)
    (h' : .executed (.task i) (.hget uid' .timestamp) r' ∈ (runFrom store sessions es).log) : r = r' := by
  have hcount := countP_readsStamp_le_one store hsessions htext i
  rw [line, List.countP_append, executedLine, List.countP_filterMap] at hcount
  have heq := eq_of_countP_le_one (le_trans (Nat.le_add_right _ _) hcount) h h' (by simp [executedBy, readsStamp])
    (by simp [executedBy, readsStamp])
  simp only [Observation.executed.injEq] at heq
  exact heq.2.2

/-! ### Accepted links -/

lemma mem_log_of_prefix {pre es : List Event} (h : pre <+: es) {o : Observation}
    (ho : o ∈ (runFrom store sessions pre).log) : o ∈ (runFrom store sessions es).log := by
  refine Runs.prefix_induction (P := fun es => o ∈ (runFrom store sessions es).log) h ho ?_
  intro es e ih
  rw [runFrom_concat]
  exact mem_log_step (wellFormed_runFrom store sessions es) e ih

lemma identity_of_prefix {pre es : List Event} (h : pre <+: es) {i : ℕ} {id : Request × ℕ}
    (hi : identity (runFrom store sessions pre) i = some id) : identity (runFrom store sessions es) i = some id := by
  refine Runs.prefix_induction (P := fun es => identity (runFrom store sessions es) i = some id) h hi ?_
  intro es e ih
  rw [runFrom_concat]
  exact identity_step (wellFormed_runFrom store sessions es) .process e ih

/-- A delivery of the run answers the request `i` with `response`. -/
structure AnsweredAt (i : ℕ) (response : Response) (pre : List Event) (now : ℕ) (a : Answer) (t : Task) : Prop where
  head : a ∈ (runFrom store sessions pre).replies.head?
  task : (runFrom store sessions pre).tasks a.task = some t
  same : a.task = i
  response :
    (a.callback.run a.reply { now, vars := (runFrom store sessions pre).vars, session := t.session }).response =
      some response

/-- An accepted link was answered by a callback. -/
lemma answeredAt_of_accepts {es : List Event} {i : ℕ} {response : Response} (ha : acceptsLink response = true)
    (h : .responded i response ∈ (runFrom store sessions es).log) :
    ∃ pre now a t, pre ++ [.deliver now] <+: es ∧ AnsweredAt store sessions i response pre now a t := by
  induction es using Runs.history_induction with
  | h0 => simp at h
  | hs es e ih =>
    have hs := wellFormed_runFrom store sessions es
    by_cases hold : .responded i response ∈ (runFrom store sessions es).log
    · obtain ⟨pre, now, a, t, hp, hat⟩ := ih hold
      exact ⟨pre, now, a, t, hp.trans (List.prefix_append _ _), hat⟩
    · rw [runFrom_concat] at h
      cases e with
      | arrive sid req now =>
        rw [log_arrive] at h
        have hresp := responded_mem_observations.mp ((List.mem_append.mp h).resolve_left hold)
        have hno := begin_accepts req _ rfl response hresp.2
        rw [ha] at hno
        cases hno
      | exec =>
        cases hq : (runFrom store sessions es).queue with
        | nil =>
          rw [step_exec_nil .process hq] at h
          exact absurd h hold
        | cons p rest =>
          rw [step_exec_cons .process hq] at h
          simp [Server.perform, hold] at h
      | deliver now =>
        cases hr : (runFrom store sessions es).replies with
        | nil =>
          rw [step_deliver_nil .process hr] at h
          exact absurd h hold
        | cons a rest =>
          obtain ⟨t, ht, -⟩ := hs.head_task hr
          rw [log_deliver hr ht] at h
          have hresp := responded_mem_observations.mp ((List.mem_append.mp h).resolve_left hold)
          exact ⟨es, now, a, t, List.prefix_refl _, by simp [hr], ht, hresp.1.symm, hresp.2⟩
      | spawn argv => exact absurd h hold
      | adminStep j now =>
        rcases List.mem_append.mp h with h | h
        · exact absurd h hold
        · obtain ⟨output, -, hout⟩ := List.mem_map.mp h
          cases output <;> simp [observeAdmin] at hout

/-- `null` counts as zero, so from half an hour after the epoch on its age is too high. -/
lemma ageOf_null {now : ℕ} (h : 1800 ≤ seconds now) : lessThan (Routes.ageOf now .null) 1800 = false := by
  simpa [Routes.ageOf, JsVal.toNumber, subtractFrom, lessThan] using h

/-- A callback that compares the undeclared `token` finds its own request's token in it. -/
def KeepsToken (s : Server) : Event → Prop
  | .deliver _ => ∀ a ∈ s.replies.head?, ∀ t ∈ s.tasks a.task,
      readsToken a.callback = true → s.vars.token = ownToken t.request
  | _ => True

instance (s : Server) (e : Event) : Decidable (KeepsToken s e) := by
  unfold KeepsToken
  split <;> infer_instance

/-- The observation is no reply to a read of `timestamp` that has the hash of `null`. -/
def apartFromNull : Observation → Bool
  | .executed _ (.hget _ .timestamp) (.bulk (some text)) => sha256Hex text ≠ sha256Hex "null"
  | _ => true

section Accepted

variable {store sessions}
variable {es pre : List Event} {i now : ℕ} {response : Response} {a : Answer} {t : Task}
  (h : AnsweredAt store sessions i response pre now a t) (haccepts : acceptsLink response = true)
include h haccepts

lemma AnsweredAt.readsToken : readsToken a.callback = true := by
  rcases run_accepts _ _ _ rfl h.response haccepts with ⟨hcb, -⟩ | ⟨timestamp, flash, hcb, -⟩ <;> rw [hcb] <;> rfl

/-- The decision of an accepted link: the request had read a timestamp, and the token that was
compared is its hash. -/
lemma AnsweredAt.stamp (hp : pre ++ [.deliver now] <+: es) (h₀ : Dated store)
    (hsessions : ∀ sid, (sessions sid).user.isArray = false) (htext : ∀ e ∈ es, textualEvent e = true)
    (hok : Runs.Guarded (Undivided store sessions) es) (hclock : 1800 ≤ seconds now) :
    ∃ uid text, .executed (.task i) (.hget uid .timestamp) (.bulk (some text)) ∈ (runFrom store sessions pre).log ∧
      ClockText text ∧ (runFrom store sessions pre).vars.token = .str (sha256Hex text) := by
  have hconnection : ∀ pre', pre' <+: pre → Connection (runFrom store sessions pre') := by
    intro pre' hp'
    have hes : pre' <+: es := hp'.trans ((List.prefix_append _ _).trans hp)
    exact (connection_runFrom store sessions h₀ hsessions pre' (fun e he => htext e (hes.subset he)) (hok.mono hes)).1
  have hdated : Runs.Guarded (fun pre' _ => Dated (runFrom store sessions pre').store) pre :=
    fun pre' e hp' => (hconnection pre' ((List.prefix_append _ _).trans hp')).store
  have hread := ((stampFlow_sound store sessions).holds pre hdated).replies a (List.mem_of_mem_head? h.head)
  obtain ⟨hhead, htask, rfl, hresponse⟩ := h
  simp only [stampFlow] at hread
  obtain ⟨v, ⟨uid, stored, hexecuted, rfl, hclocked⟩, hnull, htoken⟩ :
      ∃ v, StampRead store sessions a.task v pre ∧ v ≠ .null ∧
        (runFrom store sessions pre).vars.token = .str (sha256Hex v.toText) := by
    rcases run_accepts _ _ _ rfl hresponse haccepts with ⟨hcb, haccept, -⟩ | ⟨timestamp, flash, hcb, haccept, -⟩
    · rw [hcb] at hread
      refine ⟨_, hread, (hconnection pre (List.prefix_refl _)).decided a hhead hcb ?_, haccept.1⟩
      simpa [seenValid, htask] using haccept.2
    · rw [hcb] at hread
      refine ⟨timestamp, hread, ?_, haccept.1⟩
      rintro rfl
      have hage := haccept.2.1
      rw [ageOf_null hclock] at hage
      cases hage
  cases stored with
  | none => exact absurd rfl hnull
  | some text => exact ⟨uid, text, hexecuted, hclocked text rfl, htoken⟩

end Accepted

/-- A link is accepted only on a timestamp that was there: the reply its request got is not
`null`, and the token compared is the hash of a clock reading and not that of `null`. Where each
comparison finds the token of its own request, a request with the hash of `null` for its token
is not accepted. -/
theorem no_universal_token (h₀ : Dated store) (hsessions : ∀ sid, (sessions sid).user.isArray = false)
    (es : List Event) (htext : ∀ e ∈ es, textualEvent e = true) (hok : Runs.Guarded (Undivided store sessions) es)
    (hclock : ∀ now, .deliver now ∈ es → 1800 ≤ seconds now) (i : ℕ) (response : Response)
    (hresponse : .responded i response ∈ (runFrom store sessions es).log) (haccepts : acceptsLink response = true) :
    (∀ uid, .executed (.task i) (.hget uid .timestamp) (.bulk none) ∉ (runFrom store sessions es).log) ∧
      (∃ pre now text, pre ++ [.deliver now] <+: es ∧
        .responded i response ∈ observed (runFrom store sessions pre) (.deliver now) ∧
        (runFrom store sessions pre).vars.token = .str (sha256Hex text) ∧ ClockText text ∧ text ≠ "null") ∧
      (Runs.Guarded (fun pre e => KeepsToken (runFrom store sessions pre) e) es →
        (∀ o ∈ (runFrom store sessions es).log, apartFromNull o = true) →
        ∀ req sid, identity (runFrom store sessions es) i = some (req, sid) →
          ownToken req ≠ .str (sha256Hex "null")) := by
  obtain ⟨pre, now, a, t, hp, hat⟩ := answeredAt_of_accepts store sessions haccepts hresponse
  have hpre : pre <+: es := (List.prefix_append _ _).trans hp
  have hnow : .deliver now ∈ es := hp.subset (by simp)
  obtain ⟨uid, text, hread, htime, htoken⟩ := hat.stamp haccepts hp h₀ hsessions htext hok (hclock now hnow)
  have hread' := mem_log_of_prefix store sessions hpre hread
  refine ⟨fun uid' hnone => ?_, ⟨pre, now, text, hp, ?_, htoken, htime, htime.ne_null⟩, fun hkeeps happart req sid hid => ?_⟩
  · cases stampRead_unique store hsessions htext hread' hnone
  · obtain ⟨rest, hr⟩ : ∃ rest, (runFrom store sessions pre).replies = a :: rest := by
      have hhead := hat.head
      cases hr : (runFrom store sessions pre).replies with
      | nil => simp [hr] at hhead
      | cons b rest =>
        obtain rfl : b = a := by simpa [hr] using hhead
        exact ⟨rest, rfl⟩
    rw [mem_observed_of_log (log_deliver hr hat.task now), observations, hat.response, hat.same]
    simp
  · have howner := identity_of_prefix store sessions hpre (identity_of_task hat.task)
    rw [hat.same, hid, Option.some.injEq, Prod.mk.injEq] at howner
    have hown := hkeeps pre (.deliver now) hp a hat.head t hat.task (hat.readsToken haccepts)
    rw [howner.1, ← hown, htoken]
    have hapart := happart _ hread'
    simpa [apartFromNull] using hapart

end

/-- The registration of `alice` and the use of the link. -/
def registerAndConfirm : List Event :=
  .spawn ["-c", "alice", "secret", "alice@example.org"] :: List.replicate 8 (.adminStep 0 1700000000000) ++
    [.arrive 0 (.getVerify "alice" (sha256Hex "1700000.0")) 1700000060000, .exec, .exec, .deliver 1700000060000,
      .deliver 1700000060000, .exec]

/-- The confirmation of `alice` had a timestamp to go by, and its own token was not that of `null`. -/
theorem no_universal_token_alice :
    .responded 0 (.render .success) ∈ (runFrom ∅ (fun _ => {}) registerAndConfirm).log ∧
      (∀ uid, .executed (.task 0) (.hget uid .timestamp) (.bulk none) ∉
        (runFrom ∅ (fun _ => {}) registerAndConfirm).log) ∧
      ownToken (.getVerify "alice" (sha256Hex "1700000.0")) ≠ .str (sha256Hex "null") := by
  have hresponse : .responded 0 (.render .success) ∈ (runFrom ∅ (fun _ => {}) registerAndConfirm).log := by
    decide +kernel
  have hclock : ∀ now, .deliver now ∈ registerAndConfirm → 1800 ≤ seconds now := by
    intro now hnow
    obtain rfl : now = 1700000060000 := by simpa [registerAndConfirm] using hnow
    decide
  obtain ⟨hnull, -, hown⟩ := no_universal_token ∅ (fun _ => {}) dated_empty (fun _ => rfl) registerAndConfirm
    (by decide +kernel) (Runs.guarded_of_forall_lt (by decide +kernel)) hclock 0 _ hresponse rfl
  exact ⟨hresponse, hnull, hown (Runs.guarded_of_forall_lt (by decide +kernel)) (by decide +kernel) _ 0
    (by decide +kernel)⟩

/-- A registration under an array leaves `bob` with `valid` alone, and the token of `null` confirms the address. -/
def arrayRegistration : List Event :=
  [.arrive 0 (.postCreateUser (.array [some "bob", some "valid", some "False"]) (.str "x") .undefined) 1700000000000,
    .exec, .deliver 1700000000000, .exec, .exec, .deliver 1700000000000, .deliver 1700000000000,
    .arrive 1 (.getVerify "bob" (sha256Hex "null")) 1700000000000, .exec, .exec, .deliver 1700000000000,
    .deliver 1700000000000]

/-- While a click with the token of `null` waits for its replies, one with the right token arrives. -/
def overlappingClicks : List Event :=
  .spawn ["-c", "alice", "secret", "alice@example.org"] :: List.replicate 8 (.adminStep 0 1700000000000) ++
    [.arrive 0 (.getVerify "alice" (sha256Hex "null")) 1700000060000, .exec, .exec,
      .arrive 1 (.getVerify "alice" (sha256Hex "1700000.0")) 1700000060000, .deliver 1700000060000,
      .deliver 1700000060000]

/-- With an array for a user name the token of `null` confirms an address on the reply `null`, and
the token that another request left in `token` confirms one on a request that carries it. -/
theorem null_token_accepted :
    (Runs.Guarded (Undivided ∅ (fun _ => {})) arrayRegistration ∧
      identity (runFrom ∅ (fun _ => {}) arrayRegistration) 1 = some (.getVerify "bob" (sha256Hex "null"), 1) ∧
      .executed (.task 1) (.hget "bob" .timestamp) (.bulk none) ∈ (runFrom ∅ (fun _ => {}) arrayRegistration).log ∧
      .responded 1 (.render .success) ∈ (runFrom ∅ (fun _ => {}) arrayRegistration).log) ∧
    Runs.Guarded (Undivided ∅ (fun _ => {})) overlappingClicks ∧
      identity (runFrom ∅ (fun _ => {}) overlappingClicks) 0 = some (.getVerify "alice" (sha256Hex "null"), 0) ∧
      .responded 0 (.render .success) ∈ (runFrom ∅ (fun _ => {}) overlappingClicks).log := by
  refine ⟨⟨Runs.guarded_of_forall_lt ?_, ?_, ?_, ?_⟩, Runs.guarded_of_forall_lt ?_, ?_, ?_⟩
  all_goals decide +kernel

end ExpressAuth.Proofs
