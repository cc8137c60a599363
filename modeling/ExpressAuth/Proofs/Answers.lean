import ExpressAuth.Proofs.Line
import ExpressAuth.Proofs.PlainNames
import ExpressAuth.Proofs.SerialRuns
import ExpressAuth.Proofs.Wire

/-!
# Every request is answered exactly once

Until a request is answered, exactly one callback of it in flight will answer or go on; the
others only note a reply. So the answers given and the callbacks that stand for one always add
up to one, whatever the order of events, and since each callback can cause only a bounded
number of further ones, the answer comes once the connection is allowed to run out.
-/

namespace ExpressAuth.Proofs
open Server

def isAnswerTo (i : ℕ) : Observation → Bool
  | .responded j _ => j == i
  | _ => false

/-- How often a log shows request `i` answered. -/
def answers (i : ℕ) (log : List Observation) : ℕ := log.countP (isAnswerTo i)

/-- The callback will answer request `i`, or issue the command whose callback does. -/
def standsFor (i : ℕ) (x : ℕ × Callback) : Bool := x.1 == i && !onlyNotes x.2

/-- The answers that a callback stands for. -/
def charge (callback : Callback) : ℕ := if onlyNotes callback then 0 else 1

/-- The answers to request `i`, those given and those that callbacks in flight stand for. -/
def balance (i : ℕ) (s : Server) : ℕ := answers i s.log + (inFlight s).countP (standsFor i)

/-! ### What a segment contributes -/

/-- The answer of a segment, or the callbacks it leaves in charge of one. -/
def outcome (c : Ctx) : ℕ := c.response.toList.length + c.issued.countP (fun p => !onlyNotes p.2)

/-- At most `n` answers come of the segment, and exactly `n` where the names are plain. -/
def Yields (n : ℕ) (plain : Prop) (c : Ctx) : Prop := outcome c ≤ n ∧ (plain → outcome c = n)

lemma yields_of_eq {n : ℕ} {plain : Prop} {c : Ctx} (h : outcome c = n) : Yields n plain c := ⟨h.le, fun _ => h⟩

lemma yields_of_response {plain : Prop} {c : Ctx} {response : Response} (hresponse : c.response = some response)
    (hnotes : ∀ p ∈ c.issued, onlyNotes p.2 = true) : Yields 1 plain c := by
  apply yields_of_eq
  rw [outcome, hresponse, List.countP_eq_zero.mpr (fun p hp => by simp [hnotes p hp])]
  rfl

/-- The last command has the callback in charge, which an array for its key would drop. -/
lemma yields_of_call (notes : List (Cmd × Callback)) {plain : Prop} {c : Ctx} {name : CmdName} {key : JsVal}
    {rest : List String} {callback : Callback} (hresponse : c.response = none)
    (hissued : c.issued = notes ++ [clientCall name key rest callback]) (hnotes : ∀ p ∈ notes, onlyNotes p.2 = true)
    (hcallback : onlyNotes callback = false) (hkey : plain → key.isArray = false) : Yields 1 plain c := by
  have hnone : notes.countP (fun p => !onlyNotes p.2) = 0 :=
    List.countP_eq_zero.mpr (fun p hp => by simp [hnotes p hp])
  have houtcome : outcome c = [clientCall name key rest callback].countP (fun p => !onlyNotes p.2) := by
    rw [outcome, hresponse, hissued, List.countP_append, hnone]
    exact (Nat.zero_add _).trans (Nat.zero_add _)
  rw [Yields, houtcome]
  refine ⟨List.countP_le_length, fun hplain => ?_⟩
  rw [clientCall_of_not_array (hkey hplain)]
  simp [hcallback]

lemma begin_yields (req : Request) (now : ℕ) (vars : Vars) (session : Session) :
    Yields 1 (req.textual = true ∧ session.user.isArray = false) (req.begin { now, vars, session }) := by
  have hnotes : ∀ name key rest callback, onlyNotes callback = true →
      onlyNotes (clientCall name key rest callback).2 = true :=
    fun name key rest callback h => onlyNotes_clientCall h name key rest
  have hnone : ∀ p ∈ ([] : List (Cmd × Callback)), onlyNotes p.2 = true := by simp
  rw [Request.begin, checkAuth_eq]
  split
  · exact yields_of_eq rfl
  · cases req with
    | postLogin username | postCreateUser username =>
      simp only [Request.handler, Routes.postLogin, Routes.postCreateUser]
      split
      · exact yields_of_eq rfl
      · exact yields_of_call [] rfl rfl hnone rfl (fun h => by simpa [Request.textual] using h.1)
    | postResetPassword username =>
      exact yields_of_call [] rfl rfl hnone rfl (fun h => by simpa [Request.textual] using h.1)
    | postUpdatePassword | postNewPassword =>
      simp only [Request.handler, Routes.postUpdatePassword, Routes.postNewPassword]
      split
      · exact yields_of_eq rfl
      · exact yields_of_call [] rfl rfl hnone rfl (fun h => h.2)
    | getSecure url =>
      exact yields_of_call [_] rfl rfl (by simp [hnotes _ _ _ .secureValid rfl]) rfl (fun h => h.2)
    | postUpdateMail mail secure =>
      exact yields_of_call [_, _] rfl rfl (by simp [hnotes _ _ _ .ignore rfl]) rfl (fun h => h.2)
    | _ => exact yields_of_eq rfl

/-- A callback that is in charge answers or hands on; the others do neither. -/
lemma run_yields (callback : Callback) (r : Reply) (now : ℕ) (vars : Vars) (session : Session) :
    Yields (charge callback) (plainCallback callback = true ∧ vars.user.isArray = false)
      (callback.run r { now, vars, session }) := by
  have hignore : ∀ key rest, onlyNotes (clientCall .hset key rest .ignore).2 = true := onlyNotes_clientCall rfl .hset
  have hnone : ∀ p ∈ ([] : List (Cmd × Callback)), onlyNotes p.2 = true := by simp
  cases callback with
  | missing => cases r <;> exact yields_of_eq rfl
  | loginPassword username generatedHash =>
    simp only [Callback.run, Routes.loginPassword]
    split
    · exact yields_of_call [] rfl rfl hnone rfl (fun h => by simpa [plainCallback] using h.1)
    · exact yields_of_eq rfl
  | resetMail mail secure =>
    simp only [Callback.run, Routes.resetMail]
    split
    · exact yields_of_call [] rfl rfl hnone rfl (fun h => h.2)
    · exact yields_of_eq rfl
  | newPasswordTimestamp => exact yields_of_call [] rfl rfl hnone rfl (fun h => h.2)
  | loginValid | createUserKeys | verifyTimestamp | resetValid | newPasswordFlag =>
    simp only [Callback.run, Routes.loginValid, Routes.createUserKeys, Routes.verifyTimestamp, Routes.resetValid,
      Routes.newPasswordFlag]
    split <;> exact yields_of_response rfl (by simp [hignore])
  | _ => exact yields_of_eq rfl

lemma answers_observations (i j sid : ℕ) (c : Ctx) :
    answers j (observations i sid c) = if i = j then c.response.toList.length else 0 := by
  have hfiles : (c.files.map (Observation.file (.task i))).countP (isAnswerTo j) = 0 := by
    rw [List.countP_map, List.countP_eq_zero]
    simp [isAnswerTo]
  have hcrash : (if c.crashed then [Observation.crashed i] else []).countP (isAnswerTo j) = 0 := by
    cases c.crashed <;> rfl
  unfold answers observations
  rw [List.countP_append, List.countP_append, hfiles, hcrash, Nat.zero_add, Nat.add_zero]
  cases c.response with
  | none => simp
  | some response => simp [List.countP_cons, isAnswerTo]

lemma countP_standsFor_map (i j : ℕ) (issued : List (Cmd × Callback)) :
    (issued.map (fun p => (i, p.2))).countP (standsFor j) =
      if i = j then issued.countP (fun p => !onlyNotes p.2) else 0 := by
  rw [List.countP_map]
  by_cases hij : i = j
  · rw [if_pos hij]
    exact List.countP_congr (fun p _ => by simp [standsFor, hij])
  · rw [if_neg hij, List.countP_eq_zero]
    simp [standsFor, hij]

lemma balance_commit (s : Server) (i : ℕ) (t : Task) (c : Ctx) (j : ℕ) :
    balance j (s.commit .process i t c) = balance j s + if i = j then outcome c else 0 := by
  have hlog : (s.commit .process i t c).log = s.log ++ observations i t.sid c := rfl
  have hanswers : answers j (s.log ++ observations i t.sid c) =
      answers j s.log + if i = j then c.response.toList.length else 0 := by
    rw [← answers_observations i j t.sid c]
    exact List.countP_append
  unfold balance outcome
  rw [hlog, hanswers, inFlight_commit, List.countP_append, countP_standsFor_map]
  split <;> omega

/-! ### What a step contributes -/

/-- The requests that an event brings. -/
def arrivals : Event → ℕ
  | .arrive _ _ _ => 1
  | _ => 0

/-- At most the answer of a new request is added, and exactly this where the names are plain. -/
def Balances (plain : Prop) (s : Server) (e : Event) (j : ℕ) : Prop :=
  balance j (s.step .process e) ≤ balance j s + (if s.started = j then arrivals e else 0) ∧
    (plain → balance j (s.step .process e) = balance j s + if s.started = j then arrivals e else 0)

lemma balances_of_eq {plain : Prop} {s : Server} {e : Event} {j : ℕ} (he : arrivals e = 0)
    (h : balance j (s.step .process e) = balance j s) : Balances plain s e j := by
  unfold Balances
  rw [he, h, ite_self]
  exact ⟨Nat.le_refl _, fun _ => rfl⟩

lemma balances_arrive (s : Server) (sid : ℕ) (req : Request) (now j : ℕ) :
    Balances (PlainNames s ∧ req.textual = true) s (.arrive sid req now) j := by
  have henter : balance j (s.enter sid req) = balance j s := rfl
  obtain ⟨hle, heq⟩ := begin_yields req now s.vars (s.sessions sid)
  unfold Balances
  rw [step_arrive, balance_commit, henter]
  refine ⟨?_, fun hplain => ?_⟩
  · split
    · exact Nat.add_le_add_left hle _
    · exact Nat.le_refl _
  · split
    · exact congrArg (balance j s + ·) (heq ⟨hplain.2, hplain.1.sessions sid⟩)
    · rfl

lemma balance_exec {s : Server} (hs : WellFormed s) (j : ℕ) :
    balance j (s.step .process .exec) = balance j s := by
  unfold balance
  rw [inFlight_exec hs]
  cases hq : s.queue with
  | nil => rw [step_exec_nil .process hq]
  | cons p rest =>
    rw [step_exec_cons .process hq]
    simp [Server.perform, answers, isAnswerTo]

lemma balances_deliver {s : Server} (hs : WellFormed s) (now j : ℕ) :
    Balances (PlainNames s) s (.deliver now) j := by
  cases hr : s.replies with
  | nil => exact balances_of_eq rfl (by rw [step_deliver_nil .process hr])
  | cons a rest =>
    obtain ⟨t, ht, -⟩ := hs.head_task hr
    have htaken : balance j s = balance j { s with replies := rest } +
        if a.task = j then charge a.callback else 0 := by
      simp only [balance, inFlight, hr, List.map_cons, List.cons_append, List.countP_cons]
      by_cases hj : a.task = j
      · cases hn : onlyNotes a.callback with
        | true => simp [standsFor, charge, hj, hn]
        | false => simp [standsFor, charge, hj, hn, Nat.add_assoc]
      · simp [standsFor, hj]
    obtain ⟨hle, heq⟩ := run_yields a.callback a.reply now s.vars t.session
    have hnone : arrivals (.deliver now) = 0 := rfl
    unfold Balances
    rw [step_deliver_cons .process hr ht, balance_commit, htaken, hnone, ite_self, Nat.add_zero]
    refine ⟨?_, fun hplain => ?_⟩
    · split
      · exact Nat.add_le_add_left hle _
      · exact Nat.le_refl _
    · split
      · exact congrArg (balance j _ + ·) (heq ⟨hplain.callbacks _ (head_mem_inFlight hr), hplain.user⟩)
      · rfl

lemma balance_adminStep (s : Server) (k now j : ℕ) :
    balance j (s.step .process (.adminStep k now)) = balance j s := by
  have hadmin : ∀ os : List AdminTool.Output, (os.map (observeAdmin k)).countP (isAnswerTo j) = 0 := by
    intro os
    rw [List.countP_map, List.countP_eq_zero]
    rintro (_ | _ | _) - <;> simp [observeAdmin, isAnswerTo]
  simp [balance, answers, inFlight, Server.step, List.countP_append, hadmin]

lemma balances_step {s : Server} (hs : WellFormed s) (e : Event) (j : ℕ) :
    Balances (PlainNames s ∧ textualEvent e = true) s e j := by
  cases e with
  | arrive sid req now => exact balances_arrive s sid req now j
  | exec => exact balances_of_eq rfl (balance_exec hs j)
  | deliver now =>
    obtain ⟨hle, heq⟩ := balances_deliver hs now j
    exact ⟨hle, fun h => heq h.1⟩
  | spawn argv => exact balances_of_eq rfl rfl
  | adminStep k now => exact balances_of_eq rfl (balance_adminStep s k now j)

lemma started_step {s : Server} (hs : WellFormed s) (e : Event) :
    (s.step .process e).started = s.started + arrivals e := by
  cases e with
  | arrive sid req now =>
    rw [step_arrive]
    rfl
  | exec => exact started_exec .process s
  | deliver now =>
    cases hr : s.replies with
    | nil => rw [step_deliver_nil .process hr]; rfl
    | cons a rest =>
      obtain ⟨t, ht, -⟩ := hs.head_task hr
      exact started_deliver .process hr ht now
  | spawn argv | adminStep => rfl

/-! ### What is left to deliver -/

/-- The deliveries that the callbacks in flight stand for. -/
def work (s : Server) : ℕ := ((inFlight s).map (fun x => effort x.2)).sum

lemma work_commit (s : Server) (i : ℕ) (t : Task) (c : Ctx) :
    work (s.commit .process i t c) = work s + totalEffort c.issued := by
  unfold work totalEffort
  rw [inFlight_commit, List.map_append, List.sum_append, List.map_map]
  rfl

/-- Nothing is left to deliver exactly when nothing is in flight. -/
lemma work_eq_zero {s : Server} : work s = 0 ↔ inFlight s = [] := by
  constructor
  · intro h
    cases hf : inFlight s with
    | nil => rfl
    | cons x rest =>
      have hx := effort_pos x.2
      simp only [work, hf, List.map_cons, List.sum_cons] at h
      omega
  · intro h
    simp [work, h]

lemma work_exec {s : Server} (hs : WellFormed s) : work (s.step .process .exec) = work s := by
  rw [work, inFlight_exec hs, work]

/-- A delivery leaves less to deliver. -/
lemma work_deliver {s : Server} (hs : WellFormed s) {a : Answer} {rest : List Answer} (hr : s.replies = a :: rest)
    (now : ℕ) : work (s.step .process (.deliver now)) < work s := by
  obtain ⟨t, ht, -⟩ := hs.head_task hr
  have htaken : work s = effort a.callback + work { s with replies := rest } := by
    simp only [work, inFlight, hr, List.map_cons, List.cons_append, List.sum_cons]
  have hless : totalEffort (a.callback.run a.reply (s.context .process t now)).issued < effort a.callback :=
    totalEffort_run a.callback a.reply now s.vars t.session
  rw [step_deliver_cons .process hr ht, work_commit, htaken]
  omega

lemma work_step {s : Server} (hs : WellFormed s) (e : Event) :
    work (s.step .process e) ≤ work s + 4 * arrivals e := by
  cases e with
  | arrive sid req now =>
    have henter : work (s.enter sid req) = work s := rfl
    have hbegin : totalEffort (req.begin ((s.enter sid req).context .process
        { sid, request := req, session := s.sessions sid } now)).issued ≤ 4 :=
      totalEffort_begin req now s.vars (s.sessions sid)
    rw [step_arrive, work_commit, henter]
    exact Nat.add_le_add_left hbegin _
  | exec => exact (work_exec hs).le
  | deliver now =>
    cases hr : s.replies with
    | nil => exact (congrArg work (step_deliver_nil .process hr now)).le
    | cons a rest => exact (work_deliver hs hr now).le
  | spawn argv | adminStep => exact Nat.le_refl _

/-! ### Along a run -/

structure Accounted (s : Server) : Prop where
  /-- A request that has arrived has at most one answer, given or on its way; any other has none. -/
  atMost : ∀ j, balance j s ≤ if j < s.started then 1 else 0
  bounded : work s ≤ 4 * s.started

lemma arrivals_le (e : Event) : arrivals e ≤ 1 := by
  cases e <;> first | exact Nat.le_refl 1 | exact Nat.zero_le 1

lemma Accounted.step {s : Server} (h : Accounted s) (hs : WellFormed s) (e : Event) :
    Accounted (s.step .process e) := by
  have hone := arrivals_le e
  have hstarted := started_step hs e
  refine ⟨fun j => ?_, ?_⟩
  · have hstep := (balances_step hs e j).1
    have hbefore := h.atMost j
    split_ifs at hstep hbefore ⊢ <;> omega
  · have hwork := work_step hs e
    have hbefore := h.bounded
    omega

lemma accounted_run (store : Store) (es : List Event) : Accounted (run store es) := by
  induction es using Runs.history_induction with
  | h0 => exact ⟨fun _ => Nat.le_refl 0, Nat.le_refl 0⟩
  | hs es e ih =>
    rw [run, Runs.after_concat]
    exact ih.step (wellFormed_after .process store _ es) e

/-- With plain names no answer is missing either. -/
def Balanced (s : Server) : Prop := ∀ j, balance j s = if j < s.started then 1 else 0

lemma Balanced.step {s : Server} (h : Balanced s) (hs : WellFormed s) (hplain : PlainNames s) {e : Event}
    (he : textualEvent e = true) : Balanced (s.step .process e) := by
  intro j
  have hone := arrivals_le e
  have hstarted := started_step hs e
  have hstep := (balances_step hs e j).2 ⟨hplain, he⟩
  have hbefore := h j
  split_ifs at hstep hbefore ⊢ <;> omega

lemma balanced_run (store : Store) {es : List Event} (h : ∀ e ∈ es, textualEvent e = true) :
    Balanced (run store es) := by
  induction es using Runs.history_induction with
  | h0 => exact fun _ => rfl
  | hs es e ih =>
    have hpre : ∀ e ∈ es, textualEvent e = true := fun e' he' => h e' (List.mem_append_left _ he')
    rw [run, Runs.after_concat]
    exact (ih hpre).step (wellFormed_after .process store _ es) (plainNames_runFrom store (fun _ => rfl) hpre)
      (h e (by simp))

lemma Accounted.answers_le_one {s : Server} (h : Accounted s) (i : ℕ) : answers i s.log ≤ 1 := by
  have hi := h.atMost i
  unfold balance at hi
  split at hi <;> omega

lemma answers_of_idle {s : Server} (hidle : inFlight s = []) (i : ℕ) : answers i s.log = balance i s := by
  rw [balance, hidle, List.countP_nil, Nat.add_zero]

/-! ### Letting the connection run out -/

/-- Redis executes the next command and the next reply is delivered. -/
def round (now : ℕ) : List Event := [.exec, .deliver now]

lemma idle_iff {s : Server} : inFlight s = [] ↔ s.queue = [] ∧ s.replies = [] := by
  simp [inFlight, and_comm]

lemma exists_reply_of_not_idle {s : Server} (h : inFlight s ≠ []) :
    ∃ a rest, (s.step .process .exec).replies = a :: rest := by
  apply List.exists_cons_of_ne_nil
  cases hq : s.queue with
  | nil =>
    rw [step_exec_nil .process hq]
    intro hr
    exact h (idle_iff.mpr ⟨hq, hr⟩)
  | cons p rest =>
    rw [step_exec_cons .process hq]
    simp [Server.perform]

lemma work_round {s : Server} (hs : WellFormed s) (now : ℕ) :
    work (Runs.after (Server.step .process) s (round now)) ≤ work s - 1 := by
  rw [round, Runs.after_cons, Runs.after_cons, Runs.after_nil]
  by_cases hidle : inFlight s = []
  · obtain ⟨hq, hr⟩ := idle_iff.mp hidle
    rw [step_exec_nil .process hq, step_deliver_nil .process hr, work_eq_zero.mpr hidle]
  · obtain ⟨a, rest, hr⟩ := exists_reply_of_not_idle hidle
    have hless := work_deliver (hs.step .process .exec) hr now
    rw [work_exec hs] at hless
    exact Nat.le_sub_one_of_lt hless

lemma started_round {s : Server} (hs : WellFormed s) (now : ℕ) :
    (Runs.after (Server.step .process) s (round now)).started = s.started := by
  rw [round, Runs.after_cons, Runs.after_cons, Runs.after_nil, started_step (hs.step .process .exec),
    started_step hs]
  rfl

lemma Accounted.runs_out {s : Server} (h : Accounted s) (hs : WellFormed s) {clocks : List ℕ}
    (hlen : 4 * s.started ≤ clocks.length) :
    inFlight (Runs.after (Server.step .process) s (clocks.flatMap round)) = [] ∧
      (Runs.after (Server.step .process) s (clocks.flatMap round)).started = s.started := by
  obtain ⟨⟨-, hstarted⟩, hwork⟩ := Runs.measure_after_blocks (Server.step .process) round
    (fun s' => WellFormed s' ∧ s'.started = s.started) work
    (fun s' now hs' => ⟨⟨(hs'.1.step .process .exec).step .process (.deliver now),
      (started_round hs'.1 now).trans hs'.2⟩, work_round hs'.1 now⟩) ⟨hs, rfl⟩ clocks
  refine ⟨work_eq_zero.mp ?_, hstarted⟩
  have hbound := h.bounded
  omega

lemma textual_append_rounds {es : List Event} (h : ∀ e ∈ es, textualEvent e = true) (clocks : List ℕ) :
    ∀ e ∈ es ++ clocks.flatMap round, textualEvent e = true := by
  intro e he
  rcases List.mem_append.mp he with he | he
  · exact h e he
  · obtain ⟨now, -, he⟩ := List.mem_flatMap.mp he
    rcases List.mem_pair.mp he with rfl | rfl
    · rfl
    · rfl

lemma textual_of_inputs {es : List Event} {events : List WireEvent}
    (hinputs : es.flatMap Wire.serverInputs = events.flatMap Wire.inputs)
    (h : ∀ e ∈ events.flatMap Wire.inputs, textualEvent e = true) : ∀ e ∈ es, textualEvent e = true := by
  intro e he
  cases e with
  | arrive sid req now =>
    apply h
    rw [← hinputs]
    exact List.mem_flatMap.mpr ⟨_, he, List.mem_singleton_self _⟩
  | _ => rfl

end ExpressAuth.Proofs
