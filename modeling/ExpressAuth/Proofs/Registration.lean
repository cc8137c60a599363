import ExpressAuth.Proofs.OneUser
import ExpressAuth.Proofs.Existence

/-!
# Registrations of one name

`POST /create_user` asks with `KEYS` whether the name is taken and writes in the callback. A
second request that arrives before the first is answered has its check in the line before the
writes of the first, and is told as well that the user was created. One that arrives later has
its check behind them.
-/

namespace ExpressAuth.Proofs
open Server

/-- The requests that arrive register `u`, and nobody uses the command line tool. -/
def registersOnly (u : String) : Event → Bool
  | .arrive _ (.postCreateUser username _ _) _ => username = .str u
  | .exec | .deliver _ => true
  | _ => false

def created (u : String) : Flash := ("message", "Nutzer " ++ u ++ " angelegt")

def alreadyExists (u : String) : Flash := ("error", "Nutzer " ++ u ++ " existiert bereits!")

/-- The event answers the request `i` and leaves the message in its session. -/
def reports (flash : Flash) (i : ℕ) (s : Server) (e : Event) : Bool :=
  (s.tasks i).any (fun t => decide (.responded i (.redirect "/admin") ∈ observed s e ∧
    .saved t.sid { t.session with flash := t.session.flash ++ [flash] } ∈ observed s e))

/-- The first request of the process, if there was one, has its answer. -/
def firstAnswered (s : Server) : Bool := (s.tasks 0).all (fun t => t.response.isSome)

/-- A further request arrives only after the first has its answer. -/
def inTurn (s : Server) : Event → Bool
  | .arrive _ _ _ => firstAnswered s
  | _ => true

lemma begin_createUser (u : String) (password mail : JsVal) (c : Ctx) :
    (Request.postCreateUser (.str u) password mail).begin c =
      c.keys (.str u) (.createUserKeys (.str u) mail (sha256Base64 (u ++ password.toText))) := by
  rw [begin_eq_handler _ (by simp)]
  rfl

lemma issues_createUser (u : String) (s : Server) (sid : ℕ) (password mail : JsVal) (now : ℕ) :
    issues s (.arrive sid (.postCreateUser (.str u) password mail) now) =
      [⟨s.started, .keys u, .createUserKeys (.str u) mail (sha256Base64 (u ++ password.toText))⟩] := by
  simp [issues, segmentOf, begin_createUser]

lemma exists_of_registersOnly {u : String} {sid now : ℕ} {req : Request}
    (h : registersOnly u (.arrive sid req now) = true) :
    ∃ password mail, req = .postCreateUser (.str u) password mail := by
  cases req with
  | postCreateUser username password mail =>
    obtain rfl : username = .str u := by simpa [registersOnly] using h
    exact ⟨password, mail, rfl⟩
  | _ => cases h

lemma isAdmin_of_registersOnly {u : String} {e : Event} (h : registersOnly u e = true) : isAdmin e = false := by
  cases e with
  | spawn | adminStep => cases h
  | _ => rfl

/-! ### What an event reports -/

lemma reports_iff {flash : Flash} {i : ℕ} {s : Server} {e : Event} :
    reports flash i s e = true ↔ ∃ t, s.tasks i = some t ∧ .responded i (.redirect "/admin") ∈ observed s e ∧
      .saved t.sid { t.session with flash := t.session.flash ++ [flash] } ∈ observed s e := by
  unfold reports
  cases s.tasks i <;> simp

/-- An event without an answer reports nothing. -/
lemma reports_eq_false {flash : Flash} {i : ℕ} {s : Server} {e : Event}
    (h : ∀ response, .responded i response ∉ observed s e) : reports flash i s e = false := by
  rw [← Bool.not_eq_true, reports_iff]
  rintro ⟨t, -, hresponse, -⟩
  exact h _ hresponse

lemma observed_of_step_eq {s : Server} {e : Event} (h : s.step .process e = s) : observed s e = [] := by
  rw [observed, h, List.drop_length]

lemma reports_exec {flash : Flash} {i : ℕ} {s : Server} : reports flash i s .exec = false := by
  refine reports_eq_false (fun response => ?_)
  cases hq : s.queue with
  | nil => simp [observed_of_step_eq (step_exec_nil .process hq)]
  | cons p rest =>
    rw [observed, step_exec_cons .process hq]
    simp [Server.perform]

lemma reports_arrive {flash : Flash} {i sid now : ℕ} {s : Server} {u : String} {password mail : JsVal} :
    reports flash i s (.arrive sid (.postCreateUser (.str u) password mail) now) = false := by
  refine reports_eq_false (fun response => ?_)
  rw [mem_observed_of_log (log_arrive s sid _ now), responded_mem_observations, begin_createUser]
  simp

lemma reports_deliver {flash : Flash} {i now : ℕ} {s : Server} {a : Answer} {rest : List Answer} {t : Task} {c : Ctx}
    (hr : s.replies = a :: rest) (ht : s.tasks a.task = some t)
    (hc : a.callback.run a.reply { now, vars := s.vars, session := t.session } = c) :
    reports flash i s (.deliver now) = true ↔ i = a.task ∧ c.response = some (.redirect "/admin") ∧
      c.session = { t.session with flash := t.session.flash ++ [flash] } := by
  rw [reports_iff]
  simp only [mem_observed_of_log (log_deliver hr ht now), responded_mem_observations, saved_mem_observations, hc]
  constructor
  · rintro ⟨t', ht', ⟨rfl, hresponse⟩, -, hsession, -⟩
    rw [ht] at ht'
    obtain rfl := Option.some.inj ht'
    exact ⟨rfl, hresponse, hsession.symm⟩
  · rintro ⟨rfl, hresponse, hsession⟩
    exact ⟨t, ht, ⟨rfl, hresponse⟩, rfl, hsession.symm, by simp [hresponse]⟩

lemma created_ne_alreadyExists (u : String) : created u ≠ alreadyExists u := by
  intro h
  have htype := congrArg Prod.fst h
  simp [created, alreadyExists] at htype

/-! ### From the first check to the writes -/

/-- Nothing has arrived. -/
structure Unclaimed (s : Server) : Prop where
  started : s.started = 0
  executed : executedLine s.log = []
  queue : s.queue = []
  replies : s.replies = []

/-- The first request waits for the answer to its check. -/
structure Checking (u : String) (callback : Callback) (s : Server) : Prop where
  started : s.started = 1
  task : ∃ t, s.tasks 0 = some t ∧ t.response = none
  waits : executedLine s.log = [] ∧ s.queue = [⟨0, .keys u, callback⟩] ∧ s.replies = [] ∨
    executedLine s.log = [(0, .keys u)] ∧ s.queue = [] ∧ s.replies = [⟨0, callback, .names []⟩]

/-- The first request has the name: its writes stand in the line before every further check, and
no further check finds the name free. -/
structure Taken (u hash mail : String) (s : Server) : Prop where
  line : ∃ done rest, executedLine s.log = (0, .keys u) :: done ∧
    done ++ s.queue.map (fun p => (p.task, p.cmd)) =
      (0, .hset u .password hash) :: (0, .hset u .mail mail) :: rest ∧
    ∀ x ∈ rest, x.2 = .keys u
  queue : ∀ p ∈ s.queue, p.callback ≠ .ignore →
    p.cmd = .keys u ∧ ∃ mail hash, p.callback = .createUserKeys (.str u) mail hash
  replies : ∀ a ∈ s.replies, a.callback ≠ .ignore →
    (∃ k names, a.reply = .names (k :: names)) ∧ ∃ mail hash, a.callback = .createUserKeys (.str u) mail hash

lemma Unclaimed.arrive {s : Server} (h : Unclaimed s) (u : String) (sid : ℕ) (password mail : JsVal) (now : ℕ) :
    Checking u (.createUserKeys (.str u) mail (sha256Base64 (u ++ password.toText)))
      (s.step .process (.arrive sid (.postCreateUser (.str u) password mail) now)) := by
  rw [step_arrive, begin_createUser]
  refine ⟨by simp [Server.commit, Server.enter, h.started], ?_, Or.inl ⟨?_, ?_, h.replies⟩⟩
  · rw [← h.started, commit_task]
    exact ⟨_, rfl, by simp [Server.context]⟩
  · simp [Server.commit, Server.enter, executedLine_append, executedLine_observations, h.executed]
  · simp [Server.commit, Server.enter, Server.context, h.queue, h.started]

/-- The check of the first request finds the name free. -/
lemma Checking.exec {u : String} {callback : Callback} {s : Server} (h : Checking u callback s)
    (hfree : Store.lacks s.store u = true) : Checking u callback (s.step .process .exec) := by
  rcases h.waits with ⟨hexecuted, hq, hr⟩ | ⟨-, hq, -⟩
  · rw [step_exec_cons .process hq]
    refine ⟨h.started, h.task, Or.inr ⟨?_, rfl, ?_⟩⟩
    · rw [executedLine_perform, hexecuted, List.nil_append]
    · rw [Server.perform, hr, Cmd.exec_keys_of_lacks hfree, List.nil_append]
  · rwa [step_exec_nil .process hq]

lemma run_createUserKeys_free (u : String) (mail : JsVal) (hash : String) (c : Ctx) :
    (Callback.createUserKeys (.str u) mail hash).run (.names []) c =
      (((c.hset (.str u) .password hash .ignore).hset (.str u) .mail mail.toText .ignore).redirect "/admin").flash
        "message" ("Nutzer " ++ u ++ " angelegt") := rfl

lemma run_createUserKeys_taken (u : String) (mail : JsVal) (hash k : String) (names : List String) (c : Ctx) :
    (Callback.createUserKeys (.str u) mail hash).run (.names (k :: names)) c =
      (c.redirect "/admin").flash "error" ("Nutzer " ++ u ++ " existiert bereits!") := rfl

/-- The answer to the first request issues its writes. -/
lemma Checking.deliver {u hash : String} {mail : JsVal} {s : Server}
    (h : Checking u (.createUserKeys (.str u) mail hash) s) (hr : s.replies ≠ []) (now : ℕ) :
    Taken u hash mail.toText (s.step .process (.deliver now)) ∧
      ∀ flash i, reports flash i s (.deliver now) = true ↔ i = 0 ∧ flash = created u := by
  obtain ⟨t, ht, -⟩ := h.task
  rcases h.waits with ⟨-, -, hnil⟩ | ⟨hexecuted, hq, hr⟩
  · exact absurd hnil hr
  constructor
  · rw [step_deliver_cons .process hr ht, run_createUserKeys_free]
    refine ⟨⟨[], [], ?_, ?_, by simp⟩, ?_, ?_⟩
    · simp [Server.commit, executedLine_append, executedLine_observations, hexecuted]
    · simp [Server.commit, Server.context, hq]
    · simp [Server.commit, Server.context, hq]
    · simp [Server.commit]
  · intro flash i
    rw [reports_deliver hr ht (run_createUserKeys_free u mail hash _)]
    simp [created, eq_comm]

/-! ### After the writes were issued -/

lemma execLine_keys (store : Store) {u : String} {cmds : List (ℕ × Cmd)} (h : ∀ x ∈ cmds, x.2 = .keys u) :
    execLine store cmds = store := by
  induction cmds using List.reverseRecOn with
  | nil => rfl
  | append_singleton cmds x ih =>
    rw [execLine_concat, h x (by simp), ih (fun y hy => h y (List.mem_append_left _ hy))]
    rfl

/-- The store after the first check, the writes and any number of further checks. -/
lemma hget_execLine_taken (store : Store) {u : String} (hash mail : String) {rest : List (ℕ × Cmd)}
    (h : ∀ x ∈ rest, x.2 = .keys u) :
    let s := execLine store ((0, .keys u) :: (0, .hset u .password hash) :: (0, .hset u .mail mail) :: rest)
    s.hget u .password = some hash ∧ s.hget u .mail = some mail := by
  have hstore : execLine store ((0, .keys u) :: (0, .hset u .password hash) :: (0, .hset u .mail mail) :: rest) =
      (store.hset u .password hash).hset u .mail mail := execLine_keys _ h
  rw [hstore]
  simp [HashStore.hget_hset]

namespace Taken

variable {u hash mail : String} {s : Server}

lemma arrive (h : Taken u hash mail s) (sid : ℕ) (password email : JsVal) (now : ℕ) :
    Taken u hash mail (s.step .process (.arrive sid (.postCreateUser (.str u) password email) now)) := by
  obtain ⟨done, rest, hexecuted, hline, hrest⟩ := h.line
  rw [step_arrive, begin_createUser]
  refine ⟨⟨done, rest ++ [(s.started, .keys u)], ?_, ?_, ?_⟩, ?_, h.replies⟩
  · simp [Server.commit, Server.enter, executedLine_append, executedLine_observations, hexecuted]
  · simp [Server.commit, Server.enter, Server.context, ← List.append_assoc, hline]
  · intro x hx
    rcases List.mem_append.mp hx with hx | hx
    · exact hrest x hx
    · rw [List.mem_singleton.mp hx]
  · intro p hp hne
    rcases List.mem_append.mp hp with hp | hp
    · exact h.queue p hp hne
    · obtain rfl : p = ⟨s.started, .keys u, .createUserKeys (.str u) email (sha256Base64 (u ++ password.toText))⟩ := by
        simpa [Server.context] using hp
      exact ⟨rfl, _, _, rfl⟩

/-- A further check that comes up for execution has the writes behind it. -/
lemma mem_store (h : Taken u hash mail s) {store : Store} (hstore : s.store = execLine store (executedLine s.log))
    {p : Pending} {queue : List Pending} (hq : s.queue = p :: queue) (hp : p.cmd = .keys u) : u ∈ s.store := by
  obtain ⟨done, rest, hexecuted, hline, hrest⟩ := h.line
  rw [hq] at hline
  -- the command after fewer than two of the writes would be a write
  match done, hline with
  | [], hline => simp [hp] at hline
  | [x], hline => simp [hp] at hline
  | x :: y :: done, hline =>
    obtain ⟨rfl, rfl, hdone⟩ : x = (0, .hset u .password hash) ∧ y = (0, .hset u .mail mail) ∧
        done ++ (p :: queue).map (fun p => (p.task, p.cmd)) = rest := by simpa using hline
    have hkeys : ∀ x ∈ done, x.2 = .keys u := fun x hx => hrest x (hdone ▸ List.mem_append_left _ hx)
    have hget := (hget_execLine_taken store hash mail hkeys).1
    rw [← hexecuted, ← hstore] at hget
    exact HashStore.mem_of_hget hget

lemma exec (h : Taken u hash mail s) (hu : Plain u) {store : Store}
    (hstore : s.store = execLine store (executedLine s.log)) : Taken u hash mail (s.step .process .exec) := by
  cases hq : s.queue with
  | nil => rwa [step_exec_nil .process hq]
  | cons p queue =>
    have hfound : p.cmd = .keys u → u ∈ s.store := h.mem_store hstore hq
    obtain ⟨done, rest, hexecuted, hline, hrest⟩ := h.line
    rw [step_exec_cons .process hq]
    refine ⟨⟨done ++ [(p.task, p.cmd)], rest, ?_, ?_, hrest⟩, ?_, ?_⟩
    · rw [executedLine_perform, hexecuted, List.cons_append]
    · rw [← hline, hq]
      simp [Server.perform]
    · exact fun q hqueue => h.queue q (hq ▸ List.mem_cons_of_mem _ hqueue)
    · intro a ha hne
      rcases List.mem_append.mp ha with ha | ha
      · exact h.replies a ha hne
      · obtain rfl := List.mem_singleton.mp ha
        obtain ⟨hcmd, hcallback⟩ := h.queue p (hq ▸ List.mem_cons_self) hne
        have hnames : Store.matching s.store u ≠ [] := by
          rw [ne_eq, matching_eq_nil_iff hu]
          exact not_not.mpr (hfound hcmd)
        obtain ⟨k, names, hnames⟩ := List.exists_cons_of_ne_nil hnames
        exact ⟨⟨k, names, by simp [hcmd, overruns_of_plain hu, hnames]⟩, hcallback⟩

/-- The callbacks that are left issue nothing; those of a check report that the user exists. -/
lemma callback (h : Taken u hash mail s) {a : Answer} {replies : List Answer} (hr : s.replies = a :: replies)
    (c : Ctx) :
    a.callback.run a.reply c =
      if a.callback = .ignore then c
      else (c.redirect "/admin").flash "error" ("Nutzer " ++ u ++ " existiert bereits!") := by
  obtain ⟨i, callback, reply⟩ := a
  by_cases hc : callback = .ignore
  · subst hc
    rfl
  · obtain ⟨⟨k, names, hreply⟩, mail', hash', hcallback⟩ := h.replies _ (hr ▸ List.mem_cons_self) hc
    rw [if_neg hc]
    dsimp only at hreply hcallback ⊢
    rw [hreply, hcallback, run_createUserKeys_taken]

lemma deliver (h : Taken u hash mail s) {a : Answer} {replies : List Answer} {t : Task}
    (hr : s.replies = a :: replies) (ht : s.tasks a.task = some t) (now : ℕ) :
    Taken u hash mail (s.step .process (.deliver now)) := by
  obtain ⟨done, rest, hexecuted, hline, hrest⟩ := h.line
  have hissued : (a.callback.run a.reply (s.context .process t now)).issued = [] := by
    rw [h.callback hr]
    split <;> rfl
  rw [step_deliver_cons .process hr ht]
  refine ⟨⟨done, rest, ?_, ?_, hrest⟩, ?_, fun b hb => h.replies b (hr ▸ List.mem_cons_of_mem _ hb)⟩
  · simp [Server.commit, executedLine_append, executedLine_observations, hexecuted]
  · simpa [Server.commit, hissued] using hline
  · simpa [Server.commit, hissued] using h.queue

lemma reports_deliver (h : Taken u hash mail s) {a : Answer} {replies : List Answer} {t : Task}
    (hr : s.replies = a :: replies) (ht : s.tasks a.task = some t) (flash : Flash) (i now : ℕ) :
    reports flash i s (.deliver now) = true ↔ i = a.task ∧ a.callback ≠ .ignore ∧ flash = alreadyExists u := by
  rw [Proofs.reports_deliver hr ht (h.callback hr _)]
  split <;> simp_all [alreadyExists, eq_comm]

end Taken

section

variable (u : String) (store : Store) (sessions : ℕ → Session)

/-- The answer to the request `i` left the message in its session. -/
def Reported (flash : Flash) (i : ℕ) : List Event → Prop :=
  Runs.Once (fun pre e => reports flash i (runFrom store sessions pre) e = true)

instance (flash : Flash) (i : ℕ) (es : List Event) : Decidable (Reported store sessions flash i es) :=
  inferInstanceAs (Decidable (Runs.Once _ es))

lemma reported_concat {flash : Flash} {i : ℕ} {es : List Event} {e : Event} :
    Reported store sessions flash i (es ++ [e]) ↔
      Reported store sessions flash i es ∨ reports flash i (runFrom store sessions es) e = true :=
  Runs.once_concat

/-- How far the registration of `u` is. -/
inductive Stage (es : List Event) : Prop
  | unclaimed (h : Unclaimed (runFrom store sessions es)) (hnone : ∀ i, ¬Reported store sessions (created u) i es)
  | checking (sid : ℕ) (password mail : JsVal)
      (harrived : Arrived store sessions 0 sid (.postCreateUser (.str u) password mail) es)
      (h : Checking u (.createUserKeys (.str u) mail (sha256Base64 (u ++ password.toText))) (runFrom store sessions es))
      (hnone : ∀ i, ¬Reported store sessions (created u) i es)
  | taken (sid : ℕ) (password mail : JsVal)
      (harrived : Arrived store sessions 0 sid (.postCreateUser (.str u) password mail) es)
      (h : Taken u (sha256Base64 (u ++ password.toText)) mail.toText (runFrom store sessions es))
      (hfirst : ∀ i, Reported store sessions (created u) i es ↔ i = 0)
      (hothers : ∀ i < (runFrom store sessions es).started, i ≠ 0 →
        Reported store sessions (alreadyExists u) i es ∨
          ∃ callback, callback ≠ .ignore ∧ (i, callback) ∈ inFlight (runFrom store sessions es))

variable {u store sessions}

/-- An event that does nothing leaves the stage as it is. -/
lemma Stage.concat_of_step_eq {es : List Event} {e : Event} (h : Stage u store sessions es)
    (he : (runFrom store sessions es).step .process e = runFrom store sessions es) :
    Stage u store sessions (es ++ [e]) := by
  have hrun : runFrom store sessions (es ++ [e]) = runFrom store sessions es := by rw [runFrom_concat, he]
  have hreported : ∀ flash i, Reported store sessions flash i (es ++ [e]) ↔ Reported store sessions flash i es := by
    intro flash i
    have hnone : reports flash i (runFrom store sessions es) e = false :=
      reports_eq_false (fun response => by simp [observed_of_step_eq he])
    rw [reported_concat, hnone]
    simp
  cases h with
  | unclaimed h hnone => exact .unclaimed (by rwa [hrun]) (fun i => by rw [hreported]; exact hnone i)
  | checking sid password mail harrived h hnone =>
    exact .checking sid password mail (harrived.concat e) (by rwa [hrun]) (fun i => by rw [hreported]; exact hnone i)
  | taken sid password mail harrived h hfirst hothers =>
    refine .taken sid password mail (harrived.concat e) (by rwa [hrun]) (fun i => by rw [hreported]; exact hfirst i) ?_
    simpa only [hrun, hreported] using hothers

lemma Stage.arrive {es : List Event} (h : Stage u store sessions es) (sid : ℕ) (password mail : JsVal) (now : ℕ)
    (hturn : firstAnswered (runFrom store sessions es) = true) :
    Stage u store sessions (es ++ [.arrive sid (.postCreateUser (.str u) password mail) now]) := by
  have hreported : ∀ flash i, Reported store sessions flash i
      (es ++ [.arrive sid (.postCreateUser (.str u) password mail) now]) ↔ Reported store sessions flash i es := by
    intro flash i
    rw [reported_concat, reports_arrive]
    simp
  cases h with
  | unclaimed h hnone =>
    refine .checking sid password mail ?_ ?_ (fun i => by rw [hreported]; exact hnone i)
    · have harrived := arrived_concat store sessions es sid (.postCreateUser (.str u) password mail) now
      rwa [h.started] at harrived
    · rw [runFrom_concat]
      exact h.arrive u sid password mail now
  | checking sid' password' mail' harrived h hnone =>
    obtain ⟨t, ht, hresponse⟩ := h.task
    simp [firstAnswered, ht, hresponse] at hturn
  | taken sid' password' mail' harrived h hfirst hothers =>
    refine .taken sid' password' mail' (harrived.concat _) ?_ (fun i => by rw [hreported]; exact hfirst i) ?_
    · rw [runFrom_concat]
      exact h.arrive sid password mail now
    · intro i hi hne
      rw [hreported, runFrom_concat, inFlight_step (wellFormed_runFrom store sessions es)]
      by_cases hnew : i = (runFrom store sessions es).started
      · right
        rw [issues_createUser, hnew]
        exact ⟨.createUserKeys (.str u) mail (sha256Base64 (u ++ password.toText)), by simp, by simp⟩
      · have hlt : i < (runFrom store sessions es).started := by
          rw [runFrom_concat, step_arrive] at hi
          simp only [Server.commit, Server.enter] at hi
          omega
        rcases hothers i hlt hne with hdone | ⟨callback, hcallback, hmem⟩
        · exact Or.inl hdone
        · exact Or.inr ⟨callback, hcallback, List.mem_append_left _ hmem⟩

lemma Stage.exec {es : List Event} (h : Stage u store sessions es) (hu : Plain u) (hnew : u ∉ store)
    (hstore : (runFrom store sessions es).store = execLine store (executedLine (runFrom store sessions es).log)) :
    Stage u store sessions (es ++ [.exec]) := by
  have hreported : ∀ flash i, Reported store sessions flash i (es ++ [.exec]) ↔ Reported store sessions flash i es := by
    intro flash i
    rw [reported_concat, reports_exec]
    simp
  cases h with
  | unclaimed h hnone => exact (Stage.unclaimed h hnone).concat_of_step_eq (step_exec_nil .process h.queue)
  | checking sid password mail harrived h hnone =>
    have hfree : Store.lacks (runFrom store sessions es).store u = true := by
      rw [lacks_iff hu, hstore, execLine_keys store (u := u)]
      · exact hnew
      · rcases h.waits with ⟨hexecuted, -⟩ | ⟨hexecuted, -⟩ <;> simp [hexecuted]
    refine .checking sid password mail (harrived.concat _) ?_ (fun i => by rw [hreported]; exact hnone i)
    rw [runFrom_concat]
    exact h.exec hfree
  | taken sid password mail harrived h hfirst hothers =>
    refine .taken sid password mail (harrived.concat _) ?_ (fun i => by rw [hreported]; exact hfirst i) ?_
    · rw [runFrom_concat]
      exact h.exec hu hstore
    · intro i hi hne
      rw [runFrom_concat, started_exec] at hi
      rw [hreported, runFrom_concat, inFlight_exec (wellFormed_runFrom store sessions es)]
      exact hothers i hi hne

lemma Stage.deliver {es : List Event} (h : Stage u store sessions es) (now : ℕ) :
    Stage u store sessions (es ++ [.deliver now]) := by
  have hw := wellFormed_runFrom store sessions es
  cases hr : (runFrom store sessions es).replies with
  | nil => exact h.concat_of_step_eq (step_deliver_nil .process hr now)
  | cons a replies =>
    obtain ⟨t, ht, -⟩ := hw.head_task hr
    cases h with
    | unclaimed h hnone => simp [h.replies] at hr
    | checking sid password mail harrived h hnone =>
      obtain ⟨htaken, hreports⟩ := h.deliver (by simp [hr]) now
      refine .taken sid password mail (harrived.concat _) (by rwa [runFrom_concat]) ?_ ?_
      · intro i
        rw [reported_concat, hreports]
        simp [hnone i]
      · intro i hi hne
        rw [runFrom_concat, started_deliver .process hr ht, h.started] at hi
        omega
    | taken sid password mail harrived h hfirst hothers =>
      refine .taken sid password mail (harrived.concat _) ?_ ?_ ?_
      · rw [runFrom_concat]
        exact h.deliver hr ht now
      · intro i
        rw [reported_concat, h.reports_deliver hr ht]
        simp [hfirst i, created_ne_alreadyExists]
      · intro i hi hne
        rw [reported_concat, h.reports_deliver hr ht, runFrom_concat, inFlight_step hw, hr]
        rw [runFrom_concat, started_deliver .process hr ht] at hi
        rcases hothers i hi hne with hdone | ⟨callback, hcallback, hmem⟩
        · exact Or.inl (Or.inl hdone)
        · -- the callback is the one that runs, or it stays in flight
          rw [inFlight, hr, List.map_cons, List.cons_append] at hmem
          rcases List.mem_cons.mp hmem with heq | hmem
          · obtain ⟨rfl, rfl⟩ := Prod.mk.inj heq
            exact Or.inl (Or.inr ⟨rfl, hcallback, rfl⟩)
          · exact Or.inr ⟨callback, hcallback, List.mem_append_left _ hmem⟩

/-- A run in which every further request arrives after the first has its answer. -/
lemma stage_runFrom (hu : Plain u) (hnew : u ∉ store) (es : List Event) (hes : ∀ e ∈ es, registersOnly u e = true)
    (hturns : Runs.Guarded (fun pre e => inTurn (runFrom store sessions pre) e = true) es) :
    Stage u store sessions es := by
  induction es using Runs.history_induction with
  | h0 => exact .unclaimed ⟨rfl, rfl, rfl, rfl⟩ (fun i => Runs.not_once_nil _)
  | hs es e ih =>
    have ih := ih (fun e' he' => hes e' (List.mem_append_left _ he')) hturns.init
    have hturn := hturns.last
    have he := hes e (by simp)
    have hadmin : ∀ e' ∈ es, isAdmin e' = false :=
      fun e' he' => isAdmin_of_registersOnly (hes e' (List.mem_append_left _ he'))
    cases e with
    | arrive sid req now =>
      obtain ⟨password, mail, rfl⟩ := exists_of_registersOnly he
      exact ih.arrive sid password mail now hturn
    | exec => exact ih.exec hu hnew (store_eq_execLine store sessions es hadmin)
    | deliver now => exact ih.deliver now
    | spawn | adminStep => cases he

/-- If every further request arrives after the first has its answer, then when all are answered
exactly one of them was told that the user was created, all others that the user exists, and the
record is the one's. -/
theorem registration_exclusive (hu : Plain u) (hnew : u ∉ store) (es : List Event)
    (hes : ∀ e ∈ es, registersOnly u e = true)
    (hturns : Runs.Guarded (fun pre e => inTurn (runFrom store sessions pre) e = true) es)
    (hstarted : 0 < (runFrom store sessions es).started) (hqueue : (runFrom store sessions es).queue = [])
    (hreplies : (runFrom store sessions es).replies = []) :
    ∃ i sid password mail, Arrived store sessions i sid (.postCreateUser (.str u) password mail) es ∧
      (∀ j, Reported store sessions (created u) j es ↔ j = i) ∧
      (∀ j < (runFrom store sessions es).started, j ≠ i → Reported store sessions (alreadyExists u) j es) ∧
      (runFrom store sessions es).store.hget u .password = some (sha256Base64 (u ++ password.toText)) ∧
      (runFrom store sessions es).store.hget u .mail = some mail.toText := by
  have hadmin : ∀ e ∈ es, isAdmin e = false := fun e he => isAdmin_of_registersOnly (hes e he)
  cases stage_runFrom hu hnew es hes hturns with
  | unclaimed h =>
    have hzero := h.started
    omega
  | checking sid password mail harrived h => rcases h.waits with ⟨-, hq, -⟩ | ⟨-, -, hr⟩ <;> simp_all
  | taken sid password mail harrived h hfirst hothers =>
    refine ⟨0, sid, password, mail, harrived, hfirst, fun j hj hne => ?_, ?_⟩
    · refine (hothers j hj hne).resolve_right ?_
      rintro ⟨callback, -, hmem⟩
      simp [inFlight, hqueue, hreplies] at hmem
    · obtain ⟨done, rest, hexecuted, hline, hrest⟩ := h.line
      rw [hqueue, List.map_nil, List.append_nil] at hline
      rw [store_eq_execLine store sessions es hadmin, hexecuted, hline]
      exact hget_execLine_taken store _ _ hrest

end

/-- Two people register `alice`; the second sends the form when the first has the answer. -/
def registerInTurn : List Event :=
  [.arrive 0 (.postCreateUser (.str "alice") (.str "first") (.str "first@example.org")) 1700000000000, .exec,
    .deliver 1700000000000,
    .arrive 1 (.postCreateUser (.str "alice") (.str "second") (.str "second@example.org")) 1700000000001, .exec, .exec,
    .exec, .deliver 1700000000001, .deliver 1700000000001, .deliver 1700000000001]

theorem registration_exclusive_alice :
    ∃ i sid password mail,
      Arrived ∅ (fun _ => {}) i sid (.postCreateUser (.str "alice") password mail) registerInTurn ∧
      (∀ j, Reported ∅ (fun _ => {}) (created "alice") j registerInTurn ↔ j = i) ∧
      (∀ j < (runFrom ∅ (fun _ => {}) registerInTurn).started, j ≠ i →
        Reported ∅ (fun _ => {}) (alreadyExists "alice") j registerInTurn) ∧
      (runFrom ∅ (fun _ => {}) registerInTurn).store.hget "alice" .password =
        some (sha256Base64 ("alice" ++ password.toText)) ∧
      (runFrom ∅ (fun _ => {}) registerInTurn).store.hget "alice" .mail = some mail.toText :=
  registration_exclusive (by decide +kernel) (by simp) registerInTurn (by decide)
    (Runs.guarded_of_forall_lt (by decide +kernel)) (by decide +kernel) (by decide +kernel) (by decide +kernel)

/-- Two people register `alice` at once: both are told that the user was created, and the record
is the one of the second. -/
theorem registration_not_exclusive :
    let es : List Event :=
      [.arrive 0 (.postCreateUser (.str "alice") (.str "first") (.str "first@example.org")) 1700000000000,
        .arrive 1 (.postCreateUser (.str "alice") (.str "second") (.str "second@example.org")) 1700000000001,
        .exec, .exec, .deliver 1700000000001, .deliver 1700000000001, .exec, .exec, .exec, .exec,
        .deliver 1700000000001, .deliver 1700000000001, .deliver 1700000000001, .deliver 1700000000001]
    let s := runFrom ∅ (fun _ => {}) es
    Plain "alice" ∧ (∀ e ∈ es, registersOnly "alice" e = true) ∧ s.started = 2 ∧ s.queue = [] ∧ s.replies = [] ∧
      Reported ∅ (fun _ => {}) (created "alice") 0 es ∧ Reported ∅ (fun _ => {}) (created "alice") 1 es ∧
      s.store.hget "alice" .password = some (sha256Base64 "alicesecond") ∧
      s.store.hget "alice" .mail = some "second@example.org" := by
  intro es s
  exact ⟨by decide +kernel, by decide, by decide +kernel, by decide +kernel, by decide +kernel, by decide +kernel,
    by decide +kernel, by decide +kernel, by decide +kernel⟩

end ExpressAuth.Proofs
