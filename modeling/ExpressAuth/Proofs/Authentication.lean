import ExpressAuth.Proofs.Flow

/-!
# Where an authenticated session comes from

`session.authenticated` is set by the second callback of `POST /login` only. Its request is
followed back through the two reads, each to the moment Redis executed it.
-/

namespace ExpressAuth.Proofs

section

variable (store : Store) (i sid : ℕ) (username password : JsVal)

/-- The login of the task `i` read the stored password, and it was the hash of the posted one. -/
def PasswordMatched : List Event → Prop :=
  Runs.Once (fun pre e => e = .exec ∧ nextCommand (run store pre) = some (i, .hget username.toText .password) ∧
    (∃ text ∈ username.add password,
      (run store pre).store.hget username.toText .password = some (sha256Base64 text)) ∧
    Arrived store (fun _ => {}) i sid (.postLogin username password) pre)

/-- After that it read `valid`, and it was `"True"`. -/
def LoginPassed : List Event → Prop :=
  Runs.Once (fun pre e => e = .exec ∧ nextCommand (run store pre) = some (i, .hget username.toText .valid) ∧
    (run store pre).store.hget username.toText .valid = some "True" ∧
    PasswordMatched store i sid username password pre)

end

section

variable {store : Store} {i sid : ℕ} {username password : JsVal} {es : List Event}

lemma PasswordMatched.concat (h : PasswordMatched store i sid username password es) (e : Event) :
    PasswordMatched store i sid username password (es ++ [e]) :=
  Runs.once_concat.mpr (Or.inl h)

lemma LoginPassed.concat (h : LoginPassed store i sid username password es) (e : Event) :
    LoginPassed store i sid username password (es ++ [e]) :=
  Runs.once_concat.mpr (Or.inl h)

lemma LoginPassed.arrived (h : LoginPassed store i sid username password es) :
    Arrived store (fun _ => {}) i sid (.postLogin username password) es := by
  obtain ⟨pre₂, e₂, hp₂, -, -, -, pre₁, e₁, hp₁, -, -, -, harrived⟩ := h
  have hp : pre₁ <+: es :=
    (((List.prefix_append _ _).trans hp₁).trans (List.prefix_append _ _)).trans hp₂
  exact harrived.mono hp (fun _ _ h => h)

end

/-- What is known of the two reads of a login, and of a session it authenticates. -/
def loginFlow (store : Store) : Flow where
  queued es p :=
    match p.callback with
    | .loginPassword username generatedHash =>
      p.cmd = .hget username.toText .password ∧ ∃ sid password text, username.add password = some text ∧
        generatedHash = sha256Base64 text ∧ Arrived store (fun _ => {}) p.task sid (.postLogin username password) es
    | .loginValid username =>
      p.cmd = .hget username.toText .valid ∧ ∃ sid password, PasswordMatched store p.task sid username password es
    | _ => True
  answered es a :=
    match a.callback with
    | .loginPassword username generatedHash =>
      .str generatedHash = a.reply.obj → ∃ sid password, PasswordMatched store a.task sid username password es
    | .loginValid username =>
      a.reply.obj = .str "True" → ∃ sid password, LoginPassed store a.task sid username password es
    | _ => True
  session es sid ses :=
    ses.authenticated = true → ∃ i username password, LoginPassed store i sid username password es

lemma loginFlow_arrive (store : Store) (es : List Event) (sid : ℕ) (req : Request) (now : ℕ) (c : Ctx)
    {cmd : Cmd} {callback : Callback} (h : Opening c req cmd callback) :
    (loginFlow store).queued (es ++ [.arrive sid req now]) ⟨(run store es).started, cmd, callback⟩ := by
  cases h with
  | login ht => exact ⟨rfl, sid, _, _, ht, rfl, arrived_concat store (fun _ => {}) es sid _ now⟩
  | _ => trivial

lemma loginFlow_exec (store : Store) (es : List Event) (p : Pending) (rest : List Pending)
    (hq : (run store es).queue = p :: rest) (h : (loginFlow store).queued es p) :
    (loginFlow store).answered (es ++ [.exec]) ⟨p.task, p.callback, (p.cmd.exec (run store es).store).2⟩ := by
  have hnext := nextCommand_of_queue hq
  obtain ⟨i, cmd, callback⟩ := p
  cases callback with
  | loginPassword username generatedHash =>
    obtain ⟨hcmd, sid, password, text, ht, rfl, harrived⟩ := h
    obtain rfl : cmd = .hget username.toText .password := hcmd
    intro hobj
    have hstored : (run store es).store.hget username.toText .password = some (sha256Base64 text) := by
      simpa using hobj
    exact ⟨sid, password, Runs.once_concat.mpr (Or.inr ⟨rfl, hnext, ⟨text, ht, hstored⟩, harrived⟩)⟩
  | loginValid username =>
    obtain ⟨hcmd, sid, password, hmatched⟩ := h
    obtain rfl : cmd = .hget username.toText .valid := hcmd
    intro hobj
    have hstored : (run store es).store.hget username.toText .valid = some "True" := by simpa using hobj
    exact ⟨sid, password, Runs.once_concat.mpr (Or.inr ⟨rfl, hnext, hstored, hmatched⟩)⟩
  | _ => trivial

lemma loginFlow_session (store : Store) (es : List Event) (e : Event) (a : Answer) (t : Task) (c : Ctx)
    (ht : (run store es).tasks a.task = some t) (hc : c.session = t.session)
    (ha : (loginFlow store).answered es a) (hs : (loginFlow store).session es t.sid t.session) :
    (loginFlow store).session (es ++ [e]) t.sid (a.callback.run a.reply c).session := by
  intro hauth
  rcases run_authenticated a.callback a.reply c hauth with hbefore | ⟨username, hcallback, hobj⟩
  · obtain ⟨i, username, password, hpassed⟩ := hs (hc ▸ hbefore)
    exact ⟨i, username, password, hpassed.concat e⟩
  · simp only [loginFlow, hcallback] at ha
    obtain ⟨sid, password, hpassed⟩ := ha hobj
    -- the task that passed is the one whose session is written
    have hid := identity_of_arrived store (fun _ => {}) hpassed.arrived
    have hsid : t.sid = sid := by
      rw [identity_of_task ht] at hid
      exact (Prod.mk.inj (Option.some.inj hid)).2
    subst hsid
    exact ⟨a.task, username, password, hpassed.concat e⟩

lemma loginFlow_deliver (store : Store) (es : List Event) (now : ℕ) (a : Answer) (c : Ctx)
    (ha : (loginFlow store).answered es a) {cmd : Cmd} {callback : Callback}
    (h : FollowUp c a.reply a.callback cmd callback) :
    (loginFlow store).queued (es ++ [.deliver now]) ⟨a.task, cmd, callback⟩ := by
  obtain ⟨i, callback', reply⟩ := a
  cases h with
  | login hobj =>
    obtain ⟨sid, password, hmatched⟩ := ha hobj
    exact ⟨rfl, sid, password, hmatched.concat _⟩
  | _ => trivial

lemma loginFlow_sound (store : Store) : (loginFlow store).Sound store (fun _ => {}) (fun _ _ => True) where
  start sid h := absurd h (by simp)
  queued es e _ h p hp := by
    have hold := h.queue p hp
    obtain ⟨i, cmd, callback⟩ := p
    cases callback with
    | loginPassword username generatedHash =>
      obtain ⟨hcmd, sid, password, text, ht, hhash, harrived⟩ := hold
      exact ⟨hcmd, sid, password, text, ht, hhash, Runs.once_concat.mpr (Or.inl harrived)⟩
    | loginValid username =>
      obtain ⟨hcmd, sid, password, hmatched⟩ := hold
      exact ⟨hcmd, sid, password, hmatched.concat e⟩
    | _ => trivial
  answered es e _ h a ha := by
    have hold := h.replies a ha
    obtain ⟨i, callback, reply⟩ := a
    cases callback with
    | loginPassword username generatedHash =>
      intro hobj
      obtain ⟨sid, password, hmatched⟩ := hold hobj
      exact ⟨sid, password, hmatched.concat e⟩
    | loginValid username =>
      intro hobj
      obtain ⟨sid, password, hpassed⟩ := hold hobj
      exact ⟨sid, password, hpassed.concat e⟩
    | _ => trivial
  session es e sid ses _ h hauth := by
    obtain ⟨i, username, password, hpassed⟩ := h hauth
    exact ⟨i, username, password, hpassed.concat e⟩
  arrive es sid req now _ h := by
    refine ⟨fun hauth => ?_, fun cmd callback ho => loginFlow_arrive store es sid req now _ ho⟩
    obtain ⟨i, username, password, hpassed⟩ := h.sessions sid (begin_authenticated req _ hauth)
    exact ⟨i, username, password, hpassed.concat _⟩
  exec es p rest _ h hq := loginFlow_exec store es p rest hq (h.queue p (hq ▸ List.mem_cons_self))
  deliver es now a rest t _ h hr ht := by
    have ha := h.replies a (hr ▸ List.mem_cons_self)
    exact ⟨loginFlow_session store es _ a t _ ht rfl ha (h.tasks _ t ht),
      fun cmd callback hf => loginFlow_deliver store es now a _ ha hf⟩

/-- Whenever a session is authenticated, a login of this very session went through before:
the stored password was the hash of its name and password when its first read was executed,
and `valid` was `"True"` when its second read was. -/
theorem authentication_provenance (store : Store) (es : List Event) (sid : ℕ)
    (h : ((run store es).sessions sid).authenticated = true) :
    ∃ i username password, LoginPassed store i sid username password es := by
  have hholds := (loginFlow_sound store).holds es (fun _ _ _ => trivial)
  exact hholds.sessions sid h

/-- A login of `alice`, with a login under a wrong password in flight at the same time. -/
def parallelLogins : List Event :=
  [.arrive 1 (.postLogin (.str "alice") (.str "secret")) 1700000000000,
    .arrive 2 (.postLogin (.str "alice") (.str "guess")) 1700000000000, .exec, .exec, .deliver 1700000000000,
    .deliver 1700000000000, .exec, .deliver 1700000000000]

theorem authentication_provenance_parallel :
    let store : Store := HashStore.writes ∅ [("alice", .password, sha256Base64 "alicesecret"), ("alice", .valid, "True")]
    ((run store parallelLogins).sessions 1).authenticated = true ∧
      ((run store parallelLogins).sessions 2).authenticated = false ∧
      ∃ i username password, LoginPassed store i 1 username password parallelLogins := by
  intro store
  have hauth : ((run store parallelLogins).sessions 1).authenticated = true := by decide +kernel
  exact ⟨hauth, by decide +kernel, authentication_provenance store parallelLogins 1 hauth⟩

end ExpressAuth.Proofs
