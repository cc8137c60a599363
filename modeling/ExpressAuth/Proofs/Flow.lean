import ExpressAuth.Proofs.ServerInvariants

/-!
# Following commands through the server

A command is issued with a callback, waits, is executed and answered, and its callback issues
the next ones. A `Flow` says what is known of a command while it waits, of an answer until its
callback runs, and of a session, each in terms of the events so far. If every segment hands it
on, it holds in every state of the run.
-/

namespace ExpressAuth.Proofs
open Server

section

variable (store : Store) (sessions : ℕ → Session)

/-- The server as written, from a given store and saved sessions. -/
abbrev runFrom (es : List Event) : Server := Runs.after (Server.step .process) { store, sessions } es

lemma runFrom_concat (es : List Event) (e : Event) :
    runFrom store sessions (es ++ [e]) = (runFrom store sessions es).step .process e :=
  Runs.after_concat _ _ _ _

lemma wellFormed_runFrom (es : List Event) : WellFormed (runFrom store sessions es) :=
  wellFormed_after .process store sessions es

structure Flow where
  queued : List Event → Pending → Prop
  answered : List Event → Answer → Prop
  session : List Event → ℕ → Session → Prop

variable {store sessions}

/-- What holds of the commands, answers and sessions of a state. -/
structure Flow.Holds (F : Flow) (es : List Event) (s : Server) : Prop where
  queue : ∀ p ∈ s.queue, F.queued es p
  replies : ∀ a ∈ s.replies, F.answered es a
  sessions : ∀ sid, F.session es sid (s.sessions sid)
  tasks : ∀ i t, s.tasks i = some t → F.session es t.sid t.session

variable (store sessions)

/-- Every segment and every execution hands the facts on, if the event is admissible. -/
structure Flow.Sound (F : Flow) (ok : List Event → Event → Prop) : Prop where
  start : ∀ sid, F.session [] sid (sessions sid)
  queued : ∀ es e, ok es e → F.Holds es (runFrom store sessions es) →
    ∀ p ∈ (runFrom store sessions es).queue, F.queued (es ++ [e]) p
  answered : ∀ es e, ok es e → F.Holds es (runFrom store sessions es) →
    ∀ a ∈ (runFrom store sessions es).replies, F.answered (es ++ [e]) a
  session : ∀ es e sid ses, ok es e → F.session es sid ses → F.session (es ++ [e]) sid ses
  arrive : ∀ es sid req now, ok es (.arrive sid req now) → F.Holds es (runFrom store sessions es) →
    let c : Ctx :=
      { now, vars := (runFrom store sessions es).vars, session := (runFrom store sessions es).sessions sid }
    F.session (es ++ [.arrive sid req now]) sid (req.begin c).session ∧
      ∀ cmd callback, Opening c req cmd callback →
        F.queued (es ++ [.arrive sid req now]) ⟨(runFrom store sessions es).started, cmd, callback⟩
  exec : ∀ es p rest, ok es .exec → F.Holds es (runFrom store sessions es) →
    (runFrom store sessions es).queue = p :: rest →
    F.answered (es ++ [.exec]) ⟨p.task, p.callback, (p.cmd.exec (runFrom store sessions es).store).2⟩
  deliver : ∀ es now a rest t, ok es (.deliver now) → F.Holds es (runFrom store sessions es) →
    (runFrom store sessions es).replies = a :: rest → (runFrom store sessions es).tasks a.task = some t →
    let c : Ctx := { now, vars := (runFrom store sessions es).vars, session := t.session }
    F.session (es ++ [.deliver now]) t.sid (a.callback.run a.reply c).session ∧
      ∀ cmd callback, FollowUp c a.reply a.callback cmd callback →
        F.queued (es ++ [.deliver now]) ⟨a.task, cmd, callback⟩

variable {store sessions}

/-- The facts after an event hold of what a segment leaves if they hold of what it found, of
the commands it issued and of the session it ends with. -/
lemma Flow.Holds.commit {F : Flow} {es : List Event} {s : Server} (h : F.Holds es s) (i : ℕ) (t : Task) (c : Ctx)
    (hses : F.session es t.sid c.session) (hcmd : ∀ p ∈ c.issued, F.queued es ⟨i, p.1, p.2⟩) :
    F.Holds es (s.commit .process i t c) := by
  refine ⟨?_, h.replies, ?_, ?_⟩
  · intro p hp
    rcases List.mem_append.mp hp with hp | hp
    · exact h.queue p hp
    · obtain ⟨q, hq, rfl⟩ := List.mem_map.mp hp
      exact hcmd q hq
  · intro sid
    simp only [Server.commit]
    split
    · by_cases hsid : sid = t.sid
      · subst hsid
        simpa using hses
      · simpa [Function.update_of_ne hsid] using h.sessions sid
    · exact h.sessions sid
  · intro j t' hj
    by_cases hji : j = i
    · subst hji
      rw [commit_task] at hj
      obtain rfl := Option.some.inj hj
      exact hses
    · exact h.tasks j t' (commit_tasks _ _ _ _ _ hj hji)

lemma Flow.Sound.step {F : Flow} {ok : List Event → Event → Prop} (hF : F.Sound store sessions ok)
    {es : List Event} {e : Event} (h : F.Holds es (runFrom store sessions es)) (hok : ok es e) :
    F.Holds (es ++ [e]) ((runFrom store sessions es).step .process e) := by
  have hw := wellFormed_runFrom store sessions es
  have hold : F.Holds (es ++ [e]) (runFrom store sessions es) :=
    ⟨hF.queued _ _ hok h, hF.answered _ _ hok h, fun sid => hF.session _ _ _ _ hok (h.sessions sid),
      fun i t ht => hF.session _ _ _ _ hok (h.tasks i t ht)⟩
  cases e with
  | arrive sid req now =>
    obtain ⟨hses, hcmd⟩ := hF.arrive es sid req now hok h
    have henter : F.Holds (es ++ [.arrive sid req now]) ((runFrom store sessions es).enter sid req) := by
      refine ⟨hold.queue, hold.replies, hold.sessions, ?_⟩
      intro j t ht
      by_cases hj : j = (runFrom store sessions es).started
      · subst hj
        rw [enter_task] at ht
        obtain rfl := Option.some.inj ht
        exact hold.sessions sid
      · exact hold.tasks j t (enter_tasks _ _ _ ht hj)
    rw [step_arrive]
    exact henter.commit _ _ _ hses (fun p hp => hcmd p.1 p.2 (begin_issued req _ rfl p hp))
  | exec =>
    cases hq : (runFrom store sessions es).queue with
    | nil => rwa [step_exec_nil .process hq]
    | cons p rest =>
      rw [step_exec_cons .process hq]
      refine ⟨fun q hqr => hold.queue q (hq ▸ List.mem_cons_of_mem _ hqr), ?_, hold.sessions, hold.tasks⟩
      intro a ha
      rcases List.mem_append.mp ha with ha | ha
      · exact hold.replies a ha
      · obtain rfl := List.mem_singleton.mp ha
        exact hF.exec es p rest hok h hq
  | deliver now =>
    cases hr : (runFrom store sessions es).replies with
    | nil => rwa [step_deliver_nil .process hr]
    | cons a rest =>
      obtain ⟨t, ht, -⟩ := hw.head_task hr
      obtain ⟨hses, hcmd⟩ := hF.deliver es now a rest t hok h hr ht
      rw [step_deliver_cons .process hr ht]
      have hrest : F.Holds (es ++ [.deliver now]) { runFrom store sessions es with replies := rest } :=
        ⟨hold.queue, fun b hb => hold.replies b (hr ▸ List.mem_cons_of_mem _ hb), hold.sessions, hold.tasks⟩
      exact hrest.commit _ t _ hses (fun p hp => hcmd p.1 p.2 (run_issued a.callback a.reply _ rfl p hp))
  | spawn argv => exact ⟨hold.queue, hold.replies, hold.sessions, hold.tasks⟩
  | adminStep j now => exact ⟨hold.queue, hold.replies, hold.sessions, hold.tasks⟩

/-- A sound flow holds along every admissible run. -/
theorem Flow.Sound.holds {F : Flow} {ok : List Event → Event → Prop} (hF : F.Sound store sessions ok)
    (es : List Event) (h : Runs.Guarded ok es) : F.Holds es (runFrom store sessions es) := by
  refine Runs.guarded_induction (P := fun es => F.Holds es (runFrom store sessions es)) ?_ ?_ es h
  · exact ⟨by simp, by simp, hF.start, by simp⟩
  · intro es e ih hok
    rw [runFrom_concat]
    exact hF.step ih hok

/-! ### Arrivals and executions -/

variable (store sessions)

/-- The task `i` is the request `req` of the session `sid`. -/
def Arrived (i sid : ℕ) (req : Request) : List Event → Prop :=
  Runs.Once (fun pre e => (runFrom store sessions pre).started = i ∧ ∃ now, e = .arrive sid req now)

lemma identity_of_arrived {i sid : ℕ} {req : Request} {es : List Event} (h : Arrived store sessions i sid req es) :
    identity (runFrom store sessions es) i = some (req, sid) := by
  induction es using Runs.history_induction with
  | h0 => exact absurd h (Runs.not_once_nil _)
  | hs es e ih =>
    rw [runFrom_concat]
    rcases Runs.once_concat.mp h with h | ⟨hi, now, rfl⟩
    · exact identity_step (wellFormed_runFrom store sessions es) .process e (ih h)
    · rw [step_arrive, identity_commit .process _ (enter_task _ sid req), identity_enter, if_pos hi.symm]

lemma arrived_concat (es : List Event) (sid : ℕ) (req : Request) (now : ℕ) :
    Arrived store sessions (runFrom store sessions es).started sid req (es ++ [.arrive sid req now]) :=
  Runs.once_concat.mpr (Or.inr ⟨rfl, now, rfl⟩)

variable {store sessions}

lemma Arrived.concat {i sid : ℕ} {req : Request} {es : List Event} (h : Arrived store sessions i sid req es)
    (e : Event) : Arrived store sessions i sid req (es ++ [e]) :=
  Runs.once_concat.mpr (Or.inl h)

end

/-- The task and the command Redis executes next. -/
def nextCommand (s : Server) : Option (ℕ × Cmd) := s.queue.head?.map (fun p => (p.task, p.cmd))

lemma nextCommand_of_queue {s : Server} {p : Pending} {rest : List Pending} (h : s.queue = p :: rest) :
    nextCommand s = some (p.task, p.cmd) := by
  simp [nextCommand, h]

end ExpressAuth.Proofs
