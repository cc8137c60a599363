import ExpressAuth.Proofs.Flow

/-!
# The commands of the connection, in order

The commands of the connection form one line: those executed, then those waiting. A segment
appends to it and nothing is ever taken out; executing a command only moves the boundary. So
what was issued later is executed later, and what a command finds in the store is determined
by the commands before it.
-/

namespace ExpressAuth.Proofs
open Server

def executedBy : Observation → Option (ℕ × Cmd)
  | .executed (.task i) cmd _ => some (i, cmd)
  | _ => none

/-- The commands of the connection that a log shows executed. -/
def executedLine (log : List Observation) : List (ℕ × Cmd) := log.filterMap executedBy

/-- The commands of the connection in the order of issue. -/
def line (s : Server) : List (ℕ × Cmd) := executedLine s.log ++ s.queue.map (fun p => (p.task, p.cmd))

/-- The callbacks that have not run yet, oldest first. -/
def inFlight (s : Server) : List (ℕ × Callback) :=
  s.replies.map (fun a => (a.task, a.callback)) ++ s.queue.map (fun p => (p.task, p.callback))

/-- The context the segment of an event ends in, with its task. -/
def segmentOf (s : Server) : Event → Option (ℕ × Ctx)
  | .arrive sid req now => some (s.started, req.begin { now, vars := s.vars, session := s.sessions sid })
  | .deliver now =>
    match s.replies with
    | [] => none
    | a :: _ => (s.tasks a.task).map (fun t =>
        (a.task, a.callback.run a.reply { now, vars := s.vars, session := t.session }))
  | _ => none

/-- The commands an event issues, each with its callback. -/
def issues (s : Server) (e : Event) : List Pending :=
  match segmentOf s e with
  | none => []
  | some (i, c) => c.issued.map (fun p => ⟨i, p.1, p.2⟩)

lemma issues_deliver {s : Server} {a : Answer} {rest : List Answer} {t : Task} (h : s.replies = a :: rest)
    (ht : s.tasks a.task = some t) (now : ℕ) :
    issues s (.deliver now) = (a.callback.run a.reply { now, vars := s.vars, session := t.session }).issued.map
      (fun p => ⟨a.task, p.1, p.2⟩) := by
  simp [issues, segmentOf, h, ht]

lemma executedLine_append (log log' : List Observation) :
    executedLine (log ++ log') = executedLine log ++ executedLine log' :=
  List.filterMap_append

lemma mem_of_executedLine {log : List Observation} {j : ℕ} {cmd : Cmd} (h : (j, cmd) ∈ executedLine log) :
    ∃ r, .executed (.task j) cmd r ∈ log := by
  obtain ⟨o, ho, hx⟩ := List.mem_filterMap.mp h
  match o with
  | .executed (.task i) cmd' r =>
    obtain ⟨rfl, rfl⟩ : i = j ∧ cmd' = cmd := by simpa [executedBy] using hx
    exact ⟨r, ho⟩
  | .executed (.admin _) _ _ | .file _ _ | .printed _ _ | .saved _ _ | .responded _ _ => cases hx

lemma executedLine_observations (i sid : ℕ) (c : Ctx) : executedLine (observations i sid c) = [] := by
  rw [executedLine, List.filterMap_eq_nil_iff]
  intro o ho
  rcases mem_observations.mp ho with ⟨file, -, rfl⟩ | ⟨response, -, rfl | rfl⟩ | ⟨-, rfl⟩ <;> rfl

lemma executedLine_admin (j : ℕ) (outputs : List AdminTool.Output) :
    executedLine (outputs.map (observeAdmin j)) = [] := by
  rw [executedLine, List.filterMap_eq_nil_iff]
  intro o ho
  obtain ⟨output, -, rfl⟩ := List.mem_map.mp ho
  cases output <;> rfl

lemma executedLine_perform (s : Server) (p : Pending) (rest : List Pending) :
    executedLine (s.perform p rest).log = executedLine s.log ++ [(p.task, p.cmd)] :=
  executedLine_append _ _

lemma line_commit (s : Server) (i : ℕ) (t : Task) (c : Ctx) :
    line (s.commit .process i t c) = line s ++ c.issued.map (fun p => (i, p.1)) := by
  simp [line, Server.commit, executedLine_append, executedLine_observations]

lemma inFlight_commit (s : Server) (i : ℕ) (t : Task) (c : Ctx) :
    inFlight (s.commit .process i t c) = inFlight s ++ c.issued.map (fun p => (i, p.2)) := by
  simp [inFlight, Server.commit]

/-- An event appends what it issues to the line. -/
lemma line_step {s : Server} (hs : WellFormed s) (e : Event) :
    line (s.step .process e) = line s ++ (issues s e).map (fun p => (p.task, p.cmd)) := by
  cases e with
  | arrive sid req now =>
    rw [step_arrive, line_commit]
    simp [issues, segmentOf, line, Server.enter, Server.context, Scope.select]
  | exec =>
    cases hq : s.queue with
    | nil => simp [step_exec_nil .process hq, issues, segmentOf]
    | cons p rest =>
      rw [step_exec_cons .process hq, line, executedLine_perform]
      simp [line, Server.perform, hq, issues, segmentOf]
  | deliver now =>
    cases hr : s.replies with
    | nil => simp [step_deliver_nil .process hr, issues, segmentOf, hr]
    | cons a rest =>
      obtain ⟨t, ht, -⟩ := hs.head_task hr
      rw [step_deliver_cons .process hr ht, line_commit]
      simp [issues, segmentOf, hr, ht, line, Server.context, Scope.select]
  | spawn argv => simp [line, Server.step, issues, segmentOf]
  | adminStep j now => simp [line, Server.step, issues, segmentOf, executedLine_append, executedLine_admin]

/-- An event appends what it issues to the callbacks in flight; a delivery takes the oldest. -/
lemma inFlight_step {s : Server} (hs : WellFormed s) (e : Event) :
    inFlight (s.step .process e) =
      (match e with
        | .deliver _ => s.replies.tail.map (fun a => (a.task, a.callback)) ++
            s.queue.map (fun p => (p.task, p.callback))
        | _ => inFlight s) ++ (issues s e).map (fun p => (p.task, p.callback)) := by
  cases e with
  | arrive sid req now =>
    rw [step_arrive, inFlight_commit]
    simp [issues, segmentOf, inFlight, Server.enter, Server.context, Scope.select]
  | exec =>
    cases hq : s.queue with
    | nil => simp [step_exec_nil .process hq, issues, segmentOf]
    | cons p rest =>
      rw [step_exec_cons .process hq]
      simp [inFlight, Server.perform, hq, issues, segmentOf]
  | deliver now =>
    cases hr : s.replies with
    | nil => simp [step_deliver_nil .process hr, issues, segmentOf, hr, inFlight]
    | cons a rest =>
      obtain ⟨t, ht, -⟩ := hs.head_task hr
      rw [step_deliver_cons .process hr ht, inFlight_commit]
      simp [issues, segmentOf, hr, ht, inFlight, Server.context, Scope.select]
  | spawn argv => simp [inFlight, Server.step, issues, segmentOf]
  | adminStep j now => simp [inFlight, Server.step, issues, segmentOf]

lemma line_exec {s : Server} (hs : WellFormed s) : line (s.step .process .exec) = line s := by
  rw [line_step hs]
  simp [issues, segmentOf]

lemma inFlight_exec {s : Server} (hs : WellFormed s) : inFlight (s.step .process .exec) = inFlight s := by
  rw [inFlight_step hs]
  simp [issues, segmentOf]

lemma countP_inFlight_step {s : Server} (hs : WellFormed s) (e : Event) (q : ℕ × Callback → Bool) :
    (inFlight (s.step .process e)).countP q ≤
      (inFlight s).countP q + ((issues s e).map (fun p => (p.task, p.callback))).countP q := by
  rw [inFlight_step hs, List.countP_append]
  refine Nat.add_le_add_right ?_ _
  cases e with
  | deliver now =>
    have hsub := ((List.tail_sublist s.replies).map (fun a => (a.task, a.callback))).append_right
      (s.queue.map (fun p => (p.task, p.callback)))
    exact hsub.countP_le
  | _ => exact le_rfl

lemma queue_step {s : Server} (hs : WellFormed s) {e : Event} (he : e ≠ .exec) :
    (s.step .process e).queue = s.queue ++ issues s e := by
  cases e with
  | arrive sid req now =>
    rw [step_arrive]
    rfl
  | exec => exact absurd rfl he
  | deliver now =>
    cases hr : s.replies with
    | nil => simp [step_deliver_nil .process hr, issues, segmentOf, hr]
    | cons a rest =>
      obtain ⟨t, ht, -⟩ := hs.head_task hr
      rw [step_deliver_cons .process hr ht]
      simp [Server.commit, issues, segmentOf, hr, ht, Server.context, Scope.select]
  | spawn argv | adminStep => simp [Server.step, issues, segmentOf]

lemma replies_step {s : Server} (hs : WellFormed s) {e : Event} (he : e ≠ .exec) :
    (s.step .process e).replies = match e with | .deliver _ => s.replies.tail | _ => s.replies := by
  cases e with
  | arrive sid req now =>
    rw [step_arrive]
    rfl
  | exec => exact absurd rfl he
  | deliver now =>
    cases hr : s.replies with
    | nil => simp [step_deliver_nil .process hr, hr]
    | cons a rest =>
      obtain ⟨t, ht, -⟩ := hs.head_task hr
      rw [step_deliver_cons .process hr ht]
      rfl
  | spawn argv | adminStep => rfl

lemma mem_replies_of_step {s : Server} (hs : WellFormed s) {e : Event} (he : e ≠ .exec) {a : Answer}
    (ha : a ∈ (s.step .process e).replies) : a ∈ s.replies := by
  rw [replies_step hs he] at ha
  cases e with
  | deliver now => exact List.mem_of_mem_tail ha
  | _ => exact ha

/-- What a segment does to the connection: it appends commands and takes at most the oldest reply. -/
structure Appends (s s' : Server) (ps : List Pending) : Prop where
  line : line s' = line s ++ ps.map (fun p => (p.task, p.cmd))
  queue : s'.queue = s.queue ++ ps
  replies : ∀ a ∈ s'.replies, a ∈ s.replies
  count : ∀ q, (inFlight s').countP q ≤ (inFlight s).countP q + (ps.map (fun p => (p.task, p.callback))).countP q

lemma appends_step {s : Server} (hs : WellFormed s) {e : Event} (he : e ≠ .exec) :
    Appends s (s.step .process e) (issues s e) :=
  ⟨line_step hs e, queue_step hs he, fun _ ha => mem_replies_of_step hs he ha, countP_inFlight_step hs e⟩

lemma WellFormed.inFlight_lt {s : Server} (hs : WellFormed s) {x : ℕ × Callback} (hx : x ∈ inFlight s) :
    x.1 < s.started := by
  rcases List.mem_append.mp hx with hx | hx
  · obtain ⟨a, ha, rfl⟩ := List.mem_map.mp hx
    exact hs.replies_lt ha
  · obtain ⟨p, hp, rfl⟩ := List.mem_map.mp hx
    exact hs.queue_lt hp

lemma WellFormed.line_lt {s : Server} (hs : WellFormed s) {x : ℕ × Cmd} (hx : x ∈ Proofs.line s) : x.1 < s.started := by
  rcases List.mem_append.mp hx with hx | hx
  · obtain ⟨r, hr⟩ := mem_of_executedLine hx
    exact hs.log _ _ _ hr
  · obtain ⟨p, hp, rfl⟩ := List.mem_map.mp hx
    exact hs.queue_lt hp

/-- A segment touches neither the store nor the invocations. -/
lemma segment_frame {s : Server} (hs : WellFormed s) {e : Event}
    (he : (∃ sid req now, e = .arrive sid req now) ∨ ∃ now, e = .deliver now) :
    (s.step .process e).store = s.store ∧ (s.step .process e).admins = s.admins ∧
      (s.step .process e).spawned = s.spawned := by
  rcases he with ⟨sid, req, now, rfl⟩ | ⟨now, rfl⟩
  · rw [step_arrive]
    exact ⟨rfl, rfl, rfl⟩
  · cases hr : s.replies with
    | nil => rw [step_deliver_nil .process hr]; exact ⟨rfl, rfl, rfl⟩
    | cons a rest =>
      obtain ⟨t, ht, -⟩ := hs.head_task hr
      rw [step_deliver_cons .process hr ht]
      exact ⟨rfl, rfl, rfl⟩

/-! ### What an event adds to the log -/

lemma mem_log_step {s : Server} (hs : WellFormed s) (e : Event) {o : Observation} (h : o ∈ s.log) :
    o ∈ (s.step .process e).log := by
  cases e with
  | arrive sid req now =>
    rw [step_arrive]
    exact List.mem_append_left _ h
  | exec =>
    cases hq : s.queue with
    | nil => rwa [step_exec_nil .process hq]
    | cons p rest =>
      rw [step_exec_cons .process hq]
      exact List.mem_append_left _ h
  | deliver now =>
    cases hr : s.replies with
    | nil => rwa [step_deliver_nil .process hr]
    | cons a rest =>
      obtain ⟨t, ht, -⟩ := hs.head_task hr
      rw [step_deliver_cons .process hr ht]
      exact List.mem_append_left _ h
  | spawn argv => exact h
  | adminStep j now => exact List.mem_append_left _ h

def observed (s : Server) (e : Event) : List Observation := (s.step .process e).log.drop s.log.length

lemma mem_observed_of_log {s : Server} {i sid : ℕ} {c : Ctx} {e : Event} {o : Observation}
    (h : (s.step .process e).log = s.log ++ observations i sid c) :
    o ∈ observed s e ↔ o ∈ observations i sid c := by
  rw [observed, h, List.drop_left]

lemma responded_mem_observations {i j sid : ℕ} {c : Ctx} {response : Response} :
    .responded i response ∈ observations j sid c ↔ i = j ∧ c.response = some response := by
  rw [mem_observations]
  constructor
  · rintro (⟨file, -, h⟩ | ⟨response', hr, h | h⟩ | ⟨-, h⟩) <;> cases h
    exact ⟨rfl, hr⟩
  · rintro ⟨rfl, hr⟩
    exact Or.inr (Or.inl ⟨response, hr, Or.inr rfl⟩)

lemma saved_mem_observations {i sid sid' : ℕ} {c : Ctx} {session : Session} :
    .saved sid session ∈ observations i sid' c ↔ sid = sid' ∧ session = c.session ∧ c.response.isSome = true := by
  simp [mem_observations, Option.isSome_iff_exists, and_comm, and_assoc]

/-! ### The store along the line -/

/-- The store after a line of commands. -/
def execLine (store : Store) (cmds : List (ℕ × Cmd)) : Store := cmds.foldl (fun s x => (x.2.exec s).1) store

lemma execLine_concat (store : Store) (cmds : List (ℕ × Cmd)) (x : ℕ × Cmd) :
    execLine store (cmds ++ [x]) = (x.2.exec (execLine store cmds)).1 :=
  List.foldl_append

/-- The command writes the field `f` of `u`, or deletes `u`. -/
def writesField (u : String) (f : Field) : Cmd → Bool
  | .hset k f' _ => k = u ∧ f' = f
  | .del k => k = u
  | _ => false

lemma hget_exec_of_not_writesField {u : String} {f : Field} {cmd : Cmd} (h : writesField u f cmd = false)
    (store : Store) : (cmd.exec store).1.hget u f = store.hget u f := by
  cases cmd with
  | hset k f' v =>
    simp only [writesField, decide_eq_false_iff_not] at h
    rw [Cmd.exec, HashStore.hget_hset, if_neg (fun hc => h ⟨hc.1.symm, hc.2.symm⟩)]
  | del k =>
    simp only [writesField, decide_eq_false_iff_not] at h
    rw [Cmd.exec, HashStore.hget_del, if_neg (fun hc => h hc.symm)]
  | _ => rfl

/-- The last write to the field `f` of `u` in a line set `v`. -/
def LastWrite (u : String) (f : Field) (v : String) (cmds : List (ℕ × Cmd)) : Prop :=
  Runs.Since (fun _ x => x.2 = .hset u f v) (fun _ x => writesField u f x.2 = false) cmds

lemma LastWrite.hget {u : String} {f : Field} {v : String} {cmds : List (ℕ × Cmd)} (h : LastWrite u f v cmds)
    (store : Store) : (execLine store cmds).hget u f = some v := by
  induction cmds using Runs.history_induction with
  | h0 => exact absurd h (Runs.not_since_nil _ _)
  | hs cmds x ih =>
    rw [execLine_concat]
    rcases Runs.since_concat.mp h with hx | ⟨h, hx⟩
    · rw [hx]
      exact HashStore.hget_hset_self _ _ _ _
    · rw [hget_exec_of_not_writesField hx, ih h]

lemma LastWrite.append {u : String} {f : Field} {v : String} {cmds cmds' : List (ℕ × Cmd)}
    (h : LastWrite u f v cmds) (h' : ∀ x ∈ cmds', writesField u f x.2 = true → x.2 = .hset u f v) :
    LastWrite u f v (cmds ++ cmds') := by
  induction cmds' using List.reverseRecOn with
  | nil => rwa [List.append_nil]
  | append_singleton cmds' x ih =>
    rw [← List.append_assoc]
    by_cases hx : writesField u f x.2 = true
    · exact Runs.since_concat.mpr (Or.inl (h' x (by simp) hx))
    · have hrest := ih (fun y hy => h' y (List.mem_append_left _ hy))
      exact Runs.since_concat.mpr (Or.inr ⟨hrest, by simpa using hx⟩)

/-- Commands that leave the field alone do not change its last write. -/
lemma LastWrite.of_append {u : String} {f : Field} {v : String} {cmds cmds' : List (ℕ × Cmd)}
    (h : LastWrite u f v (cmds ++ cmds')) (h' : ∀ x ∈ cmds', writesField u f x.2 = false) :
    LastWrite u f v cmds := by
  induction cmds' using List.reverseRecOn with
  | nil => rwa [List.append_nil] at h
  | append_singleton cmds' x ih =>
    rw [← List.append_assoc] at h
    rcases Runs.since_concat.mp h with hx | ⟨h, -⟩
    · have hnot := h' x (by simp)
      simp [hx, writesField] at hnot
    · exact ih h (fun y hy => h' y (List.mem_append_left _ hy))

/-- A value that was not there at the start was written. -/
lemma lastWrite_of_hget {u : String} {f : Field} {v : String} {store : Store} (h₀ : store.hget u f ≠ some v)
    {cmds : List (ℕ × Cmd)} (h : (execLine store cmds).hget u f = some v) : LastWrite u f v cmds := by
  induction cmds using Runs.history_induction with
  | h0 => exact absurd h h₀
  | hs cmds x ih =>
    rw [execLine_concat] at h
    refine Runs.since_concat.mpr ?_
    by_cases hx : writesField u f x.2 = false
    · rw [hget_exec_of_not_writesField hx] at h
      exact Or.inr ⟨ih h, hx⟩
    · obtain ⟨i, cmd⟩ := x
      cases cmd with
      | hset k f' v' =>
        obtain ⟨rfl, rfl⟩ : k = u ∧ f' = f := by simpa [writesField] using hx
        left
        simpa using h
      | del k =>
        obtain rfl : k = u := by simpa [writesField] using hx
        simp [HashStore.hget_del] at h
      | _ => exact absurd rfl hx

section

variable (store : Store) (sessions : ℕ → Session)

def isAdmin : Event → Bool
  | .spawn _ | .adminStep _ _ => true
  | _ => false

/-- Without the command line tool the store is what the executed commands made of it. -/
lemma store_eq_execLine (es : List Event) (h : ∀ e ∈ es, isAdmin e = false) :
    (runFrom store sessions es).store = execLine store (executedLine (runFrom store sessions es).log) := by
  induction es using List.reverseRecOn with
  | nil => rfl
  | append_singleton es e ih =>
    have ih := ih (fun e' he' => h e' (by simp [he']))
    have hw := wellFormed_runFrom store sessions es
    rw [runFrom_concat]
    generalize runFrom store sessions es = s at ih hw
    cases e with
    | arrive sid req now =>
      rw [step_arrive]
      simpa [Server.commit, Server.enter, executedLine_append, executedLine_observations] using ih
    | exec =>
      cases hq : s.queue with
      | nil => rwa [step_exec_nil .process hq]
      | cons p rest =>
        rw [step_exec_cons .process hq, executedLine_perform, execLine_concat, ← ih]
        rfl
    | deliver now =>
      cases hr : s.replies with
      | nil => rwa [step_deliver_nil .process hr]
      | cons a rest =>
        obtain ⟨t, ht, -⟩ := hw.head_task hr
        rw [step_deliver_cons .process hr ht]
        simpa [Server.commit, executedLine_append, executedLine_observations] using ih
    | spawn argv | adminStep =>
      have he := h _ (List.mem_append_right _ List.mem_cons_self)
      cases he

end

end ExpressAuth.Proofs
