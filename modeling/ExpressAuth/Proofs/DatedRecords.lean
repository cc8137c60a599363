import ExpressAuth.Proofs.Bursts

/-!
# Dated records

Every writer stores `timestamp` before it sets `valid` to `"False"`. In a run whose segments and
invocations are executed in one piece, an address that waits for confirmation therefore has a
timestamp in every state, and `GET /verify`, which reads both fields in one piece, reads it.
-/

namespace ExpressAuth.Proofs
open Server AdminTool

/-- A text that a clock reading is stored as. -/
def ClockText (text : String) : Prop := ∃ n, text = numberText n ∨ text = floatText n

lemma ClockText.ne_null {text : String} (h : ClockText text) : text ≠ "null" := by
  have hdigits : ∀ n, 'n' ∉ (numberText n).toList := by
    intro n hn
    have hdigit := isDigit_of_mem_numberText hn
    simp [Char.isDigit] at hdigit
  obtain ⟨n, rfl | rfl⟩ := h
  · intro heq
    exact hdigits n (by simp [heq])
  · intro heq
    have hn : 'n' ∈ (floatText n).toList := by simp [heq]
    rw [floatText, String.toList_append, List.mem_append] at hn
    rcases hn with hn | hn
    · exact hdigits n hn
    · simp at hn

/-- An address that waits for confirmation has a timestamp, and timestamps are clock readings. -/
structure Dated (store : Store) : Prop where
  pending : ∀ u, store.hget u .valid = some "False" → store.hget u .timestamp ≠ none
  text : ∀ u text, store.hget u .timestamp = some text → ClockText text

lemma dated_empty : Dated ∅ := ⟨fun u h => by simp at h, fun u text h => by simp at h⟩

/-- A command keeps the store dated if it stores clock readings only and asks for confirmation
only where there is a timestamp. -/
lemma Dated.exec {store : Store} (h : Dated store) {cmd : Cmd}
    (hvalid : ∀ u, cmd = .hset u .valid "False" → store.hget u .timestamp ≠ none)
    (htext : ∀ u text, cmd = .hset u .timestamp text → ClockText text) : Dated (cmd.exec store).1 := by
  cases cmd with
  | hset k f v =>
    constructor
    · intro u hu
      simp only [Cmd.exec, HashStore.hget_hset] at hu ⊢
      have hkept : store.hget u .timestamp ≠ none := by
        split_ifs at hu with hc
        · obtain ⟨rfl, rfl⟩ := hc
          exact hvalid u (by rw [Option.some.inj hu])
        · exact h.pending u hu
      split_ifs
      · simp
      · exact hkept
    · intro u text hu
      simp only [Cmd.exec, HashStore.hget_hset] at hu
      split_ifs at hu with hc
      · obtain ⟨rfl, rfl⟩ := hc
        exact htext u text (by rw [Option.some.inj hu])
      · exact h.text u text hu
  | del k =>
    constructor
    · intro u hu
      simp only [Cmd.exec, HashStore.hget_del] at hu ⊢
      split_ifs at hu ⊢ with hk
      exact h.pending u hu
    · intro u text hu
      simp only [Cmd.exec, HashStore.hget_del] at hu
      split_ifs at hu
      exact h.text u text hu
  | _ => exact h

/-! ### Invocations -/

/-- The action writes neither `timestamp` nor `valid`. -/
def calmAction : Action → Bool
  | .run (.hset _ .timestamp _) | .run (.hset _ .valid _) => false
  | _ => true

/-- An invocation writes `timestamp` and directly after it `valid`. -/
inductive Phase : Proc → Prop
  | keys {username found missing} (hfound : ∀ a ∈ found, calmAction a = true)
      (hmissing : ∀ a ∈ missing, calmAction a = true) : Phase (.keys username found missing)
  | list : Phase .list
  | calm {actions} (h : ∀ a ∈ actions, calmAction a = true) : Phase (.todo actions)
  | timestamp {u n rest} (h : ∀ a ∈ rest, calmAction a = true) :
      Phase (.todo (.run (.hset u .timestamp (floatText n)) :: .run (.hset u .valid "False") :: rest))
  | valid {u rest} (h : ∀ a ∈ rest, calmAction a = true) : Phase (.todo (.run (.hset u .valid "False") :: rest))

/-- Where the invocation is about to write `valid`, the timestamp is there. -/
def Ready (store : Store) (proc : Proc) : Prop :=
  ∀ u rest, proc = .todo (.run (.hset u .valid "False") :: rest) → store.hget u .timestamp ≠ none

lemma phase_main (argv : List String) : Phase (main argv) := by
  have hhelp : Phase helpAndExit := .calm (by simp [calmAction])
  rcases argv with _ | ⟨opt, args⟩
  · exact hhelp
  simp only [main]
  split_ifs
  · exact hhelp
  · split
    · exact .keys (by simp [calmAction]) (by simp [calmAction])
    · exact hhelp
  · split
    · exact .keys (by simp [calmAction]) (by simp [calmAction])
    · exact hhelp
  · split
    · exact .keys (by simp [calmAction]) (by simp [calmAction])
    · exact hhelp
  · exact .list
  · split
    · exact .calm (by simp [calmAction])
    · exact .calm (by simp [calmAction])
  · exact hhelp

lemma ready_of_calm {store : Store} {actions : List Action} (h : ∀ a ∈ actions, calmAction a = true) :
    Ready store (.todo actions) := by
  intro u rest hproc
  rw [Proc.todo.injEq] at hproc
  have hcalm := h (.run (.hset u .valid "False")) (by simp [hproc])
  cases hcalm

/-- One step of an invocation keeps the store dated. -/
lemma Phase.step {proc : Proc} (h : Phase proc) {store : Store} (hstore : Dated store) (hready : Ready store proc)
    (now : ℕ) :
    Phase (proc.step store now).2.1 ∧ Dated (proc.step store now).1 ∧
      Ready (proc.step store now).1 (proc.step store now).2.1 := by
  cases h with
  | keys hfound hmissing =>
    rename_i username found missing
    have hcalm : ∀ a ∈ afterKeys store username found missing, calmAction a = true := by
      unfold afterKeys
      split_ifs
      exacts [by simp [calmAction], hmissing, hfound]
    exact ⟨.calm hcalm, hstore, ready_of_calm hcalm⟩
  | list =>
    have hcalm : ∀ a ∈ (Store.matching store "*").map Action.showRecord, calmAction a = true := by
      intro a ha
      obtain ⟨u, -, rfl⟩ := List.mem_map.mp ha
      rfl
    exact ⟨.calm hcalm, hstore, ready_of_calm hcalm⟩
  | timestamp hrest =>
    rename_i u n rest
    refine ⟨.valid hrest, hstore.exec (by simp) ?_, ?_⟩
    · rintro u' text ⟨⟩
      exact ⟨n, Or.inr rfl⟩
    · rintro u' rest' ⟨⟩
      simp [Proc.step]
  | valid hrest =>
    rename_i u rest
    refine ⟨.calm hrest, hstore.exec ?_ (by simp), ready_of_calm hrest⟩
    rintro u' ⟨⟩
    exact hready u rest rfl
  | calm hactions =>
    rename_i actions
    cases actions with
    | nil => exact ⟨.calm (by simp), hstore, ready_of_calm (by simp)⟩
    | cons a rest =>
      have hrest : ∀ a ∈ rest, calmAction a = true := fun b hb => hactions b (List.mem_cons_of_mem a hb)
      cases a with
      | run cmd =>
        have hcmd := hactions (.run cmd) List.mem_cons_self
        refine ⟨.calm hrest, hstore.exec ?_ ?_, ready_of_calm hrest⟩
        · rintro u rfl
          cases hcmd
        · rintro u text rfl
          cases hcmd
      | createMail username mail =>
        refine ⟨.timestamp ?_, hstore, ?_⟩
        · simpa [calmAction] using hrest
        · rintro u rest' ⟨⟩
      | raise exception => exact ⟨.calm (by simp), hstore, ready_of_calm (by simp)⟩
      | writeFile | showRecord | print => exact ⟨.calm hrest, hstore, ready_of_calm hrest⟩

lemma main_ne (argv : List String) (u : String) (rest : List Action) :
    main argv ≠ .todo (.run (.hset u .valid "False") :: rest) := by
  rcases argv with _ | ⟨opt, args⟩
  · simp [main, helpAndExit]
  simp only [main]
  split_ifs <;> (try split) <;> simp [helpAndExit]

/-! ### The connection -/

/-- `valid` in the session of the request `i`. -/
def seenValid (s : Server) (i : ℕ) : JsVal := ((s.tasks i).map (fun t => t.session.valid)).getD .undefined

lemma seenValid_commit (s : Server) (i : ℕ) (t : Task) (c : Ctx) :
    seenValid (s.commit .process i t c) i = c.session.valid := by
  simp [seenValid, commit_task]

/-- `valid` as the request `i` will have it in its session once all replies are delivered. -/
def knownValid (s : Server) (i : ℕ) : JsVal :=
  match s.replies.getLast? with
  | none => seenValid s i
  | some a => a.reply.obj

/-- Before the second reply of a confirmation stands the first, and they fit together. -/
def ReadTogether (a b : Answer) : Prop :=
  b.callback = .verifyTimestamp →
    a.task = b.task ∧ a.callback = .verifyValid ∧ (a.reply.obj = .str "False" → b.reply.obj ≠ .null)

/-- Of a record that waits for confirmation no request reads, or has read, a missing timestamp. -/
structure Connection (s : Server) : Prop where
  store : Dated s.store
  queue : s.queue.IsChain Follows
  texts : ∀ p ∈ s.queue, ∀ u text, p.cmd = .hset u .timestamp text → ClockText text
  replies : s.replies.IsChain ReadTogether
  decided : ∀ a ∈ s.replies.head?, a.callback = .verifyTimestamp → seenValid s a.task = .str "False" →
    a.reply.obj ≠ .null
  reading : ∀ p ∈ s.queue.head?, p.callback = .verifyTimestamp → ∃ uid, p.cmd = .hget uid .timestamp ∧
    (∀ a ∈ s.replies.getLast?, a.task = p.task ∧ a.callback = .verifyValid) ∧
    (knownValid s p.task = .str "False" → s.store.hget uid .valid = some "False")
  writing : ∀ p ∈ s.queue.head?, ∀ u, p.cmd = .hset u .valid "False" → s.store.hget u .timestamp ≠ none

namespace Connection

/-- The reply to the second read of a confirmation. -/
lemma reply_ne_null {s : Server} (h : Connection s) {p : Pending} (hp : p ∈ s.queue.head?)
    (hcb : p.callback = .verifyTimestamp) (hknown : knownValid s p.task = .str "False") :
    (p.cmd.exec s.store).2.obj ≠ .null := by
  obtain ⟨uid, hcmd, -, hvalid⟩ := h.reading p hp hcb
  have hstamp := h.store.pending uid (hvalid hknown)
  rw [hcmd]
  cases ht : s.store.hget uid .timestamp with
  | none => exact absurd ht hstamp
  | some text => simp [ht, JsVal.ofReply]

lemma exec {s : Server} (h : Connection s) {p : Pending} {rest : List Pending} (hq : s.queue = p :: rest) :
    Connection (s.perform p rest) := by
  have hp : p ∈ s.queue.head? := by simp [hq]
  have hmem : ∀ q ∈ rest, q ∈ s.queue := fun q hqr => hq ▸ List.mem_cons_of_mem p hqr
  have hchain : (p :: rest).IsChain Follows := hq ▸ h.queue
  have hfollows : ∀ q ∈ rest.head?, Follows p q := by
    intro q hqr
    cases rest with
    | nil => cases hqr
    | cons q' rest =>
      obtain rfl : q' = q := by simpa using hqr
      exact (List.isChain_cons_cons.mp hchain).1
  refine ⟨h.store.exec (h.writing p hp) (h.texts p (hq ▸ List.mem_cons_self)), hchain.tail,
    fun q hqr => h.texts q (hmem q hqr), ?_, ?_, ?_, ?_⟩
  · refine List.isChain_append.mpr ⟨h.replies, List.isChain_singleton _, fun a ha b hb hcb => ?_⟩
    obtain rfl : (⟨p.task, p.callback, (p.cmd.exec s.store).2⟩ : Answer) = b := by simpa using hb
    obtain ⟨uid, -, hlast, -⟩ := h.reading p hp hcb
    refine ⟨(hlast a ha).1, (hlast a ha).2, fun hfalse => h.reply_ne_null hp hcb ?_⟩
    rwa [knownValid, show s.replies.getLast? = some a from ha]
  · intro a ha hcb hseen
    cases hr : s.replies with
    | cons b replies =>
      simp only [Server.perform, hr, List.cons_append, List.head?_cons, Option.mem_def, Option.some.injEq] at ha
      subst ha
      exact h.decided b (by simp [hr]) hcb hseen
    | nil =>
      simp only [Server.perform, hr, List.nil_append, List.head?_cons, Option.mem_def, Option.some.injEq] at ha
      subst ha
      refine h.reply_ne_null hp hcb ?_
      rw [knownValid, hr]
      exact hseen
  · intro q hqr hcb
    obtain ⟨htask, hvalid, uid, hcmd, hcmd'⟩ := (hfollows q hqr).2 hcb
    refine ⟨uid, hcmd', ?_, ?_⟩
    · intro a ha
      obtain rfl : (⟨p.task, p.callback, (p.cmd.exec s.store).2⟩ : Answer) = a := by
        simpa [Server.perform] using ha
      exact ⟨htask, hvalid⟩
    · intro hknown
      simp only [knownValid, Server.perform, List.getLast?_append, List.getLast?_singleton, Option.some_or,
        hcmd] at hknown
      simpa [Server.perform, hcmd] using hknown
  · intro q hqr u hcmd
    obtain ⟨text, hprev⟩ := (hfollows q hqr).1 u hcmd
    simp [Server.perform, hprev]

/-- A segment appends to the queue; what it does to the replies and to the session of its
request must fit the first command that waits. -/
lemma append {s s' : Server} (h : Connection s) {ps : List Pending} (hps : Segmented ps)
    (htexts : ∀ p ∈ ps, ∀ u text, p.cmd = .hset u .timestamp text → ClockText text) (hstore : s'.store = s.store)
    (hqueue : s'.queue = s.queue ++ ps) (hreplies : s'.replies.IsChain ReadTogether)
    (hdecided : ∀ a ∈ s'.replies.head?, a.callback = .verifyTimestamp → seenValid s' a.task = .str "False" →
      a.reply.obj ≠ .null)
    (hreading : ∀ p ∈ s.queue.head?, p.callback = .verifyTimestamp →
      (∀ a ∈ s'.replies.getLast?, a ∈ s.replies.getLast?) ∧ knownValid s' p.task = knownValid s p.task) :
    Connection s' := by
  have hhead : ∀ p ∈ s'.queue.head?, p ∈ s.queue.head? ∨ p ∈ ps.head? := by
    intro p hp
    rw [hqueue] at hp
    cases hq : s.queue with
    | nil => exact Or.inr (by simpa [hq] using hp)
    | cons q rest => exact Or.inl (by simpa [hq] using hp)
  refine ⟨hstore ▸ h.store, hqueue ▸ Segmented.append h.queue hps, ?_, hreplies, hdecided, ?_, ?_⟩
  · intro p hp
    rcases List.mem_append.mp (hqueue ▸ hp) with hp | hp
    exacts [h.texts p hp, htexts p hp]
  · intro p hp hcb
    rcases hhead p hp with hp | hp
    · obtain ⟨uid, hcmd, hlast, hvalid⟩ := h.reading p hp hcb
      obtain ⟨hsame, hknown⟩ := hreading p hp hcb
      exact ⟨uid, hcmd, fun a ha => hlast a (hsame a ha), by rwa [hknown, hstore]⟩
    · exact absurd hcb (hps.2 p hp).2
  · intro p hp u hcmd
    rcases hhead p hp with hp | hp
    · rw [hstore]
      exact h.writing p hp u hcmd
    · have hopens := (hps.2 p hp).1
      simp [hcmd, opensSegment] at hopens

lemma texts_issues {s : Server} (h : PlainNames s) {e : Event} (he : textualEvent e = true) :
    ∀ p ∈ issues s e, ∀ u text, p.cmd = .hset u .timestamp text → ClockText text := by
  intro p hp u text hcmd
  rcases mem_issues hp with ⟨sid, req, now, rfl, -, ho⟩ | ⟨now, a, rest, t, -, hr, -, -, hf⟩
  · generalize p.cmd = cmd, p.callback = callback at ho hcmd
    cases ho with
    | array harr => exact absurd harr (openingCall_ne_of_textual he (h.sessions sid))
    | createUserArray => cases he
    | updateMailTimestamp | verifyMailTimestamp =>
      simp only [Cmd.hset.injEq] at hcmd
      exact ⟨_, Or.inl hcmd.2.2.symm⟩
    | _ => simp at hcmd
  · have hb : plainCallback a.callback = true := h.callbacks _ (head_mem_inFlight hr)
    generalize a.callback = callback, p.cmd = cmd, p.callback = callback' at hf hcmd hb
    cases hf with
    | array harr => exact absurd harr (followUpCall_ne_of_plain hb h.user)
    | resetTimestamp =>
      simp only [Cmd.hset.injEq] at hcmd
      exact ⟨_, Or.inl hcmd.2.2.symm⟩
    | _ => simp at hcmd

/-- A new request leaves the sessions of the others alone. -/
lemma seenValid_arrive {s : Server} {i : ℕ} (hi : i < s.started) (sid : ℕ) (req : Request) (now : ℕ) :
    seenValid (s.step .process (.arrive sid req now)) i = seenValid s i := by
  rw [step_arrive]
  simp [seenValid, Server.commit, Server.enter, Function.update_of_ne hi.ne]

lemma arrive {s : Server} (h : Connection s) (hs : WellFormed s) (hplain : PlainNames s) {sid : ℕ} {req : Request}
    {now : ℕ} (he : textualEvent (.arrive sid req now) = true) : Connection (s.step .process (.arrive sid req now)) := by
  have hreplies : (s.step .process (.arrive sid req now)).replies = s.replies := replies_step hs (by simp)
  refine h.append (segmented_issues hplain he) (texts_issues hplain he) ?_ (queue_step hs (by simp)) ?_ ?_ ?_
  · rw [step_arrive]
    rfl
  · rw [hreplies]
    exact h.replies
  · rw [hreplies]
    intro a ha hcb hseen
    rw [seenValid_arrive (hs.replies_lt (List.mem_of_mem_head? ha))] at hseen
    exact h.decided a ha hcb hseen
  · intro p hp _
    refine ⟨by rw [hreplies]; exact fun a ha => ha, ?_⟩
    unfold knownValid
    rw [hreplies]
    split
    · exact seenValid_arrive (hs.queue_lt (List.mem_of_mem_head? hp)) sid req now
    · rfl

lemma deliver {s : Server} (h : Connection s) (hs : WellFormed s) (hplain : PlainNames s) {a : Answer}
    {rest : List Answer} (hr : s.replies = a :: rest) (now : ℕ) : Connection (s.step .process (.deliver now)) := by
  obtain ⟨t, ht, -⟩ := hs.head_task hr
  have hreplies : (s.step .process (.deliver now)).replies = rest := by
    rw [replies_step hs (by simp), hr]
    rfl
  have hchain : (a :: rest).IsChain ReadTogether := hr ▸ h.replies
  -- the first reply of a confirmation goes into the session
  have hseen : a.callback = .verifyValid → seenValid (s.step .process (.deliver now)) a.task = a.reply.obj := by
    intro hcb
    rw [step_deliver_cons .process hr ht, seenValid_commit, hcb]
    rfl
  refine h.append (segmented_issues hplain rfl) (texts_issues hplain rfl) ?_ (queue_step hs (by simp)) ?_ ?_ ?_
  · rw [step_deliver_cons .process hr ht]
    rfl
  · rw [hreplies]
    exact hchain.tail
  · rw [hreplies]
    intro b hb hcb hfalse
    cases rest with
    | nil => cases hb
    | cons b' rest =>
      obtain rfl : b' = b := by simpa using hb
      obtain ⟨htask, hvalid, hfit⟩ := (List.isChain_cons_cons.mp hchain).1 hcb
      rw [← htask, hseen hvalid] at hfalse
      exact hfit hfalse
  · intro p hp hcb
    cases rest with
    | nil =>
      obtain ⟨uid, -, hlast, -⟩ := h.reading p hp hcb
      obtain ⟨htask, hvalid⟩ := hlast a (by simp [hr])
      refine ⟨by simp [hreplies], ?_⟩
      simp only [knownValid, hreplies, hr, List.getLast?_nil, List.getLast?_singleton, ← htask]
      exact hseen hvalid
    | cons b rest =>
      refine ⟨?_, ?_⟩
      · rw [hreplies, hr, List.getLast?_cons_cons]
        exact fun a ha => ha
      · simp only [knownValid, hreplies, hr, List.getLast?_cons_cons]
        split
        · simp_all
        · rfl

/-- Between segments the store may change, as long as it stays dated. -/
lemma restore {s s' : Server} (h : Connection s) (hopens : ∀ p ∈ s.queue.head?, opensSegment p.cmd = true)
    (hstore : Dated s'.store) (hqueue : s'.queue = s.queue) (hreplies : s'.replies = s.replies)
    (htasks : s'.tasks = s.tasks) : Connection s' := by
  have hseen : seenValid s' = seenValid s := by
    funext i
    rw [seenValid, seenValid, htasks]
  refine ⟨hstore, hqueue ▸ h.queue, hqueue ▸ h.texts, hreplies ▸ h.replies, ?_, ?_, ?_⟩
  · rw [hreplies, hseen]
    exact h.decided
  · rw [hqueue]
    intro p hp hcb
    obtain ⟨uid, hcmd, -⟩ := h.reading p hp hcb
    have hopen := hopens p hp
    simp [hcmd, opensSegment] at hopen
  · rw [hqueue]
    intro p hp u hcmd
    have hopen := hopens p hp
    simp [hcmd, opensSegment] at hopen

end Connection

/-! ### Undivided runs -/

section

variable (store : Store) (sessions : ℕ → Session)

/-- Every invocation is where its phase says, and one about to write `valid` has begun. -/
structure Invocations (es : List Event) (s : Server) : Prop where
  phase : ∀ j, Phase (s.admins j)
  unstarted : Unstarted s
  ready : ∀ j, Ready s.store (s.admins j)
  begun : ∀ j u rest, s.admins j = .todo (.run (.hset u .valid "False") :: rest) → Begun store sessions j es

variable {store sessions}

lemma Begun.concat {j : ℕ} {es : List Event} (h : Begun store sessions j es) (e : Event) :
    Begun store sessions j (es ++ [e]) :=
  Runs.once_concat.mpr (Or.inl h)

/-- An invocation that is not under way does not care about the store. -/
lemma Invocations.ready_of_not_underWay {es : List Event}
    (h : Invocations store sessions es (runFrom store sessions es))
    {j : ℕ} (hj : j < (runFrom store sessions es).spawned → ¬UnderWay store sessions j es) (store' : Store) :
    Ready store' ((runFrom store sessions es).admins j) := by
  intro u rest hproc
  have hspawned : j < (runFrom store sessions es).spawned := by
    by_contra hge
    rw [h.unstarted j (not_lt.mp hge)] at hproc
    cases hproc
  exact absurd ⟨h.begun j u rest hproc, by simp [hproc]⟩ (hj hspawned)

/-- An event that touches neither the store nor the invocations. -/
lemma Invocations.segment {es : List Event} {s s' : Server} (h : Invocations store sessions es s) (e : Event)
    (hstore : s'.store = s.store) (hadmins : s'.admins = s.admins) (hspawned : s'.spawned = s.spawned) :
    Invocations store sessions (es ++ [e]) s' := by
  refine ⟨hadmins ▸ h.phase, by rw [Unstarted, hadmins, hspawned]; exact h.unstarted,
    by rw [hstore, hadmins]; exact h.ready, ?_⟩
  rw [hadmins]
  exact fun j u rest hproc => (h.begun j u rest hproc).concat e

lemma Invocations.exec {es : List Event} (h : Invocations store sessions es (runFrom store sessions es))
    (hok : Undivided store sessions es .exec) {p : Pending} {rest : List Pending} :
    Invocations store sessions (es ++ [.exec]) ((runFrom store sessions es).perform p rest) :=
  ⟨h.phase, h.unstarted, fun j => h.ready_of_not_underWay (hok j) _,
    fun j u rest hproc => (h.begun j u rest hproc).concat _⟩

lemma Invocations.spawn {es : List Event} (h : Invocations store sessions es (runFrom store sessions es))
    (argv : List String) :
    Invocations store sessions (es ++ [.spawn argv]) ((runFrom store sessions es).step .process (.spawn argv)) := by
  refine ⟨forall_admins_spawn .process h.phase (phase_main argv), h.unstarted.spawn .process argv,
    forall_admins_spawn .process h.ready (fun u rest hproc => absurd hproc (main_ne argv u rest)), ?_⟩
  intro j u rest hproc
  by_cases hj : j = (runFrom store sessions es).spawned
  · subst hj
    exact absurd (by simpa [Server.step] using hproc) (main_ne argv u rest)
  · exact (h.begun j u rest (by simpa [Server.step, Function.update_of_ne hj] using hproc)).concat _

lemma Invocations.adminStep {es : List Event} (h : Invocations store sessions es (runFrom store sessions es))
    (hstore : Dated (runFrom store sessions es).store) {j now : ℕ}
    (hok : Undivided store sessions es (.adminStep j now)) :
    Dated ((runFrom store sessions es).step .process (.adminStep j now)).store ∧
      Invocations store sessions (es ++ [.adminStep j now])
        ((runFrom store sessions es).step .process (.adminStep j now)) := by
  obtain ⟨hphase, hdated, hready⟩ := (h.phase j).step hstore (h.ready j) now
  refine ⟨hdated, forall_admins_adminStep .process h.phase hphase, h.unstarted.adminStep .process j now, fun k => ?_,
    fun k u rest hproc => ?_⟩ <;> by_cases hkj : k = j
  · rw [hkj, admins_adminStep_self]
    exact hready
  · rw [admins_adminStep_of_ne _ _ hkj]
    exact h.ready_of_not_underWay (fun hk => hok.2 k hk hkj) _
  · subst hkj
    refine Runs.once_concat.mpr (Or.inr ⟨by simp [stepsInvocation], ?_⟩)
    by_contra hge
    rw [admins_adminStep_self, h.unstarted k (not_lt.mp hge)] at hproc
    cases hproc
  · rw [admins_adminStep_of_ne _ _ hkj] at hproc
    exact (h.begun k u rest hproc).concat _

variable (store sessions)

/-- In an undivided run from a dated store every state is dated, and so is what was read. -/
theorem connection_runFrom (h₀ : Dated store) (hsessions : ∀ sid, (sessions sid).user.isArray = false)
    (es : List Event) (htext : ∀ e ∈ es, textualEvent e = true) (hok : Runs.Guarded (Undivided store sessions) es) :
    Connection (runFrom store sessions es) ∧ Invocations store sessions es (runFrom store sessions es) := by
  refine Runs.guarded_induction (P := fun es => (∀ e ∈ es, textualEvent e = true) →
    Connection (runFrom store sessions es) ∧ Invocations store sessions es (runFrom store sessions es)) ?_ ?_ es hok htext
  · exact fun _ => ⟨⟨h₀, List.isChain_nil, by simp, List.isChain_nil, by simp, by simp, by simp⟩,
      ⟨fun _ => .calm (by simp), fun _ _ => rfl, fun _ => ready_of_calm (by simp), by simp⟩⟩
  · intro es e ih hok htext
    have hpre : ∀ e ∈ es, textualEvent e = true := fun e' he' => htext e' (List.mem_append_left _ he')
    obtain ⟨hc, hi⟩ := ih hpre
    have hs := wellFormed_runFrom store sessions es
    have hplain := plainNames_runFrom store hsessions hpre
    rw [runFrom_concat]
    cases e with
    | arrive sid req now =>
      obtain ⟨hstore, hadmins, hspawned⟩ := segment_frame hs (Or.inl ⟨sid, req, now, rfl⟩)
      exact ⟨hc.arrive hs hplain (htext _ (by simp)), hi.segment _ hstore hadmins hspawned⟩
    | deliver now =>
      obtain ⟨hstore, hadmins, hspawned⟩ := segment_frame hs (Or.inr ⟨now, rfl⟩)
      refine ⟨?_, hi.segment _ hstore hadmins hspawned⟩
      cases hr : (runFrom store sessions es).replies with
      | nil => rwa [step_deliver_nil .process hr]
      | cons a rest => exact hc.deliver hs hplain hr now
    | exec =>
      cases hq : (runFrom store sessions es).queue with
      | nil =>
        rw [step_exec_nil .process hq]
        exact ⟨hc, hi.segment _ rfl rfl rfl⟩
      | cons p rest =>
        rw [step_exec_cons .process hq]
        exact ⟨hc.exec hq, hi.exec hok⟩
    | spawn argv =>
      exact ⟨⟨hc.store, hc.queue, hc.texts, hc.replies, hc.decided, hc.reading, hc.writing⟩, hi.spawn argv⟩
    | adminStep j now =>
      obtain ⟨hdated, hinv⟩ := hi.adminStep hc.store hok
      exact ⟨hc.restore (fun p hp => hok.1.head store sessions hsessions hpre hp) hdated rfl rfl rfl, hinv⟩

end

end ExpressAuth.Proofs
