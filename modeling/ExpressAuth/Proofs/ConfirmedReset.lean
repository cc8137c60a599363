import ExpressAuth.Proofs.ResetOnce

/-!
# Resets against confirmed addresses

`admin.py` writes `mail` before `valid`, the web handler `valid` before `mail`, and
`POST /reset_password` reads `mail` and `valid` in two round trips. Between the two writes of
`admin.py` the new address stands next to the `"True"` of the old one.
-/

namespace ExpressAuth.Proofs
open Server AdminTool

/-! ### Invocations of `admin.py -c` and `-m` -/

/-- The invocation is `admin.py -c` or `admin.py -m` for `u`. -/
def setsMailOf (u : String) : List String → Bool
  | [opt, username, _, _] => opt = "-c" ∧ username = u
  | [opt, username, _] => opt = "-m" ∧ username = u
  | _ => false

/-- What is left of such an invocation after its `KEYS`. -/
inductive Orderly (u : String) : List Action → Prop
  | nil : Orderly u []
  | password {v rest} (h : Orderly u rest) : Orderly u (.run (.hset u .password v) :: rest)
  | mail {m m' rest} (h : Orderly u rest) : Orderly u (.run (.hset u .mail m) :: .createMail u m' :: rest)
  | createMail {m rest} (h : Orderly u rest) : Orderly u (.createMail u m :: rest)
  | timestamp {v rest} (h : Orderly u rest) :
      Orderly u (.run (.hset u .timestamp v) :: .run (.hset u .valid "False") :: rest)
  | valid {rest} (h : Orderly u rest) : Orderly u (.run (.hset u .valid "False") :: rest)
  | writeFile {file rest} (h : Orderly u rest) : Orderly u (.writeFile file :: rest)
  | print {line rest} (h : Orderly u rest) : Orderly u (.print line :: rest)
  | raise {exception rest} : Orderly u (.raise exception :: rest)

def OrderlyProc (u : String) : Proc → Prop
  | .keys _ found missing => Orderly u found ∧ Orderly u missing
  | .list => False
  | .todo actions => Orderly u actions

/-- The invocation has written `mail` of `u` and still has to write `valid`. -/
def halfway (u : String) : Proc → Bool
  | .todo (.createMail username _ :: _) => username = u
  | .todo (.run (.hset key .timestamp _) :: _) => key = u
  | .todo (.run (.hset key .valid _) :: _) => key = u
  | _ => false

/-- The next step of the invocation writes `mail` of `u`. -/
def aboutToWriteMail (u : String) : Proc → Bool
  | .todo (.run cmd :: _) => writesField u .mail cmd
  | _ => false

lemma orderlyProc_main {u : String} {argv : List String} (h : setsMailOf u argv = true) :
    OrderlyProc u (main argv) := by
  match argv, h with
  | [opt, username, password, mail], h =>
    obtain ⟨rfl, rfl⟩ : opt = "-c" ∧ username = u := of_decide_eq_true h
    exact ⟨.print .nil, .password (.mail (.print .nil))⟩
  | [opt, username, mail], h =>
    obtain ⟨rfl, rfl⟩ : opt = "-m" ∧ username = u := of_decide_eq_true h
    exact ⟨.mail (.print .nil), .print .nil⟩

/-- What one step of such an invocation does to the account of `u`. -/
inductive AdminWork (u : String) (store : Store) (proc : Proc) (store' : Store) (proc' : Proc) : Prop
  | plain (hmail : store'.hget u .mail = store.hget u .mail) (hvalid : store'.hget u .valid = store.hget u .valid)
      (hhalf : halfway u proc = true → halfway u proc' = true)
  | mail (hwrites : aboutToWriteMail u proc = true) (hvalid : store'.hget u .valid = store.hget u .valid)
      (hhalf : halfway u proc' = true)
  | valid (hmail : store'.hget u .mail = store.hget u .mail) (hvalid : store'.hget u .valid = some "False")

lemma OrderlyProc.step {u : String} {proc : Proc} (h : OrderlyProc u proc) (store : Store) (now : ℕ) :
    OrderlyProc u (proc.step store now).2.1 ∧
      AdminWork u store proc (proc.step store now).1 (proc.step store now).2.1 := by
  cases proc with
  | list => exact h.elim
  | keys username found missing =>
    refine ⟨?_, .plain rfl rfl (by simp [halfway])⟩
    change Orderly u (afterKeys store username found missing)
    unfold afterKeys
    split_ifs
    exacts [.raise, h.2, h.1]
  | todo actions =>
    change Orderly u actions at h
    cases h with
    | nil => exact ⟨.nil, .plain rfl rfl id⟩
    | password h =>
      refine ⟨h, .plain ?_ ?_ (by simp [halfway])⟩ <;> simp [Proc.step, HashStore.hget_hset]
    | mail h =>
      refine ⟨.createMail h, .mail (by simp [aboutToWriteMail, writesField]) ?_ (by simp [Proc.step, halfway])⟩
      simp [Proc.step, HashStore.hget_hset]
    | createMail h =>
      exact ⟨.timestamp (.writeFile h), .plain rfl rfl (fun _ => by simp [Proc.step, AdminTool.createMail, halfway])⟩
    | timestamp h =>
      refine ⟨.valid h, .plain ?_ ?_ (fun _ => by simp [Proc.step, halfway])⟩ <;>
        simp [Proc.step, HashStore.hget_hset]
    | valid h =>
      refine ⟨h, .valid ?_ ?_⟩ <;> simp [Proc.step, HashStore.hget_hset]
    | writeFile h => exact ⟨h, .plain rfl rfl (by simp [halfway])⟩
    | print h => exact ⟨h, .plain rfl rfl (by simp [halfway])⟩
    | raise => exact ⟨.nil, .plain rfl rfl (by simp [halfway])⟩

/-! ### Runs about one account -/

/-- Web requests that name only `u`, and `admin.py -c` and `-m` for `u`. -/
def accountEvent (u : String) (s : Server) : Event → Bool
  | .arrive sid req _ => namesOnly u (s.sessions sid) req
  | .spawn argv => setsMailOf u argv
  | _ => true

/-- Some invocation is between its writes of `mail` and `valid`. -/
def someHalfway (u : String) (s : Server) : Bool := (List.range s.spawned).any (fun j => halfway u (s.admins j))

/-- A `GET /verify` has succeeded and its write of `valid` waits. -/
def confirmWaits (u : String) (s : Server) : Bool := s.queue.any (fun p => p.cmd = .hset u .valid "True")

def isCreate (s : Server) (i : ℕ) : Bool :=
  match identity s i with
  | some (.postCreateUser _ _ _, _) => true
  | _ => false

def readsResetMail : Callback → Bool
  | .resetMail _ _ => true
  | _ => false

/-- A reset does not read `mail` halfway through an invocation while `valid` is still `"True"`;
`mail` is not written while a confirmation waits, nor by `POST /create_user` while `valid` is
`"True"`. -/
def careful (u : String) (s : Server) : Event → Bool
  | .exec =>
    match s.queue with
    | [] => true
    | p :: _ =>
      (readsResetMail p.callback = true → s.store.hget u .valid = some "True" → someHalfway u s = false) ∧
      (writesField u .mail p.cmd = true →
        confirmWaits u s = false ∧ (isCreate s p.task = true → s.store.hget u .valid ≠ some "True"))
  | .adminStep j _ => aboutToWriteMail u (s.admins j) = true → confirmWaits u s = false
  | _ => true

lemma careful_exec {u : String} {s : Server} {p : Pending} {rest : List Pending}
    (h : careful u s .exec = true) (hq : s.queue = p :: rest) :
    (readsResetMail p.callback = true → s.store.hget u .valid = some "True" → someHalfway u s = false) ∧
      (writesField u .mail p.cmd = true →
        confirmWaits u s = false ∧ (isCreate s p.task = true → s.store.hget u .valid ≠ some "True")) := by
  simpa only [careful, hq, decide_eq_true_eq] using h

/-! ### Changes of the address by the web -/

/-- Every write of `mail` by `POST /update_mail` will find `valid` different from `"True"`. -/
def ColdQueue (u : String) : Store → List Pending → Prop
  | _, [] => True
  | store, p :: rest =>
    (p.callback = .updateMailDone → store.hget u .valid ≠ some "True") ∧ ColdQueue u (p.cmd.exec store).1 rest

lemma hget_exec_of_imp {u : String} {f : Field} {v : String} {store store' : Store}
    (h : store'.hget u f = some v → store.hget u f = some v) (cmd : Cmd)
    (hget : (cmd.exec store').1.hget u f = some v) : (cmd.exec store).1.hget u f = some v := by
  by_cases hw : writesField u f cmd = true
  · cases cmd with
    | hset k f' w =>
      obtain ⟨rfl, rfl⟩ : k = u ∧ f' = f := by simpa [writesField] using hw
      simpa using hget
    | del k =>
      obtain rfl : k = u := by simpa [writesField] using hw
      simp [HashStore.hget_del] at hget
    | _ => cases hw
  · rw [hget_exec_of_not_writesField (by simpa using hw)] at hget ⊢
    exact h hget

/-- Writes from elsewhere that do not confirm leave the queue cold. -/
lemma ColdQueue.mono {u : String} {store store' : Store} {queue : List Pending} (h : ColdQueue u store queue)
    (hs : store'.hget u .valid = some "True" → store.hget u .valid = some "True") : ColdQueue u store' queue := by
  induction queue generalizing store store' with
  | nil => trivial
  | cons p rest ih => exact ⟨fun hdone hv => h.1 hdone (hs hv), ih h.2 (hget_exec_of_imp hs p.cmd)⟩

lemma ColdQueue.append {u : String} {store : Store} {queue ps : List Pending} (h : ColdQueue u store queue)
    (hps : ∀ store, ColdQueue u store ps) : ColdQueue u store (queue ++ ps) := by
  induction queue generalizing store with
  | nil => exact hps store
  | cons p rest ih => exact ⟨h.1, ih h.2⟩

lemma coldQueue_of_ne {u : String} {ps : List Pending} (h : ∀ p ∈ ps, p.callback ≠ .updateMailDone)
    (store : Store) : ColdQueue u store ps := by
  induction ps generalizing store with
  | nil => trivial
  | cons p rest ih =>
    exact ⟨fun hdone => absurd hdone (h p List.mem_cons_self),
      ih (fun q hq => h q (List.mem_cons_of_mem _ hq)) _⟩

/-- `POST /update_mail` writes `valid` before `mail` in one burst. -/
lemma coldQueue_issues {u : String} {s : Server} {e : Event} (hc : accountEvent u s e = true) (store : Store) :
    ColdQueue u store (issues s e) := by
  by_cases hupdate : ∃ sid mail secure now, e = .arrive sid (.postUpdateMail mail secure) now
  · obtain ⟨sid, mail, secure, now, rfl⟩ := hupdate
    obtain ⟨hplain, rfl⟩ := isName_iff.mp hc
    have hb := begin_eq_handler (.postUpdateMail mail secure) (by simp)
    simp [issues, segmentOf, hb, Request.handler, Routes.postUpdateMail, clientCall_hset hplain, ColdQueue]
  · refine coldQueue_of_ne (fun p hp hdone => ?_) store
    rcases mem_issues hp with ⟨sid, req, now, rfl, -, ho⟩ | ⟨now, a, rest, t, -, -, -, -, hf⟩
    · rw [hdone] at ho
      generalize p.cmd = cmd at ho
      cases ho
      exact hupdate ⟨_, _, _, _, rfl⟩
    · rw [hdone] at hf
      generalize p.cmd = cmd, a.callback = callback at hf
      cases hf

lemma webNames_of_accountEvent {u : String} {s : Server} {e : Event} (h : accountEvent u s e = true) :
    webNames u s e = true := by
  cases e with
  | arrive sid req now => exact h
  | _ => rfl

/-- A write of `mail` in the queue belongs to `POST /update_mail` or `POST /create_user`. -/
lemma mailWrite_of_issues {u : String} {s : Server} (hu : OneUser u s) (hs : WellFormed s) {e : Event}
    (hc : webNames u s e = true) {p : Pending} (hp : p ∈ issues s e) (hw : writesField u .mail p.cmd = true) :
    p.callback = .updateMailDone ∨ isCreate s p.task = true := by
  rcases mem_issues hp with ⟨sid, req, now, rfl, -, ho⟩ | ⟨now, a, rest, t, -, hr, ht, htask, hf⟩
  · left
    generalize p.cmd = cmd, p.callback = callback at ho hw
    cases ho with
    | updateMailMail => rfl
    | array harr => exact absurd harr (openingCall_ne_array (show namesOnly u (s.sessions sid) req = true from hc))
    | createUserArray => exact absurd hc (by simp [webNames, namesOnly, isName, JsVal.isArray])
    | _ => simp [writesField] at hw
  · right
    obtain ⟨t', ht', hbelongs⟩ := hs.head_task hr
    obtain rfl : t = t' := Option.some.inj (ht.symm.trans ht')
    rw [htask, isCreate, identity_of_task ht]
    have hcalls := hu.followUpCall_ne_array (head_mem_inFlight hr)
    generalize p.cmd = cmd, p.callback = callback', a.callback = callback at hf hw hbelongs hcalls
    cases hf with
    | createMail =>
      generalize t.request = req at hbelongs
      cases req <;> first | rfl | cases hbelongs
    | array harr => exact absurd harr (hcalls _ _)
    | _ => simp [writesField] at hw

lemma isCreate_step {s : Server} (hs : WellFormed s) (e : Event) {i : ℕ} (h : isCreate s i = true) :
    isCreate (s.step .process e) i = true := by
  unfold isCreate at h ⊢
  cases hid : identity s i with
  | none => simp [hid] at h
  | some id =>
    rw [identity_step hs .process e hid]
    rwa [hid] at h

section

variable (u : String) (store : Store) (sessions : ℕ → Session)

/-- A `GET /verify` for `u` renders its success. -/
def VerifySucceeds (pre : List Event) (e : Event) : Prop :=
  ∃ j token sid, identity (runFrom store sessions pre) j = some (.getVerify u token, sid) ∧
    .responded j (.render .success) ∈ observed (runFrom store sessions pre) e

/-- At some time so far `m` was the mail of `u`. -/
def MailStored (m : String) (es : List Event) : Prop :=
  ∃ pre, pre <+: es ∧ (runFrom store sessions pre).store.hget u .mail = some m

/-- A `GET /verify` for `u` succeeded after `m` was stored. -/
def MailConfirmed (m : String) : List Event → Prop :=
  Runs.Once (fun pre e => VerifySucceeds u store sessions pre e ∧ MailStored u store sessions m pre)

/-- What holds of the account of `u` after the events `es`. -/
structure Account (es : List Event) (s : Server) : Prop where
  named : OneUser u s
  mailWrites : ∀ p ∈ s.queue, writesField u .mail p.cmd = true →
    p.callback = .updateMailDone ∨ isCreate s p.task = true
  cold : ColdQueue u s.store s.queue
  procs : ∀ j, OrderlyProc u (s.admins j)
  spawned : ∀ j, s.spawned ≤ j → s.admins j = .todo []
  /-- A confirmation that waits is one of the stored address. -/
  waiting : confirmWaits u s = true → ∀ m, s.store.hget u .mail = some m → MailConfirmed u store sessions m es
  /-- The stored address is confirmed, unless it was just written by an invocation. -/
  confirmed : s.store.hget u .valid = some "True" → someHalfway u s = false →
    ∀ m, s.store.hget u .mail = some m → MailConfirmed u store sessions m es

variable {u store sessions}

lemma MailConfirmed.concat {m : String} {es : List Event} (h : MailConfirmed u store sessions m es) (e : Event) :
    MailConfirmed u store sessions m (es ++ [e]) :=
  Runs.once_concat.mpr (Or.inl h)

lemma MailStored.concat {m : String} {es : List Event} (h : MailStored u store sessions m es) (e : Event) :
    MailStored u store sessions m (es ++ [e]) := by
  obtain ⟨pre, hp, hm⟩ := h
  exact ⟨pre, hp.trans (List.prefix_append _ _), hm⟩

lemma mailStored_now {m : String} {es : List Event} (h : (runFrom store sessions es).store.hget u .mail = some m) :
    MailStored u store sessions m es :=
  ⟨es, List.prefix_refl _, h⟩

/-- A waiting confirmation waited before, or its `GET /verify` succeeds with this event. -/
lemma confirmWaits_step {es : List Event} (hu : OneUser u (runFrom store sessions es)) {e : Event}
    (hc : accountEvent u (runFrom store sessions es) e = true)
    (h : confirmWaits u ((runFrom store sessions es).step .process e) = true) :
    confirmWaits u (runFrom store sessions es) = true ∨ VerifySucceeds u store sessions es e := by
  have hs := wellFormed_runFrom store sessions es
  obtain ⟨p, hp, hcmd⟩ := List.any_eq_true.mp h
  have hcmd : p.cmd = .hset u .valid "True" := of_decide_eq_true hcmd
  have hold : p ∈ (runFrom store sessions es).queue → confirmWaits u (runFrom store sessions es) = true :=
    fun hp => List.any_eq_true.mpr ⟨p, hp, decide_eq_true hcmd⟩
  by_cases he : e = .exec
  · subst he
    left
    cases hq : (runFrom store sessions es).queue with
    | nil => rwa [step_exec_nil .process hq] at h
    | cons q rest =>
      rw [step_exec_cons .process hq] at hp
      exact hold (hq ▸ List.mem_cons_of_mem _ hp)
  · rw [queue_step hs he] at hp
    rcases List.mem_append.mp hp with hp | hp
    · exact Or.inl (hold hp)
    · obtain ⟨hflight, hresp⟩ := hu.success_of_confirm (webNames_of_accountEvent hc) hp hcmd
      obtain ⟨token, sid, hid⟩ := hu.verify _ hflight
      exact Or.inr ⟨p.task, token, sid, hid, hresp⟩

lemma someHalfway_eq_false {s : Server} :
    someHalfway u s = false ↔ ∀ j < s.spawned, halfway u (s.admins j) = false := by
  simp [someHalfway]

lemma Account.segment {es : List Event} (h : Account u store sessions es (runFrom store sessions es)) {e : Event}
    (he : (∃ sid req now, e = .arrive sid req now) ∨ ∃ now, e = .deliver now)
    (hc : accountEvent u (runFrom store sessions es) e = true) :
    Account u store sessions (es ++ [e]) ((runFrom store sessions es).step .process e) := by
  have hs := wellFormed_runFrom store sessions es
  obtain ⟨hstore, hadmins, hspawned⟩ := segment_frame hs he
  have hqueue := queue_step hs (e := e) (by rcases he with ⟨_, _, _, rfl⟩ | ⟨_, rfl⟩ <;> simp)
  have hhalfway : someHalfway u ((runFrom store sessions es).step .process e) =
      someHalfway u (runFrom store sessions es) := by
    rw [someHalfway, hadmins, hspawned]
    rfl
  refine ⟨h.named.step hs (webNames_of_accountEvent hc), fun p hp hw => ?_, ?_, by rw [hadmins]; exact h.procs,
    by rw [hadmins, hspawned]; exact h.spawned, fun hwaits m hm => ?_, fun hvalid hhalf m hm => ?_⟩
  · rw [hqueue] at hp
    have hsource := (List.mem_append.mp hp).elim (fun hp => h.mailWrites p hp hw)
      (fun hp => mailWrite_of_issues h.named hs (webNames_of_accountEvent hc) hp hw)
    exact hsource.imp_right (isCreate_step hs e)
  · rw [hstore, hqueue]
    exact h.cold.append (coldQueue_issues hc)
  · rw [hstore] at hm
    rcases confirmWaits_step h.named hc hwaits with hwaits | hsucceeds
    · exact (h.waiting hwaits m hm).concat e
    · exact Runs.once_concat.mpr (Or.inr ⟨hsucceeds, mailStored_now hm⟩)
  · rw [hstore] at hvalid hm
    exact (h.confirmed hvalid (hhalfway ▸ hhalf) m hm).concat e

/-- The write of a confirmation that waits is the only command that sets `valid` to `"True"`. -/
lemma valid_before_exec {s : Server} {p : Pending} (h : (p.cmd.exec s.store).1.hget u .valid = some "True") :
    s.store.hget u .valid = some "True" ∨ p.cmd = .hset u .valid "True" := by
  by_cases hw : writesField u .valid p.cmd = true
  · right
    generalize p.cmd = cmd at h hw
    cases cmd with
    | hset k f w =>
      obtain ⟨rfl, rfl⟩ : k = u ∧ f = .valid := by simpa [writesField] using hw
      simpa using h
    | del k =>
      obtain rfl : k = u := by simpa [writesField] using hw
      simp [HashStore.hget_del] at h
    | _ => cases hw
  · left
    rwa [hget_exec_of_not_writesField (by simpa using hw)] at h

lemma Account.exec {es : List Event} (h : Account u store sessions es (runFrom store sessions es))
    (hcareful : careful u (runFrom store sessions es) .exec = true) :
    Account u store sessions (es ++ [.exec]) ((runFrom store sessions es).step .process .exec) := by
  have hs := wellFormed_runFrom store sessions es
  have hnamed := h.named.step hs (e := .exec) rfl
  have hcreate := fun i (hi : isCreate (runFrom store sessions es) i = true) => isCreate_step hs .exec hi
  cases hq : (runFrom store sessions es).queue with
  | nil =>
    rw [step_exec_nil .process hq]
    exact ⟨h.named, h.mailWrites, h.cold, h.procs, h.spawned, fun hw m hm => (h.waiting hw m hm).concat _,
      fun hv hh m hm => (h.confirmed hv hh m hm).concat _⟩
  | cons p rest =>
    have hcareful := careful_exec hcareful hq
    have hwaitsOf : ∀ q ∈ rest, q.cmd = .hset u .valid "True" → confirmWaits u (runFrom store sessions es) = true :=
      fun q hqr hcmd => List.any_eq_true.mpr ⟨q, hq ▸ List.mem_cons_of_mem _ hqr, decide_eq_true hcmd⟩
    have hcold : ColdQueue u (runFrom store sessions es).store (p :: rest) := hq ▸ h.cold
    rw [step_exec_cons .process hq] at hnamed hcreate ⊢
    refine ⟨hnamed, fun q hqr hw => ?_, hcold.2, h.procs, h.spawned, fun hwaits m hm => ?_, fun hvalid hhalf m hm => ?_⟩
    · exact (h.mailWrites q (hq ▸ List.mem_cons_of_mem _ hqr) hw).imp_right (hcreate _)
    · obtain ⟨q, hqr, hcmd⟩ := List.any_eq_true.mp hwaits
      have hwaits := hwaitsOf q hqr (of_decide_eq_true hcmd)
      by_cases hw : writesField u .mail p.cmd = true
      · simp [(hcareful.2 hw).1] at hwaits
      · refine (h.waiting hwaits m ?_).concat _
        rwa [← hget_exec_of_not_writesField (by simpa using hw)]
    · rcases valid_before_exec hvalid with hbefore | hcmd
      · by_cases hw : writesField u .mail p.cmd = true
        · rcases h.mailWrites p (hq ▸ List.mem_cons_self) hw with hdone | hcreates
          · exact absurd hbefore (hcold.1 hdone)
          · exact absurd hbefore ((hcareful.2 hw).2 hcreates)
        · refine (h.confirmed hbefore hhalf m ?_).concat _
          rwa [← hget_exec_of_not_writesField (by simpa using hw)]
      · have hwaits : confirmWaits u (runFrom store sessions es) = true :=
          List.any_eq_true.mpr ⟨p, hq ▸ List.mem_cons_self, decide_eq_true hcmd⟩
        have hw : writesField u .mail p.cmd = false := by simp [hcmd, writesField]
        refine (h.waiting hwaits m ?_).concat _
        rwa [← hget_exec_of_not_writesField hw]

/-- A step of an invocation that is not halfway afterwards left the address to the confirmation
before it. -/
lemma Account.confirmed_adminStep {es : List Event} (h : Account u store sessions es (runFrom store sessions es))
    {j now : ℕ}
    (hvalid : ((runFrom store sessions es).step .process (.adminStep j now)).store.hget u .valid = some "True")
    (hhalf : someHalfway u ((runFrom store sessions es).step .process (.adminStep j now)) = false) {m : String}
    (hm : ((runFrom store sessions es).step .process (.adminStep j now)).store.hget u .mail = some m) :
    MailConfirmed u store sessions m es := by
  have hwork := ((h.procs j).step (runFrom store sessions es).store now).2
  rw [someHalfway_eq_false] at hhalf
  cases hwork with
  | plain hmail hv hkeeps =>
    refine h.confirmed (hv ▸ hvalid) (someHalfway_eq_false.mpr fun i hi => ?_) m (hmail ▸ hm)
    have hafter := hhalf i hi
    by_cases hij : i = j
    · rw [hij, admins_adminStep_self] at hafter
      by_contra hne
      simp [hkeeps (by rw [← hij]; simpa using hne)] at hafter
    · rwa [admins_adminStep_of_ne _ _ hij] at hafter
  | mail hwrites hv hhalfway =>
    -- the address was written just now: this invocation is halfway
    have hj : j < (runFrom store sessions es).spawned := by
      by_contra hge
      simp [h.spawned j (not_lt.mp hge), aboutToWriteMail] at hwrites
    have hafter := hhalf j hj
    rw [admins_adminStep_self, hhalfway] at hafter
    cases hafter
  | valid _ hv => simp [hv, Server.step] at hvalid

lemma Account.adminStep {es : List Event} (h : Account u store sessions es (runFrom store sessions es)) {j now : ℕ}
    (hcareful : careful u (runFrom store sessions es) (.adminStep j now) = true) :
    Account u store sessions (es ++ [.adminStep j now])
      ((runFrom store sessions es).step .process (.adminStep j now)) := by
  have hs := wellFormed_runFrom store sessions es
  have hcareful : aboutToWriteMail u ((runFrom store sessions es).admins j) = true →
      confirmWaits u (runFrom store sessions es) = false := of_decide_eq_true hcareful
  obtain ⟨hproc, hwork⟩ := (h.procs j).step (runFrom store sessions es).store now
  have hcold : (((runFrom store sessions es).admins j).step (runFrom store sessions es).store now).1.hget u .valid =
      some "True" → (runFrom store sessions es).store.hget u .valid = some "True" := by
    intro hv
    cases hwork with
    | plain _ hvalid _ | mail _ hvalid _ => rwa [hvalid] at hv
    | valid _ hvalid => simp [hvalid] at hv
  refine ⟨h.named.step hs rfl, fun p hp hw => (h.mailWrites p hp hw).imp_right (isCreate_step hs _), h.cold.mono hcold,
    forall_admins_adminStep .process h.procs hproc, Unstarted.adminStep h.spawned .process j now, fun hwaits m hm => ?_,
    fun hvalid hhalf m hm => (h.confirmed_adminStep hvalid hhalf hm).concat _⟩
  cases hwork with
  | plain hmail _ _ | valid hmail _ => exact (h.waiting hwaits m (hmail ▸ hm)).concat _
  | mail hwrites _ _ =>
    have hnone : confirmWaits u (runFrom store sessions es) = true := hwaits
    simp [hcareful hwrites] at hnone

lemma Account.spawn {es : List Event} (h : Account u store sessions es (runFrom store sessions es))
    {argv : List String} (hc : setsMailOf u argv = true) :
    Account u store sessions (es ++ [.spawn argv]) ((runFrom store sessions es).step .process (.spawn argv)) := by
  have hs := wellFormed_runFrom store sessions es
  refine ⟨h.named.step hs rfl, h.mailWrites, h.cold, forall_admins_spawn .process h.procs (orderlyProc_main hc),
    Unstarted.spawn h.spawned .process argv, fun hw m hm => (h.waiting hw m hm).concat _,
    fun hvalid hhalf m hm => (h.confirmed hvalid (someHalfway_eq_false.mpr fun i hi => ?_) m hm).concat _⟩
  have hafter := someHalfway_eq_false.mp hhalf i (Nat.lt_succ_of_lt hi)
  simpa [Server.step, Function.update_of_ne hi.ne] using hafter

variable (u store sessions)

/-- The condition on the events of a run. -/
def AccountStep (pre : List Event) (e : Event) : Prop :=
  accountEvent u (runFrom store sessions pre) e = true ∧ careful u (runFrom store sessions pre) e = true

instance (pre : List Event) (e : Event) : Decidable (AccountStep u store sessions pre e) :=
  inferInstanceAs (Decidable (_ ∧ _))

lemma account_runFrom (h₀ : store.hget u .valid ≠ some "True") (es : List Event)
    (h : Runs.Guarded (AccountStep u store sessions) es) :
    Account u store sessions es (runFrom store sessions es) := by
  induction es using Runs.history_induction with
  | h0 =>
    exact ⟨oneUser_init u store sessions, by simp [runFrom], trivial, fun _ => .nil, fun _ _ => rfl,
      by simp [runFrom, confirmWaits], fun hvalid => absurd hvalid h₀⟩
  | hs es e ih =>
    obtain ⟨hc, hcareful⟩ := h.last
    have ih := ih h.init
    rw [runFrom_concat]
    cases e with
    | arrive sid req now => exact ih.segment (Or.inl ⟨sid, req, now, rfl⟩) hc
    | deliver now => exact ih.segment (Or.inr ⟨now, rfl⟩) hc
    | exec => exact ih.exec hcareful
    | spawn argv => exact ih.spawn hc
    | adminStep j now => exact ih.adminStep hcareful

/-! ### The two reads of a reset -/

/-- `m` was stored, and if the account is or is about to be confirmed, a confirmation followed. -/
def MailKnown (m : String) (es : List Event) : Prop :=
  MailStored u store sessions m es ∧
    ((runFrom store sessions es).store.hget u .valid = some "True" ∨ confirmWaits u (runFrom store sessions es) = true →
      MailConfirmed u store sessions m es)

/-- What the commands and answers of a reset say about the address it was given. -/
def resetFlow : Flow where
  queued es p :=
    match p.callback with
    | .resetMail mail secure => p.cmd = .hget u .mail ∧
      ∃ username sid, Arrived store sessions p.task sid (.postResetPassword username mail secure) es
    | .resetValid _ => p.cmd = .hget u .valid ∧ ∃ username mail secure sid,
      Arrived store sessions p.task sid (.postResetPassword username mail secure) es ∧
        ∀ m, mail = .str m → MailKnown u store sessions m es
    | _ => True
  answered es a :=
    match a.callback with
    | .resetMail mail secure =>
      (∃ username sid, Arrived store sessions a.task sid (.postResetPassword username mail secure) es) ∧
        ∀ m, a.reply.obj = .str m → MailKnown u store sessions m es
    | .resetValid _ => ∃ username mail secure sid,
      Arrived store sessions a.task sid (.postResetPassword username mail secure) es ∧
        (a.reply.obj = .str "True" → ∀ m, mail = .str m → MailConfirmed u store sessions m es)
    | _ => True
  session _ _ _ := True

variable {u store sessions}

/-- `valid` turns to `"True"` only through a confirmation that waits. -/
lemma Account.valid_step {es : List Event} (h : Account u store sessions es (runFrom store sessions es)) {e : Event}
    (hv : ((runFrom store sessions es).step .process e).store.hget u .valid = some "True") :
    (runFrom store sessions es).store.hget u .valid = some "True" ∨
      confirmWaits u (runFrom store sessions es) = true := by
  have hs := wellFormed_runFrom store sessions es
  cases e with
  | arrive sid req now => exact Or.inl ((segment_frame hs (Or.inl ⟨sid, req, now, rfl⟩)).1 ▸ hv)
  | deliver now => exact Or.inl ((segment_frame hs (Or.inr ⟨now, rfl⟩)).1 ▸ hv)
  | spawn argv => exact Or.inl hv
  | exec =>
    cases hq : (runFrom store sessions es).queue with
    | nil =>
      rw [step_exec_nil .process hq] at hv
      exact Or.inl hv
    | cons p rest =>
      rw [step_exec_cons .process hq] at hv
      refine (valid_before_exec hv).imp_right fun hcmd => ?_
      exact List.any_eq_true.mpr ⟨p, hq ▸ List.mem_cons_self, decide_eq_true hcmd⟩
  | adminStep j now =>
    change (((runFrom store sessions es).admins j).step (runFrom store sessions es).store now).1.hget u .valid = _ at hv
    left
    cases ((h.procs j).step (runFrom store sessions es).store now).2 with
    | plain _ hvalid _ | mail _ hvalid _ => rwa [hvalid] at hv
    | valid _ hvalid => simp [hvalid] at hv

lemma MailKnown.concat {m : String} {es : List Event} (h : MailKnown u store sessions m es)
    (ha : Account u store sessions es (runFrom store sessions es)) {e : Event}
    (hc : accountEvent u (runFrom store sessions es) e = true) : MailKnown u store sessions m (es ++ [e]) := by
  refine ⟨h.1.concat e, fun hhot => ?_⟩
  rw [runFrom_concat] at hhot
  rcases hhot with hvalid | hwaits
  · exact (h.2 (ha.valid_step hvalid)).concat e
  · rcases confirmWaits_step ha.named hc hwaits with hwaits | hsucceeds
    · exact (h.2 (Or.inr hwaits)).concat e
    · exact Runs.once_concat.mpr (Or.inr ⟨hsucceeds, h.1⟩)

/-- The address a careful reset reads is known. -/
lemma mailKnown_of_read {es : List Event} (ha : Account u store sessions es (runFrom store sessions es))
    (hhalf : (runFrom store sessions es).store.hget u .valid = some "True" →
      someHalfway u (runFrom store sessions es) = false) {m : String}
    (hm : (runFrom store sessions es).store.hget u .mail = some m) : MailKnown u store sessions m es := by
  refine ⟨mailStored_now hm, ?_⟩
  rintro (hvalid | hwaits)
  · exact ha.confirmed hvalid (hhalf hvalid) m hm
  · exact ha.waiting hwaits m hm

variable (u store sessions)

lemma resetFlow_sound :
    (resetFlow u store sessions).Sound store sessions (fun es e => AccountStep u store sessions es e ∧
      Account u store sessions es (runFrom store sessions es)) := by
  refine ⟨fun _ => trivial, ?_, ?_, fun _ _ _ _ _ _ => trivial, ?_, ?_, ?_⟩
  · rintro es e ⟨⟨hc, -⟩, ha⟩ h ⟨i, cmd, callback⟩ hp
    have hold := h.queue _ hp
    cases callback with
    | resetMail mail secure =>
      obtain ⟨hcmd, username, sid, harr⟩ := hold
      exact ⟨hcmd, username, sid, harr.concat e⟩
    | resetValid secure =>
      obtain ⟨hcmd, username, mail, secure', sid, harr, hknown⟩ := hold
      exact ⟨hcmd, username, mail, secure', sid, harr.concat e, fun m hm => (hknown m hm).concat ha hc⟩
    | _ => trivial
  · rintro es e ⟨⟨hc, -⟩, ha⟩ h ⟨i, callback, reply⟩ hr
    have hold := h.replies _ hr
    cases callback with
    | resetMail mail secure =>
      obtain ⟨⟨username, sid, harr⟩, hknown⟩ := hold
      exact ⟨⟨username, sid, harr.concat e⟩, fun m hm => (hknown m hm).concat ha hc⟩
    | resetValid secure =>
      obtain ⟨username, mail, secure', sid, harr, hconfirmed⟩ := hold
      exact ⟨username, mail, secure', sid, harr.concat e, fun htrue m hm => (hconfirmed htrue m hm).concat e⟩
    | _ => trivial
  · rintro es sid req now ⟨⟨hc, -⟩, ha⟩ h
    refine ⟨trivial, fun cmd callback ho => ?_⟩
    cases ho with
    | @resetMail username mail secure =>
      obtain ⟨-, rfl⟩ := isName_iff.mp hc
      exact ⟨rfl, username, sid, arrived_concat store sessions es sid _ now⟩
    | _ => trivial
  · rintro es ⟨i, cmd, callback⟩ rest ⟨⟨hc, hcareful⟩, ha⟩ h hq
    have hold := h.queue _ (hq ▸ List.mem_cons_self)
    cases callback with
    | resetMail mail secure =>
      obtain ⟨rfl, username, sid, harr⟩ := hold
      refine ⟨⟨username, sid, harr.concat _⟩, fun m hm => ?_⟩
      exact (mailKnown_of_read ha ((careful_exec hcareful hq).1 rfl) (hget_eq_of_obj hm)).concat ha hc
    | resetValid secure =>
      obtain ⟨rfl, username, mail, secure', sid, harr, hknown⟩ := hold
      refine ⟨username, mail, secure', sid, harr.concat _, fun htrue m hm => ?_⟩
      exact ((hknown m hm).2 (Or.inl (hget_eq_of_obj htrue))).concat _
    | _ => trivial
  · rintro es now ⟨i, callback, reply⟩ rest t ⟨⟨hc, -⟩, ha⟩ h hr ht
    refine ⟨trivial, fun cmd callback' hf => ?_⟩
    have hold := h.replies _ (hr ▸ List.mem_cons_self)
    cases hf with
    | @resetMail mail secure hobj =>
      obtain ⟨-, huser⟩ := isName_iff.mp (ha.named.user (head_mem_inFlight hr) rfl)
      obtain ⟨⟨username, sid, harr⟩, hknown⟩ := hold
      refine ⟨by simp only [huser], username, mail, secure, sid, harr.concat _, fun m hm => ?_⟩
      exact (hknown m (hobj.trans hm)).concat ha hc
    | _ => trivial

/-! ### Links that are mailed -/

lemma run_passwordFiles {callback : Callback} {r : Reply} {c : Ctx} (hissued : c.issued = []) (hfiles : c.files = [])
    (h : (callback.run r c).files.countP (isPasswordFile u) ≠ 0) :
    ∃ secure, callback = .resetValid secure ∧ r.obj = .str "True" := by
  have hbalance := run_reset_balance callback u r hissued hfiles
  cases callback with
  | resetValid secure =>
    rcases (resetValid_spec secure r.obj c).2 with ⟨htrue, -⟩ | ⟨-, hf⟩
    · exact ⟨secure, rfl, htrue⟩
    · simp only [Callback.run, hf, hfiles, List.countP_nil, ne_eq, not_true_eq_false] at h
  | resetMail mail secure =>
    simp only [Callback.run, Routes.resetMail] at h
    split at h <;> simp [hfiles] at h
  | _ =>
    simp only [isReset, Bool.toNat_false] at hbalance
    omega

/-- A link that was not mailed before is mailed by the callback of a reset that found `"True"`. -/
lemma mem_issuers_step {s : Server} (hs : WellFormed s) {e : Event} (hc : webNames u s e = true) {i : ℕ}
    (hi : i ∈ issuers u (s.step .process e)) :
    i ∈ issuers u s ∨ ∃ a rest secure, s.replies = a :: rest ∧ a.task = i ∧ a.callback = .resetValid secure ∧
      a.reply.obj = .str "True" := by
  cases e with
  | arrive sid req now =>
    have hnone := begin_passwordFiles u (c := { now, vars := s.vars, session := s.sessions sid }) hc rfl
    rw [issuers_of_log (log_arrive s sid req now), hnone] at hi
    exact Or.inl (by simpa using hi)
  | exec =>
    left
    cases hq : s.queue with
    | nil => rwa [step_exec_nil .process hq] at hi
    | cons p rest => simpa [step_exec_cons .process hq, Server.perform, issuers, issuer] using hi
  | deliver now =>
    cases hr : s.replies with
    | nil =>
      rw [step_deliver_nil .process hr] at hi
      exact Or.inl hi
    | cons a rest =>
      obtain ⟨t, ht, -⟩ := hs.head_task hr
      rw [issuers_of_log (log_deliver hr ht now)] at hi
      rcases List.mem_append.mp hi with hi | hi
      · exact Or.inl hi
      · obtain ⟨hne, rfl⟩ := List.mem_replicate.mp hi
        obtain ⟨secure, hcb, hobj⟩ := run_passwordFiles u rfl rfl hne
        exact Or.inr ⟨a, rest, secure, rfl, rfl, hcb, hobj⟩
  | spawn argv => exact Or.inl hi
  | adminStep j now =>
    left
    have hnone : ∀ outputs : List AdminTool.Output, (outputs.map (observeAdmin j)).filterMap (issuer u) = [] := by
      intro outputs
      rw [List.filterMap_eq_nil_iff]
      intro o ho
      obtain ⟨output, -, rfl⟩ := List.mem_map.mp ho
      cases output <;> rfl
    simpa [issuers, Server.step, hnone] using hi

/-- Every mailed reset link was asked for with an address that had been stored and confirmed
afterwards: in every run about the account of `u` whose steps are careful. -/
theorem reset_mail_confirmed (h₀ : store.hget u .valid ≠ some "True") (es : List Event)
    (h : Runs.Guarded (AccountStep u store sessions) es) {i sid : ℕ} {username : JsVal} {m : String} {secure : Bool}
    (hid : identity (runFrom store sessions es) i = some (.postResetPassword username (.str m) secure, sid))
    (hi : i ∈ issuers u (runFrom store sessions es)) : MailConfirmed u store sessions m es := by
  have hflow : ∀ pre, pre <+: es → (resetFlow u store sessions).Holds pre (runFrom store sessions pre) := by
    intro pre hpre
    refine (resetFlow_sound u store sessions).holds pre fun pre' e hp => ⟨h pre' e (hp.trans hpre), ?_⟩
    exact account_runFrom u store sessions h₀ pre'
      (h.mono ((List.prefix_append _ _).trans (hp.trans hpre)))
  have hmailed : ∀ pre, pre <+: es → i ∈ issuers u (runFrom store sessions pre) →
      ∃ username mail secure sid, Arrived store sessions i sid (.postResetPassword username mail secure) pre ∧
        ∀ m, mail = .str m → MailConfirmed u store sessions m pre := by
    intro pre
    induction pre using Runs.history_induction with
    | h0 => exact fun _ hi => by simp [runFrom, issuers] at hi
    | hs pre e ih =>
      intro hpre hi
      have hinit := (List.prefix_append pre [e]).trans hpre
      have hs := wellFormed_runFrom store sessions pre
      rw [runFrom_concat] at hi
      rcases mem_issuers_step u hs (webNames_of_accountEvent (h pre e hpre).1) hi with
        hi | ⟨a, rest, secure, hr, rfl, hcb, hobj⟩
      · obtain ⟨username, mail, secure, sid, harr, hm⟩ := ih hinit hi
        exact ⟨username, mail, secure, sid, harr.concat e, fun m hmail => (hm m hmail).concat e⟩
      · have hanswered := (hflow pre hinit).replies a (hr ▸ List.mem_cons_self)
        simp only [resetFlow, hcb] at hanswered
        obtain ⟨username, mail, secure', sid, harr, hm⟩ := hanswered
        exact ⟨username, mail, secure', sid, harr.concat e, fun m hmail => (hm hobj m hmail).concat e⟩
  obtain ⟨username', mail, secure', sid', harr, hm⟩ := hmailed es (List.prefix_refl _) hi
  have hsame := (identity_of_arrived store sessions harr).symm.trans hid
  simp only [Option.some.injEq, Prod.mk.injEq, Request.postResetPassword.injEq] at hsame
  exact hm m hsame.1.2.1

end

/-- `alice` is created by `admin.py -c` and confirms the first address. -/
def createAndConfirm : List Event :=
  [.spawn ["-c", "alice", "secret", "alice@example.org"]] ++ List.replicate 8 (.adminStep 0 1700000000000) ++
    [.arrive 0 (.getVerify "alice" (sha256Hex "1700000.0")) 1700000060000, .exec, .exec, .deliver 1700000060000,
      .deliver 1700000060000, .exec, .deliver 1700000060000]

/-- A reset with the given address, run to the point where the link is mailed. -/
def resetWith (mail : String) : List Event :=
  [.arrive 1 (.postResetPassword (.str "alice") (.str mail) true) 1700000120000, .exec, .deliver 1700000120000,
    .exec, .deliver 1700000120000]

theorem reset_mail_confirmed_alice :
    let es := createAndConfirm ++ resetWith "alice@example.org"
    Runs.Guarded (AccountStep "alice" ∅ (fun _ => {})) es ∧ 1 ∈ issuers "alice" (runFrom ∅ (fun _ => {}) es) ∧
      MailConfirmed "alice" ∅ (fun _ => {}) "alice@example.org" es := by
  intro es
  have hg : Runs.Guarded (AccountStep "alice" ∅ (fun _ => {})) es := Runs.guarded_of_forall_lt (by decide +kernel)
  have hid : identity (runFrom ∅ (fun _ => {}) es) 1 =
      some (.postResetPassword (.str "alice") (.str "alice@example.org") true, 1) := by decide +kernel
  have hi : 1 ∈ issuers "alice" (runFrom ∅ (fun _ => {}) es) := by decide +kernel
  exact ⟨hg, hi, reset_mail_confirmed "alice" ∅ (fun _ => {}) (by decide) es hg hid hi⟩

def isSuccess : Observation → Bool
  | .responded _ (.render .success) => true
  | _ => false

/-- If `m` was not stored up to the event `n₀` and no `GET /verify` succeeded later, `m` is not confirmed. -/
lemma not_mailConfirmed {u m : String} {store : Store} {sessions : ℕ → Session} {es : List Event} (n₀ : ℕ)
    (hstored : ∀ k ≤ n₀, (runFrom store sessions (es.take k)).store.hget u .mail ≠ some m)
    (hlater : ∀ n (hn : n < es.length), n₀ < n →
      ∀ o ∈ observed (runFrom store sessions (es.take n)) (es.get ⟨n, hn⟩), isSuccess o = false) :
    ¬MailConfirmed u store sessions m es := by
  rintro ⟨pre, e, ⟨post, rfl⟩, ⟨j, token, sid, -, hsuccess⟩, pre', ⟨between, rfl⟩, hm⟩
  by_cases hn : n₀ < (pre' ++ between).length
  · have hnone := hlater (pre' ++ between).length (by simp) hn
    simp only [List.append_assoc, List.get_eq_getElem] at hnone
    have htake : (pre' ++ (between ++ ([e] ++ post))).take (pre' ++ between).length = pre' ++ between := by
      rw [← List.append_assoc, List.take_left]
    have hget : (pre' ++ (between ++ ([e] ++ post)))[(pre' ++ between).length]? = some e := by
      rw [← List.append_assoc, List.getElem?_append_right le_rfl]
      simp
    rw [htake] at hnone
    have hsame := List.getElem?_eq_some_iff.mp hget
    obtain ⟨hlt, hsame⟩ := hsame
    rw [hsame] at hnone
    simpa [isSuccess] using hnone _ hsuccess
  · have hk : pre'.length ≤ n₀ := by
      simp only [List.length_append] at hn
      omega
    have hne := hstored pre'.length hk
    rw [List.append_assoc, List.append_assoc, List.take_left] at hne
    exact hne hm

/-- `admin.py -m` stores a new address, and before it resets `valid` a reset with that address runs. -/
def resetHalfway : List Event :=
  createAndConfirm ++ [.spawn ["-m", "alice", "mallory@example.org"], .adminStep 1 1700000120000,
    .adminStep 1 1700000120000] ++ resetWith "mallory@example.org"

/-- A link is mailed for an address that nobody confirmed. -/
theorem reset_mail_unconfirmed :
    Runs.Guarded (fun pre e => accountEvent "alice" (runFrom ∅ (fun _ => {}) pre) e = true) resetHalfway ∧
      identity (runFrom ∅ (fun _ => {}) resetHalfway) 1 =
        some (.postResetPassword (.str "alice") (.str "mallory@example.org") true, 1) ∧
      1 ∈ issuers "alice" (runFrom ∅ (fun _ => {}) resetHalfway) ∧
      ¬MailConfirmed "alice" ∅ (fun _ => {}) "mallory@example.org" resetHalfway :=
  ⟨Runs.guarded_of_forall_lt (by decide +kernel), by decide +kernel, by decide +kernel,
    not_mailConfirmed 16 (by decide +kernel) (by decide +kernel)⟩

end ExpressAuth.Proofs
