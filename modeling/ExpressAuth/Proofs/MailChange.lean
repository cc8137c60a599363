import ExpressAuth.Proofs.OneUser

/-!
# Changes of the address against confirmations in flight

`POST /update_mail` issues its three writes in one burst, but `GET /verify` checks in one round
trip and writes in a later one. A confirmation that checked before the burst and writes after it
undoes the `"False"` of the new address.
-/

namespace ExpressAuth.Proofs
open Server

/-- Both reads of task `j` stand in the line with no change of the address after them. -/
def Fresh (u : String) (cmds : List (ℕ × Cmd)) (j : ℕ) : Prop :=
  Runs.Since (fun _ x => x = (j, .hget u .valid)) (fun _ x => writesField u .mail x.2 = false) cmds ∧
  Runs.Since (fun _ x => x = (j, .hget u .timestamp)) (fun _ x => writesField u .mail x.2 = false) cmds

lemma Fresh.append {u : String} {cmds cmds' : List (ℕ × Cmd)} {j : ℕ} (h : Fresh u cmds j)
    (h' : ∀ x ∈ cmds', writesField u .mail x.2 = false) : Fresh u (cmds ++ cmds') j :=
  ⟨h.1.append (fun x hx _ => h' x hx), h.2.append (fun x hx _ => h' x hx)⟩

/-- Confirmations rest on fresh reads, and the address changes only when it is unconfirmed. -/
def InPlace (u : String) (before : List (ℕ × Cmd)) (x : ℕ × Cmd) : Prop :=
  (writesField u .valid x.2 = true →
    x.2 = .hset u .valid "False" ∨ x.2 = .hset u .valid "True" ∧ Fresh u before x.1) ∧
  (writesField u .mail x.2 = true → LastWrite u .valid "False" before)

/-- The commands an event about the account of `u` issues, by what they mean for its address. -/
inductive MailWork (u : String) (s : Server) (e : Event) : List Pending → Prop
  | plain {ps} (h : ∀ p ∈ ps, writesField u .valid p.cmd = false ∧ writesField u .mail p.cmd = false ∧
      p.callback ≠ .verifyTimestamp) : MailWork u s e ps
  | verify : MailWork u s e
      [⟨s.started, .hget u .valid, .verifyValid⟩, ⟨s.started, .hget u .timestamp, .verifyTimestamp⟩]
  | updateMail {sid mail secure now text} (he : e = .arrive sid (.postUpdateMail mail secure) now) :
      MailWork u s e [⟨s.started, .hset u .timestamp text, .ignore⟩, ⟨s.started, .hset u .valid "False", .ignore⟩,
        ⟨s.started, .hset u .mail mail.toText, .updateMailDone⟩]
  | confirm {j} (hj : (j, .verifyTimestamp) ∈ inFlight s)
      (hlog : .responded j (.render .success) ∈ (s.step .process e).log) :
      MailWork u s e [⟨j, .hset u .valid "True", .ignore⟩]

lemma FollowUp.plain {u : String} {c : Ctx} {r : Reply} {callback callback' : Callback} {cmd : Cmd}
    (h : FollowUp c r callback cmd callback') (hb : Proofs.aboutAccount callback = true)
    (hv : callback ≠ .verifyTimestamp)
    (harr : ∀ name items, followUpCall c.vars.user callback ≠ some (name, .array items)) :
    writesField u .valid cmd = false ∧ writesField u .mail cmd = false ∧ callback' ≠ .verifyTimestamp := by
  cases h with
  | array h => exact absurd h (harr _ _)
  | _ => simp_all [Proofs.aboutAccount, writesField]

lemma mailWork_arrive {u : String} {s : Server} {sid now : ℕ} {req : Request}
    (hc : concerns u s (.arrive sid req now) = true) :
    MailWork u s (.arrive sid req now) (issues s (.arrive sid req now)) := by
  have hb := begin_eq_handler req (by rintro url rfl; cases hc)
  simp only [issues, segmentOf, hb]
  cases req with
  | getVerify uid token =>
    obtain rfl : uid = u := of_decide_eq_true hc
    exact .verify
  | postUpdateMail mail secure =>
    obtain ⟨hplain, rfl⟩ := isName_iff.mp hc
    simp only [Request.handler, Routes.postUpdateMail, Ctx.hset_issued, Ctx.writeFile_issued, List.nil_append,
      clientCall_hset hplain]
    exact .updateMail rfl
  | postResetPassword username mail secure =>
    obtain ⟨hplain, -⟩ := isName_iff.mp hc
    exact .plain (by simp [Request.handler, Routes.postResetPassword, clientCall_hget hplain, writesField])
  | getNewPassword uid token =>
    exact .plain (by simp [Request.handler, Routes.getNewPassword, writesField])
  | _ => cases hc

lemma mailWork_deliver {u : String} {s : Server} (h : LinksOnly u s) (hs : WellFormed s) (now : ℕ) :
    MailWork u s (.deliver now) (issues s (.deliver now)) := by
  cases hr : s.replies with
  | nil => exact .plain (by simp [issues, segmentOf, hr])
  | cons a rest =>
    obtain ⟨t, ht, -⟩ := hs.head_task hr
    have hhead := head_mem_inFlight hr
    have hissues := issues_deliver hr ht now
    by_cases hv : a.callback = .verifyTimestamp
    · have hrun : a.callback.run a.reply { now, vars := s.vars, session := t.session } =
          Routes.verifyTimestamp a.reply.obj { now, vars := s.vars, session := t.session } := by
        rw [hv, Callback.run]
      rw [hrun] at hissues
      rcases (verifyTimestamp_spec a.reply.obj { now, vars := s.vars, session := t.session }).2 with
        ⟨-, hissued, -⟩ | ⟨hissued, -⟩
      · obtain ⟨hplain, huser⟩ := isName_iff.mp (h.user hhead (by rw [hv]; rfl))
        rw [hissued, clientCall_hset hplain, huser] at hissues
        have hsuccess := h.success_of_confirm (e := .deliver now) rfl
          (hissues ▸ List.mem_singleton_self _ : ⟨a.task, .hset u .valid "True", .ignore⟩ ∈ issues s (.deliver now)) rfl
        rw [hissues]
        exact .confirm hsuccess.1 (List.mem_of_mem_drop hsuccess.2)
      · rw [hissues, hissued]
        exact .plain (by simp)
    · refine .plain fun p hp => ?_
      rw [hissues] at hp
      obtain ⟨q, hq, rfl⟩ := List.mem_map.mp hp
      exact (run_issued a.callback a.reply _ rfl q hq).plain (h.callbacks _ hhead) hv (h.followUpCall_ne_array hhead)

lemma mailWork {u : String} {s : Server} (h : LinksOnly u s) (hs : WellFormed s) {e : Event}
    (hc : concerns u s e = true) : MailWork u s e (issues s e) := by
  cases e with
  | arrive sid req now => exact mailWork_arrive hc
  | deliver now => exact mailWork_deliver h hs now
  | _ => exact .plain (by simp [issues, segmentOf])

/-- The invariant of the line of commands, of the checks in flight and of the confirmations. -/
structure MailChange (u : String) (s : Server) : Prop where
  line : Runs.Guarded (InPlace u) (line s)
  fresh : ∀ j, (j, .verifyTimestamp) ∈ inFlight s → Fresh u (Proofs.line s) j
  confirmed : ∀ j, (j, .hset u .valid "True") ∈ Proofs.line s →
    .responded j (.render .success) ∈ s.log ∧ ∃ token sid, identity s j = some (.getVerify u token, sid)

/-- No `GET /verify` waits for its timestamp when a change of the address arrives. -/
def undisturbed (s : Server) : Event → Bool
  | .arrive _ (.postUpdateMail _ _) _ => (inFlight s).all (fun x => x.2 ≠ .verifyTimestamp)
  | _ => true

lemma inPlace_of_not_writes {u : String} {x : ℕ × Cmd} (hvalid : writesField u .valid x.2 = false)
    (hmail : writesField u .mail x.2 = false) (before : List (ℕ × Cmd)) : InPlace u before x :=
  ⟨by simp [hvalid], by simp [hmail]⟩

/-- The burst of a change of the address stands in place wherever it is issued. -/
lemma guarded_burst {u text mail : String} {i : ℕ} {cmds : List (ℕ × Cmd)} (h : Runs.Guarded (InPlace u) cmds) :
    Runs.Guarded (InPlace u)
      (cmds ++ [(i, .hset u .timestamp text), (i, .hset u .valid "False"), (i, .hset u .mail mail)]) := by
  have h₁ := h.concat (inPlace_of_not_writes (x := (i, .hset u .timestamp text))
    (by simp [writesField]) (by simp [writesField]) cmds)
  have h₂ := h₁.concat (e := (i, .hset u .valid "False")) ⟨fun _ => Or.inl rfl, by simp [writesField]⟩
  have h₃ := h₂.concat (e := (i, .hset u .mail mail))
    ⟨by simp [writesField], fun _ => Runs.since_concat.mpr (Or.inl rfl)⟩
  simpa using h₃

lemma fresh_of_reads (u : String) (cmds : List (ℕ × Cmd)) (j : ℕ) :
    Fresh u (cmds ++ [(j, .hget u .valid), (j, .hget u .timestamp)]) j := by
  have hsplit : cmds ++ [(j, Cmd.hget u .valid), (j, .hget u .timestamp)] =
      cmds ++ [(j, .hget u .valid)] ++ [(j, .hget u .timestamp)] := by simp
  rw [hsplit]
  exact ⟨Runs.since_concat.mpr (Or.inr ⟨Runs.since_concat.mpr (Or.inl rfl), rfl⟩),
    Runs.since_concat.mpr (Or.inl rfl)⟩

/-- Confirmations already in the line stay answered. -/
lemma MailChange.confirmed_step {u : String} {s : Server} (h : MailChange u s) (hs : WellFormed s) (e : Event)
    (hnew : ∀ p ∈ issues s e, p.cmd = .hset u .valid "True" →
      .responded p.task (.render .success) ∈ (s.step .process e).log ∧
        ∃ token sid, identity s p.task = some (.getVerify u token, sid)) :
    ∀ j, (j, .hset u .valid "True") ∈ Proofs.line (s.step .process e) →
      .responded j (.render .success) ∈ (s.step .process e).log ∧
        ∃ token sid, identity (s.step .process e) j = some (.getVerify u token, sid) := by
  intro j hj
  rw [line_step hs, List.mem_append] at hj
  rcases hj with hj | hj
  · obtain ⟨hlog, token, sid, hid⟩ := h.confirmed j hj
    exact ⟨mem_log_step hs e hlog, token, sid, identity_step hs .process e hid⟩
  · obtain ⟨p, hp, hpj⟩ := List.mem_map.mp hj
    obtain ⟨rfl, hcmd⟩ := Prod.mk.inj hpj
    obtain ⟨hlog, token, sid, hid⟩ := hnew p hp hcmd
    exact ⟨hlog, token, sid, identity_step hs .process e hid⟩

/-- Where the address is not written, the checks in flight stay fresh if the new ones are. -/
lemma MailChange.fresh_step {u : String} {s : Server} (h : MailChange u s) (hs : WellFormed s) (e : Event)
    (hmail : ∀ p ∈ issues s e, writesField u .mail p.cmd = false)
    (hnew : ∀ p ∈ issues s e, p.callback = .verifyTimestamp → Fresh u (Proofs.line (s.step .process e)) p.task) :
    ∀ j, (j, .verifyTimestamp) ∈ inFlight (s.step .process e) → Fresh u (Proofs.line (s.step .process e)) j := by
  intro j hj
  rcases mem_inFlight_step hs e hj with hj | ⟨p, hp, hpj⟩
  · rw [line_step hs]
    refine (h.fresh j hj).append fun x hx => ?_
    obtain ⟨p, hp, rfl⟩ := List.mem_map.mp hx
    exact hmail p hp
  · obtain ⟨rfl, hcallback⟩ := Prod.mk.inj hpj
    exact hnew p hp hcallback.symm

theorem MailChange.step {u : String} {s : Server} (h : MailChange u s) (hu : LinksOnly u s) (hs : WellFormed s)
    {e : Event} (hc : concerns u s e = true) (hd : undisturbed s e = true) :
    MailChange u (s.step .process e) := by
  have hconfirmed := h.confirmed_step hs e
  have hfresh := h.fresh_step hs e
  have hline := line_step hs e
  have hflight := fun x (hx : x ∈ inFlight (s.step .process e)) => mem_inFlight_step hs e hx
  have hwork := mailWork hu hs hc
  generalize issues s e = ps at hconfirmed hfresh hline hflight hwork
  cases hwork with
  | plain hps =>
    refine ⟨?_, hfresh (fun p hp => (hps p hp).2.1) fun p hp hv => absurd hv (hps p hp).2.2,
      hconfirmed fun p hp hcmd => ?_⟩
    · rw [hline]
      refine h.line.append fun x hx before => ?_
      obtain ⟨p, hp, rfl⟩ := List.mem_map.mp hx
      exact inPlace_of_not_writes (hps p hp).1 (hps p hp).2.1 before
    · have hw := (hps p hp).1
      simp [hcmd, writesField] at hw
  | verify =>
    refine ⟨?_, hfresh (by simp [writesField]) fun p hp _ => ?_, hconfirmed (by simp)⟩
    · rw [hline]
      exact h.line.append (by simp [InPlace, writesField])
    · have htask : p.task = s.started := by
        rcases List.mem_pair.mp hp with rfl | rfl <;> rfl
      rw [htask, hline]
      exact fresh_of_reads u _ _
  | updateMail he =>
    subst he
    have hnone : ∀ j, (j, .verifyTimestamp) ∉ inFlight s := fun j hj => by
      simpa using List.all_eq_true.mp hd _ hj
    refine ⟨?_, fun j hj => ?_, hconfirmed (by simp)⟩
    · rw [hline]
      exact guarded_burst h.line
    · rcases hflight _ hj with hj | ⟨p, hp, hpj⟩
      · exact absurd hj (hnone j)
      · simp at hp
        rcases hp with rfl | rfl | rfl <;> simp at hpj
  | confirm hj hlog =>
    rename_i j
    refine ⟨?_, hfresh (by simp [writesField]) (by simp), hconfirmed (by simpa using ⟨hlog, hu.verify j hj⟩)⟩
    rw [hline]
    exact h.line.concat ⟨fun _ => Or.inr ⟨rfl, h.fresh j hj⟩, by simp [writesField]⟩

/-- Behind a change of the address, `valid` is `"False"` or a confirmation read after the change. -/
lemma valid_after_mail {u m : String} {i : ℕ} {pre cmds : List (ℕ × Cmd)}
    (h : Runs.Guarded (InPlace u) (pre ++ [(i, .hset u .mail m)] ++ cmds)) :
    LastWrite u .valid "False" (pre ++ [(i, .hset u .mail m)] ++ cmds) ∨
      ∃ j, (j, .hset u .valid "True") ∈ cmds ∧ (j, .hget u .valid) ∈ cmds ∧ (j, .hget u .timestamp) ∈ cmds := by
  induction cmds using Runs.history_induction with
  | h0 =>
    rw [List.append_nil] at h ⊢
    have hlast := h.last.2 (by simp [writesField])
    exact Or.inl (Runs.since_concat.mpr (Or.inr ⟨hlast, by simp [writesField]⟩))
  | hs cmds x ih =>
    rw [← List.append_assoc] at h ⊢
    by_cases hx : writesField u .valid x.2 = true
    · rcases h.last.1 hx with hfalse | ⟨htrue, hvalid, htimestamp⟩
      · exact Or.inl (Runs.since_concat.mpr (Or.inl hfalse))
      · -- the reads stand behind the write of the address, which they may not cross
        obtain ⟨y, hy, rfl⟩ := Runs.exists_mem_of_since (by simp) (by simp [writesField]) hvalid
        obtain ⟨z, hz, rfl⟩ := Runs.exists_mem_of_since (by simp) (by simp [writesField]) htimestamp
        exact Or.inr ⟨x.1, by simp [← htrue], by simp [hy], by simp [hz]⟩
    · rcases ih h.init with hlast | ⟨j, htrue, hvalid, htimestamp⟩
      · exact Or.inl (Runs.since_concat.mpr (Or.inr ⟨hlast, by simpa using hx⟩))
      · exact Or.inr ⟨j, by simp [htrue], by simp [hvalid], by simp [htimestamp]⟩

/-- Task `j` is a successful `GET /verify` for `u` whose reads are among the observations. -/
structure ConfirmedBy (u : String) (s : Server) (observed : List Observation) (j : ℕ) : Prop where
  request : ∃ token sid, identity s j = some (.getVerify u token, sid)
  valid : ∃ r, .executed (.task j) (.hget u .valid) r ∈ observed
  timestamp : ∃ r, .executed (.task j) (.hget u .timestamp) r ∈ observed
  success : .responded j (.render .success) ∈ s.log

/-- After every executed change of the address, `valid` is `"False"` unless a `GET /verify` whose
reads were executed after the change succeeded. The write of `mail` is the last of the three. -/
def MailChangeKept (u : String) (s : Server) : Prop :=
  ∀ before i m r observed, s.log = before ++ .executed (.task i) (.hset u .mail m) r :: observed →
    s.store.hget u .valid = some "False" ∨ ∃ j, ConfirmedBy u s observed j

section

variable (u : String) (store : Store) (sessions : ℕ → Session)

lemma mailChange_runFrom (es : List Event)
    (h : Runs.Guarded (fun pre e => concerns u (runFrom store sessions pre) e = true ∧
      undisturbed (runFrom store sessions pre) e = true) es) :
    LinksOnly u (runFrom store sessions es) ∧ MailChange u (runFrom store sessions es) := by
  refine Runs.guarded_induction (P := fun es =>
    LinksOnly u (runFrom store sessions es) ∧ MailChange u (runFrom store sessions es)) ?_ ?_ es h
  · exact ⟨linksOnly_init u store sessions, fun pre x hx => by simp [line, executedLine, runFrom] at hx,
      by simp [inFlight, runFrom], by simp [line, executedLine, runFrom]⟩
  · rintro es e ⟨hu, hm⟩ ⟨hc, hd⟩
    have hs := wellFormed_runFrom store sessions es
    rw [runFrom_concat]
    exact ⟨hu.step hs hc, hm.step hu hs hc hd⟩

/-- No change of the address is lost to a confirmation in flight: in every run of requests about
`u` in which `POST /update_mail` never overtakes a `GET /verify` waiting for its timestamp. -/
theorem mail_change_kept (es : List Event)
    (h : Runs.Guarded (fun pre e => concerns u (runFrom store sessions pre) e = true ∧
      undisturbed (runFrom store sessions pre) e = true) es) :
    MailChangeKept u (runFrom store sessions es) := by
  intro before i m r observed hlog
  obtain ⟨-, hm⟩ := mailChange_runFrom u store sessions es h
  have hexecuted : executedLine (runFrom store sessions es).log =
      executedLine before ++ [(i, .hset u .mail m)] ++ executedLine observed := by
    rw [hlog, ← List.singleton_append, executedLine_append, executedLine_append, List.append_assoc]
    rfl
  have hguarded := hm.line.mono (List.prefix_append _ _)
  rw [hexecuted] at hguarded
  rcases valid_after_mail hguarded with hlast | ⟨j, htrue, hvalid, htimestamp⟩
  · left
    rw [store_eq_execLine store sessions es ?_, hexecuted]
    · exact hlast.hget store
    · intro e he
      obtain ⟨pre, post, rfl⟩ := List.append_of_mem he
      exact isAdmin_of_concerns (h pre e ⟨post, by simp⟩).1
  · have hline : (j, .hset u .valid "True") ∈ line (runFrom store sessions es) :=
      List.mem_append_left _ (by rw [hexecuted]; exact List.mem_append_right _ htrue)
    obtain ⟨hsuccess, hrequest⟩ := hm.confirmed j hline
    exact Or.inr ⟨j, hrequest, mem_of_executedLine hvalid, mem_of_executedLine htimestamp, hsuccess⟩

end

/-- `alice` is registered and the first address is not confirmed yet. -/
def unconfirmedAlice : Store :=
  HashStore.writes ∅ [("alice", .mail, "alice@example.org"), ("alice", .timestamp, "1700000000"),
    ("alice", .valid, "False")]

/-- Session 1 belongs to `alice`. -/
def sessionOfAlice (sid : ℕ) : Session :=
  if sid = 1 then { authenticated := true, user := .str "alice" } else {}

/-- `alice` confirms the first address, changes it and confirms the new one, one after another. -/
def confirmChangeConfirm : List Event :=
  [.arrive 0 (.getVerify "alice" (sha256Hex "1700000000")) 1700000030000, .exec, .exec,
    .deliver 1700000030000, .deliver 1700000030000,
    .arrive 1 (.postUpdateMail (.str "alice@example.com") true) 1700000060000, .exec, .exec, .exec, .exec,
    .arrive 0 (.getVerify "alice" (sha256Hex "1700000060")) 1700000090000, .exec, .exec,
    .deliver 1700000090000, .deliver 1700000090000, .deliver 1700000090000, .deliver 1700000090000,
    .deliver 1700000090000, .deliver 1700000090000, .exec]

theorem mail_change_kept_alice :
    Runs.Guarded (fun pre e => concerns "alice" (runFrom unconfirmedAlice sessionOfAlice pre) e = true ∧
        undisturbed (runFrom unconfirmedAlice sessionOfAlice pre) e = true) confirmChangeConfirm ∧
      (runFrom unconfirmedAlice sessionOfAlice confirmChangeConfirm).store.hget "alice" .valid = some "True" ∧
      MailChangeKept "alice" (runFrom unconfirmedAlice sessionOfAlice confirmChangeConfirm) := by
  have hg : Runs.Guarded (fun pre e => concerns "alice" (runFrom unconfirmedAlice sessionOfAlice pre) e = true ∧
      undisturbed (runFrom unconfirmedAlice sessionOfAlice pre) e = true) confirmChangeConfirm :=
    Runs.guarded_of_forall_lt (by decide +kernel)
  exact ⟨hg, by decide +kernel, mail_change_kept "alice" _ _ _ hg⟩

/-- The change of the address arrives between the reads of a confirmation and its write. -/
def changeDuringConfirm : List Event :=
  [.arrive 0 (.getVerify "alice" (sha256Hex "1700000000")) 1700000060000, .exec, .exec,
    .arrive 1 (.postUpdateMail (.str "alice@example.com") true) 1700000060000,
    .deliver 1700000060000, .deliver 1700000060000, .exec, .exec, .exec, .exec]

/-- The link of the old address confirms the new one. -/
theorem mail_change_lost :
    Runs.Guarded (fun pre e => concerns "alice" (runFrom unconfirmedAlice sessionOfAlice pre) e = true)
        changeDuringConfirm ∧
      ¬MailChangeKept "alice" (runFrom unconfirmedAlice sessionOfAlice changeDuringConfirm) := by
  refine ⟨Runs.guarded_of_forall_lt (by decide +kernel), fun h => ?_⟩
  have hlog : (runFrom unconfirmedAlice sessionOfAlice changeDuringConfirm).log =
      (runFrom unconfirmedAlice sessionOfAlice changeDuringConfirm).log.take 7 ++
        .executed (.task 1) (.hset "alice" .mail "alice@example.com") (.int 0) ::
          [.executed (.task 0) (.hset "alice" .valid "True") (.int 0)] := by decide +kernel
  rcases h _ _ _ _ _ hlog with hfalse | ⟨j, hj⟩
  · exact absurd hfalse (by decide +kernel)
  · obtain ⟨r, hr⟩ := hj.valid
    simp at hr

end ExpressAuth.Proofs
