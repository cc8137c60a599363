import ExpressAuth.Proofs.ResetLinks
import ExpressAuth.Proofs.VerifyLinks

/-!
# How long links live

Reset links, verification links and both kinds of handlers share the one `timestamp` of a
record. What keeps a link alive, what ends it and how often it can be used all follow from
the operations that write `timestamp`, `valid` and `new_password`.
-/

namespace ExpressAuth.Proofs

/-! ### Reset links -/

/-- The operation opens a reset link of `u`, issues a newer one or deletes `u`. -/
def endsResetLink (u : String) (s : Site) : Op → Bool
  | .web sid (.getNewPassword uid token) now => uid = u ∧ Opens s sid uid token now
  | .web _ (.postResetPassword username mail _) _ => username.toText = u ∧ ResetIssues s.store username mail
  | op => nameDeleted op = some u

/-- The record of `u` holds an open reset link issued at the clock reading `issued`. -/
structure LinkOpen (u : String) (issued : ℕ) (s : Site) : Prop where
  timestamp : s.store.hget u .timestamp = some (numberText (seconds issued))
  flag : s.store.hget u .newPassword = some "True"

lemma linkOpen_of_issues {u token : String} {s : Site} (hs : s.Textual) {op : Op} (hop : op.textual = true)
    (h : IssuesResetLink u token s op) : token = tokenAt op.now ∧ LinkOpen u op.now (s.step op) := by
  obtain ⟨text, hreset, rfl⟩ := (issuesResetLink_iff hop).mp h
  match op, hop, hreset with
  | .web sid (.postResetPassword username mail secure) now, hop, hreset =>
    simp only [resetText, Option.ite_none_right_eq_some, Option.some.injEq] at hreset
    obtain ⟨⟨rfl, hi⟩, rfl⟩ := hreset
    have hreq : (Request.postResetPassword username mail secure).textual = true := hop
    have hstore := step_web_store hs hreq sid now
    refine ⟨rfl, ?_, ?_⟩ <;> simp [hstore, writesOf, hi, HashStore.hget_hset]

/-- An open link survives every operation that does not end it and issues no verification link. -/
lemma LinkOpen.step {u : String} {issued : ℕ} {s : Site} (hs : s.Textual) {op : Op} (hop : op.textual = true)
    (h : LinkOpen u issued s) (hend : endsResetLink u s op = false) (hlink : linkText u s op = none) :
    LinkOpen u issued (s.step op) := by
  obtain ⟨ht, hf⟩ := h
  have hr := recordStep u hs hop
  suffices hkept : record (s.step op).store u .timestamp = record s.store u .timestamp ∧
      record (s.step op).store u .newPassword = record s.store u .newPassword from
    ⟨hkept.1.trans ht, hkept.2.trans hf⟩
  generalize record (s.step op).store u = r at hr
  cases hr with
  | kept | updatePassword | newPassword | createUser | verify | adminPassword => simp [writeFields]
  | updateMail hu => simp [linkText, verifyLink, hu] at hlink
  | verifyMail => simp [linkText, verifyLink] at hlink
  | adminCreate ho hk => simp [linkText, verifyLink, ho, hk] at hlink
  | adminMail ho hk => simp [linkText, verifyLink, ho, hk] at hlink
  | reset hu hi => simp [endsResetLink, hu, hi] at hend
  | openLink ho => simp [endsResetLink, opens_iff, ho] at hend
  | adminDelete ho => simp [endsResetLink, nameDeleted, adminDeletes, ho] at hend

/-- A reset link opens until it is half an hour old in whole seconds, in every run without arrays
for user names in which it is not opened, no newer one is issued, the user is not deleted, no
verification link of the user is issued and Redis answers. -/
theorem reset_link_stable (s : Site) (hs : s.Textual) (u token : String) (op : Op) (hop : op.textual = true)
    (hissue : IssuesResetLink u token s op) (ops : List Op) (htext : ∀ op' ∈ ops, op'.textual = true)
    (hend : Runs.Guarded (fun pre op' => endsResetLink u (Runs.after Site.step (s.step op) pre) op' = false) ops)
    (hok : Runs.Guarded (fun pre op' => linkText u (Runs.after Site.step (s.step op) pre) op' = none ∧
      keysAnswered (Runs.after Site.step (s.step op) pre) op' = true) ops)
    (sid now : ℕ) (hnow : seconds now < seconds op.now + 1800) :
    Opens (Runs.after Site.step (s.step op) ops) sid u token now := by
  obtain ⟨rfl, hopen⟩ := linkOpen_of_issues hs hop hissue
  have hopen : LinkOpen u op.now (Runs.after Site.step (s.step op) ops) := by
    induction ops using Runs.history_induction with
    | h0 => exact hopen
    | hs ops op' ih =>
      have hpre : ∀ op' ∈ ops, op'.textual = true := fun o ho => htext o (List.mem_append_left _ ho)
      have hsite := textual_after (textual_step hs hop) hpre
      rw [Runs.after_concat]
      exact (ih hpre hend.init hok.init).step hsite (htext op' (by simp)) hend.last hok.last.1
  refine opens_iff.mpr ⟨?_, ?_, hopen.flag⟩
  · rw [timestampText, hopen.timestamp]
    rfl
  · rw [hopen.timestamp]
    exact (age_lessThan_iff (stringNumber_numberText _) now 1800).mpr hnow

/-- `POST /reset_password` of `alice`, whose address is confirmed. -/
def resetAlice (now : ℕ) : Op := .web 1 (.postResetPassword (.str "alice") (.str "alice@example.org") true) now

lemma resetAlice_issues (now : ℕ) :
    IssuesResetLink "alice" (tokenAt now) (site aliceRegistered) (resetAlice now) := by
  have hchecks : ResetIssues (site aliceRegistered).store (.str "alice") (.str "alice@example.org") := by decide +kernel
  refine (issuesResetLink_iff rfl).mpr ⟨numberText (seconds now), ?_, rfl⟩
  simp [resetAlice, resetText, hchecks]

/-- A login and a verification mail of another user leave the link alone to its last second. -/
theorem reset_link_stable_alice :
    Opens (site (aliceRegistered ++ [resetAlice 1700000120000,
      .web 2 (.postLogin (.str "alice") (.str "secret")) 1700000180000, .web 3 (.postVerifyMail "bob") 1700000240000]))
      4 "alice" (tokenAt 1700000120000) 1700001919000 := by
  have hopens := reset_link_stable (site aliceRegistered) (textual_site (by decide)) "alice" _ (resetAlice 1700000120000)
    rfl (resetAlice_issues _)
    [.web 2 (.postLogin (.str "alice") (.str "secret")) 1700000180000, .web 3 (.postVerifyMail "bob") 1700000240000]
    (by decide) (Runs.guarded_of_forall_lt (by decide +kernel)) (Runs.guarded_of_forall_lt (by decide +kernel))
    4 1700001919000 (by decide)
  rwa [← Runs.after_cons, ← Runs.after_append] at hopens

/-- A minute after the reset anybody asks for a verification mail of `alice`, and the link is dead.
A link issued late in a second is refused early in the second half an hour later. -/
theorem reset_link_lost :
    let s := (site aliceRegistered).step (resetAlice 1700000120000)
    let ops : List Op := [.web 2 (.postVerifyMail "alice") 1700000180000]
    (IssuesResetLink "alice" (tokenAt 1700000120000) (site aliceRegistered) (resetAlice 1700000120000) ∧
      Runs.Guarded (fun pre op' => endsResetLink "alice" (Runs.after Site.step s pre) op' = false) ops ∧
      (aliceRegistered ++ [resetAlice 1700000120000] ++ ops).Pairwise (fun a b => a.now ≤ b.now) ∧
      ¬Opens (Runs.after Site.step s ops) 1 "alice" (tokenAt 1700000120000) 1700000240000) ∧
    (IssuesResetLink "alice" (tokenAt 1700000120900) (site aliceRegistered) (resetAlice 1700000120900) ∧
      1700001920500 < 1700000120900 + 1800000 ∧
      ¬Opens ((site aliceRegistered).step (resetAlice 1700000120900)) 1 "alice" (tokenAt 1700000120900) 1700001920500) := by
  intro s ops
  refine ⟨⟨resetAlice_issues _, Runs.guarded_of_forall_lt (by decide +kernel), by decide, by decide +kernel⟩, ?_⟩
  exact ⟨resetAlice_issues _, by decide, by decide +kernel⟩

/-! ### Links of a pending verification -/

lemma untouched {u : String} {s : Site} {op : Op} (h : touches u s op = false) :
    issuedText u s op = none ∧ nameDeleted op ≠ some u := by
  constructor
  · cases htext : issuedText u s op with
    | none => rfl
    | some text =>
      rw [touches_of_write (timestamp_written htext)] at h
      cases h
  · rintro hd
    simp [touches, hd] at h

lemma not_issuesLink {u : String} {s : Site} (hs : s.Textual) {op : Op} (hop : op.textual = true) :
    (∀ token, ¬IssuesLink u token s op) ↔ issuedText u s op = none := by
  simp only [issuesLink_iff hs hop]
  cases issuedText u s op <;> simp

/-- The registration of `alice` on the command line. -/
def createAlice : Op := .admin ["-c", "alice", "secret", "alice@example.org"] 1700000000000

section

variable (s₀ : Site) (u : String)

/-- The stored `timestamp` is the clock text of a verification link of `u`; since then no
link of `u` was issued and `u` was not deleted. -/
def PendingLink (text : String) (ops : List Op) : Prop :=
  (Runs.after Site.step s₀ ops).store.hget u .timestamp = some text ∧
    Runs.Since (fun pre op => linkText u (Runs.after Site.step s₀ pre) op = some text)
      (fun pre op => issuedText u (Runs.after Site.step s₀ pre) op = none ∧ nameDeleted op ≠ some u) ops

/-- The last link of `u` carries `token`. -/
def LatestToken (token : String) (ops : List Op) : Prop :=
  Runs.Since (fun pre op => IssuesLink u token (Runs.after Site.step s₀ pre) op)
    (fun pre op => ∀ token', ¬IssuesLink u token' (Runs.after Site.step s₀ pre) op) ops

variable {s₀ u}

lemma PendingLink.concat {text : String} {ops : List Op} {op : Op} (h : PendingLink s₀ u text ops)
    (ht : (Runs.after Site.step s₀ (ops ++ [op])).store.hget u .timestamp =
      (Runs.after Site.step s₀ ops).store.hget u .timestamp)
    (hq : issuedText u (Runs.after Site.step s₀ ops) op = none ∧ nameDeleted op ≠ some u) :
    PendingLink s₀ u text (ops ++ [op]) :=
  ⟨ht.trans h.1, Runs.since_concat.mpr (Or.inr ⟨h.2, hq⟩)⟩

lemma pendingLink_of_link {text : String} {ops : List Op} {op : Op}
    (ht : (Runs.after Site.step s₀ (ops ++ [op])).store.hget u .timestamp = some text)
    (hl : linkText u (Runs.after Site.step s₀ ops) op = some text) : PendingLink s₀ u text (ops ++ [op]) :=
  ⟨ht, Runs.since_concat.mpr (Or.inl hl)⟩

lemma pendingLink_concat {ops : List Op} {op : Op} (hs : (Runs.after Site.step s₀ ops).Textual)
    (hop : op.textual = true)
    (ih : (Runs.after Site.step s₀ ops).store.hget u .valid = some "False" → ∃ text, PendingLink s₀ u text ops)
    (hvalid : (Runs.after Site.step s₀ (ops ++ [op])).store.hget u .valid = some "False") :
    ∃ text, PendingLink s₀ u text (ops ++ [op]) := by
  have hr := recordStep u hs hop
  rw [← Runs.after_concat Site.step] at hr
  generalize hrec : record (Runs.after Site.step s₀ (ops ++ [op])).store u = r at hr
  have hv : r .valid = some "False" := by rw [← hrec]; exact hvalid
  have ht : (Runs.after Site.step s₀ (ops ++ [op])).store.hget u .timestamp = r .timestamp := by rw [← hrec]
  cases hr with
  | kept hkept =>
    obtain ⟨text, h⟩ := ih hv
    exact ⟨text, h.concat ht (untouched hkept)⟩
  | updatePassword | newPassword | createUser | openLink =>
    obtain ⟨text, h⟩ := ih (by simpa [writeFields] using hv)
    exact ⟨text, h.concat (by simpa [writeFields] using ht) ⟨rfl, by simp [nameDeleted]⟩⟩
  | adminPassword ho =>
    obtain ⟨text, h⟩ := ih (by simpa [writeFields] using hv)
    refine ⟨text, h.concat (by simpa [writeFields] using ht) ⟨?_, ?_⟩⟩
    · simp [issuedText, linkText, verifyLink, resetText, ho]
    · simp [nameDeleted, adminDeletes, ho]
  | updateMail hu => exact ⟨_, pendingLink_of_link (by simpa [writeFields] using ht) (by simp [linkText, verifyLink, hu])⟩
  | verifyMail => exact ⟨_, pendingLink_of_link (by simpa [writeFields] using ht) (by simp [linkText, verifyLink])⟩
  | adminCreate ho hk =>
    exact ⟨_, pendingLink_of_link (by simpa [writeFields] using ht) (by simp [linkText, verifyLink, ho, hk])⟩
  | adminMail ho hk =>
    exact ⟨_, pendingLink_of_link (by simpa [writeFields] using ht) (by simp [linkText, verifyLink, ho, hk])⟩
  | verify => simp [writeFields] at hv
  | reset hu hi =>
    -- a reset is issued to a confirmed address only
    have htrue := hi.2
    rw [hu] at htrue
    simp [writeFields, record, htrue] at hv
  | adminDelete => simp at hv

variable (s₀ u)

lemma pendingLink_of_false (hs₀ : s₀.Textual) (h₀ : s₀.store.hget u .valid ≠ some "False") (ops : List Op)
    (htext : ∀ op ∈ ops, op.textual = true)
    (hvalid : (Runs.after Site.step s₀ ops).store.hget u .valid = some "False") :
    ∃ text, PendingLink s₀ u text ops := by
  induction ops using Runs.history_induction with
  | h0 => exact absurd hvalid h₀
  | hs ops op ih =>
    have hpre : ∀ op ∈ ops, op.textual = true := fun op' hop' => htext op' (List.mem_append_left _ hop')
    exact pendingLink_concat (textual_after hs₀ hpre) (htext op (by simp)) (ih hpre) hvalid

variable {s₀} in
/-- At every operation of the run the tables of issued links apply. -/
lemma guarded_textual (hs₀ : s₀.Textual) {ops : List Op} (htext : ∀ op ∈ ops, op.textual = true) :
    Runs.Guarded (fun pre op => (Runs.after Site.step s₀ pre).Textual ∧ op.textual = true) ops := by
  intro pre op hp
  refine ⟨textual_after hs₀ fun op' hop' => htext op' (hp.subset (List.mem_append_left _ hop')), ?_⟩
  exact htext op (hp.subset (by simp))

variable {s₀ u} in
/-- The last link of a `u` that waits for verification has the hash of the stored `timestamp`. -/
lemma PendingLink.token_eq (hs₀ : s₀.Textual) {text token : String} {ops : List Op}
    (htext : ∀ op ∈ ops, op.textual = true) (h : PendingLink s₀ u text ops) (hlatest : LatestToken s₀ u token ops) :
    token = sha256Hex text := by
  have hguard := guarded_textual hs₀ htext
  have hboth := h.2.and hlatest
    (hguard.imp fun pre op ht hlink hnone => hnone _ (issuesLink_of_linkText ht.1 hlink))
    (hguard.imp fun pre op ht htoken hnone => (not_issuesLink ht.1 ht.2).mpr hnone.1 _ htoken)
  obtain ⟨pre, op, hp, hlink, htoken⟩ := hboth.once
  obtain ⟨hs, hop⟩ := hguard pre op hp
  obtain ⟨text', hissued, rfl⟩ := (issuesLink_iff hs hop).mp htoken
  rw [issuedText_eq_some.mpr (Or.inl hlink)] at hissued
  rw [Option.some.inj hissued]

lemma verifies_of_timestamp {store : Store} {text : String} (ht : store.hget u .timestamp = some text)
    (hv : store.hget u .valid = some "False") : Verifies store u (sha256Hex text) := by
  refine ⟨?_, hv⟩
  rw [timestampText, ht]
  rfl

/-- The last link of `u` is half an hour old or older at the clock reading `now`. -/
def LinksExpired (now : ℕ) (ops : List Op) : Prop :=
  Runs.Since (fun pre op => (∃ token, IssuesLink u token (Runs.after Site.step s₀ pre) op) ∧ op.now + 1800000 ≤ now)
    (fun pre op => ∀ token, ¬IssuesLink u token (Runs.after Site.step s₀ pre) op) ops

/-- `GET /verify` for `u` is not requested once the last link of `u` is half an hour old. -/
def ClicksInTime (pre : List Op) : Op → Prop
  | .web _ (.getVerify uid _) now => uid = u → ¬LinksExpired s₀ u now pre
  | _ => True

end

/-- The operation sets the mail of `u` and asks for its verification. -/
def resetsVerification (u : String) (s : Site) : Op → Bool
  | .web sid (.postUpdateMail _ _) _ => (s.sessions sid).user.toText = u
  | .admin [opt, username, _, _] _ => username = u ∧ optionOf opt = "-c" ∧ Store.lacks s.store username = true
  | .admin [opt, username, _] _ => username = u ∧ optionOf opt = "-m" ∧ Store.matching s.store username ≠ []
  | _ => false

lemma resetsVerification_of_false {u : String} {s : Site} (hs : s.Textual) {op : Op} (hop : op.textual = true)
    (h : s.store.hget u .valid ≠ some "False")
    (h' : (s.step op).store.hget u .valid = some "False") : resetsVerification u s op = true := by
  have hr := recordStep u hs hop
  generalize hrec : record (s.step op).store u = r at hr
  have hv : r .valid = some "False" := by rw [← hrec]; exact h'
  cases hr with
  | kept => exact absurd hv h
  | updatePassword | newPassword | createUser | verifyMail | reset | openLink | adminPassword =>
    exact absurd (by simpa [writeFields] using hv) h
  | verify => simp [writeFields] at hv
  | updateMail hu => simp [resetsVerification, hu]
  | adminCreate ho hk => simp [resetsVerification, ho, hk]
  | adminMail ho hk => simp [resetsVerification, ho, hk]
  | adminDelete => simp at hv

lemma once_resetsVerification {u : String} {s : Site} (hs : s.Textual) (h : s.store.hget u .valid ≠ some "False")
    (ops : List Op) (htext : ∀ op ∈ ops, op.textual = true)
    (h' : (Runs.after Site.step s ops).store.hget u .valid = some "False") :
    Runs.Once (fun pre op => resetsVerification u (Runs.after Site.step s pre) op = true) ops := by
  induction ops using Runs.history_induction with
  | h0 => exact absurd h' h
  | hs ops op ih =>
    have hpre : ∀ op ∈ ops, op.textual = true := fun op' hop' => htext op' (List.mem_append_left _ hop')
    by_cases hbefore : (Runs.after Site.step s ops).store.hget u .valid = some "False"
    · exact Runs.once_concat.mpr (Or.inl (ih hpre hbefore))
    · rw [Runs.after_concat] at h'
      have hsets := resetsVerification_of_false (textual_after hs hpre) (htext op (by simp)) hbefore h'
      exact Runs.once_concat.mpr (Or.inr hsets)

lemma valid_of_confirms {u token : String} {s : Site} {sid now : ℕ} (h : Confirms s sid u token now) :
    (s.step (.web sid (.getVerify u token) now)).store.hget u .valid = some "True" := by
  rw [Site.step, (served_getVerify s sid u token now).store, writesOf, if_pos (confirms_iff.mp h)]
  exact HashStore.hget_hset_self _ _ _ _

lemma response_getVerify (s : Site) (sid : ℕ) (uid token : String) (now : ℕ) :
    Confirms s sid uid token now ∨ s.response sid (.getVerify uid token) now = some (.render .fail) := by
  by_cases hv : Verifies s.store uid token
  · exact Or.inl (confirms_iff.mpr hv)
  · refine Or.inr ?_
    rw [Site.response, (served_getVerify s sid uid token now).response, responseOf, if_neg hv]

/-- Before a confirmation, and between it and the next, the mail of `u` is set for
verification; without that every further click renders `fail`. User names are not arrays. -/
theorem verification_once_per_change (s₀ : Site) (hs₀ : s₀.Textual) (u : String)
    (h₀ : s₀.store.hget u .valid ≠ some "False") (pre : List Op) (htext : ∀ op ∈ pre, op.textual = true) (sid : ℕ)
    (token : String) (now : ℕ) (hconfirms : Confirms (Runs.after Site.step s₀ pre) sid u token now) :
    let s₁ := Runs.after Site.step s₀ (pre ++ [.web sid (.getVerify u token) now])
    let changed := fun s ops => Runs.Once (fun pre' op => resetsVerification u (Runs.after Site.step s pre') op = true) ops
    changed s₀ pre ∧ ∀ ops : List Op, (∀ op ∈ ops, op.textual = true) → ∀ sid' token' now',
      (Confirms (Runs.after Site.step s₁ ops) sid' u token' now' → changed s₁ ops) ∧
      (¬changed s₁ ops →
        (Runs.after Site.step s₁ ops).response sid' (.getVerify u token') now' = some (.render .fail)) := by
  intro s₁ changed
  have hs₁ : s₁.Textual := by
    refine textual_after hs₀ fun op hop => ?_
    rcases List.mem_append.mp hop with hop | hop
    · exact htext op hop
    · rw [List.mem_singleton.mp hop]
      rfl
  have hvalid : s₁.store.hget u .valid ≠ some "False" := by
    have htrue := valid_of_confirms hconfirms
    rw [← Runs.after_concat Site.step] at htrue
    rw [htrue]
    decide
  refine ⟨once_resetsVerification hs₀ h₀ pre htext (confirms_iff.mp hconfirms).2, fun ops hops sid' token' now' => ?_⟩
  have hagain : Confirms (Runs.after Site.step s₁ ops) sid' u token' now' → changed s₁ ops :=
    fun h => once_resetsVerification hs₁ hvalid ops hops (confirms_iff.mp h).2
  refine ⟨hagain, fun hunchanged => ?_⟩
  rcases response_getVerify (Runs.after Site.step s₁ ops) sid' u token' now' with h | h
  · exact absurd (hagain h) hunchanged
  · exact h

/-- A second click on the link, after a verification mail of the same second was asked for. -/
theorem verification_once_per_change_alice :
    let click := Op.web 0 (.getVerify "alice" (sha256Hex "1700000.0")) 1700000060000
    let again := Op.web 1 (.postVerifyMail "alice") 1700000060000
    Confirms (site [createAlice]) 0 "alice" (sha256Hex "1700000.0") 1700000060000 ∧
      (site [createAlice, click, again]).response 0 (.getVerify "alice" (sha256Hex "1700000060")) 1700000120000 =
        some (.render .fail) := by
  intro click again
  have hconfirms : Confirms (site [createAlice]) 0 "alice" (sha256Hex "1700000.0") 1700000060000 := by decide +kernel
  obtain ⟨-, hlater⟩ :=
    verification_once_per_change {} (fun _ => rfl) "alice" (by simp) [createAlice] (by decide) 0 _ _ hconfirms
  have hfail := (hlater [again] (by decide) 0 (sha256Hex "1700000060") 1700000120000).2 (by decide +kernel)
  rw [← Runs.after_append] at hfail
  exact ⟨hconfirms, hfail⟩

/-- After `POST /create_user` with the name `["alice", "valid", "False"]` the used link succeeds again. -/
theorem used_link_confirms_again :
    let click := Op.web 0 (.getVerify "alice" (sha256Hex "1700000.0")) 1700000060000
    let array := Op.web 5 (.postCreateUser (.array [some "alice", some "valid", some "False"]) (.str "") (.str ""))
      1700000120000
    Confirms (site [createAlice]) 0 "alice" (sha256Hex "1700000.0") 1700000060000 ∧
      Confirms (site [createAlice, click, array]) 0 "alice" (sha256Hex "1700000.0") 1700000180000 ∧
      ¬Runs.Once (fun pre op => resetsVerification "alice" (Runs.after Site.step (site [createAlice, click]) pre) op = true)
        [array] :=
  ⟨by decide +kernel, by decide +kernel, by decide +kernel⟩

end ExpressAuth.Proofs
