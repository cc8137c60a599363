import ExpressAuth.Proofs.IssuedLinks
import Mathlib.Data.Set.Function

/-!
# Reset links

`new_password` says that a reset link is open, `timestamp` carries the token and the age of
the link last issued. The two are written together by `POST /reset_password` only: mail
verification writes `timestamp` alone. A user name that is an array writes any field.
-/

namespace ExpressAuth.Proofs

/-- While a reset link of `u` is open, mail verification does not write the `timestamp` of
`u`; `admin.py` is run with a clock past half an hour. -/
def KeepsTimestamp (u : String) (s : Site) : Op → Bool
  | .web sid (.postUpdateMail _ _) _ =>
    s.store.hget u .newPassword = some "True" → (s.sessions sid).user.toText ≠ u
  | .web _ (.postVerifyMail uid) _ => s.store.hget u .newPassword = some "True" → uid ≠ u
  | .admin _ now => 1801000 ≤ now
  | _ => true

/-- The age check of `GET /new_password` on a text that reads as a whole number. -/
lemma age_lessThan_iff {text : String} {n : ℕ} (h : stringNumber text = .finite (n : ℚ)) (now limit : ℕ) :
    lessThan (Routes.ageOf now (.str text)) limit = true ↔ seconds now < n + limit := by
  have hage : Routes.ageOf now (.str text) = .finite ((seconds now : ℚ) - n) := by
    simp [Routes.ageOf, JsVal.toNumber, h, subtractFrom]
  rw [hage, lessThan]
  simp only [decide_eq_true_eq, sub_lt_iff_lt_add]
  rw [add_comm, ← Nat.cast_add, Nat.cast_lt]

/-- A link that opens has the token of the stored timestamp, which is less than half an hour old. -/
lemma LinkOpens.of_timestamp {store : Store} {now : ℕ} {u token text : String} {n : ℕ}
    (h : LinkOpens store now u token) (ht : store.hget u .timestamp = some text)
    (hn : stringNumber text = .finite (n : ℚ)) : token = sha256Hex text ∧ seconds now < n + 1800 := by
  obtain ⟨htoken, hage, -⟩ := h
  rw [timestampText, ht] at htoken
  rw [ht] at hage
  exact ⟨htoken, (age_lessThan_iff hn now 1800).mp hage⟩

section

variable (s₀ : Site)

/-- The stored `timestamp` of an open link is the reset's that issued it, or the command
line's, whose unit makes every link too old. -/
def Stamped (u : String) (ops : List Op) : Prop :=
  Runs.Once (fun pre op => resetText u (Runs.after Site.step s₀ pre) op = some (numberText (seconds op.now)) ∧
      (Runs.after Site.step s₀ ops).store.hget u .timestamp = some (numberText (seconds op.now))) ops ∨
    Runs.Once (fun _ op => 1801000 ≤ op.now ∧ (Runs.after Site.step s₀ ops).store.hget u .timestamp =
      some (AdminTool.floatText (AdminTool.thousands op.now))) ops

variable {s₀}

lemma Stamped.concat_of_eq {u : String} {ops : List Op} {op : Op} (h : Stamped s₀ u ops)
    (ht : (Runs.after Site.step s₀ (ops ++ [op])).store.hget u .timestamp =
      (Runs.after Site.step s₀ ops).store.hget u .timestamp) : Stamped s₀ u (ops ++ [op]) := by
  unfold Stamped
  rw [ht]
  exact h.imp (fun h => h.mono (List.prefix_append _ _) (fun _ _ h => h))
    (fun h => h.mono (List.prefix_append _ _) (fun _ _ h => h))

lemma stamped_concat {u : String} {ops : List Op} {op : Op} (hs : (Runs.after Site.step s₀ ops).Textual)
    (hop : op.textual = true)
    (ih : (Runs.after Site.step s₀ ops).store.hget u .newPassword = some "True" → Stamped s₀ u ops)
    (hok : KeepsTimestamp u (Runs.after Site.step s₀ ops) op = true)
    (hflag : (Runs.after Site.step s₀ (ops ++ [op])).store.hget u .newPassword = some "True") :
    Stamped s₀ u (ops ++ [op]) := by
  have hr := recordStep u hs hop
  rw [← Runs.after_concat Site.step] at hr
  generalize hrec : record (Runs.after Site.step s₀ (ops ++ [op])).store u = r at hr
  have hf : r .newPassword = some "True" := by rw [← hrec]; exact hflag
  have ht : (Runs.after Site.step s₀ (ops ++ [op])).store.hget u .timestamp = r .timestamp := by rw [← hrec]
  cases hr with
  | kept | updatePassword | newPassword | createUser | verify | adminPassword =>
    have hold := ih (by simpa [writeFields] using hf)
    exact hold.concat_of_eq (by simpa [writeFields] using ht)
  | updateMail hu =>
    simp only [KeepsTimestamp, decide_eq_true_eq] at hok
    exact absurd hu (hok (by simpa [writeFields] using hf))
  | verifyMail =>
    simp only [KeepsTimestamp, decide_eq_true_eq] at hok
    exact absurd rfl (hok (by simpa [writeFields] using hf))
  | reset hu hi =>
    refine Or.inl (Runs.once_concat.mpr (Or.inr ⟨by simp [resetText, hu, hi], ?_⟩))
    rw [ht]
    simp [writeFields]
  | openLink => simp [writeFields] at hf
  | adminCreate | adminMail =>
    refine Or.inr (Runs.once_concat.mpr (Or.inr ⟨by simpa [KeepsTimestamp] using hok, ?_⟩))
    rw [ht]
    simp [writeFields]
  | adminDelete => simp at hf

lemma stamped_of_open (hs₀ : s₀.Textual) (u : String) (h₀ : s₀.store.hget u .newPassword ≠ some "True") (ops : List Op)
    (htext : ∀ op ∈ ops, op.textual = true)
    (hok : Runs.Guarded (fun pre op => KeepsTimestamp u (Runs.after Site.step s₀ pre) op) ops)
    (hflag : (Runs.after Site.step s₀ ops).store.hget u .newPassword = some "True") : Stamped s₀ u ops := by
  induction ops using Runs.history_induction with
  | h0 => exact absurd hflag h₀
  | hs ops op ih =>
    have hpre : ∀ op ∈ ops, op.textual = true := fun op' hop' => htext op' (List.mem_append_left _ hop')
    exact stamped_concat (textual_after hs₀ hpre) (htext op (by simp)) (ih hpre hok.init) hok.last hflag

variable (s₀)

lemma now_le_of_once {P : List Op → Op → Prop} {pre ops : List Op} {op : Op}
    (hclock : ops.Pairwise (fun a b => a.now ≤ b.now)) (hp : pre ++ [op] <+: ops) (h : Runs.Once P pre) :
    Runs.Once (fun pre' op' => P pre' op' ∧ op'.now ≤ op.now) pre := by
  obtain ⟨pre', op', hp', h⟩ := h
  refine ⟨pre', op', hp', h, ?_⟩
  have hord := (List.pairwise_append.mp (hclock.sublist hp.sublist)).2.2
  exact hord op' (hp'.subset (by simp)) op (by simp)

/-- No verification link, of whatever user, has the clock text of a reset link of `u`. -/
def TextsApart (u : String) (ops : List Op) : Prop :=
  Runs.Guarded (fun pre op => Runs.Guarded (fun pre' op' => ∀ text ∈ resetText u (Runs.after Site.step s₀ pre) op,
    ∀ link ∈ verifyLink (Runs.after Site.step s₀ pre') op', link.2 ≠ text) ops) ops

/-- The clock texts of the reset links of `u` and of all verification links are in `T`. -/
def TextsIn (T : Set String) (u : String) (ops : List Op) : Prop :=
  Runs.Guarded (fun pre op => (∀ text ∈ resetText u (Runs.after Site.step s₀ pre) op, text ∈ T) ∧
    ∀ link ∈ verifyLink (Runs.after Site.step s₀ pre) op, link.2 ∈ T) ops

variable {s₀}

/-- The token of a reset link is not that of a verification link. -/
lemma not_once_issuesVerifyLink (hs₀ : s₀.Textual) {u : String} {T : Set String} (hinj : Set.InjOn sha256Hex T)
    {ops : List Op} (htext : ∀ op ∈ ops, op.textual = true) (hT : TextsIn s₀ T u ops) (hapart : TextsApart s₀ u ops)
    {text : String} (hreset : Runs.Once (fun pre op => resetText u (Runs.after Site.step s₀ pre) op = some text) ops)
    (v : String) :
    ¬Runs.Once (fun pre op => IssuesVerifyLink v (sha256Hex text) (Runs.after Site.step s₀ pre) op) ops := by
  rintro ⟨pre', op', hp', hverify⟩
  obtain ⟨pre, op, hp, hreset⟩ := hreset
  have hpre : ∀ op ∈ pre', op.textual = true := fun o ho => htext o (hp'.subset (List.mem_append_left _ ho))
  obtain ⟨text', hlink, hhash⟩ := (issuesVerifyLink_iff (textual_after hs₀ hpre)).mp hverify
  rw [linkText_eq_some] at hlink
  have heq : text = text' := hinj ((hT pre op hp).1 text hreset) ((hT pre' op' hp').2 _ hlink) hhash
  exact hapart pre op hp pre' op' hp' text hreset _ hlink heq.symm

variable (s₀)

end

/-- A reset link of `u` is opened, in whatever session. -/
def opensLink (u : String) (s : Site) : Op → Bool
  | .web sid (.getNewPassword uid token) now => uid = u ∧ Opens s sid uid token now
  | _ => false

lemma opensLink_of_not_touches {u : String} {s : Site} {op : Op} (h : touches u s op = false) :
    opensLink u s op = false := by
  by_contra hopens
  rw [Bool.not_eq_false] at hopens
  match op, hopens with
  | .web sid (.getNewPassword uid token) now, hopens =>
    simp only [opensLink, decide_eq_true_eq, opens_iff] at hopens
    obtain ⟨rfl, hlink⟩ := hopens
    have hwrite : (uid, Field.newPassword, "False") ∈ opWrites s (.web sid (.getNewPassword uid token) now) := by
      simp [opWrites, writesOf, hlink]
    rw [touches_of_write hwrite] at h
    cases h

section

variable (s₀ : Site) (u : String)

/-- Once a link of `u` was opened, `POST /reset_password` has issued one for `u` since the last opening. -/
def LinkFresh (ops : List Op) : Prop :=
  Runs.Once (fun pre op => opensLink u (Runs.after Site.step s₀ pre) op = true) ops →
    Runs.Since (fun pre op => ∃ token, IssuesResetLink u token (Runs.after Site.step s₀ pre) op)
      (fun pre op => opensLink u (Runs.after Site.step s₀ pre) op = false) ops

variable {s₀ u}

lemma LinkFresh.concat {ops : List Op} {op : Op} (h : LinkFresh s₀ u ops)
    (hop : opensLink u (Runs.after Site.step s₀ ops) op = false) : LinkFresh s₀ u (ops ++ [op]) := by
  intro honce
  rcases Runs.once_concat.mp honce with honce | hopens
  · exact Runs.since_concat.mpr (Or.inr ⟨h honce, hop⟩)
  · rw [hop] at hopens
    cases hopens

/-- An opening clears `new_password`, and only a reset sets it again. -/
lemma linkFresh_of_flag (hs₀ : s₀.Textual) (ops : List Op) (htext : ∀ op ∈ ops, op.textual = true)
    (hflag : (Runs.after Site.step s₀ ops).store.hget u .newPassword = some "True") : LinkFresh s₀ u ops := by
  induction ops using Runs.history_induction with
  | h0 => exact fun honce => absurd honce (Runs.not_once_nil _)
  | hs ops op ih =>
    have hpre : ∀ op ∈ ops, op.textual = true := fun op' hop' => htext op' (List.mem_append_left _ hop')
    have hop : op.textual = true := htext op (by simp)
    have hr := recordStep u (textual_after hs₀ hpre) hop
    rw [Runs.after_concat] at hflag
    generalize hrec : record ((Runs.after Site.step s₀ ops).step op).store u = r at hr
    have hf : r .newPassword = some "True" := by rw [← hrec]; exact hflag
    cases hr with
    | kept hkept => exact (ih hpre hf).concat (opensLink_of_not_touches hkept)
    | updateMail | updatePassword | newPassword | createUser | verify | verifyMail | adminCreate | adminPassword
    | adminMail => exact (ih hpre (by simpa [writeFields] using hf)).concat rfl
    | reset hu hi =>
      have hreset := (issuesResetLink_iff hop).mpr ⟨_, if_pos ⟨hu, hi⟩, rfl⟩
      exact fun _ => Runs.since_concat.mpr (Or.inl ⟨_, hreset⟩)
    | openLink => simp [writeFields] at hf
    | adminDelete => simp at hf

end

end ExpressAuth.Proofs
