import ExpressAuth.Proofs.PlainNames
import Mathlib.Data.List.Chain

/-!
# The commands of a segment, back to back

A segment appends its commands to the line in one piece, so on the connection nothing comes
between them. What can come between them is the other connection, that of `admin.py`. A run is
undivided when it does not: an invocation executes as a whole, and only where the next command
of the line opens a segment.
-/

namespace ExpressAuth.Proofs
open Server

/-- The command can be the first of a segment. -/
def opensSegment : Cmd → Bool
  | .hget _ .timestamp => false
  | .hset _ .valid v => v ≠ "False"
  | _ => true

/-- What stands before the writes of `valid` in a change of the address, and before the second
read of a confirmation. -/
def Follows (p q : Pending) : Prop :=
  (∀ u, q.cmd = .hset u .valid "False" → ∃ text, p.cmd = .hset u .timestamp text) ∧
    (q.callback = .verifyTimestamp → p.task = q.task ∧ p.callback = .verifyValid ∧
      ∃ uid, p.cmd = .hget uid .valid ∧ q.cmd = .hget uid .timestamp)

/-- Commands as one segment issues them. -/
def Segmented (ps : List Pending) : Prop :=
  ps.IsChain Follows ∧ ∀ p ∈ ps.head?, opensSegment p.cmd = true ∧ p.callback ≠ .verifyTimestamp

lemma segmented_nil : Segmented [] := ⟨List.isChain_nil, by simp⟩

lemma Segmented.append {ps qs : List Pending} (hp : ps.IsChain Follows) (hq : Segmented qs) :
    (ps ++ qs).IsChain Follows := by
  refine List.isChain_append.mpr ⟨hp, hq.1, fun p _ q hhead => ?_⟩
  obtain ⟨hopens, hcallback⟩ := hq.2 q hhead
  refine ⟨fun u hcmd => ?_, fun h => absurd h hcallback⟩
  simp [hcmd, opensSegment] at hopens

lemma segmented_begin {req : Request} {c : Ctx} (hreq : req.textual = true) (hs : c.session.user.isArray = false)
    (hc : c.issued = []) (i : ℕ) : Segmented ((req.begin c).issued.map (fun p => ⟨i, p.1, p.2⟩)) := by
  rw [Request.begin, checkAuth_eq]
  split
  · simp [hc, segmented_nil]
  · cases req with
    | postLogin username password =>
      have hu : username.isArray = false := by simpa [Request.textual] using hreq
      simp only [Request.handler, Routes.postLogin]
      split <;> simp [hc, clientCall_hget hu, Segmented, opensSegment]
    | postUpdatePassword password =>
      simp only [Request.handler, Routes.postUpdatePassword]
      split <;> simp [hc, clientCall_hset hs, Segmented, opensSegment]
    | postCreateUser username password mail =>
      have hu : username.isArray = false := by simpa [Request.textual] using hreq
      simp only [Request.handler, Routes.postCreateUser]
      split <;> simp [hc, clientCall_keys hu, Segmented, opensSegment]
    | postNewPassword password =>
      simp only [Request.handler, Routes.postNewPassword]
      split <;> simp [hc, clientCall_hset hs, Segmented, opensSegment]
    | postResetPassword username mail secure =>
      have hu : username.isArray = false := by simpa [Request.textual] using hreq
      simp [Request.handler, Routes.postResetPassword, hc, clientCall_hget hu, Segmented, opensSegment]
    | _ =>
      simp [Request.handler, Routes.getSecure, Routes.postUpdateMail, Routes.getLogout, Routes.getVerify,
        Routes.postVerifyMail, Routes.getVerifyMail, Routes.getNewPassword, hc, clientCall_hget hs,
        clientCall_hset hs, Segmented, Follows, opensSegment]

lemma segmented_run {callback : Callback} {c : Ctx} (hb : plainCallback callback = true)
    (hu : c.vars.user.isArray = false) (r : Reply) (hc : c.issued = []) (i : ℕ) :
    Segmented ((callback.run r c).issued.map (fun p => ⟨i, p.1, p.2⟩)) := by
  cases callback with
  | missing => cases hb
  | loginPassword username generatedHash =>
    have hname : username.isArray = false := by simpa [plainCallback] using hb
    simp only [Callback.run, Routes.loginPassword]
    split <;> simp [hc, clientCall_hget hname, Segmented, opensSegment]
  | loginValid username =>
    simp only [Callback.run, Routes.loginValid]
    split <;> simp [hc, segmented_nil]
  | createUserKeys username mail generatedHash =>
    have hname : username.isArray = false := by simpa [plainCallback] using hb
    simp only [Callback.run, Routes.createUserKeys]
    split <;> simp [hc, clientCall_hset hname, Segmented, Follows, opensSegment]
  | verifyTimestamp =>
    simp only [Callback.run, Routes.verifyTimestamp]
    split <;> simp [hc, clientCall_hset hu, Segmented, opensSegment]
  | resetMail mail secure =>
    simp only [Callback.run, Routes.resetMail]
    split <;> simp [hc, clientCall_hget hu, Segmented, opensSegment]
  | resetValid secure =>
    simp only [Callback.run, Routes.resetValid]
    split <;> simp [hc, clientCall_hset hu, Segmented, Follows, opensSegment]
  | newPasswordFlag timestamp =>
    simp only [Callback.run, Routes.newPasswordFlag]
    split <;> simp [hc, clientCall_hset hu, Segmented, opensSegment]
  | _ => simp [Callback.run, Routes.secureMail, hc, clientCall_hget hu, Segmented, opensSegment]

lemma segmented_issues {s : Server} (h : PlainNames s) {e : Event} (he : textualEvent e = true) :
    Segmented (issues s e) := by
  unfold issues
  cases hseg : segmentOf s e with
  | none => exact segmented_nil
  | some x =>
    obtain ⟨i, c⟩ := x
    cases e with
    | arrive sid req now =>
      simp only [segmentOf, Option.some.injEq, Prod.mk.injEq] at hseg
      obtain ⟨rfl, rfl⟩ := hseg
      exact segmented_begin he (h.sessions sid) rfl _
    | deliver now =>
      cases hr : s.replies with
      | nil => simp [segmentOf, hr] at hseg
      | cons a rest =>
        simp only [segmentOf, hr, Option.map_eq_some_iff, Prod.mk.injEq] at hseg
        obtain ⟨t, -, rfl, rfl⟩ := hseg
        exact segmented_run (h.callbacks _ (head_mem_inFlight hr)) h.user a.reply rfl _
    | _ => simp [segmentOf] at hseg

/-! ### Undivided runs -/

section

variable (store : Store) (sessions : ℕ → Session)

/-- No segment is executed in part: the commands executed are those issued up to some moment. -/
def AtBoundary (es : List Event) : Prop :=
  ∃ pre ∈ es.inits, (line (runFrom store sessions pre)).length = (executedLine (runFrom store sessions es).log).length

/-- The event is a step of the invocation `j`. -/
def stepsInvocation (j : ℕ) : Event → Bool
  | .adminStep k _ => k = j
  | _ => false

/-- The invocation `j` has made its first step. -/
def Begun (j : ℕ) : List Event → Prop :=
  Runs.Once (fun pre e => stepsInvocation j e = true ∧ j < (runFrom store sessions pre).spawned)

/-- The invocation `j` has begun and is not finished. -/
def UnderWay (j : ℕ) (es : List Event) : Prop :=
  Begun store sessions j es ∧ (runFrom store sessions es).admins j ≠ .todo []

instance (es : List Event) : Decidable (AtBoundary store sessions es) :=
  inferInstanceAs (Decidable (∃ pre ∈ es.inits, _))

instance (j : ℕ) (es : List Event) : Decidable (Begun store sessions j es) :=
  inferInstanceAs (Decidable (Runs.Once _ es))

instance (j : ℕ) (es : List Event) : Decidable (UnderWay store sessions j es) :=
  inferInstanceAs (Decidable (_ ∧ _))

/-- Between two commands of a segment nothing else is executed, and an invocation of `admin.py`
executes as a whole between segments. -/
def Undivided (es : List Event) : Event → Prop
  | .exec => ∀ j < (runFrom store sessions es).spawned, ¬UnderWay store sessions j es
  | .adminStep j _ => AtBoundary store sessions es ∧
      ∀ k < (runFrom store sessions es).spawned, k ≠ j → ¬UnderWay store sessions k es
  | _ => True

instance (es : List Event) (e : Event) : Decidable (Undivided store sessions es e) := by
  unfold Undivided
  split <;> infer_instance

lemma line_length_le {pre es : List Event} (h : pre <+: es) :
    (line (runFrom store sessions pre)).length ≤ (line (runFrom store sessions es)).length := by
  refine Runs.prefix_induction
    (P := fun es => (line (runFrom store sessions pre)).length ≤ (line (runFrom store sessions es)).length) h le_rfl ?_
  intro es e ih
  rw [runFrom_concat, line_step (wellFormed_runFrom store sessions es), List.length_append]
  exact ih.trans (Nat.le_add_right _ _)

/-- The command of the line that comes next after any moment of the run opens a segment. -/
lemma opensSegment_of_line (hsessions : ∀ sid, (sessions sid).user.isArray = false) {pre es : List Event}
    (htext : ∀ e ∈ es, textualEvent e = true) (h : pre <+: es) {x : ℕ × Cmd}
    (hx : (line (runFrom store sessions es))[(line (runFrom store sessions pre)).length]? = some x) :
    opensSegment x.2 = true := by
  induction es using Runs.history_induction with
  | h0 =>
    rw [List.prefix_nil.mp h] at hx
    simp at hx
  | hs es e ih =>
    have hpre : ∀ e ∈ es, textualEvent e = true := fun e' he' => htext e' (List.mem_append_left _ he')
    rcases List.prefix_concat_iff.mp h with rfl | h
    · simp at hx
    · rw [runFrom_concat, line_step (wellFormed_runFrom store sessions es)] at hx
      rcases (line_length_le store sessions h).lt_or_eq with hlt | heq
      · rw [List.getElem?_append_left hlt] at hx
        exact ih hpre h hx
      · rw [heq, List.getElem?_append_right le_rfl, Nat.sub_self, ← List.head?_eq_getElem?, List.head?_map] at hx
        obtain ⟨p, hp, rfl⟩ := Option.map_eq_some_iff.mp hx
        have hplain := plainNames_runFrom store hsessions hpre
        exact ((segmented_issues hplain (htext e (by simp))).2 p hp).1

/-- At a boundary the next command to be executed opens a segment. -/
lemma AtBoundary.head (hsessions : ∀ sid, (sessions sid).user.isArray = false) {es : List Event}
    (htext : ∀ e ∈ es, textualEvent e = true) (h : AtBoundary store sessions es) {p : Pending}
    (hp : p ∈ (runFrom store sessions es).queue.head?) : opensSegment p.cmd = true := by
  obtain ⟨pre, hpre, hlength⟩ := h
  refine opensSegment_of_line store sessions hsessions htext ((List.mem_inits _ _).mp hpre) (x := (p.task, p.cmd)) ?_
  rw [hlength, line, List.getElem?_append_right le_rfl, Nat.sub_self, ← List.head?_eq_getElem?, List.head?_map, hp]
  rfl

end

end ExpressAuth.Proofs
