import ExpressAuth.Proofs.IssuedLinks
import Mathlib.Data.Set.Function

/-!
# Verification links

A verification link carries the hash of a clock text: the second for the web handlers, the
kilosecond for `admin.py`. It is accepted while `valid` is `"False"` and the text is the
stored `timestamp`, whatever address is stored by then.
-/

namespace ExpressAuth.Proofs

/-- The operation sets the mail of `u`. -/
def setsMail (u : String) (s : Site) : Op → Bool
  | .web sid (.postUpdateMail _ _) _ => (s.sessions sid).user.toText = u
  | .web _ (.postCreateUser username password _) _ =>
    username.toText = u ∧ (username.add password).isSome ∧ Store.matching s.store username.toText = []
  | .admin [opt, username, _, _] _ => username = u ∧ optionOf opt = "-c" ∧ Store.lacks s.store username = true
  | .admin [opt, username, _] _ => username = u ∧ optionOf opt = "-m" ∧ Store.matching s.store username ≠ []
  | _ => false

/-- An operation that does not touch the record of `u` does not set the mail of `u`. -/
lemma setsMail_of_not_touches {u : String} {s : Site} {op : Op} (h : touches u s op = false) :
    setsMail u s op = false := by
  by_contra hset
  rw [Bool.not_eq_false] at hset
  have hmail : ∃ m, (u, Field.mail, m) ∈ opWrites s op := by
    match op, hset with
    | .web sid (.postUpdateMail mail secure) now, hset =>
      simp only [setsMail, decide_eq_true_eq] at hset
      simp [opWrites, writesOf, hset]
    | .web sid (.postCreateUser username password mail) now, hset =>
      simp only [setsMail, decide_eq_true_eq] at hset
      obtain ⟨rfl, hdone⟩ := hset
      simp [opWrites, writesOf, passwordWrite, hdone]
    | .admin [opt, username, password, mail] now, hset =>
      simp only [setsMail, decide_eq_true_eq] at hset
      obtain ⟨rfl, hdone⟩ := hset
      simp [opWrites, adminWrites, hdone]
    | .admin [opt, username, mail] now, hset =>
      simp only [setsMail, decide_eq_true_eq] at hset
      obtain ⟨rfl, hdone⟩ := hset
      simp [opWrites, adminWrites, hdone]
  obtain ⟨m, hm⟩ := hmail
  rw [touches_of_write hm] at h
  cases h

section

variable (s₀ : Site) (u : String)

/-- The mail of `u` was set after a link of `u` with the clock text `text`. -/
def OutdatedText (text : String) (ops : List Op) : Prop :=
  Runs.Once (fun pre op => setsMail u (Runs.after Site.step s₀ pre) op = true ∧
    Runs.Once (fun pre' op' => linkText u (Runs.after Site.step s₀ pre') op' = some text) pre) ops

/-- The mail of `u` was set after a link of `u` with the token `token`. -/
def OutdatedToken (token : String) (ops : List Op) : Prop :=
  Runs.Once (fun pre op => setsMail u (Runs.after Site.step s₀ pre) op = true ∧
    Runs.Once (fun pre' op' => IssuesVerifyLink u token (Runs.after Site.step s₀ pre') op') pre) ops

/-- A link of `u` with the token `token` was issued, and the mail of `u` was not set since. -/
def CurrentToken (token : String) (ops : List Op) : Prop :=
  Runs.Since (fun pre op => IssuesVerifyLink u token (Runs.after Site.step s₀ pre) op)
    (fun pre op => setsMail u (Runs.after Site.step s₀ pre) op = false) ops

instance (text : String) (ops : List Op) : Decidable (OutdatedText s₀ u text ops) :=
  inferInstanceAs (Decidable (Runs.Once _ ops))

instance (token : String) (ops : List Op) : Decidable (OutdatedToken s₀ u token ops) :=
  inferInstanceAs (Decidable (Runs.Once _ ops))

/-- A link of `u` is issued only at a clock text that no link before a change of the mail
had, and `POST /create_user` does not replace the mail of a `u` that waits for verification. -/
def ClockMoves (pre : List Op) (op : Op) : Prop :=
  (∀ text ∈ linkText u (Runs.after Site.step s₀ pre) op, ¬OutdatedText s₀ u text (pre ++ [op])) ∧
    (createsName op = some u → Store.matching (Runs.after Site.step s₀ pre).store u = [] →
      (Runs.after Site.step s₀ pre).store.hget u .valid ≠ some "False")
where
  createsName : Op → Option String
    | .web _ (.postCreateUser username _ _) _ => some username.toText
    | _ => none

instance (pre : List Op) (op : Op) : Decidable (ClockMoves s₀ u pre op) :=
  inferInstanceAs (Decidable (_ ∧ _))

/-- While `u` waits for verification, the stored `timestamp` is the clock text of a link of
`u` issued at or after the operation that set the mail. -/
def Waiting (ops : List Op) : Prop :=
  ∃ text, (Runs.after Site.step s₀ ops).store.hget u .timestamp = some text ∧
    Runs.Since (fun pre op => linkText u (Runs.after Site.step s₀ pre) op = some text)
      (fun pre op => setsMail u (Runs.after Site.step s₀ pre) op = false) ops

variable {s₀ u}

lemma Waiting.concat {ops : List Op} {op : Op} (h : Waiting s₀ u ops)
    (ht : (Runs.after Site.step s₀ (ops ++ [op])).store.hget u .timestamp =
      (Runs.after Site.step s₀ ops).store.hget u .timestamp)
    (hm : setsMail u (Runs.after Site.step s₀ ops) op = false) : Waiting s₀ u (ops ++ [op]) := by
  obtain ⟨text, hstored, hsince⟩ := h
  exact ⟨text, ht.trans hstored, Runs.since_concat.mpr (Or.inr ⟨hsince, hm⟩)⟩

lemma waiting_of_link {ops : List Op} {op : Op} {text : String}
    (ht : (Runs.after Site.step s₀ (ops ++ [op])).store.hget u .timestamp = some text)
    (hl : linkText u (Runs.after Site.step s₀ ops) op = some text) : Waiting s₀ u (ops ++ [op]) :=
  ⟨text, ht, Runs.since_concat.mpr (Or.inl hl)⟩

lemma waiting_concat {ops : List Op} {op : Op} (hs : (Runs.after Site.step s₀ ops).Textual) (hop : op.textual = true)
    (ih : (Runs.after Site.step s₀ ops).store.hget u .valid = some "False" → Waiting s₀ u ops)
    (hok : ClockMoves s₀ u ops op)
    (hvalid : (Runs.after Site.step s₀ (ops ++ [op])).store.hget u .valid = some "False") :
    Waiting s₀ u (ops ++ [op]) := by
  have hr := recordStep u hs hop
  rw [← Runs.after_concat Site.step] at hr
  generalize hrec : record (Runs.after Site.step s₀ (ops ++ [op])).store u = r at hr
  have hv : r .valid = some "False" := by rw [← hrec]; exact hvalid
  have ht : (Runs.after Site.step s₀ (ops ++ [op])).store.hget u .timestamp = r .timestamp := by rw [← hrec]
  cases hr with
  | kept hkept =>
    exact (ih hv).concat ht (setsMail_of_not_touches hkept)
  | updatePassword | newPassword | openLink =>
    exact (ih (by simpa [writeFields] using hv)).concat (by simpa [writeFields] using ht) rfl
  | @adminPassword opt password now ho hk =>
    refine (ih (by simpa [writeFields] using hv)).concat (by simpa [writeFields] using ht) ?_
    simp [setsMail, ho]
  | updateMail hu => exact waiting_of_link (by simpa [writeFields] using ht) (by simp [linkText, verifyLink, hu])
  | verifyMail => exact waiting_of_link (by simpa [writeFields] using ht) (by simp [linkText, verifyLink])
  | adminCreate ho hk =>
    exact waiting_of_link (by simpa [writeFields] using ht) (by simp [linkText, verifyLink, ho, hk])
  | adminMail ho hk =>
    exact waiting_of_link (by simpa [writeFields] using ht) (by simp [linkText, verifyLink, ho, hk])
  | createUser hu ht hk =>
    exact absurd (by simpa [writeFields] using hv) (hok.2 (by simp [ClockMoves.createsName, hu]) hk)
  | verify => simp [writeFields] at hv
  | reset hu hi =>
    have htrue := hi.2
    rw [hu] at htrue
    simp [writeFields, record, htrue] at hv
  | adminDelete => simp at hv

variable (s₀ u)

lemma waiting_of_false (hs₀ : s₀.Textual) (h₀ : s₀.store.hget u .valid ≠ some "False") (ops : List Op)
    (htext : ∀ op ∈ ops, op.textual = true) (hok : Runs.Guarded (ClockMoves s₀ u) ops)
    (hvalid : (Runs.after Site.step s₀ ops).store.hget u .valid = some "False") : Waiting s₀ u ops := by
  induction ops using Runs.history_induction with
  | h0 => exact absurd hvalid h₀
  | hs ops op ih =>
    have hpre : ∀ op ∈ ops, op.textual = true := fun op' hop' => htext op' (List.mem_append_left _ hop')
    exact waiting_concat (textual_after hs₀ hpre) (htext op (by simp)) (ih hpre hok.init) hok.last hvalid

end

end ExpressAuth.Proofs
