import ExpressAuth.Proofs.Existence

/-!
# Activating an account

`POST /create_user` writes no `valid` field, and the forms of the site leave the account so. The
client takes a name that is an array for the argument list of the command, though: with the name
`[u, "valid", "True"]` the handler sends `KEYS` with three arguments, takes the error for a free
name and sends `HSET u valid True`.
-/

namespace ExpressAuth.Proofs

def Op.isWeb : Op → Bool
  | .web _ _ _ => true
  | .admin _ _ => false

/-- `POST /create_user` tells its session that the user was created. -/
def ReportsCreated (s : Site) (sid : ℕ) (username password mail : JsVal) (now : ℕ) : Prop :=
  (s.serve sid (.postCreateUser username password mail) now).2.session.flash =
    (s.sessions sid).flash ++ [("message", "Nutzer " ++ username.toText ++ " angelegt")]

instance (s : Site) (sid : ℕ) (username password mail : JsVal) (now : ℕ) :
    Decidable (ReportsCreated s sid username password mail now) :=
  inferInstanceAs (Decidable (_ = _))

lemma reportsCreated_iff {s : Site} {sid : ℕ} {username password mail : JsVal} {now : ℕ}
    (hu : username.isArray = false) :
    ReportsCreated s sid username password mail now ↔
      (username.add password).isSome = true ∧ Store.matching s.store username.toText = [] := by
  unfold ReportsCreated
  rw [(served_postCreateUser s sid username password mail now hu).session]
  by_cases ht : (username.add password).isSome = true <;>
    by_cases hk : Store.matching s.store username.toText = [] <;> simp [sessionOf, addFlash, ht, hk]

/-- `POST /create_user` with a name of three items. -/
def createArray (sid now : ℕ) (key : String) (f : Field) (value : String) : Op :=
  .web sid (.postCreateUser (.array [some key, some f.name, some value]) (.str "") (.str "")) now

/-- It writes the second item of the name to the first, once for each `HSET` of the handler. -/
lemma step_createArray (s : Site) (sid now : ℕ) (key : String) (f : Field) (value : String) :
    (s.step (createArray sid now key f value)).store = (s.store.hset key f value).hset key f value := by
  have hkeys : ([key, f.name, value] : List String).length ≠ CmdName.arity .keys := by simp [CmdName.arity]
  have hcall : Cmd.ofArgs .keys [key, f.name, value] = .refused .keys _ hkeys := rfl
  rw [createArray, Site.step, serve_eq _ _ _ (by simp)]
  simp [Request.handler, Routes.postCreateUser, JsVal.add, JsVal.concatenates, clientCall, itemArgs, hcall, settle,
    Callback.run, Routes.createUserKeys, Cmd.ofArgs_hset]

lemma hget_createArray (s : Site) (sid now : ℕ) (key : String) (f : Field) (value : String) (u : String) (g : Field) :
    (s.step (createArray sid now key f value)).store.hget u g =
      if u = key ∧ g = f then some value else s.store.hget u g := by
  rw [step_createArray, HashStore.hget_hset, HashStore.hget_hset]
  split <;> rfl

/-- A record with the right hash is one request away from a login. -/
lemma logsIn_of_password {s : Site} {username password : JsVal} {text : String} (hu : username.isArray = false)
    (ht : username.add password = some text)
    (hp : s.store.hget username.toText .password = some (sha256Base64 text)) (sid now : ℕ) :
    LogsIn (s.step (createArray 0 0 username.toText .valid "True")) sid username password now := by
  rw [logsIn_iff hu]
  refine ⟨text, ht, ?_, ?_⟩
  · rw [hget_createArray, if_neg (by simp)]
    exact hp
  · rw [hget_createArray, if_pos ⟨rfl, rfl⟩]

end ExpressAuth.Proofs
