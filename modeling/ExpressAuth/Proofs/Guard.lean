import ExpressAuth.Router
import ExpressAuth.Proofs.SerialEffects
import ExpressAuth.Proofs.ServerInvariants

/-!
# The guard of `/secure`

The guard compares the raw URL with `/secure`, the router a normalised one. The two agree on
one spelling only, and the session keeps its user after a logout.
-/

namespace ExpressAuth.Proofs
open LazyPattern

/-! ### The spellings that reach the handler -/

lemma eq_slash_of_toLower {c : Char} (h : c.toLower = '/') : c = '/' := by
  unfold Char.toLower at h
  split at h
  · next hc =>
    have hval : (c.val + 32).toNat = 47 := congrArg Char.toNat h
    have hge : 65 ≤ c.val.toNat := hc.1
    have hle : c.val.toNat ≤ 90 := hc.2
    have h32 : (32 : UInt32).toNat = 32 := rfl
    rw [UInt32.toNat_add, h32] at hval
    omega
  · exact h

lemma trailingSlash_toLower (rest : List Char) : trailingSlash (rest.map Char.toLower) = trailingSlash rest := by
  rw [Bool.eq_iff_iff]
  simp only [trailingSlash, decide_eq_true_eq, List.map_eq_nil_iff, List.map_eq_cons_iff]
  constructor
  · rintro (rfl | ⟨c, _, rfl, hc, rfl⟩)
    · exact .inl rfl
    · exact .inr (by rw [eq_slash_of_toLower hc])
  · rintro (rfl | rfl)
    · exact .inl rfl
    · exact .inr ⟨'/', [], rfl, rfl, rfl⟩

/-- A literal ignores case. -/
lemma strip_ignoringCase_iff {text input rest : List Char} :
    strip ignoringCase text input = some rest ↔
      ∃ taken, input = taken ++ rest ∧ taken.map Char.toLower = text.map Char.toLower := by
  induction text generalizing input with
  | nil =>
    simp only [strip, Option.some.injEq, List.map_nil, List.map_eq_nil_iff]
    constructor
    · rintro rfl
      exact ⟨[], rfl, rfl⟩
    · rintro ⟨_, rfl, rfl⟩
      rfl
  | cons a text ih =>
    cases input with
    | nil =>
      simp only [strip, reduceCtorEq, false_iff]
      rintro ⟨taken, hnil, htaken⟩
      obtain ⟨rfl, -⟩ := List.append_eq_nil_iff.mp hnil.symm
      cases htaken
    | cons c input =>
      have hcase : ignoringCase a c = true ↔ c.toLower = a.toLower := by
        rw [ignoringCase, decide_eq_true_eq, eq_comm]
      rw [strip]
      constructor
      · intro h
        split_ifs at h with hc
        obtain ⟨taken, rfl, htaken⟩ := ih.mp h
        exact ⟨c :: taken, rfl, by rw [List.map_cons, List.map_cons, htaken, hcase.mp hc]⟩
      · rintro ⟨_ | ⟨d, taken⟩, hinput, htaken⟩
        · cases htaken
        · obtain ⟨rfl, rfl⟩ := List.cons.inj hinput
          obtain ⟨hc, htaken⟩ := List.cons.inj htaken
          rw [if_pos (hcase.mpr hc)]
          exact ih.mpr ⟨taken, rfl, htaken⟩

/-- The path of the URL is the given one in any case, with at most one trailing slash. -/
def spells (path : List Char) (url : String) : Bool :=
  (pathname url).map Char.toLower = path.map Char.toLower ∨
    (pathname url).map Char.toLower = path.map Char.toLower ++ ['/']

/-- What a route without parameters matches. -/
lemma matchRoute_literal (path : List Char) (url : String) :
    matchRoute [.literal path] url = if spells path url then some [] else none := by
  rw [matchRoute, LazyPattern.run]
  cases hstrip : strip ignoringCase path (pathname url) with
  | none =>
    have hother : ¬spells path url = true := by
      intro h
      have hsplit : ∃ rest, (pathname url).map Char.toLower = path.map Char.toLower ++ rest := by
        rcases of_decide_eq_true h with h | h
        · exact ⟨[], by rw [h, List.append_nil]⟩
        · exact ⟨['/'], h⟩
      obtain ⟨rest, hmap⟩ := hsplit
      obtain ⟨taken, left, hpath, htaken, -⟩ := List.map_eq_append_iff.mp hmap
      rw [strip_ignoringCase_iff.mpr ⟨taken, hpath, htaken⟩] at hstrip
      cases hstrip
    rw [if_neg hother]
    rfl
  | some rest =>
    obtain ⟨taken, hpath, htaken⟩ := strip_ignoringCase_iff.mp hstrip
    have hspells : spells path url = trailingSlash rest := by
      rw [← trailingSlash_toLower, spells, hpath, List.map_append, htaken, trailingSlash]
      simp only [List.append_right_inj, List.append_right_eq_self]
    rw [Option.bind_some, LazyPattern.run, hspells]

lemma routesToSecure_eq (url : String) : routesToSecure url = spells "/secure".toList url := rfl

/-- Where a URL is handled, one of the routes matched it. -/
lemma exists_route_of_dispatch {url : String} {routes : List Route} {request : Request}
    (h : dispatch url routes = .handled request) :
    ∃ route ∈ routes, ∃ captures params, matchRoute route.pattern url = some captures ∧
      captures.mapM decodeURIComponent = some params ∧ route.request url params = some request := by
  induction routes with
  | nil => cases h
  | cons route routes ih =>
    rw [dispatch] at h
    split at h
    · obtain ⟨route', hmem, hroute⟩ := ih h
      exact ⟨route', List.mem_cons_of_mem route hmem, hroute⟩
    · next captures hmatch =>
      split at h
      · cases h
      · next params hparams =>
        split at h
        · next request' hrequest =>
          cases h
          exact ⟨route, List.mem_cons_self, captures, params, hmatch, hparams, hrequest⟩
        · cases h

/-- The router sends exactly the spellings of `/secure` to the handler of `GET /secure`. -/
theorem dispatchGet_getSecure_iff {url : String} :
    dispatchGet url = .handled (.getSecure url) ↔ routesToSecure url = true := by
  constructor
  · intro h
    obtain ⟨route, hroute, captures, params, hmatch, hparams, hrequest⟩ := exists_route_of_dispatch h
    by_contra hother
    simp only [getRoutes, List.mem_cons, List.not_mem_nil, or_false] at hroute
    rcases hroute with rfl | rfl | rfl | rfl | rfl | rfl | rfl | rfl | rfl | rfl
    case inr.inr.inl =>
      rw [Route.plain, matchRoute_literal, ← routesToSecure_eq, if_neg hother] at hmatch
      cases hmatch
    case inr.inr.inr.inr.inr.inr.inl | inr.inr.inr.inr.inr.inr.inr.inl | inr.inr.inr.inr.inr.inr.inr.inr.inr =>
      simp only [Route.link] at hrequest
      split at hrequest <;> simp at hrequest
    all_goals simp [Route.plain] at hrequest
  · intro h
    rw [routesToSecure_eq] at h
    have hpath := of_decide_eq_true h
    have hroot : spells "/".toList url = false := by
      rcases hpath with hpath | hpath <;> rw [spells, hpath] <;> decide
    have hwelcome : spells "/welcome".toList url = false := by
      rcases hpath with hpath | hpath <;> rw [spells, hpath] <;> decide
    simp only [dispatchGet, getRoutes, dispatch, Route.plain, matchRoute_literal, hroot, hwelcome, h]
    rfl

/-! ### The guard -/

/-- `GET /secure` behind the guard, for a request whose session may be missing. -/
def secureSegment (url : String) (session : Option Session) : Ctx → Ctx := checkAuthOf url session (getSecureOf session)

lemma begin_eq_secureSegment (url : String) (c : Ctx) :
    (Request.getSecure url).begin c = secureSegment url (some c.session) c := rfl

section

variable {session : Option Session} (h : unauthenticated session = true)
include h

lemma checkAuthOf_rejects (next : Ctx → Ctx) (c : Ctx) :
    checkAuthOf "/secure" session next c = c.render (.unauthorised 403) := by
  simp [checkAuthOf, h]

lemma checkAuthOf_rejects_iff (url : String) :
    (∀ next c, checkAuthOf url session next c = c.render (.unauthorised 403)) ↔ url = "/secure" := by
  constructor
  · intro hrejects
    by_contra hurl
    have hnext := hrejects Ctx.throws { now := 0, vars := {}, session := {} }
    rw [checkAuthOf, if_neg (fun hboth => hurl hboth.1)] at hnext
    exact absurd (congrArg Ctx.response hnext) (by simp)
  · rintro rfl
    exact checkAuthOf_rejects h

end

/-- Of all the spellings that the router sends to the handler, the guard turns a session away that is missing
or not authenticated on `/secure` itself only: any other goes on to the handler. For this one, the request
leaves no command on the server whose callback could render anything else. -/
theorem secure_guarded_iff (url : String) (hroute : routesToSecure url = true) (session : Option Session)
    (hsession : unauthenticated session = true) :
    dispatchGet url = .handled (.getSecure url) ∧
      ((∀ next c, checkAuthOf url session next c = c.render (.unauthorised 403)) ↔ url = "/secure") ∧
      (url ≠ "/secure" → ∀ next c, checkAuthOf url session next c = next c) ∧
      (url = "/secure" → ∀ (s : Server) (sid now : ℕ), session = some (s.sessions sid) →
        (s.step .process (.arrive sid (.getSecure url) now)).queue = s.queue ∧
        (s.step .process (.arrive sid (.getSecure url) now)).log =
          s.log ++ [.saved sid (s.sessions sid), .responded s.started (.render (.unauthorised 403))]) := by
  refine ⟨dispatchGet_getSecure_iff.mpr hroute, checkAuthOf_rejects_iff hsession url, ?_, ?_⟩
  · intro hurl next c
    exact if_neg (fun hboth => hurl hboth.1)
  · rintro rfl s sid now rfl
    have hbegin : ∀ c : Ctx, c.session = s.sessions sid → (Request.getSecure "/secure").begin c =
        c.render (.unauthorised 403) := by
      intro c hc
      rw [begin_eq_secureSegment, hc]
      exact checkAuthOf_rejects hsession _ c
    constructor
    · rw [step_arrive, hbegin _ rfl]
      exact List.append_nil _
    · rw [log_arrive, hbegin _ rfl]
      rfl

/-- A session that has just begun is turned away. -/
theorem secure_guarded_iff_fresh :
    (run ∅ [.arrive 0 (.getSecure "/secure") 1700000000000]).log =
      [.saved 0 {}, .responded 0 (.render (.unauthorised 403))] :=
  ((secure_guarded_iff "/secure" (by decide) (some {}) rfl).2.2.2 rfl { store := ∅ } 0 1700000000000 rfl).2

/-- After a login and a logout of `alice` the session is not authenticated. With a trailing
slash, a query string or capitals the page of `alice` is rendered to it. -/
theorem secure_unguarded :
    let s := site (aliceRegistered ++ [.web 1 (.postLogin (.str "alice") (.str "secret")) 1700000120000,
      .web 1 .getLogout 1700000180000])
    (s.sessions 1).authenticated = false ∧ ∀ url ∈ ["/secure/", "/secure?x", "/SECURE"],
      routesToSecure url = true ∧ s.response 1 (.getSecure url) 1700000240000 =
        some (.render (.secure [] (.str "alice") (.str "alice@example.org") (.str "True"))) := by
  decide +kernel

end ExpressAuth.Proofs
