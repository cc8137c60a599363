import Mathlib.Data.List.TakeWhile
import ExpressAuth.Router
import ExpressAuth.Proofs.Activation

/-!
# Links and routes

The links of the mails contain the name as it is. The router cuts the URL at `?` and `#`, ends the
name at a slash or at the first `&token=` behind its first character, and decodes `%`.
-/

namespace ExpressAuth.Proofs
open LazyPattern

/-- The text between the two parameters of a link. -/
def delimiter : List Char := "&token=".toList

lemma delimiter_eq : delimiter = ['&', 't', 'o', 'k', 'e', 'n', '='] := rfl

/-- The name has none of the characters the router gives a meaning of their own, and the delimiter
does not occur behind its first character. -/
def Linkable (u : String) : Prop :=
  (∀ c ∈ u.toList, c ≠ '/' ∧ c ≠ '?' ∧ c ≠ '#' ∧ c ≠ '%') ∧ occurs ignoringCase delimiter u.toList.tail = false

instance (u : String) : Decidable (Linkable u) :=
  have : Decidable (∀ c ∈ u.toList, c ≠ '/' ∧ c ≠ '?' ∧ c ≠ '#' ∧ c ≠ '%') := List.decidableBAll _ u.toList
  inferInstanceAs (Decidable (_ ∧ _))

/-- A token of 64 hexadecimal digits. -/
def IsToken (t : String) : Prop := t.toList.length = 64 ∧ ∀ c ∈ t.toList, (hexValue c).isSome = true

instance (t : String) : Decidable (IsToken t) :=
  have : Decidable (∀ c ∈ t.toList, (hexValue c).isSome = true) := List.decidableBAll _ t.toList
  inferInstanceAs (Decidable (_ ∧ _))

/-! ### Decoding -/

/-- Text without `%` is decoded to itself. -/
lemma decodeLoop_of_no_percent {text : List Char} (h : '%' ∉ text) {fuel : ℕ} (hf : text.length ≤ fuel) :
    decodeLoop fuel text = some text := by
  induction text generalizing fuel with
  | nil => cases fuel <;> rfl
  | cons c text ih =>
    cases fuel with
    | zero => simp at hf
    | succ fuel =>
      have hc : c ≠ '%' := fun hc => h (hc ▸ List.mem_cons_self)
      have hrest := ih (fun hmem => h (List.mem_cons_of_mem c hmem)) (by simpa using hf)
      rw [decodeLoop, if_neg hc, hrest]
      rfl

lemma decodeURIComponent_of_no_percent {text : List Char} (h : '%' ∉ text) :
    decodeURIComponent text = some (String.ofList text) := by
  rw [decodeURIComponent, decodeLoop_of_no_percent h le_rfl]
  rfl

lemma length_of_escapedByte {text rest : List Char} {b : ℕ} (h : escapedByte text = some (b, rest)) :
    text.length = rest.length + 3 := by
  unfold escapedByte at h
  split at h
  · split at h
    · cases h
      rfl
    · cases h
  · cases h

lemma length_of_continuation {n value v : ℕ} {text rest : List Char}
    (h : continuation n value text = some (v, rest)) : rest.length ≤ text.length := by
  induction n generalizing value text with
  | zero =>
    cases h
    exact le_rfl
  | succ n ih =>
    rw [continuation] at h
    split at h
    · next hbyte =>
      split_ifs at h
      have hlength := length_of_escapedByte hbyte
      have hrest := ih h
      omega
    · cases h

lemma length_of_longChar {n value least : ℕ} {d : Char} {text rest : List Char}
    (h : longChar n value least text = some (d, rest)) : rest.length ≤ text.length := by
  unfold longChar at h
  split at h
  · next hcontinuation =>
    split_ifs at h
    cases h
    exact length_of_continuation hcontinuation
  · cases h

/-- An escaped character takes three characters or more. -/
lemma length_of_escapedChar {d : Char} {text rest : List Char} (h : escapedChar text = some (d, rest)) :
    rest.length + 3 ≤ text.length := by
  unfold escapedChar at h
  split at h
  · next hbyte =>
    have hlength := length_of_escapedByte hbyte
    split_ifs at h
    · cases h
      exact hlength.ge
    all_goals
      have hrest := length_of_longChar h
      omega
  · cases h

/-- Decoding does not lengthen a text, and shortens one with `%`. -/
lemma length_of_decodeLoop {fuel : ℕ} {text out : List Char} (h : decodeLoop fuel text = some out) :
    out.length ≤ text.length ∧ ('%' ∈ text → out.length < text.length) := by
  induction fuel generalizing text out with
  | zero =>
    cases text with
    | nil =>
      cases h
      simp
    | cons c text => cases h
  | succ fuel ih =>
    cases text with
    | nil =>
      cases h
      simp
    | cons c text =>
      rw [decodeLoop] at h
      split_ifs at h with hc
      · split at h
        · next hescaped =>
          obtain ⟨out', hout, rfl⟩ := Option.map_eq_some_iff.mp h
          have hrest := (ih hout).1
          have hlength := length_of_escapedChar hescaped
          simp only [List.length_cons] at hlength ⊢
          omega
        · cases h
      · obtain ⟨out', hout, rfl⟩ := Option.map_eq_some_iff.mp h
        obtain ⟨hle, hlt⟩ := ih hout
        refine ⟨Nat.succ_le_succ hle, fun hmem => Nat.succ_lt_succ (hlt ?_)⟩
        exact (List.mem_cons.mp hmem).resolve_left (Ne.symm hc)

lemma length_of_decodeURIComponent {text : List Char} {s : String} (h : decodeURIComponent text = some s) :
    s.toList.length ≤ text.length ∧ ('%' ∈ text → s.toList.length < text.length) := by
  obtain ⟨out, hout, rfl⟩ := Option.map_eq_some_iff.mp h
  rw [String.toList_ofList]
  exact length_of_decodeLoop hout

/-! ### Matching -/

lemma ignoringCase_self (c : Char) : ignoringCase c c = true := by simp [ignoringCase]

/-- The last parameter takes all that is left. -/
lemma capture_last {t : List Char} (hne : t ≠ []) (hslash : '/' ∉ t) :
    capture notSlash (run ignoringCase notSlash trailingSlash []) [] t = some [t] := by
  have hinside : ∀ c ∈ t, notSlash c = true := by
    intro c hc
    simp only [notSlash, decide_eq_true_eq]
    rintro rfl
    exact hslash hc
  have hfirst : ∀ begun rest, begun ≠ [] → rest ≠ [] → t = begun ++ rest →
      run ignoringCase notSlash trailingSlash [] (rest ++ []) = none := by
    intro begun rest _ hr ht
    have hrest : rest ≠ ['/'] := by
      rintro rfl
      exact hslash (by simp [ht])
    simp [run, trailingSlash, hr, hrest]
  have hcapture := capture_append hne hinside rfl hfirst []
  rwa [List.append_nil, List.nil_append] at hcapture

lemma run_token {t : List Char} (hne : t ≠ []) (hslash : '/' ∉ t) :
    run ignoringCase notSlash trailingSlash [.literal delimiter, .capture] (delimiter ++ t) = some [t] := by
  rw [run, strip_append ignoringCase_self, Option.bind_some, run, capture_last hne hslash]

/-- The delimiter begins with its only `&`, so it does not begin inside a name and end behind it. -/
lemma strip_delimiter {r more rest : List Char} (hr : r ≠ [])
    (h : strip ignoringCase delimiter (r ++ (delimiter ++ more)) = some rest) :
    ∃ rest', strip ignoringCase delimiter r = some rest' := by
  cases r with
  | nil => exact absurd rfl hr
  | cons c r =>
    have hsplit : c :: r ++ (delimiter ++ more) = c :: (r ++ '&' :: (['t', 'o', 'k', 'e', 'n', '='] ++ more)) := rfl
    rw [hsplit, delimiter_eq, strip] at h
    rw [delimiter_eq, strip]
    split_ifs at h with hc
    rw [if_pos hc]
    have honly : ['t', 'o', 'k', 'e', 'n', '='].all (fun a => !ignoringCase a '&') = true := by decide
    exact strip_of_strip_append (fun a ha => by simpa using List.all_eq_true.mp honly a ha) h

/-- A name that the delimiter does not cut short is captured whole. -/
lemma run_link {path u t : List Char} (hu : u ≠ []) (huslash : '/' ∉ u)
    (hcut : occurs ignoringCase delimiter u.tail = false) (ht : t ≠ []) (htslash : '/' ∉ t) :
    run ignoringCase notSlash trailingSlash [.literal path, .capture, .literal delimiter, .capture]
      (path ++ (u ++ (delimiter ++ t))) = some [u, t] := by
  have hinside : ∀ c ∈ u, notSlash c = true := by
    intro c hc
    simp only [notSlash, decide_eq_true_eq]
    rintro rfl
    exact huslash hc
  rw [run, strip_append ignoringCase_self, Option.bind_some, run]
  refine capture_append hu hinside (run_token ht htslash) (fun begun rest hb hr hword => ?_) []
  have hsuffix : rest <:+ u.tail := by
    cases begun with
    | nil => exact absurd rfl hb
    | cons c begun =>
      rw [hword]
      exact List.suffix_append begun rest
  have hnone := occurs_eq_false.mp hcut rest hsuffix
  rw [run]
  cases hstrip : strip ignoringCase delimiter (rest ++ (delimiter ++ t)) with
  | none => rfl
  | some after =>
    obtain ⟨after', hafter⟩ := strip_delimiter hr hstrip
    rw [hnone] at hafter
    cases hafter

/-- What a link's route captures: the name ends where the delimiter comes first. -/
lemma exists_of_run_link {path input : List Char} {captures : List (List Char)}
    (h : run ignoringCase notSlash trailingSlash [.literal path, .capture, .literal delimiter, .capture]
      (path ++ input) = some captures) :
    ∃ w middle v excess, captures = [w, v] ∧ input = w ++ (middle ++ (v ++ excess)) ∧
      middle.length = delimiter.length ∧ '/' ∉ w ∧
      ∀ begun rest, begun ≠ [] → rest ≠ [] → w = begun ++ rest →
        run ignoringCase notSlash trailingSlash [.literal delimiter, .capture]
          (rest ++ (middle ++ (v ++ excess))) = none := by
  rw [run, strip_append ignoringCase_self, Option.bind_some, run] at h
  obtain ⟨w, behind, more, rfl, rfl, -, hinside, hnext, hfirst⟩ := exists_of_capture h
  rw [run] at hnext
  obtain ⟨left, hstrip, hlast⟩ := Option.bind_eq_some_iff.mp hnext
  obtain ⟨middle, rfl, hlength⟩ := exists_of_strip hstrip
  rw [run] at hlast
  obtain ⟨v, excess, more, rfl, rfl, -, -, hfinish, -⟩ := exists_of_capture hlast
  rw [run] at hfinish
  split_ifs at hfinish
  obtain rfl := Option.some.inj hfinish
  refine ⟨w, middle, v, excess, rfl, rfl, hlength, fun hmem => ?_, hfirst⟩
  have hslash := hinside '/' hmem
  simp [notSlash] at hslash

/-- A delimiter inside a name cuts it short. -/
lemma run_of_strip {rest after more : List Char} (hstrip : strip ignoringCase delimiter rest = some after)
    (hne : more ≠ []) (hslash : '/' ∉ rest ++ more) :
    run ignoringCase notSlash trailingSlash [.literal delimiter, .capture] (rest ++ more) = some [after ++ more] := by
  obtain ⟨taken, rfl, -⟩ := exists_of_strip hstrip
  have hleft : '/' ∉ after ++ more := by
    intro hmem
    rw [List.append_assoc] at hslash
    exact hslash (List.mem_append_right taken hmem)
  rw [run, strip_append_of_strip hstrip, Option.bind_some, run, capture_last (by simp [hne]) hleft]

/-- Where no shorter beginning of a name would do, the delimiter does not occur behind its first character. -/
lemma no_delimiter_of_first {u more : List Char} (hne : more ≠ []) (hslash : '/' ∉ u ++ more)
    (hfirst : ∀ begun rest, begun ≠ [] → rest ≠ [] → u = begun ++ rest →
      run ignoringCase notSlash trailingSlash [.literal delimiter, .capture] (rest ++ more) = none) :
    occurs ignoringCase delimiter u.tail = false := by
  refine occurs_eq_false.mpr fun rest hsuffix => ?_
  cases u with
  | nil =>
    obtain rfl := List.suffix_nil.mp hsuffix
    rfl
  | cons c word =>
    obtain ⟨begun, rfl⟩ := hsuffix
    cases hstrip : strip ignoringCase delimiter rest with
    | none => rfl
    | some after =>
      have hrest : rest ≠ [] := by
        rintro rfl
        cases hstrip
      have hleft : '/' ∉ rest ++ more := by
        intro hmem
        exact hslash (List.mem_cons_of_mem c (by simpa using Or.inr (List.mem_append.mp hmem)))
      have hcut := hfirst (c :: begun) rest (by simp) hrest rfl
      rw [run_of_strip hstrip hne hleft] at hcut
      cases hcut

/-! ### Dispatching a link -/

lemma IsToken.char {t : String} (h : IsToken t) {c : Char} (hc : c ∈ t.toList) :
    c ≠ '/' ∧ c ≠ '?' ∧ c ≠ '#' ∧ c ≠ '%' := by
  have hhex := h.2 c hc
  refine ⟨?_, ?_, ?_, ?_⟩ <;> rintro rfl <;> revert hhex <;> decide

lemma IsToken.ne_nil {t : String} (h : IsToken t) : t.toList ≠ [] := by
  intro hnil
  have hlength := h.1
  simp [hnil] at hlength

/-- The text of a link behind its path. -/
def linkTail (u t : String) : List Char := u.toList ++ (delimiter ++ t.toList)

lemma length_linkTail (u t : String) :
    (linkTail u t).length = u.toList.length + (delimiter.length + t.toList.length) := by
  simp [linkTail]

lemma pathname_link {path : String} (hpath : ∀ c ∈ path.toList, c ≠ '?' ∧ c ≠ '#') (u t : String) :
    pathname (path ++ u ++ "&token=" ++ t) =
      path.toList ++ (linkTail u t).takeWhile (fun c => c ≠ '?' ∧ c ≠ '#') := by
  have htext : (path ++ u ++ "&token=" ++ t).toList = path.toList ++ linkTail u t := by
    simp [linkTail, delimiter_eq]
  rw [pathname, htext]
  exact List.takeWhile_append_of_pos fun c hc => decide_eq_true (hpath c hc)

lemma mem_delimiter {t : String} (ht : IsToken t) {c : Char} (hc : c ∈ delimiter ++ t.toList) :
    c ≠ '/' ∧ c ≠ '?' ∧ c ≠ '#' ∧ c ≠ '%' := by
  rcases List.mem_append.mp hc with hc | hc
  · revert hc
    simp only [delimiter_eq, List.mem_cons, List.not_mem_nil, or_false]
    rintro (rfl | rfl | rfl | rfl | rfl | rfl | rfl) <;> decide
  · exact ht.char hc

lemma mem_linkTail {u t : String} (hlink : Linkable u) (ht : IsToken t) {c : Char} (hc : c ∈ linkTail u t) :
    c ≠ '/' ∧ c ≠ '?' ∧ c ≠ '#' ∧ c ≠ '%' := by
  rcases List.mem_append.mp hc with hc | hc
  exacts [hlink.1 c hc, mem_delimiter ht hc]

/-- The route of a link takes name and token as they were written. -/
lemma matchRoute_link {path u t : String} (hpath : ∀ c ∈ path.toList, c ≠ '?' ∧ c ≠ '#') (hu : u ≠ "")
    (hlink : Linkable u) (ht : IsToken t) (request : String → String → Request) :
    matchRoute (Route.link path request).pattern (path ++ u ++ "&token=" ++ t) = some [u.toList, t.toList] := by
  have hclean : (linkTail u t).takeWhile (fun c => c ≠ '?' ∧ c ≠ '#') = linkTail u t :=
    List.takeWhile_eq_self_iff.mpr fun c hc =>
      decide_eq_true ⟨(mem_linkTail hlink ht hc).2.1, (mem_linkTail hlink ht hc).2.2.1⟩
  rw [matchRoute, pathname_link hpath, hclean]
  exact run_link (by simpa using hu) (fun hmem => (hlink.1 _ hmem).1 rfl) hlink.2 ht.ne_nil
    (fun hmem => (ht.char hmem).1 rfl)

/-- Only such a name is read back: the captures have the length of the link, so nothing was cut off,
decoded or left over. -/
lemma linkable_of_matchRoute {path u t : String} (hpath : ∀ c ∈ path.toList, c ≠ '?' ∧ c ≠ '#')
    (ht : IsToken t) {request : String → String → Request} {captures : List (List Char)}
    (hmatch : matchRoute (Route.link path request).pattern (path ++ u ++ "&token=" ++ t) = some captures)
    (hdecode : captures.mapM decodeURIComponent = some [u, t]) : Linkable u := by
  rw [matchRoute, pathname_link hpath] at hmatch
  obtain ⟨w, middle, v, excess, rfl, hinput, hmiddle, hslash, hfirst⟩ := exists_of_run_link hmatch
  obtain ⟨hw, hv⟩ : decodeURIComponent w = some u ∧ decodeURIComponent v = some t := by
    simpa [List.mapM_cons, Option.bind_eq_some_iff] using hdecode
  obtain ⟨hwle, hwlt⟩ := length_of_decodeURIComponent hw
  obtain ⟨hvle, -⟩ := length_of_decodeURIComponent hv
  have hlength := congrArg List.length hinput
  simp only [List.length_append, hmiddle] at hlength
  have hprefix := List.takeWhile_prefix (l := linkTail u t) (fun c => c ≠ '?' ∧ c ≠ '#')
  have hshort := hprefix.length_le
  have hwhole := length_linkTail u t
  have hall := hprefix.eq_of_length_le (by omega)
  rw [hall] at hinput hlength
  obtain ⟨rfl, hbehind⟩ := List.append_inj hinput (by omega)
  rw [← hbehind] at hfirst
  refine ⟨fun c hc => ⟨?_, ?_, ?_, ?_⟩, ?_⟩
  · rintro rfl
    exact hslash hc
  · exact (of_decide_eq_true (List.takeWhile_eq_self_iff.mp hall c (List.mem_append_left _ hc))).1
  · exact (of_decide_eq_true (List.takeWhile_eq_self_iff.mp hall c (List.mem_append_left _ hc))).2
  · rintro rfl
    exact absurd (hwlt hc) (by omega)
  · refine no_delimiter_of_first (by simp [delimiter_eq]) (fun hmem => ?_) hfirst
    rcases List.mem_append.mp hmem with hmem | hmem
    exacts [hslash hmem, (mem_delimiter ht hmem).1 rfl]

/-! ### The route table -/

/-- Routes that do not match are passed over. -/
lemma dispatch_append {url : String} {skipped : List Route}
    (h : ∀ route ∈ skipped, matchRoute route.pattern url = none) (routes : List Route) :
    dispatch url (skipped ++ routes) = dispatch url routes := by
  induction skipped with
  | nil => rfl
  | cons route skipped ih =>
    rw [List.cons_append, dispatch, h route List.mem_cons_self]
    exact ih fun r hr => h r (List.mem_cons_of_mem route hr)

lemma params_of_request {path url uid token : String} {request : String → String → Request}
    (hinj : Function.Injective2 request) {params : List String}
    (h : (Route.link path request).request url params = some (request uid token)) : params = [uid, token] := by
  match params, h with
  | [a, b], h =>
    obtain ⟨rfl, rfl⟩ := hinj (Option.some.inj h)
    rfl

/-- A link that only its own route can match is read back exactly if its name is linkable. -/
lemma dispatch_link_iff {path u t : String} (hpath : ∀ c ∈ path.toList, c ≠ '?' ∧ c ≠ '#') (hu : u ≠ "")
    (ht : IsToken t) {request : String → String → Request} (hinj : Function.Injective2 request)
    {before behind : List Route}
    (hbefore : ∀ route ∈ before, matchRoute route.pattern (path ++ u ++ "&token=" ++ t) = none)
    (hbehind : ∀ route ∈ behind, matchRoute route.pattern (path ++ u ++ "&token=" ++ t) = none) :
    dispatch (path ++ u ++ "&token=" ++ t) (before ++ Route.link path request :: behind) =
      .handled (request u t) ↔ Linkable u := by
  rw [dispatch_append hbefore, dispatch]
  constructor
  · intro h
    cases hmatch : matchRoute (Route.link path request).pattern (path ++ u ++ "&token=" ++ t) with
    | none =>
      have hnone := dispatch_append hbehind []
      rw [List.append_nil] at hnone
      simp [hmatch, hnone, dispatch] at h
    | some captures =>
      refine linkable_of_matchRoute hpath ht hmatch ?_
      rw [hmatch] at h
      cases hdecode : captures.mapM decodeURIComponent with
      | none => simp [hdecode] at h
      | some params =>
        simp only [hdecode] at h
        cases hrequest : (Route.link path request).request (path ++ u ++ "&token=" ++ t) params with
        | none => simp [hrequest] at h
        | some r =>
          rw [hrequest] at h
          cases h
          rw [params_of_request hinj hrequest]
  · intro hlink
    have hname : decodeURIComponent u.toList = some u := by
      rw [decodeURIComponent_of_no_percent fun hmem => (hlink.1 _ hmem).2.2.2 rfl, String.ofList_toList]
    have htoken : decodeURIComponent t.toList = some t := by
      rw [decodeURIComponent_of_no_percent fun hmem => (ht.char hmem).2.2.2 rfl, String.ofList_toList]
    rw [matchRoute_link hpath hu hlink ht]
    simp [List.mapM_cons, hname, htoken, Route.link]

/-- The other routes differ from a link in its path. -/
lemma matchRoute_verify_eq_none (u t : String) :
    (∀ route ∈ getRoutes.take 6, matchRoute route.pattern (verifyUrl (.str u) t) = none) ∧
      ∀ route ∈ getRoutes.drop 7, matchRoute route.pattern (verifyUrl (.str u) t) = none := by
  have hpath : ∀ c ∈ "/verify/user=".toList, c ≠ '?' ∧ c ≠ '#' := by simp
  have hname : pathname (verifyUrl (.str u) t) = _ := pathname_link hpath u t
  simp only [getRoutes, List.take, List.drop, List.forall_mem_cons, matchRoute, hname]
  refine ⟨⟨rfl, rfl, rfl, rfl, rfl, rfl, ?_⟩, rfl, rfl, rfl, ?_⟩ <;> simp

lemma matchRoute_newPassword_eq_none (u t : String) :
    ∀ route ∈ getRoutes.take 9, matchRoute route.pattern (newPasswordUrl (.str u) t) = none := by
  have hpath : ∀ c ∈ "/new_password/user=".toList, c ≠ '?' ∧ c ≠ '#' := by simp
  have hname : pathname (newPasswordUrl (.str u) t) = _ := pathname_link hpath u t
  simp only [getRoutes, List.take, List.forall_mem_cons, matchRoute, hname]
  refine ⟨rfl, rfl, rfl, rfl, rfl, rfl, rfl, rfl, rfl, ?_⟩
  simp

/-- Both links of a name lead to their handlers, with the name and the token that were written, exactly
if the name has none of `/`, `?`, `#`, `%` and no `&token=` behind its first character. -/
theorem links_decode_iff (u t : String) (hu : u ≠ "") (ht : IsToken t) :
    (dispatchGet (verifyUrl (.str u) t) = .handled (.getVerify u t) ↔ Linkable u) ∧
      (dispatchGet (newPasswordUrl (.str u) t) = .handled (.getNewPassword u t) ↔ Linkable u) := by
  constructor
  · have hinj : Function.Injective2 Request.getVerify := fun _ _ _ _ h => by simpa using h
    exact dispatch_link_iff (by simp) hu ht hinj (matchRoute_verify_eq_none u t).1 (matchRoute_verify_eq_none u t).2
  · have hinj : Function.Injective2 Request.getNewPassword := fun _ _ _ _ h => by simpa using h
    exact dispatch_link_iff (by simp) hu ht hinj (matchRoute_newPassword_eq_none u t) (by simp)

theorem links_decode_alice :
    let t := "2c26b46b68ffc68ff99b453c1d30413413422d706483bfa0f98a5e886266e7ae"
    IsToken t ∧ dispatchGet (verifyUrl (.str "alice") t) = .handled (.getVerify "alice" t) ∧
      dispatchGet (newPasswordUrl (.str "alice") t) = .handled (.getNewPassword "alice" t) := by
  intro t
  have ht : IsToken t := by decide +kernel
  have hlink : Linkable "alice" := by decide +kernel
  have hiff := links_decode_iff "alice" t (by decide) ht
  exact ⟨ht, hiff.1.mpr hlink, hiff.2.mpr hlink⟩

/-- Accepted names whose links lead elsewhere: to no route, to an error of the decoding, or to the
handler with another name. -/
theorem links_lead_elsewhere :
    let t := "2c26b46b68ffc68ff99b453c1d30413413422d706483bfa0f98a5e886266e7ae"
    (∀ u ∈ ["a/b", "a?b", "a#b", "100%", "%41", "a&token=b"],
      ReportsCreated (site []) 0 (.str u) (.str "secret") (.str "mail@example.org") 1700000000000) ∧
    (∀ u ∈ ["a/b", "a?b", "a#b"],
      dispatchGet (verifyUrl (.str u) t) = .notFound ∧ dispatchGet (newPasswordUrl (.str u) t) = .notFound) ∧
    dispatchGet (verifyUrl (.str "100%") t) = .uriError ∧
    dispatchGet (verifyUrl (.str "%41") t) = .handled (.getVerify "A" t) ∧
    dispatchGet (verifyUrl (.str "a&token=b") t) = .handled (.getVerify "a" ("b&token=" ++ t)) := by
  decide +kernel

end ExpressAuth.Proofs
