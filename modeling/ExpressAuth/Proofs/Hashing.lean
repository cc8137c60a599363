import ExpressAuth.Proofs.Credentials

/-!
# The bytes of a password

`admin.py` hashes the UTF-8 bytes of name and password, the web process the low byte of each
UTF-16 unit. The two agree on ASCII text and on no other, and the second forgets everything above
the low byte.
-/

namespace ExpressAuth.Proofs

lemma length_utf8EncodeChar_eq (c : Char) :
    (String.utf8EncodeChar c).length =
      if c.toNat ≤ 0x7f then 1 else if c.toNat ≤ 0x7ff then 2 else if c.toNat ≤ 0xffff then 3 else 4 := by
  rw [String.length_utf8EncodeChar, Char.utf8Size]
  simp only [UInt32.le_iff_toNat_le]
  rfl

lemma length_utf16Units (c : Char) : (utf16Units c).length = if c.toNat < 0x10000 then 1 else 2 := by
  unfold utf16Units
  split_ifs <;> rfl

lemma length_utf16Units_le (c : Char) : (utf16Units c).length ≤ (String.utf8EncodeChar c).length := by
  rw [length_utf16Units, length_utf8EncodeChar_eq]
  split_ifs <;> omega

/-- A character beyond ASCII has more bytes than units. -/
lemma length_utf16Units_lt {c : Char} (h : 128 ≤ c.toNat) :
    (utf16Units c).length < (String.utf8EncodeChar c).length := by
  rw [length_utf16Units, length_utf8EncodeChar_eq]
  split_ifs <;> omega

lemma length_binaryBytes_le (cs : List Char) :
    ((cs.flatMap utf16Units).map UInt8.ofNat).length ≤ (cs.flatMap String.utf8EncodeChar).length := by
  induction cs with
  | nil => exact le_rfl
  | cons c cs ih =>
    have hc := length_utf16Units_le c
    simp only [List.flatMap_cons, List.map_append, List.length_append, List.length_map] at ih ⊢
    omega

lemma length_binaryBytes_lt {cs : List Char} {c : Char} (hmem : c ∈ cs) (h : 128 ≤ c.toNat) :
    ((cs.flatMap utf16Units).map UInt8.ofNat).length < (cs.flatMap String.utf8EncodeChar).length := by
  induction cs with
  | nil => cases hmem
  | cons d cs ih =>
    have hd := length_utf16Units_le d
    have hcs := length_binaryBytes_le cs
    simp only [List.flatMap_cons, List.map_append, List.length_append, List.length_map] at ih hcs ⊢
    rcases List.mem_cons.mp hmem with rfl | hmem
    · have hc := length_utf16Units_lt h
      omega
    · have hlt := ih hmem
      omega

/-- Both processes hash the same bytes exactly of an ASCII text. -/
lemma utf8Bytes_eq_binaryBytes_iff (s : String) :
    utf8Bytes s = binaryBytes s ↔ ∀ c ∈ s.toList, c.toNat < 128 := by
  refine ⟨fun heq c hc => ?_, AdminTool.utf8Bytes_of_ascii⟩
  by_contra hge
  have hlt := length_binaryBytes_lt hc (not_lt.mp hge)
  rw [utf8Bytes_eq_flatMap, binaryBytes] at heq
  rw [heq] at hlt
  exact lt_irrefl _ hlt

/-! ### What the low bytes keep -/

lemma binaryBytes_append (s t : String) : binaryBytes (s ++ t) = binaryBytes s ++ binaryBytes t := by
  simp [binaryBytes]

lemma binaryBytes_of_latin {s : String} (h : ∀ c ∈ s.toList, c.toNat < 256) :
    binaryBytes s = s.toList.map (fun c => UInt8.ofNat c.toNat) := by
  have hunits : s.toList.flatMap utf16Units = s.toList.map Char.toNat := by
    rw [List.map_eq_flatMap]
    apply List.flatMap_congr
    intro c hc
    have hlt := h c hc
    exact if_pos (by omega)
  rw [binaryBytes, hunits, List.map_map]
  rfl

/-- Text whose characters fit into a byte can be read back. -/
lemma map_ofNat_binaryBytes {s : String} (h : ∀ c ∈ s.toList, c.toNat < 256) :
    (binaryBytes s).map (fun b => Char.ofNat b.toNat) = s.toList := by
  rw [binaryBytes_of_latin h, List.map_map]
  refine (List.map_congr_left fun c hc => ?_).trans (List.map_id _)
  rw [Function.comp_apply, UInt8.toNat_ofNat_of_lt' (h c hc), Char.ofNat_toNat, id]

lemma binaryBytes_injOn : Set.InjOn binaryBytes {s | ∀ c ∈ s.toList, c.toNat < 256} := by
  intro s hs t ht heq
  apply String.toList_inj.mp
  rw [← map_ofNat_binaryBytes hs, ← map_ofNat_binaryBytes ht, heq]

/-- A password set on the command line is compared with the bytes the login takes from it. -/
lemma logsIn_of_set_admin {s : Site} {argv : List String} {now : ℕ} {u p : String}
    (hset : passwordSet s (.admin argv now) = some (u, p)) (hsame : utf8Bytes (u ++ p) = binaryBytes (u ++ p))
    (sid now' : ℕ) :
    LogsIn (s.step (.admin argv now)) sid (.str u) (.str p) now' ↔
      (s.step (.admin argv now)).store.hget u .valid = some "True" := by
  have hstored := password_of_set_admin hset
  rw [AdminTool.sha256Base64, hsame] at hstored
  rw [logsIn_iff rfl]
  constructor
  · rintro ⟨text, -, -, hvalid⟩
    exact hvalid
  · exact fun hvalid => ⟨u ++ p, rfl, hstored, hvalid⟩

/-- Both implementations hash the same bytes exactly of ASCII text, and of such text a login takes the
password that the command line has set. Different passwords of a user in Latin-1 are hashed from
different bytes. -/
theorem passwords_hashed_alike (u : String) :
    (∀ p, utf8Bytes (u ++ p) = binaryBytes (u ++ p) ↔ ∀ c ∈ (u ++ p).toList, c.toNat < 128) ∧
      (∀ p, (∀ c ∈ (u ++ p).toList, c.toNat < 128) → ∀ s argv now sid now',
        passwordSet s (.admin argv now) = some (u, p) →
        (LogsIn (s.step (.admin argv now)) sid (.str u) (.str p) now' ↔
          (s.step (.admin argv now)).store.hget u .valid = some "True")) ∧
      ∀ p₁ p₂ : String, (∀ c ∈ p₁.toList, c.toNat < 256) → (∀ c ∈ p₂.toList, c.toNat < 256) → p₁ ≠ p₂ →
        binaryBytes (u ++ p₁) ≠ binaryBytes (u ++ p₂) := by
  refine ⟨fun p => utf8Bytes_eq_binaryBytes_iff (u ++ p), fun p hascii s argv now sid now' hset => ?_, ?_⟩
  · exact logsIn_of_set_admin hset ((utf8Bytes_eq_binaryBytes_iff (u ++ p)).mpr hascii) sid now'
  · intro p₁ p₂ h₁ h₂ hne heq
    rw [binaryBytes_append, binaryBytes_append, List.append_cancel_left_eq] at heq
    exact hne (binaryBytes_injOn h₁ h₂ heq)

theorem passwords_hashed_alike_alice :
    LogsIn ((site aliceRegistered).step (.admin ["-p", "alice", "changed"] 1700000120000)) 1 (.str "alice")
        (.str "changed") 1700000180000 ∧
      binaryBytes ("alice" ++ "pässword") ≠ binaryBytes ("alice" ++ "passwörd") := by
  obtain ⟨-, hlogin, hbytes⟩ := passwords_hashed_alike "alice"
  refine ⟨?_, hbytes "pässword" "passwörd" (by simp) (by simp) (by decide)⟩
  exact (hlogin "changed" (by simp) (site aliceRegistered) ["-p", "alice", "changed"] 1700000120000 1 1700000180000
    (by decide +kernel)).mpr (by decide +kernel)

/-- `alice` gets the password `ä` on the command line and cannot log in with it. After the
password is `A`, the login takes `Ł` for it, whose low byte is that of `A`. -/
theorem passwords_hashed_differently :
    utf8Bytes ("alice" ++ "ä") ≠ binaryBytes ("alice" ++ "ä") ∧
      ¬LogsIn ((site aliceRegistered).step (.admin ["-p", "alice", "ä"] 1700000120000)) 1 (.str "alice") (.str "ä")
        1700000180000 ∧
      ((site aliceRegistered).step (.admin ["-p", "alice", "ä"] 1700000120000)).store.hget "alice" .valid =
        some "True" ∧
      "A" ≠ "Ł" ∧ binaryBytes ("alice" ++ "A") = binaryBytes ("alice" ++ "Ł") ∧
      LogsIn ((site aliceRegistered).step (.admin ["-p", "alice", "A"] 1700000120000)) 1 (.str "alice") (.str "Ł")
        1700000180000 := by
  decide +kernel

end ExpressAuth.Proofs
