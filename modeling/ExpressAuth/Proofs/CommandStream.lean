import ExpressAuth.Proofs.Commands

/-!
# The query buffer on a stream cut into reads

Between two reads the connection keeps the bytes of an unfinished request, or its arguments so far and the
bytes of the next one. Each read asks for so few bytes that the buffer never reaches the length at which a
missing line break counts as a protocol error.
-/

namespace ExpressAuth.Redis.Client

open Framing

/-! ### Line breaks -/

lemma strchr_line {line : List UInt8} (hreturn : 13 ∉ line) (hzero : 0 ∉ line) (rest : List UInt8) :
    strchr 13 (line ++ 13 :: rest) = some line.length := by
  induction line with
  | nil => rfl
  | cons a line ih =>
    rw [List.mem_cons, not_or] at hreturn hzero
    rw [List.cons_append, strchr, if_neg (Ne.symm hreturn.1), if_neg (Ne.symm hzero.1), ih hreturn.2 hzero.2]
    rfl

/-- A line break that is found in an unfinished line is its last byte. -/
lemma length_of_strchr {s : List UInt8} {i : ℕ} (hneed : readLine 13 s = .need) (h : strchr 13 s = some i) :
    s.length ≤ i + 1 := by
  induction s generalizing i with
  | nil => exact absurd h (by simp [strchr])
  | cons a s ih =>
    rw [strchr] at h
    by_cases ha : a = 13
    · rw [if_pos ha] at h
      obtain rfl := Option.some.inj h
      cases s with
      | nil => simp
      | cons b s => exact absurd hneed (by simp [readLine, ha])
    · rw [if_neg ha] at h
      split at h
      · exact absurd h (by simp)
      · obtain ⟨j, hj, rfl⟩ := Option.map_eq_some_iff.mp h
        rw [readLine_cons ha, Step.map_eq_need_iff] at hneed
        have hs := ih hneed hj
        rw [List.length_cons]
        omega

/-- Where a length is read, the line break is found behind its digits. -/
lemma readLength_eq_frame {s rest : List UInt8} {n : ℤ} (h : readLength s = .frame n rest) :
    ∃ line b ll, s = line ++ 13 :: b :: rest ∧ strchr 13 s = some line.length ∧ string2ll line = some ll ∧
      ll.toInt = n := by
  obtain ⟨line, mid, hline, hmid⟩ := Step.andThen_eq_frame_iff.mp h
  obtain ⟨hreturn, b, hs⟩ := readLine_eq_frame_iff.mp (readLineWithin_eq_frame hline)
  cases hll : string2ll line with
  | none =>
    rw [hll] at hmid
    exact absurd hmid (by simp)
  | some ll =>
    rw [hll] at hmid
    obtain ⟨rfl, rfl⟩ := Step.frame.inj hmid
    have hzero : (0 : UInt8) ∉ line := by
      rw [(string2ll_eq_some_iff line ll).mp hll, Decimal.text_eq_sign_append]
      intro hmem
      rcases List.mem_append.mp hmem with hmem | hmem
      · split at hmem <;> simp at hmem
      · exact absurd (Decimal.isDigit_of_mem hmem) (by decide)
    refine ⟨line, b, ll, hs, ?_, hll, rfl⟩
    rw [hs]
    exact strchr_line hreturn hzero _

lemma readLength_eq_need {s : List UInt8} (h : readLength s = .need) : readLine 13 s = .need ∧ s.length ≤ 32 := by
  rcases Step.andThen_eq_need_iff.mp h with hline | ⟨line, mid, -, hmid⟩
  · exact readLineWithin_eq_need hline
  · split at hmid <;> exact absurd hmid (by simp)

/-! ### The length of an argument -/

lemma argHeader_cons {type : UInt8} {s : List UInt8} (h : argHeader (type :: s) ≠ .bad) : type = 0x24 := by
  by_contra htype
  exact h (by rw [argHeader, if_neg htype])

lemma argHeader_le {s rest : List UInt8} {n : ℕ} (h : argHeader s = .frame n rest) : n ≤ 512 * 1024 * 1024 := by
  cases s with
  | nil => exact absurd h (by simp [argHeader])
  | cons type s =>
    obtain rfl := argHeader_cons (h.trans_ne (by simp))
    rw [argHeader, if_pos rfl] at h
    obtain ⟨m, mid, -, hmid⟩ := Step.andThen_eq_frame_iff.mp h
    split at hmid
    · exact absurd hmid (by simp)
    · obtain ⟨rfl, -⟩ := Step.frame.inj hmid
      omega

section Header

variable {c : Client} {pos : ℕ} {s : List UInt8} (hs : c.querybuf.drop pos = s)
include hs

lemma readBulkLength_need (hroom : c.querybuf.length ≤ PROTO_INLINE_MAX_SIZE) (h : argHeader s = .need) :
    c.readBulkLength pos = .wait c pos ∧ s.length ≤ 33 := by
  cases s with
  | nil =>
    rw [readBulkLength, hs, strchr]
    simp only [gt_iff_lt, if_neg (not_lt.mpr hroom), true_and, List.length_nil, Nat.zero_le]
  | cons type s =>
    obtain rfl := argHeader_cons (h.trans_ne (by simp))
    rw [argHeader, if_pos rfl] at h
    have hlength : readLength s = .need := by
      rcases Step.andThen_eq_need_iff.mp h with h | ⟨n, mid, -, hmid⟩
      · exact h
      · split at hmid <;> exact absurd hmid (by simp)
    obtain ⟨hline, hshort⟩ := readLength_eq_need hlength
    refine ⟨?_, by rw [List.length_cons]; omega⟩
    rw [readBulkLength, hs, strchr, if_neg (by decide), if_neg (by decide)]
    cases hfound : strchr 13 s with
    | none => simp only [Option.map_none, if_neg (not_lt.mpr hroom)]
    | some i =>
      have hlast := length_of_strchr hline hfound
      have hbuffer := congrArg List.length hs
      rw [List.length_drop, List.length_cons] at hbuffer
      simp only [Option.map_some]
      rw [if_pos (by omega)]

lemma readBulkLength_frame {n : ℕ} {rest : List UInt8} (h : argHeader s = .frame n rest) :
    ∃ pos', c.querybuf.drop pos' = rest ∧ pos' ≤ c.querybuf.length ∧ c.readBulkLength pos =
      if n ≥ PROTO_MBULK_BIG_ARG then .next { c with querybuf := rest, bulklen := some n } 0
      else .next { c with bulklen := some n } pos' := by
  cases s with
  | nil => exact absurd h (by simp [argHeader])
  | cons type s =>
    obtain rfl := argHeader_cons (h.trans_ne (by simp))
    rw [argHeader, if_pos rfl] at h
    obtain ⟨m, mid, hlength, hmid⟩ := Step.andThen_eq_frame_iff.mp h
    obtain ⟨line, b, ll, rfl, hfound, hll, rfl⟩ := readLength_eq_frame hlength
    split at hmid
    · exact absurd hmid (by simp)
    · next hrange =>
      obtain ⟨rfl, rfl⟩ := Step.frame.inj hmid
      have hlen := congrArg List.length hs
      simp only [List.length_drop, List.length_cons, List.length_append] at hlen
      have hget : c.querybuf[pos]? = some 0x24 := by rw [← List.head?_drop, hs, List.head?_cons]
      have hnext : c.querybuf.drop (pos + 1) = line ++ 13 :: b :: mid := by
        rw [← List.drop_drop, hs, List.drop_one, List.tail_cons]
      have hrest : c.querybuf.drop (pos + (line.length + 1) + 2) = mid := by
        rw [show pos + (line.length + 1) + 2 = pos + 1 + (line.length + 2) by omega, ← List.drop_drop, hnext,
          List.drop_length_add_append]
        rfl
      refine ⟨pos + (line.length + 1) + 2, hrest, by omega, ?_⟩
      rw [readBulkLength, hs, strchr, if_neg (by decide), if_neg (by decide), hfound]
      simp only [Option.map_some]
      rw [if_neg (by omega), if_neg (not_not.mpr hget), hnext, Nat.add_sub_cancel, List.take_left, hll]
      simp only [gt_iff_lt, if_neg hrange, hrest]

end Header

/-! ### One argument -/

/-- The next argument, given how much of it is known. -/
def readNext (bulklen : Option ℕ) (s : List UInt8) : Step UInt8 (List UInt8) :=
  match bulklen with
  | none => readArg s
  | some n => readBlock n 2 s

lemma stable_readNext (bulklen : Option ℕ) : Stable (readNext bulklen) := by
  cases bulklen with
  | none => exact stable_readArg
  | some n => exact stable_readBlock n 2

lemma readNext_shrinks {bulklen : Option ℕ} {s arg rest : List UInt8} (h : readNext bulklen s = .frame arg rest) :
    rest.length < s.length := by
  cases bulklen with
  | none =>
    obtain ⟨n, mid, hheader, hblock⟩ := Step.andThen_eq_frame_iff.mp h
    have hmid := (stable_argHeader.suffix hheader).length_le
    have hlen := length_of_readBlock hblock
    omega
  | some n =>
    have hlen := length_of_readBlock h
    omega

/-- The buffer is short enough for any line break to be found in time, or it holds no more than one large
argument. -/
def Room (c : Client) (pos : ℕ) : Prop :=
  c.querybuf.length ≤ PROTO_INLINE_MAX_SIZE ∨
    (pos = 0 ∧ ∃ n, c.bulklen = some n ∧ PROTO_MBULK_BIG_ARG ≤ n ∧ c.querybuf.length ≤ n + 2)

/-- What a client that waits has left to do for its next argument. -/
structure Waiting (c : Client) (s : List UInt8) : Prop where
  header : c.bulklen = none → s.length ≤ 33
  argument : ∀ n, c.bulklen = some n → s.length < n + 2 ∧ n ≤ 512 * 1024 * 1024

lemma readBulkArgument_need {c : Client} {pos n : ℕ} {s : List UInt8} (hs : c.querybuf.drop pos = s)
    (h : readBlock n 2 s = .need) : c.readBulkArgument pos n = .wait c pos ∧ s.length < n + 2 := by
  have hshort : s.length < n + 2 := by
    by_contra hlong
    rw [readBlock, if_neg hlong] at h
    exact absurd h (by simp)
  have hlen := congrArg List.length hs
  rw [List.length_drop] at hlen
  rw [readBulkArgument, if_pos (by omega)]
  exact ⟨rfl, hshort⟩

/-- A complete argument is taken off, whichever way it is copied. -/
lemma readBulkArgument_frame {c : Client} {pos n : ℕ} {s arg rest : List UInt8} (hs : c.querybuf.drop pos = s)
    (hroom : c.querybuf.length ≤ PROTO_INLINE_MAX_SIZE ∨
      (pos = 0 ∧ PROTO_MBULK_BIG_ARG ≤ n ∧ c.querybuf.length ≤ n + 2))
    (h : readBlock n 2 s = .frame arg rest) :
    ∃ querybuf pos', querybuf.drop pos' = rest ∧ querybuf.length ≤ PROTO_INLINE_MAX_SIZE ∧
      c.readBulkArgument pos n = .next { c with
        argv := c.argv ++ [arg], querybuf := querybuf, bulklen := none, multibulklen := c.multibulklen - 1 } pos' := by
  have hlong : ¬s.length < n + 2 := by
    intro hshort
    rw [readBlock, if_pos hshort] at h
    exact absurd h (by simp)
  rw [readBlock, if_neg hlong] at h
  obtain ⟨rfl, rfl⟩ := Step.frame.inj h
  have hlen := congrArg List.length hs
  rw [List.length_drop] at hlen
  rw [readBulkArgument, if_neg (by omega)]
  by_cases hwhole : pos = 0 ∧ n ≥ PROTO_MBULK_BIG_ARG ∧ c.querybuf.length = n + 2
  · rw [if_pos hwhole]
    obtain ⟨rfl, -, hexact⟩ := hwhole
    rw [List.drop_zero] at hs
    refine ⟨[], 0, ?_, by simp [PROTO_INLINE_MAX_SIZE], ?_⟩
    · rw [List.drop_zero, List.drop_eq_nil_of_le (by omega)]
    · rw [hexact, Nat.add_sub_cancel, hs]
  · have hsmall : c.querybuf.length ≤ PROTO_INLINE_MAX_SIZE := by
      rcases hroom with hsmall | ⟨hpos, hbig, hle⟩
      · exact hsmall
      · exact absurd ⟨hpos, hbig, by omega⟩ hwhole
    refine ⟨c.querybuf, pos + n + 2, ?_, hsmall, ?_⟩
    · rw [← hs, List.drop_drop, Nat.add_assoc]
    · rw [if_neg hwhole, hs]

/-- The client after one more argument. -/
def withArgument (c : Client) (arg querybuf : List UInt8) : Client :=
  { c with argv := c.argv ++ [arg], querybuf := querybuf, bulklen := none, multibulklen := c.multibulklen - 1 }

lemma readArgument_frame {c : Client} {pos : ℕ} {s arg rest : List UInt8} (hs : c.querybuf.drop pos = s)
    (hroom : Room c pos) (h : readNext c.bulklen s = .frame arg rest) :
    ∃ querybuf pos', querybuf.drop pos' = rest ∧ querybuf.length ≤ PROTO_INLINE_MAX_SIZE ∧
      c.readArgument pos = .next (c.withArgument arg querybuf) pos' := by
  rw [readArgument]
  cases hbulk : c.bulklen with
  | some n =>
    rw [hbulk] at h
    apply readBulkArgument_frame hs ?_ h
    rcases hroom with hsmall | ⟨hpos, m, hm, hbig, hle⟩
    · exact Or.inl hsmall
    · obtain rfl := Option.some.inj (hbulk.symm.trans hm)
      exact Or.inr ⟨hpos, hbig, hle⟩
  | none =>
    rw [hbulk] at h
    have hsmall : c.querybuf.length ≤ PROTO_INLINE_MAX_SIZE := by
      rcases hroom with hsmall | ⟨-, m, hm, -⟩
      · exact hsmall
      · exact absurd (hbulk.symm.trans hm) (by simp)
    obtain ⟨n, mid, hheader, hblock⟩ := Step.andThen_eq_frame_iff.mp h
    obtain ⟨pos', hmid, hpos', hlength⟩ := readBulkLength_frame hs hheader
    have hshort : mid.length ≤ PROTO_INLINE_MAX_SIZE := by
      rw [← hmid, List.length_drop]
      omega
    rw [hlength]
    by_cases hbig : n ≥ PROTO_MBULK_BIG_ARG
    · rw [if_pos hbig]
      exact readBulkArgument_frame (c := { c with querybuf := mid, bulklen := some n }) List.drop_zero
        (Or.inl hshort) hblock
    · rw [if_neg hbig]
      exact readBulkArgument_frame (c := { c with bulklen := some n }) hmid (Or.inl hsmall) hblock

/-- The client that waits, with its next argument as far as it is known. -/
def awaiting (c : Client) (querybuf : List UInt8) (bulklen : Option ℕ) : Client :=
  { c with querybuf := querybuf, bulklen := bulklen }

lemma readArgument_need {c : Client} {pos : ℕ} {s : List UInt8} (hs : c.querybuf.drop pos = s)
    (hroom : Room c pos) (hlimit : ∀ n, c.bulklen = some n → n ≤ 512 * 1024 * 1024)
    (h : readNext c.bulklen s = .need) :
    ∃ querybuf bulklen pos', c.readArgument pos = .wait (c.awaiting querybuf bulklen) pos' ∧
      Waiting (c.awaiting querybuf bulklen) (querybuf.drop pos') ∧
      ∀ t, readNext c.bulklen (s ++ t) = readNext bulklen (querybuf.drop pos' ++ t) := by
  rw [readArgument]
  cases hbulk : c.bulklen with
  | some n =>
    rw [hbulk] at h
    obtain ⟨hwait, hshort⟩ := readBulkArgument_need hs h
    refine ⟨c.querybuf, some n, pos, ?_, ⟨fun hnone => absurd hnone (by simp [awaiting]), ?_⟩, fun t => by rw [hs]⟩
    · simp only [hwait, awaiting, ← hbulk]
    · intro m hm
      obtain rfl := Option.some.inj hm
      rw [hs]
      exact ⟨hshort, hlimit n hbulk⟩
  | none =>
    rw [hbulk] at h
    have hsmall : c.querybuf.length ≤ PROTO_INLINE_MAX_SIZE := by
      rcases hroom with hsmall | ⟨-, m, hm, -⟩
      · exact hsmall
      · exact absurd (hbulk.symm.trans hm) (by simp)
    rcases Step.andThen_eq_need_iff.mp h with hheader | ⟨n, mid, hheader, hblock⟩
    · obtain ⟨hwait, hshort⟩ := readBulkLength_need hs hsmall hheader
      have hsame : c.awaiting c.querybuf none = c := by rw [awaiting, ← hbulk]
      refine ⟨c.querybuf, none, pos, ?_, ⟨fun _ => by rwa [hs], fun m hm => absurd hm (by simp [awaiting])⟩,
        fun t => by rw [hs]⟩
      rw [hwait, hsame]
    · obtain ⟨pos', hmid, hpos', hlength⟩ := readBulkLength_frame hs hheader
      have hle := argHeader_le hheader
      have hmore (t : List UInt8) : readNext none (s ++ t) = readNext (some n) (mid ++ t) := by
        rw [readNext, readArg, stable_argHeader.frame_append t hheader, Step.frame_andThen, readNext]
      rw [hlength]
      by_cases hbig : n ≥ PROTO_MBULK_BIG_ARG
      · have hstart : (c.awaiting mid (some n)).querybuf.drop 0 = mid := List.drop_zero
        obtain ⟨hwait, hshort⟩ := readBulkArgument_need hstart hblock
        refine ⟨mid, some n, 0, ?_, ⟨fun hnone => absurd hnone (by simp [awaiting]), fun m hm => ?_⟩, hmore⟩
        · rw [if_pos hbig]
          exact hwait
        · obtain rfl := Option.some.inj hm
          exact ⟨hshort, hle⟩
      · obtain ⟨hwait, hshort⟩ := readBulkArgument_need (c := c.awaiting c.querybuf (some n)) hmid hblock
        refine ⟨c.querybuf, some n, pos', ?_, ⟨fun hnone => absurd hnone (by simp [awaiting]), fun m hm => ?_⟩, ?_⟩
        · rw [if_neg hbig]
          exact hwait
        · obtain rfl := Option.some.inj hm
          rw [hmid]
          exact ⟨hshort, hle⟩
        · rw [hmid]
          exact hmore

/-! ### All arguments -/

/-- The request that the client is reading, as far as it is known. -/
def remaining (c : Client) (s : List UInt8) : Step UInt8 (List (List UInt8)) :=
  (readNext c.bulklen s).andThen (fun arg rest =>
    readTimes Redis.readArg (c.multibulklen - 1) (c.argv ++ [arg]) rest)

lemma remaining_shrinks {c : Client} {s rest : List UInt8} {args : List (List UInt8)}
    (h : c.remaining s = .frame args rest) : rest.length < s.length := by
  obtain ⟨arg, mid, harg, hmid⟩ := Step.andThen_eq_frame_iff.mp h
  exact ((stable_readTimes stable_readArg _ _).suffix hmid).length_le.trans_lt (readNext_shrinks harg)

/-- The client once all arguments are read. -/
def withRequest (c : Client) (args : List (List UInt8)) (querybuf : List UInt8) : Client :=
  { c with argv := args, querybuf := querybuf, bulklen := none, multibulklen := 0 }

lemma remaining_none {c : Client} (hbulk : c.bulklen = none) (hlen : c.multibulklen ≠ 0) (s : List UInt8) :
    c.remaining s = readTimes Redis.readArg c.multibulklen c.argv s := by
  obtain ⟨k, hk⟩ := Nat.exists_eq_succ_of_ne_zero hlen
  rw [remaining, hbulk, hk]
  rfl

lemma readArguments_frame {count : ℕ} {c : Client} {pos : ℕ} {rest : List UInt8} {args : List (List UInt8)}
    (hcount : c.multibulklen = count + 1) (hroom : Room c pos)
    (h : c.remaining (c.querybuf.drop pos) = .frame args rest) :
    ∃ querybuf pos', querybuf.drop pos' = rest ∧ querybuf.length ≤ PROTO_INLINE_MAX_SIZE ∧
      readArguments (count + 1) c pos = .next (c.withRequest args querybuf) pos' := by
  induction count generalizing c pos with
  | zero =>
    obtain ⟨arg, mid, harg, hmid⟩ := Step.andThen_eq_frame_iff.mp h
    obtain ⟨querybuf, pos', hdrop, hsmall, hread⟩ := readArgument_frame rfl hroom harg
    rw [hcount] at hmid
    obtain ⟨rfl, rfl⟩ := Step.frame.inj hmid
    refine ⟨querybuf, pos', hdrop, hsmall, ?_⟩
    simp only [readArguments, hread, withArgument, withRequest, hcount]
  | succ count ih =>
    obtain ⟨arg, mid, harg, hmid⟩ := Step.andThen_eq_frame_iff.mp h
    obtain ⟨querybuf, pos', hdrop, hsmall, hread⟩ := readArgument_frame rfl hroom harg
    have hcount' : (c.withArgument arg querybuf).multibulklen = count + 1 := by
      rw [withArgument]
      simp only
      omega
    have hnext : (c.withArgument arg querybuf).remaining (querybuf.drop pos') = .frame args rest := by
      rw [remaining_none rfl (by rw [hcount']; simp), hdrop]
      exact hmid
    obtain ⟨querybuf', pos'', hdrop', hsmall', hrest⟩ := ih hcount' (Or.inl hsmall) hnext
    refine ⟨querybuf', pos'', hdrop', hsmall', ?_⟩
    rw [readArguments, hread]
    exact hrest

/-- The client that waits inside a request. -/
structure Suspended (c c' : Client) (s : List UInt8) : Prop where
  kept : c'.multibulk = c.multibulk ∧ c'.halt = c.halt ∧ c'.commands = c.commands
  length : c'.multibulklen ≠ 0
  waiting : Waiting c' s

/-- The first argument is not complete. -/
lemma readArguments_wait {count : ℕ} {c : Client} {pos : ℕ} (hlen : c.multibulklen ≠ 0) (hroom : Room c pos)
    (hlimit : ∀ n, c.bulklen = some n → n ≤ 512 * 1024 * 1024)
    (h : readNext c.bulklen (c.querybuf.drop pos) = .need) :
    ∃ c' pos', readArguments (count + 1) c pos = .wait c' pos' ∧ Suspended c c' (c'.querybuf.drop pos') ∧
      ∀ t, c.remaining (c.querybuf.drop pos ++ t) = c'.remaining (c'.querybuf.drop pos' ++ t) := by
  obtain ⟨querybuf, bulklen, pos', hread, hwaiting, hmore⟩ := readArgument_need rfl hroom hlimit h
  refine ⟨c.awaiting querybuf bulklen, pos', ?_, ⟨⟨rfl, rfl, rfl⟩, hlen, hwaiting⟩, fun t => ?_⟩
  · rw [readArguments, hread]
  · rw [remaining, hmore]
    rfl

lemma readArguments_need {count : ℕ} {c : Client} {pos : ℕ} (hcount : c.multibulklen = count + 1)
    (hroom : Room c pos) (hlimit : ∀ n, c.bulklen = some n → n ≤ 512 * 1024 * 1024)
    (h : c.remaining (c.querybuf.drop pos) = .need) :
    ∃ c' pos', readArguments (count + 1) c pos = .wait c' pos' ∧ Suspended c c' (c'.querybuf.drop pos') ∧
      ∀ t, c.remaining (c.querybuf.drop pos ++ t) = c'.remaining (c'.querybuf.drop pos' ++ t) := by
  have hlen : c.multibulklen ≠ 0 := by omega
  induction count generalizing c pos with
  | zero =>
    rcases Step.andThen_eq_need_iff.mp h with harg | ⟨arg, mid, -, hmid⟩
    · exact readArguments_wait hlen hroom hlimit harg
    · rw [hcount] at hmid
      exact absurd hmid (by simp [readTimes])
  | succ count ih =>
    rcases Step.andThen_eq_need_iff.mp h with harg | ⟨arg, mid, harg, hmid⟩
    · exact readArguments_wait hlen hroom hlimit harg
    · obtain ⟨querybuf, pos', hdrop, hsmall, hread⟩ := readArgument_frame rfl hroom harg
      have hcount' : (c.withArgument arg querybuf).multibulklen = count + 1 := by
        rw [withArgument]
        simp only
        omega
      have hlen' : (c.withArgument arg querybuf).multibulklen ≠ 0 := by omega
      have hnext (t : List UInt8) : c.remaining (c.querybuf.drop pos ++ t) =
          (c.withArgument arg querybuf).remaining ((c.withArgument arg querybuf).querybuf.drop pos' ++ t) := by
        rw [remaining_none rfl hlen', remaining, (stable_readNext c.bulklen).frame_append t harg,
          Step.frame_andThen, ← hdrop]
        rfl
      have hneed : (c.withArgument arg querybuf).remaining
          ((c.withArgument arg querybuf).querybuf.drop pos') = .need := by
        have hnil := hnext []
        rw [List.append_nil, List.append_nil, h] at hnil
        exact hnil.symm
      obtain ⟨c', pos'', hwait, ⟨hkept, hlength, hwaiting⟩, hmore⟩ :=
        ih hcount' (Or.inl hsmall) (fun n hn => absurd hn (by simp [withArgument])) hneed hlen'
      refine ⟨c', pos'', ?_, ⟨hkept, hlength, hwaiting⟩, fun t => ?_⟩
      · rw [readArguments, hread]
        exact hwait
      · rw [hnext, hmore]

/-! ### One request -/

lemma processArguments_frame {c : Client} {pos : ℕ} {rest : List UInt8} {args : List (List UInt8)}
    (hlen : c.multibulklen ≠ 0) (hroom : Room c pos) (h : c.remaining (c.querybuf.drop pos) = .frame args rest) :
    c.processArguments pos = (c.withRequest args rest, true) ∧ rest.length ≤ PROTO_INLINE_MAX_SIZE := by
  obtain ⟨count, hcount⟩ := Nat.exists_eq_succ_of_ne_zero hlen
  obtain ⟨querybuf, pos', rfl, hsmall, hread⟩ := readArguments_frame hcount hroom h
  refine ⟨?_, ?_⟩
  · rw [processArguments, hcount, hread]
    rfl
  · rw [List.length_drop]
    omega

lemma processArguments_need {c : Client} {pos : ℕ} (hlen : c.multibulklen ≠ 0) (hroom : Room c pos)
    (hlimit : ∀ n, c.bulklen = some n → n ≤ 512 * 1024 * 1024) (h : c.remaining (c.querybuf.drop pos) = .need) :
    ∃ c', c.processArguments pos = (c', false) ∧ Suspended c c' c'.querybuf ∧
      ∀ t, c.remaining (c.querybuf.drop pos ++ t) = c'.remaining (c'.querybuf ++ t) := by
  obtain ⟨count, hcount⟩ := Nat.exists_eq_succ_of_ne_zero hlen
  obtain ⟨c', pos', hread, ⟨hkept, hlength, hwaiting⟩, hmore⟩ := readArguments_need hcount hroom hlimit h
  refine ⟨{ c' with querybuf := c'.querybuf.drop pos' }, ?_, ⟨hkept, hlength, ?_⟩, hmore⟩
  · rw [processArguments, hcount, hread]
  · exact ⟨hwaiting.header, hwaiting.argument⟩

/-- Nothing is known of the next request yet. -/
structure Fresh (c : Client) : Prop where
  length : c.multibulklen = 0
  bulk : c.bulklen = none
  args : c.argv = []

lemma readCommand_cons {type : UInt8} {s : List UInt8} (h : readCommand (type :: s) ≠ .bad) : type = 0x2a := by
  by_contra htype
  exact h (by rw [readCommand, if_neg htype])

/-- The number of arguments of a request at the front of the buffer. -/
lemma processMultibulkBuffer_of_count {c : Client} {s rest : List UInt8} {n : ℤ} (hfresh : Fresh c)
    (hs : c.querybuf = 0x2a :: s) (h : readLength s = .frame n rest) :
    ∃ pos, c.querybuf.drop pos = rest ∧ c.processMultibulkBuffer =
      if n > 1024 * 1024 then (c.setProtocolError "Protocol error: invalid multibulk length" 0, false)
      else if n ≤ 0 then ({ c with querybuf := rest }, true)
      else processArguments { c with multibulklen := n.toNat, argv := [] } pos := by
  obtain ⟨line, b, ll, rfl, hfound, hll, rfl⟩ := readLength_eq_frame h
  have hdrop : c.querybuf.drop 1 = line ++ 13 :: b :: rest := by rw [hs, List.drop_one, List.tail_cons]
  have hrest : c.querybuf.drop (line.length + 1 + 2) = rest := by
    rw [show line.length + 1 + 2 = 1 + (line.length + 2) by omega, ← List.drop_drop, hdrop,
      List.drop_length_add_append]
    rfl
  have hlen : ¬line.length + 1 + 2 > c.querybuf.length := by
    rw [hs]
    simp only [List.length_cons, List.length_append]
    omega
  have hstrchr : strchr 13 c.querybuf = some (line.length + 1) := by
    rw [hs, strchr, if_neg (by decide), if_neg (by decide), hfound]
    rfl
  refine ⟨line.length + 1 + 2, hrest, ?_⟩
  rw [processMultibulkBuffer, if_pos hfresh.length, hstrchr]
  simp only
  rw [if_neg hlen, hdrop, Nat.add_sub_cancel, List.take_left, hll, hrest]

/-- A request whose number of arguments has just been read. -/
lemma remaining_of_count {c : Client} {n : ℤ} (hbulk : c.bulklen = none) (hn : ¬n ≤ 0) (s : List UInt8) :
    remaining { c with multibulklen := n.toNat, argv := [] } s = readTimes Redis.readArg n.toNat [] s :=
  remaining_none (c := { c with multibulklen := n.toNat, argv := [] }) hbulk (show n.toNat ≠ 0 by omega) s

lemma processMultibulkBuffer_frame {c : Client} {rest : List UInt8} {args : List (List UInt8)} (hfresh : Fresh c)
    (hroom : c.querybuf.length ≤ PROTO_INLINE_MAX_SIZE) (h : readCommand c.querybuf = .frame args rest) :
    c.processMultibulkBuffer = (c.withRequest args rest, true) := by
  cases hbuf : c.querybuf with
  | nil =>
    rw [hbuf] at h
    exact absurd h (by simp [readCommand])
  | cons type s =>
    rw [hbuf] at h
    obtain rfl := readCommand_cons (h.trans_ne (by simp))
    rw [readCommand, if_pos rfl] at h
    obtain ⟨n, mid, hlength, hargs⟩ := Step.andThen_eq_frame_iff.mp h
    obtain ⟨pos, hpos, hprocess⟩ := processMultibulkBuffer_of_count hfresh hbuf hlength
    rw [hprocess]
    rw [readArgs] at hargs
    by_cases hmany : 1024 * 1024 < n
    · rw [if_pos hmany] at hargs
      exact absurd hargs (by simp)
    · rw [if_neg hmany] at hargs ⊢
      by_cases hnone : n ≤ 0
      · rw [if_pos hnone] at hargs ⊢
        obtain ⟨rfl, rfl⟩ := Step.frame.inj hargs
        rw [withRequest, ← hfresh.args, ← hfresh.bulk, ← hfresh.length]
      · rw [if_neg hnone] at hargs ⊢
        rw [← remaining_of_count hfresh.bulk hnone, ← hpos] at hargs
        have hlen : n.toNat ≠ 0 := by omega
        exact (processArguments_frame (c := { c with multibulklen := n.toNat, argv := [] }) hlen (Or.inl hroom) hargs).1

/-- The client holds the unfinished part `r` of the stream: at the beginning of a request, or inside it. -/
inductive Holding (c : Client) : List UInt8 → Prop where
  | start (hfresh : Fresh c) (hshort : c.querybuf.length ≤ 33) : Holding c c.querybuf
  | request {r : List UInt8} (hlen : c.multibulklen ≠ 0) (hmulti : c.multibulk = true)
      (hwaiting : Waiting c c.querybuf) (hread : ∀ t, readCommand (r ++ t) = c.remaining (c.querybuf ++ t)) :
      Holding c r

lemma processMultibulkBuffer_need {c : Client} (hfresh : Fresh c) (hmulti : c.multibulk = true)
    (hroom : c.querybuf.length ≤ PROTO_INLINE_MAX_SIZE) (hne : c.querybuf ≠ [])
    (h : readCommand c.querybuf = .need) :
    ∃ c', c.processMultibulkBuffer = (c', false) ∧ c'.halt = c.halt ∧ c'.commands = c.commands ∧
      Holding c' c.querybuf := by
  cases hbuf : c.querybuf with
  | nil => exact absurd hbuf hne
  | cons type s =>
    have hcommand := h
    rw [hbuf] at h
    obtain rfl := readCommand_cons (h.trans_ne (by simp))
    rw [readCommand, if_pos rfl] at h
    rcases Step.andThen_eq_need_iff.mp h with hlength | ⟨n, mid, hlength, hargs⟩
    · obtain ⟨hline, hshort⟩ := readLength_eq_need hlength
      have hholding : Holding c c.querybuf := by
        refine .start hfresh ?_
        rw [hbuf, List.length_cons]
        omega
      refine ⟨c, ?_, rfl, rfl, hbuf ▸ hholding⟩
      rw [processMultibulkBuffer, if_pos hfresh.length]
      cases hfound : strchr 13 c.querybuf with
      | none => simp only [gt_iff_lt, if_neg (not_lt.mpr hroom)]
      | some i =>
        rw [hbuf, strchr, if_neg (by decide), if_neg (by decide)] at hfound
        obtain ⟨j, hj, rfl⟩ := Option.map_eq_some_iff.mp hfound
        have hlast := length_of_strchr hline hj
        simp only
        rw [if_pos]
        rw [hbuf, List.length_cons]
        omega
    · obtain ⟨pos, hpos, hprocess⟩ := processMultibulkBuffer_of_count hfresh hbuf hlength
      rw [hprocess]
      have hmany : ¬1024 * 1024 < n := by
        intro hmany
        rw [readArgs, if_pos hmany] at hargs
        exact absurd hargs (by simp)
      have hsome : ¬n ≤ 0 := by
        intro hnone
        rw [readArgs, if_neg hmany, if_pos hnone] at hargs
        exact absurd hargs (by simp)
      have hread (t : List UInt8) : readCommand (0x2a :: s ++ t) =
          remaining { c with multibulklen := n.toNat, argv := [] } (c.querybuf.drop pos ++ t) := by
        rw [List.cons_append, readCommand, if_pos rfl, stable_readLength.frame_append t hlength, Step.frame_andThen,
          readArgs, if_neg hmany, if_neg hsome, remaining_of_count hfresh.bulk hsome, hpos]
      have hneed : remaining { c with multibulklen := n.toNat, argv := [] } (c.querybuf.drop pos) = .need := by
        have hnil := hread []
        rw [List.append_nil, List.append_nil, ← hbuf, hcommand] at hnil
        exact hnil.symm
      have hlen : n.toNat ≠ 0 := by omega
      obtain ⟨c', hargs', ⟨hkept, hlen', hwaiting⟩, hmore⟩ :=
        processArguments_need (c := { c with multibulklen := n.toNat, argv := [] }) hlen (Or.inl hroom)
          (fun m hm => absurd (hfresh.bulk.symm.trans hm) (by simp)) hneed
      rw [if_neg hmany, if_neg hsome]
      refine ⟨c', hargs', hkept.2.1, hkept.2.2, .request hlen' (hkept.1.trans hmulti) hwaiting fun t => ?_⟩
      rw [hread, hmore]

/-! ### One read -/

/-- The client has been given the requests `reqs` more and holds `rest`. -/
structure Delivered (c c' : Client) (reqs : List (List (List UInt8))) (rest : List UInt8) : Prop where
  halt : c'.halt = none
  commands : c'.commands = c.commands ++ reqs.filter (· ≠ [])
  holding : Holding c' rest

lemma head?_of_readCommand {s : List UInt8} (hne : s ≠ []) (h : readCommand s ≠ .bad) : s.head? = some 0x2a := by
  cases s with
  | nil => exact absurd rfl hne
  | cons type s => rw [readCommand_cons h, List.head?_cons]

/-- The guards of a round, while the client is served and its buffer begins with a multibulk request. -/
lemma served {c : Client} (hhalt : c.halt = none) (hmulti : c.multibulk = true ∨ c.querybuf.head? = some 0x2a) :
    ¬c.halt.isSome ∧ ¬(¬c.multibulk ∧ c.querybuf.head? ≠ some 0x2a) := by
  refine ⟨by simp [hhalt], ?_⟩
  rintro ⟨hnot, hhead⟩
  rcases hmulti with h | h
  · exact hnot h
  · exact hhead h

section Round

variable {fuel : ℕ} {c c' : Client} (hne : c.querybuf ≠ []) (hhalt : c.halt = none)
  (hmulti : c.multibulk = true ∨ c.querybuf.head? = some 0x2a)
include hne hhalt hmulti

lemma processInputBufferLoop_wait (h : processMultibulkBuffer { c with multibulk := true } = (c', false)) :
    processInputBufferLoop (fuel + 1) c = c' := by
  obtain ⟨hserved, hknown⟩ := served hhalt hmulti
  rw [processInputBufferLoop, if_neg hne, if_neg hserved, if_neg hknown, h]

lemma processInputBufferLoop_request (h : processMultibulkBuffer { c with multibulk := true } = (c', true)) :
    processInputBufferLoop (fuel + 1) c = if c'.argv = [] then processInputBufferLoop fuel c'.resetClient
      else if isQuit c'.argv then processInputBufferLoop fuel c'.processCommand.1
      else processInputBufferLoop fuel c'.processCommand.1.resetClient := by
  obtain ⟨hserved, hknown⟩ := served hhalt hmulti
  rw [processInputBufferLoop, if_neg hne, if_neg hserved, if_neg hknown, h]
  dsimp only
  by_cases hquit : isQuit c'.argv = true
  · rw [processCommand, if_pos hquit, if_pos hquit]
  · rw [processCommand, if_neg hquit, if_neg hquit]

end Round

/-- A complete request is handed on, unless it has no arguments, and the client begins anew. -/
lemma deliver_request {fuel : ℕ} {c c' : Client} {args : List (List UInt8)} {reqs : List (List (List UInt8))}
    {mid rest : List UInt8} (hargs : c'.argv = args) (hquit : isQuit args = false) (hbuf : c'.querybuf = mid)
    (hhalt : c'.halt = none) (hcommands : c'.commands = c.commands)
    (hloop : ∀ c'' : Client, c''.querybuf = mid → Fresh c'' → c''.halt = none →
      Delivered c'' (processInputBufferLoop fuel c'') reqs rest) :
    Delivered c (if c'.argv = [] then processInputBufferLoop fuel c'.resetClient
      else if isQuit c'.argv then processInputBufferLoop fuel c'.processCommand.1
      else processInputBufferLoop fuel c'.processCommand.1.resetClient) (args :: reqs) rest := by
  by_cases hempty : args = []
  · rw [if_pos (hargs.trans hempty)]
    obtain ⟨hhalt', hcommands', hholding⟩ := hloop c'.resetClient hbuf ⟨rfl, rfl, rfl⟩ hhalt
    refine ⟨hhalt', ?_, hholding⟩
    rw [hcommands', List.filter_cons_of_neg (by simp [hempty]), ← hcommands]
    rfl
  · have hopen : ¬isQuit c'.argv = true := by simp [hargs, hquit]
    rw [if_neg (fun h => hempty (hargs.symm.trans h)), if_neg hopen, processCommand, if_neg hopen]
    obtain ⟨hhalt', hcommands', hholding⟩ :=
      hloop { c' with commands := c'.commands ++ [c'.argv] }.resetClient hbuf ⟨rfl, rfl, rfl⟩ hhalt
    refine ⟨hhalt', ?_, hholding⟩
    rw [hcommands', List.filter_cons_of_pos (by simp [hempty]), ← hcommands, ← hargs]
    simp [resetClient]

/-- From the beginning of a request the loop takes off the requests of the buffer in order. -/
lemma processInputBufferLoop_spec {fuel : ℕ} {c : Client} {s rest : List UInt8} {reqs : List (List (List UInt8))}
    (hs : c.querybuf = s) (hfresh : Fresh c) (hhalt : c.halt = none) (hroom : s.length ≤ PROTO_INLINE_MAX_SIZE)
    (hfuel : s.length < fuel) (hdrain : Drains commandReader s reqs rest) (hopen : ∀ req ∈ reqs, isQuit req = false) :
    Delivered c (processInputBufferLoop fuel c) reqs rest := by
  induction hdrain generalizing c fuel with
  | @stop s hneed =>
    obtain ⟨fuel, rfl⟩ := Nat.exists_eq_succ_of_ne_zero (Nat.ne_zero_of_lt hfuel)
    by_cases hnil : c.querybuf = []
    · rw [processInputBufferLoop, if_pos hnil]
      exact ⟨hhalt, by simp, hs ▸ .start hfresh (by simp [hnil])⟩
    · subst hs
      have hhead := head?_of_readCommand hnil (hneed.trans_ne (by simp))
      obtain ⟨c', hprocess, hhalt', hcommands, hholding⟩ :=
        processMultibulkBuffer_need (c := { c with multibulk := true }) ⟨hfresh.length, hfresh.bulk, hfresh.args⟩ rfl
          hroom hnil hneed
      rw [processInputBufferLoop_wait hnil hhalt (Or.inr hhead) hprocess]
      exact ⟨hhalt'.trans hhalt, by simpa using hcommands, hholding⟩
  | @frame s mid rest args reqs hread hrest ih =>
    obtain ⟨fuel, rfl⟩ := Nat.exists_eq_succ_of_ne_zero (Nat.ne_zero_of_lt hfuel)
    subst hs
    have hshort := commandReader.shrinks hread
    have hnil : c.querybuf ≠ [] := by
      intro hnil
      rw [hnil] at hshort
      exact absurd hshort (by simp)
    have hhead := head?_of_readCommand hnil (hread.trans_ne (by simp))
    have hprocess := processMultibulkBuffer_frame (c := { c with multibulk := true })
      ⟨hfresh.length, hfresh.bulk, hfresh.args⟩ hroom hread
    rw [processInputBufferLoop_request hnil hhalt (Or.inr hhead) hprocess]
    exact deliver_request rfl (hopen args List.mem_cons_self) rfl hhalt rfl fun c'' hbuf hfresh'' hhalt'' =>
      ih hbuf hfresh'' hhalt'' (by omega) (by omega) (fun req hreq => hopen req (List.mem_cons_of_mem _ hreq))

/-- What the next read may return leaves the buffer short, or with no more than one large argument. -/
lemma room_of_read {c : Client} {bytes : List UInt8} (hlen : c.multibulklen ≠ 0) (hmulti : c.multibulk = true)
    (hwaiting : Waiting c c.querybuf) (hbytes : bytes.length ≤ c.readlen) :
    Room { c with querybuf := c.querybuf ++ bytes } 0 := by
  rw [readlen] at hbytes
  cases hbulk : c.bulklen with
  | none =>
    have hshort := hwaiting.header hbulk
    rw [hbulk] at hbytes
    simp only [PROTO_IOBUF_LEN] at hbytes
    left
    rw [List.length_append, PROTO_INLINE_MAX_SIZE]
    omega
  | some n =>
    have hshort := (hwaiting.argument n hbulk).1
    rw [hbulk] at hbytes
    by_cases hbig : n ≥ PROTO_MBULK_BIG_ARG
    · simp only [hmulti, hlen, hbig, ne_eq, not_false_eq_true, and_self, if_true] at hbytes
      right
      refine ⟨rfl, n, rfl, hbig, ?_⟩
      rw [List.length_append]
      omega
    · simp only [hbig, and_false, if_false, PROTO_IOBUF_LEN] at hbytes
      left
      rw [PROTO_MBULK_BIG_ARG] at hbig
      rw [List.length_append, PROTO_INLINE_MAX_SIZE]
      omega

/-- A buffer with room is processed; it is far from the length at which a client is dropped. -/
lemma readQueryFromClient_eq {c : Client} {bytes : List UInt8}
    (hroom : Room { c with querybuf := c.querybuf ++ bytes } 0)
    (hlimit : ∀ n, c.bulklen = some n → n ≤ 512 * 1024 * 1024) :
    c.readQueryFromClient bytes =
      processInputBufferLoop ((c.querybuf ++ bytes).length + 1) { c with querybuf := c.querybuf ++ bytes } := by
  have hfits : ¬(c.querybuf ++ bytes).length > PROTO_MAX_QUERYBUF_LEN := by
    rw [PROTO_MAX_QUERYBUF_LEN]
    rcases hroom with hsmall | ⟨-, n, hbulk, -, hle⟩
    · rw [PROTO_INLINE_MAX_SIZE] at hsmall
      simp only at hsmall
      omega
    · have hn := hlimit n hbulk
      simp only at hle
      omega
  rw [readQueryFromClient, if_neg hfits, processInputBuffer]

lemma readQuery_start {c : Client} {bytes rest : List UInt8} {reqs : List (List (List UInt8))} (hfresh : Fresh c)
    (hshort : c.querybuf.length ≤ 33) (hhalt : c.halt = none) (hbytes : bytes.length ≤ c.readlen)
    (hdrain : Drains commandReader (c.querybuf ++ bytes) reqs rest) (hopen : ∀ req ∈ reqs, isQuit req = false) :
    Delivered c (c.readQueryFromClient bytes) reqs rest := by
  have hsmall : (c.querybuf ++ bytes).length ≤ PROTO_INLINE_MAX_SIZE := by
    rw [readlen, hfresh.bulk] at hbytes
    simp only [PROTO_IOBUF_LEN] at hbytes
    rw [List.length_append, PROTO_INLINE_MAX_SIZE]
    omega
  rw [readQueryFromClient_eq (Or.inl hsmall) (fun n hn => absurd (hfresh.bulk.symm.trans hn) (by simp))]
  obtain ⟨hhalt', hcommands, hholding⟩ :=
    processInputBufferLoop_spec (c := { c with querybuf := c.querybuf ++ bytes }) rfl
      ⟨hfresh.length, hfresh.bulk, hfresh.args⟩ hhalt hsmall (Nat.lt_succ_self _) hdrain hopen
  exact ⟨hhalt', hcommands, hholding⟩

lemma readQuery_request {c : Client} {r bytes rest : List UInt8} {reqs : List (List (List UInt8))}
    (hlen : c.multibulklen ≠ 0) (hmulti : c.multibulk = true) (hwaiting : Waiting c c.querybuf)
    (hread : ∀ t, readCommand (r ++ t) = c.remaining (c.querybuf ++ t)) (hhalt : c.halt = none) (hne : bytes ≠ [])
    (hbytes : bytes.length ≤ c.readlen) (hdrain : Drains commandReader (r ++ bytes) reqs rest)
    (hopen : ∀ req ∈ reqs, isQuit req = false) :
    Delivered c (c.readQueryFromClient bytes) reqs rest := by
  have hlimit (n : ℕ) (hn : c.bulklen = some n) : n ≤ 512 * 1024 * 1024 := (hwaiting.argument n hn).2
  have hroom := room_of_read hlen hmulti hwaiting hbytes
  have hbuf : c.querybuf ++ bytes ≠ [] := by simp [hne]
  generalize hc₁ : ({ c with querybuf := c.querybuf ++ bytes, multibulk := true } : Client) = c₁
  have hbuf₁ : c₁.querybuf = c.querybuf ++ bytes := by rw [← hc₁]
  have hlen₁ : c₁.multibulklen ≠ 0 := by rwa [← hc₁]
  have hmulti₁ : c₁.multibulk = true := by rw [← hc₁]
  have hhalt₁ : c₁.halt = none := by rwa [← hc₁]
  have hcommands₁ : c₁.commands = c.commands := by rw [← hc₁]
  have hlimit₁ : ∀ n, c₁.bulklen = some n → n ≤ 512 * 1024 * 1024 := by rwa [← hc₁]
  have hroom₁ : Room c₁ 0 := by rwa [← hc₁]
  have hremaining (t : List UInt8) : readCommand (r ++ bytes ++ t) = c₁.remaining (c₁.querybuf.drop 0 ++ t) := by
    rw [List.drop_zero, hbuf₁, List.append_assoc, List.append_assoc, hread, ← hc₁]
    rfl
  have hnow : commandReader.read (r ++ bytes) = c₁.remaining (c₁.querybuf.drop 0) := by
    have hnil := hremaining []
    rwa [List.append_nil, List.append_nil] at hnil
  have hprocess₁ : c₁.processMultibulkBuffer = c₁.processArguments 0 := by rw [processMultibulkBuffer, if_neg hlen₁]
  rw [readQueryFromClient_eq hroom hlimit]
  cases hdrain with
  | stop hneed =>
    obtain ⟨c', hprocess, ⟨hkept, hlen', hwaiting'⟩, hmore⟩ :=
      processArguments_need hlen₁ hroom₁ hlimit₁ (hnow.symm.trans hneed)
    rw [← hprocess₁, ← hc₁] at hprocess
    rw [processInputBufferLoop_wait (c := { c with querybuf := c.querybuf ++ bytes }) hbuf hhalt (Or.inl hmulti) hprocess]
    refine ⟨hkept.2.1.trans hhalt₁, ?_, .request hlen' (hkept.1.trans hmulti₁) hwaiting' fun t => ?_⟩
    · simpa using hkept.2.2.trans hcommands₁
    · rw [hremaining, hmore]
  | frame hframe hrest =>
    have hremaining' := hnow.symm.trans hframe
    have hshort := remaining_shrinks hremaining'
    rw [List.drop_zero, hbuf₁] at hshort
    obtain ⟨hprocess, hsmall⟩ := processArguments_frame hlen₁ hroom₁ hremaining'
    rw [← hprocess₁, ← hc₁] at hprocess
    rw [processInputBufferLoop_request (c := { c with querybuf := c.querybuf ++ bytes }) hbuf hhalt (Or.inl hmulti)
      hprocess]
    exact deliver_request rfl (hopen _ List.mem_cons_self) rfl hhalt rfl fun c'' hbuf'' hfresh'' hhalt'' =>
      processInputBufferLoop_spec hbuf'' hfresh'' hhalt'' hsmall hshort hrest
        (fun req hreq => hopen req (List.mem_cons_of_mem _ hreq))

/-- One read takes in its bytes as the grammar would. -/
lemma readQueryFromClient_delivered {c : Client} {r bytes rest : List UInt8} {reqs : List (List (List UInt8))}
    (h : Holding c r) (hhalt : c.halt = none) (hne : bytes ≠ []) (hbytes : bytes.length ≤ c.readlen)
    (hdrain : Drains commandReader (r ++ bytes) reqs rest) (hopen : ∀ req ∈ reqs, isQuit req = false) :
    Delivered c (c.readQueryFromClient bytes) reqs rest := by
  cases h with
  | start hfresh hshort => exact readQuery_start hfresh hshort hhalt hbytes hdrain hopen
  | request hlen hmulti hwaiting hread =>
    exact readQuery_request hlen hmulti hwaiting hread hhalt hne hbytes hdrain hopen

/-! ### The whole stream -/

/-- The client was given the requests `reqs`, holds `r` and is still served. -/
structure Represents (c : Client) (reqs : List (List (List UInt8))) (r : List UInt8) : Prop where
  halt : c.halt = none
  commands : c.commands = reqs.filter (· ≠ [])
  need : readCommand r = .need
  holding : Holding c r

lemma represents_init : Represents {} [] [] := ⟨rfl, rfl, rfl, .start ⟨rfl, rfl, rfl⟩ (by simp)⟩

/-- A read returns something, and no more than it asked for. -/
def Readable (c : Client) (bytes : List UInt8) : Prop := bytes ≠ [] ∧ bytes.length ≤ c.readlen

lemma Represents.read {c : Client} {reqs reqs' : List (List (List UInt8))} {r bytes rest : List UInt8}
    (h : Represents c reqs r) (hbytes : Readable c bytes) (hdrain : Drains commandReader (r ++ bytes) reqs' rest)
    (hopen : ∀ req ∈ reqs', isQuit req = false) :
    Represents (c.readQueryFromClient bytes) (reqs ++ reqs') rest := by
  obtain ⟨hhalt, hcommands, hholding⟩ := readQueryFromClient_delivered h.holding h.halt hbytes.1 hbytes.2 hdrain hopen
  refine ⟨hhalt, ?_, hdrain.read_rest, hholding⟩
  rw [hcommands, h.commands, List.filter_append]

lemma represents_reads {c : Client} {reqs reqs' : List (List (List UInt8))} {r rest : List UInt8}
    {reads : List (List UInt8)} (h : Represents c reqs r) (hreads : Allowed readQueryFromClient Readable c reads)
    (hdrain : Drains commandReader (r ++ reads.flatten) reqs' rest) (hopen : ∀ req ∈ reqs', isQuit req = false) :
    Represents (reads.foldl readQueryFromClient c) (reqs ++ reqs') rest :=
  feed_chunks commandReader readQueryFromClient Readable (isQuit · = false) Represents (fun h => h.need)
    (fun h hbytes hdrain hopen => h.read hbytes hdrain hopen) h hreads hdrain hopen

end ExpressAuth.Redis.Client
