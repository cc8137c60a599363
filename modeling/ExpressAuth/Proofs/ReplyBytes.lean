import ExpressAuth.Wire
import ExpressAuth.Proofs.Numbers
import ExpressAuth.Proofs.Replies

/-!
# What Redis writes is the encoded reply

Whatever way a hash is held in memory, the bytes of a reply are those of its value, and the client reads the
reply back from the value.
-/

namespace ExpressAuth

open NodeRedis

/-! ### Texts -/

lemma Redis.textOf_utf8Bytes (s : String) : Redis.textOf (utf8Bytes s) = some s := by
  have hbytes : (⟨(utf8Bytes s).toArray⟩ : ByteArray) = s.toByteArray := rfl
  rw [Redis.textOf, hbytes, String.fromUTF8?, dif_pos s.isValidUTF8]
  rfl

lemma mapM_eq_some {α β : Type} {f : α → Option β} {g : β → α} (h : ∀ b, f (g b) = some b) (bs : List β) :
    (bs.map g).mapM f = some bs := by
  induction bs with
  | nil => rfl
  | cons b bs ih =>
    rw [List.map_cons, List.mapM_cons, h, ih]
    rfl

/-- The argument vector of a command. -/
def Cmd.argv (cmd : Cmd) : List (List UInt8) := (cmd.name :: cmd.args).map utf8Bytes

lemma Redis.lookupCommand_argv (cmd : Cmd) : Redis.lookupCommand cmd.argv = some cmd := by
  have hnames : ∀ name : CmdName, commandTable.find? (fun c => c.text == name.text) = some name := by
    intro name
    cases name <;> decide
  have hdel : ∀ name : CmdName, name.text ≠ "del" := by
    intro name
    cases name <;> decide
  have htable : ∀ (name : CmdName) (args : List String),
      Redis.lookupCommand ((name.text :: args).map utf8Bytes) = some (Cmd.ofArgs name args) := by
    intro name args
    rw [Redis.lookupCommand, mapM_eq_some Redis.textOf_utf8Bytes]
    split
    · next h => exact absurd (List.cons.inj (Option.some.inj h)).1 (hdel name)
    · next h =>
      obtain ⟨rfl, rfl⟩ := List.cons.inj (Option.some.inj h)
      rw [hnames]
      rfl
    · next h => exact absurd rfl (h _ _)
  cases cmd with
  | hget key field => exact (htable .hget _).trans (congrArg some (Cmd.ofArgs_hget key field))
  | hset key field value => exact (htable .hset _).trans (congrArg some (Cmd.ofArgs_hset key field value))
  | keys pattern => exact htable .keys _
  | del key =>
    rw [Redis.lookupCommand, Cmd.argv, mapM_eq_some Redis.textOf_utf8Bytes]
    rfl
  | refused name args h =>
    have hrefused : Cmd.ofArgs name args = .refused name args h := dif_neg h
    exact (htable name args).trans (congrArg some hrefused)

/-! ### Reading a reply back -/

/-- What a reply travels as. -/
def Reply.resp : Reply → Resp
  | .bulk none => .null
  | .bulk (some s) => .bulk (utf8Bytes s)
  | .int n => .num n
  | .names keys => .array (keys.map (fun k => .bulk (utf8Bytes k)))
  | .error message => .error (utf8Bytes message)

def Reply.value (r : Reply) : Value := r.resp.value

/-- Each callback gets the reply that its command has. -/
lemma handleReply_value (r : Reply) : handleReply r.value = some r := by
  cases r with
  | bulk value =>
    cases value with
    | none => rfl
    | some s =>
      rw [Reply.value, Reply.resp, Resp.value, handleReply, Redis.textOf_utf8Bytes]
      rfl
  | int n => rfl
  | names keys =>
    have hvalues : valuesOf (keys.map (fun k => .bulk (utf8Bytes k))) = keys.map (fun k => .str (utf8Bytes k)) := by
      rw [valuesOf_eq_map, List.map_map]
      rfl
    have hstrings : (keys.map (fun k => Value.str (utf8Bytes k))).mapM stringValue = some keys :=
      mapM_eq_some (f := stringValue) (g := fun k => Value.str (utf8Bytes k)) Redis.textOf_utf8Bytes keys
    rw [Reply.value, Reply.resp, Resp.value, handleReply, hvalues, hstrings]
    rfl
  | error message =>
    rw [Reply.value, Reply.resp, Resp.value, handleReply, Redis.textOf_utf8Bytes]
    rfl

/-! ### Writing a reply -/

namespace Redis

lemma ll2string_written {room : ℕ} (hroom : 20 < room) (n : Int64) :
    (ll2string (List.replicate room 0) n).2.take (ll2string (List.replicate room 0) n).1 =
      Decimal.text n.toInt := by
  have hlen := length_text_le n
  rw [ll2string_eq_text, if_pos (by rw [List.length_replicate]; omega)]
  exact List.take_left

lemma addReplyLongLongWithPrefix_eq (ll : Int64) (type : UInt8) :
    addReplyLongLongWithPrefix ll type = type :: (Decimal.text ll.toInt ++ [0x0d, 0x0a]) := by
  have hwritten := ll2string_written (show 20 < 127 by decide) ll
  rw [addReplyLongLongWithPrefix]
  split_ifs
  · rfl
  · generalize ll2string (List.replicate 127 0) ll = written at hwritten ⊢
    rw [← hwritten]

lemma addReplyBulkCBuffer_eq {bytes : List UInt8} (h : bytes.length < 2 ^ 63) :
    addReplyBulkCBuffer bytes = (Resp.bulk bytes).encode := by
  rw [addReplyBulkCBuffer, addReplyLongLongWithPrefix_eq, Int64.toInt_ofNat_of_lt h, Resp.encode,
    List.cons_append, List.cons_append, List.append_assoc _ bytes]

lemma addReplyLongLong_eq (ll : Int64) : addReplyLongLong ll = (Resp.num ll.toInt).encode := by
  rw [addReplyLongLong]
  split_ifs with h0 h1
  · rw [h0]
    rfl
  · rw [h1]
    rfl
  · rw [addReplyLongLongWithPrefix_eq, Resp.encode]

/-! The number of digits of an integer object -/

lemma divisions_eq (fuel : ℕ) {n : Int64} (h0 : 0 ≤ n.toInt) (hfuel : n.toInt.toNat < 10 ^ fuel) :
    divisions fuel n + 1 = (Decimal.digits n.toInt.toNat).length := by
  induction fuel generalizing n with
  | zero =>
    have hzero : n.toInt.toNat = 0 := by omega
    rw [hzero]
    rfl
  | succ fuel ih =>
    have hmin : n ≠ Int64.minValue := by
      rintro rfl
      exact absurd h0 (by decide)
    have hdiv : (n / 10).toInt = ((n.toInt.toNat / 10 : ℕ) : ℤ) := by
      rw [Int64.toInt_div_of_ne_left n 10 hmin, show Int64.toInt 10 = 10 from rfl, Int.tdiv_eq_ediv_of_nonneg h0]
      omega
    have hzero : n / 10 = 0 ↔ n.toInt.toNat < 10 := by
      rw [← Int64.toInt_inj, hdiv, Int64.toInt_zero]
      omega
    rw [divisions]
    by_cases hlt : n.toInt.toNat < 10
    · rw [if_pos (hzero.mpr hlt), Decimal.digits_of_lt hlt]
      rfl
    · have hnext := ih (n := n / 10) (by omega) (by rw [hdiv, Int.toNat_natCast]; rw [Nat.pow_succ] at hfuel; omega)
      rw [hdiv, Int.toNat_natCast] at hnext
      have hdigits := Decimal.digits_of_le (show 10 ≤ n.toInt.toNat by omega)
      rw [if_neg (fun h => hlt (hzero.mp h)), hnext, hdigits, List.length_append]
      rfl

/-- Also of the least word, whose negative is itself. -/
lemma len_int (n : Int64) : (StringObject.int n).len = (Decimal.text n.toInt).length := by
  have hlow := Int64.le_toInt n
  have hhigh := Int64.toInt_lt n
  rw [StringObject.len, Decimal.text_eq_sign_append, List.length_append]
  by_cases hneg : n < 0
  · have hint : n.toInt < 0 := Int64.lt_iff_toInt_lt.mp hneg
    rw [if_pos hneg, if_pos hint, List.length_singleton]
    by_cases hmin : n = Int64.minValue
    · subst hmin
      decide
    · have hne : n.toInt ≠ -2 ^ 63 := fun h => hmin (Int64.toInt_inj.mp (h.trans rfl))
      have hflip : (-n).toInt = -n.toInt := by
        rw [Int64.toInt_neg]
        exact Int.bmod_eq_of_le (by omega) (by omega)
      have hdigits := divisions_eq 20 (n := -n) (by omega) (by omega)
      rw [hflip, show (-n.toInt).toNat = n.toInt.natAbs by omega] at hdigits
      omega
  · have hint : ¬n.toInt < 0 := fun h => hneg (Int64.lt_iff_toInt_lt.mpr h)
    have hdigits := divisions_eq 20 (n := n) (by omega) (by omega)
    rw [show n.toInt.toNat = n.toInt.natAbs by omega] at hdigits
    rw [if_neg hneg, if_neg hint, List.length_nil]
    omega

/-- The bytes that an object stands for. -/
def StringObject.bytes : StringObject → List UInt8
  | .raw bytes => bytes
  | .int n => Decimal.text n.toInt

lemma StringObject.len_eq (obj : StringObject) : obj.len = obj.bytes.length := by
  cases obj with
  | raw bytes => rfl
  | int n => exact len_int n

lemma addReply_eq (obj : StringObject) : addReply obj = obj.bytes := by
  cases obj with
  | raw bytes => rfl
  | int n => exact ll2string_written (by decide) n

lemma addReplyBulk_eq {obj : StringObject} (h : obj.bytes.length < 2 ^ 63) :
    addReplyBulk obj = (Resp.bulk obj.bytes).encode := by
  have hheader : addReplyBulkLen obj = 0x24 :: (Decimal.text obj.bytes.length ++ [0x0d, 0x0a]) := by
    rw [addReplyBulkLen, obj.len_eq]
    split_ifs
    · rfl
    · rw [addReplyLongLongWithPrefix_eq, Int64.toInt_ofNat_of_lt h]
  rw [addReplyBulk, hheader, addReply_eq, Resp.encode, List.cons_append, List.cons_append,
    List.append_assoc _ obj.bytes]

/-- The encoding of a hash does not show in its replies. -/
lemma addHashValueToReply_eq (ziplist : Bool) {obj : StringObject} (h : obj.bytes.length < 2 ^ 63) :
    addHashValueToReply ziplist obj = (Resp.bulk obj.bytes).encode := by
  cases ziplist with
  | false =>
    cases obj with
    | raw bytes => exact addReplyBulk_eq h
    | int n => exact addReplyBulk_eq h
  | true =>
    cases obj with
    | raw bytes => exact addReplyBulkCBuffer_eq h
    | int n =>
      have hbulk : addReplyBulkLongLong n = addReplyBulkCBuffer (Decimal.text n.toInt) :=
        congrArg addReplyBulkCBuffer (ll2string_written (by decide) n)
      exact hbulk.trans (addReplyBulkCBuffer_eq h)

/-- An integer is packed only where its text is the value. -/
lemma bytes_object (e : Encoding) (s : Store) (key value : String) :
    (e.object s key value).bytes = utf8Bytes value := by
  rw [Encoding.object]
  cases e.packed s key value with
  | false => rfl
  | true =>
    cases hn : string2ll (utf8Bytes value) with
    | none => rfl
    | some n => exact ((string2ll_eq_some_iff _ n).mp hn).symm

end Redis

/-- Keys and values whose lengths and number a double holds exactly. -/
structure Store.Small (s : Store) : Prop where
  count : s.keys.length ≤ 2 ^ 53
  key : ∀ k ∈ s.keys, (utf8Bytes k).length ≤ 2 ^ 53
  value : ∀ k f v, s.hget k f = some v → (utf8Bytes v).length ≤ 2 ^ 53

lemma Store.matching_subset {s : Store} {pattern k : String} (h : k ∈ Store.matching s pattern) : k ∈ s.keys := by
  rw [Store.matching] at h
  split at h
  · cases h
  · exact List.mem_of_mem_filter h

lemma Store.length_matching_le (s : Store) (pattern : String) :
    (Store.matching s pattern).length ≤ s.keys.length := by
  rw [Store.matching]
  split
  · exact Nat.zero_le _
  · exact List.length_filter_le _ _

/-- Arrays hold only strings, so that one level of nesting is enough. -/
lemma Store.Small.sendable {s : Store} (hs : s.Small) (cmd : Cmd) (stack : ℕ) :
    Sendable (stack + 1) (cmd.exec s).2.resp := by
  have hlost : (13 : UInt8) ∉ utf8Bytes connectionLost := by decide
  cases cmd with
  | hget key field =>
    rw [Cmd.exec]
    cases hv : s.hget key field with
    | none => exact .null
    | some v => exact .bulk (hs.value key field v hv)
  | hset key field value =>
    refine .num ?_
    split <;> decide
  | keys pattern =>
    rw [Cmd.exec]
    split
    · exact .error hlost
    · refine .array ?_ (fun w hw => ?_)
      · rw [List.length_map]
        exact (s.length_matching_le pattern).trans hs.count
      · obtain ⟨k, hk, rfl⟩ := List.mem_map.mp hw
        exact .bulk (hs.key k (Store.matching_subset hk))
  | del key =>
    refine .num ?_
    split <;> decide
  | refused name args h =>
    refine .error ?_
    cases name <;> decide

namespace Redis

lemma keysCommand_eq {s : Store} (hs : s.Small) {pattern : String} (hdefined : Store.overruns s pattern = false) :
    keysCommand s pattern = (Reply.names (Store.matching s pattern)).resp.encode := by
  have hkeys : s.keys.filter (fun k => keyMatches pattern k == some true) = Store.matching s pattern := by
    rw [Store.matching, hdefined]
    rfl
  have hcount : (Store.matching s pattern).length < 2 ^ 63 := by
    have hle := (s.length_matching_le pattern).trans hs.count
    omega
  have hbulks : (Store.matching s pattern).flatMap (fun k => addReplyBulk (.raw (utf8Bytes k))) =
      ((Store.matching s pattern).map (fun k => Resp.bulk (utf8Bytes k))).flatMap Resp.encode := by
    rw [List.flatMap_map]
    apply List.flatMap_congr
    intro k hk
    have hle := hs.key k (Store.matching_subset hk)
    have hlt : (StringObject.raw (utf8Bytes k)).bytes.length < 2 ^ 63 := by
      rw [StringObject.bytes]
      omega
    exact addReplyBulk_eq hlt
  rw [keysCommand, hkeys, Int64.toInt_ofNat_of_lt hcount, hbulks, Reply.resp, Resp.encode, List.length_map,
    encodeAll_eq_flatMap]
  rfl

/-- The reply bytes of every command, for every way the hashes are held. A `KEYS` that reads past the end of
a key has none: Redis crashes in it. -/
lemma call_eq (e : Encoding) {s : Store} (hs : s.Small) {cmd : Cmd}
    (hkeys : ∀ pattern, cmd = .keys pattern → Store.overruns s pattern = false) :
    call e s cmd = some (cmd.exec s).2.resp.encode := by
  cases cmd with
  | hget key field =>
    rw [call, hgetCommand, Cmd.exec]
    cases hv : s.hget key field with
    | none => rfl
    | some v =>
      have hvalue : (e.object s key v).bytes.length < 2 ^ 63 := by
        have hle := hs.value key field v hv
        rw [bytes_object]
        omega
      rw [Option.map_some, addHashFieldToReply, addHashValueToReply_eq _ hvalue, bytes_object]
      rfl
  | hset key field value =>
    rw [call, hsetCommand, Cmd.exec]
    split_ifs
    · rfl
    · rfl
  | keys pattern =>
    have hdefined := hkeys pattern rfl
    rw [call, Cmd.exec, hdefined, if_neg Bool.false_ne_true, if_neg Bool.false_ne_true, keysCommand_eq hs hdefined]
  | del key =>
    rw [call, delCommand, Cmd.exec, addReplyLongLong_eq]
    split_ifs
    · rfl
    · rfl
  | refused name args h => cases name <;> rfl

end Redis

end ExpressAuth
