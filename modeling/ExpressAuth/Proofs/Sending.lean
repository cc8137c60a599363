import ExpressAuth.NodeRedis.Client
import ExpressAuth.AdminTool
import ExpressAuth.Proofs.Commands

/-!
# What the client writes

A command goes out as one string or, when an argument is long, in several writes with buffers. Both put the
same bytes on the stream: the command and its arguments, each with its length in bytes.
-/

namespace ExpressAuth

open Redis

lemma utf8Bytes_append (s t : String) : utf8Bytes (s ++ t) = utf8Bytes s ++ utf8Bytes t := by
  rw [utf8Bytes_eq_flatMap, utf8Bytes_eq_flatMap, utf8Bytes_eq_flatMap,
    String.toList_append, List.flatMap_append]

lemma utf8Bytes_numberText (n : ℕ) : utf8Bytes (numberText n) = Decimal.text n := by
  rw [utf8Bytes_eq_flatMap, toList_numberText, Decimal.text_natCast, Decimal.digits, ← List.flatMap_pure_eq_map]
  apply List.flatMap_congr
  intro c hc
  have hdigit := Nat.isDigit_of_mem_toDigits (by decide) (by decide) hc
  simp only [Char.isDigit, Bool.and_eq_true, decide_eq_true_eq, UInt32.le_iff_toNat_le] at hdigit
  have hbyte : c.val.toNat ≤ 127 := hdigit.2.trans (by decide)
  exact if_pos hbyte

namespace NodeRedis

/-- The bytes of an argument, whichever way it is sent. -/
def ArgCopy.bytes : ArgCopy → List UInt8
  | .text s => utf8Bytes s
  | .buffer bytes => bytes

lemma bytes_copyArg (v : JsVal) : (copyArg v).bytes = utf8Bytes v.toText := by
  cases v with
  | str s =>
    rw [copyArg]
    split_ifs
    · rfl
    · rfl
  | undefined => rfl
  | null => rfl
  | scalar text => rfl
  | object => rfl
  | array items => rfl

variable {κ : Type*}

/-- The request that a command stands for. -/
def Command.request (obj : Command κ) : List (List UInt8) :=
  utf8Bytes obj.command :: obj.args.map (fun v => utf8Bytes v.toText)

namespace RedisClient

lemma utf8Bytes_argText (arg : String) : utf8Bytes (argText arg) = encodeArg (utf8Bytes arg) := by
  have hdollar : utf8Bytes "$" = [0x24] := by decide
  have hcrlf : utf8Bytes "\r\n" = [0x0d, 0x0a] := by decide
  rw [argText, utf8Bytes_append, utf8Bytes_append, utf8Bytes_append, utf8Bytes_append, utf8Bytes_numberText, hdollar,
    hcrlf, encodeArg]
  simp only [List.append_assoc, List.cons_append, List.nil_append]

lemma utf8Bytes_appendArgs (str : String) {args : List ArgCopy} (h : ∀ arg ∈ args, arg.isBuffer = false) :
    utf8Bytes (appendArgs str args) = utf8Bytes str ++ (args.map ArgCopy.bytes).flatMap encodeArg := by
  induction args generalizing str with
  | nil =>
    rw [appendArgs, List.map_nil, List.flatMap_nil, List.append_nil]
  | cons arg args ih =>
    cases arg with
    | buffer bytes => exact absurd (h _ List.mem_cons_self) (by simp [ArgCopy.isBuffer])
    | text s =>
      rw [appendArgs, ih _ (fun arg harg => h arg (List.mem_cons_of_mem _ harg)), utf8Bytes_append, utf8Bytes_argText,
        List.append_assoc, List.map_cons, List.flatMap_cons]
      rfl

lemma writeArg_eq (c : RedisClient κ) (arg : ArgCopy) :
    c.writeArg arg = { c with stream := c.stream ++ encodeArg arg.bytes } := by
  cases arg with
  | text s =>
    rw [writeArg, write, utf8Bytes_argText]
    rfl
  | buffer bytes =>
    have hdollar : utf8Bytes "$" = [0x24] := by decide
    have hcrlf : utf8Bytes "\r\n" = [0x0d, 0x0a] := by decide
    rw [writeArg, write, write, writeBuffer, utf8Bytes_append, utf8Bytes_append, utf8Bytes_numberText, hdollar, hcrlf,
      ArgCopy.bytes, encodeArg]
    simp only [List.append_assoc, List.cons_append, List.nil_append]

lemma foldl_writeArg (c : RedisClient κ) (args : List ArgCopy) :
    args.foldl writeArg c = { c with stream := c.stream ++ (args.map ArgCopy.bytes).flatMap encodeArg } := by
  induction args generalizing c with
  | nil =>
    rw [List.foldl_nil, List.map_nil, List.flatMap_nil, List.append_nil]
  | cons arg args ih =>
    rw [List.foldl_cons, ih, writeArg_eq, List.map_cons, List.flatMap_cons]
    simp only [List.append_assoc]

lemma utf8Bytes_commandText {command : String} (h : textLength command = (utf8Bytes command).length) (len : ℕ) :
    utf8Bytes (commandText command len) =
      0x2a :: (Decimal.text (len + 1 : ℕ) ++ [0x0d, 0x0a] ++ encodeArg (utf8Bytes command)) := by
  have hstar : utf8Bytes "*" = [0x2a] := by decide
  have hnext : utf8Bytes "\r\n$" = [0x0d, 0x0a, 0x24] := by decide
  have hcrlf : utf8Bytes "\r\n" = [0x0d, 0x0a] := by decide
  rw [commandText, utf8Bytes_append, utf8Bytes_append, utf8Bytes_append, utf8Bytes_append, utf8Bytes_append,
    utf8Bytes_append, utf8Bytes_numberText, utf8Bytes_numberText, hstar, hnext, hcrlf, h, encodeArg]
  simp only [List.append_assoc, List.cons_append, List.nil_append]

/-- The names of the commands are ASCII, so that their length in units is that in bytes. -/
def Named (obj : Command κ) : Prop := textLength obj.command = (utf8Bytes obj.command).length

/-- Both ways of writing a command put the same bytes on the stream. -/
theorem internalSendCommand_of_ready {c : RedisClient κ} (hready : c.ready = true) {obj : Command κ}
    (hname : Named obj) :
    c.internalSendCommand obj =
      { c with
        stream := c.stream ++ encodeCommand obj.request
        commandQueue := (c.commandQueue.push [obj]).2 } := by
  have hbytes : (obj.args.map copyArg).map ArgCopy.bytes = obj.args.map (fun v => utf8Bytes v.toText) := by
    rw [List.map_map]
    exact List.map_congr_left (fun v _ => bytes_copyArg v)
  have hrequest : encodeCommand obj.request =
      utf8Bytes (commandText obj.command obj.args.length) ++
        ((obj.args.map copyArg).map ArgCopy.bytes).flatMap encodeArg := by
    rw [utf8Bytes_commandText hname, hbytes, encodeCommand, Command.request, List.length_cons, List.length_map,
      List.flatMap_cons]
    simp only [List.append_assoc, List.cons_append]
  rw [internalSendCommand, if_neg (by rw [hready]; decide), hrequest]
  dsimp only
  by_cases hbig : (obj.args.map copyArg).any ArgCopy.isBuffer = false
  · rw [if_pos hbig, write, utf8Bytes_appendArgs _ (by simpa using hbig)]
  · rw [if_neg hbig, foldl_writeArg, write]
    simp only [List.append_assoc]

lemma internalSendCommand_of_not_ready {c : RedisClient κ} (hready : c.ready = false) (obj : Command κ) :
    c.internalSendCommand obj = { c with offlineQueue := (c.offlineQueue.push [obj]).2 } := by
  rw [internalSendCommand, if_pos hready]

end RedisClient

end NodeRedis

end ExpressAuth
