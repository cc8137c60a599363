import ExpressAuth.Library.Framing
import ExpressAuth.Proofs.Numbers
import ExpressAuth.Redis
import ExpressAuth.Redis.Networking

/-!
# Commands as frames

The request grammar as a reader, and the encoding of a command that it inverts. Where the grammar says
`bad` nothing is claimed of the connection: it may answer with a protocol error, or wait.
-/

namespace ExpressAuth.Redis

open Framing

/-! ### The grammar -/

/-- A length between the type byte and the line break. A longer line is no 64-bit number. -/
def readLength (s : List UInt8) : Step UInt8 ℤ :=
  (readLineWithin 32 13 s).andThen (fun line rest =>
    match string2ll line with
    | some ll => .frame ll.toInt rest
    | none => .bad)

def argHeader : List UInt8 → Step UInt8 ℕ
  | [] => .need
  | type :: s =>
    if type = 0x24 then
      (readLength s).andThen (fun n rest => if n < 0 ∨ 512 * 1024 * 1024 < n then .bad else .frame n.toNat rest)
    else .bad

def readArg (s : List UInt8) : Step UInt8 (List UInt8) :=
  (argHeader s).andThen (fun n rest => readBlock n 2 rest)

/-- The arguments of a request with a given count. -/
def readArgs (n : ℤ) (s : List UInt8) : Step UInt8 (List (List UInt8)) :=
  if 1024 * 1024 < n then .bad
  else if n ≤ 0 then .frame [] s
  else readTimes readArg n.toNat [] s

def readCommand : List UInt8 → Step UInt8 (List (List UInt8))
  | [] => .need
  | type :: s => if type = 0x2a then (readLength s).andThen readArgs else .bad

lemma stable_readLength : Stable readLength := by
  apply (stable_readLineWithin 32).andThen
  intro line
  cases string2ll line with
  | none => exact stable_bad
  | some ll => exact stable_frame ll.toInt

lemma stable_argHeader : Stable argHeader := by
  apply stable_of_cons (fun type s => if type = 0x24 then (readLength s).andThen (fun n rest =>
    if n < 0 ∨ 512 * 1024 * 1024 < n then .bad else .frame n.toNat rest) else .bad) rfl (fun _ _ => rfl)
  intro type
  exact (stable_readLength.andThen (fun n => stable_bad.ite (stable_frame n.toNat))).ite stable_bad

lemma stable_readArg : Stable readArg := stable_argHeader.andThen (fun n => stable_readBlock n 2)

lemma stable_readArgs (n : ℤ) : Stable (readArgs n) :=
  stable_bad.ite ((stable_frame []).ite (stable_readTimes stable_readArg n.toNat []))

def commandReader : Reader UInt8 (List (List UInt8)) :=
  .ofCons readCommand (fun type s => if type = 0x2a then (readLength s).andThen readArgs else .bad) rfl
    (fun _ _ => rfl) (fun _ => (stable_readLength.andThen stable_readArgs).ite stable_bad)

/-! ### The encoding -/

def encodeArg (arg : List UInt8) : List UInt8 :=
  0x24 :: (Decimal.text arg.length ++ [0x0d, 0x0a] ++ (arg ++ [0x0d, 0x0a]))

def encodeCommand (args : List (List UInt8)) : List UInt8 :=
  0x2a :: (Decimal.text args.length ++ [0x0d, 0x0a] ++ args.flatMap encodeArg)

/-- The names under which the application's commands are sent. These commands leave the connection open. -/
def servedNames : List String := ["hget", "hset", "keys", "hgetall", "del"]

/-- A request within the limits of the server, for one of the application's commands. -/
structure Acceptable (args : List (List UInt8)) : Prop where
  served : ∃ name ∈ servedNames, args.head? = some (utf8Bytes name)
  count : args.length ≤ 1024 * 1024
  length : ∀ arg ∈ args, arg.length ≤ 512 * 1024 * 1024

lemma Acceptable.nonempty {args : List (List UInt8)} (h : Acceptable args) : args ≠ [] := by
  obtain ⟨name, -, hhead⟩ := h.served
  rintro rfl
  simp at hhead

lemma not_quit_of_served {args : List (List UInt8)} {name : String} (hname : name ∈ servedNames)
    (hhead : args.head? = some (utf8Bytes name)) : Client.isQuit args = false := by
  have hnames : ∀ name ∈ servedNames, Client.isQuit [utf8Bytes name] = false := by decide
  have hfirst : Client.isQuit args = Client.isQuit [utf8Bytes name] := by
    rw [Client.isQuit, Client.isQuit, List.headD_eq_head?_getD, hhead]
    rfl
  exact hfirst.trans (hnames name hname)

lemma Acceptable.not_quit {args : List (List UInt8)} (h : Acceptable args) : Client.isQuit args = false := by
  obtain ⟨name, hname, hhead⟩ := h.served
  exact not_quit_of_served hname hhead

lemma readLength_text {n : ℕ} (hn : n < 2 ^ 63) (rest : List UInt8) :
    readLength (Decimal.text n ++ [0x0d, 0x0a] ++ rest) = .frame n rest := by
  have hint : (Int64.ofNat n).toInt = n := Int64.toInt_ofNat_of_lt hn
  have hread : string2ll (Decimal.text n) = some (Int64.ofNat n) := by
    rw [string2ll_eq_some_iff, hint]
  have hlen : (Decimal.text n).length < 32 := by
    have hle : (Decimal.digits n).length ≤ 20 := (Decimal.length_digits_le_iff (by decide)).mpr (by omega)
    rw [Decimal.text_natCast]
    omega
  have hreturn : (13 : UInt8) ∉ Decimal.text n := by
    intro h
    exact absurd (Decimal.isDigit_of_mem (n := n) h) (by decide)
  have hline : readLineWithin 32 13 (Decimal.text n ++ [0x0d, 0x0a] ++ rest) = .frame (Decimal.text n) rest := by
    rw [List.append_assoc]
    exact readLineWithin_line hreturn hlen 0x0a rest
  rw [readLength, hline, Step.frame_andThen, hread]
  simp only [hint]

lemma readArg_encodeArg {arg : List UInt8} (h : arg.length ≤ 512 * 1024 * 1024) (rest : List UInt8) :
    readArg (encodeArg arg ++ rest) = .frame arg rest := by
  have hblock : readBlock arg.length 2 (arg ++ ([0x0d, 0x0a] ++ rest)) = .frame arg rest :=
    readBlock_block arg [0x0d, 0x0a] rest
  rw [readArg, encodeArg, List.cons_append, argHeader, if_pos rfl, List.append_assoc, readLength_text (by omega),
    Step.frame_andThen, if_neg (by omega), Step.frame_andThen, Int.toNat_natCast, List.append_assoc, hblock]

/-- The reader takes back every command that was encoded, whatever follows it. -/
lemma readCommand_encodeCommand {args : List (List UInt8)} (h : Acceptable args) (rest : List UInt8) :
    readCommand (encodeCommand args ++ rest) = .frame args rest := by
  have hcount := h.count
  have hpos : 0 < args.length := List.length_pos_iff.mpr h.nonempty
  have hargs : ∀ arg ∈ args, ∀ t, readArg (encodeArg arg ++ t) = .frame (id arg) t :=
    fun arg harg t => readArg_encodeArg (h.length arg harg) t
  rw [encodeCommand, List.cons_append, readCommand, if_pos rfl, List.append_assoc, readLength_text (by omega),
    Step.frame_andThen, readArgs, if_neg (by omega), if_neg (by omega), Int.toNat_natCast,
    readTimes_encoded hargs, List.nil_append, List.map_id]

end ExpressAuth.Redis
