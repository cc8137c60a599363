import ExpressAuth.Library.Simulation
import ExpressAuth.Wire
import ExpressAuth.Proofs.CommandQueue
import ExpressAuth.Proofs.CommandStream
import ExpressAuth.Proofs.ReplyBytes
import ExpressAuth.Proofs.ReplyStream
import ExpressAuth.Proofs.Sending
import Mathlib.Data.List.ReduceOption

/-!
# The byte stream behaves as the queue of the server model

Every run over the byte stream, with its cut reads, parsers and queues, is matched by a run of `Server`, where
commands and replies wait in plain lists: the same requests lead to the same store, sessions, responses and
log. What holds of every run of `Server` therefore holds of the system on the wire.
-/

namespace ExpressAuth

open Framing NodeRedis

/-! ### Segments issue at the end of the queue -/

namespace Server

/-- What a segment does apart from its commands does not depend on the two lists. -/
lemma segment_lists (s : Server) (i now : ℕ) (f : Ctx → Ctx) :
    ∃ issued, ∀ queue replies, { s with queue, replies }.segment .process i now f =
      { s.segment .process i now f with queue := queue ++ issued, replies } := by
  unfold segment
  cases ht : s.tasks i with
  | none =>
    refine ⟨[], fun queue replies => ?_⟩
    simp only [ht, List.append_nil]
  | some t =>
    refine ⟨(f (s.context .process t now)).issued.map (fun p => ⟨i, p.1, p.2⟩), fun queue replies => ?_⟩
    simp only [ht]
    rfl

end Server

namespace NodeRedis.RedisClient

variable {κ : Type*}

lemma foldl_send_of_ready {c : RedisClient κ} (hready : c.ready = true) {objs : List (Command κ)}
    (hnames : ∀ obj ∈ objs, Named obj) :
    objs.foldl internalSendCommand c =
      { c with
        stream := c.stream ++ objs.flatMap (fun obj => Redis.encodeCommand obj.request)
        commandQueue := objs.foldl Deque.pushItem c.commandQueue } := by
  induction objs generalizing c with
  | nil =>
    rw [List.foldl_nil, List.flatMap_nil, List.append_nil, List.foldl_nil]
  | cons obj objs ih =>
    rw [List.foldl_cons, internalSendCommand_of_ready hready (hnames obj List.mem_cons_self),
      ih (by exact hready) (fun obj' hobj' => hnames obj' (List.mem_cons_of_mem obj hobj')), List.flatMap_cons]
    simp only [List.append_assoc, List.foldl_cons]
    rfl

lemma foldl_send_of_not_ready {c : RedisClient κ} (hready : c.ready = false) (objs : List (Command κ)) :
    objs.foldl internalSendCommand c = { c with offlineQueue := objs.foldl Deque.pushItem c.offlineQueue } := by
  induction objs generalizing c with
  | nil => rfl
  | cons obj objs ih =>
    rw [List.foldl_cons, internalSendCommand_of_not_ready hready, ih (by exact hready)]
    rfl

/-- The commands that waited for the connection are sent in their order. -/
lemma sendOfflineQueue_eq {objs : List (Command κ)} {fuel : ℕ} (hfuel : objs.length < fuel) {c : RedisClient κ}
    (hready : c.ready = true) (hqueue : c.offlineQueue.Represents objs) (hnames : ∀ obj ∈ objs, Named obj) :
    ∃ queue, queue.Represents [] ∧ sendOfflineQueue fuel c =
      { objs.foldl internalSendCommand c with offlineQueue := queue } := by
  induction objs generalizing fuel c with
  | nil =>
    obtain ⟨fuel, rfl⟩ : ∃ k, fuel = k + 1 := ⟨fuel - 1, by simp at hfuel; omega⟩
    refine ⟨c.offlineQueue, hqueue, ?_⟩
    rw [sendOfflineQueue, hqueue.shift_nil]
    rfl
  | cons obj objs ih =>
    obtain ⟨fuel, rfl⟩ : ∃ k, fuel = k + 1 := ⟨fuel - 1, by simp at hfuel; omega⟩
    obtain ⟨hfirst, hrest⟩ := hqueue.shift_cons
    have hname := hnames obj List.mem_cons_self
    have hshift : c.offlineQueue.shift = (some obj, c.offlineQueue.shift.2) := Prod.ext hfirst rfl
    have hsend : internalSendCommand { c with offlineQueue := c.offlineQueue.shift.2 } obj =
        { internalSendCommand c obj with offlineQueue := c.offlineQueue.shift.2 } := by
      rw [internalSendCommand_of_ready (by exact hready) hname, internalSendCommand_of_ready hready hname]
    have hready' : (internalSendCommand c obj).ready = true := by
      rw [internalSendCommand_of_ready hready hname]
      exact hready
    have hnames' : ∀ obj' ∈ objs, Named obj' := fun obj' hobj' => hnames obj' (List.mem_cons_of_mem obj hobj')
    have hfuel' : objs.length < fuel := by
      rw [List.length_cons] at hfuel
      omega
    obtain ⟨queue, hempty, heq⟩ := ih hfuel'
      (c := { internalSendCommand c obj with offlineQueue := c.offlineQueue.shift.2 }) hready' hrest hnames'
    refine ⟨queue, hempty, ?_⟩
    rw [sendOfflineQueue, hshift]
    dsimp only
    rw [hsend, heq, foldl_send_of_ready (by exact hready') hnames', List.foldl_cons,
      foldl_send_of_ready hready' hnames']

end NodeRedis.RedisClient

lemma name_served (cmd : Cmd) : cmd.name ∈ Redis.servedNames := by
  cases cmd with
  | refused name args h => cases name <;> simp [Cmd.name, Redis.servedNames, CmdName.text]
  | _ => simp [Cmd.name, Redis.servedNames]

lemma textLength_name (cmd : Cmd) : textLength cmd.name = (utf8Bytes cmd.name).length := by
  have hnames : ∀ name ∈ Redis.servedNames, textLength name = (utf8Bytes name).length := by
    decide
  exact hnames cmd.name (name_served cmd)

lemma Pending.named (p : Pending) : RedisClient.Named p.command := textLength_name p.cmd

lemma Pending.request_command (p : Pending) : p.command.request = p.cmd.argv := by
  rw [Command.request, Pending.command, Cmd.argv, List.map_cons, List.map_map]
  rfl

/-- A `KEYS` in which Redis crashed. -/
def keysLost : Observation → Bool
  | .executed _ (.keys _) (.error _) => true
  | _ => false

namespace Wire

/-! ### What has to fit -/

/-- Arguments within the limits of Redis. -/
def Fit (obj : Command Ticket) : Prop :=
  obj.request.length ≤ 1024 * 1024 ∧ ∀ arg ∈ obj.request, arg.length ≤ 512 * 1024 * 1024

instance (obj : Command Ticket) : Decidable (Fit obj) := inferInstanceAs (Decidable (_ ∧ _))

/-- The commands that wait in the client. -/
def waiting (w : Wire) : List (Command Ticket) :=
  (w.client.commandQueue.toArray ++ w.client.offlineQueue.toArray).reduceOption

/-- The command that Redis executes next. -/
def next (w : Wire) : Option Cmd := (w.redis.commands[w.executed]?).bind Redis.lookupCommand

/-- Redis is up: no `KEYS` has read past the end of a key, and the next one does not. -/
structure Up (w : Wire) : Prop where
  next : ∀ pattern, w.next = some (.keys pattern) → Store.overruns w.app.store pattern = false
  log : ∀ o ∈ w.app.log, keysLost o = false

/-- The queues are not longer than their rings can be, and lengths fit the numbers of the protocol. -/
structure Fits (w : Wire) : Prop where
  commandQueue : w.client.commandQueue.length ≤ 2 ^ 30
  offlineQueue : w.client.offlineQueue.length ≤ 2 ^ 30
  waiting : ∀ obj ∈ w.waiting, Fit obj
  store : w.app.store.Small

lemma mem_waiting_of_command {w : Wire} {objs : List (Command Ticket)} (h : w.client.commandQueue.Represents objs)
    {obj : Command Ticket} (hobj : obj ∈ objs) : obj ∈ w.waiting := by
  rw [waiting, List.reduceOption_mem_iff, h.toArray]
  exact List.mem_append_left _ (List.mem_map_of_mem hobj)

lemma acceptable_of_fit {p : Pending} (h : Fit p.command) : Redis.Acceptable p.cmd.argv := by
  obtain ⟨hcount, hlength⟩ := h
  rw [p.request_command] at hcount hlength
  exact ⟨⟨p.cmd.name, name_served p.cmd, rfl⟩, hcount, hlength⟩

/-! ### The relation -/

/-- The object gets this answer. -/
def Answers (obj : Command Ticket) (a : Answer) : Prop :=
  obj.callback = ⟨a.task, a.callback⟩

/-- Requests on their way: those that Redis has parsed and those of the bytes. -/
structure Requests (w : Wire) (parsed sent : List Pending) : Prop where
  count : w.executed ≤ w.redis.commands.length
  parsed : w.redis.commands.drop w.executed = parsed.map (·.cmd.argv)
  sent : ∃ reqs r, Redis.Client.Represents w.redis reqs r ∧
    Drains Redis.commandReader (r ++ w.client.stream) (sent.map (·.cmd.argv)) []

/-- Replies on their way: those that the client has parsed and those of the bytes. -/
structure Replies (stack : ℕ) (w : Wire) (arrived coming : List Answer) : Prop where
  count : w.returned ≤ w.client.replyParser.returned.length
  arrived : w.client.replyParser.returned.drop w.returned = arrived.map (·.reply.value)
  coming : ∃ vs r, Parser.Represents stack w.client.replyParser vs r ∧
    Drains (replyReader stack) (r ++ w.toClient) (coming.map (·.reply.value)) []

/-- The command queue holds the objects of the replies, then those of the requests. -/
structure Queues (w : Wire) (requests delayed : List Pending) (replies : List Answer) : Prop where
  command : ∃ objs, List.Forall₂ Answers objs replies ∧
    w.client.commandQueue.Represents (objs ++ requests.map Pending.command)
  offline : w.client.offlineQueue.Represents (delayed.map Pending.command)
  ready : w.client.ready = true → delayed = []

/-- The connection carries the commands `queue` and the replies `replies`. -/
def Carries (stack : ℕ) (w : Wire) (queue : List Pending) (replies : List Answer) : Prop :=
  ∃ parsed sent offline arrived coming, queue = parsed ++ sent ++ offline ∧ replies = arrived ++ coming ∧
    Requests w parsed sent ∧ Replies stack w arrived coming ∧ Queues w (parsed ++ sent) offline replies

/-- A state of the wire and a state of the server model. -/
structure Sim (stack : ℕ) (w : Wire) (s : Server) : Prop where
  app : w.app = { s with queue := [], replies := [] }
  issuers : w.issuers = s.queue.map (·.task)
  carries : Carries stack w s.queue s.replies

/-- The process is not part of the connection. -/
lemma Carries.of_app {stack : ℕ} {w : Wire} {queue : List Pending} {replies : List Answer}
    (h : Carries stack w queue replies) (app : Server) (issuers : List ℕ) :
    Carries stack { w with app, issuers } queue replies := by
  obtain ⟨parsed, sent, offline, arrived, coming, hqueue, hreplies', hrequests, hreplies, hqueues⟩ := h
  exact ⟨parsed, sent, offline, arrived, coming, hqueue, hreplies', ⟨hrequests.count, hrequests.parsed, hrequests.sent⟩,
    ⟨hreplies.count, hreplies.arrived, hreplies.coming⟩, ⟨hqueues.command, hqueues.offline, hqueues.ready⟩⟩

lemma sim_init (stack : ℕ) (store : Store) : Sim stack { app := { store } } { store } := by
  refine ⟨rfl, rfl, [], [], [], [], [], rfl, rfl, ⟨Nat.le_refl 0, rfl, ?_⟩, ⟨Nat.le_refl 0, rfl, ?_⟩,
    ⟨[], .nil, Deque.represents_new⟩, Deque.represents_new, fun _ => rfl⟩
  · exact ⟨[], [], Redis.Client.represents_init, .stop rfl⟩
  · exact ⟨[], [], Parser.represents_init stack, .stop (readValue_nil stack)⟩

/-! ### Sending -/

/-- The bytes of new requests come behind those on their way. -/
lemma drains_sent {r stream : List UInt8} {sent issued : List Pending}
    (h : Drains Redis.commandReader (r ++ stream) (sent.map (·.cmd.argv)) [])
    (hissued : ∀ p ∈ issued, Fit p.command) :
    Drains Redis.commandReader
      (r ++ (stream ++ (issued.map Pending.command).flatMap (fun obj => Redis.encodeCommand obj.request)))
      ((sent ++ issued).map (·.cmd.argv)) [] := by
  have hbytes : (issued.map Pending.command).flatMap (fun obj => Redis.encodeCommand obj.request) =
      (issued.map (·.cmd.argv)).flatMap Redis.encodeCommand := by
    rw [List.flatMap_map, List.flatMap_map]
    apply List.flatMap_congr
    intro p _
    rw [p.request_command]
  have hnew : Drains Redis.commandReader ([] ++ (issued.map (·.cmd.argv)).flatMap Redis.encodeCommand)
      (issued.map (·.cmd.argv)) [] := by
    rw [List.nil_append, ← List.append_nil (List.flatMap _ _)]
    have hrequests : ∀ req ∈ issued.map (·.cmd.argv), Redis.Acceptable req := by
      intro req hreq
      obtain ⟨p, hp, rfl⟩ := List.mem_map.mp hreq
      exact acceptable_of_fit (hissued p hp)
    have hempty : Redis.commandReader.read [] = .need := rfl
    have hdrains := drains_encoded Redis.commandReader Redis.encodeCommand id Redis.Acceptable
      (fun req hreq t => Redis.readCommand_encodeCommand hreq t) hrequests hempty
    rwa [List.map_id] at hdrains
  rw [hbytes, List.map_append, ← List.append_assoc]
  exact h.append hnew

/-- New commands join the end of the queue, sent or waiting for the connection. -/
lemma Carries.send {stack : ℕ} {w : Wire} {queue issued : List Pending} {replies : List Answer}
    (h : Carries stack w queue replies)
    (hcommand : ((issued.map Pending.command).foldl RedisClient.internalSendCommand w.client).commandQueue.length ≤ 2 ^ 30)
    (hoffline : ((issued.map Pending.command).foldl RedisClient.internalSendCommand w.client).offlineQueue.length ≤ 2 ^ 30)
    (hfit : ∀ obj ∈ { w with client :=
      (issued.map Pending.command).foldl RedisClient.internalSendCommand w.client }.waiting, Fit obj) :
    Carries stack { w with client := (issued.map Pending.command).foldl RedisClient.internalSendCommand w.client }
      (queue ++ issued) replies := by
  obtain ⟨parsed, sent, offline, arrived, coming, rfl, rfl, hrequests, hreplies, hqueues⟩ := h
  cases hready : w.client.ready with
  | false =>
    rw [RedisClient.foldl_send_of_not_ready hready] at hoffline ⊢
    rw [Deque.length_pushItems] at hoffline
    have hlength := hqueues.offline.length_eq
    refine ⟨parsed, sent, offline ++ issued, arrived, coming, by rw [List.append_assoc], rfl,
      ⟨hrequests.count, hrequests.parsed, hrequests.sent⟩, ⟨hreplies.count, hreplies.arrived, hreplies.coming⟩,
      hqueues.command, ?_, fun h => absurd (hready.symm.trans h) (by decide)⟩
    rw [List.map_append]
    exact hqueues.offline.pushItems _ (by omega)
  | true =>
    have hnames : ∀ obj ∈ issued.map Pending.command, RedisClient.Named obj := by
      intro obj hobj
      obtain ⟨p, -, rfl⟩ := List.mem_map.mp hobj
      exact p.named
    obtain rfl := hqueues.ready hready
    obtain ⟨objs, hanswers, hcommands⟩ := hqueues.command
    rw [RedisClient.foldl_send_of_ready hready hnames] at hcommand hfit ⊢
    rw [Deque.length_pushItems] at hcommand
    have hlength := hcommands.length_eq
    have hpushed := hcommands.pushItems (issued.map Pending.command) (by omega)
    rw [List.append_assoc, ← List.map_append, List.append_assoc] at hpushed
    have hissued : ∀ p ∈ issued, Fit p.command := by
      intro p hp
      apply hfit
      exact mem_waiting_of_command hpushed
        (List.mem_append_right _ (List.mem_map_of_mem (by simp [hp])))
    obtain ⟨reqs, r, hredis, hdrain⟩ := hrequests.sent
    refine ⟨parsed, sent ++ issued, [], arrived, coming, by simp, rfl, ⟨hrequests.count, hrequests.parsed, ?_⟩,
      ⟨hreplies.count, hreplies.arrived, hreplies.coming⟩, ⟨objs, hanswers, hpushed⟩, hqueues.offline, fun _ => rfl⟩
    exact ⟨reqs, r, hredis, drains_sent hdrain hissued⟩

/-- When the connection is ready, the commands that waited for it are sent behind the others. -/
lemma Carries.ready {stack : ℕ} {w : Wire} {queue : List Pending} {replies : List Answer}
    (h : Carries stack w queue replies) (hfits : Fits { w with client := w.client.onReady }) :
    Carries stack { w with client := w.client.onReady } queue replies := by
  obtain ⟨parsed, sent, offline, arrived, coming, rfl, rfl, hrequests, hreplies, hqueues⟩ := h
  have hnames : ∀ obj ∈ offline.map Pending.command, RedisClient.Named obj := by
    intro obj hobj
    obtain ⟨p, -, rfl⟩ := List.mem_map.mp hobj
    exact p.named
  have hfuel : (offline.map Pending.command).length < w.client.offlineQueue.length + 1 := by
    rw [hqueues.offline.length_eq]
    exact Nat.lt_succ_self _
  obtain ⟨rest, hempty, heq⟩ := RedisClient.sendOfflineQueue_eq hfuel
    (c := { w.client with ready := true }) rfl hqueues.offline hnames
  have honReady : w.client.onReady = { w.client with
      ready := true
      stream := w.client.stream ++ (offline.map Pending.command).flatMap (fun obj => Redis.encodeCommand obj.request)
      commandQueue := (offline.map Pending.command).foldl Deque.pushItem w.client.commandQueue
      offlineQueue := rest } := by
    rw [RedisClient.onReady, heq, RedisClient.foldl_send_of_ready rfl hnames]
  obtain ⟨objs, hanswers, hcommands⟩ := hqueues.command
  have hcommand := hfits.commandQueue
  have hfit := hfits.waiting
  rw [honReady] at hcommand hfit ⊢
  rw [Deque.length_pushItems] at hcommand
  have hlength := hcommands.length_eq
  have hpushed := hcommands.pushItems (offline.map Pending.command) (by omega)
  rw [List.append_assoc, ← List.map_append, List.append_assoc] at hpushed
  have hissued : ∀ p ∈ offline, Fit p.command := by
    intro p hp
    apply hfit
    exact mem_waiting_of_command hpushed (List.mem_append_right _ (List.mem_map_of_mem (by simp [hp])))
  obtain ⟨reqs, r, hredis, hdrain⟩ := hrequests.sent
  refine ⟨parsed, sent ++ offline, [], arrived, coming, by simp, rfl, ⟨hrequests.count, hrequests.parsed, ?_⟩,
    ⟨hreplies.count, hreplies.arrived, hreplies.coming⟩, ⟨objs, hanswers, hpushed⟩, hempty, fun _ => rfl⟩
  exact ⟨reqs, r, hredis, drains_sent hdrain hissued⟩

/-! ### Reading -/

/-- A read moves requests from the bytes to the parsed ones. -/
lemma Carries.redisRead {stack : ℕ} {w : Wire} {queue : List Pending} {replies : List Answer}
    (h : Carries stack w queue replies) (n : ℕ) : Carries stack (w.redisRead n) queue replies := by
  rw [Wire.redisRead]
  by_cases hnil : w.client.stream.take (min n w.redis.readlen) = []
  · rwa [if_pos hnil]
  · rw [if_neg hnil]
    obtain ⟨parsed, sent, offline, arrived, coming, rfl, rfl, hrequests, hreplies, hqueues⟩ := h
    obtain ⟨reqs, r, hredis, hdrain⟩ := hrequests.sent
    generalize hbytes : w.client.stream.take (min n w.redis.readlen) = bytes at hnil ⊢
    have hrest : bytes ++ w.client.stream.drop bytes.length = w.client.stream := by
      have hprefix : bytes <+: w.client.stream := hbytes ▸ List.take_prefix _ _
      obtain ⟨rest, hrest⟩ := hprefix
      rw [← hrest, List.drop_left]
    have hlen : bytes.length ≤ w.redis.readlen := by
      rw [← hbytes, List.length_take]
      omega
    rw [← hrest, ← List.append_assoc] at hdrain
    obtain ⟨reqs₁, reqs₂, mid, hsplit, hfirst, hsecond⟩ := hdrain.split
    obtain ⟨sent₁, sent₂, rfl, rfl, rfl⟩ := List.map_eq_append_iff.mp hsplit
    have hopen : ∀ req ∈ sent₁.map (·.cmd.argv), Redis.Client.isQuit req = false := by
      intro req hreq
      obtain ⟨p, -, rfl⟩ := List.mem_map.mp hreq
      exact Redis.not_quit_of_served (name_served p.cmd) rfl
    have hread := hredis.read ⟨hnil, hlen⟩ hfirst hopen
    have hnonempty : (sent₁.map (·.cmd.argv)).filter (· ≠ []) = sent₁.map (·.cmd.argv) := by
      rw [List.filter_eq_self]
      intro req hreq
      obtain ⟨p, -, rfl⟩ := List.mem_map.mp hreq
      simp [Cmd.argv]
    have hcommands : (w.redis.readQueryFromClient bytes).commands = w.redis.commands ++ sent₁.map (·.cmd.argv) := by
      rw [hread.commands, List.filter_append, ← hredis.commands, hnonempty]
    refine ⟨parsed ++ sent₁, sent₂, offline, arrived, coming, by simp, rfl, ⟨?_, ?_, ⟨_, mid, hread, hsecond⟩⟩,
      ⟨hreplies.count, hreplies.arrived, hreplies.coming⟩, ?_, hqueues.offline, hqueues.ready⟩
    · dsimp only
      rw [hcommands, List.length_append]
      exact hrequests.count.trans (Nat.le_add_right _ _)
    · dsimp only
      rw [hcommands, List.drop_append_of_le_length hrequests.count, hrequests.parsed, List.map_append]
    · rw [List.append_assoc]
      exact hqueues.command

/-- A chunk moves replies from the bytes to the parsed ones. -/
lemma Carries.clientRead {stack : ℕ} {w : Wire} {queue : List Pending} {replies : List Answer}
    (h : Carries stack w queue replies) (n : ℕ) : Carries stack (w.clientRead stack n) queue replies := by
  rw [Wire.clientRead]
  by_cases hnil : w.toClient.take n = []
  · rwa [if_pos hnil]
  · rw [if_neg hnil]
    obtain ⟨parsed, sent, offline, arrived, coming, rfl, rfl, hrequests, hreplies, hqueues⟩ := h
    obtain ⟨vs, r, hparser, hdrain⟩ := hreplies.coming
    generalize hchunk : w.toClient.take n = chunk at hnil ⊢
    have hrest : chunk ++ w.toClient.drop chunk.length = w.toClient := by
      have hprefix : chunk <+: w.toClient := hchunk ▸ List.take_prefix _ _
      obtain ⟨rest, hrest⟩ := hprefix
      rw [← hrest, List.drop_left]
    rw [← hrest, ← List.append_assoc] at hdrain
    obtain ⟨vs₁, vs₂, mid, hsplit, hfirst, hsecond⟩ := hdrain.split
    obtain ⟨coming₁, coming₂, rfl, rfl, rfl⟩ := List.map_eq_append_iff.mp hsplit
    have hread := hparser.execute hnil hfirst
    have hreturned : (w.client.replyParser.execute stack chunk).returned =
        w.client.replyParser.returned ++ coming₁.map (·.reply.value) := by
      rw [hread.returned, hparser.returned]
    refine ⟨parsed, sent, offline, arrived ++ coming₁, coming₂, rfl, by simp,
      ⟨hrequests.count, hrequests.parsed, hrequests.sent⟩, ⟨?_, ?_, ⟨_, mid, hread, hsecond⟩⟩,
      ⟨hqueues.command, hqueues.offline, hqueues.ready⟩⟩
    · dsimp only [RedisClient.onData]
      rw [hreturned, List.length_append]
      exact hreplies.count.trans (Nat.le_add_right _ _)
    · dsimp only [RedisClient.onData]
      rw [hreturned, List.drop_append_of_le_length hreplies.count, hreplies.arrived, List.map_append]

/-! ### Steps -/

/-- After a segment: its commands are issued and not sent yet. -/
lemma Sim.of_send {stack : ℕ} {w : Wire} {s : Server} (queue issued : List Pending)
    (happ : w.app = { s with queue := issued, replies := [] }) (hqueue : s.queue = queue ++ issued)
    (hissuers : w.issuers = queue.map (·.task)) (hcarries : Carries stack w queue s.replies) (hfits : Fits w.send) :
    Sim stack w.send s := by
  have hissued : w.app.queue = issued := by rw [happ]
  have hclient : w.app.queue.foldl (fun c p => c.internalSendCommand p.command) w.client =
      (issued.map Pending.command).foldl RedisClient.internalSendCommand w.client := by
    rw [hissued, List.foldl_map]
  have hcommand := hfits.commandQueue
  have hoffline := hfits.offlineQueue
  have hfit := hfits.waiting
  rw [send, hclient] at hcommand hoffline hfit
  have hsent := hcarries.send hcommand hoffline hfit
  refine ⟨?_, ?_, ?_⟩
  · rw [send, happ]
  · rw [send, hissuers, hissued, hqueue, List.map_append]
  · rw [send, hclient, hqueue]
    exact hsent.of_app _ _

/-- Redis executes the request that the server model has at the head of its queue. -/
lemma Sim.redisExec {stack : ℕ} {w : Wire} {s : Server} (h : Sim (stack + 1) w s) (hfits : Fits w) (hup : Up w)
    (e : Redis.Encoding) :
    Sim (stack + 1) (w.redisExec e) s ∨ Sim (stack + 1) (w.redisExec e) (s.step .process .exec) := by
  obtain ⟨parsed, sent, offline, arrived, coming, hqueue, hreplies', hrequests, hreplies, hqueues⟩ := h.carries
  have hnext : w.redis.commands[w.executed]? = (parsed.map (·.cmd.argv)).head? := by
    rw [← hrequests.parsed, List.head?_drop]
  have hexec : w.next = (parsed.head?).map (·.cmd) := by
    rw [Wire.next, hnext]
    cases parsed with
    | nil => rfl
    | cons p parsed => exact Redis.lookupCommand_argv p.cmd
  rw [Wire.redisExec, ← Wire.next, hexec]
  cases parsed with
  | nil => exact Or.inl h
  | cons p parsed =>
    right
    obtain ⟨objs, hanswers, hcommands⟩ := hqueues.command
    have hstore : w.app.store = s.store := by rw [h.app]
    have hissuers : w.issuers = p.task :: (parsed ++ sent ++ offline).map (·.task) := by
      rw [h.issuers, hqueue]
      rfl
    have hkeys : ∀ pattern, p.cmd = .keys pattern → Store.overruns w.app.store pattern = false := by
      intro pattern hp
      exact hup.next pattern (hexec.trans (congrArg some hp))
    have hbytes := Redis.call_eq e hfits.store hkeys
    have hstep : s.step .process .exec = s.perform p (parsed ++ sent ++ offline) := by
      rw [Server.step, hqueue]
      rfl
    rw [List.head?_cons, Option.map_some, hstep]
    dsimp only
    rw [hbytes, hstore, hissuers]
    obtain ⟨vs, r, hparser, hdrain⟩ := hreplies.coming
    refine ⟨?_, rfl, parsed, sent, offline, arrived, coming ++ [⟨p.task, p.callback, (p.cmd.exec s.store).2⟩], rfl, ?_,
      ⟨?_, ?_, hrequests.sent⟩, ⟨hreplies.count, hreplies.arrived, vs, r, hparser, ?_⟩, ⟨objs ++ [p.command], ?_, ?_⟩,
      hqueues.offline, hqueues.ready⟩
    · rw [h.app]
      rfl
    · exact (congrArg (· ++ [_]) hreplies').trans (List.append_assoc _ _ _)
    · have hlength := congrArg List.length hrequests.parsed
      rw [List.length_drop, List.length_map, List.length_cons] at hlength
      dsimp only
      omega
    · dsimp only
      rw [← List.drop_drop, hrequests.parsed]
      rfl
    · have hsendable := hfits.store.sendable p.cmd stack
      rw [hstore] at hsendable
      have hnew : Drains (replyReader (stack + 1)) ([] ++ (p.cmd.exec s.store).2.resp.encode)
          [(p.cmd.exec s.store).2.value] [] := by
        refine .frame ?_ (.stop (readValue_nil (stack + 1)))
        rw [List.nil_append, ← List.append_nil (Resp.encode _)]
        exact readValue_encode hsendable []
      have happend := hdrain.append hnew
      have hmap : (coming ++ [(⟨p.task, p.callback, (p.cmd.exec s.store).2⟩ : Answer)]).map (·.reply.value) =
          coming.map (·.reply.value) ++ [(p.cmd.exec s.store).2.value] := List.map_append
      rw [hmap]
      rwa [List.append_assoc] at happend
    · exact List.rel_append hanswers (.cons rfl .nil)
    · have hmoved : objs ++ [p.command] ++ (parsed ++ sent).map Pending.command =
          objs ++ (p :: parsed ++ sent).map Pending.command := List.append_assoc _ _ _
      rw [hmoved]
      exact hcommands

/-- The callback at the front of the queue gets the reply that the server model delivers next. -/
lemma Sim.callback {stack : ℕ} {w : Wire} {s : Server} (h : Sim stack w s) (now : ℕ) (hfits : Fits (w.callback now)) :
    Sim stack (w.callback now) s ∨ Sim stack (w.callback now) (s.step .process (.deliver now)) := by
  obtain ⟨parsed, sent, offline, arrived, coming, hqueue, hreplies', hrequests, hreplies, hqueues⟩ := h.carries
  have hnext : w.client.replyParser.returned[w.returned]? = (arrived.map (·.reply.value)).head? := by
    rw [← hreplies.arrived, List.head?_drop]
  cases arrived with
  | nil =>
    left
    have hwait : w.callback now = w := by
      rw [Wire.callback, hnext]
      rfl
    rwa [hwait]
  | cons a arrived =>
    right
    obtain ⟨objs, hanswers, hcommands⟩ := hqueues.command
    rw [hreplies', List.cons_append] at hanswers
    cases hanswers with
    | @cons obj _ objs _ hanswer hrest =>
      obtain ⟨hfirst, hcommands'⟩ := hcommands.shift_cons
      have hshift : w.client.commandQueue.shift = (some obj, w.client.commandQueue.shift.2) := Prod.ext hfirst rfl
      have hcallback : w.callback now =
          { w with
            app := w.app.segment .process a.task now (a.callback.run a.reply)
            client := { w.client with commandQueue := w.client.commandQueue.shift.2 }
            returned := w.returned + 1 }.send := by
        rw [Wire.callback, hnext, hshift, List.map_cons, List.head?_cons]
        dsimp only
        rw [handleReply_value, hanswer]
      have hstep : s.step .process (.deliver now) =
          { s with replies := arrived ++ coming }.segment .process a.task now (a.callback.run a.reply) := by
        rw [Server.step, hreplies']
        rfl
      obtain ⟨issued, hlists⟩ := s.segment_lists a.task now (a.callback.run a.reply)
      have hsegment := hlists s.queue (arrived ++ coming)
      have happ := hlists [] []
      rw [hcallback] at hfits ⊢
      rw [hstep]
      refine Sim.of_send s.queue issued ?_ ?_ h.issuers ?_ hfits
      · rw [h.app, happ, hsegment, List.nil_append]
      · rw [hsegment]
      · rw [hsegment]
        refine ⟨parsed, sent, offline, arrived, coming, hqueue, rfl, ⟨hrequests.count, hrequests.parsed, hrequests.sent⟩,
          ⟨?_, ?_, hreplies.coming⟩, ⟨objs, hrest, hcommands'⟩, hqueues.offline, hqueues.ready⟩
        · have hlength := congrArg List.length hreplies.arrived
          rw [List.length_drop, List.length_map, List.length_cons] at hlength
          dsimp only
          omega
        · dsimp only
          rw [← List.drop_drop, hreplies.arrived]
          rfl

/-- A request arrives and runs its first segment. -/
lemma Sim.arrive {stack : ℕ} {w : Wire} {s : Server} (h : Sim stack w s) (sid : ℕ) (request : Request) (now : ℕ)
    (hfits : Fits { w with app := w.app.step .process (.arrive sid request now) }.send) :
    Sim stack { w with app := w.app.step .process (.arrive sid request now) }.send
      (s.step .process (.arrive sid request now)) := by
  obtain ⟨issued, hlists⟩ := (s.enter sid request).segment_lists s.started now request.begin
  have hsegment : s.step .process (.arrive sid request now) =
      { (s.enter sid request).segment .process s.started now request.begin with
        queue := s.queue ++ issued, replies := s.replies } := hlists s.queue s.replies
  have happ : w.app.step .process (.arrive sid request now) =
      { (s.enter sid request).segment .process s.started now request.begin with
        queue := [] ++ issued, replies := [] } := by
    rw [h.app]
    exact hlists [] []
  refine Sim.of_send s.queue issued ?_ ?_ h.issuers ?_ hfits
  · rw [happ, hsegment, List.nil_append]
  · rw [hsegment]
  · rw [hsegment]
    exact h.carries.of_app _ _

/-! ### Runs -/

/-- What comes from outside, as the server model has it. -/
def inputs : WireEvent → List Event
  | .arrive sid request now => [.arrive sid request now]
  | .spawn argv => [.spawn argv]
  | .adminStep j now => [.adminStep j now]
  | _ => []

/-- The events of the server model that come from outside. -/
def serverInputs : Event → List Event
  | .exec => []
  | .deliver _ => []
  | event => [event]

/-- Every step on the wire is matched by at most one step of the server model. -/
lemma Sim.step {stack : ℕ} {e : Redis.Encoding} {w : Wire} {s : Server} (event : WireEvent) (h : Sim (stack + 1) w s)
    (hbefore : Fits w) (hup : Up w) (hafter : Fits (w.step e (stack + 1) event)) :
    ∃ events, events.flatMap serverInputs = inputs event ∧
      Sim (stack + 1) (w.step e (stack + 1) event) (Runs.after (Server.step .process) s events) := by
  cases event with
  | arrive sid request now => exact ⟨[.arrive sid request now], rfl, h.arrive sid request now hafter⟩
  | spawn argv =>
    refine ⟨[.spawn argv], rfl, ?_, h.issuers, h.carries.of_app _ _⟩
    rw [Wire.step, h.app]
    rfl
  | adminStep j now =>
    refine ⟨[.adminStep j now], rfl, ?_, h.issuers, h.carries.of_app _ _⟩
    rw [Wire.step, h.app]
    rfl
  | ready => exact ⟨[], rfl, h.app, h.issuers, h.carries.ready hafter⟩
  | redisRead n =>
    have happ : (w.redisRead n).app = w.app ∧ (w.redisRead n).issuers = w.issuers := by
      rw [Wire.redisRead]
      dsimp only
      split_ifs
      · exact ⟨rfl, rfl⟩
      · exact ⟨rfl, rfl⟩
    exact ⟨[], rfl, happ.1.trans h.app, happ.2.trans h.issuers, h.carries.redisRead n⟩
  | redisExec =>
    rcases h.redisExec hbefore hup e with hsame | hnext
    · exact ⟨[], rfl, hsame⟩
    · exact ⟨[.exec], rfl, hnext⟩
  | clientRead n =>
    have happ : (w.clientRead (stack + 1) n).app = w.app ∧ (w.clientRead (stack + 1) n).issuers = w.issuers := by
      rw [Wire.clientRead]
      split_ifs
      · exact ⟨rfl, rfl⟩
      · exact ⟨rfl, rfl⟩
    exact ⟨[], rfl, happ.1.trans h.app, happ.2.trans h.issuers, h.carries.clientRead n⟩
  | callback now =>
    rcases h.callback now hafter with hsame | hnext
    · exact ⟨[], rfl, hsame⟩
    · exact ⟨[.deliver now], rfl, hnext⟩

/-- Nothing is on its way: no bytes, no parsed request or reply, and the connection is ready. -/
structure Quiet (w : Wire) : Prop where
  ready : w.client.ready = true
  stream : w.client.stream = []
  toClient : w.toClient = []
  executed : w.executed = w.redis.commands.length
  returned : w.returned = w.client.replyParser.returned.length

/-- No command and no reply is lost: where nothing is on its way, nothing is waited for. -/
lemma Carries.nil_of_quiet {stack : ℕ} {w : Wire} {queue : List Pending} {replies : List Answer}
    (h : Carries stack w queue replies) (hquiet : Quiet w) : queue = [] ∧ replies = [] := by
  obtain ⟨parsed, sent, offline, arrived, coming, rfl, rfl, hrequests, hreplies, hqueues⟩ := h
  obtain ⟨reqs, r, hredis, hsent⟩ := hrequests.sent
  obtain ⟨vs, r', hparser, hcoming⟩ := hreplies.coming
  rw [hquiet.stream, List.append_nil] at hsent
  rw [hquiet.toClient, List.append_nil] at hcoming
  have hparsed := hrequests.parsed
  have harrived := hreplies.arrived
  rw [hquiet.executed, List.drop_length, eq_comm, List.map_eq_nil_iff] at hparsed
  rw [hquiet.returned, List.drop_length, eq_comm, List.map_eq_nil_iff] at harrived
  have hnone := (hsent.unique (.stop hredis.need)).1
  have hnone' := (hcoming.unique (.stop hparser.need)).1
  rw [List.map_eq_nil_iff] at hnone hnone'
  rw [hparsed, hnone, harrived, hnone', hqueues.ready hquiet.ready]
  exact ⟨rfl, rfl⟩

lemma exists_sim (e : Redis.Encoding) (stack : ℕ) (store : Store) (events : List WireEvent)
    (hfits : ∀ pre, pre <+: events → Fits (run e (stack + 1) store pre))
    (hup : ∀ pre, pre <+: events → Up (run e (stack + 1) store pre)) :
    ∃ es, es.flatMap serverInputs = events.flatMap inputs ∧
      Sim (stack + 1) (run e (stack + 1) store events) (ExpressAuth.run store es) :=
  Runs.simulated (Wire.step e (stack + 1)) (Server.step .process) inputs serverInputs (Sim (stack + 1))
    (fun w => Fits w ∧ Up w) (fun event h hbefore hafter => h.step event hbefore.1 hbefore.2 hafter.1)
    (sim_init (stack + 1) store) events (fun pre hpre => ⟨hfits pre hpre, hup pre hpre⟩)

lemma small_of_keys_nil {s : Store} (h : s.keys = []) : s.Small := by
  refine ⟨by rw [h]; decide, fun k hk => ?_, fun k f v hv => ?_⟩
  · rw [h] at hk
    exact absurd hk (List.not_mem_nil)
  · have hmem : k ∈ s.keys := HashStore.mem_of_hget hv
    rw [h] at hmem
    exact absurd hmem (List.not_mem_nil)

/-- A request waits for the connection, is read by Redis in two parts, and its reply is read in two parts. -/
def cutReads : List WireEvent :=
  [.arrive 0 (.getVerifyMail "bob") 0, .ready, .redisRead 7, .redisRead 100, .redisExec, .clientRead 2, .clientRead 100,
    .callback 0]

lemma within_cutReads (pre : List WireEvent) (hpre : pre <+: cutReads) :
    Fits (run ⟨fun _ _ => true, fun _ _ _ => true⟩ (0 + 1) ∅ pre) ∧
      Up (run ⟨fun _ _ => true, fun _ _ _ => true⟩ (0 + 1) ∅ pre) := by
  have hall : ∀ pre ∈ List.inits cutReads,
      (run ⟨fun _ _ => true, fun _ _ _ => true⟩ 1 ∅ pre).client.commandQueue.length ≤ 2 ^ 30 ∧
      (run ⟨fun _ _ => true, fun _ _ _ => true⟩ 1 ∅ pre).client.offlineQueue.length ≤ 2 ^ 30 ∧
      (∀ obj ∈ (run ⟨fun _ _ => true, fun _ _ _ => true⟩ 1 ∅ pre).waiting, Fit obj) ∧
      (run ⟨fun _ _ => true, fun _ _ _ => true⟩ 1 ∅ pre).app.store.keys = [] ∧
      ∀ o ∈ (run ⟨fun _ _ => true, fun _ _ _ => true⟩ 1 ∅ pre).app.log, keysLost o = false := by
    decide +kernel
  obtain ⟨hcommand, hoffline, hwaiting, hkeys, hlog⟩ := hall pre ((List.mem_inits pre _).mpr hpre)
  refine ⟨⟨hcommand, hoffline, hwaiting, small_of_keys_nil hkeys⟩, fun pattern _ => ?_, hlog⟩
  rw [Store.overruns, hkeys]
  rfl

lemma quiet_cutReads : Quiet (run ⟨fun _ _ => true, fun _ _ _ => true⟩ (0 + 1) ∅ cutReads) :=
  ⟨by decide +kernel, by decide +kernel, by decide +kernel, by decide +kernel, by decide +kernel⟩

end Wire

end ExpressAuth
