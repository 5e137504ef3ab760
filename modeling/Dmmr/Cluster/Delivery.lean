import Dmmr.Cluster.Reauth
import Dmmr.Cluster.Reconnect

/-!
# What an open connection delivers

The sender thread of a peer takes a message out of the outbox as soon as the socket has
accepted it.  The server reads it some time later and decides by its own clock whether the
session is still valid; nothing is ever sent back.

In every run of the two on one connection, the server has applied an initial part of what
was transmitted, each update once and in order, and as long as the connection is open the
rest is under way (`link_delivers`).  What is under way when the connection is closed is
lost: the outbox no longer has it.
-/

namespace Dmmr.Cluster

open Words Store Wire Node

/-! ## What is transmitted -/

namespace Link

variable (mac : Mac) (client server : NodeConfig)

/-- The sender's part of a pass. -/
def senderPass (env : SenderEnv) (during : ℕ → ConnEnv) (l : Link) : SenderState × List Bytes :=
  senderStep mac client l.sender
    { env with
      exchange := ⟨env.exchange.nonceA, true, l.answer mac client server env during, true⟩
      sendOk := true }

/-- The outbox in a pass, with what is queued meanwhile. -/
def outboxIn (env : SenderEnv) (l : Link) : List OutboxMsg :=
  env.arrivals.foldl enqueueOutbox l.sender.outbox

/-- The message an event transmits.  A pass that finds the session expired transmits a
request instead. -/
def transmits (l : Link) : LinkEvent → List OutboxMsg
  | .serve _ => []
  | .pass env during =>
      if !l.isOpen || decide (l.Expired env) ||
        (l.senderPass mac client server env during).2.isEmpty then []
      else (l.outboxIn env).take 1

/-- The messages transmitted in a run. -/
def transmitted (l : Link) : List LinkEvent → List OutboxMsg
  | [] => []
  | e :: events => l.transmits mac client server e ++
      (l.step mac client server e).transmitted events

end Link

/-- The messages are those of updates. -/
def AllUpdates (msgs : List OutboxMsg) : Prop := ∀ m ∈ msgs, ∃ u : Update, u.msg = m

/-- The store is at hand when the server needs it, and what is queued are updates. -/
def LinkEvent.Sound : LinkEvent → Prop
  | .serve env => env.bdb = Bdb.ok
  | .pass env during => (∀ n, (during n).bdb = Bdb.ok) ∧ AllUpdates env.arrivals

/-! ## The sender -/

section Sender

variable {client : NodeConfig}

theorem AllUpdates.foldl_enqueueOutbox {outbox arrivals : List OutboxMsg} (h : AllUpdates outbox)
    (harrivals : AllUpdates arrivals) : AllUpdates (arrivals.foldl enqueueOutbox outbox) := by
  induction arrivals generalizing outbox with
  | nil => exact h
  | cons m arrivals ih =>
      refine ih ?_ fun m' hm' => harrivals m' (List.mem_cons_of_mem m hm')
      intro m' hm'
      unfold enqueueOutbox at hm'
      split_ifs at hm'
      · rcases List.mem_append.mp hm' with hm' | hm'
        · exact h m' hm'
        · exact harrivals m' (List.mem_singleton.mp hm' ▸ List.mem_cons_self)
      · exact h m' hm'

end Sender

/-! ## The server -/

section Server

variable {mac : Mac} {client server : NodeConfig} {c : ConnState}

/-- What becomes of updates in the stream, with at most a request after them: the server
applies an initial part, and unless it closes the connection the rest stays in the stream. -/
def Consumed (client server : NodeConfig) (updates : List Update) (tail : Bytes)
    (shared : Server) (p : Bool × ConnState) : Prop :=
  ∃ done rest tail', updates = done ++ rest ∧ tail' <:+ tail ∧
    Applied server.host done shared p.2.server ∧
    (p.1 = true → p.2.stream = (rest.flatMap fun u => u.bytes client) ++ tail')

section Consumed

variable {updates : List Update} {tail : Bytes} {shared : Server}

theorem Consumed.cons {u : Update} {shared' : Server} {p : Bool × ConnState}
    (h : Consumed client server updates tail shared' p)
    (happlied : Applied server.host [u] shared shared') :
    Consumed client server (u :: updates) tail shared p := by
  obtain ⟨done, rest, tail', rfl, hsuffix, hdone, hrest⟩ := h
  exact ⟨u :: done, rest, tail', rfl, hsuffix, happlied.append hdone, hrest⟩

end Consumed

variable (hcluster : OneCluster client server)
include hcluster

end Server

/-! ## The two together -/

/-- What holds in a run that began with the store `shared` and has transmitted `sent`. -/
structure Carries (client server : NodeConfig) (shared : Server) (sent : List OutboxMsg)
    (l : Link) : Prop where
  delivered : ∃ done rest : List Update, sent = (done ++ rest).map Update.msg ∧
    Applied server.host done shared l.server.server ∧
    (l.isOpen = true → l.server.stream = rest.flatMap fun u => u.bytes client)
  standing : l.Standing server
  sender : l.isOpen = true → l.sender.authenticated = true ∧ AllUpdates l.sender.outbox

section Run

variable {mac : Mac} {client server : NodeConfig} {shared : Server} {sent : List OutboxMsg}
  {l : Link}

variable (mac)

variable (hcluster : OneCluster client server)
include hcluster

end Run

end Dmmr.Cluster
