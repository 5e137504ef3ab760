import Dmmr.Cluster.Snapshot
import Dmmr.Cluster.Reaper

/-!
# Updates over connections that break

The sender thread of a peer sends the messages of the outbox one after the other.  A
connection may break at any byte; then the thread connects again and goes on with the
message that it could not send, which the receiver may have got in part.

What the receiver makes of a connection are the messages that have arrived to their last
byte (`applied_serve`).  So however often the connection breaks and however often a message
is sent again, the store of the receiver is what it would be if each message had been
applied once (`reconnects_lose_nothing`).

The session of a connection must last as long as the connection is used
(`Transmission.Served`): a frame that comes after it is dropped, and the thread does not learn
of it.
-/

namespace Dmmr.Cluster

open Words Store Wire Node

/-! ## What is on the wire -/

/-- A record that a node announces. -/
structure Update where
  key : Key
  record : Record
  time : Int
  nodeId_ne_zero : record.nodeId ≠ 0

namespace Update

/-- The message that `broadcast_sync` makes of it. -/
def msg (u : Update) : OutboxMsg := TableState.syncMsg (announce u.key u.record) u.time

def bytes (cfg : NodeConfig) (u : Update) : Bytes := itemBytes cfg (u.record.toDbRecord u.key)

def item (u : Update) : Key × Record := (u.key, u.record)

theorem recv_bytes (cfg : NodeConfig) (u : Update) (rest : Bytes) :
    clusterRecvFrame true (u.bytes cfg ++ rest) =
      some (recordFrame cfg.clusterName u.key u.record, rest) :=
  recv_itemBytes cfg u.key u.record rest

end Update

/-- The updates that have arrived to their last byte when `n` bytes have arrived. -/
def complete (cfg : NodeConfig) : ℕ → List Update → List Update
  | _, [] => []
  | n, u :: updates =>
      if (u.bytes cfg).length ≤ n then u :: complete cfg (n - (u.bytes cfg).length) updates else []

theorem length_bytes (cfg : NodeConfig) (u : Update) :
    (u.bytes cfg).length = frameSize + (u.key.1.length + u.record.value.length) := by
  rw [Update.bytes, itemBytes, List.length_append, Wire.length_toBytes, List.length_append]
  rfl

theorem length_controlFrame (cfg : NodeConfig) (opcode : Opcode) (value : Bytes) :
    (controlFrame cfg opcode value).length = frameSize + value.length := by
  rw [controlFrame, List.length_append, Wire.length_toBytes]

theorem complete_zero (cfg : NodeConfig) (updates : List Update) : complete cfg 0 updates = [] := by
  cases updates with
  | nil => rfl
  | cons u updates =>
      rw [complete, if_neg]
      rw [length_bytes, frameSize]
      omega

theorem complete_isPrefix (cfg : NodeConfig) (n : ℕ) (updates : List Update) :
    complete cfg n updates <+: updates := by
  induction updates generalizing n with
  | nil => exact List.prefix_refl []
  | cons u updates ih =>
      rw [complete]
      split_ifs
      · exact (List.prefix_cons_inj u).mpr (ih _)
      · exact List.nil_prefix

/-- A connection of the sender thread: the nonce of its `AUTH_REQUEST`, the updates it
sends, and how many bytes arrive before the connection breaks. -/
structure Transmission where
  nonceA : UInt64
  updates : List Update
  cut : ℕ
  envs : List ConnEnv

namespace Transmission

variable (sender : NodeConfig) (s : Transmission)

def request : Bytes := controlFrame sender .authRequest (Endian.big.bytes 8 s.nonceA.toNat)

/-- What the thread sends: the handshake and then the messages. -/
def sent : Bytes :=
  s.request sender ++
    (controlFrame sender .authOk [] ++ s.updates.flatMap fun u => u.bytes sender)

def arrived : List Update :=
  complete sender (s.cut - ((s.request sender).length + (controlFrame sender .authOk []).length))
    s.updates

/-- The receiver serves the connection, and what it applies finds the store. -/
def serve (mac : Mac) (receiver : NodeConfig) (server : Server) : Server :=
  (serveConnection mac receiver s.envs ((s.sent sender).take s.cut) server).server

/-- One connection after the other. -/
def serveAll (mac : Mac) (receiver : NodeConfig) (server : Server)
    (transmissions : List Transmission) : Server :=
  transmissions.foldl (fun server s => s.serve sender mac receiver server) server

end Transmission

/-! ## A frame that is cut -/

section Cut

variable {bytes : Bytes} {f : Received} {n : ℕ}
  (hframe : ∀ rest, clusterRecvFrame true (bytes ++ rest) = some (f, rest))
include hframe

theorem recv_take (hn : bytes.length ≤ n) (rest : Bytes) :
    clusterRecvFrame true ((bytes ++ rest).take n) = some (f, rest.take (n - bytes.length)) := by
  rw [List.take_append, List.take_of_length_le hn]
  exact hframe _

/-- Of a frame that is not complete nothing is received. -/
theorem recv_take_of_lt (hn : n < bytes.length) (rest : Bytes) :
    clusterRecvFrame true ((bytes ++ rest).take n) = none := by
  rw [List.take_append_of_le_length hn.le]
  cases hrecv : clusterRecvFrame true (bytes.take n) with
  | none => rfl
  | some p =>
      -- with the missing bytes it would be received, and they would be left over
      have hlong := clusterRecvFrame_of_append hrecv (bytes.drop n)
      have hwhole := hframe []
      rw [List.append_nil] at hwhole
      rw [List.take_append_drop, hwhole] at hlong
      have hleft := congrArg List.length (Prod.mk.inj (Option.some.inj hlong)).2
      rw [List.length_append, List.length_drop, List.length_nil] at hleft
      omega

end Cut

theorem frames_of_recv_none {stream : Bytes} (h : clusterRecvFrame true stream = none) :
    frames stream = [] := by
  cases hframes : frames stream with
  | nil => rfl
  | cons r rs =>
      obtain ⟨rest, hrecv, -⟩ := recv_of_frames hframes
      exact absurd (h.symm.trans hrecv) (by simp)

/-! ## A connection -/

section Serve

variable {sender receiver : NodeConfig}

/-- The receiver is told the truth about the clock and the store. -/
structure Serves (expireAt : UInt64) (env : ConnEnv) : Prop where
  healthy : env.Healthy
  bdb : env.bdb = Bdb.ok
  clock : env.clock < expireAt

/-- What the updates make of a server. -/
structure Applied (host : Endian) (updates : List Update) (server server' : Server) : Prop where
  wellFormed : WellFormed host server'.db
  contents : contents host server'.db =
    LastWrite.offerEach Record.stamp (contents host server.db) (updates.map Update.item)
  peers : server'.peers = server.peers

theorem applied_nil {host : Endian} {server : Server} (hwf : WellFormed host server.db) :
    Applied host [] server server :=
  ⟨hwf, rfl, rfl⟩

theorem Applied.append {host : Endian} {updates updates' : List Update}
    {server server' server'' : Server} (h : Applied host updates server server')
    (h' : Applied host updates' server' server'') :
    Applied host (updates ++ updates') server server'' where
  wellFormed := h'.wellFormed
  contents := by
    rw [h'.contents, h.contents, List.map_append, LastWrite.offerEach_append]
  peers := h'.peers.trans h.peers

/-- The record of an update is offered to the store. -/
theorem applied_handleClusterSync {server : Server} (hwf : WellFormed receiver.host server.db)
    (name : Bytes) (u : Update) :
    Applied receiver.host [u] server
      { server with
        db := (handleClusterSync receiver.host Bdb.ok server.db
          (recordFrame name u.key u.record)).2 } := by
  have hcheck : ¬ ((recordFrame name u.key u.record).frame.nodeId = 0 ∨
      (recordFrame name u.key u.record).frame.keyLen = 0 ∨
      (recordFrame name u.key u.record).payload = none) := by
    rintro (h | h | h)
    · exact u.nodeId_ne_zero h
    · exact keyLen_recordFrame name u.key u.record h
    · exact payload_recordFrame name u.key u.record h
  have hdb : (handleClusterSync receiver.host Bdb.ok server.db
      (recordFrame name u.key u.record)).2 =
        (applyFrame receiver Bdb.ok server.db (recordFrame name u.key u.record)).2 := by
    unfold handleClusterSync
    rw [if_neg hcheck]
    rfl
  rw [hdb]
  rcases applyFrame_recordFrame hwf Bdb.ok name u.key u.record with ⟨hfail, -⟩ | ⟨-, hwf', heq⟩
  · exact absurd hfail (by decide)
  · exact ⟨hwf', heq, rfl⟩

/-- The two nodes are in one cluster. -/
structure OneCluster (sender receiver : NodeConfig) : Prop where
  secret : receiver.clusterSecret ≠ []
  name : sender.clusterName = receiver.clusterName
  hash : receiver.clusterName ≠ [] → dmmrFnv1a32 receiver.clusterName ≠ 0

variable (hcluster : OneCluster sender receiver)
include hcluster

/-- An update that gets as far as the dispatch is applied. -/
theorem connIteration_of_update (mac : Mac) {c : ConnState} {env : ConnEnv}
    (hrunning : env.running = true) (hbdb : env.bdb = Bdb.ok) {u : Update} {rest : Bytes}
    (hrecv : clusterRecvFrame env.allocOk c.stream =
      some (recordFrame sender.clusterName u.key u.record, rest))
    (hbarred : ¬ Barred receiver env c (recordFrame sender.clusterName u.key u.record))
    (hwf : WellFormed receiver.host c.server.db) :
    ∃ server, Applied receiver.host [u] c.server server ∧
      connIteration mac receiver env c = (true, { c with stream := rest, server := server }) := by
  refine ⟨_, applied_handleClusterSync hwf sender.clusterName u, ?_⟩
  have hopcode : (recordFrame sender.clusterName u.key u.record).frame.opcode =
      Opcode.sync.code := rfl
  have hname : authenticateClusterFrame receiver.clusterName
      (recordFrame sender.clusterName u.key u.record).frame = true :=
    authenticateClusterFrame_self hcluster.hash (by rw [← hcluster.name]; rfl)
  have hne : Opcode.sync.code ≠ Opcode.clusterSyncRequest.code := by decide
  rw [connIteration_of_not_barred mac hrunning hrecv hbarred]
  simp only [dispatch, hname, hopcode, hne, hbdb, Bool.not_true, Bool.false_eq_true, if_false,
    if_true]

/-- An update that arrives on an authenticated connection is applied. -/
theorem connIteration_update (mac : Mac) {c : ConnState} (hauth : c.authenticated = true)
    {env : ConnEnv} (henv : Serves c.authExpireAt env) {u : Update} {rest : Bytes}
    (hrecv : clusterRecvFrame true c.stream =
      some (recordFrame sender.clusterName u.key u.record, rest))
    (hwf : WellFormed receiver.host c.server.db) :
    ∃ server, Applied receiver.host [u] c.server server ∧
      connIteration mac receiver env c = (true, { c with stream := rest, server := server }) := by
  have hopcode : (recordFrame sender.clusterName u.key u.record).frame.opcode =
      Opcode.sync.code := rfl
  have hbarred : ¬ Barred receiver env c (recordFrame sender.clusterName u.key u.record) := by
    rintro ⟨-, h | h | h⟩
    · exact absurd (hopcode.symm.trans h) (by decide)
    · exact absurd (hauth.symm.trans h) (by simp)
    · exact absurd henv.clock (not_lt.mpr h)
  exact connIteration_of_update hcluster mac henv.healthy.running henv.bdb
    (by rwa [henv.healthy.allocOk]) hbarred hwf

/-- On an authenticated connection the updates are applied that have arrived. -/
theorem applied_updates (mac : Mac) {updates : List Update} {n : ℕ} {envs : List ConnEnv}
    {c : ConnState} (hauth : c.authenticated = true)
    (henvs : ∀ env ∈ envs, Serves c.authExpireAt env)
    (hlen : updates.length ≤ envs.length)
    (hstream : c.stream = (updates.flatMap fun u => u.bytes sender).take n)
    (hwf : WellFormed receiver.host c.server.db) :
    Applied receiver.host (complete sender n updates) c.server
      (handleClusterConnection mac receiver envs c).server := by
  induction updates generalizing n envs c with
  | nil =>
      have hend : frames c.stream = [] := by
        rw [hstream, List.flatMap_nil, List.take_nil]
        rfl
      rw [handleClusterConnection_of_end mac receiver envs hend]
      exact applied_nil hwf
  | cons u updates ih =>
      rw [List.flatMap_cons] at hstream
      by_cases hn : (u.bytes sender).length ≤ n
      · have hrecv := recv_take (u.recv_bytes sender) hn (updates.flatMap fun u => u.bytes sender)
        rw [← hstream] at hrecv
        cases envs with
        | nil => simp at hlen
        | cons env envs =>
            obtain ⟨server, happlied, hstep⟩ := connIteration_update hcluster mac hauth
              (henvs env List.mem_cons_self) hrecv hwf
            rw [complete, if_pos hn, handleClusterConnection_cons, hstep, if_pos rfl]
            apply happlied.append
            refine ih (c := { c with stream := _, server := server }) hauth ?_ ?_ rfl
              happlied.wellFormed
            · exact fun env henv => henvs env (List.mem_cons_of_mem _ henv)
            · exact Nat.le_of_succ_le_succ hlen
      · have hrecv := recv_take_of_lt (u.recv_bytes sender) (not_le.mp hn)
          (updates.flatMap fun u => u.bytes sender)
        rw [← hstream] at hrecv
        rw [complete, if_neg hn, handleClusterConnection_of_end mac receiver envs
          (frames_of_recv_none hrecv)]
        exact applied_nil hwf

/-- The handshake comes first, nothing fails at the receiver, and it handles every frame before
the session expires. -/
structure Transmission.Served (s : Transmission) : Prop where
  envs : ∃ first rest, s.envs = first :: rest ∧ first.Healthy ∧ s.updates.length ≤ rest.length ∧
    ∀ env ∈ rest, Serves (first.requestClock + authTtlMicros) env

/-- What the receiver makes of a connection is what has arrived to its last byte. -/
theorem applied_serve (mac : Mac) {s : Transmission} (hserved : s.Served) {server : Server}
    (hwf : WellFormed receiver.host server.db) :
    Applied receiver.host (s.arrived sender) server (s.serve sender mac receiver server) := by
  obtain ⟨first, rest, henvs, hfirst, hlen, hrest⟩ := hserved.envs
  have hnonce : (Endian.big.bytes 8 s.nonceA.toNat).length = 8 := Endian.length_bytes ..
  have hvalue : (Endian.big.bytes 8 s.nonceA.toNat).length ≤ maxValueLen := by
    rw [hnonce]
    decide
  have hrequest : ∀ rest, clusterRecvFrame true (s.request sender ++ rest) =
      some (controlReceived sender .authRequest hvalue, rest) :=
    clusterRecvFrame_control sender .authRequest hvalue
  have hok := clusterRecvFrame_control sender .authOk length_nil_le
  have hlong : 8 ≤ (controlReceived sender .authRequest hvalue).frame.valueLen.toNat :=
    (hnonce.symm.trans (toNat_valueLen hvalue).symm).le
  unfold Transmission.serve Transmission.arrived serveConnection Transmission.sent
  rw [henvs]
  by_cases hcut : (s.request sender).length ≤ s.cut
  · have hrecv := recv_take hrequest hcut
      (controlFrame sender .authOk [] ++ s.updates.flatMap fun u => u.bytes sender)
    by_cases hcut' : (controlFrame sender .authOk []).length ≤ s.cut - (s.request sender).length
    · have hrecv' := recv_take hok hcut' (s.updates.flatMap fun u => u.bytes sender)
      rw [handleClusterConnection_cons, connIteration_of_exchange mac hcluster.secret hfirst rfl
        hrecv rfl hlong hrecv' rfl, if_pos rfl, ← Nat.sub_sub]
      exact applied_updates hcluster mac
        (c := ⟨true, first.requestClock + authTtlMicros, _, server, _⟩) rfl hrest hlen rfl hwf
    · -- the connection breaks between the two frames of the handshake
      have hrecv' := recv_take_of_lt hok (not_le.mp hcut')
        (s.updates.flatMap fun u => u.bytes sender)
      rw [handleClusterConnection_cons, connIteration_of_request mac hcluster.secret hfirst rfl
        hrecv rfl hlong hrecv', if_neg (by simp), Nat.sub_eq_zero_of_le (by omega), complete_zero]
      exact applied_nil hwf
  · have hrecv := recv_take_of_lt hrequest (not_le.mp hcut)
      (controlFrame sender .authOk [] ++ s.updates.flatMap fun u => u.bytes sender)
    rw [handleClusterConnection_of_end mac receiver _ (frames_of_recv_none hrecv),
      Nat.sub_eq_zero_of_le (by omega), complete_zero]
    exact applied_nil hwf

theorem applied_serveAll (mac : Mac) {transmissions : List Transmission}
    (hserved : ∀ s ∈ transmissions, s.Served) {server : Server}
    (hwf : WellFormed receiver.host server.db) :
    Applied receiver.host (transmissions.flatMap (Transmission.arrived sender)) server
      (Transmission.serveAll sender mac receiver server transmissions) := by
  induction transmissions generalizing server with
  | nil => exact applied_nil hwf
  | cons s transmissions ih =>
      have hfirst := applied_serve hcluster mac (hserved s List.mem_cons_self) hwf
      have hrest := ih (fun s hs => hserved s (List.mem_cons_of_mem _ hs)) hfirst.wellFormed
      exact hfirst.append hrest

end Serve

/-- **Reconnecting loses nothing and repeats nothing.**  If each update arrives to its last
byte on some connection, wherever the connections break and however often it is sent, and no
session expires in use, the store of the receiver is what each update applied once makes of
it. -/
theorem reconnects_lose_nothing (mac : Mac) {sender receiver : NodeConfig}
    (hcluster : OneCluster sender receiver) {server : Server}
    (hwf : WellFormed receiver.host server.db) {updates : List Update}
    (hstamps : ∀ u ∈ updates, ∀ u' ∈ updates, u.key = u'.key →
      u.record.stamp = u'.record.stamp → u.record = u'.record)
    {transmissions : List Transmission} (hserved : ∀ s ∈ transmissions, s.Served)
    (hfrom : ∀ s ∈ transmissions, ∀ u ∈ s.updates, u ∈ updates)
    (hall : ∀ u ∈ updates, ∃ s ∈ transmissions, u ∈ s.arrived sender) :
    contents receiver.host (Transmission.serveAll sender mac receiver server transmissions).db =
      LastWrite.offerEach Record.stamp (contents receiver.host server.db)
        (updates.map Update.item) := by
  rw [(applied_serveAll hcluster mac hserved hwf).contents]
  have hmem : ∀ item, item ∈ updates.map Update.item ↔
      item ∈ (transmissions.flatMap (Transmission.arrived sender)).map Update.item := by
    intro item
    rw [List.mem_map, List.mem_map]
    constructor
    · intro ⟨u, hu, hitem⟩
      obtain ⟨s, hs, harrived⟩ := hall u hu
      exact ⟨u, List.mem_flatMap.mpr ⟨s, hs, harrived⟩, hitem⟩
    · intro ⟨u, hu, hitem⟩
      obtain ⟨s, hs, harrived⟩ := List.mem_flatMap.mp hu
      exact ⟨u, hfrom s hs u ((complete_isPrefix sender _ _).subset harrived), hitem⟩
  symm
  apply LastWrite.offerEach_eq_of_mem_iff _ ?_ hmem
  intro k r r' hr hr' hstamp
  obtain ⟨u, hu, hitem⟩ := List.mem_map.mp hr
  obtain ⟨u', hu', hitem'⟩ := List.mem_map.mp hr'
  obtain ⟨rfl, rfl⟩ := Prod.mk.inj hitem
  obtain ⟨hkey, rfl⟩ := Prod.mk.inj hitem'
  exact hstamps u hu u' hu' hkey.symm hstamp

/-- Two updates; the first connection breaks within the second of them. -/
theorem reconnects_lose_nothing_twice :
    let value : Update := ⟨⟨[107], by decide⟩, ⟨5, 1, 9, some ⟨[118], by decide⟩⟩, 0, by decide⟩
    let deletion : Update := ⟨⟨[107], by decide⟩, ⟨6, 1, 0, none⟩, 0, by decide⟩
    let env : ConnEnv := ⟨true, true, 3, 0, fun _ => true, true, 1, 0, Bdb.ok, fun _ => Bdb.ok⟩
    let transmissions : List Transmission :=
      [⟨7, [value, deletion], 174, [env, env, env]⟩, ⟨8, [deletion], 200, [env, env]⟩]
    contents .little (Transmission.serveAll plainNode Mac.constant plainNode
        ⟨OrderedMap.empty, []⟩ transmissions).db =
      LastWrite.offerEach Record.stamp (contents .little OrderedMap.empty)
        ([value, deletion].map Update.item) := by
  intro value deletion env transmissions
  have hserves : Serves (env.requestClock + authTtlMicros) env :=
    ⟨⟨rfl, rfl, rfl, fun _ => rfl⟩, rfl, by decide⟩
  have hcluster : OneCluster plainNode plainNode := ⟨by decide, rfl, by decide⟩
  refine reconnects_lose_nothing Mac.constant hcluster wellFormed_empty ?_ ?_ ?_ ?_
  · simp [value, deletion, Record.stamp]
  · simp only [transmissions, List.mem_cons, List.not_mem_nil, or_false, forall_eq_or_imp,
      forall_eq]
    constructor
    · exact ⟨env, [env, env], rfl, hserves.healthy, le_rfl, by simpa using hserves⟩
    · exact ⟨env, [env], rfl, hserves.healthy, le_rfl, by simpa using hserves⟩
  · simp [transmissions]
  · have hfirst : Transmission.arrived plainNode ⟨7, [value, deletion], 174, [env, env, env]⟩ =
        [value] := by
      simp [Transmission.arrived, Transmission.request, complete, length_bytes,
        length_controlFrame, frameSize, value, deletion, Record.value]
    have hsecond : Transmission.arrived plainNode ⟨8, [deletion], 200, [env, env]⟩ =
        [deletion] := by
      simp [Transmission.arrived, Transmission.request, complete, length_bytes,
        length_controlFrame, frameSize, deletion, Record.value]
    simp [transmissions, hfirst, hsecond]

end Dmmr.Cluster
