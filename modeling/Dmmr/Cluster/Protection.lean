import Dmmr.Cluster.Hello
import Dmmr.Cluster.Sender

/-!
# What a name and a secret protect

A cluster is kept apart by its name: frames carry a 32-bit hash of the sender's
name, and a receiver with a name lets a frame pass whose hash is the hash of its
own.  So the frames of two clusters are told apart exactly as far as the hash
tells their names apart (`authenticate_iff_hash`).

A node is kept to itself by its secret and its name, as long as it has them:
the empty string stands for no protection, and it is also what is left when
`cluster_configure` is given a string that is too long.  `protected_iff` says for
which arguments a connection gets nothing applied, and no snapshot, without the
exchange and the identifier that were asked for.
-/

namespace Dmmr.Cluster

open Words Store Wire Node

/-! ## Names -/

theorem clusterName_of_le (host : Endian) (nodeId : UInt64) {args : ClusterArgs} {name : CStr}
    (hname : args.name = some name) (hle : name.1.length ≤ clusterNameMax) :
    (configuredNode host nodeId args).clusterName = name.1 := by
  rw [clusterName_configuredNode, hname, copyBounded_of_le hle]

/-- **Isolation is as exact as the hash.**  Of two nodes with names, one accepts
the frames of the other, records and all others, exactly when the hashes of the
names agree; zero, the identifier of nodes without a name, is left out. -/
theorem authenticate_iff_hash (host host' : Endian) (nodeId nodeId' : UInt64)
    {args args' : ClusterArgs} {name name' : CStr} (hname : args.name = some name)
    (hname' : args'.name = some name') (hne : name.1 ≠ []) (hne' : name'.1 ≠ [])
    (hle : name.1.length ≤ clusterNameMax) (hle' : name'.1.length ≤ clusterNameMax)
    (hhash : dmmrFnv1a32 name.1 ≠ 0) (opcode : Opcode) (flags : UInt16) {key value : Bytes}
    (hkey : key.length ≤ maxKeyLen) (hvalue : value.length ≤ maxValueLen)
    (timestamp recordNode expireAt : UInt64) :
    ∃ bytes r, clusterSendFrame (configuredNode host nodeId args).clusterName opcode.code flags
        (Buf.ofBytes key) (Buf.ofBytes value) timestamp recordNode expireAt = some bytes ∧
      clusterRecvFrame true bytes = some (r, []) ∧
      (authenticateClusterFrame (configuredNode host' nodeId' args').clusterName r.frame = true ↔
        dmmrFnv1a32 name.1 = dmmrFnv1a32 name'.1) := by
  rw [clusterName_of_le host nodeId hname hle, clusterName_of_le host' nodeId' hname' hle']
  have hrecv := clusterRecvFrame_send name.1 opcode.code flags hkey hvalue timestamp recordNode
    expireAt []
  rw [List.append_nil] at hrecv
  refine ⟨_, _, clusterSendFrame_of_le name.1 opcode.code flags hkey hvalue _ _ _, hrecv, ?_⟩
  have hid : (receivedOf name.1 opcode.code flags key value timestamp recordNode expireAt hkey
      hvalue).frame.clusterId = dmmrFnv1a32 name.1 := if_pos hne
  rw [authenticateClusterFrame_iff hne', hid]
  exact and_iff_right hhash

/-- A node with a name and nothing else. -/
def namedArgs (name : CStr) : ClusterArgs := ⟨none, 9081, none, 10, some name, none⟩

/-- A record of cluster `a` is turned away by cluster `b`. -/
theorem authenticate_iff_hash_record :
    ∃ bytes r, clusterSendFrame
        (configuredNode .little 1 (namedArgs ⟨[97], by decide⟩)).clusterName Opcode.sync.code
        flagNone (Buf.ofBytes [107]) (Buf.ofBytes [118]) 5 1 0 = some bytes ∧
      clusterRecvFrame true bytes = some (r, []) ∧
      (authenticateClusterFrame
          (configuredNode .big 2 (namedArgs ⟨[98], by decide⟩)).clusterName r.frame = true ↔
        dmmrFnv1a32 [97] = dmmrFnv1a32 [98]) := by
  have hname : (namedArgs ⟨[97], by decide⟩).name = some ⟨[97], by decide⟩ := rfl
  have hname' : (namedArgs ⟨[98], by decide⟩).name = some ⟨[98], by decide⟩ := rfl
  have hkey : ([107] : Bytes).length ≤ maxKeyLen := by decide
  have hvalue : ([118] : Bytes).length ≤ maxValueLen := by decide
  exact authenticate_iff_hash .little .big 1 2 hname hname' (by decide) (by decide) (by decide)
    (by decide) (by decide) .sync flagNone hkey hvalue 5 1 0

/-- `costarring` and `liquid` have the same hash: a record of the one cluster is
accepted by the other. -/
theorem isolation_fails :
    let costarring : CStr := ⟨[99, 111, 115, 116, 97, 114, 114, 105, 110, 103], by decide⟩
    let liquid : CStr := ⟨[108, 105, 113, 117, 105, 100], by decide⟩
    costarring ≠ liquid ∧
      ∃ bytes r, clusterSendFrame (configuredNode .little 1 (namedArgs costarring)).clusterName
          Opcode.sync.code flagNone (Buf.ofBytes [107]) (Buf.ofBytes [118]) 5 1 0 = some bytes ∧
        clusterRecvFrame true bytes = some (r, []) ∧
        authenticateClusterFrame (configuredNode .little 2 (namedArgs liquid)).clusterName
          r.frame = true := by
  intro costarring liquid
  have hkey : ([107] : Bytes).length ≤ maxKeyLen := by decide
  have hvalue : ([118] : Bytes).length ≤ maxValueLen := by decide
  have hrecv := clusterRecvFrame_send costarring.1 Opcode.sync.code flagNone hkey hvalue 5 1 0 []
  rw [List.append_nil] at hrecv
  exact ⟨by decide, _, _, clusterSendFrame_of_le costarring.1 Opcode.sync.code flagNone hkey hvalue
    5 1 0, hrecv, rfl⟩

/-! ## Connections over time -/

/-- What a connection with the client's `stream` may have been through: the
iterations so far, each with the state it started from, and the state now.
Between two iterations the other threads may have done anything to the table and
the store. -/
inductive Visits (mac : Mac) (cfg : NodeConfig) (stream : Bytes) :
    List (ConnEnv × ConnState) → ConnState → Prop
  | start (server : Server) (hdb : Reachable cfg.host server.db) :
      Visits mac cfg stream [] ⟨false, 0, stream, server, []⟩
  | next {past : List (ConnEnv × ConnState)} {s : ConnState} (h : Visits mac cfg stream past s)
      (env : ConnEnv) (hgo : (connIteration mac cfg env s).1 = true) (server : Server)
      (hdb : Reachable cfg.host server.db) :
      Visits mac cfg stream (past ++ [(env, s)])
        { (connIteration mac cfg env s).2 with server := server }

/-- The iteration applies a record or serves a snapshot. -/
def Acts (mac : Mac) (cfg : NodeConfig) (env : ConnEnv) (s : ConnState) : Prop :=
  (connIteration mac cfg env s).2.server.db ≠ s.server.db ∨
    ∃ sent, (connIteration mac cfg env s).2.sent =
      s.sent ++ controlFrame cfg .clusterSyncBegin [] :: sent

/-- In the iteration the client sends an `AUTH_REQUEST`, is sent the
`AUTH_RESPONSE` and sends an `AUTH_OK`. -/
def CompletesExchange (mac : Mac) (cfg : NodeConfig) (env : ConnEnv) (s : ConnState) : Prop :=
  ∃ request ok mid rest, clusterRecvFrame true s.stream = some (request, mid) ∧
    request.frame.opcode = Opcode.authRequest.code ∧
    (connIteration mac cfg env s).2.sent = s.sent ++ [responseFrame mac cfg env request] ∧
    clusterRecvFrame true mid = some (ok, rest) ∧ ok.frame.opcode = Opcode.authOk.code

/-! ## What an iteration does -/

theorem not_acts_of_quiet {mac : Mac} {cfg : NodeConfig} {env : ConnEnv} {s : ConnState}
    (h : Quiet cfg s (connIteration mac cfg env s).2) : ¬ Acts mac cfg env s := by
  rintro (hdb | ⟨sent, hsent⟩)
  · exact hdb h.1
  · rcases h.2 with hnone | ⟨opcode, value, hne, hone⟩
    · rw [hnone] at hsent
      simp at hsent
    · rw [hone] at hsent
      exact hne (opcode_eq_of_controlFrame (List.cons.inj (List.append_cancel_left hsent)).1)

section Iteration

variable {mac : Mac} {cfg : NodeConfig} {env : ConnEnv} {s : ConnState}

/-- An iteration acts only on a frame that passes and, on a node with a secret,
only on an authenticated connection. -/
theorem passes_of_acts (h : Acts mac cfg env s) :
    ∃ r rest, clusterRecvFrame true s.stream = some (r, rest) ∧
      authenticateClusterFrame cfg.clusterName r.frame = true ∧
      (cfg.clusterSecret ≠ [] → s.authenticated = true) := by
  have hquiet := mt not_acts_of_quiet (not_not.mpr h)
  rcases connIteration_cases mac cfg env s with heq | ⟨r, rest, hrecv, hcases⟩
  · exact absurd (heq ▸ ⟨rfl, Or.inl rfl⟩) hquiet
  · rcases hcases with heq | ⟨-, heq⟩ | ⟨-, -, heq⟩ | ⟨hauth, heq⟩
    · exact absurd (heq ▸ ⟨rfl, Or.inl rfl⟩) hquiet
    · exact absurd (heq ▸ quiet_hello cfg env r { s with stream := rest }) hquiet
    · exact absurd (heq ▸ quiet_serverHandshake mac cfg env r { s with stream := rest }) hquiet
    · refine ⟨r, rest, hrecv, ?_, fun hne => (hauth hne).1⟩
      cases hpass : authenticateClusterFrame cfg.clusterName r.frame with
      | true => rfl
      | false =>
          rw [heq, dispatch, hpass] at hquiet
          exact absurd ⟨rfl, Or.inl rfl⟩ hquiet

/-- A connection becomes authenticated only by the exchange. -/
theorem completesExchange_of_authenticated (hbefore : s.authenticated = false)
    (hafter : (connIteration mac cfg env s).2.authenticated = true)
    (hgo : (connIteration mac cfg env s).1 = true) : CompletesExchange mac cfg env s := by
  rcases connIteration_cases mac cfg env s with heq | ⟨r, rest, hrecv, hcases⟩
  · rw [heq] at hgo
    simp at hgo
  · rcases hcases with heq | ⟨-, heq⟩ | ⟨-, hrequest, heq⟩ | ⟨hauth, heq⟩
    · rw [heq] at hgo
      simp at hgo
    · rw [heq] at hgo
      simp [hello] at hgo
    · rcases serverHandshake_cases mac cfg env r { s with stream := rest } with
        hstop | ⟨stream, hstop⟩ | ⟨ok, rest', -, hrecv', hok, hcont⟩
      · rw [heq, hstop] at hgo
        simp at hgo
      · rw [heq, hstop] at hgo
        simp at hgo
      · exact ⟨r, ok, rest, rest', hrecv, hrequest, by rw [heq, hcont],
          (clusterRecvFrame_inv hrecv').1, hok⟩
    · rw [heq] at hafter
      have hsame : (dispatch cfg env r { s with stream := rest }).2.authenticated =
          s.authenticated := by
        unfold dispatch
        split_ifs <;> rfl
      rw [hsame, hbefore] at hafter
      simp at hafter

end Iteration

/-- A connection that counts as authenticated has completed the exchange. -/
theorem Visits.completesExchange {mac : Mac} {cfg : NodeConfig} {stream : Bytes}
    {past : List (ConnEnv × ConnState)} {s : ConnState} (h : Visits mac cfg stream past s)
    (hauth : s.authenticated = true) : ∃ p ∈ past, CompletesExchange mac cfg p.1 p.2 := by
  induction h with
  | start server hdb => simp at hauth
  | @next past s h env hgo server hdb ih =>
      cases hbefore : s.authenticated with
      | true =>
          obtain ⟨p, hp, hcompletes⟩ := ih hbefore
          exact ⟨p, List.mem_append_left _ hp, hcompletes⟩
      | false =>
          exact ⟨(env, s), by simp, completesExchange_of_authenticated hbefore hauth hgo⟩

/-! ## The property -/

/-- What was asked for is enforced: a connection gets a record applied, or a
snapshot, only after the exchange if a secret was given, and only for a frame
with the identifier of the name if a name was given. -/
def Protected (mac : Mac) (cfg : NodeConfig) (args : ClusterArgs) : Prop :=
  ∀ stream past s env, Visits mac cfg stream past s → Acts mac cfg env s →
    (∀ secret ∈ args.secret, secret.1 ≠ [] → ∃ p ∈ past, CompletesExchange mac cfg p.1 p.2) ∧
    ∀ name ∈ args.name, name.1 ≠ [] → ∃ r rest,
      clusterRecvFrame true s.stream = some (r, rest) ∧ r.frame.clusterId = dmmrFnv1a32 name.1

/-- The name and the secret fit their buffers. -/
def Kept (args : ClusterArgs) : Prop :=
  (∀ secret ∈ args.secret, secret.1.length ≤ clusterSecretMax) ∧
    ∀ name ∈ args.name, name.1.length ≤ clusterNameMax

/-- The name fits, and has the hash that no frame passes with. -/
def Shut (args : ClusterArgs) : Prop :=
  ∃ name ∈ args.name, name.1 ≠ [] ∧ name.1.length ≤ clusterNameMax ∧ dmmrFnv1a32 name.1 = 0

section Protection

variable (mac : Mac) (host : Endian) (nodeId : UInt64) {args : ClusterArgs}

theorem protected_of_kept (h : Kept args) :
    Protected mac (configuredNode host nodeId args) args := by
  intro stream past s env hvisits hacts
  obtain ⟨r, rest, hrecv, hpass, hauth⟩ := passes_of_acts hacts
  constructor
  · intro secret hsecret hne
    have hkept : (configuredNode host nodeId args).clusterSecret = secret.1 := by
      rw [clusterSecret_configuredNode, hsecret, copyBounded_of_le (h.1 secret hsecret)]
    exact hvisits.completesExchange (hauth (hkept ▸ hne))
  · intro name hname hne
    rw [clusterName_of_le host nodeId hname (h.2 name hname),
      authenticateClusterFrame_iff hne] at hpass
    exact ⟨r, rest, hrecv, hpass.2⟩

theorem protected_of_shut (h : Shut args) :
    Protected mac (configuredNode host nodeId args) args := by
  obtain ⟨name, hname, hne, hle, hzero⟩ := h
  intro stream past s env _ hacts
  obtain ⟨r, rest, -, hpass, -⟩ := passes_of_acts hacts
  rw [clusterName_of_le host nodeId hname hle, authenticateClusterFrame_iff hne, hzero] at hpass
  exact absurd hpass.2 hpass.1

end Protection

/-! ## What is dropped is not enforced -/

/-- The bytes of a frame with a record, from a node of the given name. -/
def sampleBytes (name : Bytes) : Bytes :=
  (sentHeader name Opcode.sync.code flagNone 1 1 5 9 0).toBytes ++ [107, 118]

/-- The frame as it is received. -/
def sampleFrame (name : Bytes) : Received :=
  receivedOf name Opcode.sync.code flagNone [107] [118] 5 9 0 (by decide) (by decide)

theorem recv_sampleBytes (name : Bytes) :
    clusterRecvFrame true (sampleBytes name) = some (sampleFrame name, []) := by
  have hkey : ([107] : Bytes).length ≤ maxKeyLen := by decide
  have hvalue : ([118] : Bytes).length ≤ maxValueLen := by decide
  have h := clusterRecvFrame_send name Opcode.sync.code flagNone hkey hvalue 5 9 0 []
  rw [List.append_nil] at h
  exact h

theorem storable_sampleFrame (name : Bytes) : storable (sampleFrame name) = true := by
  simp [storable, sampleFrame, receivedOf, sentHeader, flagNone]

section Dropped

variable {mac : Mac} {cfg : NodeConfig}

/-- A connection that may go on gets the record of such a frame applied to an
empty store. -/
theorem acts_sampleBytes {name : Bytes}
    (hpass : authenticateClusterFrame cfg.clusterName (sampleFrame name).frame = true)
    {s : ConnState} (hstream : s.stream = sampleBytes name)
    (hdb : s.server.db = OrderedMap.empty)
    (hauth : cfg.clusterSecret ≠ [] → s.authenticated = true ∧ 0 < s.authExpireAt) :
    Acts mac cfg .ok s := by
  have hrecv : clusterRecvFrame true s.stream = some (sampleFrame name, []) :=
    hstream ▸ recv_sampleBytes name
  have hpasses : passes cfg (sampleFrame name) = true := by
    rw [passes, hpass]
    rfl
  have hdispatch := connIteration_ok mac hauth hrecv hpasses
  have hsync : (sampleFrame name).frame.opcode = Opcode.sync.code := rfl
  obtain ⟨-, -, -, -, hdb'⟩ := dispatch_ok (s := { s with stream := [] }) hpasses
  have hwf : WellFormed cfg.host OrderedMap.empty := wellFormed_empty
  obtain ⟨k, hk⟩ := isSome_of_storable hwf (storable_sampleFrame name)
  left
  rw [hdispatch, hdb', if_pos hsync, hdb]
  intro hempty
  rw [hempty] at hk
  simp at hk

/-- Some client gets so far that the rest of its stream is dispatched. -/
theorem exists_visits (mac : Mac) (cfg : NodeConfig) (rest : Bytes) :
    ∃ stream past s, Visits mac cfg stream past s ∧ s.stream = rest ∧
      s.server.db = OrderedMap.empty ∧
      (cfg.clusterSecret ≠ [] → s.authenticated = true ∧ 0 < s.authExpireAt) := by
  by_cases hsecret : cfg.clusterSecret = []
  · exact ⟨rest, [], _, .start ⟨OrderedMap.empty, []⟩ Reachable.empty, rfl, rfl,
      fun h => absurd hsecret h⟩
  · have hnonce : (Endian.big.bytes 8 0).length ≤ maxValueLen := by decide
    have hrecv := clusterRecvFrame_control cfg .authRequest hnonce
      (controlFrame cfg .authOk [] ++ rest)
    have hrecv' := clusterRecvFrame_control cfg .authOk length_nil_le rest
    obtain ⟨hgo, hstream, hauth, hexp, -⟩ := connIteration_handshake hsecret mac
      (s := ⟨false, 0, _, ⟨OrderedMap.empty, []⟩, []⟩) rfl hrecv hrecv' rfl
      (by rw [show (controlReceived cfg .authRequest hnonce).frame.valueLen.toNat = 8 from rfl]) rfl
    refine ⟨_, _, _, .next (.start ⟨OrderedMap.empty, []⟩ Reachable.empty) .ok hgo
      ⟨OrderedMap.empty, []⟩ Reachable.empty, hstream, rfl, fun _ => ⟨hauth, ?_⟩⟩
    simp only
    rw [hexp]
    decide

/-- A name that is too long is not enforced. -/
theorem not_protected_of_name (mac : Mac) (host : Endian) (nodeId : UInt64) {args : ClusterArgs}
    {name : CStr} (hname : args.name = some name) (hlong : clusterNameMax < name.1.length) :
    ¬ Protected mac (configuredNode host nodeId args) args := by
  intro hprotected
  have hdropped : (configuredNode host nodeId args).clusterName = [] := by
    rw [clusterName_configuredNode, hname, copyBounded_of_lt hlong]
  have hne : name.1 ≠ [] := List.ne_nil_of_length_pos (Nat.zero_lt_of_lt hlong)
  obtain ⟨other, hother⟩ : ∃ other, clusterId other ≠ dmmrFnv1a32 name.1 := by
    by_cases hzero : dmmrFnv1a32 name.1 = 0
    · exact ⟨[97], by rw [hzero]; decide⟩
    · exact ⟨[], Ne.symm hzero⟩
  obtain ⟨stream, past, s, hvisits, hstream, hdb, hauth⟩ :=
    exists_visits mac (configuredNode host nodeId args) (sampleBytes other)
  have hpass : authenticateClusterFrame (configuredNode host nodeId args).clusterName
      (sampleFrame other).frame = true := if_pos hdropped
  obtain ⟨r, rest, hrecv, hid⟩ := (hprotected stream past s .ok hvisits
    (acts_sampleBytes hpass hstream hdb hauth)).2 name hname hne
  rw [hstream, recv_sampleBytes] at hrecv
  obtain ⟨rfl, -⟩ := Prod.mk.inj (Option.some.inj hrecv)
  exact hother hid

/-- Nor is a secret that is too long, where any frame passes. -/
theorem not_protected_of_secret (mac : Mac) (host : Endian) (nodeId : UInt64) {args : ClusterArgs}
    {secret : CStr} (hsecret : args.secret = some secret)
    (hlong : clusterSecretMax < secret.1.length) {name : Bytes}
    (hpass : authenticateClusterFrame (configuredNode host nodeId args).clusterName
      (sampleFrame name).frame = true) :
    ¬ Protected mac (configuredNode host nodeId args) args := by
  intro hprotected
  have hdropped : (configuredNode host nodeId args).clusterSecret = [] := by
    rw [clusterSecret_configuredNode, hsecret, copyBounded_of_lt hlong]
  have hne : secret.1 ≠ [] := List.ne_nil_of_length_pos (Nat.zero_lt_of_lt hlong)
  have hacts : Acts mac (configuredNode host nodeId args) .ok
      ⟨false, 0, sampleBytes name, ⟨OrderedMap.empty, []⟩, []⟩ :=
    acts_sampleBytes hpass rfl rfl fun h => absurd hdropped h
  obtain ⟨p, hp, -⟩ := (hprotected _ [] _ .ok (.start ⟨OrderedMap.empty, []⟩ Reachable.empty)
    hacts).1 secret hsecret hne
  simp at hp

end Dropped

/-- **Protection lasts as far as the buffers.**  A node enforces the name and the
secret it was given exactly when both fit, or when its name is one with which
nothing passes. -/
theorem protected_iff (mac : Mac) (host : Endian) (nodeId : UInt64) (args : ClusterArgs) :
    Protected mac (configuredNode host nodeId args) args ↔ Kept args ∨ Shut args := by
  constructor
  · intro hprotected
    by_cases hname : ∀ name ∈ args.name, name.1.length ≤ clusterNameMax
    · by_cases hsecret : ∀ secret ∈ args.secret, secret.1.length ≤ clusterSecretMax
      · exact Or.inl ⟨hsecret, hname⟩
      · push Not at hsecret
        obtain ⟨secret, hmem, hlong⟩ := hsecret
        right
        by_contra hshut
        refine not_protected_of_secret mac host nodeId hmem hlong
          (authenticateClusterFrame_self (fun hne => ?_) rfl) hprotected
        rw [clusterName_configuredNode] at hne ⊢
        cases hgiven : args.name with
        | none => simp [hgiven] at hne
        | some name =>
            have hle := hname name hgiven
            rw [hgiven, copyBounded_of_le hle] at hne
            rw [copyBounded_of_le hle]
            exact fun hzero => hshut ⟨name, hgiven, hne, hle, hzero⟩
    · push Not at hname
      obtain ⟨name, hmem, hlong⟩ := hname
      exact absurd hprotected (not_protected_of_name mac host nodeId hmem hlong)
  · rintro (hkept | hshut)
    · exact protected_of_kept mac host nodeId hkept
    · exact protected_of_shut mac host nodeId hshut

/-- A node that was given a secret of 129 bytes applies a record that arrives
without any exchange. -/
theorem protected_fails :
    let args : ClusterArgs :=
      ⟨none, 9081, none, 10, none, some ⟨List.replicate 129 115, by decide⟩⟩
    ¬ ∃ mac, Protected mac (configuredNode .little 1 args) args := by
  rintro args ⟨mac, hprotected⟩
  have hsecret : args.secret = some ⟨List.replicate 129 115, by decide⟩ := rfl
  have hlong : clusterSecretMax < (List.replicate 129 (115 : UInt8)).length := by
    rw [List.length_replicate]
    decide
  have hpass : authenticateClusterFrame (configuredNode .little 1 args).clusterName
      (sampleFrame []).frame = true := rfl
  exact not_protected_of_secret mac .little 1 hsecret hlong hpass hprotected

end Dmmr.Cluster
