import Dmmr.Gateway.Auth
import Dmmr.Node.PlainMap

/-!
# The gateway asks the cache

The gateway's request is written by one program and read by another, and so is
the answer: the gateway has its own frame structure, its own conversion of words
and its own parser for responses.  Here the two programs are put at the ends of
one connection.  What the gateway sends is what `handle_client` reads, cut as the
network likes, and what `handle_client` writes is what the gateway receives
(`Connected`).

For keys and values that both programs accept the gateway's verdict is what the
store says about the key (`sendCacheRequest_eq`).  Their limits differ, and
`cacheAnswers_iff` says for which requests a healthy cache is nevertheless
reported as unreachable.
-/

namespace Dmmr.Gateway

open Words Store Wire Segments Node

/-! ## Receiving -/

/-- The gateway's receiving loop is the reader of segments. -/
theorem recvLoop_of_readExactly {segments : List Bytes} {want : ℕ} {items : Bytes}
    {calls : List (ReadCall UInt8)}
    (h : readExactly (segments.map .got) want = some (items, calls)) :
    ∃ rest, calls = rest.map .got ∧ recvLoop segments want = (items, rest) := by
  induction segments generalizing want items calls with
  | nil =>
      cases want with
      | zero =>
          obtain ⟨rfl, rfl⟩ := Prod.mk.inj (Option.some.inj h)
          exact ⟨[], rfl, rfl⟩
      | succ want => exact absurd h (by simp [readExactly])
  | cons segment segments ih =>
      cases want with
      | zero =>
          rw [readExactly] at h
          obtain ⟨rfl, rfl⟩ := Prod.mk.inj (Option.some.inj h)
          exact ⟨segment :: segments, rfl, by simp [recvLoop]⟩
      | succ want =>
          cases segment with
          | nil => exact absurd h (by simp [readExactly])
          | cons item segment =>
              rw [List.map_cons, readExactly] at h
              rw [recvLoop, if_neg (List.cons_ne_nil _ _)]
              split_ifs at h with hlt
              · obtain ⟨rfl, rfl⟩ := Prod.mk.inj (Option.some.inj h)
                rw [if_pos (by simpa using hlt)]
                exact ⟨segment.drop want :: segments, rfl, rfl⟩
              · rw [if_neg (by simpa using hlt), List.length_cons, Nat.add_sub_add_right]
                cases hread : readExactly (segments.map .got) (want - segment.length) with
                | none => simp [hread] at h
                | some p =>
                    obtain ⟨more, calls'⟩ := p
                    simp only [hread, Option.some.injEq, Prod.mk.injEq] at h
                    obtain ⟨rest, hrest, hloop⟩ := ih hread
                    obtain ⟨rfl, rfl⟩ := h
                    exact ⟨rest, hrest, by rw [hloop]⟩

/-- What the gateway receives is what was delivered. -/
theorem recvLoop_of_delivers {segments : List Bytes} {items stream : Bytes} {want : ℕ}
    (h : Delivers (segments.map .got) (items ++ stream)) (hlen : items.length = want) :
    ∃ rest, recvLoop segments want = (items, rest) ∧ Delivers (rest.map .got) stream := by
  obtain ⟨calls, hread, hcalls⟩ := readExactly_of_delivers h hlen
  obtain ⟨rest, rfl, hloop⟩ := recvLoop_of_readExactly hread
  exact ⟨rest, hloop, hcalls⟩

/-- Nothing is received from a connection that delivers nothing. -/
theorem recvLoop_of_delivers_nil {segments : List Bytes} (h : Delivers (segments.map .got) [])
    (want : ℕ) : (recvLoop segments want).1 = [] := by
  cases segments with
  | nil => cases want <;> rfl
  | cons segment segments =>
      obtain ⟨hne, rest, heq, -⟩ := h
      exact absurd (List.append_eq_nil_iff.mp heq.symm).1 hne

/-! ## A response of the cache as the gateway reads it -/

/-- The gateway's view of a response. -/
theorem cacheExchange_of_response {a : Attempt} {request : Bytes} {status : Status}
    {payload : Bytes} (hsent : sendFull a.sends request.length = true)
    (hlen : payload.length ≤ maxValueLen)
    (h : Delivers (a.segments.map .got)
      (responseHeader status (UInt32.ofNat payload.length) ++ payload)) :
    cacheExchange a request =
      if payload.length > bufSize - 8 then none
      else some ⟨status.code.toNat, payload⟩ := by
  have hheader : (responseHeader status (UInt32.ofNat payload.length)).length = 8 := by
    simp [responseHeader]
  obtain ⟨rest, hloop, hrest⟩ := recvLoop_of_delivers h hheader
  have hrespLen : Endian.big.field 2 4 (responseHeader status (UInt32.ofNat payload.length)) =
      payload.length := by
    rw [responseHeader, Endian.field_skip _ le_rfl, Endian.field_zero _ (UInt32.toNat_lt _),
      toNat_valueLen hlen]
  have hstatus : Endian.big.field 0 2 (responseHeader status (UInt32.ofNat payload.length)) =
      status.code.toNat := Endian.field_zero _ (UInt16.toNat_lt _) _
  obtain ⟨rest', hbody, -⟩ := recvLoop_of_delivers
    (show Delivers (rest.map .got) (payload ++ []) by rwa [List.append_nil]) rfl
  unfold cacheExchange
  simp only [hsent, hloop, hheader, hrespLen, hstatus, hbody, Bool.not_true, Bool.false_eq_true,
    if_false, lt_irrefl]

/-- A connection on which nothing arrives breaks off. -/
theorem cacheExchange_of_silence {a : Attempt} (request : Bytes)
    (h : Delivers (a.segments.map .got) []) : cacheExchange a request = none := by
  have hnil := recvLoop_of_delivers_nil h 8
  unfold cacheExchange
  split_ifs
  · rfl
  · cases hloop : recvLoop a.segments 8 with
    | mk header segments =>
        rw [hloop] at hnil
        simp only at hnil
        simp [hnil]

/-! ## The two programs on one connection -/

/-- The address that is tried first. -/
def firstCandidate (conf : Conf) : Bytes :=
  if conf.cacheAddr.length = 0 then fallbackUnix else conf.cacheAddr

/-- The cache's side of a connection: what happens while the requests on it are
served, and what its calls of `recv` get. -/
structure CacheSide where
  envs : List Node.RequestEnv
  calls : List (ReadCall UInt8)

/-- The cache serves at least one request, nothing fails, and the store stays as
it is found. -/
structure CacheSide.Healthy (c : CacheSide) : Prop where
  serves : 0 < c.envs.length
  healthy : ∀ env ∈ c.envs, env.Healthy
  bdb : ∀ env ∈ c.envs, env.bdb = Bdb.ok
  quiet : ∀ env ∈ c.envs, env.interfere = id

variable (host : Endian) (myNodeId : UInt64)

/-- An attempt of the gateway reaches a healthy cache: the connection is
established, the request is sent, the cache receives it, and the gateway receives
what the cache writes, both cut arbitrarily. -/
structure Connected (db : Database) (addr key : Bytes) (a : Attempt) (c : CacheSide)
    (log : List Exchange) : Prop where
  healthy : c.Healthy
  connects : cachePrepareConn a addr = true
  sends : sendFull a.sends (cacheRequest key).length = true
  requested : Delivers c.calls (cacheRequest key)
  served : handleClient host myNodeId c.envs c.calls db = some log
  answered : Delivers (a.segments.map .got) (log.flatMap fun e => e.served.written)

/-! ## The cache's side -/

/-- What the gateway sends is a GET of the key, as the cache understands it. -/
theorem cacheRequest_eq (key : Bytes) :
    cacheRequest key = (modernHeader Opcode.get.code flagNone 0 key.length 0).toBytes ++ key := by
  have hkey : Endian.big.bytes 4 (UInt32.ofNat key.length).toNat =
      Endian.big.bytes 4 key.length := by
    have hmod : (UInt32.ofNat key.length).toNat = key.length % 256 ^ 4 := UInt32.toNat_ofNat'
    rw [hmod, ← Endian.big.word_bytes_mod, Endian.bytes_word _ (Endian.length_bytes ..)]
  simp only [cacheRequest, DmmrFrame.toBytes, modernHeader, hkey, List.append_assoc]
  rfl

/-- The status and the payload of the answer to a GET of `k`. -/
def getResponse (m : AbstractStore) (k : Key) : Status × Bytes :=
  match m k with
  | none => (.notFound, [])
  | some r =>
      match r.body with
      | none => (.notFound, [])
      | some v => (.ok, v.1)

theorem getResponse_eq (host : Endian) (db : Database) (k : Key) :
    getResponse (contents host db) k = (liveMap host db).lookup k := by
  unfold getResponse PlainMap.lookup liveMap
  cases contents host db k with
  | none => rfl
  | some r => cases r.body <;> rfl

/-- The payload is the value of the record, if there is one. -/
theorem length_getResponse_le_iff (m : AbstractStore) (k : Key) (n : ℕ) :
    (getResponse m k).2.length ≤ n ↔ ∀ r, m k = some r → r.value.length ≤ n := by
  unfold getResponse
  cases m k with
  | none => simp
  | some r =>
      obtain ⟨timestamp, nodeId, expireAt, body⟩ := r
      cases body <;> simp [Record.value]

theorem length_getResponse_le (m : AbstractStore) (k : Key) :
    (getResponse m k).2.length ≤ maxValueLen :=
  (length_getResponse_le_iff m k _).mpr fun r _ => r.length_value_le

/-- A GET of a key is answered by what the store holds under it, and leaves the
store alone. -/
theorem processFrame_get {db : Database} (hwf : WellFormed host db) (k : Key)
    {env : Node.RequestEnv} (henv : env.Healthy) (hbdb : env.bdb = Bdb.ok) (flags : UInt16)
    (timestamp : UInt64) {value : Bytes} (hvalue : value.length ≤ maxValueLen)
    (sourceNodeId : UInt64) (fromPeer : Bool) :
    processFrame host myNodeId env db
        (modernRequest Opcode.get.code flags timestamp k.2.2 hvalue) sourceNodeId fromPeer =
      ⟨0, responseHeader (getResponse (contents host db) k).1
        (UInt32.ofNat (getResponse (contents host db) k).2.length) ++
          (getResponse (contents host db) k).2, db, none⟩ := by
  have hne := keyLen_modernRequest_ne_zero Opcode.get.code flags timestamp k.2.2 hvalue k.2.1
  have hanswer : answer host myNodeId env db
      (modernRequest Opcode.get.code flags timestamp k.2.2 hvalue) sourceNodeId fromPeer =
      answerGet host env db (modernRequest Opcode.get.code flags timestamp k.2.2 hvalue) :=
    if_pos rfl
  have hget : answerGet host env db (modernRequest Opcode.get.code flags timestamp k.2.2 hvalue) =
      Answer.ofLookup (getResponse (contents host db) k) db := by
    rw [getResponse_eq]
    exact answerGet_eq hwf hbdb ⟨Opcode.get.code, flags, timestamp, k, ⟨value, hvalue⟩⟩
  have hconsistent := consistent_answerGet host env db
    (modernRequest Opcode.get.code flags timestamp k.2.2 hvalue)
  rw [processFrame_eq host myNodeId env db hne, hanswer, Answer.send_eq hconsistent henv, hget]
  simp [Answer.ofLookup]

theorem handleClient_of_end (envs : List Node.RequestEnv) {calls : List (ReadCall UInt8)}
    (h : Delivers calls []) (db : Database) :
    handleClient host myNodeId envs calls db = some [] := by
  cases envs with
  | nil => rfl
  | cons env envs => rw [handleClient, readFrame_end env.payloadOk h]

/-- The gateway's request as a message to the cache. -/
def cacheMessage {key : Bytes} (hkey : key.length ≤ maxKeyLen) : ClientMessage :=
  .modern Opcode.get.code flagNone 0 key [] hkey (Nat.zero_le _)

/-- The request the cache makes of it. -/
def cacheGet {key : Bytes} (hkey : key.length ≤ maxKeyLen) : ModernRequest :=
  @modernRequest Opcode.get.code flagNone 0 key [] hkey (Nat.zero_le _)

theorem toBytes_cacheMessage {key : Bytes} (hkey : key.length ≤ maxKeyLen) :
    (cacheMessage hkey).toBytes = cacheRequest key := by
  rw [cacheRequest_eq]
  simp [cacheMessage, ClientMessage.toBytes]

namespace Connected

variable {host myNodeId}
variable {db : Database} {addr key : Bytes} {a : Attempt} {c : CacheSide} {log : List Exchange}

/-- The log of a connection that carried one key the cache can read. -/
theorem log_eq (hkey : key.length ≤ maxKeyLen) (h : Connected host myNodeId db addr key a c log) :
    ∃ env : Node.RequestEnv, env.Healthy ∧ env.bdb = Bdb.ok ∧ log = [⟨(cacheMessage hkey).request,
      processFrame host myNodeId env db (cacheGet hkey) myNodeId false⟩] := by
  obtain ⟨env, envs, henvs⟩ := List.exists_cons_of_length_pos h.healthy.serves
  have hmem : env ∈ c.envs := henvs ▸ List.mem_cons_self
  have henv := h.healthy.healthy env hmem
  have hquiet : env.interfere db = db := congrFun (h.healthy.quiet env hmem) db
  have hcalls := h.requested
  rw [← toBytes_cacheMessage hkey, ← List.append_nil (cacheMessage hkey).toBytes] at hcalls
  obtain ⟨calls', hread, hcalls'⟩ := readFrame_modern hcalls
  refine ⟨env, henv, h.healthy.bdb env hmem, ?_⟩
  have hlog := h.served
  rw [henvs, handleClient, henv.payload, hread] at hlog
  simp only [ClientMessage.request, serve, hquiet, handleClient_of_end host myNodeId envs hcalls',
    Option.map_some, Option.some.injEq] at hlog
  exact hlog.symm

/-- What the exchange gives the gateway for a key the cache accepts. -/
theorem cacheExchange_eq (hwf : WellFormed host db) (k : Key)
    (h : Connected host myNodeId db addr k.1 a c log) :
    cacheExchange a (cacheRequest k.1) =
      if (getResponse (contents host db) k).2.length > bufSize - 8 then none
      else some ⟨(getResponse (contents host db) k).1.code.toNat,
        (getResponse (contents host db) k).2⟩ := by
  obtain ⟨env, henv, hbdb, rfl⟩ := h.log_eq k.2.2
  have hanswered := h.answered
  rw [List.flatMap_singleton, cacheGet, processFrame_get host myNodeId hwf k henv hbdb]
    at hanswered
  exact cacheExchange_of_response h.sends (length_getResponse_le _ k) hanswered

/-- The store is as it was before. -/
theorem db_eq (hwf : WellFormed host db) (k : Key)
    (h : Connected host myNodeId db addr k.1 a c log) : ∀ e ∈ log, e.served.db = db := by
  obtain ⟨env, henv, hbdb, rfl⟩ := h.log_eq k.2.2
  intro e he
  rw [List.mem_singleton.mp he, cacheGet, processFrame_get host myNodeId hwf k henv hbdb]

/-- A key the cache does not accept is not answered. -/
theorem cacheExchange_eq_none (hkey : key = [] ∨ maxKeyLen < key.length)
    (hlen : key.length < 2 ^ 32) (h : Connected host myNodeId db addr key a c log) :
    cacheExchange a (cacheRequest key) = none := by
  apply cacheExchange_of_silence
  have hanswered := h.answered
  rcases hkey with rfl | hlong
  · -- `process_frame` returns without a response
    obtain ⟨env, -, -, rfl⟩ := h.log_eq (Nat.zero_le _)
    simpa [processFrame, cacheGet, modernRequest, modernHeader] using hanswered
  · -- `read_frame` fails and the connection is closed
    obtain ⟨env, envs, henvs⟩ := List.exists_cons_of_length_pos h.healthy.serves
    have hcalls := h.requested
    rw [cacheRequest_eq] at hcalls
    obtain ⟨calls', hread, -⟩ := readFrame_header rfl rfl env.payloadOk hcalls
    have hkeyLen : (modernHeader Opcode.get.code flagNone 0 key.length 0).keyLen.toNat =
        key.length := UInt32.toNat_ofNat'.trans (Nat.mod_eq_of_lt hlen)
    have hfail : readModern env.payloadOk
        (modernHeader Opcode.get.code flagNone 0 key.length 0) calls' = none := by
      unfold readModern
      rw [if_neg (by simp [modernHeader]), dif_pos (Or.inl (hlong.trans_eq hkeyLen.symm))]
    have hlog := h.served
    rw [henvs, handleClient, hread, hfail] at hlog
    rw [← Option.some.inj hlog] at hanswered
    exact hanswered

end Connected

/-! ## The gateway's side -/

theorem tryCandidates_of_first {attempts : ℕ → Attempt} {request addr : Bytes}
    {response : CacheResponse} (hconn : cachePrepareConn (attempts 0) addr = true)
    (hexchange : cacheExchange (attempts 0) request = some response) (addrs : List Bytes) :
    tryCandidates attempts request 0 (addr :: addrs) = some response := by
  simp [tryCandidates, hconn, hexchange]

theorem tryCandidates_eq_none {attempts : ℕ → Attempt} {request : Bytes}
    (h : ∀ i, cacheExchange (attempts i) request = none) (addrs : List Bytes) (i : ℕ) :
    tryCandidates attempts request i addrs = none := by
  induction addrs generalizing i with
  | nil => rfl
  | cons addr addrs ih => simp [tryCandidates, h i, ih]

theorem candidates_eq (conf : Conf) :
    ∃ addrs, candidates conf.cacheAddr = firstCandidate conf :: addrs := by
  unfold candidates firstCandidate
  simp only
  split_ifs <;> exact ⟨_, rfl⟩

/-- The first answer decides. -/
theorem sendCacheRequest_of_exchange (pool : PoolEnv) {conf : Conf} {attempts : ℕ → Attempt}
    {key : Bytes} {response : CacheResponse} (hlen : key.length ≤ bufSize - frameHeaderSize)
    (hconn : cachePrepareConn (attempts 0) (firstCandidate conf) = true)
    (hexchange : cacheExchange (attempts 0) (cacheRequest key) = some response) :
    sendCacheRequest pool attempts (some conf) key =
      if response.status = 0 then
        (.ok, some ⟨response.body.length, if pool.userInfo then some response.body else none⟩)
      else (.declined, none) := by
  obtain ⟨addrs, haddrs⟩ := candidates_eq conf
  unfold sendCacheRequest
  simp only [if_neg (not_lt.mpr hlen), haddrs, List.cons_append]
  rw [tryCandidates_of_first hconn hexchange]

/-- Without an answer the cache counts as unreachable. -/
theorem sendCacheRequest_eq_error (pool : PoolEnv) (conf : Conf) {attempts : ℕ → Attempt}
    {key : Bytes} (h : key.length ≤ bufSize - frameHeaderSize →
      ∀ i, cacheExchange (attempts i) (cacheRequest key) = none) :
    sendCacheRequest pool attempts (some conf) key = (.error, none) := by
  unfold sendCacheRequest
  by_cases hlen : key.length > bufSize - frameHeaderSize
  · simp only [if_pos hlen]
  · simp only [if_neg hlen]
    rw [tryCandidates_eq_none (h (not_lt.mp hlen))]

theorem length_le_of_key (k : Key) : k.1.length ≤ bufSize - frameHeaderSize :=
  k.2.2.trans (by decide)

/-! ## Every key can be asked for -/

theorem sendFull_wrote (n : ℕ) : sendFull [.wrote n] n = true := by
  cases n with
  | zero => rfl
  | succ n => simp [sendFull]

theorem healthy_quietSide (calls : List (ReadCall UInt8)) :
    CacheSide.Healthy ⟨[Node.RequestEnv.quiet], calls⟩ := by
  refine ⟨Nat.one_pos, ?_, ?_, ?_⟩
  · exact fun env henv => List.mem_singleton.mp henv ▸ Node.RequestEnv.healthy_quiet
  · exact fun env henv => List.mem_singleton.mp henv ▸ rfl
  · exact fun env henv => List.mem_singleton.mp henv ▸ rfl

/-- Whatever the key and the store, a healthy cache may be reached at the first
address. -/
theorem exists_connected (db : Database) (key : Bytes) :
    ∃ (a : Attempt) (c : CacheSide) (log : List Exchange),
      Connected host myNodeId db (firstCandidate createConf) key a c log := by
  obtain ⟨segments, hcalls⟩ := exists_delivers (cacheRequest key)
  obtain ⟨log, hlog⟩ : ∃ log, handleClient host myNodeId [Node.RequestEnv.quiet]
      (segments.map .got) db = some log := by
    have hstart := hcalls
    rw [cacheRequest_eq] at hstart
    obtain ⟨calls', hread, -⟩ := readFrame_header rfl rfl Node.RequestEnv.quiet.payloadOk hstart
    rw [handleClient, hread]
    split
    · exact ⟨[], rfl⟩
    · rename_i request calls'' hmodern
      obtain ⟨r, rfl⟩ := readModern_modern hmodern
      exact ⟨_, rfl⟩
  obtain ⟨answers, hanswers⟩ := exists_delivers (log.flatMap fun e => e.served.written)
  refine ⟨⟨true, true, true, true, [.wrote (cacheRequest key).length], answers⟩,
    ⟨[Node.RequestEnv.quiet], segments.map .got⟩, log, healthy_quietSide _, rfl,
    sendFull_wrote _, hcalls, hlog, hanswers⟩

/-! ## Agreement -/

variable {host myNodeId}

/-- For a value that fits the gateway's buffer the verdict is the cache's
answer. -/
theorem sendCacheRequest_of_connected {db : Database} (hwf : WellFormed host db) {k : Key}
    (pool : PoolEnv) {conf : Conf} {attempts : ℕ → Attempt} {c : CacheSide} {log : List Exchange}
    (h : Connected host myNodeId db (firstCandidate conf) k.1 (attempts 0) c log)
    {status : Status} {payload : Bytes}
    (hget : getResponse (contents host db) k = (status, payload)) (hlen : payload.length ≤ 4088) :
    sendCacheRequest pool attempts (some conf) k.1 =
      if status.code.toNat = 0 then
        (.ok, some ⟨payload.length, if pool.userInfo then some payload else none⟩)
      else (.declined, none) := by
  have hexchange := h.cacheExchange_eq hwf k
  simp only [hget] at hexchange
  rw [if_neg (show ¬ payload.length > bufSize - 8 from not_lt.mpr hlen)] at hexchange
  exact sendCacheRequest_of_exchange pool (length_le_of_key k) h.connects hexchange

/-- **Gateway and cache agree.**  For a key and a value within both programs'
limits the gateway's verdict is what the store says, and asking changes
nothing. -/
theorem sendCacheRequest_eq {db : Database} (hwf : WellFormed host db) (k : Key) (pool : PoolEnv)
    (conf : Conf) (attempts : ℕ → Attempt) {c : CacheSide} {log : List Exchange}
    (h : Connected host myNodeId db (firstCandidate conf) k.1 (attempts 0) c log) :
    (∀ (r : Record) (v : Value), contents host db k = some r → r.body = some v →
        v.1.length ≤ 4088 → sendCacheRequest pool attempts (some conf) k.1 =
          (.ok, some ⟨v.1.length, if pool.userInfo then some v.1 else none⟩)) ∧
      ((∀ r, contents host db k = some r → r.tombstone = true) →
        sendCacheRequest pool attempts (some conf) k.1 = (.declined, none)) ∧
      ∀ e ∈ log, e.served.db = db := by
  refine ⟨fun r v hr hv hlen => ?_, fun hnone => ?_, h.db_eq hwf k⟩
  · have hget : getResponse (contents host db) k = (.ok, v.1) := by simp [getResponse, hr, hv]
    exact sendCacheRequest_of_connected hwf pool h hget hlen
  · have hget : getResponse (contents host db) k = (.notFound, []) := by
      unfold getResponse
      cases hr : contents host db k with
      | none => rfl
      | some r => simp [Option.isNone_iff_eq_none.mp (hnone r hr)]
    exact sendCacheRequest_of_connected hwf pool h hget (Nat.zero_le _)

/-- One value, asked for. -/
theorem sendCacheRequest_live :
    let record : Record := ⟨5, 1, 9, some ⟨[118, 49], by decide⟩⟩
    let db : Database := OrderedMap.empty.put [107] (record.blob .little)
    ∃ (attempts : ℕ → Attempt) (c : CacheSide) (log : List Exchange),
      Connected .little 1 db (firstCandidate createConf) [107] (attempts 0) c log ∧
        sendCacheRequest ⟨true, true, true, true, true, true, true, true⟩ attempts
          (some createConf) [107] = (.ok, some ⟨2, some [118, 49]⟩) := by
  intro record db
  let k : Key := ⟨[107], by decide⟩
  have hcontents : contents .little db k = some record := by
    rw [contents_put OrderedMap.empty k, Function.update_self]
  obtain ⟨a, c, log, h⟩ := exists_connected .little 1 db [107]
  exact ⟨fun _ => a, c, log, h, (sendCacheRequest_eq (wellFormed_empty.put k record) k _ createConf
    (fun _ => a) h).1 record ⟨[118, 49], by decide⟩ hcontents rfl (by decide)⟩

/-! ## Limits -/

variable (host myNodeId)

/-- A healthy cache that is reached at the first address is never reported as
unreachable. -/
def CacheAnswers (db : Database) (r : Request) : Prop :=
  ∀ key ∈ extractCredential r, ∀ (pool : PoolEnv) (conf : Conf) (attempts : ℕ → Attempt)
    (c : CacheSide) (log : List Exchange),
    Connected host myNodeId db (firstCandidate conf) key (attempts 0) c log →
      (sendCacheRequest pool attempts (some conf) key).1 = .ok ∨
        (sendCacheRequest pool attempts (some conf) key).1 = .declined

/-- The cache accepts the key, and the gateway the value stored under it. -/
def InRange (db : Database) (key : Bytes) : Prop :=
  ∃ k : Key, k.1 = key ∧ ∀ r, contents host db k = some r → r.value.length ≤ 4088

/-- An answer that does not fit a limit is lost. -/
theorem cacheExchange_of_not_inRange {db : Database} (hwf : WellFormed host db) {addr key : Bytes}
    (hlen : key.length ≤ bufSize - frameHeaderSize) (hrange : ¬ InRange host db key) {a : Attempt}
    {c : CacheSide} {log : List Exchange} (h : Connected host myNodeId db addr key a c log) :
    cacheExchange a (cacheRequest key) = none := by
  by_cases hkey : key ≠ [] ∧ key.length ≤ maxKeyLen
  · let k : Key := ⟨key, hkey⟩
    rw [h.cacheExchange_eq hwf k, if_pos]
    by_contra hshort
    exact hrange ⟨k, rfl, (length_getResponse_le_iff _ k _).mp (not_lt.mp hshort)⟩
  · refine h.cacheExchange_eq_none ?_ (hlen.trans_lt (by decide))
    by_cases hnil : key = []
    · exact Or.inl hnil
    · exact Or.inr (not_le.mp fun hle => hkey ⟨hnil, hle⟩)

/-- **A 503 means the cache was unreachable**, exactly when the credential is in
range. -/
theorem cacheAnswers_iff {db : Database} (hwf : WellFormed host db) (r : Request) :
    CacheAnswers host myNodeId db r ↔ ∀ key ∈ extractCredential r, InRange host db key := by
  constructor
  · intro h key hkey
    by_contra hrange
    obtain ⟨a, c, log, hconn⟩ := exists_connected host myNodeId db key
    let pool : PoolEnv := ⟨true, true, true, true, true, true, true, true⟩
    have herror : sendCacheRequest pool (fun _ => a) (some createConf) key = (.error, none) :=
      sendCacheRequest_eq_error pool createConf fun hlen _ =>
        cacheExchange_of_not_inRange host myNodeId hwf hlen hrange hconn
    have hanswer := h key hkey pool createConf (fun _ => a) c log hconn
    rw [herror] at hanswer
    exact absurd hanswer (by simp)
  · intro h key hkey pool conf attempts c log hconn
    obtain ⟨k, rfl, hvalue⟩ := h key hkey
    have hshort := (length_getResponse_le_iff (contents host db) k 4088).mpr hvalue
    rw [sendCacheRequest_of_connected hwf pool hconn rfl hshort]
    split_ifs <;> simp

/-- A request with a credential in range. -/
theorem cacheAnswers_header :
    CacheAnswers .little 1 OrderedMap.empty
      { uri := ascii "/", methodName := ascii "GET", host := none
        headers := [(ascii "x-api-key", [107])], args := [], afterArgs := [0], clientAddr := [] } :=
  (cacheAnswers_iff .little 1 wellFormed_empty _).mpr fun key hkey =>
    ⟨⟨[107], by decide⟩, Option.some.inj hkey, by simp⟩

/-- **An empty credential is sent and never answered**: every attempt reaches a
healthy cache, and the gateway reports it as unreachable. -/
theorem cacheAnswers_fails :
    let r : Request := { uri := ascii "/", methodName := ascii "GET", host := none, headers := []
                         args := ascii "apikey=", afterArgs := [0], clientAddr := [] }
    extractCredential r = some [] ∧
      (∃ (a : Attempt) (c : CacheSide) (log : List Exchange),
        Connected .little 1 OrderedMap.empty (firstCandidate createConf) [] a c log ∧
          ∀ pool, sendCacheRequest pool (fun _ => a) (some createConf) [] = (.error, none)) ∧
      ¬ CacheAnswers .little 1 OrderedMap.empty r := by
  intro r
  have hcredential : extractCredential r = some [] := by decide
  obtain ⟨a, c, log, h⟩ := exists_connected .little 1 OrderedMap.empty []
  have herror : ∀ pool, sendCacheRequest pool (fun _ => a) (some createConf) [] = (.error, none) :=
    fun pool => sendCacheRequest_eq_error pool createConf fun _ _ =>
      h.cacheExchange_eq_none (Or.inl rfl) (by decide)
  refine ⟨hcredential, ⟨a, c, log, h, herror⟩, fun hanswers => ?_⟩
  have hanswer := hanswers [] hcredential ⟨true, true, true, true, true, true, true, true⟩
    createConf (fun _ => a) c log h
  rw [herror] at hanswer
  exact absurd hanswer (by simp)

end Dmmr.Gateway
