import Dmmr.Node.Pipeline

/-!
# To its clients a node is a map

A client that is alone on a node does not see stamps, tombstones or the order in
which the store prefers records.  What it sees is a map from keys to values: a
GET is answered with the value under its key, and the map is changed by the SETs
and DELs that were answered with status OK, and by nothing else.

The clock is not assumed to advance.  When it repeats a reading or steps back, a
write may lose against what the store already holds; it is then answered with an
error, and the map is right to ignore it.
-/

namespace Dmmr.Node

open Words Store Wire

/-! ## The requests -/

/-- What a client may ask for: any opcode, with a key and a value the protocol
allows. -/
structure ClientCall where
  opcode : UInt16
  flags : UInt16
  timestamp : UInt64
  key : Key
  value : Value

/-- The request `read_frame` makes of it. -/
def ClientCall.request (c : ClientCall) : ModernRequest :=
  modernRequest c.opcode c.flags c.timestamp c.key.2.2 c.value.2

namespace ClientCall

variable (c : ClientCall)

theorem keyLen_ne_zero : c.request.frame.keyLen ≠ 0 :=
  keyLen_modernRequest_ne_zero c.opcode c.flags c.timestamp c.key.2.2 c.value.2 c.key.2.1

theorem payload_request : c.request.payload = some (c.key.1 ++ c.value.1) :=
  if_neg (by simp [c.key.2.1])

theorem len_key : c.request.key.len = c.key.1.length := toNat_keyLen c.key.2.2

theorem bytes_key : c.request.key.bytes = c.key.1 := by
  unfold Buf.bytes
  rw [len_key, show c.request.key.ptr = _ from c.payload_request, Option.getD_some, List.take_left]

theorem len_value : c.request.value.len = c.value.1.length := toNat_valueLen c.value.2

theorem ptr_value : c.request.value.len = 0 ∨ c.request.value.ptr ≠ none := by
  by_cases hpos : c.request.frame.valueLen.toNat > 0
  · right
    simp [ModernRequest.value, hpos, payload_request]
  · left
    exact Nat.eq_zero_of_not_pos hpos

theorem bytes_value : c.request.value.bytes = c.value.1 := by
  have hkeyLen : c.request.frame.keyLen.toNat = c.key.1.length := toNat_keyLen c.key.2.2
  have hvalueLen : c.request.frame.valueLen.toNat = c.value.1.length := toNat_valueLen c.value.2
  by_cases hnil : c.value.1 = []
  · have hzero : c.request.value.len = 0 := by rw [len_value, hnil]; rfl
    simp [Buf.bytes, hzero, hnil]
  · have hpos : 0 < c.value.1.length := List.length_pos_iff.mpr hnil
    simp [Buf.bytes, ModernRequest.value, hkeyLen, hvalueLen, hpos, payload_request]

/-- A SET asks the store for a record with its value. -/
theorem requested_set (timestamp nodeId expireAt : UInt64) :
    requested c.request.key timestamp nodeId expireAt false c.request.value =
      some (c.key, ⟨timestamp, nodeId, expireAt, some c.value⟩) := by
  have hptr : c.request.key.ptr ≠ none := by simp [ModernRequest.key, payload_request]
  exact requested_eq_some (r := ⟨timestamp, nodeId, expireAt, some c.value⟩) hptr c.len_key
    c.bytes_key c.len_value c.bytes_value c.ptr_value

/-- A DEL asks the store for a tombstone. -/
theorem requested_del (timestamp nodeId : UInt64) :
    requested c.request.key timestamp nodeId 0 true Buf.null =
      some (c.key, ⟨timestamp, nodeId, 0, none⟩) := by
  have hptr : c.request.key.ptr ≠ none := by simp [ModernRequest.key, payload_request]
  exact requested_eq_some (r := ⟨timestamp, nodeId, 0, none⟩) hptr c.len_key c.bytes_key rfl rfl
    (Or.inl rfl)

theorem toKey?_request : c.request.key.toKey? = some c.key :=
  toKey?_modernRequest c.opcode c.flags c.timestamp c.key c.value.2

end ClientCall

/-! ## The map -/

/-- A plain map from keys to values. -/
abbrev PlainMap := Key → Option Value

namespace PlainMap

/-- The answer of the map to a GET: a status and the bytes that go with it. -/
def lookup (m : PlainMap) (k : Key) : Status × Bytes :=
  match m k with
  | none => (.notFound, [])
  | some v => (.ok, v.1)

/-- What a request that was answered OK does to the map.  For a client `OP_SYNC`
is another name of `OP_SET`. -/
def apply (m : PlainMap) (c : ClientCall) : PlainMap :=
  if c.opcode = Opcode.set.code ∨ c.opcode = Opcode.sync.code then
    Function.update m c.key (some c.value)
  else if c.opcode = Opcode.del.code then Function.update m c.key none
  else m

end PlainMap

variable (host : Endian) (myNodeId : UInt64)

/-- The live values of a store. -/
def liveMap (db : Database) : PlainMap := fun k => (contents host db k).bind Record.body

/-- One request is served by `process_frame`, and the map is updated if the
answer is OK. -/
def mapStep (s : Database × PlainMap) (step : RequestEnv × ClientCall) : Database × PlainMap :=
  ((processFrame host myNodeId step.1 s.1 step.2.request myNodeId false).db,
    if (answer host myNodeId step.1 s.1 step.2.request myNodeId false).status = .ok then
      s.2.apply step.2
    else s.2)

/-- A response with the given status and bytes. -/
def Answer.ofLookup (found : Status × Bytes) (db : Database) : Answer :=
  ⟨found.1, payloadPtr found.2, UInt32.ofNat found.2.length, db, none⟩

/-! ## One request -/

variable {host myNodeId}

/-- Sending the response changes nothing else. -/
theorem Answer.effects_send (a : Answer) (env : RequestEnv) :
    (a.send env).db = a.db ∧ (a.send env).enqueued = a.enqueued := by
  unfold Answer.send
  cases a.payload with
  | none =>
      simp only
      split_ifs <;> exact ⟨rfl, rfl⟩
  | some payload =>
      simp only
      split_ifs <;> exact ⟨rfl, rfl⟩

theorem db_processFrame (env : RequestEnv) (db : Database) (c : ClientCall) (sourceNodeId : UInt64)
    (fromPeer : Bool) :
    (processFrame host myNodeId env db c.request sourceNodeId fromPeer).db =
      (answer host myNodeId env db c.request sourceNodeId fromPeer).db := by
  rw [processFrame_eq host myNodeId env db c.keyLen_ne_zero]
  exact (Answer.effects_send _ env).1

theorem liveMap_put (db : Database) (k : Key) (r : Record) :
    liveMap host (db.put k.1 (r.blob host)) = Function.update (liveMap host db) k r.body := by
  funext k'
  unfold liveMap
  rw [contents_put, Function.update_apply, Function.update_apply]
  split_ifs <;> rfl

/-- A GET on a well-formed store is answered from its live values. -/
theorem answerGet_eq {db : Database} (hwf : WellFormed host db) {env : RequestEnv}
    (hbdb : env.bdb = Bdb.ok) (c : ClientCall) :
    answerGet host env db c.request = Answer.ofLookup ((liveMap host db).lookup c.key) db := by
  have hget := dbGetWithMeta_eq hwf c.request.key
  rw [c.toKey?_request] at hget
  unfold answerGet PlainMap.lookup liveMap
  rw [hbdb, hget]
  simp only [AbstractStore.get]
  cases contents host db c.key with
  | none => rfl
  | some r =>
      cases hbody : r.body with
      | none => simp [hbody, Answer.plain, Answer.ofLookup, payloadPtr]
      | some v => simp [hbody, Answer.ofLookup, payloadPtr]

/-- What a step keeps: the store is well-formed and its live values are the map. -/
structure Mirrors (host : Endian) (s : Database × PlainMap) : Prop where
  wellFormed : WellFormed host s.1
  live : liveMap host s.1 = s.2

theorem Mirrors.of_db {db : Database} (hwf : WellFormed host db) :
    Mirrors host (db, liveMap host db) := ⟨hwf, rfl⟩

/-- After a store call the live values are those before it, updated if the call
was applied. -/
theorem Mirrors.exec {db : Database} {m : PlainMap} (h : Mirrors host (db, m))
    (myNodeId : UInt64) (call : Call) {k : Key} {r : Record}
    (hrequest : call.request myNodeId = some (k, r)) :
    Mirrors host ((call.exec host myNodeId db).2,
      if (call.exec host myNodeId db).1 = .applied then Function.update m k r.body else m) := by
  obtain ⟨hwf, hlive⟩ := h
  refine ⟨call.wellFormed_exec hwf, ?_⟩
  rcases call.exec_cases myNodeId hwf with ⟨k', r', hrequest', -, -, hexec⟩ | ⟨hcode, hdb, -⟩
  · rw [hrequest] at hrequest'
    obtain ⟨rfl, rfl⟩ := Prod.mk.inj (Option.some.inj hrequest')
    simp only [hexec, if_true]
    rw [liveMap_put, hlive]
  · have hcode' : (call.exec host myNodeId db).1 ≠ .applied := by
      rcases hcode with hcode | hcode <;> rw [hcode] <;> decide
    simp only [hdb, if_neg hcode']
    exact hlive

/-- The store call of a SET from a client. -/
def setCall (myNodeId : UInt64) (env : RequestEnv) (c : ClientCall) : Call :=
  .setWithMeta env.bdb c.request.key (env.now 0) myNodeId c.request.value (env.now 1 + ttlDefault)

/-- The store call of a DEL. -/
def delCall (env : RequestEnv) (c : ClientCall) : Call :=
  .delKey env.bdb c.request.key (env.now 0)

/-- What a client write does to the store, and whether it is answered OK. -/
theorem answerSet_eq (host : Endian) (myNodeId : UInt64) (env : RequestEnv) (db : Database)
    (c : ClientCall) :
    (answerSet host myNodeId env db c.request myNodeId false).db =
        ((setCall myNodeId env c).exec host myNodeId db).2 ∧
      ((answerSet host myNodeId env db c.request myNodeId false).status = .ok ↔
        ((setCall myNodeId env c).exec host myNodeId db).1 = .applied) := by
  simp only [answerSet, setCall, Call.exec, Bool.false_eq_true, if_false]
  split_ifs with hrc
  · exact ⟨rfl, iff_of_true rfl hrc⟩
  · exact ⟨rfl, iff_of_false (by simp [Answer.plain]) hrc⟩

theorem answerDel_eq (host : Endian) (myNodeId : UInt64) (env : RequestEnv) (db : Database)
    (c : ClientCall) :
    (answerDel host myNodeId env db c.request false).db =
        ((delCall env c).exec host myNodeId db).2 ∧
      ((answerDel host myNodeId env db c.request false).status = .ok ↔
        ((delCall env c).exec host myNodeId db).1 = .applied) := by
  simp only [answerDel, delCall, Call.exec, Answer.plain, true_and]
  split_ifs with hrc
  · exact iff_of_true rfl hrc
  · exact iff_of_false (by simp) hrc

/-- **One request keeps store and map together.** -/
theorem Mirrors.mapStep {s : Database × PlainMap} (h : Mirrors host s) (myNodeId : UInt64)
    (step : RequestEnv × ClientCall) : Mirrors host (Node.mapStep host myNodeId s step) := by
  obtain ⟨db, m⟩ := s
  obtain ⟨env, c⟩ := step
  have hopcode : c.request.frame.opcode = c.opcode := rfl
  unfold Node.mapStep
  simp only [db_processFrame, answer, hopcode]
  by_cases hget : c.opcode = Opcode.get.code
  · have happly : m.apply c = m := by
      unfold PlainMap.apply
      rw [if_neg (by rw [hget]; decide), if_neg (by rw [hget]; decide)]
    simp only [if_pos hget, happly, ite_self]
    have hdb : (answerGet host env db c.request).db = db := by
      unfold answerGet
      split <;> rfl
    rw [hdb]
    exact h
  · simp only [if_neg hget]
    by_cases hset : c.opcode = Opcode.set.code ∨ c.opcode = Opcode.sync.code
    · obtain ⟨hdb, hstatus⟩ := answerSet_eq host myNodeId env db c
      simp only [if_pos hset, hdb, hstatus, PlainMap.apply]
      exact h.exec myNodeId (setCall myNodeId env c) (c.requested_set _ _ _)
    · simp only [if_neg hset]
      by_cases hdel : c.opcode = Opcode.del.code
      · obtain ⟨hdb, hstatus⟩ := answerDel_eq host myNodeId env db c
        simp only [if_pos hdel, if_neg hset, hdb, hstatus, PlainMap.apply]
        exact h.exec myNodeId (delCall env c) (c.requested_del _ _)
      · -- an unknown opcode is answered with an error
        simp only [if_neg hdel]
        exact h

/-- A whole sequence of requests does. -/
theorem Mirrors.run {s : Database × PlainMap} (h : Mirrors host s) (myNodeId : UInt64)
    (steps : List (RequestEnv × ClientCall)) :
    Mirrors host (steps.foldl (Node.mapStep host myNodeId) s) := by
  induction steps generalizing s with
  | nil => exact h
  | cons step steps ih => exact ih (h.mapStep myNodeId step)

/-! ## Every sequence of requests -/

/-- **To its clients a node is a map.**  In every sequence of requests on a node
whose store nothing else writes to, with the clock reading anything at any time,
a GET is answered, status and bytes, by the map that started as the live values
of the store and was updated by exactly the SETs and DELs answered OK. -/
theorem processFrame_get_run (host : Endian) (myNodeId : UInt64) {db : Database}
    (hwf : WellFormed host db) (before : List (RequestEnv × ClientCall)) {env : RequestEnv}
    (hbdb : env.bdb = Bdb.ok) {c : ClientCall} (hget : c.opcode = Opcode.get.code) :
    processFrame host myNodeId env
        (before.foldl (mapStep host myNodeId) (db, liveMap host db)).1 c.request myNodeId false =
      (Answer.ofLookup
        ((before.foldl (mapStep host myNodeId) (db, liveMap host db)).2.lookup c.key)
        (before.foldl (mapStep host myNodeId) (db, liveMap host db)).1).send env := by
  obtain ⟨hwf', hlive⟩ := (Mirrors.of_db hwf).run myNodeId before
  have hanswer : answer host myNodeId env
      (before.foldl (mapStep host myNodeId) (db, liveMap host db)).1 c.request myNodeId false =
      answerGet host env (before.foldl (mapStep host myNodeId) (db, liveMap host db)).1
        c.request := if_pos hget
  rw [processFrame_eq host myNodeId env _ c.keyLen_ne_zero, hanswer, answerGet_eq hwf' hbdb, hlive]

/-- A SET at time 5 and then a DEL at the same time, which is refused: the map
keeps the value, and the GET returns it. -/
theorem processFrame_get_run_refused :
    let k : Key := ⟨[107], by decide⟩
    let before : List (RequestEnv × ClientCall) :=
      [({ RequestEnv.quiet with now := fun _ => 5 },
          ⟨Opcode.set.code, 0, 0, k, ⟨[118], by decide⟩⟩),
        ({ RequestEnv.quiet with now := fun _ => 5 },
          ⟨Opcode.del.code, 0, 0, k, ⟨[], by decide⟩⟩)]
    let s := before.foldl (mapStep .little 7) (OrderedMap.empty, liveMap .little OrderedMap.empty)
    s.2.lookup k = (.ok, [118]) ∧
      processFrame .little 7 .quiet s.1
          (ClientCall.request ⟨Opcode.get.code, 0, 0, k, ⟨[], by decide⟩⟩) 7 false =
        (Answer.ofLookup (s.2.lookup k) s.1).send .quiet :=
  ⟨by decide +kernel,
    processFrame_get_run .little 7 wellFormed_empty
      [({ RequestEnv.quiet with now := fun _ => 5 },
          ⟨Opcode.set.code, 0, 0, ⟨[107], by decide⟩, ⟨[118], by decide⟩⟩),
        ({ RequestEnv.quiet with now := fun _ => 5 },
          ⟨Opcode.del.code, 0, 0, ⟨[107], by decide⟩, ⟨[], by decide⟩⟩)]
      rfl rfl⟩

end Dmmr.Node
