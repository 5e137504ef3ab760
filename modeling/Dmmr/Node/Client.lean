import Dmmr.Node.Threads
import Dmmr.Wire.Client

/-!
# Serving a client: `handle_client`

A worker serves one connection at a time: it reads a request, answers it and
reads the next one, until `read_frame` fails.  Modern requests go to
`process_frame`, legacy ones to `process_legacy_request`.

What happens while one request is served is an input (`RequestEnv`): the other
threads' writes before the request reaches the store, the outcome of the
Berkeley DB calls and of the allocations, the readings of the clock, and what the
calls of `send` do.  `Exchange` is the log entry of a request: what was read and
what became of it.
-/

namespace Dmmr.Node

open Words Store Wire Segments

/-- `DMMR_PROTO_STATUS_OK`, `_NOT_FOUND` and `_ERROR`. -/
inductive Status
  | ok
  | notFound
  | error
  deriving DecidableEq, Repr

def Status.code : Status → UInt16
  | ok => 0
  | notFound => 1
  | error => 2

/-- What the environment does while one request is served. -/
structure RequestEnv where
  /-- What the other threads make of the store before the request reaches it. -/
  interfere : Database → Database
  /-- Whether `get_payload_buf` finds a buffer. -/
  payloadOk : Bool
  bdb : Bdb
  /-- The readings of the clock, in the order they are taken. -/
  now : ℕ → UInt64
  /-- Whether `enqueue_broadcast` finds a slot and memory. -/
  cmdOk : Bool
  headerSends : List WriteCall
  payloadSends : List WriteCall

/-- What became of a request. -/
structure Served where
  rc : Int
  written : Bytes
  db : Database
  enqueued : Option ControlCmd

/-! ## `process_frame` -/

/-- Status, payload and length of a response, with the effects of the request. -/
structure Answer where
  status : Status
  payload : Option Bytes
  len : UInt32
  db : Database
  enqueued : Option ControlCmd

/-- A response without payload. -/
def Answer.plain (status : Status) (db : Database) (enqueued : Option ControlCmd) : Answer :=
  ⟨status, none, 0, db, enqueued⟩

/-- `enqueue_broadcast`, which drops the command when it finds no memory. -/
def RequestEnv.enqueue (env : RequestEnv) (cmd : ControlCmd) : Option ControlCmd :=
  if env.cmdOk then some cmd else none

variable (host : Endian) (myNodeId : UInt64)

/-- The `OP_GET` case of `process_frame`. -/
def answerGet (env : RequestEnv) (db : Database) (r : ModernRequest) : Answer :=
  match dbGetWithMeta host env.bdb db r.key with
  | (.applied, some out) => ⟨.ok, out.value, UInt32.ofNat out.valueLen, db, none⟩
  | (.notFound, _) => .plain .notFound db none
  | _ => .plain .error db none

/-- The `OP_SET` and `OP_SYNC` case of `process_frame`. -/
def answerSet (env : RequestEnv) (db : Database) (r : ModernRequest) (sourceNodeId : UInt64)
    (fromPeer : Bool) : Answer :=
  let tsUse := if fromPeer then r.frame.timestamp else env.now 0
  let nodeUse := if fromPeer then sourceNodeId else myNodeId
  let expireAt := env.now (if fromPeer then 0 else 1) + ttlDefault
  let (rc, db) := dbSetWithMeta host env.bdb db r.key tsUse nodeUse r.value expireAt
  if rc = .applied then
    .plain .ok db (if fromPeer then none
      else env.enqueue (enqueueBroadcast r.key r.value tsUse nodeUse expireAt flagNone))
  else .plain .error db none

/-- The `OP_DEL` case of `process_frame`. -/
def answerDel (env : RequestEnv) (db : Database) (r : ModernRequest) (fromPeer : Bool) : Answer :=
  let (rc, db) := dbDelKey host myNodeId env.bdb db r.key (env.now 0)
  .plain (if rc = .applied then .ok else .error) db (if fromPeer then none
    else env.enqueue (enqueueBroadcast r.key Buf.null (env.now 1) myNodeId 0 flagTombstone))

/-- The `switch` of `process_frame`. -/
def answer (env : RequestEnv) (db : Database) (r : ModernRequest) (sourceNodeId : UInt64)
    (fromPeer : Bool) : Answer :=
  if r.frame.opcode = Opcode.get.code then answerGet host env db r
  else if r.frame.opcode = Opcode.set.code ∨ r.frame.opcode = Opcode.sync.code then
    answerSet host myNodeId env db r sourceNodeId fromPeer
  else if r.frame.opcode = Opcode.del.code then answerDel host myNodeId env db r fromPeer
  else .plain .error db none

/-- The eight bytes in front of a response, the last two zero. -/
def responseHeader (status : Status) (len : UInt32) : Bytes :=
  Endian.big.bytes 2 status.code.toNat ++ (Endian.big.bytes 4 len.toNat ++ [0, 0])

/-- The end of `process_frame`: the response is sent. -/
def Answer.send (a : Answer) (env : RequestEnv) : Served :=
  let (header, all) := writeAll env.headerSends (responseHeader a.status a.len)
  if !all then ⟨-1, header, a.db, a.enqueued⟩
  else
    match a.payload with
    | none => ⟨0, header, a.db, a.enqueued⟩
    | some payload =>
        if a.len = 0 then ⟨0, header, a.db, a.enqueued⟩
        else
          let (body, all) := writeAll env.payloadSends (payload.take a.len.toNat)
          ⟨if all then 0 else -1, header ++ body, a.db, a.enqueued⟩

/-- `process_frame`. -/
def processFrame (env : RequestEnv) (db : Database) (r : ModernRequest) (sourceNodeId : UInt64)
    (fromPeer : Bool) : Served :=
  if r.frame.keyLen = 0 ∨ r.frame.keyLen.toNat > maxKeyLen ∨ r.frame.valueLen.toNat > maxValueLen
  then ⟨-1, [], db, none⟩
  else (answer host myNodeId env db r sourceNodeId fromPeer).send env

/-! ## `process_legacy_request` -/

/-- The four bytes in front of a legacy response. -/
def legacyHeader (status : Status) (payloadLen : UInt16) : Bytes :=
  Endian.big.bytes 2 status.code.toNat ++ Endian.big.bytes 2 payloadLen.toNat

/-- The room for a payload in the buffer of `send_legacy_response`. -/
def legacyRoom : ℕ := 4096

/-- `send_legacy_response`: the bytes it writes.  `none` stands for undefined
behaviour: the payload does not fit the buffer, or there is none to copy. -/
def sendLegacyResponse (env : RequestEnv) (status : Status) (payloadLen : UInt16)
    (payload : Option Bytes) : Option Bytes :=
  if payloadLen.toNat > legacyRoom ∨ (payloadLen ≠ 0 ∧ payload = none) then none
  else some (writeAll env.headerSends (legacyHeader status payloadLen ++
    (payload.getD []).take payloadLen.toNat)).1

/-- `process_legacy_request`.  Its two last cases are as in the source: a failed
lookup is reported as a missing key and a missing key as an error. -/
def processLegacyRequest (env : RequestEnv) (db : Database) (r : LegacyRequest) : Option Served :=
  if r.opcode ≠ Opcode.get.code ∨ r.keyLen = 0 ∨ r.payload = none then
    (sendLegacyResponse env .error 0 none).map fun written => ⟨-1, written, db, none⟩
  else
    match dbGetWithMeta host env.bdb db r.key with
    | (.applied, some out) =>
        (sendLegacyResponse env .ok (UInt16.ofNat out.valueLen) out.value).map
          fun written => ⟨0, written, db, none⟩
    | (.error, _) =>
        (sendLegacyResponse env .notFound 0 none).map fun written => ⟨1, written, db, none⟩
    | _ => (sendLegacyResponse env .error 0 none).map fun written => ⟨-1, written, db, none⟩

/-! ## `handle_client` -/

/-- A request is served. -/
def serve (env : RequestEnv) (db : Database) : ClientRequest → Option Served
  | .modern r => some (processFrame host myNodeId env db r myNodeId false)
  | .legacy r => processLegacyRequest host env db r

/-- A request and what became of it. -/
structure Exchange where
  request : ClientRequest
  served : Served

/-- `handle_client`, followed for as many requests as there are environments:
the log of the connection, `none` after undefined behaviour.  The results of
`process_frame` and `process_legacy_request` are ignored; only `read_frame` ends
the loop. -/
def handleClient : List RequestEnv → List (ReadCall UInt8) → Database → Option (List Exchange)
  | [], _, _ => some []
  | env :: envs, calls, db =>
      match readFrame env.payloadOk calls with
      | none => some []
      | some (request, calls) =>
          match serve host myNodeId env (env.interfere db) request with
          | none => none
          | some served =>
              (handleClient envs calls served.db).map fun log => ⟨request, served⟩ :: log

end Dmmr.Node
