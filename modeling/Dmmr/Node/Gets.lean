import Dmmr.Node.Answers
import Dmmr.Node.Gc
import Dmmr.Store.Merge

/-!
# What the GETs serve

Two things the read path does not check.

* A legacy response is built in a buffer with room for 4096 bytes of payload,
  and its length field has 16 bits.  The store takes values of up to 1 MiB, by
  SETs and from peers alike.  `legacyExact_iff`: a response is right exactly if
  the value is not longer than the buffer has room for.
* An expired record stays in the store until the scan has come past it and the
  collector has deleted it, and `db_get_with_meta` hands its `expire_at` to
  callers that do not look at it.  What a key holds is the last write of the run
  that took effect (`contents_nodeRun`), so a GET that can be answered spares an
  expired record exactly if that write was a deletion or has not expired
  (`servesUnexpired_iff`).
-/

namespace Dmmr.Node

open Words Store Wire Segments

/-- What a lookup brings up, and what that says about the store. -/
theorem lookup_cases (host : Endian) (bdb : Bdb) (db : Database) (key : Buf) :
    (∃ k record v, key.toKey? = some k ∧ FindsLive host bdb db k ∧
        contents host db k = some record ∧ record.body = some v ∧
        dbGetWithMeta host bdb db key = (.applied, some (record.getOut v))) ∨
      ((∀ k, key.toKey? = some k → ¬ FindsLive host bdb db k) ∧
        (dbGetWithMeta host bdb db key = (.notFound, none) ∨
          dbGetWithMeta host bdb db key = (.error, none))) := by
  cases hkey : key.toKey? with
  | none => exact .inr ⟨by simp, .inr (dbGetWithMeta_of_rejected bdb db hkey)⟩
  | some k =>
      rcases dbGetWithMeta_cases host bdb db hkey with
        ⟨hlive, record, v, hr, hv, hlookup⟩ | ⟨hdead, hlookup⟩
      · exact .inl ⟨k, record, v, rfl, hlive, hr, hv, hlookup⟩
      · exact .inr ⟨fun k' hk' => Option.some.inj hk' ▸ hdead, hlookup⟩

/-! ## Legacy responses -/

/-- What lies in `resp` when `send_legacy_response` starts to send, `none` after
undefined behaviour. -/
def legacyResp (status : Status) (payloadLen : UInt16) (payload : Option Bytes) : Option Bytes :=
  if payloadLen.toNat > legacyRoom ∨ (payloadLen ≠ 0 ∧ payload = none) then none
  else some (legacyHeader status payloadLen ++ (payload.getD []).take payloadLen.toNat)

theorem sendLegacyResponse_eq_map (env : RequestEnv) (status : Status) (payloadLen : UInt16)
    (payload : Option Bytes) :
    sendLegacyResponse env status payloadLen payload =
      (legacyResp status payloadLen payload).map fun resp =>
        (writeAll env.headerSends resp).1 := by
  unfold sendLegacyResponse legacyResp
  split_ifs <;> rfl

/-- The response that `process_legacy_request` builds from the result of its
lookup, and the code it returns. -/
def legacyAnswer : DbResult × Option GetOut → Option Bytes × Int
  | (.applied, some out) => (legacyResp .ok (UInt16.ofNat out.valueLen) out.value, 0)
  | (.error, _) => (legacyResp .notFound 0 none, 1)
  | _ => (legacyResp .error 0 none, -1)

/-- A legacy GET, with a key. -/
structure LegacyGet extends LegacyRequest where
  isGet : opcode = Opcode.get.code
  keyLen_ne : keyLen ≠ 0
  payload_ne : payload ≠ none

/-- A legacy GET is answered by `legacyAnswer`. -/
theorem processLegacyRequest_eq (host : Endian) (env : RequestEnv) (db : Database)
    (r : LegacyGet) :
    processLegacyRequest host env db r.toLegacyRequest =
      (legacyAnswer (dbGetWithMeta host env.bdb db r.key)).1.map fun resp =>
        ⟨(legacyAnswer (dbGetWithMeta host env.bdb db r.key)).2,
          (writeAll env.headerSends resp).1, db, none⟩ := by
  have hguard : ¬ (r.opcode ≠ Opcode.get.code ∨ r.keyLen = 0 ∨ r.payload = none) := by
    rintro (h | h | h)
    · exact h r.isGet
    · exact r.keyLen_ne h
    · exact r.payload_ne h
  unfold processLegacyRequest
  rw [if_neg hguard]
  generalize dbGetWithMeta host env.bdb db r.key = lookup
  obtain ⟨rc, out⟩ := lookup
  cases rc <;> cases out <;>
    simp only [legacyAnswer, sendLegacyResponse_eq_map, Option.map_map] <;> rfl

/-- The value bytes a lookup has brought up. -/
def foundValue : DbResult × Option GetOut → Bytes
  | (.applied, some out) => out.value.getD []
  | _ => []

/-- The response to a legacy GET stays within its buffer, and consists of a header
whose length field tells how many bytes follow, and all bytes of the value that
was found. -/
def LegacyExact (host : Endian) (bdb : Bdb) (db : Database) (r : LegacyGet) : Prop :=
  ∃ resp, (legacyAnswer (dbGetWithMeta host bdb db r.key)).1 = some resp ∧
    resp.length ≤ 4 + legacyRoom ∧
    ∃ status len, resp = legacyHeader status len ++ foundValue (dbGetWithMeta host bdb db r.key) ∧
      len.toNat = (foundValue (dbGetWithMeta host bdb db r.key)).length

theorem length_legacyHeader (status : Status) (len : UInt16) :
    (legacyHeader status len).length = 4 := by
  simp [legacyHeader]

theorem legacyResp_zero (status : Status) :
    legacyResp status 0 none = some (legacyHeader status 0) := by
  simp [legacyResp]

/-- The response with a value: its length is taken modulo `2 ^ 16`. -/
theorem legacyResp_getOut (status : Status) (record : Record) (v : Value) :
    legacyResp status (UInt16.ofNat (record.getOut v).valueLen) (record.getOut v).value =
      if legacyRoom < v.1.length % 2 ^ 16 then none
      else some (legacyHeader status (UInt16.ofNat v.1.length) ++
        v.1.take (v.1.length % 2 ^ 16)) := by
  have hlen : (UInt16.ofNat v.1.length).toNat = v.1.length % 2 ^ 16 := UInt16.toNat_ofNat'
  have hvalueLen : (record.getOut v).valueLen = v.1.length := rfl
  -- only an empty value has no pointer
  have hpointer : ¬ (UInt16.ofNat v.1.length ≠ 0 ∧ (record.getOut v).value = none) := by
    rintro ⟨hne, hnone⟩
    have hnil : v.1 = [] := by
      by_contra h
      simp [Record.getOut, h] at hnone
    exact hne (by rw [hnil]; rfl)
  unfold legacyResp
  rw [hvalueLen, hlen, value_getOut]
  simp only [hpointer, or_false, gt_iff_lt]

/-- A value that fits is sent whole. -/
theorem legacyResp_of_fits (status : Status) (record : Record) {v : Value}
    (hfits : v.1.length ≤ legacyRoom) :
    legacyResp status (UInt16.ofNat (record.getOut v).valueLen) (record.getOut v).value =
        some (legacyHeader status (UInt16.ofNat v.1.length) ++ v.1) ∧
      (UInt16.ofNat v.1.length).toNat = v.1.length := by
  have hmod : v.1.length % 2 ^ 16 = v.1.length :=
    Nat.mod_eq_of_lt (hfits.trans_lt (by decide))
  constructor
  · rw [legacyResp_getOut, hmod, if_neg (not_lt.mpr hfits), List.take_length]
  · rw [UInt16.toNat_ofNat', hmod]

theorem value_of_body {record : Record} {v : Value} (h : record.body = some v) :
    record.value = v.1 := by
  rw [Record.value, h]
  rfl

/-- The whole of a value that was found has to fit. -/
theorem length_le_of_legacyExact {host : Endian} {bdb : Bdb} {db : Database} {r : LegacyGet}
    {k : Key} {record : Record} (hexact : LegacyExact host bdb db r) (hkey : r.key.toKey? = some k)
    (hlive : FindsLive host bdb db k) (hr : contents host db k = some record) :
    record.value.length ≤ legacyRoom := by
  obtain ⟨resp, -, hroom, status, len, rfl, -⟩ := hexact
  rcases lookup_cases host bdb db r.key with
    ⟨k', record', v, hkey', -, hr', hv, hlookup⟩ | ⟨hdead, -⟩
  · obtain rfl := Option.some.inj (hkey'.symm.trans hkey)
    obtain rfl := Option.some.inj (hr'.symm.trans hr)
    have hfound : foundValue (dbGetWithMeta host bdb db r.key) = record'.value := by
      rw [hlookup, value_of_body hv]
      exact value_getOut record' v
    rw [List.length_append, length_legacyHeader, hfound] at hroom
    omega
  · exact absurd hlive (hdead k hkey)

/-- **Legacy responses are right for short values only.**  On every store and
whatever the calls of the lookup do, the response to a legacy GET stays within
its buffer and holds the value whole, with its length, if and only if the live
value that the lookup finds, if any, has at most 4096 bytes. -/
theorem legacyExact_iff (host : Endian) (bdb : Bdb) (db : Database) (r : LegacyGet) :
    LegacyExact host bdb db r ↔
      ∀ k record, r.key.toKey? = some k → FindsLive host bdb db k →
        contents host db k = some record → record.value.length ≤ legacyRoom := by
  -- without a value the response is its header
  have hplain : ∀ {lookup} (status : Status), foundValue lookup = [] →
      (legacyAnswer lookup).1 = some (legacyHeader status 0) →
      ∃ resp, (legacyAnswer lookup).1 = some resp ∧ resp.length ≤ 4 + legacyRoom ∧
        ∃ status len, resp = legacyHeader status len ++ foundValue lookup ∧
          len.toNat = (foundValue lookup).length := by
    intro lookup status hnil hresp
    refine ⟨_, hresp, by rw [length_legacyHeader]; exact Nat.le_add_right _ _, status, 0, ?_, ?_⟩
    · rw [hnil, List.append_nil]
    · rw [hnil]
      rfl
  refine ⟨fun hexact k record => length_le_of_legacyExact hexact, fun h => ?_⟩
  unfold LegacyExact
  rcases lookup_cases host bdb db r.key with
    ⟨k, record, v, hkey, hlive, hr, hv, hlookup⟩ | ⟨-, hlookup | hlookup⟩
  · have hfound : foundValue (.applied, some (record.getOut v)) = v.1 := value_getOut record v
    have hfits : v.1.length ≤ legacyRoom := value_of_body hv ▸ h k record hkey hlive hr
    obtain ⟨hresp, hlen⟩ := legacyResp_of_fits .ok record hfits
    rw [hlookup]
    refine ⟨_, hresp, ?_, .ok, _, by rw [hfound], by rw [hfound, hlen]⟩
    rw [List.length_append, length_legacyHeader]
    omega
  · rw [hlookup]
    exact hplain .error rfl (legacyResp_zero _)
  · rw [hlookup]
    exact hplain .notFound rfl (legacyResp_zero _)

/-- One byte more than there is room for. -/
def longValue : Value := ⟨List.replicate 4097 120, by rw [List.length_replicate]; decide⟩

/-- The store after a client has set a key to it. -/
def longStore : Database :=
  ((Call.setWithMeta .ok (Buf.ofBytes [107]) 5 7 (Buf.ofBytes longValue.1) 9).exec .little 7
    OrderedMap.empty).2

/-- A legacy GET of that key. -/
def legacyGet : LegacyGet where
  opcode := Opcode.get.code
  keyLen := 1
  payload := some [107]
  payload_length := by simp
  isGet := rfl
  keyLen_ne := by decide
  payload_ne := by simp

theorem contents_longStore :
    contents .little longStore ⟨[107], by decide⟩ = some ⟨5, 7, 9, some longValue⟩ := by
  have hrequest : (Call.setWithMeta .ok (Buf.ofBytes [107]) 5 7 (Buf.ofBytes longValue.1) 9).request
      7 = some (⟨[107], by decide⟩, ⟨5, 7, 9, some longValue⟩) :=
    requested_ofBytes ⟨[107], by decide⟩ ⟨5, 7, 9, some longValue⟩
  rw [longStore, Call.contents_exec 7 wellFormed_empty, hrequest,
    AbstractStore.write_of_lt rfl (by simp), Function.update_self]

/-- A client sets a value of 4097 bytes, and the response to a legacy GET of it
overruns the buffer. -/
theorem legacyExact_fails :
    Reachable .little longStore ∧
      processLegacyRequest .little .quiet longStore legacyGet.toLegacyRequest = none ∧
      ¬ LegacyExact .little .ok longStore legacyGet := by
  have hkey : legacyGet.key.toKey? = some ⟨[107], by decide⟩ := by decide
  have hlive : FindsLive .little .ok longStore ⟨[107], by decide⟩ :=
    ⟨rfl, rfl, _, longValue, contents_longStore, rfl, .inr rfl⟩
  have hlength : longValue.1.length = 4097 := List.length_replicate
  have hlong : legacyRoom < longValue.1.length % 2 ^ 16 := by
    rw [hlength]
    decide
  refine ⟨.call 7 _ .empty, ?_, fun hexact => ?_⟩
  · rcases dbGetWithMeta_cases .little .ok longStore hkey with
      ⟨-, record, v, hr, hv, hlookup⟩ | ⟨hdead, -⟩
    · obtain rfl := Option.some.inj (contents_longStore.symm.trans hr)
      obtain rfl := Option.some.inj hv
      have hquiet : RequestEnv.quiet.bdb = .ok := rfl
      rw [processLegacyRequest_eq, hquiet, hlookup]
      simp only [legacyAnswer, legacyResp_getOut, if_pos hlong, Option.map_none]
    · exact absurd hlive hdead
  · have hle := length_le_of_legacyExact hexact hkey hlive contents_longStore
    rw [value_of_body rfl, hlength] at hle
    exact absurd hle (by decide)

/-! ## The writes of a run -/

section Writes

variable (host : Endian) (myNodeId : UInt64)

/-- The store call that the event makes. -/
def NodeEvent.call? (s : State) : NodeEvent → Option Call
  | .own bdb (.advance worker _) =>
      match s.tasks worker with
      | .setApply key value tsUse expireAt =>
          some (.setWithMeta bdb (Buf.ofBytes key.1) tsUse myNodeId (Buf.ofBytes value.1) expireAt)
      | .delApply _ key ts => some (.delKey bdb (Buf.ofBytes key) ts)
      | _ => none
  | .own _ _ => none
  | .peer bdb r =>
      if r.frame.nodeId = 0 ∨ r.frame.keyLen = 0 ∨ r.payload = none then none
      else some (syncCall bdb r)

/-- What the event writes: what its call asks for, if the call reports that it has
been applied. -/
def NodeEvent.write? (s : State) (event : NodeEvent) : Option (Key × Record) :=
  match event.call? myNodeId s with
  | none => none
  | some call =>
      if (call.exec host myNodeId s.db).1 = .applied then call.request myNodeId else none

/-- The writes that take effect in a run, in their order: client SETs, records from
peers, and deletions by clients, peers and the collector. -/
def nodeWrites (s : State) : List NodeEvent → List (Key × Record)
  | [] => []
  | event :: events =>
      (event.write? host myNodeId s).toList ++
        nodeWrites (nodeStep host myNodeId s event) events

/-- The last write of the key that takes effect in a run from the start. -/
def lastWrite (events : List NodeEvent) (k : Key) : Option Record :=
  (LastWrite.ofKey k (nodeWrites host myNodeId State.init events)).getLast?

variable {host myNodeId}

theorem db_readClock (s : State) (now : UInt64) {k : State → State}
    (hk : ∀ s : State, (k s).db = s.db) : (s.readClock now k).db = s.db := by
  unfold State.readClock
  split_ifs
  · rfl
  · exact hk _

theorem db_broadcast (s : State) (allocOk : Bool) (b : Broadcast) :
    (s.broadcast allocOk b).db = s.db := by
  unfold State.broadcast
  split_ifs <;> rfl

theorem db_start (s : State) (w : ℕ) (task : Task) : (s.start w task).db = s.db := by
  unfold State.start
  split_ifs <;> rfl

/-- The call of an event is all that it does to the store. -/
theorem db_nodeStep (s : State) (event : NodeEvent) :
    (nodeStep host myNodeId s event).db =
      (event.call? myNodeId s).elim s.db fun call => (call.exec host myNodeId s.db).2 := by
  cases event with
  | peer bdb r =>
      simp only [nodeStep, receive, NodeEvent.call?]
      split_ifs
      · rfl
      · exact (perform_frame host myNodeId s _).1
  | own bdb e =>
      cases e with
      | set w key value | del w key value =>
          simp only [nodeStep, step, NodeEvent.call?]
          split_ifs
          · exact db_start s w _
          · rfl
      | collect w =>
          simp only [nodeStep, step, NodeEvent.call?]
          split
          · rfl
          · split_ifs <;> rfl
      | scan cursorOk calls now => exact db_readClock s now fun _ => rfl
      | advance w now =>
          simp only [nodeStep, step, advance, NodeEvent.call?]
          cases s.tasks w with
          | idle => rfl
          | setReadTs | setReadExpire | delReadTs | delReadBroadcastTs =>
              exact db_readClock s now fun _ => rfl
          | setApply key value tsUse expireAt =>
              simp only
              split_ifs <;> exact (perform_frame host myNodeId s _).1
          | setEnqueue | delEnqueue => exact db_broadcast s _ _
          | delApply source key ts => exact (perform_frame host myNodeId s _).1

/-- An event stores what it writes, and nothing else. -/
theorem contents_nodeStep {s : State} (hwf : WellFormed host s.db) (event : NodeEvent) :
    contents host (nodeStep host myNodeId s event).db =
      (event.write? host myNodeId s).elim (contents host s.db) fun write =>
        Function.update (contents host s.db) write.1 (some write.2) := by
  rw [db_nodeStep, NodeEvent.write?]
  cases event.call? myNodeId s with
  | none => rfl
  | some call =>
      simp only [Option.elim_some]
      rcases call.exec_cases myNodeId hwf with ⟨k, r, hreq, -, -, hexec⟩ | ⟨hcode, hdb, -⟩
      · rw [hexec, if_pos rfl, hreq]
        exact contents_put ..
      · have hnot : (call.exec host myNodeId s.db).1 ≠ .applied := by
          rcases hcode with h | h <;> simp [h]
        rw [if_neg hnot, hdb]
        rfl

theorem wellFormed_nodeStep {s : State} (hwf : WellFormed host s.db) (event : NodeEvent) :
    WellFormed host (nodeStep host myNodeId s event).db := by
  rw [db_nodeStep]
  cases event.call? myNodeId s with
  | none => exact hwf
  | some call => exact call.wellFormed_exec hwf

theorem contents_foldl_nodeStep {s : State} (hwf : WellFormed host s.db)
    (events : List NodeEvent) (k : Key) :
    contents host (events.foldl (nodeStep host myNodeId) s).db k =
      (LastWrite.ofKey k (nodeWrites host myNodeId s events)).getLast?.or
        (contents host s.db k) := by
  induction events generalizing s with
  | nil => rfl
  | cons event events ih =>
      rw [List.foldl_cons, ih (wellFormed_nodeStep hwf event), contents_nodeStep hwf, nodeWrites,
        LastWrite.ofKey_append, List.getLast?_append]
      cases event.write? host myNodeId s with
      | none => simp [LastWrite.ofKey]
      | some write =>
          -- a write of another key leaves `k` alone
          by_cases hkey : k = write.1
          · subst hkey
            simp [LastWrite.ofKey]
          · simp [LastWrite.ofKey, Function.update_of_ne hkey, Ne.symm hkey]

/-- **What a key holds after a run is the last write of it that took effect.** -/
theorem contents_nodeRun (events : List NodeEvent) (k : Key) :
    contents host (nodeRun host myNodeId events).db k = lastWrite host myNodeId events k := by
  have hempty : contents host State.init.db k = none := by simp [State.init]
  rw [nodeRun, contents_foldl_nodeStep wellFormed_empty events k, hempty, Option.or_none]
  rfl

end Writes

/-! ## Expired records -/

/-- A GET of either kind. -/
inductive GetRequest
  | modern (r : ModernRequest) (isGet : r.frame.opcode = Opcode.get.code)
  | legacy (r : LegacyGet)

namespace GetRequest

def key : GetRequest → Buf
  | modern r _ => r.key
  | legacy r => r.key

/-- The request is answered with status `OK`. -/
def AnswersOk (host : Endian) (myNodeId : UInt64) (env : RequestEnv) (db : Database) :
    GetRequest → Prop
  | modern r _ =>
      -- without a key `process_frame` drops the request
      r.frame.keyLen ≠ 0 ∧ (answer host myNodeId env db r myNodeId false).status = .ok
  | legacy r => ∃ served, processLegacyRequest host env db r.toLegacyRequest = some served ∧
      served.rc = 0

/-- A response with the value of the record can be built. -/
def Fits (record : Record) : GetRequest → Prop
  | modern _ _ => True
  | legacy _ => record.value.length % 2 ^ 16 ≤ legacyRoom

end GetRequest

theorem legacyResp_eq_none_iff (status : Status) (record : Record) (v : Value) :
    legacyResp status (UInt16.ofNat (record.getOut v).valueLen) (record.getOut v).value = none ↔
      legacyRoom < v.1.length % 2 ^ 16 := by
  rw [legacyResp_getOut]
  by_cases hlong : legacyRoom < v.1.length % 2 ^ 16
  · rw [if_pos hlong]
    exact iff_of_true rfl hlong
  · rw [if_neg hlong]
    exact iff_of_false (Option.some_ne_none _) hlong

theorem answersOk_modern_iff (host : Endian) (myNodeId : UInt64) (env : RequestEnv)
    (db : Database) (r : ModernRequest) (isGet : r.frame.opcode = Opcode.get.code) :
    (GetRequest.modern r isGet).AnswersOk host myNodeId env db ↔
      ∃ k, r.key.toKey? = some k ∧ FindsLive host env.bdb db k := by
  have hanswer : answer host myNodeId env db r myNodeId false = answerGet host env db r :=
    if_pos isGet
  simp only [GetRequest.AnswersOk, hanswer, answerGet]
  rcases lookup_cases host env.bdb db r.key with
    ⟨k, record, v, hkey, hlive, -, -, hlookup⟩ | ⟨hdead, hlookup⟩
  · have hkeyLen : r.frame.keyLen ≠ 0 := by
      rintro hzero
      unfold Buf.toKey? at hkey
      rw [dif_pos (.inr (.inl (by simp [ModernRequest.key, hzero])))] at hkey
      exact absurd hkey (by simp)
    rw [hlookup]
    exact iff_of_true ⟨hkeyLen, rfl⟩ ⟨k, hkey, hlive⟩
  · refine iff_of_false ?_ ?_
    · rintro ⟨-, hstatus⟩
      rcases hlookup with hlookup | hlookup <;> rw [hlookup] at hstatus <;>
        exact absurd hstatus (by simp [Answer.plain])
    · rintro ⟨k, hkey, hlive⟩
      exact hdead k hkey hlive

theorem answersOk_legacy_iff (host : Endian) (myNodeId : UInt64) (env : RequestEnv)
    (db : Database) (r : LegacyGet) :
    (GetRequest.legacy r).AnswersOk host myNodeId env db ↔
      ∃ k record, r.key.toKey? = some k ∧ FindsLive host env.bdb db k ∧
        contents host db k = some record ∧ record.value.length % 2 ^ 16 ≤ legacyRoom := by
  simp only [GetRequest.AnswersOk, processLegacyRequest_eq]
  rcases lookup_cases host env.bdb db r.key with
    ⟨k, record, v, hkey, hlive, hr, hv, hlookup⟩ | ⟨hdead, hlookup⟩
  · have hnone := legacyResp_eq_none_iff .ok record v
    rw [hlookup]
    simp only [legacyAnswer]
    constructor
    · rintro ⟨served, hserved, -⟩
      obtain ⟨resp, hresp, -⟩ := Option.map_eq_some_iff.mp hserved
      refine ⟨k, record, hkey, hlive, hr, not_lt.mp fun hlong => ?_⟩
      rw [value_of_body hv] at hlong
      rw [hnone.mpr hlong] at hresp
      exact absurd hresp (by simp)
    · rintro ⟨k', record', hkey', -, hr', hroom⟩
      obtain rfl := Option.some.inj (hkey.symm.trans hkey')
      obtain rfl := Option.some.inj (hr.symm.trans hr')
      rw [value_of_body hv] at hroom
      obtain ⟨resp, hresp⟩ := Option.ne_none_iff_exists'.mp (mt hnone.mp (not_lt.mpr hroom))
      exact ⟨_, by rw [hresp, Option.map_some], rfl⟩
  · refine iff_of_false ?_ ?_
    · rintro ⟨served, hserved, hrc⟩
      obtain ⟨resp, -, rfl⟩ := Option.map_eq_some_iff.mp hserved
      rcases hlookup with hlookup | hlookup <;> rw [hlookup] at hrc <;>
        exact absurd hrc (by simp [legacyAnswer])
    · rintro ⟨k, -, hkey, hlive, -⟩
      exact hdead k hkey hlive

/-- A GET is answered with `OK` exactly if its lookup finds a live record for
which a response can be built. -/
theorem answersOk_iff (host : Endian) (myNodeId : UInt64) (env : RequestEnv) (db : Database)
    (get : GetRequest) :
    get.AnswersOk host myNodeId env db ↔
      ∃ k record, get.key.toKey? = some k ∧ FindsLive host env.bdb db k ∧
        contents host db k = some record ∧ get.Fits record := by
  cases get with
  | legacy r => exact answersOk_legacy_iff host myNodeId env db r
  | modern r isGet =>
      rw [answersOk_modern_iff]
      constructor
      · rintro ⟨k, hkey, hlive⟩
        have ⟨_, _, record, _, hr, _⟩ := hlive
        exact ⟨k, record, hkey, hlive, hr, trivial⟩
      · rintro ⟨k, record, hkey, hlive, -⟩
        exact ⟨k, hkey, hlive⟩

/-- A GET at time `now` is answered with `OK` only for a record that has not
expired by then. -/
def ServesUnexpired (host : Endian) (myNodeId : UInt64) (env : RequestEnv) (db : Database)
    (get : GetRequest) (now : UInt64) : Prop :=
  get.AnswersOk host myNodeId env db →
    ∃ k record, get.key.toKey? = some k ∧ contents host db k = some record ∧ now ≤ record.expireAt

/-- On any store, a GET spares expired records exactly if it finds none. -/
theorem servesUnexpired_iff_of_db (host : Endian) (myNodeId : UInt64) (env : RequestEnv)
    (db : Database) (get : GetRequest) (now : UInt64) :
    ServesUnexpired host myNodeId env db get now ↔
      ∀ k record, get.key.toKey? = some k → FindsLive host env.bdb db k →
        contents host db k = some record → get.Fits record → now ≤ record.expireAt := by
  unfold ServesUnexpired
  rw [answersOk_iff]
  constructor
  · intro h k record hkey hlive hr hfits
    obtain ⟨k', record', hkey', hr', hle⟩ := h ⟨k, record, hkey, hlive, hr, hfits⟩
    obtain rfl := Option.some.inj (hkey.symm.trans hkey')
    obtain rfl := Option.some.inj (hr.symm.trans hr')
    exact hle
  · rintro h ⟨k, record, hkey, hlive, hr, hfits⟩
    exact ⟨k, record, hkey, hr, h k record hkey hlive hr hfits⟩

/-- The GET can be answered with the record: the record is no deletion, the calls of
the lookup succeed, and a response with the value can be built. -/
def GetRequest.Answerable (get : GetRequest) (bdb : Bdb) (record : Record) : Prop :=
  bdb.handle = true ∧ bdb.getOk = true ∧
    (∃ v, record.body = some v ∧ (v.1 = [] ∨ bdb.allocOk = true)) ∧ get.Fits record

/-- **Expired records are served until they are collected.**  After every run of
a node, a GET at time `now` is answered with `OK` only for a record that has not
expired if and only if the last write of its key that took effect, if the GET can
be answered with it at all, has not expired. -/
theorem servesUnexpired_iff (host : Endian) (myNodeId : UInt64) (events : List NodeEvent)
    (env : RequestEnv) (get : GetRequest) (now : UInt64) :
    ServesUnexpired host myNodeId env (nodeRun host myNodeId events).db get now ↔
      ∀ k record, get.key.toKey? = some k → lastWrite host myNodeId events k = some record →
        get.Answerable env.bdb record → now ≤ record.expireAt := by
  rw [servesUnexpired_iff_of_db]
  constructor
  · intro h k record hkey hlast hanswerable
    obtain ⟨hhandle, hget, ⟨v, hv, hmemory⟩, hfits⟩ := hanswerable
    have hr := (contents_nodeRun events k).trans hlast
    exact h k record hkey ⟨hhandle, hget, record, v, hr, hv, hmemory⟩ hr hfits
  · intro h k record hkey hlive hr hfits
    obtain ⟨hhandle, hget, record', v, hr', hv, hmemory⟩ := hlive
    obtain rfl := Option.some.inj (hr'.symm.trans hr)
    exact h k record' hkey ((contents_nodeRun events k).symm.trans hr)
      ⟨hhandle, hget, ⟨v, hv, hmemory⟩, hfits⟩

/-- A client sets a key at time 10, to expire at time 3600000010; no scan comes by. -/
def unscanned : List NodeEvent :=
  [.own Bdb.ok (.set 0 [107] [118]), .own Bdb.ok (.advance 0 10), .own Bdb.ok (.advance 0 10),
    .own Bdb.ok (.advance 0 10), .own Bdb.ok (.advance 0 10)]

/-- At time 3600000020 both kinds of GET still serve the key. -/
theorem servesUnexpired_fails :
    let modernGet : ClientCall := ⟨Opcode.get.code, 0, 0, ⟨[107], by decide⟩, ⟨[], by decide⟩⟩
    ¬ ServesUnexpired .little 1 .quiet (nodeRun .little 1 unscanned).db
      (.modern modernGet.request rfl) 3600000020 ∧
    ¬ ServesUnexpired .little 1 .quiet (nodeRun .little 1 unscanned).db (.legacy legacyGet)
      3600000020 := by
  intro modernGet
  have hr : contents .little (nodeRun .little 1 unscanned).db ⟨[107], by decide⟩ =
      some ⟨10, 1, 3600000010, some ⟨[118], by decide⟩⟩ := by decide +kernel
  have hlive : FindsLive .little .ok (nodeRun .little 1 unscanned).db ⟨[107], by decide⟩ :=
    ⟨rfl, rfl, _, _, hr, rfl, .inr rfl⟩
  have hexpired : ¬ (3600000020 : UInt64) ≤ 3600000010 := by decide
  constructor
  · intro h
    exact hexpired ((servesUnexpired_iff_of_db _ _ _ _ _ _).mp h _ _ modernGet.toKey?_request hlive
      hr trivial)
  · intro h
    have hkey : legacyGet.key.toKey? = some ⟨[107], by decide⟩ := by decide
    have hfits : ([118] : Bytes).length % 2 ^ 16 ≤ legacyRoom := by decide
    exact hexpired ((servesUnexpired_iff_of_db _ _ _ _ _ _).mp h _ _ hkey hlive hr hfits)

end Dmmr.Node
