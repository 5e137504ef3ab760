import Dmmr.Node.Ledger
import Dmmr.Node.PlainMap

/-!
# What an answer tells the client

Two requests are looked at one by one, on any store and with any outcome of the
Berkeley DB calls.

* A write should be answered OK exactly when it has been stored and announced to
  the peers, and with an error when it has left no trace (`WriteAgrees`).  For a
  SET this is so.  A DEL is announced before its result is looked at, and with a
  clock reading of its own; `writeAgrees_iff` says when this does no harm.
* The legacy GET should answer as the modern one does (`GetsAgree`).  It compares
  the result of the lookup with numbers that are not those of `enum
  dmmr_db_result`: a miss is answered as an error and a failure as a miss, so that
  the two agree on hits only (`getsAgree_iff`).
-/

namespace Dmmr.Node

open Words Store Wire Segments

variable (host : Endian) (myNodeId : UInt64)

/-! ## Writes -/

/-- What `process_frame` answers, `none` if it returns without an answer. -/
def answered (env : RequestEnv) (db : Database) (r : ModernRequest) (sourceNodeId : UInt64)
    (fromPeer : Bool) : Option Answer :=
  if r.frame.keyLen = 0 ∨ r.frame.keyLen.toNat > maxKeyLen ∨ r.frame.valueLen.toNat > maxValueLen
  then none
  else some (answer host myNodeId env db r sourceNodeId fromPeer)

theorem processFrame_of_answered {env : RequestEnv} {db : Database} {r : ModernRequest}
    {sourceNodeId : UInt64} {fromPeer : Bool} {a : Answer}
    (h : answered host myNodeId env db r sourceNodeId fromPeer = some a) :
    processFrame host myNodeId env db r sourceNodeId fromPeer = a.send env := by
  unfold answered at h
  unfold processFrame
  split_ifs at h ⊢
  rw [Option.some.inj h]

/-- The key and the record a client write asks to store: a SET its value with two
readings of the clock, a DEL a tombstone. -/
def clientWrite (env : RequestEnv) (r : ModernRequest) : Option (Key × Record) :=
  if r.frame.opcode = Opcode.del.code then
    requested r.key (env.now 0) myNodeId 0 true Buf.null
  else requested r.key (env.now 0) myNodeId (env.now 1 + ttlDefault) false r.value

/-- Answer, store and replication agree on a client write: an error leaves the
store as it was and announces nothing; OK means that the key holds the new record,
and that the command carrying this very record is enqueued if there is room. -/
def WriteAgrees (env : RequestEnv) (db : Database) (r : ModernRequest) : Prop :=
  ∀ a, answered host myNodeId env db r myNodeId false = some a →
    (a.status = .error →
      (processFrame host myNodeId env db r myNodeId false).db = db ∧
      (processFrame host myNodeId env db r myNodeId false).enqueued = none) ∧
    (a.status = .ok → ∃ k record, clientWrite myNodeId env r = some (k, record) ∧
      contents host (processFrame host myNodeId env db r myNodeId false).db k = some record ∧
      (env.cmdOk = true →
        (processFrame host myNodeId env db r myNodeId false).enqueued = some (announce k record)))

/-- The deletion takes effect, and the clock has not advanced when it is
announced. -/
def DeletesInstantly (env : RequestEnv) (db : Database) (r : ModernRequest) : Prop :=
  env.bdb.succeeds = true ∧ outranks host db r.key.bytes (env.now 0) myNodeId = true ∧
    env.now 1 = env.now 0

variable {host myNodeId}

section Writes

variable {r : ModernRequest} (hkey : r.frame.keyLen ≠ 0)
include hkey

theorem ptr_key_ne_none : r.key.ptr ≠ none := by
  intro hnone
  have hzero := r.payload_none.mp hnone
  have hne : r.frame.keyLen.toNat ≠ 0 := fun h => hkey (UInt32.toNat_inj.mp h)
  omega

/-- The store accepts the arguments of a SET. -/
theorem acceptable_set : Acceptable r.key false r.value where
  keyPtr := ptr_key_ne_none hkey
  keyLen_ne := fun h => hkey (UInt32.toNat_inj.mp h)
  keyLen_le := r.keyLen_le
  valueLen_le := r.valueLen_le
  valueLen_tombstone := by simp
  valuePtr := by
    intro _
    by_cases hzero : r.frame.valueLen.toNat = 0
    · exact Or.inl hzero
    · have hptr : r.payload ≠ none := ptr_key_ne_none hkey
      exact Or.inr (by simp [ModernRequest.value, Nat.pos_of_ne_zero hzero, hptr])

/-- The store accepts the arguments of a DEL. -/
theorem acceptable_del : Acceptable r.key true Buf.null where
  keyPtr := ptr_key_ne_none hkey
  keyLen_ne := fun h => hkey (UInt32.toNat_inj.mp h)
  keyLen_le := r.keyLen_le
  valueLen_le := Nat.zero_le _
  valueLen_tombstone := fun _ => rfl
  valuePtr := by simp

end Writes

/-- The command built from the arguments of a write announces its record. -/
theorem enqueueBroadcast_eq {key value : Buf} {tombstone : Bool}
    (h : Acceptable key tombstone value) (timestamp nodeId expireAt : UInt64) :
    enqueueBroadcast key value timestamp nodeId expireAt
        (if tombstone then flagTombstone else flagNone) =
      announce h.toKey (h.toRecord timestamp nodeId expireAt) := by
  have hkeyTake : key.bytes.take maxKeyLen = key.bytes :=
    List.take_of_length_le (h.length_key.trans_le h.keyLen_le)
  have hvalueTake : value.bytes.take maxValueLen = value.bytes :=
    List.take_of_length_le (h.length_value.trans_le h.valueLen_le)
  have hnil : value.len = 0 → value.bytes = [] := fun hzero =>
    List.length_eq_zero_iff.mp (h.length_value.trans hzero)
  cases tombstone with
  | true =>
      have hlen := h.valueLen_tombstone rfl
      simp [enqueueBroadcast, announce, Acceptable.toKey, Acceptable.toRecord, Record.tombstone,
        Record.value, hkeyTake, hlen]
  | false =>
      by_cases hzero : value.len = 0
      · simp [enqueueBroadcast, announce, Acceptable.toKey, Acceptable.toRecord, Record.tombstone,
          Record.value, hkeyTake, hzero, hnil hzero]
      · have hptr : value.ptr ≠ none := (h.valuePtr rfl).resolve_left hzero
        simp [enqueueBroadcast, announce, Acceptable.toKey, Acceptable.toRecord, Record.tombstone,
          Record.value, hkeyTake, hvalueTake, hptr, Nat.pos_of_ne_zero hzero]

/-- The property in terms of what the `switch` of `process_frame` decides. -/
theorem writeAgrees_iff_answer {env : RequestEnv} {db : Database} {r : ModernRequest}
    (hkey : r.frame.keyLen ≠ 0) {a : Answer}
    (ha : answer host myNodeId env db r myNodeId false = a) :
    WriteAgrees host myNodeId env db r ↔
      (a.status = .error → a.db = db ∧ a.enqueued = none) ∧
      (a.status = .ok → ∃ k record, clientWrite myNodeId env r = some (k, record) ∧
        contents host a.db k = some record ∧
        (env.cmdOk = true → a.enqueued = some (announce k record))) := by
  have hanswered : answered host myNodeId env db r myNodeId false = some a := by
    unfold answered
    rw [if_neg, ha]
    rintro (h | h | h)
    · exact hkey h
    · exact absurd r.keyLen_le (not_le.mpr h)
    · exact absurd r.valueLen_le (not_le.mpr h)
  obtain ⟨hdb, henqueued⟩ := a.effects_send env
  unfold WriteAgrees
  rw [processFrame_of_answered host myNodeId hanswered, hdb, henqueued, hanswered]
  constructor
  · exact fun h => h a rfl
  · rintro h a' ha'
    rw [← Option.some.inj ha']
    exact h

/-- A SET is announced after it has been stored, with the record it stored. -/
theorem writeAgrees_set (env : RequestEnv) (db : Database) {r : ModernRequest}
    (hkey : r.frame.keyLen ≠ 0) (hop : r.frame.opcode = Opcode.set.code) :
    WriteAgrees host myNodeId env db r := by
  have hacc := acceptable_set hkey
  have hwrite : clientWrite myNodeId env r =
      some (hacc.toKey, hacc.toRecord (env.now 0) myNodeId (env.now 1 + ttlDefault)) := by
    unfold clientWrite
    rw [if_neg (by rw [hop]; decide)]
    exact dif_pos hacc
  have hanswer : answer host myNodeId env db r myNodeId false =
      answerSet host myNodeId env db r myNodeId false := by
    unfold answer
    rw [if_neg (by rw [hop]; decide), if_pos (Or.inl hop)]
  rw [writeAgrees_iff_answer hkey hanswer]
  simp only [answerSet, dbSetWithMeta, Bool.false_eq_true, if_false]
  rcases dbApplyRecord_any host env.bdb db hacc (env.now 0) myNodeId (env.now 1 + ttlDefault) with
    ⟨-, -, happlied⟩ | ⟨-, hcode, hsame⟩
  · rw [happlied]
    simp only [if_true]
    refine ⟨by simp [Answer.plain], fun _ => ⟨_, _, hwrite, ?_, ?_⟩⟩
    · show contents host (db.put _ _) _ = _
      rw [contents_put, Function.update_self]
    · intro hcmd
      have hcommand := enqueueBroadcast_eq hacc (env.now 0) myNodeId (env.now 1 + ttlDefault)
      simp only [Bool.false_eq_true, if_false] at hcommand
      simp [Answer.plain, RequestEnv.enqueue, hcmd, hcommand]
  · rw [if_neg hcode, hsame]
    exact ⟨fun _ => ⟨rfl, rfl⟩, by simp [Answer.plain]⟩

/-- A DEL is announced whatever became of it, with a reading of its own. -/
theorem writeAgrees_del_iff (env : RequestEnv) (db : Database) {r : ModernRequest}
    (hkey : r.frame.keyLen ≠ 0) (hop : r.frame.opcode = Opcode.del.code) :
    WriteAgrees host myNodeId env db r ↔
      env.cmdOk = false ∨ DeletesInstantly host myNodeId env db r := by
  have hacc := acceptable_del hkey
  have hwrite : clientWrite myNodeId env r =
      some (hacc.toKey, hacc.toRecord (env.now 0) myNodeId 0) := by
    unfold clientWrite
    rw [if_pos hop]
    exact dif_pos hacc
  have hanswer : answer host myNodeId env db r myNodeId false =
      answerDel host myNodeId env db r false := by
    unfold answer
    rw [if_neg (by rw [hop]; decide), if_neg (by rw [hop]; decide), if_pos hop]
  have hcommand := enqueueBroadcast_eq hacc (env.now 1) myNodeId 0
  simp only [if_true] at hcommand
  rw [writeAgrees_iff_answer hkey hanswer]
  simp only [answerDel, Bool.false_eq_true, if_false, RequestEnv.enqueue, hcommand, Answer.plain,
    hwrite]
  unfold DeletesInstantly
  have hcases := dbApplyRecord_any host env.bdb db hacc (env.now 0) myNodeId 0
  rw [show dbApplyRecord host env.bdb db r.key (env.now 0) myNodeId 0 true Buf.null =
    dbDelKey host myNodeId env.bdb db r.key (env.now 0) from rfl] at hcases
  rcases hcases with ⟨hok, hwins, happlied⟩ | ⟨hlost, hcode, hsame⟩
  · -- the deletion is stored, and the command names the second reading
    have hstored : contents host (db.put hacc.toKey.1
        ((hacc.toRecord (env.now 0) myNodeId 0).blob host)) hacc.toKey =
        some (hacc.toRecord (env.now 0) myNodeId 0) := by
      rw [contents_put, Function.update_self]
    rw [happlied]
    simp only [if_true, reduceCtorEq, false_implies, true_and, true_implies, hok, hwins]
    cases hcmd : env.cmdOk with
    | false =>
        refine iff_of_true ⟨_, _, rfl, hstored, by simp⟩ (Or.inl rfl)
    | true =>
        constructor
        · rintro ⟨k, record, heq, -, hsent⟩
          obtain ⟨rfl, rfl⟩ := Prod.mk.inj (Option.some.inj heq)
          have hts := congrArg (Option.map ControlCmd.ts) (hsent rfl)
          exact Or.inr (Option.some.inj hts)
        · rintro (h | h)
          · exact absurd h (by simp)
          · refine ⟨_, _, rfl, hstored, fun _ => ?_⟩
            rw [h]
            rfl
  · -- the deletion is not stored: it must not be announced
    rw [if_neg hcode, hsame]
    simp only [true_and, reduceCtorEq, false_implies, and_true, true_implies]
    cases env.cmdOk with
    | false => simp
    | true =>
        refine iff_of_false (by simp) ?_
        rintro (h | ⟨hok, hwins, -⟩)
        · exact absurd h (by simp)
        · exact hlost ⟨hok, hwins⟩

/-- **When answer, store and replication agree.**  For a SET always.  For a DEL
exactly when no command can be enqueued, or the deletion takes effect and the
clock reads the same when it is announced. -/
theorem writeAgrees_iff (host : Endian) (myNodeId : UInt64) (env : RequestEnv) (db : Database)
    {r : ModernRequest}
    (hop : r.frame.opcode = Opcode.set.code ∨ r.frame.opcode = Opcode.del.code) :
    WriteAgrees host myNodeId env db r ↔
      r.frame.opcode = Opcode.set.code ∨ r.frame.keyLen = 0 ∨ env.cmdOk = false ∨
        DeletesInstantly host myNodeId env db r := by
  by_cases hkey : r.frame.keyLen = 0
  · -- `process_frame` returns without an answer
    refine iff_of_true ?_ (Or.inr (Or.inl hkey))
    intro a ha
    unfold answered at ha
    rw [if_pos (Or.inl hkey)] at ha
    exact absurd ha (by simp)
  · rcases hop with hop | hop
    · exact iff_of_true (writeAgrees_set env db hkey hop) (Or.inl hop)
    · have hset : r.frame.opcode ≠ Opcode.set.code := by rw [hop]; decide
      rw [writeAgrees_del_iff env db hkey hop]
      simp only [hset, hkey, false_or]

/-- A DEL on an empty store while the clock stands still. -/
theorem writeAgrees_iff_still :
    WriteAgrees .little 7 .quiet OrderedMap.empty
      (@modernRequest Opcode.del.code 0 0 [107] [] (by decide) (by decide)) :=
  (writeAgrees_iff .little 7 .quiet OrderedMap.empty (Or.inr rfl)).mpr
    (Or.inr (Or.inr (Or.inr ⟨rfl, rfl, rfl⟩)))

/-- A DEL whose write fails: the client is told of an error, and the peers are
told to delete the key. -/
theorem writeAgrees_fails :
    ¬ WriteAgrees .little 7 { RequestEnv.quiet with bdb := ⟨true, true, true, false⟩ }
      OrderedMap.empty
      (@modernRequest Opcode.del.code 0 0 [107] [] (by decide) (by decide)) := by
  rw [writeAgrees_del_iff _ _ (by decide) rfl]
  rintro (h | ⟨h, -⟩)
  · exact absurd h (by decide)
  · exact absurd h (by decide)

/-! ## The two kinds of GET -/

/-- The lookup finds a live value under the key: the handle is open, the read
succeeds and brings up a valid entry that is not a tombstone, and there is memory
for its value. -/
def FindsLive (host : Endian) (bdb : Bdb) (db : Database) (k : Key) : Prop :=
  bdb.handle = true ∧ bdb.getOk = true ∧
    ∃ r v, contents host db k = some r ∧ r.body = some v ∧ (v.1 = [] ∨ bdb.allocOk = true)

/-- The two answers have the same status and the same value bytes. -/
def GetsAgree (legacy : Option Served) (modern : Served) : Prop :=
  ∃ served status value, legacy = some served ∧
    served.written = legacyHeader status (UInt16.ofNat value.length) ++ value ∧
    modern.written = responseHeader status (UInt32.ofNat value.length) ++ value

/-- A lookup that does not find a live value reports a miss or a failure. -/
theorem dbGetWithMeta_cases (host : Endian) (bdb : Bdb) (db : Database) {key : Buf} {k : Key}
    (hkey : key.toKey? = some k) :
    (FindsLive host bdb db k ∧ ∃ r v, contents host db k = some r ∧ r.body = some v ∧
        dbGetWithMeta host bdb db key = (.applied, some (r.getOut v))) ∨
      (¬ FindsLive host bdb db k ∧ (dbGetWithMeta host bdb db key = (.notFound, none) ∨
        dbGetWithMeta host bdb db key = (.error, none))) := by
  rw [dbGetWithMeta_any bdb db hkey]
  unfold FindsLive contents
  cases hhandle : bdb.handle with
  | false => exact Or.inr ⟨by simp, Or.inr rfl⟩
  | true =>
      cases hread : bdb.getOk with
      | false => exact Or.inr ⟨by simp, Or.inr rfl⟩
      | true =>
          simp only [Bool.not_true, Bool.or_self, Bool.false_eq_true, if_false, true_and]
          cases db.get? k.1 with
          | none => exact Or.inr ⟨by simp, Or.inl rfl⟩
          | some data =>
              simp only [Option.map_some, Option.bind_some]
              cases decodeRecord host data with
              | none => exact Or.inr ⟨by simp, Or.inr rfl⟩
              | some r =>
                  cases hbody : r.body with
                  | none => exact Or.inr ⟨by simp [hbody], Or.inl (by simp [hbody])⟩
                  | some v =>
                      by_cases hmemory : v.1 = [] ∨ bdb.allocOk = true
                      · have hno : ¬ (v.1 ≠ [] ∧ bdb.allocOk = false) := by
                          rintro ⟨hne, hfalse⟩
                          rcases hmemory with h | h
                          · exact hne h
                          · rw [hfalse] at h
                            exact absurd h (by simp)
                        exact Or.inl ⟨⟨r, v, rfl, hbody, hmemory⟩, r, v, rfl, hbody,
                          by simp only [hbody, if_neg hno]⟩
                      · have hno : v.1 ≠ [] ∧ bdb.allocOk = false := by
                          rw [not_or, Bool.not_eq_true] at hmemory
                          exact hmemory
                        refine Or.inr ⟨?_, Or.inr (by simp only [hbody, if_pos hno])⟩
                        rintro ⟨r', v', hr, hv, hmem⟩
                        rw [← Option.some.inj hr, hbody] at hv
                        rw [← Option.some.inj hv] at hmem
                        exact hmemory hmem

theorem status_of_legacy {status status' : Status} {len len' : UInt16} {value value' : Bytes}
    (h : legacyHeader status len ++ value = legacyHeader status' len' ++ value') :
    status = status' := by
  have hstart := congrArg (List.take 2) h
  simp only [legacyHeader, List.append_assoc, List.take_left' (Endian.length_bytes ..)] at hstart
  revert hstart
  cases status <;> cases status' <;> decide

theorem status_of_response {status status' : Status} {len len' : UInt32} {value value' : Bytes}
    (h : responseHeader status len ++ value = responseHeader status' len' ++ value') :
    status = status' := by
  have hstart := congrArg (List.take 2) h
  simp only [responseHeader, List.append_assoc, List.take_left' (Endian.length_bytes ..)] at hstart
  revert hstart
  cases status <;> cases status' <;> decide

/-- Answers with different statuses do not agree. -/
theorem not_getsAgree {served modern : Served} {status status' : Status} (hne : status ≠ status')
    {len : UInt16} {len' : UInt32} {value value' : Bytes}
    (hlegacy : served.written = legacyHeader status len ++ value)
    (hmodern : modern.written = responseHeader status' len' ++ value') :
    ¬ GetsAgree (some served) modern := by
  rintro ⟨served', common, bytes, hserved, hlegacy', hmodern'⟩
  rw [← Option.some.inj hserved, hlegacy] at hlegacy'
  rw [hmodern] at hmodern'
  exact hne ((status_of_legacy hlegacy').trans (status_of_response hmodern').symm)

theorem value_getOut (r : Record) (v : Value) : (r.getOut v).value.getD [] = v.1 := by
  unfold Record.getOut
  by_cases hnil : v.1 = [] <;> simp [hnil]

theorem length_key_lt (k : Key) : k.1.length < 2 ^ 16 := k.2.2.trans_lt (by decide)

/-- What the legacy GET answers to the three results of a lookup. -/
theorem processLegacyRequest_get (host : Endian) {env : RequestEnv} (henv : env.Healthy)
    (db : Database) (k : Key) :
    (∀ r v, v.1.length ≤ legacyRoom →
      dbGetWithMeta host env.bdb db (Buf.ofBytes k.1) = (.applied, some (Record.getOut r v)) →
      ∃ served, processLegacyRequest host env db
          (legacyRequest Opcode.get.code (length_key_lt k)) = some served ∧
        served.written = legacyHeader .ok (UInt16.ofNat v.1.length) ++ v.1) ∧
    (dbGetWithMeta host env.bdb db (Buf.ofBytes k.1) = (.notFound, none) →
      ∃ served, processLegacyRequest host env db
          (legacyRequest Opcode.get.code (length_key_lt k)) = some served ∧
        served.written = legacyHeader .error 0 ++ []) ∧
    (dbGetWithMeta host env.bdb db (Buf.ofBytes k.1) = (.error, none) →
      ∃ served, processLegacyRequest host env db
          (legacyRequest Opcode.get.code (length_key_lt k)) = some served ∧
        served.written = legacyHeader .notFound 0 ++ []) := by
  have hplain : ∀ status, sendLegacyResponse env status 0 none =
      some (legacyHeader status 0 ++ []) := fun status =>
    @sendLegacyResponse_eq env henv status 0 none rfl (Nat.zero_le _)
  have hguard : ¬ ((legacyRequest Opcode.get.code (length_key_lt k)).opcode ≠ Opcode.get.code ∨
      (legacyRequest Opcode.get.code (length_key_lt k)).keyLen = 0 ∨
      (legacyRequest Opcode.get.code (length_key_lt k)).payload = none) := by
    rintro (h | h | h)
    · exact h rfl
    · exact legacyLen_ne_zero (length_key_lt k) k.2.1 h
    · exact k.2.1 ((payloadPtr_eq_none_iff _).mp h)
  unfold processLegacyRequest
  rw [if_neg hguard, key_legacyRequest]
  refine ⟨?_, ?_, ?_⟩
  · intro r v hroom hget
    rw [hget]
    have hlen : ((r.getOut v).value.getD []).length = (r.getOut v).valueLen :=
      congrArg List.length (value_getOut r v)
    have hmod : (r.getOut v).valueLen % 2 ^ 16 = v.1.length :=
      Nat.mod_eq_of_lt (hroom.trans_lt (by decide))
    simp only [sendLegacyResponse_eq henv .ok hlen (hmod.trans_le hroom), Option.map_some,
      value_getOut, hmod, List.take_length]
    exact ⟨_, rfl, rfl⟩
  · intro hget
    rw [hget]
    simp only [hplain, Option.map_some]
    exact ⟨_, rfl, rfl⟩
  · intro hget
    rw [hget]
    simp only [hplain, Option.map_some]
    exact ⟨_, rfl, rfl⟩

/-- What the modern GET answers to them. -/
theorem processFrame_get_any (host : Endian) (myNodeId : UInt64) {env : RequestEnv}
    (henv : env.Healthy) (db : Database) {c : ClientCall} (hget : c.opcode = Opcode.get.code)
    (sourceNodeId : UInt64) (fromPeer : Bool) :
    (∀ r v, dbGetWithMeta host env.bdb db c.request.key = (.applied, some (Record.getOut r v)) →
      (processFrame host myNodeId env db c.request sourceNodeId fromPeer).written =
        responseHeader .ok (UInt32.ofNat v.1.length) ++ v.1) ∧
    (dbGetWithMeta host env.bdb db c.request.key = (.notFound, none) →
      (processFrame host myNodeId env db c.request sourceNodeId fromPeer).written =
        responseHeader .notFound 0 ++ []) ∧
    (dbGetWithMeta host env.bdb db c.request.key = (.error, none) →
      (processFrame host myNodeId env db c.request sourceNodeId fromPeer).written =
        responseHeader .error 0 ++ []) := by
  have hanswer : answer host myNodeId env db c.request sourceNodeId fromPeer =
      answerGet host env db c.request := if_pos hget
  rw [processFrame_eq host myNodeId env db c.keyLen_ne_zero, hanswer,
    Answer.send_eq (consistent_answerGet host env db c.request) henv]
  unfold answerGet
  refine ⟨?_, ?_, ?_⟩
  · intro r v hlookup
    rw [hlookup]
    simp only [value_getOut]
    rfl
  · intro hlookup
    rw [hlookup]
    rfl
  · intro hlookup
    rw [hlookup]
    rfl

/-- **The two kinds of GET agree on hits only.**  On any store, for any key whose
value fits a legacy response, and whatever Berkeley DB does, the legacy GET answers
with the status and the bytes of the modern one exactly when the lookup finds a
live value. -/
theorem getsAgree_iff (host : Endian) (myNodeId : UInt64) {env : RequestEnv} (henv : env.Healthy)
    (db : Database) {c : ClientCall} (hget : c.opcode = Opcode.get.code)
    (hshort : ∀ r, contents host db c.key = some r → r.value.length ≤ legacyRoom)
    (sourceNodeId : UInt64) (fromPeer : Bool) :
    GetsAgree
        (processLegacyRequest host env db (legacyRequest Opcode.get.code (length_key_lt c.key)))
        (processFrame host myNodeId env db c.request sourceNodeId fromPeer) ↔
      FindsLive host env.bdb db c.key := by
  obtain ⟨hhit, hmiss, hfail⟩ := processLegacyRequest_get host henv db c.key
  obtain ⟨hhit', hmiss', hfail'⟩ :=
    processFrame_get_any host myNodeId henv db hget sourceNodeId fromPeer
  have hsame : dbGetWithMeta host env.bdb db c.request.key =
      dbGetWithMeta host env.bdb db (Buf.ofBytes c.key.1) := by
    rw [dbGetWithMeta_any env.bdb db c.toKey?_request,
      dbGetWithMeta_any env.bdb db (Buf.toKey?_ofBytes c.key)]
  rw [hsame] at hhit' hmiss' hfail'
  rcases dbGetWithMeta_cases host env.bdb db (Buf.toKey?_ofBytes c.key) with
    ⟨hlive, r, v, hr, hv, hlookup⟩ | ⟨hdead, hlookup | hlookup⟩
  · have hroom : v.1.length ≤ legacyRoom := by
      have h := hshort r hr
      rwa [Record.value, hv] at h
    obtain ⟨served, hserved, hwritten⟩ := hhit r v hroom hlookup
    exact iff_of_true ⟨served, .ok, v.1, hserved, hwritten, hhit' r v hlookup⟩ hlive
  · -- a miss
    obtain ⟨served, hserved, hlegacy⟩ := hmiss hlookup
    rw [hserved]
    exact iff_of_false (not_getsAgree (by decide) hlegacy (hmiss' hlookup)) hdead
  · -- a failure
    obtain ⟨served, hserved, hlegacy⟩ := hfail hlookup
    rw [hserved]
    exact iff_of_false (not_getsAgree (by decide) hlegacy (hfail' hlookup)) hdead

/-- The GETs of a key that has a value agree. -/
theorem getsAgree_iff_hit :
    GetsAgree
      (processLegacyRequest .little .quiet
        (OrderedMap.empty.put [107] (Record.blob .little ⟨5, 7, 9, some ⟨[118], by decide⟩⟩))
        (legacyRequest Opcode.get.code (length_key_lt ⟨[107], by decide⟩)))
      (processFrame .little 7 .quiet
        (OrderedMap.empty.put [107] (Record.blob .little ⟨5, 7, 9, some ⟨[118], by decide⟩⟩))
        (ClientCall.request ⟨Opcode.get.code, 0, 0, ⟨[107], by decide⟩, ⟨[], by decide⟩⟩) 7
        false) := by
  have hheld : contents .little (OrderedMap.empty.put [107]
      (Record.blob .little ⟨5, 7, 9, some ⟨[118], by decide⟩⟩)) ⟨[107], by decide⟩ =
      some ⟨5, 7, 9, some ⟨[118], by decide⟩⟩ := by decide +kernel
  refine (getsAgree_iff .little 7 RequestEnv.healthy_quiet _
    (c := ⟨Opcode.get.code, 0, 0, ⟨[107], by decide⟩, ⟨[], by decide⟩⟩) rfl ?_ 7 false).mpr
    ⟨rfl, rfl, ⟨5, 7, 9, some ⟨[118], by decide⟩⟩, ⟨[118], by decide⟩, hheld, rfl, Or.inr rfl⟩
  intro r hr
  rw [hheld] at hr
  rw [← Option.some.inj hr]
  decide

/-- On an empty store the modern GET answers that there is no such key, the legacy
one that there was an error. -/
theorem getsAgree_fails :
    ¬ GetsAgree
      (processLegacyRequest .little .quiet OrderedMap.empty
        (legacyRequest Opcode.get.code (length_key_lt ⟨[107], by decide⟩)))
      (processFrame .little 7 .quiet OrderedMap.empty
        (ClientCall.request ⟨Opcode.get.code, 0, 0, ⟨[107], by decide⟩, ⟨[], by decide⟩⟩) 7
        false) := by
  obtain ⟨served, hserved, hlegacy⟩ := (processLegacyRequest_get .little RequestEnv.healthy_quiet
    OrderedMap.empty ⟨[107], by decide⟩).2.1 rfl
  have hmodern := (processFrame_get_any .little 7 RequestEnv.healthy_quiet OrderedMap.empty
    (c := ⟨Opcode.get.code, 0, 0, ⟨[107], by decide⟩, ⟨[], by decide⟩⟩) rfl 7 false).2.1 rfl
  rw [hserved]
  exact not_getsAgree (by decide) hlegacy hmodern

end Dmmr.Node
