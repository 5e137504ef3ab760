import Dmmr.Node.Client
import Dmmr.Store.Readers

/-!
# One request, one response

A client may send its next request before the answer to the last one has
arrived.  Then the boundaries between the requests are known only from their
lengths, and the answers are matched to the requests only by their order: each
request has to be consumed to its last byte and answered exactly once
(`OneResponseEach`).

Two early returns break this.  `process_frame` returns without a response when
the key is empty, and `read_frame` leaves the payload of a legacy request other
than GET on the connection, where it is read as the next request.  A third
request ends worse: the answer to a legacy GET is built in a buffer of fixed
size.  `Fits` excludes the three, and `oneResponseEach_iff` says that nothing else
can go wrong.
-/

namespace Dmmr.Node

open Words Store Wire Segments

/-! ## Responses -/

/-- The bytes are one complete response to the request. -/
def IsResponse : ClientRequest → Bytes → Prop
  | .modern _, bytes => ∃ (status : Status) (payload : Bytes), payload.length < 2 ^ 32 ∧
      bytes = responseHeader status (UInt32.ofNat payload.length) ++ payload
  | .legacy _, bytes => ∃ (status : Status) (payload : Bytes), payload.length < 2 ^ 16 ∧
      bytes = legacyHeader status (UInt16.ofNat payload.length) ++ payload

/-- The log of a connection has exactly the given requests, in order, and one
complete response to each. -/
def OneResponseEach (messages : List ClientMessage) (log : Option (List Exchange)) : Prop :=
  ∃ exchanges, log = some exchanges ∧
    exchanges.map Exchange.request = messages.map ClientMessage.request ∧
    ∀ e ∈ exchanges, IsResponse e.request e.served.written

/-- Nothing but the store may fail while a request is served. -/
structure RequestEnv.Healthy (env : RequestEnv) : Prop where
  payload : env.payloadOk = true
  header : Accepts env.headerSends (4 + legacyRoom)
  body : Accepts env.payloadSends maxValueLen

/-- Nothing fails and no other thread writes. -/
def RequestEnv.quiet : RequestEnv where
  interfere := id
  payloadOk := true
  bdb := Bdb.ok
  now := fun _ => 0
  cmdOk := true
  headerSends := [.wrote (4 + legacyRoom)]
  payloadSends := [.wrote maxValueLen]

theorem RequestEnv.healthy_quiet : RequestEnv.quiet.Healthy :=
  ⟨rfl, accepts_wrote _, accepts_wrote _⟩

/-! ## Modern requests -/

theorem toKey?_modernRequest (opcode flags : UInt16) (timestamp : UInt64) (k : Key)
    {value : Bytes} (hvalue : value.length ≤ maxValueLen) :
    (modernRequest opcode flags timestamp k.2.2 hvalue).key.toKey? = some k := by
  have hlen : (UInt32.ofNat k.1.length).toNat = k.1.length := toNat_keyLen k.2.2
  have hptr : payloadPtr (k.1 ++ value) = some (k.1 ++ value) := if_neg (by simp [k.2.1])
  unfold Buf.toKey?
  rw [dif_neg]
  · simp [Buf.bytes, ModernRequest.key, modernRequest, modernHeader, hptr, hlen]
  · simp [ModernRequest.key, modernRequest, modernHeader, hptr, hlen, k.2.1, k.2.2]

variable (host : Endian) (myNodeId : UInt64)

/-- The payload of an answer has the announced length. -/
def Answer.Consistent (a : Answer) : Prop :=
  (a.payload.getD []).length = a.len.toNat ∧ a.len.toNat ≤ maxValueLen

theorem Answer.consistent_plain (status : Status) (db : Database) (enqueued : Option ControlCmd) :
    (Answer.plain status db enqueued).Consistent :=
  ⟨rfl, Nat.zero_le _⟩

theorem consistent_answerGet (env : RequestEnv) (db : Database) (r : ModernRequest) :
    (answerGet host env db r).Consistent := by
  unfold answerGet
  split
  · rename_i out hget
    obtain ⟨hlen, hmax⟩ := length_value_of_dbGetWithMeta hget
    refine ⟨?_, ?_⟩
    · simp only [hlen, toNat_valueLen hmax]
    · simpa only [toNat_valueLen hmax] using hmax
  · exact Answer.consistent_plain ..
  · exact Answer.consistent_plain ..

theorem consistent_answer (env : RequestEnv) (db : Database) (r : ModernRequest)
    (sourceNodeId : UInt64) (fromPeer : Bool) :
    (answer host myNodeId env db r sourceNodeId fromPeer).Consistent := by
  unfold answer
  split_ifs
  · exact consistent_answerGet host env db r
  · unfold answerSet
    simp only
    split_ifs <;> exact Answer.consistent_plain ..
  · exact Answer.consistent_plain ..
  · exact Answer.consistent_plain ..

/-- A consistent answer is sent as one response. -/
theorem Answer.send_eq {a : Answer} (ha : a.Consistent) {env : RequestEnv} (henv : env.Healthy) :
    a.send env = ⟨0, responseHeader a.status a.len ++ a.payload.getD [], a.db, a.enqueued⟩ := by
  have hheader : writeAll env.headerSends (responseHeader a.status a.len) =
      (responseHeader a.status a.len, true) :=
    writeAll_of_accepts (henv.header.mono (by simp [responseHeader, legacyRoom]))
  unfold Answer.send
  rw [hheader]
  obtain ⟨hlen, hmax⟩ := ha
  cases hpayload : a.payload with
  | none => simp
  | some payload =>
      rw [hpayload, Option.getD_some] at hlen
      have htake : payload.take a.len.toNat = payload := List.take_of_length_le hlen.le
      have hbody : writeAll env.payloadSends payload = (payload, true) :=
        writeAll_of_accepts (henv.body.mono (hlen.trans_le hmax))
      by_cases hzero : a.len = 0
      · obtain rfl : payload = [] := List.length_eq_zero_iff.mp (by rw [hlen, hzero]; rfl)
        simp [hzero]
      · simp [hzero, htake, hbody]

/-- A request that `read_frame` has accepted is answered unless its key is
empty. -/
theorem processFrame_eq (env : RequestEnv) (db : Database) {r : ModernRequest}
    (hkey : r.frame.keyLen ≠ 0) (sourceNodeId : UInt64) (fromPeer : Bool) :
    processFrame host myNodeId env db r sourceNodeId fromPeer =
      (answer host myNodeId env db r sourceNodeId fromPeer).send env := by
  unfold processFrame
  rw [if_neg]
  rintro (h | h | h)
  · exact hkey h
  · exact absurd r.keyLen_le (not_le.mpr h)
  · exact absurd r.valueLen_le (not_le.mpr h)

theorem isResponse_processFrame {env : RequestEnv} (henv : env.Healthy) (db : Database)
    {r : ModernRequest} (hkey : r.frame.keyLen ≠ 0) (sourceNodeId : UInt64) (fromPeer : Bool) :
    IsResponse (.modern r) (processFrame host myNodeId env db r sourceNodeId fromPeer).written := by
  have ha := consistent_answer host myNodeId env db r sourceNodeId fromPeer
  rw [processFrame_eq host myNodeId env db hkey, Answer.send_eq ha henv]
  generalize answer host myNodeId env db r sourceNodeId fromPeer = a at ha
  refine ⟨a.status, a.payload.getD [], ?_, ?_⟩
  · rw [ha.1]
    exact a.len.toNat_lt
  · rw [ha.1, UInt32.ofNat_toNat]

/-! ## Legacy requests -/

/-- A legacy response that fits the buffer is sent as a whole. -/
theorem sendLegacyResponse_eq {env : RequestEnv} (henv : env.Healthy) (status : Status)
    {len : ℕ} {payload : Option Bytes} (hlen : (payload.getD []).length = len)
    (hroom : len % 2 ^ 16 ≤ legacyRoom) :
    sendLegacyResponse env status (UInt16.ofNat len) payload =
      some (legacyHeader status (UInt16.ofNat len) ++ (payload.getD []).take (len % 2 ^ 16)) := by
  have hnat : (UInt16.ofNat len).toNat = len % 2 ^ 16 := UInt16.toNat_ofNat'
  unfold sendLegacyResponse
  rw [hnat, if_neg]
  · rw [writeAll_of_accepts (henv.header.mono _)]
    simp only [legacyHeader, List.length_append, Endian.length_bytes, List.length_take]
    omega
  · rintro (h | ⟨hne, hnone⟩)
    · exact absurd hroom (not_le.mpr h)
    · rw [hnone] at hlen
      exact hne (hlen ▸ rfl)

/-- Such a response is one response. -/
theorem isResponse_legacy {r : LegacyRequest} (status : Status) {len : ℕ} {payload : Bytes}
    (hlen : payload.length = len) :
    IsResponse (.legacy r)
      (legacyHeader status (UInt16.ofNat len) ++ payload.take (len % 2 ^ 16)) := by
  have htake : (payload.take (len % 2 ^ 16)).length = len % 2 ^ 16 := by
    rw [List.length_take, hlen]
    exact Nat.min_eq_left (Nat.mod_le _ _)
  refine ⟨status, payload.take (len % 2 ^ 16), ?_, ?_⟩
  · rw [htake]
    exact Nat.mod_lt _ (by decide)
  · rw [htake]
    congr 2
    apply UInt16.toNat_inj.mp
    simp

/-- The value found under the key, if one is found, fits the buffer of
`send_legacy_response` once its length is reduced to 16 bits. -/
def LegacyFits (bdb : Bdb) (db : Database) (key : Buf) : Prop :=
  ∀ out, dbGetWithMeta host bdb db key = (.applied, some out) → out.valueLen % 2 ^ 16 ≤ legacyRoom

theorem processLegacyRequest_of_fits {env : RequestEnv} (henv : env.Healthy) {db : Database}
    {r : LegacyRequest} (hfits : LegacyFits host env.bdb db r.key) :
    ∃ served, processLegacyRequest host env db r = some served ∧
      IsResponse (.legacy r) served.written := by
  have hplain : ∀ status, sendLegacyResponse env status 0 none =
      some (legacyHeader status (UInt16.ofNat 0) ++ ([] : Bytes).take (0 % 2 ^ 16)) := fun status =>
    @sendLegacyResponse_eq env henv status 0 none rfl (Nat.zero_le _)
  have hresponse : ∀ status, IsResponse (.legacy r)
      (legacyHeader status (UInt16.ofNat 0) ++ ([] : Bytes).take (0 % 2 ^ 16)) := fun status =>
    isResponse_legacy status rfl
  unfold processLegacyRequest
  split_ifs
  · rw [hplain]
    exact ⟨_, rfl, hresponse _⟩
  · split
    · rename_i out hget
      obtain ⟨hlen, -⟩ := length_value_of_dbGetWithMeta hget
      rw [sendLegacyResponse_eq henv .ok hlen (hfits out hget)]
      exact ⟨_, rfl, isResponse_legacy .ok hlen⟩
    · rw [hplain]
      exact ⟨_, rfl, hresponse _⟩
    · rw [hplain]
      exact ⟨_, rfl, hresponse _⟩

/-- A legacy GET of any other value overruns the buffer. -/
theorem processLegacyRequest_of_not_fits (env : RequestEnv) {db : Database} {r : LegacyRequest}
    (hopcode : r.opcode = Opcode.get.code) (hkey : r.keyLen ≠ 0) (hpayload : r.payload ≠ none)
    (hfits : ¬ LegacyFits host env.bdb db r.key) : processLegacyRequest host env db r = none := by
  unfold LegacyFits at hfits
  push Not at hfits
  obtain ⟨out, hget, hroom⟩ := hfits
  have hnat : (UInt16.ofNat out.valueLen).toNat = out.valueLen % 2 ^ 16 := UInt16.toNat_ofNat'
  have hoverrun : sendLegacyResponse env .ok (UInt16.ofNat out.valueLen) out.value = none :=
    if_pos (Or.inl (hnat ▸ hroom))
  unfold processLegacyRequest
  rw [if_neg (by simp [hopcode, hkey, hpayload])]
  simp only [hget, hoverrun, Option.map_none]

/-! ## One request -/

/-- The request leaves no bytes behind, gets a response, and the response fits
its buffer. -/
def Fits (bdb : Bdb) (db : Database) : ClientMessage → Prop
  | .modern _ _ _ key _ _ _ => key ≠ []
  | .legacy opcode payload _ _ =>
      payload = [] ∨ (opcode = Opcode.get.code ∧ LegacyFits host bdb db (Buf.ofBytes payload))

/-- A message that fits is read as it was sent. -/
theorem readFrame_of_fits {bdb : Bdb} {db : Database} {m : ClientMessage}
    (hfits : Fits host bdb db m) {calls : List (ReadCall UInt8)} {rest : Bytes}
    (h : Delivers calls (m.toBytes ++ rest)) :
    ∃ calls', readFrame true calls = some (m.request, calls') ∧ Delivers calls' rest := by
  cases m with
  | modern => exact readFrame_modern h
  | legacy opcode payload hlen hlegacy => exact readFrame_legacy (hfits.symm.imp_left And.left) h

/-- A message that fits is answered once. -/
theorem serve_of_fits {env : RequestEnv} (henv : env.Healthy) {db : Database} {m : ClientMessage}
    (hfits : Fits host env.bdb db m) :
    ∃ served, serve host myNodeId env db m.request = some served ∧
      IsResponse m.request served.written := by
  cases m with
  | modern opcode flags timestamp key value hkey hvalue =>
      have hne := keyLen_modernRequest_ne_zero opcode flags timestamp hkey hvalue hfits
      exact ⟨_, rfl, isResponse_processFrame host myNodeId henv db hne myNodeId false⟩
  | legacy opcode payload hlen hlegacy =>
      apply processLegacyRequest_of_fits host henv
      rw [key_legacyRequest opcode hlen]
      rcases hfits with rfl | ⟨-, hfits⟩
      · intro out hget
        simp [dbGetWithMeta, Buf.ofBytes] at hget
      · exact hfits

/-- One round of `handle_client` on a message that fits. -/
theorem handleClient_of_fits {env : RequestEnv} (henv : env.Healthy) (envs : List RequestEnv)
    {db : Database} {m : ClientMessage} (hfits : Fits host env.bdb (env.interfere db) m)
    {calls : List (ReadCall UInt8)} {rest : Bytes} (h : Delivers calls (m.toBytes ++ rest)) :
    ∃ served calls', serve host myNodeId env (env.interfere db) m.request = some served ∧
      IsResponse m.request served.written ∧ Delivers calls' rest ∧
      handleClient host myNodeId (env :: envs) calls db =
        (handleClient host myNodeId envs calls' served.db).map fun log =>
          ⟨m.request, served⟩ :: log := by
  obtain ⟨calls', hread, hcalls'⟩ := readFrame_of_fits host hfits h
  obtain ⟨served, hserve, hresponse⟩ := serve_of_fits host myNodeId henv hfits
  refine ⟨served, calls', hserve, hresponse, hcalls', ?_⟩
  rw [handleClient, henv.payload]
  simp only [hread, hserve]

/-- If all goes well, the first request is the first message and has been
answered. -/
theorem served_of_oneResponseEach {env : RequestEnv} (henv : env.Healthy)
    {envs : List RequestEnv} {db : Database} {m : ClientMessage} {ms : List ClientMessage}
    {calls calls' : List (ReadCall UInt8)} {request : ClientRequest}
    (hread : readFrame true calls = some (request, calls'))
    (hone : OneResponseEach (m :: ms) (handleClient host myNodeId (env :: envs) calls db)) :
    request = m.request ∧ ∃ served,
      serve host myNodeId env (env.interfere db) request = some served ∧
        IsResponse request served.written ∧
        OneResponseEach ms (handleClient host myNodeId envs calls' served.db) := by
  obtain ⟨exchanges, hlog, hrequests, hresponses⟩ := hone
  rw [handleClient, henv.payload] at hlog
  simp only [hread] at hlog
  cases hserve : serve host myNodeId env (env.interfere db) request with
  | none => simp [hserve] at hlog
  | some served =>
      simp only [hserve, Option.map_eq_some_iff] at hlog
      obtain ⟨log, hlog, rfl⟩ := hlog
      rw [List.map_cons, List.map_cons] at hrequests
      obtain ⟨hfirst, hothers⟩ := List.cons.inj hrequests
      exact ⟨hfirst, served, rfl, hresponses _ List.mem_cons_self, log, hlog, hothers,
        fun e he => hresponses e (List.mem_cons_of_mem _ he)⟩

/-- A message that does not fit breaks the exchange. -/
theorem fits_of_oneResponseEach {env : RequestEnv} (henv : env.Healthy) {envs : List RequestEnv}
    {db : Database} {m : ClientMessage} {ms : List ClientMessage}
    {calls : List (ReadCall UInt8)} {rest : Bytes} (h : Delivers calls (m.toBytes ++ rest))
    (hone : OneResponseEach (m :: ms) (handleClient host myNodeId (env :: envs) calls db)) :
    Fits host env.bdb (env.interfere db) m := by
  cases m with
  | modern opcode flags timestamp key value hkey hvalue =>
      -- with an empty key nothing is written
      rintro rfl
      obtain ⟨calls', hread, -⟩ := readFrame_modern h
      obtain ⟨-, served, hserve, ⟨status, payload, -, hwritten⟩, -⟩ :=
        served_of_oneResponseEach host myNodeId henv hread hone
      rw [← Option.some.inj hserve] at hwritten
      simp [processFrame, modernRequest, modernHeader, responseHeader] at hwritten
  | legacy opcode payload hlen hlegacy =>
      by_cases hnil : payload = []
      · exact Or.inl hnil
      by_cases hopcode : opcode = Opcode.get.code
      · refine Or.inr ⟨hopcode, ?_⟩
        by_contra hfits
        rw [← key_legacyRequest opcode hlen] at hfits
        obtain ⟨calls', hread, -⟩ := readFrame_legacy (Or.inl hopcode) h
        obtain ⟨-, served, hserve, -⟩ := served_of_oneResponseEach host myNodeId henv hread hone
        have hnone := processLegacyRequest_of_not_fits host env hopcode
          (legacyLen_ne_zero hlen hnil) (mt (payloadPtr_eq_none_iff payload).mp hnil) hfits
        exact absurd (hserve.symm.trans hnone) (by simp)
      · -- the request as it is read has lost its payload
        obtain ⟨calls', hread, -⟩ := readFrame_unread hopcode h
        have hrequest := (served_of_oneResponseEach host myNodeId henv hread hone).1
        simp [ClientMessage.request, legacyRequest, payloadPtr, hnil] at hrequest

/-! ## Whole connections -/

/-- Every message fits the store its request finds. -/
def AllFit : List RequestEnv → List ClientMessage → Database → Prop
  | env :: envs, m :: ms, db =>
      Fits host env.bdb (env.interfere db) m ∧
        ∀ served ∈ serve host myNodeId env (env.interfere db) m.request,
          AllFit envs ms served.db
  | _, _, _ => True

/-- **One request, one response.**  Messages sent back to back and cut
arbitrarily are interpreted as sent and answered once each, exactly when each of
them fits. -/
theorem oneResponseEach_iff (messages : List ClientMessage) (envs : List RequestEnv)
    (calls : List (ReadCall UInt8)) (db : Database)
    (hcalls : Delivers calls (messages.flatMap ClientMessage.toBytes))
    (hlen : messages.length < envs.length) (henvs : ∀ env ∈ envs, env.Healthy) :
    OneResponseEach messages (handleClient host myNodeId envs calls db) ↔
      AllFit host myNodeId envs messages db := by
  induction messages generalizing envs calls db with
  | nil =>
      obtain ⟨env, envs, rfl⟩ := List.exists_cons_of_length_pos hlen
      refine iff_of_true ⟨[], ?_, rfl, by simp⟩ trivial
      rw [handleClient, readFrame_end env.payloadOk hcalls]
  | cons m ms ih =>
      obtain ⟨env, envs, rfl⟩ := List.exists_cons_of_length_pos (Nat.zero_lt_of_lt hlen)
      have henv := henvs env List.mem_cons_self
      have ih' : ∀ calls' db', Delivers calls' (ms.flatMap ClientMessage.toBytes) →
          (OneResponseEach ms (handleClient host myNodeId envs calls' db') ↔
            AllFit host myNodeId envs ms db') := fun calls' db' hcalls' =>
        ih envs calls' db' hcalls' (Nat.lt_of_succ_lt_succ hlen)
          fun env' henv' => henvs env' (List.mem_cons_of_mem _ henv')
      rw [List.flatMap_cons] at hcalls
      constructor
      · intro hone
        have hfits := fits_of_oneResponseEach host myNodeId henv hcalls hone
        obtain ⟨calls', hread, hcalls'⟩ := readFrame_of_fits host hfits hcalls
        obtain ⟨-, served, hserve, -, hrest⟩ :=
          served_of_oneResponseEach host myNodeId henv hread hone
        refine ⟨hfits, fun served' hserved' => ?_⟩
        rw [hserve] at hserved'
        rw [← Option.some.inj hserved']
        exact (ih' calls' served.db hcalls').mp hrest
      · rintro ⟨hfits, hrest⟩
        obtain ⟨served, calls', hserve, hresponse, hcalls', hround⟩ :=
          handleClient_of_fits host myNodeId henv envs hfits hcalls
        obtain ⟨log, hlog, hrequests, hresponses⟩ :=
          (ih' calls' served.db hcalls').mpr (hrest served hserve)
        refine ⟨_, by rw [hround, hlog, Option.map_some], by simp [hrequests], ?_⟩
        intro e he
        rcases List.mem_cons.mp he with rfl | he
        · exact hresponse
        · exact hresponses e he

/-- A modern and a legacy GET, cut in the middle of the first. -/
theorem oneResponseEach_two :
    let modern := ClientMessage.modern 1 0 0 [107] [] (by decide) (by decide)
    let legacy := ClientMessage.legacy 1 [107] (by decide) (by decide)
    let stream := modern.toBytes ++ legacy.toBytes
    OneResponseEach [modern, legacy] (handleClient .little 1 [.quiet, .quiet, .quiet]
      [.got (stream.take 9), .interrupted, .got (stream.drop 9)] OrderedMap.empty) := by
  refine (oneResponseEach_iff .little 1 _ _ _ _ ?_ (by decide) ?_).mpr ?_
  · exact ⟨by decide, _, rfl, by decide, [], rfl, rfl⟩
  · simp [RequestEnv.healthy_quiet]
  · refine ⟨List.cons_ne_nil _ _, fun served hserved => ?_⟩
    -- the first GET leaves the store empty
    obtain rfl := Option.some.inj hserved
    refine ⟨Or.inr ⟨rfl, fun out hget => ?_⟩, fun _ _ => trivial⟩
    exact DbResult.noConfusion (Prod.mk.inj hget).1

/-- **The payload of a legacy SET is taken for requests of its own.** -/
theorem oneResponseEach_fails :
    ∃ (messages : List ClientMessage) (envs : List RequestEnv) (calls : List (ReadCall UInt8)),
      Delivers calls (messages.flatMap ClientMessage.toBytes) ∧ messages.length < envs.length ∧
        (∀ env ∈ envs, env.Healthy) ∧
        ¬ OneResponseEach messages (handleClient .little 1 envs calls OrderedMap.empty) := by
  let m := ClientMessage.legacy Opcode.set.code [0, 1, 0, 1, 65] (by decide) (by decide)
  have hcalls : Delivers [.got m.toBytes] (m.toBytes ++ []) := ⟨by decide, [], rfl, rfl⟩
  refine ⟨[m], [.quiet, .quiet], [.got m.toBytes], hcalls, by decide,
    by simp [RequestEnv.healthy_quiet], ?_⟩
  intro hone
  rcases fits_of_oneResponseEach .little 1 RequestEnv.healthy_quiet hcalls hone with h | ⟨h, -⟩
  · exact absurd h (by decide)
  · exact absurd h (by decide)

end Dmmr.Node
