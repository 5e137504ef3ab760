import Dmmr.Cluster.Locks

/-!
# The format of a peer list

A peer list is a count and that many entries, each with an identifier, a port and
an address behind its length.  `parse_peer_list` walks over it with a running
offset and tests every step against the length of the payload.  `parsePeerListAt`
is this walk, with `none` for a byte read outside the payload: that never happens,
and the walk is `parsePeerList` (`parsePeerListAt_eq`).  What it accepts is the
format exactly (`rc_parsePeerList_eq_zero_iff`).

The entries go to `add_peer_with_node` one by one, before the rest of the payload
has been looked at.  A list that is found to be malformed has then been taken over
as far as it was good (`parsedTable_eq_iff`).
-/

namespace Dmmr.Cluster

open Words Store Wire Node

/-! ## The walk over the payload -/

/-- The `n` bytes at `offset`; `none` if they do not all belong to the payload. -/
def slice? (payload : Bytes) (offset n : ℕ) : Option Bytes :=
  if offset + n ≤ payload.length then some ((payload.drop offset).take n) else none

/-- One turn of the loop.  The outer `none` is a byte outside the payload, the inner
one a `return -1`. -/
def peerEntryAt (payload : Bytes) (offset : ℕ) : Option (Option (Endpoint × ℕ)) :=
  if offset + 8 + 2 + 1 > payload.length then some none
  else do
    let netNodeId ← slice? payload offset 8
    let netPort ← slice? payload (offset + 8) 2
    let addrLen ← slice? payload (offset + 8 + 2) 1
    let addrLen := (addrLen.headD 0).toNat
    let offset := offset + 8 + 2 + 1
    if addrLen = 0 ∨ offset + addrLen > payload.length then some none
    else
      let addr ← slice? payload offset addrLen
      some (some (⟨cString addr, UInt16.ofNat (Endian.big.word netPort),
        UInt64.ofNat (Endian.big.word netNodeId)⟩, offset + addrLen))

/-- The loop: the entries read, and the offset behind the last one if all of them
could be. -/
def peerEntriesAt (payload : Bytes) : ℕ → ℕ → Option (List Endpoint × Option ℕ)
  | 0, offset => some ([], some offset)
  | n + 1, offset => do
      match ← peerEntryAt payload offset with
      | none => some ([], none)
      | some (endpoint, offset) =>
          let (endpoints, rest) ← peerEntriesAt payload n offset
          some (endpoint :: endpoints, rest)

/-- `parse_peer_list` on the bytes of a payload, all of them. -/
def parsePeerListAt (cfg : NodeConfig) (payload : Bytes) : Option ParsedList :=
  if payload.length < 2 then some ⟨-1, [], []⟩
  else do
    let netCount ← slice? payload 0 2
    let (endpoints, offset) ← peerEntriesAt payload (Endian.big.word netCount) 2
    some ⟨if offset = some payload.length then 0 else -1, endpoints,
      (endpoints.filter fun e => !endpointIsSelf cfg e.addr e.port e.nodeId).take
        maxDiscoveredPeers⟩

theorem slice?_of_le {payload : Bytes} {offset n : ℕ} (h : offset + n ≤ payload.length) :
    slice? payload offset n = some ((payload.drop offset).take n) := if_pos h

/-- A turn stays inside the payload and reads the entry that is there. -/
theorem peerEntryAt_eq {payload : Bytes} {offset : ℕ} (hle : offset ≤ payload.length) :
    peerEntryAt payload offset = some ((parsePeerEntry (payload.drop offset)).map fun p =>
      (p.1, payload.length - p.2.length)) := by
  unfold peerEntryAt parsePeerEntry
  by_cases hshort : offset + 8 + 2 + 1 > payload.length
  · have hdata : (payload.drop offset).length < 8 + 2 + 1 := by
      rw [List.length_drop]
      omega
    rw [if_pos hshort, if_pos hdata]
    rfl
  · have hdata : ¬ (payload.drop offset).length < 8 + 2 + 1 := by
      rw [List.length_drop]
      omega
    have hbyte : (((payload.drop (offset + 8 + 2)).take 1).headD 0) =
        (payload.drop offset).getD 10 0 := by
      simp [List.getD_eq_getElem?_getD, List.headD_eq_head?_getD, List.head?_take]
    rw [if_neg hshort, if_neg hdata, slice?_of_le (by omega), slice?_of_le (by omega),
      slice?_of_le (by omega)]
    simp only [Option.bind_eq_bind, Option.bind_some, hbyte]
    generalize ((payload.drop offset).getD 10 0).toNat = addrLen
    have htext : ((payload.drop offset).drop 11).length = payload.length - (offset + 11) := by
      simp
    by_cases hbad : addrLen = 0 ∨ offset + 8 + 2 + 1 + addrLen > payload.length
    · rw [if_pos hbad, if_pos (by rw [htext]; omega)]
      rfl
    · rw [if_neg hbad, if_neg (by rw [htext]; omega), slice?_of_le (by omega)]
      simp only [Option.bind_some, Option.map_some, Endian.field, List.drop_drop,
        List.length_drop]
      congr 4
      omega

/-! ## The format -/

/-- An entry: eight bytes for the identifier, two for the port, one for the length
of the address, which is not zero, and the address. -/
def IsPeerEntry (entry : Bytes) : Prop :=
  ∃ nodeId port addr : Bytes, nodeId.length = 8 ∧ port.length = 2 ∧ 1 ≤ addr.length ∧
    addr.length ≤ 255 ∧ entry = nodeId ++ (port ++ (UInt8.ofNat addr.length :: addr))

/-- A list: a count of two bytes, that many entries, and nothing else. -/
def IsPeerList (payload : Bytes) : Prop :=
  ∃ entries : List Bytes, entries.length < 2 ^ 16 ∧ (∀ entry ∈ entries, IsPeerEntry entry) ∧
    payload = Endian.big.bytes 2 entries.length ++ entries.flatten

/-- The endpoint in an entry. -/
def entryEndpoint (entry : Bytes) : Endpoint :=
  ⟨cString (entry.drop 11), UInt16.ofNat (Endian.big.field 8 2 entry),
    UInt64.ofNat (Endian.big.field 0 8 entry)⟩

/-- An entry is known by its length and by the byte in front of the address. -/
theorem isPeerEntry_iff (entry : Bytes) :
    IsPeerEntry entry ↔ 11 < entry.length ∧ entry.length = 11 + (entry.getD 10 0).toNat := by
  constructor
  · rintro ⟨nodeId, port, addr, hid, hport, hpos, hle, rfl⟩
    have hbyte : ((nodeId ++ (port ++ (UInt8.ofNat addr.length :: addr))).getD 10 0).toNat =
        addr.length := by
      rw [List.getD_eq_getElem?_getD, List.getElem?_append_right (by omega),
        List.getElem?_append_right (by omega), hid, hport]
      simpa using Nat.lt_succ_of_le hle
    rw [hbyte]
    simp only [List.length_append, List.length_cons, hid, hport]
    omega
  · rintro ⟨hlong, hlen⟩
    refine ⟨entry.take 8, (entry.drop 8).take 2, entry.drop 11, ?_, ?_, ?_, ?_, ?_⟩
    · simp
      omega
    · simp
      omega
    · simp
      omega
    · have := (entry.getD 10 0).toNat_lt
      rw [List.length_drop]
      omega
    · have hbyte : UInt8.ofNat (entry.drop 11).length = entry.getD 10 0 := by
        rw [List.length_drop, hlen, Nat.add_sub_cancel_left, UInt8.ofNat_toNat]
      have hrest : (entry.getD 10 0) :: entry.drop 11 = (entry.drop 8).drop 2 := by
        rw [List.drop_drop, List.getD_eq_getElem _ _ (by omega)]
        exact List.getElem_cons_drop (by omega)
      rw [hbyte, hrest, List.take_append_drop, List.take_append_drop]

/-- A field of an entry does not depend on what follows the entry. -/
theorem field_append_left {off n : ℕ} {bs : Bytes} (h : off + n ≤ bs.length) (rest : Bytes) :
    Endian.big.field off n (bs ++ rest) = Endian.big.field off n bs := by
  rw [Endian.field, Endian.field, List.drop_append_of_le_length (by omega),
    List.take_append_of_le_length (by rw [List.length_drop]; omega)]

/-- Every entry is read. -/
theorem parsePeerEntry_append {entry : Bytes} (hentry : IsPeerEntry entry) (rest : Bytes) :
    parsePeerEntry (entry ++ rest) = some (entryEndpoint entry, rest) := by
  obtain ⟨hlong, hlen⟩ := (isPeerEntry_iff entry).mp hentry
  have hbyte : (entry ++ rest).getD 10 0 = entry.getD 10 0 :=
    List.getD_append _ _ _ _ (by omega)
  have htext : (entry ++ rest).drop 11 = entry.drop 11 ++ rest :=
    List.drop_append_of_le_length (by omega)
  have haddr : (entry.drop 11).length = (entry.getD 10 0).toNat := by
    rw [List.length_drop]
    omega
  unfold parsePeerEntry
  rw [if_neg (by rw [List.length_append]; omega)]
  simp only [hbyte, htext]
  rw [if_neg (by rw [List.length_append]; omega), List.take_left' haddr, List.drop_left' haddr,
    field_append_left (by omega), field_append_left (by omega)]
  rfl

/-- What is read is an entry, and every entry is read. -/
theorem parsePeerEntry_eq_some_iff {data rest : Bytes} {endpoint : Endpoint} :
    parsePeerEntry data = some (endpoint, rest) ↔
      ∃ entry, IsPeerEntry entry ∧ data = entry ++ rest ∧ endpoint = entryEndpoint entry := by
  constructor
  · intro h
    -- the tests leave a whole entry at the start
    have htests : ¬ data.length < 8 + 2 + 1 ∧ ¬ ((data.getD 10 0).toNat = 0 ∨
        (data.drop 11).length < (data.getD 10 0).toNat) := by
      unfold parsePeerEntry at h
      by_cases hshort : data.length < 8 + 2 + 1
      · rw [if_pos hshort] at h
        exact absurd h (by simp)
      · rw [if_neg hshort] at h
        refine ⟨hshort, fun hbad => ?_⟩
        simp only [if_pos hbad] at h
        exact absurd h (by simp)
    obtain ⟨hlong, hbad⟩ := htests
    rw [List.length_drop] at hbad
    set n := (data.getD 10 0).toNat with hn
    have hlen : (data.take (11 + n)).length = 11 + n := by
      rw [List.length_take]
      omega
    have hentry : IsPeerEntry (data.take (11 + n)) := by
      rw [isPeerEntry_iff, hlen]
      refine ⟨by omega, ?_⟩
      rw [List.getD_eq_getElem?_getD, List.getElem?_take_of_lt (by omega),
        ← List.getD_eq_getElem?_getD]
    have hread := parsePeerEntry_append hentry (data.drop (11 + n))
    rw [List.take_append_drop, h] at hread
    obtain ⟨hendpoint, hrest⟩ := Prod.mk.inj (Option.some.inj hread)
    exact ⟨_, hentry, by rw [hrest, List.take_append_drop], hendpoint⟩
  · rintro ⟨entry, hentry, rfl, rfl⟩
    exact parsePeerEntry_append hentry rest

/-- The loop reads `n` entries, if there are as many. -/
theorem parsePeerEntries_snd_eq_some_iff {n : ℕ} {data rest : Bytes} :
    (parsePeerEntries n data).2 = some rest ↔
      ∃ entries : List Bytes, entries.length = n ∧ (∀ entry ∈ entries, IsPeerEntry entry) ∧
        data = entries.flatten ++ rest := by
  induction n generalizing data with
  | zero =>
      simp only [parsePeerEntries, Option.some.injEq, List.length_eq_zero_iff]
      constructor
      · intro h
        exact ⟨[], rfl, by simp, h⟩
      · rintro ⟨entries, rfl, -, h⟩
        exact h
  | succ n ih =>
      rw [parsePeerEntries]
      constructor
      · intro h
        cases hread : parsePeerEntry data with
        | none =>
            rw [hread] at h
            exact absurd h (by simp)
        | some p =>
            rw [hread] at h
            obtain ⟨entry, hentry, rfl, -⟩ := parsePeerEntry_eq_some_iff.mp hread
            obtain ⟨entries, rfl, hentries, hrest⟩ := ih.mp h
            refine ⟨entry :: entries, rfl, List.forall_mem_cons.mpr ⟨hentry, hentries⟩, ?_⟩
            rw [hrest, List.flatten_cons, List.append_assoc]
      · rintro ⟨entries, hlen, hentries, rfl⟩
        obtain ⟨entry, entries, rfl⟩ := List.exists_cons_of_length_eq_add_one hlen
        obtain ⟨hentry, hentries⟩ := List.forall_mem_cons.mp hentries
        rw [List.flatten_cons, List.append_assoc, parsePeerEntry_append hentry]
        exact ih.mpr ⟨entries, Nat.succ.inj hlen, hentries, rfl⟩

/-- **The payloads accepted are the peer lists.** -/
theorem rc_parsePeerList_eq_zero_iff (cfg : NodeConfig) (payload : Bytes) :
    (parsePeerList cfg (some payload) payload.length).rc = 0 ↔ IsPeerList payload := by
  unfold parsePeerList
  by_cases hshort : payload.length < 2
  · simp only [if_pos hshort]
    refine iff_of_false (by decide) ?_
    rintro ⟨entries, -, -, rfl⟩
    rw [List.length_append, Endian.length_bytes] at hshort
    omega
  · simp only [if_neg hshort, List.take_length]
    have hcount : ((payload.drop 0).take 2).length = 2 := by
      simp
      omega
    have hrc : ∀ rest : Option Bytes, (if rest = some [] then (0 : Int) else -1) = 0 ↔
        rest = some [] := by
      intro rest
      split_ifs with h
      · exact iff_of_true rfl h
      · exact iff_of_false (by decide) h
    rw [hrc, parsePeerEntries_snd_eq_some_iff]
    constructor
    · rintro ⟨entries, hlen, hentries, hdata⟩
      refine ⟨entries, ?_, hentries, ?_⟩
      · rw [hlen]
        exact (Endian.word_lt _ _).trans_eq (by rw [hcount]; rfl)
      · rw [hlen, Endian.field, Endian.bytes_word _ hcount, List.drop_zero, ← List.append_nil
          entries.flatten, ← hdata, List.take_append_drop]
    · rintro ⟨entries, hlen, hentries, rfl⟩
      refine ⟨entries, ?_, hentries, ?_⟩
      · rw [Endian.field_zero _ (hlen.trans_eq (by rfl))]
      · rw [List.drop_left' (Endian.length_bytes ..), List.append_nil]

/-! ## The walk and the format -/

theorem peerEntriesAt_eq {payload : Bytes} (n : ℕ) {offset : ℕ} (hle : offset ≤ payload.length) :
    peerEntriesAt payload n offset = some ((parsePeerEntries n (payload.drop offset)).1,
      (parsePeerEntries n (payload.drop offset)).2.map fun rest =>
        payload.length - rest.length) := by
  induction n generalizing offset with
  | zero =>
      simp only [peerEntriesAt, parsePeerEntries, Option.map_some, List.length_drop]
      congr 3
      omega
  | succ n ih =>
      rw [peerEntriesAt, peerEntryAt_eq hle, parsePeerEntries]
      cases hentry : parsePeerEntry (payload.drop offset) with
      | none => rfl
      | some p =>
          obtain ⟨endpoint, rest⟩ := p
          -- the next offset is where the rest of the payload begins
          have hrest : payload.drop (payload.length - rest.length) = rest := by
            obtain ⟨entry, -, hdata, -⟩ := parsePeerEntry_eq_some_iff.mp hentry
            have hsuffix : rest <:+ payload := by
              refine List.IsSuffix.trans ?_ (List.drop_suffix offset payload)
              rw [hdata]
              exact List.suffix_append entry rest
            exact (List.suffix_iff_eq_drop.mp hsuffix).symm
          simp only [Option.map_some, Option.bind_eq_bind, Option.bind_some,
            ih (Nat.sub_le _ _), hrest]

/-- **No byte outside the payload is read**, and the result is the one of
`parsePeerList`. -/
theorem parsePeerListAt_eq (cfg : NodeConfig) (payload : Bytes) :
    parsePeerListAt cfg payload = some (parsePeerList cfg (some payload) payload.length) := by
  unfold parsePeerListAt parsePeerList
  by_cases hshort : payload.length < 2
  · rw [if_pos hshort]
    simp only [if_pos hshort]
  · have hle : 2 ≤ payload.length := not_lt.mp hshort
    rw [if_neg hshort, slice?_of_le (by omega)]
    simp only [if_neg hshort, List.take_length, Option.bind_eq_bind, Option.bind_some,
      peerEntriesAt_eq _ hle, Endian.field]
    generalize hparsed : parsePeerEntries _ (payload.drop 2) = parsed
    obtain ⟨endpoints, rest⟩ := parsed
    have hend : rest.map (fun rest => payload.length - rest.length) = some payload.length ↔
        rest = some [] := by
      cases rest with
      | none => simp
      | some rest =>
          simp only [Option.map_some, Option.some.injEq, ← List.length_eq_zero_iff]
          omega
    simp only [hend]

/-- **Peer lists are written and read in one format.**  What `send_peer_list` writes
about the first 128 entries of the table is read back, less the reader itself; and of
all byte strings, each of which is read within its bounds, `parse_peer_list` accepts
those of the format. -/
theorem peerListCodec (cfg : NodeConfig) :
    (∀ (sender : NodeConfig) (peers : List Peer), (∀ p ∈ peers, p.Writable) →
      sendPeerList sender true peers =
          some (controlFrame sender .clusterPeerList (peerListPayload peers)) ∧
        ∃ parsed, parsePeerListAt cfg (peerListPayload peers) = some parsed ∧ parsed.rc = 0 ∧
          parsed.items = ((peers.take 128).map Peer.endpoint).filter fun e =>
            !endpointIsSelf cfg e.addr e.port e.nodeId) ∧
    ∀ payload : Bytes, ∃ parsed, parsePeerListAt cfg payload = some parsed ∧
      (parsed.rc = 0 ↔ IsPeerList payload) := by
  constructor
  · intro sender peers hpeers
    have hlen : (peerListPayload peers).length ≤ maxValueLen :=
      length_peerList_le fun p hp => (hpeers p hp).2.1
    refine ⟨sendPeerList_of_le sender hlen, _, parsePeerListAt_eq cfg _, ?_, ?_⟩
    · rw [parsePeerList_peerListPayload cfg hpeers]
    · rw [parsePeerList_peerListPayload cfg hpeers]
      rfl
  · intro payload
    exact ⟨_, parsePeerListAt_eq cfg payload, rc_parsePeerList_eq_zero_iff cfg payload⟩

/-! ## What a malformed list leaves behind -/

/-- What `calloc` returns and the time, in one call of `add_peer_internal`. -/
structure AddEnv where
  allocOk : Bool
  now : Int

/-- The table after `parse_peer_list`, with the `i`-th entry added in `env i`. -/
def parsedTable (cfg : NodeConfig) (env : ℕ → AddEnv) (peers : List Peer) (payload : Bytes) :
    List Peer :=
  (parsePeerList cfg (some payload) payload.length).added.zipIdx.foldl
    (fun peers e => addPeerWithNode cfg (env e.2).allocOk (env e.2).now peers e.1.addr e.1.port
      e.1.nodeId) peers

/-- If the payload is turned down, the table is as before. -/
def MalformedHarmless (cfg : NodeConfig) (peers : List Peer) (payload : Bytes) : Prop :=
  (parsePeerList cfg (some payload) payload.length).rc = -1 →
    ∀ env, parsedTable cfg env peers payload = peers

/-- Every entry the count covers, and before which there are entries only, is one that
`add_peer_internal` turns away: it has port zero or no address, or it is about the node
itself. -/
def OnlyRefused (cfg : NodeConfig) (payload : Bytes) : Prop :=
  ∀ (before : List Bytes) (entry rest : Bytes), before.length < Endian.big.field 0 2 payload →
    (∀ e ∈ before, IsPeerEntry e) → IsPeerEntry entry →
    payload.drop 2 = before.flatten ++ (entry ++ rest) →
    ¬ (entryEndpoint entry).addCall.Accepted cfg

/-- The entries passed on are those before which there are entries only. -/
theorem mem_parsePeerEntries_iff {n : ℕ} {data : Bytes} {endpoint : Endpoint} :
    endpoint ∈ (parsePeerEntries n data).1 ↔
      ∃ (before : List Bytes) (entry rest : Bytes), before.length < n ∧
        (∀ e ∈ before, IsPeerEntry e) ∧ IsPeerEntry entry ∧
        data = before.flatten ++ (entry ++ rest) ∧ endpoint = entryEndpoint entry := by
  induction n generalizing data with
  | zero => simp [parsePeerEntries]
  | succ n ih =>
      rw [parsePeerEntries]
      constructor
      · intro h
        cases hread : parsePeerEntry data with
        | none =>
            rw [hread] at h
            exact absurd h List.not_mem_nil
        | some p =>
            obtain ⟨first, data'⟩ := p
            rw [hread] at h
            obtain ⟨head, hhead, rfl, rfl⟩ := parsePeerEntry_eq_some_iff.mp hread
            rcases List.mem_cons.mp h with rfl | h
            · exact ⟨[], head, data', Nat.succ_pos n, by simp, hhead, rfl, rfl⟩
            · obtain ⟨before, entry, rest, hlen, hbefore, hentry, rfl, rfl⟩ := ih.mp h
              refine ⟨head :: before, entry, rest, Nat.succ_lt_succ hlen,
                List.forall_mem_cons.mpr ⟨hhead, hbefore⟩, hentry, ?_, rfl⟩
              rw [List.flatten_cons, List.append_assoc]
      · rintro ⟨before, entry, rest, hlen, hbefore, hentry, rfl, rfl⟩
        cases before with
        | nil =>
            rw [List.flatten_nil, List.nil_append, parsePeerEntry_append hentry]
            exact List.mem_cons_self
        | cons head before =>
            obtain ⟨hhead, hbefore⟩ := List.forall_mem_cons.mp hbefore
            rw [List.flatten_cons, List.append_assoc, parsePeerEntry_append hhead]
            exact List.mem_cons_of_mem _ (ih.mpr
              ⟨before, entry, rest, Nat.lt_of_succ_lt_succ hlen, hbefore, hentry, rfl, rfl⟩)

theorem onlyRefused_iff (cfg : NodeConfig) (payload : Bytes) :
    OnlyRefused cfg payload ↔
      ∀ e ∈ (parsePeerList cfg (some payload) payload.length).added, ¬ e.addCall.Accepted cfg := by
  by_cases hshort : payload.length < 2
  · have hadded : (parsePeerList cfg (some payload) payload.length).added = [] := by
      simp only [parsePeerList, if_pos hshort]
    rw [hadded]
    refine iff_of_true ?_ (by simp)
    -- there is no room for an entry
    intro before entry rest _ _ hentry hdata
    have hlong := ((isPeerEntry_iff entry).mp hentry).1
    have hlen := congrArg List.length hdata
    simp only [List.length_drop, List.length_append] at hlen
    omega
  have hadded : (parsePeerList cfg (some payload) payload.length).added =
      (parsePeerEntries (Endian.big.field 0 2 payload) (payload.drop 2)).1 := by
    simp only [parsePeerList, if_neg hshort, List.take_length]
  rw [hadded]
  constructor
  · intro h e he
    obtain ⟨before, entry, rest, hlen, hbefore, hentry, hdata, rfl⟩ :=
      mem_parsePeerEntries_iff.mp he
    exact h before entry rest hlen hbefore hentry hdata
  · intro h before entry rest hlen hbefore hentry hdata
    exact h _ (mem_parsePeerEntries_iff.mpr
      ⟨before, entry, rest, hlen, hbefore, hentry, hdata, rfl⟩)

section Adding

variable {cfg : NodeConfig} {e : Endpoint} {peers : List Peer} {now : Int}

theorem addPeerWithNode_of_not_accepted (he : ¬ e.addCall.Accepted cfg) (env : AddEnv) :
    addPeerWithNode cfg env.allocOk env.now peers e.addr e.port e.nodeId = peers := by
  unfold addPeerWithNode addPeerInternal
  by_cases hport : (e.port.toNat : Int) < 1 ∨ (e.port.toNat : Int) > 65535
  · rw [if_pos hport]
  · rw [if_neg hport]
    have hrefused : e.addr.length = 0 ∨ e.addr.length > peerAddrMax ∨
        endpointIsSelf cfg e.addr (UInt16.ofNat (e.port.toNat : Int).toNat) e.nodeId = true :=
      not_not.mp fun h => he ⟨hport, h⟩
    simp only [if_pos hrefused]

/-- What is accepted updates an entry, or is appended. -/
theorem addPeerWithNode_of_accepted (he : e.addCall.Accepted cfg) (now : Int)
    (peers : List Peer) :
    (∃ before p after, peers = before ++ p :: after ∧
      addPeerWithNode cfg true now peers e.addr e.port e.nodeId =
        before ++ p.update e.addr e.port e.nodeId false now :: after) ∨
      addPeerWithNode cfg true now peers e.addr e.port e.nodeId =
        peers ++ [⟨e.addr, e.port, e.nodeId, false, now⟩] := by
  obtain ⟨hport, hrefused⟩ := he
  have hport' : ¬ ((e.port.toNat : Int) < 1 ∨ (e.port.toNat : Int) > 65535) := hport
  have hrefused' : ¬ (e.addr.length = 0 ∨ e.addr.length > peerAddrMax ∨
      endpointIsSelf cfg e.addr (UInt16.ofNat (e.port.toNat : Int).toNat) e.nodeId = true) :=
    hrefused
  unfold addPeerWithNode addPeerInternal
  rw [if_neg hport']
  simp only [if_neg hrefused', if_true]
  simp only [Int.toNat_natCast, UInt16.ofNat_toNat]
  rcases updatePeer_cases e.addr e.port e.nodeId false now peers with
    ⟨-, hupdate⟩ | ⟨before, p, after, rfl, -, -, hupdate⟩
  · rw [hupdate]
    exact Or.inr rfl
  · rw [hupdate]
    exact Or.inl ⟨before, p, after, rfl, rfl⟩

/-- What is accepted leaves an entry with the time of the call. -/
theorem exists_now_of_accepted (he : e.addCall.Accepted cfg) (now : Int) (peers : List Peer) :
    ∃ p ∈ addPeerWithNode cfg true now peers e.addr e.port e.nodeId, p.lastActivity = now := by
  rcases addPeerWithNode_of_accepted he now peers with ⟨before, p, after, -, h⟩ | h
  · rw [h]
    exact ⟨_, List.mem_append_right _ List.mem_cons_self, rfl⟩
  · rw [h]
    exact ⟨_, List.mem_append_right _ List.mem_cons_self, rfl⟩

/-- A later call at that time leaves one as well. -/
theorem exists_now_addPeerWithNode (h : ∃ p ∈ peers, p.lastActivity = now) :
    ∃ p ∈ addPeerWithNode cfg true now peers e.addr e.port e.nodeId, p.lastActivity = now := by
  by_cases he : e.addCall.Accepted cfg
  · exact exists_now_of_accepted he now peers
  · rwa [addPeerWithNode_of_not_accepted he ⟨true, now⟩]

/-- So does a list with an entry that is accepted. -/
theorem exists_now_foldl {entries : List (Endpoint × ℕ)}
    (h : (∃ p ∈ peers, p.lastActivity = now) ∨ ∃ e ∈ entries, e.1.addCall.Accepted cfg) :
    ∃ p ∈ entries.foldl (fun peers e => addPeerWithNode cfg true now peers e.1.addr e.1.port
      e.1.nodeId) peers, p.lastActivity = now := by
  induction entries generalizing peers with
  | nil => simpa using h
  | cons e entries ih =>
      rw [List.foldl_cons]
      apply ih
      rcases h with h | ⟨e', he', haccepted⟩
      · exact Or.inl (exists_now_addPeerWithNode h)
      · rcases List.mem_cons.mp he' with rfl | he'
        · exact Or.inl (exists_now_of_accepted haccepted now peers)
        · exact Or.inr ⟨e', he', haccepted⟩

end Adding

/-- Some time is later than all those in the table. -/
theorem exists_later_time (peers : List Peer) : ∃ now, ∀ p ∈ peers, p.lastActivity < now := by
  induction peers with
  | nil => exact ⟨0, by simp⟩
  | cons peer peers ih =>
      obtain ⟨now, hnow⟩ := ih
      refine ⟨max now (peer.lastActivity + 1), List.forall_mem_cons.mpr ⟨by omega, ?_⟩⟩
      intro p hp
      exact (hnow p hp).trans_le (le_max_left _ _)

/-- The table is left alone in all circumstances if and only if every entry is turned
away. -/
theorem parsedTable_eq_iff (cfg : NodeConfig) (peers : List Peer) (payload : Bytes) :
    (∀ env, parsedTable cfg env peers payload = peers) ↔
      ∀ e ∈ (parsePeerList cfg (some payload) payload.length).added,
        ¬ e.addCall.Accepted cfg := by
  unfold parsedTable
  generalize (parsePeerList cfg (some payload) payload.length).added = added
  constructor
  · intro h e he haccepted
    obtain ⟨now, hlater⟩ := exists_later_time peers
    obtain ⟨i, hi⟩ := List.mem_iff_getElem?.mp he
    have hmem : (e, i) ∈ added.zipIdx := List.mk_mem_zipIdx_iff_getElem?.mpr hi
    obtain ⟨p, hp, hnow⟩ : ∃ p ∈ added.zipIdx.foldl (fun peers (e : Endpoint × ℕ) =>
        addPeerWithNode cfg true now peers e.1.addr e.1.port e.1.nodeId) peers,
          p.lastActivity = now :=
      exists_now_foldl (Or.inr ⟨(e, i), hmem, haccepted⟩)
    have hsame := h fun _ => ⟨true, now⟩
    rw [hsame] at hp
    exact absurd hnow (hlater p hp).ne
  · intro h env
    suffices ∀ entries : List (Endpoint × ℕ), (∀ e ∈ entries, ¬ e.1.addCall.Accepted cfg) →
        entries.foldl (fun peers e => addPeerWithNode cfg (env e.2).allocOk (env e.2).now peers
          e.1.addr e.1.port e.1.nodeId) peers = peers by
      refine this _ fun e he => h e.1 ?_
      exact List.fst_mem_of_mem_zipIdx he
    intro entries
    induction entries with
    | nil =>
        intro _
        rfl
    | cons e entries ih =>
        intro hentries
        obtain ⟨he, hentries⟩ := List.forall_mem_cons.mp hentries
        rw [List.foldl_cons, addPeerWithNode_of_not_accepted he (env e.2)]
        exact ih hentries

theorem rc_parsePeerList_eq_neg_one_iff (cfg : NodeConfig) (payload : Bytes) :
    (parsePeerList cfg (some payload) payload.length).rc = -1 ↔ ¬ IsPeerList payload := by
  rw [← rc_parsePeerList_eq_zero_iff cfg]
  unfold parsePeerList
  simp only
  split_ifs <;> simp

/-- **A malformed list is without effect exactly when all its entries, up to the place
where it goes wrong, are turned away.** -/
theorem malformedHarmless_iff (cfg : NodeConfig) (peers : List Peer) (payload : Bytes) :
    MalformedHarmless cfg peers payload ↔ (¬ IsPeerList payload → OnlyRefused cfg payload) := by
  unfold MalformedHarmless
  rw [rc_parsePeerList_eq_neg_one_iff, parsedTable_eq_iff]
  exact imp_congr_right fun _ => (onlyRefused_iff cfg payload).symm

/-- A list that announces two entries and ends behind the first. -/
theorem malformedHarmless_fails :
    ¬ MalformedHarmless plainNode []
      ([0, 2] ++ peerListEntry ⟨[97], 1, 5, false, 0⟩) := by
  intro h
  have hrc : (parsePeerList plainNode
      (some ([0, 2] ++ peerListEntry ⟨[97], 1, 5, false, 0⟩))
      ([0, 2] ++ peerListEntry ⟨[97], 1, 5, false, 0⟩).length).rc = -1 := by decide +kernel
  have htable : parsedTable plainNode (fun _ => ⟨true, 7⟩) []
      ([0, 2] ++ peerListEntry ⟨[97], 1, 5, false, 0⟩) = [⟨[97], 1, 5, false, 7⟩] := by
    decide +kernel
  rw [h hrc] at htable
  exact absurd htable (by simp)

end Dmmr.Cluster
