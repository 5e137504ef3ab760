import Dmmr.Node.Gc
import Dmmr.Node.ScanCycle

/-!
# The collector and its fixed points

`gc_worker_routine` takes the queued keys one after the other: it deletes each
with `db_del_key` and then broadcasts a tombstone for it, without looking at
what the deletion did.  `gcWorkerRoutine` is a drain of the queue in one go; the
collector thread of `Dmmr.Node.Threads` does the same in its own steps
(`gcWorkerRoutine_eq_run`).

One would like a store without expired values to be a fixed point of scan and
drain.  It is not, because a tombstone is stored with an `expire_at` of zero and
the scan does not look at anything else: each pass of the cursor deletes every
tombstone again, with a new stamp and a new broadcast.  `gcStable_iff` says
which stores are fixed points.
-/

namespace Dmmr.Node

open Words Store Wire

/-- What the environment does while one key is deleted: the calls of the store,
the readings of the clock in `db_del_key` and for the broadcast, and whether a
command slot is free. -/
structure GcEnv where
  bdb : Bdb
  deleteTs : UInt64
  broadcastTs : UInt64
  cmdOk : Bool

variable (host : Endian) (myNodeId : UInt64)

/-- One key of the queue: the store and the commands enqueued. -/
def gcDelete (env : GcEnv) (key : Bytes) (db : Database) : Database × List ControlCmd :=
  ((dbDelKey host myNodeId env.bdb db (Buf.ofBytes key) env.deleteTs).2,
    if env.cmdOk then
      [enqueueBroadcast (Buf.ofBytes key) Buf.null env.broadcastTs myNodeId 0 flagTombstone]
    else [])

/-- The inner loop of `gc_worker_routine`, which empties the queue. -/
def gcWorkerRoutine (envs : ℕ → GcEnv) : ℕ → List Bytes → Database → Database × List ControlCmd
  | _, [], db => (db, [])
  | i, key :: queue, db =>
      let (db, cmds) := gcDelete host myNodeId (envs i) key db
      let (db, more) := gcWorkerRoutine envs (i + 1) queue db
      (db, cmds ++ more)

/-! ## The collector thread -/

/-- The steps of collector `w` for the key at the head of the queue. -/
def collectEvents (w : ℕ) (env : GcEnv) : List NodeEvent :=
  [.own env.bdb (.collect w), .own env.bdb (.advance w env.deleteTs),
    .own env.bdb (.advance w env.deleteTs), .own env.bdb (.advance w env.broadcastTs),
    .own ⟨true, true, env.cmdOk, true⟩ (.advance w env.broadcastTs)]

/-- The clock does not go back from one reading to the next. -/
structure Ticking (envs : ℕ → GcEnv) : Prop where
  within : ∀ i, (envs i).deleteTs ≤ (envs i).broadcastTs
  between : ∀ i, (envs i).broadcastTs ≤ (envs (i + 1)).deleteTs

variable {host myNodeId}

/-- Thread `w` stands at `task`, and the clock, the queued keys, the store and the
commands broadcast so far are the given ones. -/
structure Standing (s : State) (w : ℕ) (task : Task) (clock : UInt64) (queue : List Bytes)
    (db : Database) (cmds : List ControlCmd) : Prop where
  task_eq : s.tasks w = task
  clock_eq : s.clock = clock
  queue_eq : s.gcQueue.map DeleteEntry.key = queue
  db_eq : s.db = db
  cmds_eq : s.broadcasts.map Broadcast.cmd = cmds

namespace Standing

variable {s : State} {w : ℕ} {task : Task} {clock now : UInt64} {queue : List Bytes}
  {db : Database} {cmds : List ControlCmd} {bdb : Bdb} {key : Bytes} {source : Source}

theorem setTask (h : Standing s w task clock queue db cmds) (task' : Task) :
    Standing (s.setTask w task') w task' clock queue db cmds :=
  ⟨tasks_setTask_self s w task', h.clock_eq, h.queue_eq, h.db_eq, h.cmds_eq⟩

theorem readClock (h : Standing s w task clock queue db cmds) (hle : clock ≤ now) (task' : Task) :
    Standing (s.readClock now fun s => s.setTask w task') w task' now queue db cmds := by
  unfold State.readClock
  rw [if_neg (not_lt.mpr (h.clock_eq ▸ hle))]
  have hread : Standing { s with clock := now } w task now queue db cmds :=
    ⟨h.task_eq, rfl, h.queue_eq, h.db_eq, h.cmds_eq⟩
  exact hread.setTask task'

theorem perform (h : Standing s w task clock queue db cmds) (call : Call) (task' : Task) :
    Standing ((s.perform host myNodeId call).2.setTask w task') w task' clock queue
      (call.exec host myNodeId db).2 cmds := by
  have hclock : ∀ written db', (s.store written db').clock = s.clock ∧
      (s.store written db').broadcasts = s.broadcasts := by
    intro written db'
    unfold State.store
    split_ifs
    · exact ⟨rfl, rfl⟩
    · cases written <;> exact ⟨rfl, rfl⟩
  refine ⟨tasks_setTask_self _ w task', ?_, ?_, ?_, ?_⟩
  · exact (hclock _ _).1.trans h.clock_eq
  · exact (queue_store s _ _).trans h.queue_eq
  · rw [← h.db_eq]
    exact db_store s _ _
  · exact (congrArg _ (hclock _ _).2).trans h.cmds_eq

/-- The collector takes the key at the head of the queue. -/
theorem collect (h : Standing s w .idle clock (key :: queue) db cmds) :
    ∃ source, Standing (nodeStep host myNodeId s (.own bdb (.collect w))) w
      (.delReadTs source key) clock queue db cmds := by
  obtain ⟨e, rest, hqueue, rfl, rfl⟩ := List.map_eq_cons_iff.mp h.queue_eq
  refine ⟨.collector e.rewritten, ?_⟩
  simp only [nodeStep, step, hqueue, h.task_eq, if_true]
  have htaken : Standing { s with gcQueue := rest } w .idle clock
      (rest.map DeleteEntry.key) db cmds := ⟨h.task_eq, h.clock_eq, rfl, h.db_eq, h.cmds_eq⟩
  exact htaken.setTask _

theorem readTs (h : Standing s w (.delReadTs source key) clock queue db cmds) (hle : clock ≤ now) :
    Standing (nodeStep host myNodeId s (.own bdb (.advance w now))) w
      (.delApply source key now) now queue db cmds := by
  simp only [nodeStep, step, advance, h.task_eq]
  exact h.readClock hle _

theorem apply {ts : UInt64} (h : Standing s w (.delApply source key ts) clock queue db cmds) :
    Standing (nodeStep host myNodeId s (.own bdb (.advance w now))) w
      (.delReadBroadcastTs key ts) clock queue
      (dbDelKey host myNodeId bdb db (Buf.ofBytes key) ts).2 cmds := by
  simp only [nodeStep, step, advance, h.task_eq]
  exact h.perform (.delKey bdb (Buf.ofBytes key) ts) _

theorem readBroadcastTs {ts : UInt64}
    (h : Standing s w (.delReadBroadcastTs key ts) clock queue db cmds) (hle : clock ≤ now) :
    Standing (nodeStep host myNodeId s (.own bdb (.advance w now))) w
      (.delEnqueue key ts now) now queue db cmds := by
  simp only [nodeStep, step, advance, h.task_eq]
  exact h.readClock hle _

theorem enqueue {ts tsDel : UInt64}
    (h : Standing s w (.delEnqueue key ts tsDel) clock queue db cmds) :
    Standing (nodeStep host myNodeId s (.own bdb (.advance w now))) w .idle clock queue db
      (cmds ++ if bdb.allocOk then
        [enqueueBroadcast (Buf.ofBytes key) Buf.null tsDel myNodeId 0 flagTombstone] else []) := by
  simp only [nodeStep, step, advance, h.task_eq, State.broadcast]
  split_ifs
  · refine ⟨tasks_setTask_self _ w _, h.clock_eq, h.queue_eq, h.db_eq, ?_⟩
    rw [← h.cmds_eq]
    exact List.map_append
  · rw [List.append_nil]
    exact h.setTask _

variable (host myNodeId) in
/-- **One key.**  The steps of the collector for a key are `gcDelete`. -/
theorem collectEvents {env : GcEnv} (h : Standing s w .idle clock (key :: queue) db cmds)
    (hdelete : clock ≤ env.deleteTs) (hbroadcast : env.deleteTs ≤ env.broadcastTs) :
    Standing ((collectEvents w env).foldl (nodeStep host myNodeId) s) w .idle env.broadcastTs queue
      (gcDelete host myNodeId env key db).1 (cmds ++ (gcDelete host myNodeId env key db).2) := by
  obtain ⟨source, hcollect⟩ := h.collect
  exact ((((hcollect.readTs hdelete).apply).readBroadcastTs hbroadcast).enqueue)

/-- **The whole queue.** -/
theorem drain {envs : ℕ → GcEnv} (hticks : Ticking envs) (i : ℕ)
    (h : Standing s w .idle clock queue db cmds) (hclock : clock ≤ (envs i).deleteTs) :
    ∃ clock', Standing (((List.range' i queue.length).flatMap fun j =>
        Node.collectEvents w (envs j)).foldl (nodeStep host myNodeId) s) w .idle clock' []
      (gcWorkerRoutine host myNodeId envs i queue db).1
      (cmds ++ (gcWorkerRoutine host myNodeId envs i queue db).2) := by
  induction queue generalizing i s clock db cmds with
  | nil =>
      refine ⟨clock, ?_⟩
      simpa [gcWorkerRoutine] using h
  | cons key queue ih =>
      have hkey := h.collectEvents host myNodeId hclock (hticks.within i)
      obtain ⟨clock', hrest⟩ := ih (i + 1) hkey (hticks.between i)
      refine ⟨clock', ?_⟩
      rw [List.length_cons, List.range'_succ, List.flatMap_cons, List.foldl_append,
        gcWorkerRoutine]
      simpa only [List.append_assoc] using hrest

end Standing

/-- **The collector thread empties the queue as `gcWorkerRoutine` does.** -/
theorem gcWorkerRoutine_eq_run {s : State} {w : ℕ} (hidle : s.tasks w = .idle) {envs : ℕ → GcEnv}
    (hticks : Ticking envs) (hclock : s.clock ≤ (envs 0).deleteTs) :
    let queue := s.gcQueue.map DeleteEntry.key
    let s' := ((List.range' 0 queue.length).flatMap fun j =>
      collectEvents w (envs j)).foldl (nodeStep host myNodeId) s
    s'.gcQueue = [] ∧ s'.db = (gcWorkerRoutine host myNodeId envs 0 queue s.db).1 ∧
      s'.broadcasts.map Broadcast.cmd = s.broadcasts.map Broadcast.cmd ++
        (gcWorkerRoutine host myNodeId envs 0 queue s.db).2 := by
  intro queue s'
  have hstart : Standing s w .idle s.clock queue s.db (s.broadcasts.map Broadcast.cmd) :=
    ⟨hidle, rfl, rfl, rfl, rfl⟩
  obtain ⟨clock', hend⟩ := hstart.drain hticks 0 hclock
  exact ⟨List.map_eq_nil_iff.mp hend.queue_eq, hend.db_eq, hend.cmds_eq⟩

/-! ## Fixed points -/

/-- A scan at time `now` and a drain of what it has queued change no record and
broadcast nothing, whatever the calls do and the clock shows on the way. -/
def GcStable (host : Endian) (myNodeId : UInt64) (db : Database)
    (gcCursor : Option (Option Bytes)) (now : UInt64) : Prop :=
  ∀ cursorOk calls envs, gcWorkerRoutine host myNodeId envs 0
    (scanExpiredEntries host db gcCursor cursorOk calls now).2 db = (db, [])

/-- Every record is a tombstone or expires at `now` or later. -/
def Settled (host : Endian) (db : Database) (now : UInt64) : Prop :=
  ∀ entry ∈ db.entries, entrySize ≤ entry.2.length →
    dmmrRecordIsTombstone (cacheEntryAt host entry.2) = true ∨
      now ≤ (cacheEntryAt host entry.2).expireAt

/-- Each queued key makes for a broadcast. -/
theorem gcWorkerRoutine_ne_nil {envs : ℕ → GcEnv} (hok : ∀ i, (envs i).cmdOk = true) (i : ℕ)
    {queue : List Bytes} (hne : queue ≠ []) (db : Database) :
    (gcWorkerRoutine host myNodeId envs i queue db).2 ≠ [] := by
  cases queue with
  | nil => exact absurd rfl hne
  | cons key queue => simp [gcWorkerRoutine, gcDelete, hok]

/-- A scan and a drain leave everything as it is exactly if none of the records
the scan visits has expired. -/
theorem gcStable_iff_not_hasExpired {db : Database} {gcCursor : Option (Option Bytes)}
    {now : UInt64} :
    GcStable host myNodeId db gcCursor now ↔
      ∀ entry ∈ (db.round (cursorPos gcCursor)).take ttlScanChunkSize,
        ¬ HasExpired host now entry := by
  have hnil : (db.walk (cursorPos gcCursor) ttlScanChunkSize).filterMap (scanKey? host now) = [] ↔
      ∀ entry ∈ (db.round (cursorPos gcCursor)).take ttlScanChunkSize,
        ¬ HasExpired host now entry := by
    simp only [List.filterMap_eq_nil_iff, OrderedMap.mem_walk_iff, scanKey?, ite_eq_right_iff,
      reduceCtorEq, imp_false]
  rw [← hnil]
  constructor
  · intro hstable
    by_contra hne
    have hdrain := hstable true (fun _ => .ok) fun _ => ⟨.ok, 0, 0, true⟩
    rw [queued_ok] at hdrain
    exact gcWorkerRoutine_ne_nil (fun _ => rfl) 0 hne db (congrArg Prod.snd hdrain)
  · intro hempty cursorOk calls envs
    have hsub : (scanExpiredEntries host db gcCursor cursorOk calls now).2.Sublist _ :=
      queued_sublist gcCursor cursorOk calls now
    rw [hempty] at hsub
    rw [List.sublist_nil.mp hsub, gcWorkerRoutine]

/-- **Fixed points of the collection.**  A store in which every record is a
tombstone or has not expired is left as it is by a scan and a drain if and only
if no tombstone among the next `TTL_SCAN_CHUNK_SIZE` records behind the cursor
has an `expire_at` before the time of the scan. -/
theorem gcStable_iff {host : Endian} (myNodeId : UInt64) {db : Database}
    (gcCursor : Option (Option Bytes)) {now : UInt64} (hsettled : Settled host db now) :
    GcStable host myNodeId db gcCursor now ↔
      ∀ entry ∈ (db.round (cursorPos gcCursor)).take ttlScanChunkSize,
        entrySize ≤ entry.2.length → dmmrRecordIsTombstone (cacheEntryAt host entry.2) = true →
          now ≤ (cacheEntryAt host entry.2).expireAt := by
  rw [gcStable_iff_not_hasExpired]
  refine forall₂_congr fun entry hentry => ?_
  have hmem : entry ∈ db.entries :=
    OrderedMap.mem_entries_of_mem_walk (OrderedMap.mem_walk_iff.mpr hentry)
  rw [HasExpired, not_and, not_lt]
  constructor
  · exact fun h hsize _ => h hsize
  · intro h hsize
    rcases hsettled entry hmem hsize with htombstone | hlater
    · exact h hsize htombstone
    · exact hlater

/-- A store with one record, at the time of its expiry. -/
theorem gcStable_one_record : GcStable .little 7 oneRecord none 5 :=
  (gcStable_iff 7 none (by unfold Settled; decide +kernel)).mpr (by decide +kernel)

/-- The same store after the key has been deleted at time 8. -/
def deletedRecord : Database :=
  ((Call.delKey .ok (Buf.ofBytes [107]) 8).exec .little 7 oneRecord).2

/-- A scan at time 10 and a drain at time 11. -/
def collectedAgain : Database × List ControlCmd :=
  gcWorkerRoutine .little 7 (fun _ => ⟨.ok, 11, 12, true⟩) 0
    (scanExpiredEntries .little deletedRecord none true (fun _ => .ok) 10).2 deletedRecord

/-- The scan queues the tombstone, and the drain deletes the key again: its stamp
changes from 8 to 11, and a hundred broadcasts are enqueued. -/
theorem gcStable_fails :
    Settled .little deletedRecord 10 ∧
      contents .little deletedRecord ⟨[107], by decide⟩ = some ⟨8, 7, 0, none⟩ ∧
      contents .little collectedAgain.1 ⟨[107], by decide⟩ = some ⟨11, 7, 0, none⟩ ∧
      collectedAgain.2.length = 100 ∧
      ¬ GcStable .little 7 deletedRecord none 10 := by
  refine ⟨by unfold Settled; decide +kernel, by decide +kernel, by decide +kernel,
    by decide +kernel, fun h => ?_⟩
  have hexpired := gcStable_iff_not_hasExpired.mp h
  exact absurd hexpired (by decide +kernel)

end Dmmr.Node
