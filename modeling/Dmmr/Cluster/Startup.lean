import Dmmr.Cluster.Configure
import Dmmr.Cluster.Table
import Mathlib.Data.Nat.Digits.Defs
import Mathlib.Tactic.IntervalCases

/-!
# From the command line to the accept loop: `main`

`main` reads its options, makes the pools and opens the database, sets up its lists, starts
threads and configures the cluster layer, and then accepts connections.  An option
`--peer=HOST:PORT` is acted upon when it is read: `add_peer` puts the endpoint into the table
of peers as a seed (`mem_peers_parseOptions`).

But `init_peers`, which comes later, empties the table.  `staticPeersSurvive_iff` says that
every peer of the command line is lost this way: unless it is entered again by one of the
threads that have been started, no broadcast will reach it.
-/

namespace Dmmr.Cluster

open Words Store Node

/-! ## Text -/

/-- The bytes of a literal. -/
def cText (s : String) : Bytes := s.toList.map fun c => UInt8.ofNat c.toNat

/-- `isspace`. -/
def isSpace (b : UInt8) : Bool := b == 32 || (9 ≤ b && b ≤ 13)

/-- The value of a digit, of a letter beyond nine. -/
def digitValue (b : UInt8) : ℕ :=
  if 48 ≤ b ∧ b ≤ 57 then b.toNat - 48
  else if 97 ≤ b ∧ b ≤ 122 then b.toNat - 87
  else if 65 ≤ b ∧ b ≤ 90 then b.toNat - 55
  else 36

/-- The number at the beginning of a text. -/
def readDigits (base : ℕ) : ℕ → Bytes → ℕ
  | value, [] => value
  | value, b :: text =>
      if digitValue b < base then readDigits base (value * base + digitValue b) text else value

/-- The sign at the beginning of a text, which may follow white space. -/
def readSign (text : Bytes) : Bool × Bytes :=
  match text.dropWhile isSpace with
  | 45 :: text => (true, text)
  | 43 :: text => (false, text)
  | text => (false, text)

/-- `atoi`, which is `strtol` with the result made an `int`. -/
def atoi (text : Bytes) : Int :=
  let (negative, digits) := readSign text
  let value : Int := readDigits 10 0 digits
  let long := max (-2 ^ 63) (min (2 ^ 63 - 1) (if negative then -value else value))
  long.bmod (2 ^ 32)

/-- The base that `strtoull` finds at the beginning of a number. -/
def readBase : Bytes → ℕ × Bytes
  | 48 :: x :: d :: text =>
      if (x = 120 ∨ x = 88) ∧ digitValue d < 16 then (16, d :: text)
      else (8, 48 :: x :: d :: text)
  | 48 :: text => (8, 48 :: text)
  | text => (10, text)

/-- `strtoull` with base zero. -/
def strtoull (text : Bytes) : UInt64 :=
  let (negative, rest) := readSign text
  let (base, digits) := readBase rest
  let value := readDigits base 0 digits
  if value ≥ 2 ^ 64 then UInt64.ofNat (2 ^ 64 - 1)
  else if negative then 0 - UInt64.ofNat value
  else UInt64.ofNat value

/-! ## Options -/

/-- The rest of a string. -/
def CStr.drop (s : CStr) (n : ℕ) : CStr := ⟨s.1.drop n, fun h => s.2 (List.mem_of_mem_drop h)⟩

/-- What an argument of the command line stands for. -/
inductive MainOption
  | unix
  | tcp
  | both
  | workers (count : Int)
  | clusterPort (port : Int)
  | seeds (seeds : CStr)
  | advertise (address : CStr)
  | clusterName (name : CStr)
  | clusterSecret (secret : CStr)
  | peer (spec : CStr)
  | nodeId (id : UInt64)
  | daemon
  | help
  | unknown

/-- The comparisons in the loop of `main`. -/
def readOption (arg : CStr) : MainOption :=
  if arg.1 = cText "--unix" then .unix
  else if arg.1 = cText "--tcp" then .tcp
  else if arg.1 = cText "--both" then .both
  else if cText "--workers=" <+: arg.1 then .workers (atoi (arg.drop 10).1)
  else if cText "--cluster-port=" <+: arg.1 then .clusterPort (atoi (arg.drop 15).1)
  else if cText "--seeds=" <+: arg.1 then .seeds (arg.drop 8)
  else if cText "--advertise=" <+: arg.1 then .advertise (arg.drop 12)
  else if cText "--cluster-name=" <+: arg.1 then .clusterName (arg.drop 15)
  else if cText "--cluster-secret=" <+: arg.1 then .clusterSecret (arg.drop 17)
  else if cText "--peer=" <+: arg.1 then .peer (arg.drop 7)
  else if cText "--node-id=" <+: arg.1 then .nodeId (strtoull (arg.drop 10).1)
  else if arg.1 = cText "--daemon" then .daemon
  else if arg.1 = cText "--help" then .help
  else .unknown

/-- What `main` finds when it is called: the values of environment variables or their
defaults, the node identifier it makes up if none is given, and for each option the outcome
of `calloc` and the time. -/
structure Launch where
  host : Endian
  bindAddress : CStr
  workers : Int
  clusterPort : Int
  seeds : CStr
  advertiseAddress : CStr
  clusterName : CStr
  clusterSecret : CStr
  madeUpId : UInt64
  callocOk : ℕ → Bool
  time : ℕ → Int

/-- The variables that options set, and the table of peers. -/
structure Options where
  useUnix : Bool
  useTcp : Bool
  workerCount : Int
  clusterPort : Int
  seeds : CStr
  advertiseAddress : CStr
  clusterName : CStr
  clusterSecret : CStr
  myNodeId : UInt64
  daemonMode : Bool
  peers : List Peer

def Options.initial (launch : Launch) : Options where
  useUnix := false
  useTcp := false
  workerCount := launch.workers
  clusterPort := launch.clusterPort
  seeds := launch.seeds
  advertiseAddress := launch.advertiseAddress
  clusterName := launch.clusterName
  clusterSecret := launch.clusterSecret
  myNodeId := 0
  daemonMode := false
  peers := []

/-- An option `--peer=`: the host before the first colon, cut to the size of a buffer, and
the port behind it. -/
def Options.addStaticPeer (launch : Launch) (i : ℕ) (o : Options) (spec : CStr) : Options :=
  match spec.1.dropWhile (· ≠ 58) with
  | [] => o
  | _ :: portText =>
      -- the cluster layer is not configured yet
      { o with
        peers := (AddCall.peer (launch.callocOk i) (launch.time i)
          ((spec.1.takeWhile (· ≠ 58)).take 63) (atoi portText)).exec
            (ClusterGlobals.initial.node launch.host o.myNodeId) o.peers }

/-- One option; with `--help` the program ends. -/
def Options.apply (launch : Launch) (i : ℕ) (o : Options) : MainOption → Option Options
  | .unix => some { o with useUnix := true }
  | .tcp => some { o with useTcp := true }
  | .both => some { o with useUnix := true, useTcp := true }
  | .workers count => some { o with workerCount := count }
  | .clusterPort port => some { o with clusterPort := port }
  | .seeds seeds => some { o with seeds := seeds }
  | .advertise address => some { o with advertiseAddress := address }
  | .clusterName name => some { o with clusterName := name }
  | .clusterSecret secret => some { o with clusterSecret := secret }
  | .peer spec => some (o.addStaticPeer launch i spec)
  | .nodeId id => some { o with myNodeId := id }
  | .daemon => some { o with daemonMode := true }
  | .help => none
  | .unknown => some o

/-- The loop over the arguments, from the one with number `i`. -/
def parseOptions (launch : Launch) : ℕ → Options → List CStr → Option Options
  | _, o, [] => some o
  | i, o, arg :: args =>
      match o.apply launch i (readOption arg) with
      | none => none
      | some o => parseOptions launch (i + 1) o args

/-! ## The rest of the start -/

/-- `init_peers`, which is `TAILQ_INIT`. -/
def initPeers (_ : List Peer) : List Peer := []

/-- The configuration the options lead to. -/
def Options.config (launch : Launch) (o : Options) : NodeConfig :=
  let myNodeId := if o.myNodeId = 0 then launch.madeUpId else o.myNodeId
  let address := if o.advertiseAddress.1 ≠ [] then o.advertiseAddress else launch.bindAddress
  (clusterConfigure .initial ⟨some address, o.clusterPort, some o.seeds, 10, some o.clusterName,
    some o.clusterSecret⟩).node launch.host myNodeId

/-- What else matters: whether the pools and the database can be made, and the calls of
`add_peer` and `add_peer_with_node` by threads that have been started, before and after
`cluster_configure`. -/
structure Outcome where
  poolsOk : Bool
  dbOk : Bool
  early : List AddCall
  late : List AddCall

/-- `main` as far as its accept loop: the configuration and the table of peers when it gets
there. -/
def startUp (launch : Launch) (argv : List CStr) (outcome : Outcome) :
    Option (NodeConfig × List Peer) :=
  match parseOptions launch 1 (.initial launch) argv with
  | none => none
  | some o =>
      if !outcome.poolsOk then none
      else if !outcome.dbOk then none
      else
        let cfg := o.config launch
        let unconfigured := ClusterGlobals.initial.node launch.host cfg.myNodeId
        let peers := outcome.early.foldl (AddCall.exec unconfigured) (initPeers o.peers)
        some (cfg, outcome.late.foldl (AddCall.exec cfg) peers)

/-! ## Static peers -/

/-- A port as it is written. -/
def decimal (n : ℕ) : Bytes := (Nat.digits 10 n).reverse.map fun d => UInt8.ofNat (48 + d)

/-- The argument is `--peer=HOST:PORT`. -/
structure IsPeerOption (arg : CStr) (host : Bytes) (port : ℕ) : Prop where
  text : arg.1 = cText "--peer=" ++ host ++ 58 :: decimal port
  host_pos : 1 ≤ host.length
  host_le : host.length ≤ 63
  host_colon : 58 ∉ host
  port_pos : 1 ≤ port
  port_le : port ≤ 65535

/-- Every peer of the command line other than the node itself has a seed entry when `main`
has come to its loop, and a broadcast is queued for it. -/
def StaticPeersSurvive (launch : Launch) (argv : List CStr) : Prop :=
  ∀ outcome cfg table, startUp launch argv outcome = some (cfg, table) →
    ∀ arg ∈ argv, ∀ host port, IsPeerOption arg host port →
      endpointIsSelf cfg host (UInt16.ofNat port) 0 = false →
        ∃ p ∈ table, p.isSeed = true ∧ p.addr = host ∧ p.port = UInt16.ofNat port ∧
          ∀ cmd : ControlCmd, 1 ≤ cmd.key.length → cmd.key.length ≤ maxKeyLen →
            cmd.value.length ≤ maxValueLen → p ∈ broadcastSync cfg table cmd

/-- The configuration for a command line. -/
def mainConfig (launch : Launch) (argv : List CStr) : NodeConfig :=
  ((parseOptions launch 1 (.initial launch) argv).getD (.initial launch)).config launch

/-- The command line has no peers but the node itself. -/
def NoStaticPeers (launch : Launch) (argv : List CStr) : Prop :=
  ∀ arg ∈ argv, ∀ host port, IsPeerOption arg host port →
    endpointIsSelf (mainConfig launch argv) host (UInt16.ofNat port) 0 = true

/-! ## What the options do -/

section Text

theorem digitValue_ofNat {d : ℕ} (hd : d < 10) : digitValue (UInt8.ofNat (48 + d)) = d := by
  interval_cases d <;> rfl

theorem readDigits_append {base : ℕ} {text : Bytes} (h : ∀ b ∈ text, digitValue b < base)
    (value : ℕ) (rest : Bytes) :
    readDigits base value (text ++ rest) = readDigits base (readDigits base value text) rest := by
  induction text generalizing value with
  | nil => rfl
  | cons b text ih =>
      obtain ⟨hb, htext⟩ := List.forall_mem_cons.mp h
      rw [List.cons_append, readDigits, readDigits, if_pos hb, if_pos hb]
      exact ih htext _

/-- The bytes of digits, the last one first. -/
theorem readDigits_digits {digits : List ℕ} (h : ∀ d ∈ digits, d < 10) :
    readDigits 10 0 (digits.reverse.map fun d => UInt8.ofNat (48 + d)) =
      Nat.ofDigits 10 digits := by
  induction digits with
  | nil => rfl
  | cons d digits ih =>
      obtain ⟨hd, hdigits⟩ := List.forall_mem_cons.mp h
      have hbytes : ∀ b ∈ digits.reverse.map (fun d => UInt8.ofNat (48 + d)),
          digitValue b < 10 := by
        intro b hb
        obtain ⟨d', hd', rfl⟩ := List.mem_map.mp hb
        have hlt := hdigits d' (List.mem_reverse.mp hd')
        rwa [digitValue_ofNat hlt]
      rw [List.reverse_cons, List.map_append, readDigits_append hbytes, ih hdigits,
        Nat.ofDigits_cons]
      simp only [List.map_cons, List.map_nil, readDigits, digitValue_ofNat hd, if_pos hd]
      rw [Nat.mul_comm, Nat.add_comm]

/-- A digit is neither white space nor a sign. -/
theorem readSign_of_digit {d : ℕ} (hd : d < 10) (text : Bytes) :
    readSign (UInt8.ofNat (48 + d) :: text) = (false, UInt8.ofNat (48 + d) :: text) := by
  interval_cases d <;> rfl

theorem readSign_decimal {n : ℕ} (hn : n ≠ 0) : readSign (decimal n) = (false, decimal n) := by
  have hne : (Nat.digits 10 n).reverse ≠ [] := by
    rw [Ne, List.reverse_eq_nil_iff]
    exact Nat.digits_ne_nil_iff_ne_zero.mpr hn
  obtain ⟨d, rest, hrest⟩ := List.exists_cons_of_ne_nil hne
  have hd : d < 10 := by
    apply Nat.digits_lt_base (by decide) (m := n)
    rw [← List.mem_reverse, hrest]
    exact List.mem_cons_self
  rw [decimal, hrest, List.map_cons]
  exact readSign_of_digit hd _

/-- `atoi` reads a port as it was written. -/
theorem atoi_decimal {n : ℕ} (hpos : 1 ≤ n) (hle : n ≤ 65535) : atoi (decimal n) = n := by
  have hread : readDigits 10 0 (decimal n) = n :=
    (readDigits_digits fun d hd => Nat.digits_lt_base (by decide) hd).trans
      (Nat.ofDigits_digits 10 n)
  simp only [atoi, readSign_decimal (Nat.one_le_iff_ne_zero.mp hpos), hread, Bool.false_eq_true,
    if_false]
  have hlong : max (-2 ^ 63) (min (2 ^ 63 - 1) (n : Int)) = n := by omega
  rw [hlong]
  exact Int.bmod_eq_of_le (by omega) (by omega)

end Text

section Peers

variable {launch : Launch} {host : Bytes} {port : ℕ}

/-- The table has a seed entry for the endpoint. -/
def HasSeed (peers : List Peer) (host : Bytes) (port : ℕ) : Prop :=
  ∃ p ∈ peers, p.isSeed = true ∧ p.addr = host ∧ p.port = UInt16.ofNat port

/-- A seed stays in the table whatever seeds are added. -/
theorem HasSeed.exec {peers : List Peer} (h : HasSeed peers host port) (cfg : NodeConfig)
    (allocOk : Bool) (now : Int) (addr : Bytes) (port' : Int) :
    HasSeed ((AddCall.peer allocOk now addr port').exec cfg peers) host port := by
  obtain ⟨p, hp, hseed, haddr, hport⟩ := h
  simp only [AddCall.exec, addPeerInternal]
  split_ifs
  · exact ⟨p, hp, hseed, haddr, hport⟩
  · exact ⟨p, hp, hseed, haddr, hport⟩
  all_goals
    rcases updatePeer_cases addr (UInt16.ofNat port'.toNat) 0 true now peers with
      ⟨-, hupdate⟩ | ⟨before, q, after, rfl, -, hq, hupdate⟩
    · rw [hupdate]
      first
        | exact ⟨p, List.mem_append_left _ hp, hseed, haddr, hport⟩
        | exact ⟨p, hp, hseed, haddr, hport⟩
    · rw [hupdate]
      -- without an identifier only an entry with the same endpoint is updated
      have hsame : q.addr = addr ∧ q.port = UInt16.ofNat port'.toNat := by
        simpa using (isEndpoint_iff ..).mp hq
      rcases List.mem_append.mp hp with hp | hp
      · exact ⟨p, List.mem_append_left _ hp, hseed, haddr, hport⟩
      rcases List.mem_cons.mp hp with rfl | hp
      · refine ⟨p.update addr (UInt16.ofNat port'.toNat) 0 true now, ?_, ?_, ?_, ?_⟩
        · exact List.mem_append_right _ List.mem_cons_self
        · simp [Peer.update]
        · exact hsame.1.symm.trans haddr
        · exact hsame.2.symm.trans hport
      · exact ⟨p, List.mem_append_right _ (List.mem_cons_of_mem _ hp), hseed, haddr, hport⟩

/-- `add_peer` enters an endpoint it does not turn away. -/
theorem hasSeed_exec {cfg : NodeConfig} (hhost : 1 ≤ host.length) (hhost' : host.length ≤ 63)
    (hport : 1 ≤ port) (hport' : port ≤ 65535)
    (hself : endpointIsSelf cfg host (UInt16.ofNat port) 0 = false) (now : Int)
    (peers : List Peer) : HasSeed ((AddCall.peer true now host port).exec cfg peers) host port := by
  have hpass : ¬ (host.length = 0 ∨ host.length > peerAddrMax ∨
      endpointIsSelf cfg host (UInt16.ofNat port) 0 = true) := by
    have hmax : peerAddrMax = 255 := rfl
    rw [hself]
    rintro (hlen | hlen | htrue)
    · omega
    · omega
    · exact absurd htrue nofun
  simp only [AddCall.exec, addPeerInternal, Int.toNat_natCast]
  rw [if_neg (by omega), if_neg hpass]
  rcases updatePeer_cases host (UInt16.ofNat port) 0 true now peers with
    ⟨-, hupdate⟩ | ⟨before, q, after, rfl, -, -, hupdate⟩
  · rw [hupdate]
    exact ⟨_, List.mem_append_right _ List.mem_cons_self, rfl, rfl, rfl⟩
  · rw [hupdate]
    refine ⟨_, List.mem_append_right _ List.mem_cons_self, ?_, rfl, rfl⟩
    simp [Peer.update]

/-- An option keeps the seeds that are there. -/
theorem HasSeed.apply {o o' : Options} (h : HasSeed o.peers host port) {i : ℕ}
    {option : MainOption} (happly : o.apply launch i option = some o') :
    HasSeed o'.peers host port := by
  cases option with
  | peer spec =>
      obtain rfl := Option.some.inj happly
      unfold Options.addStaticPeer
      split
      · exact h
      · exact h.exec ..
  | help => exact absurd happly nofun
  | _ =>
      obtain rfl := Option.some.inj happly
      exact h

theorem HasSeed.parseOptions {o o' : Options} (h : HasSeed o.peers host port) {i : ℕ}
    {argv : List CStr} (hparse : parseOptions launch i o argv = some o') :
    HasSeed o'.peers host port := by
  induction argv generalizing i o with
  | nil =>
      obtain rfl := Option.some.inj hparse
      exact h
  | cons arg argv ih =>
      rw [Dmmr.Cluster.parseOptions] at hparse
      cases happly : o.apply launch i (readOption arg) with
      | none => simp [happly] at hparse
      | some o'' =>
          simp only [happly] at hparse
          exact ih (h.apply happly) hparse

/-- The literals of other options differ from a peer option in their third byte. -/
theorem not_literal {literal : Bytes} (hlen : 3 ≤ literal.length)
    (hne : literal.take 3 ≠ (cText "--peer=").take 3) (rest : Bytes) :
    ¬ literal <+: cText "--peer=" ++ rest := by
  rintro ⟨more, hmore⟩
  apply hne
  have htake := congrArg (List.take 3) hmore
  rwa [List.take_append_of_le_length hlen, List.take_append_of_le_length (by decide +kernel)]
    at htake

theorem readOption_peer {arg : CStr} (h : IsPeerOption arg host port) :
    readOption arg = .peer (arg.drop 7) := by
  have htext : arg.1 = cText "--peer=" ++ (host ++ 58 :: decimal port) := by
    rw [h.text, List.append_assoc]
  have hno : ∀ literal : Bytes, 3 ≤ literal.length →
      literal.take 3 ≠ (cText "--peer=").take 3 → ¬ literal <+: arg.1 := by
    intro literal hlen hne
    rw [htext]
    exact not_literal hlen hne _
  have hne : ∀ literal : Bytes, 3 ≤ literal.length →
      literal.take 3 ≠ (cText "--peer=").take 3 → arg.1 ≠ literal :=
    fun literal hlen hne heq => hno literal hlen hne (heq ▸ List.prefix_refl _)
  unfold readOption
  iterate 3 rw [if_neg (hne _ (by decide +kernel) (by decide +kernel))]
  iterate 6 rw [if_neg (hno _ (by decide +kernel) (by decide +kernel))]
  exact if_pos ⟨_, htext.symm⟩

/-- Such an option enters its endpoint. -/
theorem hasSeed_addStaticPeer {arg : CStr} (h : IsPeerOption arg host port) {i : ℕ}
    (hcalloc : launch.callocOk i = true) (o : Options)
    (hself : ∀ id, endpointIsSelf (ClusterGlobals.initial.node launch.host id) host
      (UInt16.ofNat port) 0 = false) :
    HasSeed (o.addStaticPeer launch i (arg.drop 7)).peers host port := by
  have hspec : (arg.drop 7).1 = host ++ 58 :: decimal port := by
    show arg.1.drop 7 = _
    rw [h.text, List.append_assoc]
    exact List.drop_left' (by decide +kernel)
  have hhost : ∀ b ∈ host, (b ≠ 58 : Bool) = true := by
    intro b hb
    exact decide_eq_true fun heq => h.host_colon (heq ▸ hb)
  have hdrop : (arg.drop 7).1.dropWhile (· ≠ 58) = 58 :: decimal port := by
    rw [hspec, List.dropWhile_append_of_pos hhost]
    rfl
  have htake : (arg.drop 7).1.takeWhile (· ≠ 58) = host := by
    rw [hspec, List.takeWhile_append_of_pos hhost]
    simp
  unfold Options.addStaticPeer
  rw [hdrop]
  simp only [htake, List.take_of_length_le h.host_le, hcalloc, atoi_decimal h.port_pos h.port_le]
  exact hasSeed_exec h.host_pos h.host_le h.port_pos h.port_le (hself _) _ _

/-- **The options enter the static peers.** -/
theorem mem_peers_parseOptions (hcalloc : ∀ i, launch.callocOk i = true) {i : ℕ} {o o' : Options}
    {argv : List CStr} (hparse : parseOptions launch i o argv = some o') {arg : CStr}
    (harg : arg ∈ argv) (h : IsPeerOption arg host port)
    (hself : ∀ id, endpointIsSelf (ClusterGlobals.initial.node launch.host id) host
      (UInt16.ofNat port) 0 = false) : HasSeed o'.peers host port := by
  induction argv generalizing i o with
  | nil => exact absurd harg List.not_mem_nil
  | cons arg' argv ih =>
      rw [parseOptions] at hparse
      cases happly : o.apply launch i (readOption arg') with
      | none => simp [happly] at hparse
      | some o'' =>
          simp only [happly] at hparse
          rcases List.mem_cons.mp harg with rfl | harg
          · rw [readOption_peer h] at happly
            obtain rfl := Option.some.inj happly
            exact HasSeed.parseOptions (hasSeed_addStaticPeer h (hcalloc i) o hself) hparse
          · exact ih hparse harg

end Peers

/-! ## They do not -/

theorem eq_of_ite_eq {α : Type*} {c : Prop} [Decidable c] {a b x : α} (ha : a ≠ x)
    (h : (if c then a else b) = x) : b = x := by
  by_cases hc : c
  · exact absurd ((if_pos hc).symm.trans h) ha
  · exact (if_neg hc).symm.trans h

theorem readOption_eq_help_iff (arg : CStr) : readOption arg = .help ↔ arg.1 = cText "--help" := by
  constructor
  · intro h
    unfold readOption at h
    iterate 12 replace h := eq_of_ite_eq (by nofun) h
    by_contra hne
    rw [if_neg hne] at h
    exact absurd h nofun
  · intro h
    unfold readOption
    rw [h]
    iterate 12 rw [if_neg (by decide +kernel)]
    exact if_pos rfl

theorem apply_eq_none_iff (launch : Launch) (i : ℕ) (o : Options) (option : MainOption) :
    o.apply launch i option = none ↔ option = .help := by
  cases option <;> simp [Options.apply]

theorem parseOptions_eq_none_iff (launch : Launch) (i : ℕ) (o : Options) (argv : List CStr) :
    parseOptions launch i o argv = none ↔ ∃ arg ∈ argv, arg.1 = cText "--help" := by
  induction argv generalizing i o with
  | nil => simp [parseOptions]
  | cons arg argv ih =>
      rw [parseOptions, List.exists_mem_cons_iff, ← readOption_eq_help_iff,
        ← apply_eq_none_iff launch i o]
      cases happly : o.apply launch i (readOption arg) with
      | none => simp
      | some o' => simpa using ih (i + 1) o'

/-- A peer of the command line is lost if nobody enters it again. -/
theorem not_staticPeersSurvive {launch : Launch} {argv : List CStr}
    (hhelp : ¬ ∃ arg ∈ argv, arg.1 = cText "--help") {arg : CStr} (harg : arg ∈ argv) {host : Bytes}
    {port : ℕ} (hpeer : IsPeerOption arg host port)
    (hself : endpointIsSelf (mainConfig launch argv) host (UInt16.ofNat port) 0 = false) :
    ¬ StaticPeersSurvive launch argv := by
  intro hsurvive
  cases hparse : parseOptions launch 1 (.initial launch) argv with
  | none => exact hhelp ((parseOptions_eq_none_iff ..).mp hparse)
  | some o =>
      -- no thread adds a peer
      have hstart : startUp launch argv ⟨true, true, [], []⟩ =
          some (mainConfig launch argv, []) := by
        simp [startUp, mainConfig, hparse, initPeers]
      obtain ⟨p, hp, -⟩ := hsurvive _ _ _ hstart arg harg host port hpeer hself
      exact absurd hp List.not_mem_nil

theorem config_of_startUp {launch : Launch} {argv : List CStr} {outcome : Outcome}
    {cfg : NodeConfig} {table : List Peer}
    (h : startUp launch argv outcome = some (cfg, table)) :
    (¬ ∃ arg ∈ argv, arg.1 = cText "--help") ∧ cfg = mainConfig launch argv := by
  rw [← parseOptions_eq_none_iff launch 1 (.initial launch), mainConfig]
  unfold startUp at h
  cases hparse : parseOptions launch 1 (.initial launch) argv with
  | none => simp [hparse] at h
  | some o =>
      simp only [hparse] at h
      split_ifs at h
      exact ⟨nofun, (congrArg Prod.fst (Option.some.inj h)).symm⟩

/-- **Static peers do not survive the start.** -/
theorem staticPeersSurvive_iff (launch : Launch) (argv : List CStr) :
    StaticPeersSurvive launch argv ↔
      (∃ arg ∈ argv, arg.1 = cText "--help") ∨ NoStaticPeers launch argv := by
  constructor
  · intro hsurvive
    by_contra hno
    obtain ⟨hhelp, hstatic⟩ := not_or.mp hno
    apply hstatic
    intro arg harg host port hpeer
    by_contra hself
    exact not_staticPeersSurvive hhelp harg hpeer (Bool.not_eq_true _ ▸ hself) hsurvive
  · rintro hcond outcome cfg table hstart arg harg host port hpeer hself
    obtain ⟨hhelp, rfl⟩ := config_of_startUp hstart
    have hown := hcond.resolve_left hhelp arg harg host port hpeer
    rw [hself] at hown
    exact absurd hown nofun

/-- A node started without environment variables. -/
def sampleLaunch : Launch where
  host := .little
  bindAddress := ⟨cText "127.0.0.1", by decide +kernel⟩
  workers := 4
  clusterPort := 9081
  seeds := ⟨[], nofun⟩
  advertiseAddress := ⟨[], nofun⟩
  clusterName := ⟨[], nofun⟩
  clusterSecret := ⟨[], nofun⟩
  madeUpId := 7
  callocOk := fun _ => true
  time := fun _ => 0

theorem staticPeersSurvive_fails :
    ¬ StaticPeersSurvive sampleLaunch [⟨cText "--peer=cache-b:9082", by decide +kernel⟩] := by
  have hpeer : IsPeerOption ⟨cText "--peer=cache-b:9082", by decide +kernel⟩ (cText "cache-b")
      9082 := by
    refine ⟨?_, by decide +kernel, by decide +kernel, by decide +kernel, by decide, by decide⟩
    rw [show decimal 9082 = cText "9082" by norm_num [decimal]; decide +kernel]
    decide +kernel
  exact not_staticPeersSurvive (by decide +kernel) List.mem_cons_self hpeer (by decide +kernel)

end Dmmr.Cluster
