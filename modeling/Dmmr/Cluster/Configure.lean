import Dmmr.Cluster.Peers

/-!
# The configuration of a node: `cluster_configure`

The cluster layer keeps its settings in static buffers.  `cluster_configure`
copies its arguments there and leaves a buffer as it is when the argument is
missing or, except for the seeds, too long; nothing tells the caller which of the
two happened.

Whatever the arguments, the buffers hold a configuration the rest of the cluster
layer can work with (`NodeConfig.Valid`): an address and a port that can be
advertised, and a name that fits a HELLO.
-/

namespace Dmmr.Cluster

open Words

/-- A C string: bytes without a NUL. -/
abbrev CStr := { s : Bytes // 0 ∉ s }

/-- `DMMR_CLUSTER_SECRET_MAX`. -/
def clusterSecretMax : ℕ := 128

/-- `DMMR_SEEDS_MAX`. -/
def seedsMax : ℕ := 2048

/-- `strlcpy` into a buffer of `size` bytes: the string it holds afterwards. -/
def strlcpy (src : CStr) (size : ℕ) : Bytes := src.1.take (size - 1)

/-- The static variables `cluster_configure` sets. -/
structure ClusterGlobals where
  advertiseAddress : Bytes
  advertisePort : UInt16
  seeds : Bytes
  discoveryInterval : Int
  clusterName : Bytes
  clusterSecret : Bytes
  deriving DecidableEq, Repr

/-- Their initial values: `127.0.0.1`, `CLUSTER_PORT`, no seeds, ten seconds, no
name and no secret. -/
def ClusterGlobals.initial : ClusterGlobals where
  advertiseAddress := [49, 50, 55, 46, 48, 46, 48, 46, 49]
  advertisePort := 9081
  seeds := []
  discoveryInterval := 10
  clusterName := []
  clusterSecret := []

/-- The arguments of `cluster_configure`; a missing string is `NULL`. -/
structure ClusterArgs where
  advertiseAddress : Option CStr
  clusterPort : Int
  seeds : Option CStr
  intervalSeconds : Int
  name : Option CStr
  secret : Option CStr

/-- A buffer of `max + 1` bytes after a string of at most `max` bytes has been
copied into it. -/
def copyBounded (arg : Option CStr) (max : ℕ) (buffer : Bytes) : Bytes :=
  match arg with
  | none => buffer
  | some s => if s.1.length ≤ max then strlcpy s (max + 1) else buffer

/-- `cluster_configure`.  The name is copied twice, to the same effect. -/
def clusterConfigure (g : ClusterGlobals) (args : ClusterArgs) : ClusterGlobals where
  advertiseAddress :=
    copyBounded (args.advertiseAddress.filter (·.1 ≠ [])) peerAddrMax g.advertiseAddress
  advertisePort :=
    if args.clusterPort ≥ 1 ∧ args.clusterPort ≤ 65535 then UInt16.ofNat args.clusterPort.toNat
    else g.advertisePort
  seeds :=
    match args.seeds with
    | none => g.seeds
    | some seeds => strlcpy seeds seedsMax
  discoveryInterval :=
    if args.intervalSeconds > 0 then args.intervalSeconds else g.discoveryInterval
  clusterName := copyBounded args.name clusterNameMax
    (copyBounded args.name clusterNameMax g.clusterName)
  clusterSecret := copyBounded args.secret clusterSecretMax g.clusterSecret

/-- What a node with these settings works with. -/
def ClusterGlobals.node (g : ClusterGlobals) (host : Endian) (myNodeId : UInt64) : NodeConfig where
  host := host
  myNodeId := myNodeId
  clusterName := g.clusterName
  clusterSecret := g.clusterSecret
  advertiseAddress := g.advertiseAddress
  advertisePort := g.advertisePort

/-- A fresh node after one call of `cluster_configure`. -/
def configuredNode (host : Endian) (myNodeId : UInt64) (args : ClusterArgs) : NodeConfig :=
  (clusterConfigure .initial args).node host myNodeId

/-! ## What is copied -/

theorem strlcpy_of_le {s : CStr} {max : ℕ} (h : s.1.length ≤ max) : strlcpy s (max + 1) = s.1 :=
  List.take_of_length_le h

@[simp] theorem copyBounded_none (max : ℕ) (buffer : Bytes) :
    copyBounded none max buffer = buffer := rfl

theorem copyBounded_of_le {s : CStr} {max : ℕ} (h : s.1.length ≤ max) (buffer : Bytes) :
    copyBounded (some s) max buffer = s.1 := by
  rw [copyBounded, if_pos h, strlcpy_of_le h]

theorem copyBounded_of_lt {s : CStr} {max : ℕ} (h : max < s.1.length) (buffer : Bytes) :
    copyBounded (some s) max buffer = buffer :=
  if_neg (not_le.mpr h)

/-- Copying keeps what a buffer and all strings that may be copied into it have
in common. -/
theorem copyBounded_induction (p : Bytes → Prop) {arg : Option CStr} {max : ℕ} {buffer : Bytes}
    (hbuffer : p buffer) (harg : ∀ s ∈ arg, s.1.length ≤ max → p s.1) :
    p (copyBounded arg max buffer) := by
  cases arg with
  | none => exact hbuffer
  | some s =>
      by_cases h : s.1.length ≤ max
      · rw [copyBounded_of_le h]
        exact harg s rfl h
      · rw [copyBounded_of_lt (not_le.mp h)]
        exact hbuffer

/-! ## Configurations are valid -/

/-- The settings can be advertised. -/
structure NodeConfig.Valid (cfg : NodeConfig) : Prop where
  address_ne : cfg.advertiseAddress ≠ []
  address_le : cfg.advertiseAddress.length ≤ peerAddrMax
  address_nul : 0 ∉ cfg.advertiseAddress
  port_ne : cfg.advertisePort ≠ 0
  name_le : cfg.clusterName.length ≤ clusterNameMax
  name_nul : 0 ∉ cfg.clusterName

/-- **Every configured node is valid**, whatever the arguments. -/
theorem valid_configuredNode (host : Endian) (myNodeId : UInt64) (args : ClusterArgs) :
    (configuredNode host myNodeId args).Valid where
  address_ne := by
    refine copyBounded_induction (· ≠ []) (by decide) fun s hs _ => ?_
    simpa using (Option.mem_filter_iff.mp hs).2
  address_le := copyBounded_induction (·.length ≤ peerAddrMax) (by decide) fun _ _ h => h
  address_nul := copyBounded_induction (0 ∉ ·) (by decide) fun s _ _ => s.2
  port_ne := by
    simp only [configuredNode, ClusterGlobals.node, clusterConfigure]
    split_ifs with h
    · intro hzero
      have hnat := congrArg UInt16.toNat hzero
      rw [UInt16.toNat_ofNat'] at hnat
      simp only [UInt16.toNat_zero] at hnat
      omega
    · decide
  name_le := copyBounded_induction (·.length ≤ clusterNameMax)
    (copyBounded_induction (·.length ≤ clusterNameMax) (by decide) fun _ _ h => h) fun _ _ h => h
  name_nul := copyBounded_induction (0 ∉ ·)
    (copyBounded_induction (0 ∉ ·) (by decide) fun s _ _ => s.2) fun s _ _ => s.2

/-! ## The name and the secret -/

theorem clusterName_configuredNode (host : Endian) (myNodeId : UInt64) (args : ClusterArgs) :
    (configuredNode host myNodeId args).clusterName = copyBounded args.name clusterNameMax [] := by
  change copyBounded args.name clusterNameMax (copyBounded args.name clusterNameMax []) = _
  cases args.name with
  | none => rfl
  | some s =>
      by_cases h : s.1.length ≤ clusterNameMax
      · rw [copyBounded_of_le h, copyBounded_of_le h]
      · rw [copyBounded_of_lt (not_le.mp h)]

theorem clusterSecret_configuredNode (host : Endian) (myNodeId : UInt64) (args : ClusterArgs) :
    (configuredNode host myNodeId args).clusterSecret =
      copyBounded args.secret clusterSecretMax [] := rfl

end Dmmr.Cluster
