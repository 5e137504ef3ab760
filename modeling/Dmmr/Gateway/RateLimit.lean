import Dmmr.Gateway.Conf
import Dmmr.Lib.SearchTree
import Mathlib.Logic.Function.Basic

/-!
# The shared rate zone: `ngx_http_dmmr_rate_limit.c`

The limiter keeps one node per client in shared memory, linked into a search
tree and into an LRU queue.  A node is an address in `mem`; the tree and the
queue hold addresses.  nginx's own part is a parameter (`Ngx`): its hash, and
the tree operations, of which all that counts is that they keep the in-order
sequence but for the node added or removed.
-/

namespace Dmmr.Gateway

open Words

/-! ## The zone -/

/-- `ngx_http_dmmr_rate_node_t`. -/
structure RateNode where
  hash : UInt32
  windowStart : UInt64
  count : UInt64
  key : Bytes
  deriving DecidableEq, Repr

/-- `ngx_http_dmmr_rate_shctx_t`, with the memory its nodes lie in. -/
structure RateShctx where
  mem : ℕ → RateNode
  rbtree : SearchTree ℕ
  lru : List ℕ

/-- The zone after `ngx_http_dmmr_rate_zone_init`. -/
def RateShctx.init : RateShctx := ⟨fun _ => ⟨0, 0, 0, []⟩, .leaf, []⟩

/-- What nginx supplies: `ngx_crc32_short`, the rebalancing at the end of
`ngx_rbtree_insert`, and `ngx_rbtree_delete`. -/
structure Ngx where
  crc32Short : Bytes → UInt32
  rebalance : SearchTree ℕ → SearchTree ℕ
  toList_rebalance : ∀ t, (rebalance t).toList = t.toList
  rbtreeDelete : SearchTree ℕ → ℕ → SearchTree ℕ
  toList_rbtreeDelete : ∀ t a, (rbtreeDelete t a).toList = t.toList.erase a

/-- A stand-in for nginx to run the model with: all hashes collide, and the tree
is never balanced. -/
def Ngx.plain : Ngx where
  crc32Short _ := 0
  rebalance t := t
  toList_rebalance _ := rfl
  rbtreeDelete t a := .ofList (t.toList.erase a)
  toList_rbtreeDelete _ _ := SearchTree.toList_ofList _

/-- `ngx_memcmp` on two strings of the same length. -/
def memcmp : Bytes → Bytes → Int
  | x :: xs, y :: ys => if x = y then memcmp xs ys else (x.toNat : Int) - y.toNat
  | _, _ => 0

/-- The comparison of two client keys with the same hash. -/
def keyCmp (key key' : Bytes) : Int :=
  let cmp := (key.length : Int) - key'.length
  if cmp = 0 then memcmp key key' else cmp

/-- `ngx_http_dmmr_rate_rbtree_insert`, and the case of an empty tree, which
`ngx_rbtree_insert` treats itself. -/
def rateRbtreeInsert (mem : ℕ → RateNode) (node : ℕ) : SearchTree ℕ → SearchTree ℕ
  | .leaf => .node .leaf node .leaf
  | .node left temp right =>
      if (mem node).hash < (mem temp).hash then
        .node (rateRbtreeInsert mem node left) temp right
      else if (mem node).hash > (mem temp).hash then
        .node left temp (rateRbtreeInsert mem node right)
      else if keyCmp (mem node).key (mem temp).key < 0 then
        .node (rateRbtreeInsert mem node left) temp right
      else .node left temp (rateRbtreeInsert mem node right)

/-- `ngx_http_dmmr_rate_lookup`. -/
def rateLookup (mem : ℕ → RateNode) (key : Bytes) (hash : UInt32) : SearchTree ℕ → Option ℕ
  | .leaf => none
  | .node left node right =>
      if hash < (mem node).hash then rateLookup mem key hash left
      else if hash > (mem node).hash then rateLookup mem key hash right
      else
        let cmp := keyCmp key (mem node).key
        if cmp = 0 then some node
        else if cmp < 0 then rateLookup mem key hash left else rateLookup mem key hash right

variable (ngx : Ngx)

/-- The loop of `ngx_http_dmmr_rate_expire`, from the head of the queue. -/
def rateExpireLoop (mem : ℕ → RateNode) (now window : UInt64) :
    List ℕ → SearchTree ℕ → List ℕ × SearchTree ℕ
  | [], t => ([], t)
  | q :: lru, t =>
      -- the difference is unsigned: a node from the future counts as expired
      if now - (mem q).windowStart ≤ window then (q :: lru, t)
      else rateExpireLoop mem now window lru (ngx.rbtreeDelete t q)

/-- `ngx_http_dmmr_rate_expire`. -/
def rateExpire (now window : UInt64) (sh : RateShctx) : RateShctx :=
  let (lru, rbtree) := rateExpireLoop ngx sh.mem now window sh.lru sh.rbtree
  { sh with lru := lru, rbtree := rbtree }

/-- `ngx_slab_alloc_locked`: an address not in use. -/
def slabAlloc (ok : Bool) (sh : RateShctx) : Option ℕ :=
  if ok then some (sh.lru.foldr max 0 + 1) else none

/-- The oldest node is removed to make room. -/
def evictOldest (sh : RateShctx) : RateShctx :=
  match sh.lru with
  | [] => sh
  | oldest :: lru => { sh with lru := lru, rbtree := ngx.rbtreeDelete sh.rbtree oldest }

/-- A node is updated and moved to the tail of the queue. -/
def touch (entry : ℕ) (node : RateNode) (sh : RateShctx) : RateShctx :=
  { sh with
    mem := Function.update sh.mem entry node
    lru := sh.lru.erase entry ++ [entry] }

/-- A node is filled in and linked into the tree and at the tail of the queue. -/
def linkNode (entry : ℕ) (node : RateNode) (sh : RateShctx) : RateShctx :=
  let mem := Function.update sh.mem entry node
  { mem := mem
    rbtree := ngx.rebalance (rateRbtreeInsert mem entry sh.rbtree)
    lru := sh.lru ++ [entry] }

/-! ## One call -/

/-- The ways a call can go. -/
inductive Verdict
  | badAddress
  /-- The client had no node: a window starts. -/
  | created
  /-- The client's window has passed: a new one starts. -/
  | restarted
  | counted
  | limited
  | noMemory
  deriving DecidableEq, Repr

/-- What `ngx_http_dmmr_rate_limit` returns. -/
def Verdict.rc : Verdict → Rc
  | badAddress => .internalServerError
  | created => .ok
  | restarted => .ok
  | counted => .ok
  | limited => .tooManyRequests
  | noMemory => .serviceUnavailable

/-- `NGX_SOCKADDR_STRLEN`: `unix:` and the longest path of a Unix socket. -/
def sockaddrStrlen : ℕ := 5 + 108

/-- The `rate_limit` in force: the location's, or the default. -/
def effectiveLimit : Option Conf → UInt64
  | some conf => if conf.rateLimit > 0 then conf.rateLimit else 100
  | none => 100

/-- The `rate_window` in force. -/
def effectiveWindow : Option Conf → UInt64
  | some conf => if conf.rateWindow > 0 then conf.rateWindow else 60000
  | none => 60000

/-- What one call works with: the configuration of the location, the client, the
clock, and whether the two allocations it may make succeed. -/
structure RateCall where
  conf : Option Conf
  clientKey : Bytes
  now : UInt64
  allocOk : Bool
  reallocOk : Bool

namespace RateCall

def limit (call : RateCall) : UInt64 := effectiveLimit call.conf

def window (call : RateCall) : UInt64 := effectiveWindow call.conf

/-- The node of a client seen for the first time. -/
def node (call : RateCall) : RateNode :=
  ⟨ngx.crc32Short call.clientKey, call.now, 1, call.clientKey⟩

end RateCall

/-- The client has a node: its window is restarted, used up or counted on. -/
def rateHit (call : RateCall) (node : RateNode) : Verdict × RateNode :=
  if call.now - node.windowStart > call.window then
    (.restarted, { node with windowStart := call.now, count := 1 })
  else if node.count ≥ call.limit then (.limited, node)
  else (.counted, { node with count := node.count + 1 })

/-- The client has no node: expired nodes are removed and one is allocated, with
the oldest one given up if there is no memory. -/
def rateMiss (call : RateCall) (sh : RateShctx) : Verdict × RateShctx :=
  let sh := rateExpire ngx call.now call.window sh
  match slabAlloc call.allocOk sh with
  | some entry => (.created, linkNode ngx entry (call.node ngx) sh)
  | none =>
      if sh.lru = [] then (.noMemory, sh)
      else
        -- the victim's window need not have passed
        let sh := evictOldest ngx sh
        match slabAlloc call.reallocOk sh with
        | some entry => (.created, linkNode ngx entry (call.node ngx) sh)
        | none => (.noMemory, sh)

/-- `ngx_http_dmmr_rate_limit` on a zone that is there. -/
def rateLimit (call : RateCall) (sh : RateShctx) : Verdict × RateShctx :=
  if call.clientKey.length = 0 ∨ call.clientKey.length > sockaddrStrlen then (.badAddress, sh)
  else
    match rateLookup sh.mem call.clientKey (ngx.crc32Short call.clientKey) sh.rbtree with
    | some entry =>
        let (verdict, node) := rateHit call (sh.mem entry)
        (verdict, touch entry node sh)
    | none => rateMiss ngx call sh

end Dmmr.Gateway
