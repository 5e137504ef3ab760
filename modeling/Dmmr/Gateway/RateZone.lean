import Dmmr.Gateway.RateLimit
import Mathlib.Data.List.Nodup
import Mathlib.Data.Prod.Lex

/-!
# Well-formed rate zones

In a well-formed zone the tree and the queue hold the same nodes, and the tree
holds them in the order of hash, key length and key.  Every call of the limiter
keeps a zone well formed, whatever the allocator does (`wf_rateLimit`), so
`RateZone` carries it along, and every run ends in one (`rateRun_structure`).

What such a zone holds is a function of the client (`client`).  A call updates
the client it is for; besides that it can at most remove clients whose window
has passed by the caller's own measure (`serve_hit`, `serve_miss`).
-/

namespace Dmmr.Gateway

open Words
open scoped List

variable (ngx : Ngx)

/-! ## The order of the tree -/

/-- The order of the tree: hash, key length, key. -/
def rank (hash : UInt32) (key : Bytes) : ℕ ×ₗ ℕ ×ₗ Bytes :=
  toLex (hash.toNat, toLex (key.length, key))

def RateNode.rank (node : RateNode) : ℕ ×ₗ ℕ ×ₗ Bytes := Gateway.rank node.hash node.key

theorem rank_inj {hash hash' : UInt32} {key key' : Bytes} :
    rank hash key = rank hash' key' ↔ hash = hash' ∧ key = key' := by
  constructor
  · intro h
    obtain ⟨hhash, hrest⟩ := Prod.mk.inj (toLex.injective h)
    exact ⟨UInt32.toNat_inj.mp hhash, (Prod.mk.inj (toLex.injective hrest)).2⟩
  · rintro ⟨rfl, rfl⟩
    rfl

theorem memcmp_spec {key key' : Bytes} (hlen : key.length = key'.length) :
    (memcmp key key' < 0 ↔ key < key') ∧ (memcmp key key' = 0 ↔ key = key') := by
  induction key generalizing key' with
  | nil =>
      obtain rfl : key' = [] := List.length_eq_zero_iff.mp hlen.symm
      simp [memcmp]
  | cons x xs ih =>
      cases key' with
      | nil => simp at hlen
      | cons y ys =>
          have hlen' : xs.length = ys.length := by simpa using hlen
          simp only [memcmp, List.cons_lt_cons_iff, List.cons.injEq]
          split_ifs with hxy
          · simp [hxy, ih hlen']
          · have hne : x.toNat ≠ y.toNat := fun h => hxy (UInt8.toNat_inj.mp h)
            simp only [hxy, false_and, or_false, iff_false]
            refine ⟨?_, by omega⟩
            rw [UInt8.lt_iff_toNat_lt]
            omega

/-- The comparisons of the source are those of the order. -/
theorem keyCmp_spec {hash hash' : UInt32} (hhash : hash = hash') (key key' : Bytes) :
    (keyCmp key key' < 0 ↔ rank hash key < rank hash' key') ∧
      (keyCmp key key' = 0 ↔ rank hash key = rank hash' key') := by
  subst hhash
  have hrank : rank hash key < rank hash key' ↔
      key.length < key'.length ∨ key.length = key'.length ∧ key < key' := by
    simp [rank, Prod.Lex.toLex_lt_toLex]
  rw [hrank, rank_inj, keyCmp]
  simp only [true_and]
  split_ifs with hcmp
  · have hlen : key.length = key'.length := by omega
    obtain ⟨hlt, heq⟩ := memcmp_spec hlen
    simp [hlt, heq, hlen]
  · have hne : key ≠ key' := fun h => hcmp (by simp [h])
    have hlen : key.length ≠ key'.length := fun h => hcmp (by omega)
    simp only [hne, hcmp, hlen, false_and, or_false, and_true]
    omega

theorem rank_lt_of_hash {hash hash' : UInt32} (h : hash < hash') (key key' : Bytes) :
    rank hash key < rank hash' key' :=
  Prod.Lex.toLex_lt_toLex.mpr (.inl (UInt32.lt_iff_toNat_lt.mp h))

theorem hash_trichotomy (hash hash' : UInt32) : hash < hash' ∨ hash = hash' ∨ hash' < hash := by
  rw [UInt32.lt_iff_toNat_lt, UInt32.lt_iff_toNat_lt, ← UInt32.toNat_inj]
  exact lt_trichotomy _ _

theorem rateLookup_eq_find (mem : ℕ → RateNode) (key : Bytes) (hash : UInt32)
    (t : SearchTree ℕ) :
    rateLookup mem key hash t = t.find (fun a => (mem a).rank) (rank hash key) := by
  induction t with
  | leaf => rfl
  | node left a right ihl ihr =>
      rw [rateLookup, SearchTree.find, ihl, ihr]
      rcases hash_trichotomy hash (mem a).hash with hlt | heq | hgt
      · have hrank : rank hash key < (mem a).rank := rank_lt_of_hash hlt _ _
        rw [if_pos hlt, if_pos hrank]
      · obtain ⟨hlt, hzero⟩ := keyCmp_spec heq key (mem a).key
        have hirrefl : ¬ hash < (mem a).hash ∧ ¬ (mem a).hash < hash := by
          rw [heq]
          exact ⟨UInt32.lt_irrefl _, UInt32.lt_irrefl _⟩
        rw [if_neg hirrefl.1, if_neg hirrefl.2]
        rcases lt_trichotomy (rank hash key) (mem a).rank with hr | hr | hr
        · rw [if_neg (mt hzero.mp hr.ne), if_pos (hlt.mpr hr), if_pos hr]
        · rw [if_pos (hzero.mpr hr), if_neg hr.not_lt, if_neg hr.not_gt]
        · rw [if_neg (mt hzero.mp hr.ne'), if_neg (mt hlt.mp hr.not_gt), if_neg hr.not_gt,
            if_pos hr]
      · have hrank : (mem a).rank < rank hash key := rank_lt_of_hash hgt _ _
        rw [if_neg (UInt32.lt_asymm hgt), if_pos hgt, if_neg hrank.not_gt, if_pos hrank]

theorem rateRbtreeInsert_eq_insert (mem : ℕ → RateNode) (node : ℕ) (t : SearchTree ℕ) :
    rateRbtreeInsert mem node t = t.insert (fun a => (mem a).rank) node := by
  induction t with
  | leaf => rfl
  | node left a right ihl ihr =>
      rw [rateRbtreeInsert, SearchTree.insert, ihl, ihr]
      rcases hash_trichotomy (mem node).hash (mem a).hash with hlt | heq | hgt
      · have hrank : (mem node).rank < (mem a).rank := rank_lt_of_hash hlt _ _
        rw [if_pos hlt, if_pos hrank]
      · have hcmp : keyCmp (mem node).key (mem a).key < 0 ↔ (mem node).rank < (mem a).rank :=
          (keyCmp_spec heq _ _).1
        rw [if_neg (heq ▸ UInt32.lt_irrefl _), if_neg (heq ▸ UInt32.lt_irrefl _)]
        by_cases hneg : keyCmp (mem node).key (mem a).key < 0
        · rw [if_pos hneg, if_pos (hcmp.mp hneg)]
        · rw [if_neg hneg, if_neg (mt hcmp.mpr hneg)]
      · have hrank : (mem a).rank < (mem node).rank := rank_lt_of_hash hgt _ _
        rw [if_neg (UInt32.lt_asymm hgt), if_pos hgt, if_neg hrank.not_gt]

/-! ## Well-formed zones -/

/-- The tree is in order, and it holds the nodes of the queue, each of which has
the hash of its key. -/
structure RateShctx.Wf (ngx : Ngx) (sh : RateShctx) : Prop where
  ordered : sh.rbtree.Ordered fun a => (sh.mem a).rank
  perm : sh.lru.Perm sh.rbtree.toList
  hash_eq : ∀ a ∈ sh.lru, (sh.mem a).hash = ngx.crc32Short (sh.mem a).key

theorem wf_init : RateShctx.init.Wf ngx :=
  ⟨List.Pairwise.nil, List.Perm.refl _, by simp [RateShctx.init]⟩

/-- What the zone holds about a client. -/
def client (sh : RateShctx) (key : Bytes) : Option RateNode :=
  (rateLookup sh.mem key (ngx.crc32Short key) sh.rbtree).map sh.mem

variable {ngx} {sh : RateShctx}

theorem rateLookup_eq_some_iff (hwf : sh.Wf ngx) {key : Bytes} {a : ℕ} :
    rateLookup sh.mem key (ngx.crc32Short key) sh.rbtree = some a ↔
      a ∈ sh.lru ∧ (sh.mem a).key = key := by
  rw [rateLookup_eq_find, SearchTree.find_eq_some_iff hwf.ordered, ← hwf.perm.mem_iff,
    RateNode.rank, rank_inj]
  constructor
  · exact fun h => ⟨h.1, h.2.2⟩
  · exact fun h => ⟨h.1, by rw [hwf.hash_eq a h.1, h.2], h.2⟩

theorem client_eq_some_iff (hwf : sh.Wf ngx) {key : Bytes} {node : RateNode} :
    client ngx sh key = some node ↔ ∃ a ∈ sh.lru, sh.mem a = node ∧ node.key = key := by
  simp only [client, Option.map_eq_some_iff, rateLookup_eq_some_iff hwf]
  constructor
  · rintro ⟨a, ⟨ha, hkey⟩, rfl⟩
    exact ⟨a, ha, rfl, hkey⟩
  · rintro ⟨a, ha, rfl, hkey⟩
    exact ⟨a, ⟨ha, hkey⟩, rfl⟩

/-- Two clients' nodes agree if the same nodes of the queue have the client's
key. -/
theorem client_eq_of_forall {sh' : RateShctx} (hwf : sh.Wf ngx) (hwf' : sh'.Wf ngx) {key : Bytes}
    (h : ∀ node, node.key = key →
      ((∃ a ∈ sh'.lru, sh'.mem a = node) ↔ ∃ a ∈ sh.lru, sh.mem a = node)) :
    client ngx sh' key = client ngx sh key := by
  refine Option.ext fun node => ?_
  rw [client_eq_some_iff hwf, client_eq_some_iff hwf']
  constructor
  · rintro ⟨a, ha, hnode, hkey⟩
    obtain ⟨b, hb, hnode'⟩ := (h node hkey).mp ⟨a, ha, hnode⟩
    exact ⟨b, hb, hnode', hkey⟩
  · rintro ⟨a, ha, hnode, hkey⟩
    obtain ⟨b, hb, hnode'⟩ := (h node hkey).mpr ⟨a, ha, hnode⟩
    exact ⟨b, hb, hnode', hkey⟩

/-! ### A node is touched -/

section Touch

theorem lru_touch {entry : ℕ} (hentry : entry ∈ sh.lru) (node : RateNode) :
    (touch entry node sh).lru.Perm sh.lru :=
  (List.perm_append_singleton _ _).trans (List.perm_cons_erase hentry).symm

variable {entry : ℕ} {node : RateNode} (hwf : sh.Wf ngx) (hentry : entry ∈ sh.lru)
  (hhash : node.hash = (sh.mem entry).hash) (hkey : node.key = (sh.mem entry).key)
include hwf hentry hhash hkey

theorem wf_touch : (touch entry node sh).Wf ngx := by
  have hrank : (fun a => ((touch entry node sh).mem a).rank) = fun a => (sh.mem a).rank := by
    funext a
    by_cases ha : a = entry
    · simp [touch, ha, RateNode.rank, hhash, hkey]
    · simp [touch, ha]
  have hlru := lru_touch hentry node
  refine ⟨?_, hlru.trans hwf.perm, fun a ha => ?_⟩
  · rw [hrank]
    exact hwf.ordered
  · by_cases ha' : a = entry
    · simp [touch, ha', hhash, hkey, hwf.hash_eq entry hentry]
    · simpa [touch, ha'] using hwf.hash_eq a (hlru.mem_iff.mp ha)

theorem client_touch_self : client ngx (touch entry node sh) node.key = some node := by
  refine (client_eq_some_iff (wf_touch hwf hentry hhash hkey)).mpr ⟨entry, ?_, ?_, rfl⟩
  · exact (lru_touch hentry node).mem_iff.mpr hentry
  · simp [touch]

theorem client_touch_of_ne {key : Bytes} (hne : key ≠ node.key) :
    client ngx (touch entry node sh) key = client ngx sh key := by
  refine client_eq_of_forall hwf (wf_touch hwf hentry hhash hkey) fun other hother => ?_
  have hlru := lru_touch hentry node
  have hmem : ∀ a, a ≠ entry → (touch entry node sh).mem a = sh.mem a := by
    intro a ha
    simp [touch, ha]
  constructor
  · rintro ⟨a, ha, rfl⟩
    have ha' : a ≠ entry := by
      rintro rfl
      exact hne (by rw [← hother]; simp [touch])
    exact ⟨a, hlru.mem_iff.mp ha, (hmem a ha').symm⟩
  · rintro ⟨a, ha, rfl⟩
    have ha' : a ≠ entry := by
      rintro rfl
      exact hne (by rw [← hother, hkey])
    exact ⟨a, hlru.mem_iff.mpr ha, hmem a ha'⟩

end Touch

/-! ### Nodes are removed -/

/-- A node at the head of the queue is removed. -/
theorem wf_rbtreeDelete {entry : ℕ} {lru : List ℕ} (hwf : sh.Wf ngx)
    (hlru : sh.lru = entry :: lru) :
    ({ sh with lru := lru, rbtree := ngx.rbtreeDelete sh.rbtree entry } : RateShctx).Wf ngx := by
  refine ⟨?_, ?_, fun a ha => ?_⟩
  · unfold SearchTree.Ordered
    rw [ngx.toList_rbtreeDelete]
    exact hwf.ordered.sublist List.erase_sublist
  · have hperm := hwf.perm.erase entry
    rw [hlru, List.erase_cons_head] at hperm
    simpa only [ngx.toList_rbtreeDelete] using hperm
  · exact hwf.hash_eq a (hlru ▸ List.mem_cons_of_mem _ ha)

theorem wf_evictOldest (hwf : sh.Wf ngx) : (evictOldest ngx sh).Wf ngx := by
  unfold evictOldest
  split
  · exact hwf
  · rename_i hlru
    exact wf_rbtreeDelete hwf hlru

theorem rateExpire_cons {entry : ℕ} {lru : List ℕ} (hlru : sh.lru = entry :: lru)
    (now window : UInt64) :
    rateExpire ngx now window sh =
      if now - (sh.mem entry).windowStart ≤ window then sh
      else rateExpire ngx now window
        { sh with lru := lru, rbtree := ngx.rbtreeDelete sh.rbtree entry } := by
  unfold rateExpire
  rw [hlru, rateExpireLoop]
  split_ifs
  · simp [← hlru]
  · rfl

/-- Expiry keeps the zone well formed, changes no node, and removes only nodes
whose window has passed. -/
theorem rateExpire_spec (hwf : sh.Wf ngx) (now window : UInt64) :
    (rateExpire ngx now window sh).Wf ngx ∧ (rateExpire ngx now window sh).mem = sh.mem ∧
      (∀ a ∈ (rateExpire ngx now window sh).lru, a ∈ sh.lru) ∧
      ∀ a ∈ sh.lru, a ∈ (rateExpire ngx now window sh).lru ∨
        window < now - (sh.mem a).windowStart := by
  induction hlru : sh.lru generalizing sh with
  | nil =>
      have hsame : rateExpire ngx now window sh = sh := by
        unfold rateExpire
        rw [hlru, rateExpireLoop, ← hlru]
      rw [hsame, hlru]
      exact ⟨hwf, rfl, by simp, by simp⟩
  | cons entry lru ih =>
      rw [rateExpire_cons hlru]
      split_ifs with hfresh
      · rw [hlru]
        exact ⟨hwf, rfl, fun a ha => ha, fun a ha => .inl ha⟩
      · obtain ⟨hwf', hmem, hsub, hkept⟩ := ih (wf_rbtreeDelete hwf hlru) rfl
        refine ⟨hwf', hmem, fun a ha => List.mem_cons_of_mem _ (hsub a ha), fun a ha => ?_⟩
        rcases List.mem_cons.mp ha with rfl | ha
        · exact .inr (not_le.mp hfresh)
        · exact hkept a ha

theorem client_rateExpire (hwf : sh.Wf ngx) (now window : UInt64) (key : Bytes) :
    client ngx (rateExpire ngx now window sh) key = client ngx sh key ∨
      client ngx (rateExpire ngx now window sh) key = none ∧
        ∃ node, client ngx sh key = some node ∧ window < now - node.windowStart := by
  obtain ⟨hwf', hmem, hsub, hkept⟩ := rateExpire_spec hwf now window
  cases hclient : client ngx (rateExpire ngx now window sh) key with
  | some node =>
      obtain ⟨a, ha, hnode, hkey⟩ := (client_eq_some_iff hwf').mp hclient
      rw [hmem] at hnode
      exact .inl ((client_eq_some_iff hwf).mpr ⟨a, hsub a ha, hnode, hkey⟩).symm
  | none =>
      cases hbefore : client ngx sh key with
      | none => exact .inl rfl
      | some node =>
          obtain ⟨a, ha, rfl, hkey⟩ := (client_eq_some_iff hwf).mp hbefore
          rcases hkept a ha with hkept | hpassed
          · rw [(client_eq_some_iff hwf').mpr ⟨a, hkept, congrFun hmem a, hkey⟩] at hclient
            exact absurd hclient (by simp)
          · exact .inr ⟨rfl, _, rfl, hpassed⟩

theorem lru_rateExpire_eq_nil (hwf : sh.Wf ngx) {now window : UInt64}
    (hpassed : ∀ a ∈ sh.lru, window < now - (sh.mem a).windowStart) :
    (rateExpire ngx now window sh).lru = [] := by
  induction hlru : sh.lru generalizing sh with
  | nil =>
      unfold rateExpire
      rw [hlru, rateExpireLoop]
  | cons entry lru ih =>
      rw [hlru] at hpassed
      obtain ⟨hentry, hrest⟩ := List.forall_mem_cons.mp hpassed
      rw [rateExpire_cons hlru, if_neg (not_le.mpr hentry)]
      exact ih (wf_rbtreeDelete hwf hlru) hrest rfl

/-! ### A node is added -/

theorem slabAlloc_not_mem {ok : Bool} {entry : ℕ} (h : slabAlloc ok sh = some entry) :
    entry ∉ sh.lru := by
  have hle : ∀ {l : List ℕ} {a : ℕ}, a ∈ l → a ≤ l.foldr max 0 := by
    intro l a ha
    induction l with
    | nil => simp at ha
    | cons b l ih =>
        rcases List.mem_cons.mp ha with rfl | ha
        · exact le_max_left _ _
        · exact (ih ha).trans (le_max_right _ _)
  intro hmem
  unfold slabAlloc at h
  split_ifs at h
  have := hle hmem
  have := Option.some.inj h
  omega

theorem key_ne_of_client_eq_none (hwf : sh.Wf ngx) {key : Bytes}
    (hnew : client ngx sh key = none) : ∀ a ∈ sh.lru, (sh.mem a).key ≠ key := by
  intro a ha hkey
  rw [(client_eq_some_iff hwf).mpr ⟨a, ha, rfl, hkey⟩] at hnew
  exact absurd hnew (by simp)

section Link

variable {entry : ℕ} {node : RateNode} (hwf : sh.Wf ngx) (hentry : entry ∉ sh.lru)
  (hhash : node.hash = ngx.crc32Short node.key) (hnew : client ngx sh node.key = none)
include hwf hentry hhash hnew

theorem wf_linkNode : (linkNode ngx entry node sh).Wf ngx := by
  have hmem : ∀ a ∈ sh.lru, (linkNode ngx entry node sh).mem a = sh.mem a := by
    intro a ha
    have hne : a ≠ entry := fun h => hentry (h ▸ ha)
    simp [linkNode, hne]
  have hself : (linkNode ngx entry node sh).mem entry = node := by simp [linkNode]
  have hlist : (linkNode ngx entry node sh).rbtree.toList = (sh.rbtree.insert
      (fun a => ((linkNode ngx entry node sh).mem a).rank) entry).toList := by
    simp only [linkNode, ngx.toList_rebalance, rateRbtreeInsert_eq_insert]
  refine ⟨?_, ?_, fun a ha => ?_⟩
  · -- the new node has a rank of its own, and the other ranks have not changed
    have hordered : sh.rbtree.Ordered fun a => ((linkNode ngx entry node sh).mem a).rank := by
      refine hwf.ordered.imp_of_mem fun {a b} ha hb hlt => ?_
      simp only [hmem a (hwf.perm.mem_iff.mpr ha), hmem b (hwf.perm.mem_iff.mpr hb)]
      exact hlt
    unfold SearchTree.Ordered
    rw [hlist]
    refine SearchTree.ordered_insert hordered fun a ha heq => ?_
    have ha' := hwf.perm.mem_iff.mpr ha
    rw [hmem a ha', hself] at heq
    exact key_ne_of_client_eq_none hwf hnew a ha' (rank_inj.mp heq).2
  · rw [hlist]
    calc sh.lru ++ [entry]
        _ ~ entry :: sh.lru := List.perm_append_singleton _ _
        _ ~ entry :: sh.rbtree.toList := hwf.perm.cons _
        _ ~ _ := (SearchTree.toList_insert _ _ _).symm
  · rcases List.mem_append.mp ha with ha | ha
    · rw [hmem a ha]
      exact hwf.hash_eq a ha
    · rw [List.mem_singleton.mp ha, hself]
      exact hhash

theorem client_linkNode_self : client ngx (linkNode ngx entry node sh) node.key = some node :=
  (client_eq_some_iff (wf_linkNode hwf hentry hhash hnew)).mpr
    ⟨entry, List.mem_append_right _ (List.mem_singleton_self _), by simp [linkNode], rfl⟩

theorem client_linkNode_of_ne {key : Bytes} (hne : key ≠ node.key) :
    client ngx (linkNode ngx entry node sh) key = client ngx sh key := by
  refine client_eq_of_forall hwf (wf_linkNode hwf hentry hhash hnew) fun other hother => ?_
  constructor
  · rintro ⟨a, ha, rfl⟩
    rcases List.mem_append.mp ha with ha | ha
    · have hne' : a ≠ entry := fun h => hentry (h ▸ ha)
      exact ⟨a, ha, by simp [linkNode, hne']⟩
    · rw [List.mem_singleton.mp ha] at hother
      exact absurd (by simp [← hother, linkNode]) hne
  · rintro ⟨a, ha, rfl⟩
    have hne' : a ≠ entry := fun h => hentry (h ▸ ha)
    exact ⟨a, List.mem_append_left _ ha, by simp [linkNode, hne']⟩

end Link

/-! ## What a call does -/

/-- The limiter accepts the text of the client's address. -/
def RateCall.Valid (call : RateCall) : Prop :=
  ¬ (call.clientKey.length = 0 ∨ call.clientKey.length > sockaddrStrlen)

instance (call : RateCall) : Decidable call.Valid := inferInstanceAs (Decidable (¬ _))

variable {call : RateCall}

theorem rateHit_key (call : RateCall) (node : RateNode) :
    (rateHit call node).2.hash = node.hash ∧ (rateHit call node).2.key = node.key := by
  unfold rateHit
  split_ifs <;> exact ⟨rfl, rfl⟩

theorem rateLimit_of_client {node : RateNode} (hwf : sh.Wf ngx) (hvalid : call.Valid)
    (hclient : client ngx sh call.clientKey = some node) :
    ∃ entry ∈ sh.lru, sh.mem entry = node ∧ node.key = call.clientKey ∧
      rateLimit ngx call sh = ((rateHit call node).1, touch entry (rateHit call node).2 sh) := by
  obtain ⟨entry, hlookup, rfl⟩ := Option.map_eq_some_iff.mp hclient
  obtain ⟨hentry, hkey⟩ := (rateLookup_eq_some_iff hwf).mp hlookup
  refine ⟨entry, hentry, rfl, hkey, ?_⟩
  unfold rateLimit
  rw [if_neg hvalid, hlookup]

theorem rateLimit_of_client_eq_none (hvalid : call.Valid)
    (hclient : client ngx sh call.clientKey = none) :
    rateLimit ngx call sh = rateMiss ngx call sh := by
  have hlookup := Option.map_eq_none_iff.mp hclient
  unfold rateLimit
  rw [if_neg hvalid, hlookup]

theorem client_evictOldest_eq_none (hwf : sh.Wf ngx) {key : Bytes}
    (hclient : client ngx sh key = none) : client ngx (evictOldest ngx sh) key = none := by
  rw [Option.eq_none_iff_forall_ne_some] at hclient ⊢
  intro node hnode
  obtain ⟨a, ha, hmem, hkey⟩ := (client_eq_some_iff (wf_evictOldest hwf)).mp hnode
  refine hclient node ((client_eq_some_iff hwf).mpr ⟨a, ?_, ?_, hkey⟩)
  · unfold evictOldest at ha
    split at ha
    · exact ha
    · rename_i hlru
      exact hlru ▸ List.mem_cons_of_mem _ ha
  · unfold evictOldest at hmem
    split at hmem <;> exact hmem

theorem client_rateExpire_eq_none (hwf : sh.Wf ngx) (now window : UInt64) {key : Bytes}
    (hclient : client ngx sh key = none) :
    client ngx (rateExpire ngx now window sh) key = none := by
  rcases client_rateExpire hwf now window key with h | ⟨h, -⟩
  · rw [h, hclient]
  · exact h

/-- With memory, a client without a node gets one once the others have been
expired. -/
theorem rateLimit_of_alloc (hwf : sh.Wf ngx) (hvalid : call.Valid) (halloc : call.allocOk = true)
    (hclient : client ngx sh call.clientKey = none) :
    ∃ entry, entry ∉ (rateExpire ngx call.now call.window sh).lru ∧
      client ngx (rateExpire ngx call.now call.window sh) (call.node ngx).key = none ∧
      rateLimit ngx call sh = (.created, linkNode ngx entry (call.node ngx)
        (rateExpire ngx call.now call.window sh)) := by
  rw [rateLimit_of_client_eq_none hvalid hclient]
  simp only [rateMiss]
  cases hentry : slabAlloc call.allocOk (rateExpire ngx call.now call.window sh) with
  | none => simp [slabAlloc, halloc] at hentry
  | some entry =>
      exact ⟨entry, slabAlloc_not_mem hentry,
        client_rateExpire_eq_none hwf call.now call.window hclient, rfl⟩

theorem wf_rateMiss (hwf : sh.Wf ngx) (hclient : client ngx sh call.clientKey = none) :
    (rateMiss ngx call sh).2.Wf ngx := by
  have hwf' := (rateExpire_spec hwf call.now call.window).1
  have hnone : client ngx (rateExpire ngx call.now call.window sh) (call.node ngx).key = none :=
    client_rateExpire_eq_none hwf call.now call.window hclient
  simp only [rateMiss]
  cases halloc : slabAlloc call.allocOk (rateExpire ngx call.now call.window sh) with
  | some entry => exact wf_linkNode hwf' (slabAlloc_not_mem halloc) rfl hnone
  | none =>
      simp only
      split_ifs
      · exact hwf'
      · have hwf'' := wf_evictOldest hwf'
        cases hrealloc : slabAlloc call.reallocOk
            (evictOldest ngx (rateExpire ngx call.now call.window sh)) with
        | some entry =>
            exact wf_linkNode hwf'' (slabAlloc_not_mem hrealloc) rfl
              (client_evictOldest_eq_none hwf' hnone)
        | none => exact hwf''

/-- **Every call keeps the zone well formed.** -/
theorem wf_rateLimit (hwf : sh.Wf ngx) (call : RateCall) : (rateLimit ngx call sh).2.Wf ngx := by
  by_cases hvalid : call.Valid
  · cases hclient : client ngx sh call.clientKey with
    | some node =>
        obtain ⟨entry, hentry, rfl, -, heq⟩ := rateLimit_of_client hwf hvalid hclient
        obtain ⟨hhash, hkey⟩ := rateHit_key call (sh.mem entry)
        rw [heq]
        exact wf_touch hwf hentry hhash hkey
    | none =>
        rw [rateLimit_of_client_eq_none hvalid hclient]
        exact wf_rateMiss hwf hclient
  · unfold rateLimit
    rw [if_pos (not_not.mp hvalid)]
    exact hwf

/-! ## Zones -/

/-- A rate zone as the limiter keeps it. -/
structure RateZone (ngx : Ngx) extends RateShctx where
  wf : toRateShctx.Wf ngx

namespace RateZone

variable (ngx) in
def empty : RateZone ngx := ⟨.init, wf_init ngx⟩

/-- One call of the limiter. -/
def serve (call : RateCall) (z : RateZone ngx) : Verdict × RateZone ngx :=
  ((rateLimit ngx call z.toRateShctx).1, ⟨(rateLimit ngx call z.toRateShctx).2,
    wf_rateLimit z.wf call⟩)

/-- The calls of a run, each with its verdict. -/
def serveAll : List RateCall → RateZone ngx → List (RateCall × Verdict)
  | [], _ => []
  | call :: calls, z => (call, (z.serve call).1) :: serveAll calls (z.serve call).2

/-- The zone after a run. -/
def after (calls : List RateCall) (z : RateZone ngx) : RateZone ngx :=
  calls.foldl (fun z call => (z.serve call).2) z

theorem serveAll_append (calls calls' : List RateCall) (z : RateZone ngx) :
    z.serveAll (calls ++ calls') = z.serveAll calls ++ (z.after calls).serveAll calls' := by
  induction calls generalizing z with
  | nil => rfl
  | cons call calls ih => simp [serveAll, after, ih]

/-- What holds of every single call holds of every call of a run. -/
theorem forall_mem_serveAll {P : RateCall × Verdict → Prop} {calls : List RateCall}
    (h : ∀ call ∈ calls, ∀ z : RateZone ngx, P (call, (z.serve call).1)) (z : RateZone ngx) :
    ∀ e ∈ z.serveAll calls, P e := by
  induction calls generalizing z with
  | nil => simp [serveAll]
  | cons call calls ih =>
      obtain ⟨hcall, hcalls⟩ := List.forall_mem_cons.mp h
      exact List.forall_mem_cons.mpr ⟨hcall z, ih hcalls _⟩

/-- What the zone holds about a client. -/
def client (z : RateZone ngx) (key : Bytes) : Option RateNode :=
  Gateway.client ngx z.toRateShctx key

variable {z : RateZone ngx}

/-- A client with a node gets what `rateHit` says, and no other client is
touched. -/
theorem serve_hit {node : RateNode} (hvalid : call.Valid)
    (hclient : z.client call.clientKey = some node) :
    (z.serve call).1 = (rateHit call node).1 ∧
      (z.serve call).2.client call.clientKey = some (rateHit call node).2 ∧
      ∀ key, key ≠ call.clientKey → (z.serve call).2.client key = z.client key := by
  obtain ⟨entry, hentry, rfl, hcall, heq⟩ := rateLimit_of_client z.wf hvalid hclient
  obtain ⟨hhash, hkey⟩ := rateHit_key call (z.mem entry)
  simp only [serve, client, heq, ← hcall, ← hkey]
  exact ⟨trivial, client_touch_self z.wf hentry hhash hkey,
    fun key hne => client_touch_of_ne z.wf hentry hhash hkey hne⟩

/-- A client without a node gets one if there is memory, and only nodes whose
window has passed are lost. -/
theorem serve_miss (hvalid : call.Valid) (halloc : call.allocOk = true)
    (hclient : z.client call.clientKey = none) :
    (z.serve call).1 = .created ∧
      (z.serve call).2.client call.clientKey = some (call.node ngx) ∧
      ∀ key, key ≠ call.clientKey → (z.serve call).2.client key = z.client key ∨
        (z.serve call).2.client key = none ∧
          ∃ node, z.client key = some node ∧ call.window < call.now - node.windowStart := by
  have hwf := (rateExpire_spec z.wf call.now call.window).1
  obtain ⟨entry, hfresh, hnone, heq⟩ := rateLimit_of_alloc z.wf hvalid halloc hclient
  simp only [serve, client, heq]
  refine ⟨trivial, client_linkNode_self hwf hfresh rfl hnone, fun key hne => ?_⟩
  rw [client_linkNode_of_ne hwf hfresh rfl hnone hne]
  exact client_rateExpire z.wf call.now call.window key

/-- If every window has passed by the measure of the call, every other client is
lost. -/
theorem serve_miss_of_passed (hvalid : call.Valid) (halloc : call.allocOk = true)
    (hclient : z.client call.clientKey = none)
    (hpassed : ∀ key node, z.client key = some node → call.window < call.now - node.windowStart)
    {key : Bytes} (hne : key ≠ call.clientKey) : (z.serve call).2.client key = none := by
  have hwf := (rateExpire_spec z.wf call.now call.window).1
  obtain ⟨entry, hfresh, hnone, heq⟩ := rateLimit_of_alloc z.wf hvalid halloc hclient
  have hlru : (rateExpire ngx call.now call.window z.toRateShctx).lru = [] :=
    lru_rateExpire_eq_nil z.wf fun a ha =>
      hpassed _ _ ((client_eq_some_iff z.wf).mpr ⟨a, ha, rfl, rfl⟩)
  simp only [serve, client, heq]
  rw [client_linkNode_of_ne hwf hfresh rfl hnone hne, Option.eq_none_iff_forall_ne_some]
  intro node hnode
  obtain ⟨a, ha, -⟩ := (client_eq_some_iff hwf).mp hnode
  rw [hlru] at ha
  simp at ha

/-- A call for an address the limiter does not accept changes nothing. -/
theorem serve_invalid (hvalid : ¬ call.Valid) :
    (z.serve call).1 = .badAddress ∧ ∀ key, (z.serve call).2.client key = z.client key := by
  simp only [serve, client, rateLimit, if_pos (not_not.mp hvalid), implies_true, and_self]

end RateZone

/-! ## The zone after any run -/

/-- The zone after a run of calls from its initialisation on. -/
def rateRun (ngx : Ngx) (calls : List RateCall) : RateShctx :=
  calls.foldl (fun sh call => (rateLimit ngx call sh).2) .init

theorem wf_foldl_rateLimit (calls : List RateCall) (hwf : sh.Wf ngx) :
    (calls.foldl (fun sh call => (rateLimit ngx call sh).2) sh).Wf ngx := by
  induction calls generalizing sh with
  | nil => exact hwf
  | cons call calls ih => exact ih (wf_rateLimit hwf call)

theorem RateShctx.Wf.nodup (hwf : sh.Wf ngx) : sh.rbtree.toList.Nodup := by
  refine hwf.ordered.imp fun {a b} hlt heq => ?_
  rw [heq] at hlt
  exact lt_irrefl _ hlt

/-- The tree holds one node per key at most. -/
theorem RateShctx.Wf.nodup_keys (hwf : sh.Wf ngx) :
    (sh.rbtree.toList.map fun a => (sh.mem a).key).Nodup := by
  refine hwf.nodup.map_on fun a ha b hb hkey => ?_
  -- both are what a lookup of the key finds
  have hfind := (rateLookup_eq_some_iff hwf).mpr ⟨hwf.perm.mem_iff.mpr ha, hkey⟩
  have hfind' := (rateLookup_eq_some_iff hwf).mpr ⟨hwf.perm.mem_iff.mpr hb, rfl⟩
  exact Option.some.inj (hfind.symm.trans hfind')

/-- **The structure of the zone.**  Whatever calls have been made, at whatever
times and with whatever luck in allocation, the tree is in the order of hash, key
length and key, it holds one node per key at most, and it holds the nodes of the
queue, each of them once.  So a lookup finds the node of a client exactly when
there is one, however the hashes collide. -/
theorem rateRun_structure (ngx : Ngx) (calls : List RateCall) :
    (rateRun ngx calls).rbtree.toList.Pairwise (fun a b =>
      rank ((rateRun ngx calls).mem a).hash ((rateRun ngx calls).mem a).key <
        rank ((rateRun ngx calls).mem b).hash ((rateRun ngx calls).mem b).key) ∧
    ((rateRun ngx calls).rbtree.toList.map fun a => ((rateRun ngx calls).mem a).key).Nodup ∧
    (rateRun ngx calls).rbtree.toList.Nodup ∧ (rateRun ngx calls).lru.Nodup ∧
    (∀ a, a ∈ (rateRun ngx calls).rbtree.toList ↔ a ∈ (rateRun ngx calls).lru) ∧
    ∀ key a, rateLookup (rateRun ngx calls).mem key (ngx.crc32Short key)
      (rateRun ngx calls).rbtree = some a ↔
        a ∈ (rateRun ngx calls).lru ∧ ((rateRun ngx calls).mem a).key = key := by
  have hwf : (rateRun ngx calls).Wf ngx := wf_foldl_rateLimit calls (wf_init ngx)
  refine ⟨hwf.ordered, hwf.nodup_keys, hwf.nodup, ?_, ?_, ?_⟩
  · exact hwf.perm.nodup_iff.mpr hwf.nodup
  · exact fun a => hwf.perm.mem_iff.symm
  · exact fun key a => rateLookup_eq_some_iff hwf

end Dmmr.Gateway
