import Dmmr.Gateway.Auth
import Dmmr.Lib.Handles

/-!
# The gateway's connection to the cache

A worker process keeps its connection to the cache in a static variable, as if it were to
be used again.  `ngx_http_dmmr_cache_prepare_conn` closes what it finds there, connects and
stores the new descriptor with a copy of the address; the request function also has the
descriptor in a local variable, which outlives the connection.

Here the static variable is part of the state, and every socket, every list of addresses
and every copy of an address is recorded when it is obtained, used and given back.  Over
all the requests of a worker the record is in order, the connection is closed between
requests, and the answers are those of `sendCacheRequest`, which knows nothing of a
connection (`worker_serve_eq`).
-/

namespace Dmmr.Gateway

open Words Handles

/-! ## State -/

/-- What a worker obtains from the system: a socket, the result of `getaddrinfo`, and
memory. -/
inductive Resource
  | descriptor (fd : ℕ)
  | addresses
  | block (b : ℕ)
  deriving DecidableEq, Repr

/-- `ngx_http_dmmr_cache_conn_t`; a descriptor of `-1` and a `NULL` are `none`.  The copy of
the address is the block it lies in, with its bytes. -/
structure CacheConn where
  fd : Option ℕ
  address : Option (ℕ × Bytes)
  addressLen : ℕ
  deriving DecidableEq, Repr

/-- No connection. -/
def CacheConn.closed : CacheConn := ⟨none, none, 0⟩

/-- A worker: `ngx_http_dmmr_cache_conn`, and what it has done with its resources so far. -/
structure Worker where
  cacheConn : CacheConn
  ops : List (Op Resource)

def Worker.init : Worker := ⟨.closed, []⟩

def Worker.record (w : Worker) (ops : List (Op Resource)) : Worker :=
  { w with ops := w.ops ++ ops }

/-- What the system does while one address is tried: the descriptor `socket` returns, what
becomes of a `connect` to a path, what `getaddrinfo` finds and for each address whether
`connect` succeeds, the memory for the copy of the address, and the calls of `send` and
`recv`. -/
structure TryEnv where
  socket : Option ℕ
  unixConnect : Bool
  getaddrinfo : Option (List Bool)
  alloc : Option ℕ
  sends : List SendCall
  segments : List Bytes

/-- The same without descriptors and memory. -/
def TryEnv.attempt (env : TryEnv) (cacheAddr : Bytes) : Attempt where
  socketOk := env.socket.isSome
  resolveOk := env.getaddrinfo.isSome
  connectOk :=
    if strncmpEq cacheAddr (ascii "unix:") 5 then env.unixConnect
    else (env.getaddrinfo.getD []).any id
  addressAlloc := env.alloc.isSome
  sends := env.sends
  segments := env.segments

/-! ## The functions -/

/-- How many addresses are tried: those up to the first that can be reached. -/
def connectCalls : List Bool → ℕ
  | [] => 0
  | true :: _ => 1
  | false :: connects => connectCalls connects + 1

namespace Worker

/-- `ngx_http_dmmr_cache_close_conn`. -/
def cacheCloseConn (w : Worker) : Worker :=
  let w :=
    match w.cacheConn.fd with
    | some fd =>
        { w.record [.release (.descriptor fd)] with cacheConn := { w.cacheConn with fd := none } }
    | none => w
  let w :=
    match w.cacheConn.address with
    | some (b, _) =>
        { w.record [.release (.block b)] with cacheConn := { w.cacheConn with address := none } }
    | none => w
  { w with cacheConn := { w.cacheConn with addressLen := 0 } }

/-- The part of `ngx_http_dmmr_cache_connect_new` that connects to a path. -/
def connectUnix (env : TryEnv) (w : Worker) : Option ℕ × Worker :=
  match env.socket with
  | none => (none, w)
  | some fd =>
      let w := w.record [.acquire (.descriptor fd), .use (.descriptor fd)]
      if env.unixConnect then (some fd, w) else (none, w.record [.release (.descriptor fd)])

/-- The part that connects to a host: all its addresses are tried on the one socket. -/
def connectTcp (env : TryEnv) (w : Worker) : Option ℕ × Worker :=
  match env.socket with
  | none => (none, w)
  | some fd =>
      let w := w.record [.acquire (.descriptor fd)]
      match env.getaddrinfo with
      | none => (none, w.record [.release (.descriptor fd)])
      | some connects =>
          let w := w.record (.acquire .addresses ::
            (List.replicate (connectCalls connects) (.use (.descriptor fd)) ++
              [.release .addresses]))
          if connects.any id then (some fd, w) else (none, w.record [.release (.descriptor fd)])

/-- `ngx_http_dmmr_cache_connect_new`: the descriptor, `none` for `-1`. -/
def cacheConnectNew (env : TryEnv) (cacheAddr : Bytes) (w : Worker) : Option ℕ × Worker :=
  if cacheAddr.length = 0 then (none, w)
  else if strncmpEq cacheAddr (ascii "unix:") 5 then
    let pathLen := cacheAddr.length - 5
    if pathLen = 0 ∨ pathLen ≥ sunPathSize then (none, w) else w.connectUnix env
  else
    let start := if strncmpEq cacheAddr (ascii "tcp:") 4 then cacheAddr.drop 4 else cacheAddr
    let host := start.takeWhile (· ≠ 58)
    match start.drop host.length with
    | [] => (none, w)
    | _ :: port =>
        if host.length = 0 ∨ port.length = 0 ∨ host.length ≥ 256 ∨ port.length ≥ 16 then (none, w)
        else w.connectTcp env

/-- `ngx_http_dmmr_cache_prepare_conn`: `fd_out`, which is `-1` exactly with `NGX_ERROR`. -/
def cachePrepareConn (env : TryEnv) (cacheAddr : Bytes) (w : Worker) : Option ℕ × Worker :=
  match w.cacheCloseConn.cacheConnectNew env cacheAddr with
  | (none, w) => (none, w)
  | (some fd, w) =>
      match env.alloc with
      | none => (none, w.record [.release (.descriptor fd)])
      | some b =>
          (some fd,
            { w.record [.acquire (.block b)] with
              cacheConn := ⟨some fd, some (b, cacheAddr ++ [0]), cacheAddr.length⟩ })

end Worker

/-- How far an exchange comes: sending, receiving the header, receiving the body. -/
def exchangePhases (a : Attempt) (request : Bytes) : ℕ :=
  if !sendFull a.sends request.length then 1
  else
    let header := (recvLoop a.segments 8).1
    if header.length < 8 ∨ Endian.big.field 2 4 header > bufSize - 8 then 2 else 3

namespace Worker

/-- The two loops of `ngx_http_dmmr_send_cache_request`; `fd` is its local variable, and `i`
counts the tries. -/
def tryCandidates (envs : ℕ → TryEnv) (request : Bytes) :
    ℕ → List Bytes → Option ℕ → Worker → Option CacheResponse × Option ℕ × Worker
  | _, [], fd, w => (none, fd, w)
  | i, addr :: addrs, _, w =>
      match w.cachePrepareConn (envs i) addr with
      | (none, w) => tryCandidates envs request (i + 1) addrs none w
      | (some fd, w) =>
          let a := (envs i).attempt addr
          let w := w.record (List.replicate (exchangePhases a request) (.use (.descriptor fd)))
          -- every way out of the body closes the connection
          match cacheExchange a request with
          | some response => (some response, some fd, w.cacheCloseConn)
          | none => tryCandidates envs request (i + 1) addrs (some fd) w.cacheCloseConn

/-- `ngx_http_dmmr_send_cache_request`. -/
def sendCacheRequest (pool : PoolEnv) (envs : ℕ → TryEnv) (conf : Option Conf) (apiKey : Bytes)
    (w : Worker) : (Rc × Option NgxStr) × Worker :=
  match conf with
  | none => ((.error, none), w)
  | some kcf =>
      if apiKey.length > bufSize - frameHeaderSize then ((.error, none), w)
      else
        let addrs := candidates kcf.cacheAddr
        match w.tryCandidates envs (cacheRequest apiKey) 0 (addrs ++ addrs) none with
        | (none, fd, w) => ((.error, none), if fd.isSome then w.cacheCloseConn else w)
        | (some response, _, w) =>
            if response.status = 0 then
              ((.ok, some ⟨response.body.length,
                if pool.userInfo then some response.body else none⟩), w)
            else ((.declined, none), w)

end Worker

/-- A call of `ngx_http_dmmr_send_cache_request` and what happens during it. -/
structure CacheCall where
  pool : PoolEnv
  conf : Option Conf
  apiKey : Bytes
  envs : ℕ → TryEnv

/-- The calls a worker makes, one after the other, with their answers. -/
def Worker.serve : List CacheCall → Worker → List (Rc × Option NgxStr) × Worker
  | [], w => ([], w)
  | c :: calls, w =>
      let (answer, w) := w.sendCacheRequest c.pool c.envs c.conf c.apiKey
      let (answers, w) := serve calls w
      (answer :: answers, w)

/-- What happens at each try, without descriptors and memory. -/
def CacheCall.attempts (c : CacheCall) (i : ℕ) : Attempt :=
  let addrs := candidates (c.conf.elim [] Conf.cacheAddr)
  (c.envs i).attempt ((addrs ++ addrs).getD i [])

/-- The answer without a connection. -/
def CacheCall.answer (c : CacheCall) : Rc × Option NgxStr :=
  sendCacheRequest c.pool c.attempts c.conf c.apiKey

/-! ## One try -/

namespace Worker

/-- There is no connection, and everything has been given back. -/
structure Idle (w : Worker) : Prop where
  closed : w.cacheConn = CacheConn.closed
  inOrder : run w.ops ∅ = some ∅

/-- There is a connection, and its descriptor and the copy of the address are all that has
to be given back. -/
structure Open (fd : ℕ) (w : Worker) : Prop where
  connected : ∃ b copy addressLen, w.cacheConn = ⟨some fd, some (b, copy), addressLen⟩ ∧
    run w.ops ∅ = some {Resource.descriptor fd, Resource.block b}

variable {w : Worker} {env : TryEnv} {cacheAddr : Bytes} {fd : ℕ}

theorem Idle.init : Worker.init.Idle := ⟨rfl, rfl⟩

/-- What is closed need not be closed. -/
theorem Idle.cacheCloseConn (h : w.Idle) : w.cacheCloseConn = w := by
  obtain ⟨⟨fd, address, addressLen⟩, ops⟩ := w
  obtain ⟨rfl, rfl, rfl⟩ := CacheConn.mk.inj h.closed
  rfl

/-- Closing a connection gives everything back. -/
theorem Open.cacheCloseConn (h : w.Open fd) : w.cacheCloseConn.Idle := by
  obtain ⟨b, copy, addressLen, hconn, hops⟩ := h.connected
  obtain ⟨conn, ops⟩ := w
  subst hconn
  refine ⟨rfl, ?_⟩
  have hclose : run [.release (.descriptor fd), .release (.block b)]
      {Resource.descriptor fd, Resource.block b} = some ∅ := by
    simp [run]
  simpa [Worker.cacheCloseConn, record] using run_trans hops hclose

/-- A connection may be used. -/
theorem Open.uses (h : w.Open fd) (n : ℕ) :
    (w.record (List.replicate n (.use (.descriptor fd)))).Open fd := by
  obtain ⟨b, copy, addressLen, hconn, hops⟩ := h.connected
  refine ⟨b, copy, addressLen, hconn, ?_⟩
  exact run_trans hops (run_replicate_use (Finset.mem_insert_self _ _) n)

/-- What is recorded after a time without a connection. -/
theorem Idle.run_record (h : w.Idle) {ops : List (Op Resource)} {held : Finset Resource}
    (hops : run ops ∅ = some held) : run (w.record ops).ops ∅ = some held :=
  run_trans h.inOrder hops

/-- What an attempt to connect leaves behind, if it succeeds just when `ok` holds: the new
socket is all that has to be given back. -/
structure Connects (ok : Bool) (result : Option ℕ × Worker) : Prop where
  isSome : result.1.isSome = ok
  closed : result.2.cacheConn = CacheConn.closed
  inOrder : run result.2.ops ∅ = some (result.1.elim ∅ fun fd => {.descriptor fd})

theorem Idle.connects_none (h : w.Idle) : Connects false (none, w) := ⟨rfl, h.closed, h.inOrder⟩

/-- A socket that is given back at once. -/
theorem Connects.release (h : Connects true (some fd, w)) :
    Connects false (none, w.record [.release (.descriptor fd)]) :=
  ⟨rfl, h.closed, run_trans h.inOrder (by simp [run])⟩

theorem Idle.connectUnix (h : w.Idle) (env : TryEnv) :
    Connects (env.socket.isSome && env.unixConnect) (w.connectUnix env) := by
  unfold Worker.connectUnix
  cases env.socket with
  | none => exact h.connects_none
  | some fd =>
      have hconnect :
          Connects true (some fd, w.record [.acquire (.descriptor fd), .use (.descriptor fd)]) :=
        ⟨rfl, h.closed, h.run_record (by simp [run])⟩
      cases env.unixConnect with
      | true => exact hconnect
      | false => exact hconnect.release

theorem Idle.connectTcp (h : w.Idle) (env : TryEnv) :
    Connects (env.socket.isSome && env.getaddrinfo.isSome && (env.getaddrinfo.getD []).any id)
      (w.connectTcp env) := by
  unfold Worker.connectTcp
  cases env.socket with
  | none => exact h.connects_none
  | some fd =>
      have hsocket : Connects true (some fd, w.record [.acquire (.descriptor fd)]) :=
        ⟨rfl, h.closed, h.run_record (by simp [run])⟩
      cases env.getaddrinfo with
      | none => exact hsocket.release
      | some connects =>
          have htry : run (.acquire .addresses ::
              (List.replicate (connectCalls connects) (.use (.descriptor fd)) ++
                [.release .addresses])) {Resource.descriptor fd} =
              some {Resource.descriptor fd} := by
            rw [run_acquire (by simp)]
            apply run_trans (run_replicate_use (by simp) _)
            simp [run]
          have hconnect : Connects true (some fd,
              (w.record [.acquire (.descriptor fd)]).record _) :=
            ⟨rfl, h.closed, run_trans hsocket.inOrder htry⟩
          cases hany : connects.any id with
          | true => simpa [hany] using hconnect
          | false => simpa [hany] using hconnect.release

theorem Idle.cacheConnectNew (h : w.Idle) (env : TryEnv) (cacheAddr : Bytes) :
    Connects (Gateway.cacheConnectNew (env.attempt cacheAddr) cacheAddr)
      (w.cacheConnectNew env cacheAddr) := by
  unfold Worker.cacheConnectNew Gateway.cacheConnectNew
  by_cases hlen : cacheAddr.length = 0
  · rw [if_pos hlen, if_pos hlen]
    exact h.connects_none
  rw [if_neg hlen, if_neg hlen]
  by_cases hunix : strncmpEq cacheAddr (ascii "unix:") 5 = true
  · rw [if_pos hunix, if_pos hunix]
    have hconnect := h.connectUnix env
    dsimp only
    split_ifs
    · exact h.connects_none
    · simpa [TryEnv.attempt, hunix] using hconnect
  · rw [if_neg hunix, if_neg hunix]
    have hconnect := h.connectTcp env
    generalize (if strncmpEq cacheAddr (ascii "tcp:") 4 = true then cacheAddr.drop 4
      else cacheAddr) = start
    dsimp only
    cases start.drop (start.takeWhile (· ≠ 58)).length with
    | nil => exact h.connects_none
    | cons colon port =>
        dsimp only
        split_ifs
        · exact h.connects_none
        · simpa [TryEnv.attempt, hunix] using hconnect

/-- What `ngx_http_dmmr_cache_prepare_conn` leaves behind: a connection, or nothing. -/
structure Prepares (ok : Bool) (result : Option ℕ × Worker) : Prop where
  isSome : result.1.isSome = ok
  left : result.1.elim result.2.Idle fun fd => result.2.Open fd

theorem Idle.cachePrepareConn (h : w.Idle) (env : TryEnv) (cacheAddr : Bytes) :
    Prepares (Gateway.cachePrepareConn (env.attempt cacheAddr) cacheAddr)
      (w.cachePrepareConn env cacheAddr) := by
  have hconnect := h.cacheConnectNew env cacheAddr
  unfold Worker.cachePrepareConn Gateway.cachePrepareConn
  rw [h.cacheCloseConn, ← hconnect.isSome]
  generalize w.cacheConnectNew env cacheAddr = result at hconnect ⊢
  obtain ⟨_ | fd, w'⟩ := result
  · exact ⟨rfl, hconnect.closed, hconnect.inOrder⟩
  · cases halloc : env.alloc with
    | none =>
        refine ⟨by simp [TryEnv.attempt, halloc], hconnect.closed, ?_⟩
        exact run_trans hconnect.inOrder (by simp [run])
    | some b =>
        refine ⟨by simp [TryEnv.attempt, halloc], b, _, _, rfl, ?_⟩
        apply run_trans hconnect.inOrder
        simp [run, Finset.pair_comm]

/-! ## All tries -/

/-- The loop gives the answer of the loop without a connection, and leaves none. -/
theorem Idle.tryCandidates (h : w.Idle) {envs : ℕ → TryEnv} {attempts : ℕ → Attempt}
    (request : Bytes) {i : ℕ} {addrs : List Bytes} (stale : Option ℕ)
    (hattempts : ∀ j addr, addrs[j]? = some addr → attempts (i + j) = (envs (i + j)).attempt addr) :
    (w.tryCandidates envs request i addrs stale).1 =
        Gateway.tryCandidates attempts request i addrs ∧
      (w.tryCandidates envs request i addrs stale).2.2.Idle := by
  induction addrs generalizing w i stale with
  | nil => exact ⟨rfl, h⟩
  | cons addr addrs ih =>
      have hhere : attempts i = (envs i).attempt addr := hattempts 0 addr rfl
      have hrest : ∀ j addr, addrs[j]? = some addr →
          attempts (i + 1 + j) = (envs (i + 1 + j)).attempt addr := by
        intro j a ha
        rw [Nat.add_right_comm]
        exact hattempts (j + 1) a ha
      have hprepare := h.cachePrepareConn (envs i) addr
      rw [Worker.tryCandidates, Gateway.tryCandidates, hhere, ← hprepare.isSome]
      generalize w.cachePrepareConn (envs i) addr = result at hprepare ⊢
      obtain ⟨_ | fd, w'⟩ := result
      · exact ih hprepare.left none hrest
      · have hopen : w'.Open fd := hprepare.left
        have hidle := (hopen.uses (exchangePhases ((envs i).attempt addr) request)).cacheCloseConn
        dsimp only
        cases cacheExchange ((envs i).attempt addr) request with
        | none => exact ih hidle (some fd) hrest
        | some response => exact ⟨rfl, hidle⟩

/-- One request. -/
theorem Idle.sendCacheRequest (h : w.Idle) (c : CacheCall) :
    (w.sendCacheRequest c.pool c.envs c.conf c.apiKey).1 = c.answer ∧
      (w.sendCacheRequest c.pool c.envs c.conf c.apiKey).2.Idle := by
  obtain ⟨pool, conf, apiKey, envs⟩ := c
  unfold Worker.sendCacheRequest CacheCall.answer Gateway.sendCacheRequest
  cases conf with
  | none => exact ⟨rfl, h⟩
  | some kcf =>
      dsimp only
      by_cases hlong : apiKey.length > bufSize - frameHeaderSize
      · rw [if_pos hlong, if_pos hlong]
        exact ⟨rfl, h⟩
      · rw [if_neg hlong, if_neg hlong]
        set addrs := candidates kcf.cacheAddr ++ candidates kcf.cacheAddr with haddrs
        set c : CacheCall := ⟨pool, some kcf, apiKey, envs⟩ with hc
        have hattempts : ∀ j addr, addrs[j]? = some addr →
            c.attempts (0 + j) = (envs (0 + j)).attempt addr := by
          intro j addr hj
          rw [Nat.zero_add]
          simp [CacheCall.attempts, hc, ← haddrs, List.getD_eq_getElem?_getD, hj]
        obtain ⟨hanswer, hidle⟩ := h.tryCandidates (cacheRequest apiKey) none hattempts
        rw [← hanswer]
        generalize w.tryCandidates envs (cacheRequest apiKey) 0 addrs none = result at hidle ⊢
        obtain ⟨_ | response, fd, w'⟩ := result
        · refine ⟨rfl, ?_⟩
          cases fd with
          | none => exact hidle
          | some fd =>
              show w'.cacheCloseConn.Idle
              rwa [hidle.cacheCloseConn]
        · dsimp only
          by_cases hstatus : response.status = 0
          · rw [if_pos hstatus, if_pos hstatus]
            exact ⟨rfl, hidle⟩
          · rw [if_neg hstatus, if_neg hstatus]
            exact ⟨rfl, hidle⟩

end Worker

/-- **The connection to the cache.**  Whatever the system does during the requests of a
worker, the answers are those of a gateway without a lasting connection; every socket and
every block of memory is given back once, after its last use; and between requests there is
no connection. -/
theorem worker_serve_eq (calls : List CacheCall) :
    (Worker.serve calls .init).1 = calls.map CacheCall.answer ∧
      (Worker.serve calls .init).2.cacheConn = CacheConn.closed ∧
      run (Worker.serve calls .init).2.ops ∅ = some ∅ := by
  have hserve : ∀ w : Worker, w.Idle → (Worker.serve calls w).1 = calls.map CacheCall.answer ∧
      (Worker.serve calls w).2.Idle := by
    induction calls with
    | nil => exact fun w h => ⟨rfl, h⟩
    | cons c calls ih =>
        intro w h
        obtain ⟨hanswer, hidle⟩ := h.sendCacheRequest c
        obtain ⟨hanswers, hidle'⟩ := ih _ hidle
        exact ⟨congrArg₂ List.cons hanswer hanswers, hidle'⟩
  obtain ⟨hanswers, hidle⟩ := hserve .init .init
  exact ⟨hanswers, hidle.closed, hidle.inOrder⟩

end Dmmr.Gateway
