import Dmmr.Gateway.Conf

/-!
# Authentication: `ngx_http_dmmr_auth.c`

The gateway takes a credential from the request and asks the cache for it.  The
cache is contacted at up to three addresses, twice each; the first complete
answer decides.  What the network does on each attempt (`Attempt`) is an input:
how `send` and `recv` split the bytes, and where they fail.

The worker closes its connection to the cache before and after every attempt, so
nothing is left of it from one request to the next and the model keeps no
connection.
-/

namespace Dmmr.Gateway

open Words

/-! ## Credentials -/

/-- `ngx_http_dmmr_get_header_value`. -/
def getHeaderValue (r : Request) (name : Bytes) : Option Bytes :=
  (r.headers.find? fun h => h.1.length == name.length && strncasecmpEq h.1 name name.length).map
    Prod.snd

/-- The credential in an `Authorization` header. -/
def authorizationCredential (header : Bytes) : Option Bytes :=
  if header.length > 7 ∧ strncasecmpEq header (ascii "Bearer ") 7 then some (header.drop 7)
  else if header.length > 6 ∧ strncasecmpEq header (ascii "Token ") 6 then some (header.drop 6)
  else none

/-- The value of a header, if it is not empty. -/
def nonemptyHeader (r : Request) (name : Bytes) : Option Bytes :=
  (getHeaderValue r name).filter fun value => value.length > 0

/-- The credential in the query string: `args` is searched as a C string, so the
search goes on behind it up to the first `NUL` in memory. -/
def queryCredential (r : Request) : Option Bytes :=
  if r.args.length > 0 then
    let memory := (r.args ++ r.afterArgs).takeWhile (· ≠ 0)
    match (strstr (ascii "apikey=") memory).or (strstr (ascii "token=") memory) with
    | none => none
    | some p =>
        -- the first character tells which of the two names was found
        let value := p.drop (if p.headD 0 = 97 then 7 else 6)
        some (value.takeWhile (· ≠ 38))
  else none

/-- `ngx_http_dmmr_extract_credential`: `none` is `NGX_DECLINED`. -/
def extractCredential (r : Request) : Option Bytes :=
  ((nonemptyHeader r (ascii "authorization")).bind authorizationCredential).or
    ((nonemptyHeader r (ascii "x-api-key")).or
      ((nonemptyHeader r (ascii "apikey")).or (queryCredential r)))

/-! ## The connection to the cache -/

/-- What one call of `send` does. -/
inductive SendCall
  | wrote (n : ℕ)
  | interrupted
  | failed
  deriving DecidableEq, Repr

/-- What happens while one address is tried: whether the calls that set up the
connection succeed, what the calls of `send` do, and the segments `recv` gets,
an empty one for the end of the stream or an error. -/
structure Attempt where
  socketOk : Bool
  resolveOk : Bool
  connectOk : Bool
  addressAlloc : Bool
  sends : List SendCall
  segments : List Bytes
  deriving DecidableEq, Repr

/-- `sizeof(sun.sun_path)`. -/
def sunPathSize : ℕ := 108

/-- `ngx_http_dmmr_cache_connect_new`: whether it returns a socket. -/
def cacheConnectNew (a : Attempt) (cacheAddr : Bytes) : Bool :=
  if cacheAddr.length = 0 then false
  else if strncmpEq cacheAddr (ascii "unix:") 5 then
    let pathLen := cacheAddr.length - 5
    if pathLen = 0 ∨ pathLen ≥ sunPathSize then false else a.socketOk && a.connectOk
  else
    -- a TCP address, whose scheme may be left out
    let start := if strncmpEq cacheAddr (ascii "tcp:") 4 then cacheAddr.drop 4 else cacheAddr
    let host := start.takeWhile (· ≠ 58)
    match start.drop host.length with
    | [] => false
    | _ :: port =>
        if host.length = 0 ∨ port.length = 0 ∨ host.length ≥ 256 ∨ port.length ≥ 16 then false
        else a.socketOk && a.resolveOk && a.connectOk

/-- `ngx_http_dmmr_cache_prepare_conn`. -/
def cachePrepareConn (a : Attempt) (cacheAddr : Bytes) : Bool :=
  cacheConnectNew a cacheAddr && a.addressAlloc

/-- `ngx_http_dmmr_send_full`: whether all `len` bytes are written. -/
def sendFull : List SendCall → ℕ → Bool
  | _, 0 => true
  | [], _ + 1 => false
  | .wrote n :: calls, len + 1 => if n = 0 then false else sendFull calls (len + 1 - n)
  | .interrupted :: calls, len + 1 => sendFull calls (len + 1)
  | .failed :: _, _ + 1 => false

/-- A loop of `recv` until `want` bytes have been received: what it has received,
and the segments that are left. -/
def recvLoop : List Bytes → ℕ → Bytes × List Bytes
  | segments, 0 => ([], segments)
  | [], _ + 1 => ([], [])
  | segment :: segments, want + 1 =>
      if segment = [] then ([], segments)
      else if want + 1 < segment.length then
        (segment.take (want + 1), segment.drop (want + 1) :: segments)
      else
        let (more, rest) := recvLoop segments (want + 1 - segment.length)
        (segment ++ more, rest)

/-! ## The request to the cache -/

/-- `sizeof(frame)` and the sizes of the two buffers. -/
def frameHeaderSize : ℕ := 24

def bufSize : ℕ := 4096

/-- The request as it lies in `req_buf`. -/
def cacheRequest (apiKey : Bytes) : Bytes :=
  Endian.big.bytes 2 0xD4D4 ++ (Endian.big.bytes 2 1 ++ (Endian.big.bytes 2 1 ++
    (Endian.big.bytes 2 0 ++ (Endian.big.bytes 4 apiKey.length ++ (Endian.big.bytes 4 0 ++
    (Endian.big.bytes 8 0 ++ apiKey))))))

/-- `unix:/tmp/dmmr_cache.sock`. -/
def fallbackUnix : Bytes := ascii "unix:/tmp/dmmr_cache.sock"

/-- `tcp:127.0.0.1:9080`. -/
def fallbackTcp : Bytes := ascii "tcp:127.0.0.1:9080"

/-- The addresses that are tried: the configured one and two fallbacks. -/
def candidates (cacheAddr : Bytes) : List Bytes :=
  let first := if cacheAddr.length = 0 then fallbackUnix else cacheAddr
  if cacheAddr.length = 0 ∨ cacheAddr ≠ fallbackUnix then
    if cacheAddr.length = 0 ∨ cacheAddr ≠ fallbackTcp then [first, fallbackUnix, fallbackTcp]
    else [first, fallbackUnix]
  else [first]

/-- A complete answer of the cache. -/
structure CacheResponse where
  status : ℕ
  body : Bytes
  deriving DecidableEq, Repr

/-- The exchange on a connection: `none` if it breaks off. -/
def cacheExchange (a : Attempt) (request : Bytes) : Option CacheResponse :=
  if !sendFull a.sends request.length then none
  else
    -- status and length of the body, then two bytes that are not used
    let (header, segments) := recvLoop a.segments 8
    if header.length < 8 then none
    else
      let respLen := Endian.big.field 2 4 header
      if respLen > bufSize - 8 then none
      else
        let (body, _) := recvLoop segments respLen
        if body.length < respLen then none else some ⟨Endian.big.field 0 2 header, body⟩

/-- The addresses are tried in turn until one gives an answer; `attempts i` is
what happens on the `i`-th try. -/
def tryCandidates (attempts : ℕ → Attempt) (request : Bytes) :
    ℕ → List Bytes → Option CacheResponse
  | _, [] => none
  | i, addr :: addrs =>
      if !cachePrepareConn (attempts i) addr then tryCandidates attempts request (i + 1) addrs
      else
        match cacheExchange (attempts i) request with
        | some response => some response
        | none => tryCandidates attempts request (i + 1) addrs

/-- `ngx_http_dmmr_send_cache_request`: the code and, with `NGX_OK`, the user
information.  All addresses are tried a second time if no attempt succeeds. -/
def sendCacheRequest (pool : PoolEnv) (attempts : ℕ → Attempt) (conf : Option Conf)
    (apiKey : Bytes) : Rc × Option NgxStr :=
  match conf with
  | none => (.error, none)
  | some kcf =>
      if apiKey.length > bufSize - frameHeaderSize then (.error, none)
      else
        let addrs := candidates kcf.cacheAddr
        match tryCandidates attempts (cacheRequest apiKey) 0 (addrs ++ addrs) with
        | none => (.error, none)
        | some response =>
            if response.status = 0 then
              (.ok, some ⟨response.body.length,
                if pool.userInfo then some response.body else none⟩)
            else (.declined, none)

/-! ## Authentication -/

/-- `ngx_http_dmmr_auth`. -/
def auth (pool : PoolEnv) (attempts : ℕ → Attempt) (conf : Option Conf) (r : Request) (ctx : Ctx) :
    Rc × Ctx :=
  if r.uri.length ≥ 7 ∧ strncmpEq r.uri (ascii "/public") 7 then
    (.ok, { ctx with authenticated := true })
  else
    match extractCredential r with
    | none => (.unauthorized, ctx)
    | some credential =>
        if !pool.apiKey then (.internalServerError, ctx)
        else
          match sendCacheRequest pool attempts conf credential with
          | (.ok, userInfo) =>
              (.ok, { ctx with
                authenticated := true
                authUser := if pool.authUser then userInfo else none })
          | (.error, _) => (.serviceUnavailable, ctx)
          | (_, _) => (.forbidden, ctx)

/-- Authentication either accepts the request and says so in the context, or
returns an HTTP error and leaves the context alone. -/
theorem auth_cases (pool : PoolEnv) (attempts : ℕ → Attempt) (conf : Option Conf) (r : Request)
    (ctx : Ctx) :
    (∃ user, auth pool attempts conf r ctx =
        (.ok, { ctx with authenticated := true, authUser := user })) ∨
      (auth pool attempts conf r ctx).1.continues = false ∧
        (auth pool attempts conf r ctx).2 = ctx := by
  unfold auth
  by_cases hpublic : r.uri.length ≥ 7 ∧ strncmpEq r.uri (ascii "/public") 7
  · rw [if_pos hpublic]
    exact .inl ⟨ctx.authUser, rfl⟩
  · rw [if_neg hpublic]
    cases extractCredential r with
    | none => exact .inr ⟨rfl, rfl⟩
    | some credential =>
        cases pool.apiKey with
        | false => exact .inr ⟨rfl, rfl⟩
        | true =>
            simp only [Bool.not_true, Bool.false_eq_true, if_false]
            rcases sendCacheRequest pool attempts conf credential with ⟨rc, userInfo⟩
            cases rc with
            | ok => exact .inl ⟨_, rfl⟩
            | _ => exact .inr ⟨rfl, rfl⟩

end Dmmr.Gateway
