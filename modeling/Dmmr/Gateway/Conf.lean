import Dmmr.Lib.Words

/-!
# Requests, configuration and contexts of the gateway module

The data the functions of the nginx module pass around, with the fields those
functions read.  A pointer that may be `NULL` is an `Option`; strings are byte
strings, with the length the `ngx_str_t` gives them.
-/

namespace Dmmr.Gateway

open Words

/-- The return codes in use: the `NGX_` codes and the HTTP statuses. -/
inductive Rc
  | ok
  | error
  | declined
  | unauthorized
  | forbidden
  | notFound
  | tooManyRequests
  | internalServerError
  | serviceUnavailable
  deriving DecidableEq, Repr

/-- Whether nginx's access phase lets a request go on when a handler returns
this code. -/
def Rc.continues : Rc → Bool
  | ok => true
  | declined => true
  | _ => false

/-- `ngx_http_dmmr_route_t`. -/
structure Route where
  path : Bytes
  method : Bytes
  serviceName : Option Bytes
  hosts : Option (List Bytes)
  stripPath : Bool
  priority : UInt64
  deriving DecidableEq, Repr

/-- `ngx_http_dmmr_service_t`. -/
structure Service where
  name : Bytes
  host : Bytes
  port : Bytes
  deriving DecidableEq, Repr

/-- An `ngx_flag_t` of the configuration. -/
inductive Flag
  | unset
  | off
  | on
  deriving DecidableEq, Repr

/-- `ngx_http_dmmr_conf_t`, which serves as main, server and location
configuration. -/
structure Conf where
  enable : Flag
  services : Option (List Service)
  routes : Option (List Route)
  cacheAddr : Bytes
  rateLimit : UInt64
  rateWindow : UInt64
  deriving DecidableEq, Repr

/-- `ngx_http_dmmr_create_main_conf`, and the two other `create` callbacks. -/
def createConf : Conf where
  enable := .unset
  services := none
  routes := none
  cacheAddr := []
  rateLimit := 100
  rateWindow := 60000

/-- The request as the module reads it.  `args` lies in a larger buffer:
`afterArgs` are the bytes that follow it in memory.  `clientAddr` is the text
`ngx_sock_ntop` makes of the client's address. -/
structure Request where
  uri : Bytes
  methodName : Bytes
  host : Option Bytes
  headers : List (Bytes × Bytes)
  args : Bytes
  afterArgs : Bytes
  clientAddr : Bytes
  deriving DecidableEq, Repr

/-- An `ngx_str_t` whose `data` may be `NULL` whatever its `len`. -/
structure NgxStr where
  len : ℕ
  data : Option Bytes
  deriving DecidableEq, Repr

/-- `ngx_http_dmmr_ctx_t`. -/
structure Ctx where
  route : Option Route
  service : Option Service
  upstreamName : Option Bytes
  newUri : Option Bytes
  authenticated : Bool
  authUser : Option NgxStr
  deriving DecidableEq, Repr

/-- A context as `ngx_pcalloc` returns it. -/
def Ctx.zero : Ctx := ⟨none, none, none, none, false, none⟩

/-! ## Strings -/

/-- The bytes of an ASCII literal. -/
def ascii (s : String) : Bytes := s.toList.map fun c => UInt8.ofNat c.toNat

/-- Whether the first `n` characters of two C strings agree up to `fold`; a
string that has ended reads as `NUL`. -/
def strnEq (fold : UInt8 → UInt8) : ℕ → Bytes → Bytes → Bool
  | 0, _, _ => true
  | n + 1, s, t =>
      if fold (s.headD 0) ≠ fold (t.headD 0) then false
      else if fold (s.headD 0) = 0 then true
      else strnEq fold n s.tail t.tail

/-- `ngx_strncmp(s, t, n) == 0`. -/
def strncmpEq (s t : Bytes) (n : ℕ) : Bool := strnEq id n s t

/-- `ngx_tolower`. -/
def tolower (c : UInt8) : UInt8 := if 65 ≤ c ∧ c ≤ 90 then c ||| 0x20 else c

/-- `ngx_strncasecmp(s, t, n) == 0`. -/
def strncasecmpEq (s t : Bytes) (n : ℕ) : Bool := strnEq tolower n s t

/-- `ngx_strstr`: what `s` holds from the first occurrence of `t` on. -/
def strstr (t : Bytes) : Bytes → Option Bytes
  | [] => if t = [] then some [] else none
  | c :: s => if t.isPrefixOf (c :: s) then some (c :: s) else strstr t s

/-! ## Allocations -/

/-- Which allocations from the request pool succeed while a request is handled. -/
structure PoolEnv where
  ctx : Bool
  newUri : Bool
  newUriDup : Bool
  apiKey : Bool
  userInfo : Bool
  authUser : Bool
  upstream : Bool
  upstreamData : Bool
  deriving DecidableEq, Repr

end Dmmr.Gateway
