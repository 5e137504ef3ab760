import Dmmr.Gateway.Auth
import Dmmr.Gateway.RateLimit
import Dmmr.Gateway.Router

/-!
# The access handler: `ngx_http_dmmr_handler`

Five stages handle a request: the router, authentication, the rate limiter, the
plugins and the choice of the upstream.  The handler stops at the first stage
that does not return `NGX_OK` and hands the stage's code on to nginx, where
`NGX_DECLINED` means that this handler has nothing to say and the request may
proceed.

The only stage that declines is the router, when there are no routes; the
handler then lets every request through without authentication
(`failsClosed_iff`).
-/

namespace Dmmr.Gateway

open Words

/-! ## The remaining stages -/

/-- `ngx_http_dmmr_rate_limit`: `zone` is `NULL` unless there is a rate zone and
it has been initialised. -/
def dmmrRateLimit (ngx : Ngx) (call : RateCall) (zone : Option RateShctx) : Rc × Option RateShctx :=
  match zone with
  | none => (.internalServerError, none)
  | some sh => ((rateLimit ngx call sh).1.rc, some (rateLimit ngx call sh).2)

/-- `ngx_http_dmmr_plugins`. -/
def plugins : Rc := .ok

/-- `ngx_http_dmmr_upstream`: the code, the context and the URI of the request. -/
def upstream (pool : PoolEnv) (uri : Bytes) (ctx : Ctx) : Rc × Ctx × Bytes :=
  match ctx.service with
  | none => (.internalServerError, ctx, uri)
  | some service =>
      if ctx.upstreamName ≠ none then (.ok, ctx, ctx.newUri.getD uri)
      else if !pool.upstream then (.internalServerError, ctx, uri)
      else if !pool.upstreamData then (.internalServerError, ctx, uri)
      else
        let name := service.host ++ ascii ":" ++ service.port
        (.ok, { ctx with upstreamName := some name }, ctx.newUri.getD uri)

/-! ## The handler -/

/-- What happens around a request: the allocations, the cache, the clock of the
worker and the allocations in the rate zone. -/
structure RequestEnv where
  pool : PoolEnv
  attempts : ℕ → Attempt
  now : UInt64
  slabOk : Bool
  slabRetryOk : Bool

/-- What is left when the handler returns: its code, the context, the rate zone
and the URI.  `limiter` is a history variable, the answer of the rate limiter if
it was asked. -/
structure Outcome where
  rc : Rc
  ctx : Option Ctx
  zone : Option RateShctx
  uri : Bytes
  limiter : Option Rc

variable (ngx : Ngx) (env : RequestEnv) (main loc : Option Conf)

/-- The call of the rate limiter for a request. -/
def rateCall (r : Request) : RateCall :=
  ⟨loc, r.clientAddr, env.now, env.slabOk, env.slabRetryOk⟩

/-- The stages from the rate limiter on. -/
def handleAuthenticated (r : Request) (zone : Option RateShctx) (ctx : Ctx) : Outcome :=
  let limited := dmmrRateLimit ngx (rateCall env loc r) zone
  if limited.1 ≠ .ok then ⟨limited.1, some ctx, limited.2, r.uri, some limited.1⟩
  else if plugins ≠ .ok then ⟨plugins, some ctx, limited.2, r.uri, some limited.1⟩
  else
    let sent := upstream env.pool r.uri ctx
    ⟨sent.1, some sent.2.1, limited.2, sent.2.2, some limited.1⟩

/-- The stages from authentication on. -/
def handleRouted (r : Request) (zone : Option RateShctx) (ctx : Ctx) : Outcome :=
  let checked := auth env.pool env.attempts loc r ctx
  if checked.1 ≠ .ok then ⟨checked.1, some checked.2, zone, r.uri, none⟩
  else handleAuthenticated ngx env loc r zone checked.2

/-- `ngx_http_dmmr_handler`. -/
def handler (r : Request) (zone : Option RateShctx) : Outcome :=
  if (loc.map Conf.enable).getD .off ≠ .on then ⟨.declined, none, zone, r.uri, none⟩
  else if !env.pool.ctx then ⟨.internalServerError, none, zone, r.uri, none⟩
  else
    -- whatever the router returns instead of `NGX_OK` is returned to nginx
    let routed := router env.pool main r Ctx.zero
    if routed.1 ≠ .ok then ⟨routed.1, some routed.2, zone, r.uri, none⟩
    else handleRouted ngx env loc r zone routed.2

/-- The configuration of a location with `dmmr_enable on`. -/
def Conf.enabled (conf : Conf) : Conf := { conf with enable := .on }

/-- The request has passed every stage: it is authenticated, the rate limiter has
admitted it, and the context holds the service of the route selected for it. -/
def Passed (main : Option Conf) (r : Request) (o : Outcome) : Prop :=
  o.limiter = some .ok ∧ ∃ ctx kcf route service,
    o.ctx = some ctx ∧ ctx.authenticated = true ∧ main = some kcf ∧
      bestRoute r (kcf.routes.getD []) = some route ∧ ctx.route = some route ∧
      ctx.service = some service ∧ service ∈ kcf.services.getD [] ∧
      route.serviceName = some service.name

/-- nginx goes on with the request only if it has passed every stage. -/
def FailsClosed (main : Option Conf) (r : Request) (o : Outcome) : Prop :=
  o.rc.continues = true → Passed main r o

/-! ## What the stages guarantee -/

variable {ngx env main loc}

theorem continues_iff {rc : Rc} : rc.continues = true ↔ rc = .ok ∨ rc = .declined := by
  cases rc <;> decide

theorem dmmrRateLimit_ne_declined (ngx : Ngx) (call : RateCall) (zone : Option RateShctx) :
    (dmmrRateLimit ngx call zone).1 ≠ .declined := by
  cases zone with
  | none => simp [dmmrRateLimit]
  | some sh => cases h : (rateLimit ngx call sh).1 <;> simp [dmmrRateLimit, h, Verdict.rc]

/-- The upstream is recorded in the context, for which there must be a service,
or the request fails. -/
theorem upstream_cases (pool : PoolEnv) (uri : Bytes) (ctx : Ctx) :
    (∃ name uri', upstream pool uri ctx = (.ok, { ctx with upstreamName := name }, uri') ∧
        ctx.service.isSome) ∨
      upstream pool uri ctx = (.internalServerError, ctx, uri) := by
  unfold upstream
  split
  · exact .inr rfl
  · rename_i service hservice
    have hsome : ctx.service.isSome := by simp [hservice]
    split_ifs
    · exact .inl ⟨ctx.upstreamName, _, rfl, hsome⟩
    · exact .inr rfl
    · exact .inr rfl
    · exact .inl ⟨_, _, rfl, hsome⟩

theorem routeService_eq_some {kcf : Conf} {route : Route} {service : Service}
    (h : routeService kcf route = some service) :
    service ∈ kcf.services.getD [] ∧ route.serviceName = some service.name := by
  obtain ⟨name, hname, hfound⟩ := Option.bind_eq_some_iff.mp h
  obtain ⟨services, hservices, hfind⟩ := Option.bind_eq_some_iff.mp hfound
  refine ⟨?_, ?_⟩
  · rw [hservices]
    exact List.mem_of_find?_eq_some hfind
  · have hfound := List.find?_some (p := fun service : Service => service.name == name) hfind
    rw [hname, beq_iff_eq.mp hfound]

/-- The stages from the rate limiter on let a request go on only if it is
admitted and has a service. -/
theorem handleAuthenticated_spec (r : Request) (zone : Option RateShctx) (ctx : Ctx)
    (h : (handleAuthenticated ngx env loc r zone ctx).rc.continues = true) :
    (handleAuthenticated ngx env loc r zone ctx).limiter = some .ok ∧ ctx.service.isSome ∧
      ∃ name, (handleAuthenticated ngx env loc r zone ctx).ctx =
        some { ctx with upstreamName := name } := by
  unfold handleAuthenticated at h ⊢
  have hlimited := dmmrRateLimit_ne_declined ngx (rateCall env loc r) zone
  generalize dmmrRateLimit ngx (rateCall env loc r) zone = limited at h hlimited ⊢
  by_cases hok : limited.1 = .ok
  · simp only [hok, plugins, ne_eq, not_true_eq_false, if_false] at h ⊢
    rcases upstream_cases env.pool r.uri ctx with ⟨name, uri', hup, hservice⟩ | hup
    · rw [hup]
      exact ⟨trivial, hservice, name, rfl⟩
    · rw [hup] at h
      exact absurd h (by simp [Rc.continues])
  · simp only [ne_eq, hok, not_false_eq_true, if_true] at h
    exact absurd (continues_iff.mp h) (by simp [hok, hlimited])

/-- The stages from authentication on let a request go on only if it is
authenticated as well. -/
theorem handleRouted_spec (r : Request) (zone : Option RateShctx) (ctx : Ctx)
    (h : (handleRouted ngx env loc r zone ctx).rc.continues = true) :
    (handleRouted ngx env loc r zone ctx).limiter = some .ok ∧ ctx.service.isSome ∧
      ∃ user name, (handleRouted ngx env loc r zone ctx).ctx =
        some { ctx with authenticated := true, authUser := user, upstreamName := name } := by
  unfold handleRouted at h ⊢
  rcases auth_cases env.pool env.attempts loc r ctx with ⟨user, hauth⟩ | ⟨hfails, -⟩
  · simp only [hauth, ne_eq, not_true_eq_false, if_false] at h ⊢
    obtain ⟨hlimiter, hservice, name, hctx⟩ := handleAuthenticated_spec r zone _ h
    exact ⟨hlimiter, hservice, user, name, hctx⟩
  · have hok : (auth env.pool env.attempts loc r ctx).1 ≠ .ok := by
      intro hok
      rw [hok] at hfails
      exact absurd hfails (by decide)
    simp only [if_pos hok, hfails] at h
    exact absurd h (by simp)

/-- With routes, the handler fails closed. -/
theorem failsClosed_of_hasRoutes {kcf : Conf} (hroutes : kcf.routes.getD [] ≠ []) (conf : Conf)
    (r : Request) (zone : Option RateShctx) :
    FailsClosed (some kcf) r (handler ngx env (some kcf) (some conf.enabled) r zone) := by
  intro h
  unfold handler at h ⊢
  rw [if_neg (by simp [Conf.enabled])] at h ⊢
  cases hpool : env.pool.ctx with
  | false => simp [hpool, Rc.continues] at h
  | true =>
      simp only [hpool, Bool.not_true, Bool.false_eq_true, if_false, router_of_hasRoutes hroutes]
        at h ⊢
      cases hbest : bestRoute r (kcf.routes.getD []) with
      | none => simp [hbest, Rc.continues] at h
      | some route =>
          simp only [hbest] at h ⊢
          obtain ⟨hrc, hctx⟩ := followRoute_spec env.pool kcf r route Ctx.zero rfl
          rcases hrc with hrc | hrc
          · simp only [hrc, ne_eq, not_true_eq_false, if_false] at h ⊢
            obtain ⟨hlimiter, hservice, user, name, hfinal⟩ := handleRouted_spec r zone _ h
            obtain ⟨service, hservice⟩ := Option.isSome_iff_exists.mp hservice
            obtain ⟨hmem, hname⟩ :=
              routeService_eq_some ((congrArg Ctx.service hctx).symm.trans hservice)
            exact ⟨hlimiter, _, kcf, route, service, hfinal, rfl, rfl, hbest,
              congrArg Ctx.route hctx, hservice, hmem, hname⟩
          · simp [hrc, Rc.continues] at h

/-- **The gateway fails closed only if it has routes.**  Whatever the
configuration of the location, the limiter, the cache and the request, nginx
goes on only with requests that have passed every stage, if and only if there
are routes or the context cannot be allocated. -/
theorem failsClosed_iff (ngx : Ngx) (env : RequestEnv) (main : Option Conf) (conf : Conf)
    (r : Request) (zone : Option RateShctx) :
    FailsClosed main r (handler ngx env main (some conf.enabled) r zone) ↔
      HasRoutes main ∨ env.pool.ctx = false := by
  constructor
  · -- without routes the router declines, and the handler with it
    intro hclosed
    by_contra hnot
    obtain ⟨hroutes, hpool⟩ := not_or.mp hnot
    have hhandler : handler ngx env main (some conf.enabled) r zone =
        ⟨.declined, some Ctx.zero, zone, r.uri, none⟩ := by
      simp [handler, Conf.enabled, hpool, router_of_not_hasRoutes hroutes]
    rw [hhandler] at hclosed
    exact absurd (hclosed rfl).1 (by simp)
  · rintro (⟨kcf, rfl, hroutes⟩ | hpool)
    · exact failsClosed_of_hasRoutes hroutes conf r zone
    · intro h
      simp [handler, Conf.enabled, hpool, Rc.continues] at h

/-- A request without credentials. -/
def bareRequest : Request where
  uri := ascii "/private"
  methodName := ascii "GET"
  host := none
  headers := []
  args := []
  afterArgs := []
  clientAddr := ascii "10.0.0.1"

/-- Every allocation succeeds, and no cache can be reached. -/
def cachelessEnv : RequestEnv where
  pool := ⟨true, true, true, true, true, true, true, true⟩
  attempts _ := ⟨false, false, false, false, [], []⟩
  now := 0
  slabOk := true
  slabRetryOk := true

/-- A gateway without routes lets the request through. -/
theorem failsClosed_fails :
    ¬ FailsClosed (some createConf) bareRequest (handler .plain cachelessEnv (some createConf)
      (some createConf.enabled) bareRequest (some .init)) := by
  intro hclosed
  obtain ⟨hlimiter, -⟩ := hclosed rfl
  exact absurd hlimiter (by decide)

end Dmmr.Gateway
