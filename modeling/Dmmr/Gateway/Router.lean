import Dmmr.Gateway.Conf

/-!
# Route selection: `ngx_http_dmmr_router.c`

A request goes to the route of greatest priority among those whose path, method
and hosts match it, and of several such routes to the first.  The route's
service is then looked up by name.

The router has three ways to fail.  No match and an unknown service are HTTP
errors; without any route it declines (`router_of_not_hasRoutes`).
-/

namespace Dmmr.Gateway

open Words

/-! ## Matching -/

/-- `ngx_http_dmmr_match_path`. -/
def matchPath (uri path : Bytes) : Rc :=
  if path.length = 0 then .ok
  else if uri.length < path.length then .declined
  else if strncmpEq uri path path.length then .ok
  else .declined

/-- `ngx_http_dmmr_match_method`. -/
def matchMethod (method routeMethod : Bytes) : Rc :=
  if routeMethod.length = 0 then .ok
  else if method.length ≠ routeMethod.length then .declined
  else if strncasecmpEq method routeMethod method.length then .ok
  else .declined

/-- `ngx_http_dmmr_match_host`. -/
def matchHost (host : Option Bytes) (hosts : Option (List Bytes)) : Rc :=
  match hosts with
  | none => .ok
  | some [] => .ok
  | some hosts =>
      match host with
      | none => .declined
      | some host =>
          if host.length = 0 then .declined
          else if hosts.any fun h =>
              h.length == host.length && strncasecmpEq h host host.length then
            .ok
          else .declined

/-- The tests one route is put to. -/
def routeMatches (r : Request) (route : Route) : Bool :=
  if matchPath r.uri route.path ≠ .ok then false
  else if route.method.length > 0 ∧ matchMethod r.methodName route.method ≠ .ok then false
  else if route.hosts.getD [] ≠ [] then
    match r.host with
    | none => false
    | some host => matchHost (some host) route.hosts == .ok
  else true

/-- The loop of `ngx_http_dmmr_router`: one more route is looked at. -/
def considerRoute (r : Request) (best : Option Route) (route : Route) : Option Route :=
  if !routeMatches r route then best
  else
    match best with
    | none => some route
    | some current => if route.priority > current.priority then some route else best

/-- `best_route` after the loop. -/
def bestRoute (r : Request) (routes : List Route) : Option Route :=
  routes.foldl (considerRoute r) none

/-! ## The router -/

/-- The first service with the given name. -/
def findService (services : List Service) (name : Bytes) : Option Service :=
  services.find? fun service => service.name == name

/-- The end of the router: the path of the route is stripped off the URI. -/
def stripPath (pool : PoolEnv) (r : Request) (route : Route) (ctx : Ctx) : Rc × Ctx :=
  if !route.stripPath then (.ok, ctx)
  else if !pool.newUri then (.internalServerError, ctx)
  else if r.uri.length - route.path.length = 0 then (.ok, { ctx with newUri := some (ascii "/") })
  else if !pool.newUriDup then (.internalServerError, ctx)
  else (.ok, { ctx with newUri := some (r.uri.drop route.path.length) })

/-- The router once a route has been selected. -/
def followRoute (pool : PoolEnv) (kcf : Conf) (r : Request) (route : Route) (ctx : Ctx) :
    Rc × Ctx :=
  let ctx := { ctx with route := some route }
  match route.serviceName, kcf.services with
  | some name, some services =>
      let ctx := { ctx with service := (findService services name).or ctx.service }
      if ctx.service = none then (.internalServerError, ctx) else stripPath pool r route ctx
  | _, _ => stripPath pool r route ctx

/-- `ngx_http_dmmr_router`. -/
def router (pool : PoolEnv) (main : Option Conf) (r : Request) (ctx : Ctx) : Rc × Ctx :=
  match main with
  | none => (.declined, ctx)
  | some kcf =>
      -- the array is `NULL` or empty
      if kcf.routes.getD [] = [] then (.declined, ctx)
      else
        match bestRoute r (kcf.routes.getD []) with
        | none => (.notFound, ctx)
        | some route => followRoute pool kcf r route ctx

/-! ## What the router does -/

variable {pool : PoolEnv} {main : Option Conf} {r : Request} {ctx : Ctx}

theorem stripPath_spec (route : Route) :
    ((stripPath pool r route ctx).1 = .ok ∨
        (stripPath pool r route ctx).1 = .internalServerError) ∧
      (stripPath pool r route ctx).2 =
        { ctx with newUri := (stripPath pool r route ctx).2.newUri } := by
  unfold stripPath
  split_ifs <;> simp

/-- The service of the selected route, if it has one that is configured. -/
def routeService (kcf : Conf) (route : Route) : Option Service :=
  route.serviceName.bind fun name => kcf.services.bind fun services => findService services name

/-- With a route selected the router succeeds or fails with an internal error; it
records the route and its service and touches nothing else but the URI. -/
theorem followRoute_spec (pool : PoolEnv) (kcf : Conf) (r : Request) (route : Route)
    (ctx : Ctx) (hservice : ctx.service = none) :
    ((followRoute pool kcf r route ctx).1 = .ok ∨
        (followRoute pool kcf r route ctx).1 = .internalServerError) ∧
      (followRoute pool kcf r route ctx).2 =
        { ctx with
          route := some route
          service := routeService kcf route
          newUri := (followRoute pool kcf r route ctx).2.newUri } := by
  unfold followRoute routeService
  cases route.serviceName with
  | none =>
      simp only [Option.bind_none, ← hservice]
      exact stripPath_spec route
  | some name =>
      cases kcf.services with
      | none =>
          simp only [Option.bind_some, Option.bind_none, ← hservice]
          exact stripPath_spec route
      | some services =>
          simp only [Option.bind_some, hservice, Option.or_none]
          split_ifs
          · exact ⟨.inr rfl, rfl⟩
          · exact stripPath_spec route

/-- The router has routes to look at. -/
def HasRoutes (main : Option Conf) : Prop := ∃ kcf, main = some kcf ∧ kcf.routes.getD [] ≠ []

theorem router_of_not_hasRoutes (h : ¬ HasRoutes main) :
    router pool main r ctx = (.declined, ctx) := by
  cases main with
  | none => rfl
  | some kcf =>
      have hnil : kcf.routes.getD [] = [] := not_not.mp fun hne => h ⟨kcf, rfl, hne⟩
      simp only [router, hnil, if_true]

/-- What a router with routes does. -/
theorem router_of_hasRoutes {kcf : Conf} (h : kcf.routes.getD [] ≠ []) :
    router pool (some kcf) r ctx =
      match bestRoute r (kcf.routes.getD []) with
      | none => (.notFound, ctx)
      | some route => followRoute pool kcf r route ctx := by
  simp only [router, if_neg h]

end Dmmr.Gateway
