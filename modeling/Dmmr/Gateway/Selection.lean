import Dmmr.Gateway.Parameters
import Dmmr.Gateway.Router
import Dmmr.Lib.FirstMax

/-!
# The route of a request

What `ngx_http_dmmr_router` is for: of the routes that fit a request it takes the
first of the greatest priority, and the first service of the name the route gives.
`Fits` says when a route fits, in terms of the texts alone, and `router_selects` that
the router does just this, whatever the tables are.

A request without a host, or with an empty one, fits no route that names hosts: the
router does not look at the names then, not even at an empty one
(`routesExactly_fails`).
-/

namespace Dmmr.Gateway

open Words FirstMax

/-! ## Which routes fit -/

/-- The list names the host, in any case. -/
def NamesHost (hosts : List Bytes) (host : Bytes) : Prop :=
  ∃ h ∈ hosts, h.map tolower = host.map tolower

/-- The path is the beginning of the URI, and the method is that of the request if the
route has one. -/
def FitsPathAndMethod (r : Request) (route : Route) : Prop :=
  route.path <+: r.uri ∧
    (route.method = [] ∨ route.method.map tolower = r.methodName.map tolower)

/-- The route fits the request: path and method do, and the hosts, if there are any,
include the host of the request, which is not empty. -/
def Fits (r : Request) (route : Route) : Prop :=
  FitsPathAndMethod r route ∧ (route.hosts.getD [] = [] ∨
    ∃ host, r.host = some host ∧ host ≠ [] ∧ NamesHost (route.hosts.getD []) host)

/-- The same for a host that may be empty. -/
def FitsAnyHost (r : Request) (route : Route) : Prop :=
  FitsPathAndMethod r route ∧ (route.hosts.getD [] = [] ∨
    ∃ host, r.host = some host ∧ NamesHost (route.hosts.getD []) host)

/-- There is no `NUL` in the texts of the request that are compared. -/
structure Request.NulFree (r : Request) : Prop where
  uri : 0 ∉ r.uri
  methodName : 0 ∉ r.methodName
  host : ∀ host, r.host = some host → 0 ∉ host

/-- There is none in those of the route. -/
structure Route.NulFree (route : Route) : Prop where
  path : 0 ∉ route.path
  method : 0 ∉ route.method
  hosts : ∀ h ∈ route.hosts.getD [], 0 ∉ h

theorem matchPath_eq_ok_iff {uri path : Bytes} (hnul : 0 ∉ path) :
    matchPath uri path = .ok ↔ path <+: uri := by
  unfold matchPath
  by_cases hempty : path.length = 0
  · rw [if_pos hempty, List.length_eq_zero_iff.mp hempty]
    exact iff_of_true rfl (List.nil_prefix)
  rw [if_neg hempty]
  by_cases hshort : uri.length < path.length
  · rw [if_pos hshort]
    exact iff_of_false (by decide) fun h => absurd h.length_le (not_le.mpr hshort)
  · have hcompare : strncmpEq uri path path.length = true ↔ path <+: uri := by
      have hiff : strnEq id path.length uri path = true ↔
          (uri.take path.length).map id = path.map id :=
        strnEq_iff (fun _ => Iff.rfl) (not_lt.mp hshort) hnul
      rw [List.map_id, List.map_id] at hiff
      rw [strncmpEq, hiff, List.prefix_iff_eq_take, eq_comm]
    rw [if_neg hshort, ← hcompare]
    split_ifs with h
    · exact iff_of_true rfl h
    · exact iff_of_false (by decide) h

/-- Two texts of one length, compared without regard to case. -/
theorem strncasecmpEq_iff_of_length_eq {s t : Bytes} (hlen : s.length = t.length)
    (hnul : 0 ∉ t) :
    strncasecmpEq s t s.length = true ↔ s.map tolower = t.map tolower := by
  rw [hlen, strncasecmpEq_iff hlen.ge hnul, List.take_of_length_le hlen.le]

theorem matchMethod_eq_ok_iff {method routeMethod : Bytes} (hne : routeMethod ≠ [])
    (hnul : 0 ∉ routeMethod) :
    matchMethod method routeMethod = .ok ↔ routeMethod.map tolower = method.map tolower := by
  unfold matchMethod
  rw [if_neg (mt List.length_eq_zero_iff.mp hne)]
  by_cases hlen : method.length = routeMethod.length
  · rw [if_neg (not_not.mpr hlen), eq_comm (a := routeMethod.map tolower),
      ← strncasecmpEq_iff_of_length_eq hlen hnul]
    split_ifs with h
    · exact iff_of_true rfl h
    · exact iff_of_false (by decide) h
  · rw [if_pos hlen]
    refine iff_of_false (by decide) fun h => hlen ?_
    have := congrArg List.length h
    rw [List.length_map, List.length_map] at this
    exact this.symm

/-- An empty host is in no list. -/
theorem matchHost_eq_ok_iff {host : Bytes} {hosts : Option (List Bytes)}
    (hhosts : hosts.getD [] ≠ []) (hnul : 0 ∉ host) :
    matchHost (some host) hosts = .ok ↔ host ≠ [] ∧ NamesHost (hosts.getD []) host := by
  obtain ⟨h, hs, hlist⟩ := List.exists_cons_of_ne_nil hhosts
  have hsome : hosts = some (h :: hs) := by
    cases hosts with
    | none => exact absurd hlist (by simp)
    | some l =>
        rw [Option.getD_some] at hlist
        rw [hlist]
  rw [hlist, hsome]
  unfold matchHost
  simp only
  by_cases hempty : host.length = 0
  · rw [if_pos hempty]
    exact iff_of_false (by decide) fun h => h.1 (List.length_eq_zero_iff.mp hempty)
  · have hany : ((h :: hs).any fun h => h.length == host.length &&
        strncasecmpEq h host host.length) = true ↔ NamesHost (h :: hs) host := by
      rw [List.any_eq_true]
      refine exists_congr fun x => and_congr_right fun _ => ?_
      rw [Bool.and_eq_true, beq_iff_eq]
      constructor
      · rintro ⟨hlen, heq⟩
        rw [← hlen] at heq
        exact (strncasecmpEq_iff_of_length_eq hlen hnul).mp heq
      · intro heq
        have hlen : x.length = host.length := by
          rw [← List.length_map (f := tolower), heq, List.length_map]
        refine ⟨hlen, ?_⟩
        rw [← hlen]
        exact (strncasecmpEq_iff_of_length_eq hlen hnul).mpr heq
    have hne : host ≠ [] := mt List.length_eq_zero_iff.mpr hempty
    rw [if_neg hempty, ← hany]
    split_ifs with hfound
    · exact iff_of_true rfl ⟨hne, hfound⟩
    · exact iff_of_false (by decide) fun h => hfound h.2

/-- The tests of the loop are those of the specification. -/
theorem routeMatches_iff {r : Request} (hr : r.NulFree) {route : Route} (hroute : route.NulFree) :
    routeMatches r route = true ↔ Fits r route := by
  unfold routeMatches Fits FitsPathAndMethod
  rw [← matchPath_eq_ok_iff hroute.path]
  by_cases hpath : matchPath r.uri route.path = .ok
  · rw [if_neg (not_not.mpr hpath)]
    simp only [hpath, true_and]
    have hmethod : ¬ (route.method.length > 0 ∧ matchMethod r.methodName route.method ≠ .ok) ↔
        route.method = [] ∨ route.method.map tolower = r.methodName.map tolower := by
      by_cases hempty : route.method = []
      · simp [hempty]
      · have hpos : route.method.length > 0 := List.length_pos_iff.mpr hempty
        simp [hpos, hempty, matchMethod_eq_ok_iff hempty hroute.method]
    rw [← hmethod]
    split_ifs with hbad hhosts
    · exact iff_of_false (by simp) fun h => h.1 hbad
    · cases hhost : r.host with
      | none => simp [hhosts]
      | some host =>
          simp only [beq_iff_eq, matchHost_eq_ok_iff hhosts (hr.host host hhost), hhosts, hbad]
          simp
    · simp [hbad, not_not.mp hhosts]
  · rw [if_pos hpath]
    simp [hpath]

/-! ## What the router is to return -/

/-- The route names a service and the table has none of that name. -/
def LacksService (services : List Service) (route : Route) : Prop :=
  ∃ name, route.serviceName = some name ∧ ∀ service ∈ services, service.name ≠ name

/-- The service is the first of the name the route gives; there is none if the route
gives no name. -/
def IsServiceOf (services : List Service) (route : Route) (service : Option Service) : Prop :=
  match route.serviceName with
  | none => service = none
  | some name => ∃ before found after, services = before ++ found :: after ∧
      found.name = name ∧ (∀ s ∈ before, s.name ≠ name) ∧ service = some found

/-- The outcome is the right one if the routes with `fits` are those to choose from. -/
structure RoutesExactly (fits : Route → Prop) (routes : List Route) (services : List Service)
    (out : Rc × Ctx) : Prop where
  ok : out.1 = .ok ↔ ∃ route, IsFirstMax fits Route.priority routes route ∧
    ¬ LacksService services route
  selected : out.1 = .ok → ∃ route, IsFirstMax fits Route.priority routes route ∧
    out.2.route = some route ∧ IsServiceOf services route out.2.service
  notFound : out.1 = .notFound ↔ ∀ route ∈ routes, ¬ fits route
  internalServerError : out.1 = .internalServerError ↔
    ∃ route, IsFirstMax fits Route.priority routes route ∧ LacksService services route

/-! ## The router -/

section Tables

variable {r : Request} {routes : List Route} {services : List Service}

/-- The loop finds the route. -/
theorem bestRoute_cases (hr : r.NulFree) (hroutes : ∀ route ∈ routes, route.NulFree) :
    (bestRoute r routes = none ∧ ∀ route ∈ routes, ¬ Fits r route) ∨
      ∃ route, bestRoute r routes = some route ∧
        IsFirstMax (Fits r) Route.priority routes route := by
  have hstep : considerRoute r = keep (routeMatches r) Route.priority := by
    funext best route
    unfold considerRoute keep
    cases best <;> rfl
  have htest : ∀ route ∈ routes, routeMatches r route = true ↔ Fits r route :=
    fun route h => routeMatches_iff hr (hroutes route h)
  rw [bestRoute, hstep]
  rcases foldl_keep (routeMatches r) Route.priority routes with ⟨hnone, hall⟩ | ⟨route, hbest, hmax⟩
  · refine Or.inl ⟨hnone, fun route h hfits => ?_⟩
    have hpass := (htest route h).mpr hfits
    rw [hall route h] at hpass
    exact absurd hpass (by simp)
  · exact Or.inr ⟨route, hbest, hmax.congr htest⟩

theorem isServiceOf_findService {route : Route} {name : Bytes}
    (hname : route.serviceName = some name) {service : Service}
    (h : findService services name = some service) :
    IsServiceOf services route (some service) := by
  obtain ⟨hfound, before, after, hsplit, hbefore⟩ := List.find?_eq_some_iff_append.mp h
  unfold IsServiceOf
  rw [hname]
  refine ⟨before, service, after, hsplit, by simpa using hfound, ?_, rfl⟩
  intro s hs
  simpa using hbefore s hs

/-- A selected route is followed to its service. -/
theorem followRoute_cases (pool : PoolEnv) {kcf : Conf} (hservices : kcf.services = some services)
    {route : Route} (hstrip : route.stripPath = false) :
    (LacksService services route ∧
        (followRoute pool kcf r route .zero).1 = .internalServerError) ∨
      (¬ LacksService services route ∧ (followRoute pool kcf r route .zero).1 = .ok ∧
        (followRoute pool kcf r route .zero).2.route = some route ∧
        IsServiceOf services route (followRoute pool kcf r route .zero).2.service) := by
  have hkeep : ∀ ctx : Ctx, stripPath pool r route ctx = (.ok, ctx) :=
    fun ctx => by simp [stripPath, hstrip]
  unfold followRoute
  rw [hservices]
  cases hname : route.serviceName with
  | none =>
      refine Or.inr ⟨?_, ?_⟩
      · rintro ⟨name, h, -⟩
        rw [hname] at h
        exact absurd h (by simp)
      · simp only [hkeep]
        exact ⟨trivial, trivial, by rw [IsServiceOf, hname]; rfl⟩
  | some name =>
      have hzero : Ctx.zero.service = none := rfl
      simp only [hkeep, hzero, Option.or_none]
      cases hfind : findService services name with
      | none =>
          refine Or.inl ⟨⟨name, hname, ?_⟩, by simp⟩
          intro service hservice
          simpa using List.find?_eq_none.mp hfind service hservice
      | some service =>
          refine Or.inr ⟨?_, by simp, by simp, ?_⟩
          · rintro ⟨name', hname', hlacks⟩
            obtain rfl : name' = name := Option.some.inj (hname'.symm.trans hname)
            have hmem := List.mem_of_find?_eq_some hfind
            exact hlacks service hmem (by simpa using List.find?_some hfind)
          · simpa using isServiceOf_findService hname hfind

/-- **Route selection.**  With a service table and a route table that is not empty, the
router takes the first route of the greatest priority among those that fit, and its
service. -/
theorem router_selects (pool : PoolEnv) {kcf : Conf} (hservices : kcf.services = some services)
    (hconf : kcf.routes = some routes) (hne : routes ≠ []) (hr : r.NulFree)
    (hroutes : ∀ route ∈ routes, route.NulFree)
    (hstrip : ∀ route ∈ routes, route.stripPath = false) :
    RoutesExactly (Fits r) routes services (router pool (some kcf) r .zero) := by
  have htable : kcf.routes.getD [] = routes := by rw [hconf]; rfl
  rw [router_of_hasRoutes (by rwa [htable]), htable]
  rcases bestRoute_cases hr hroutes with ⟨hbest, hnone⟩ | ⟨route, hbest, hmax⟩
  · rw [hbest]
    have hno : ∀ route, ¬ IsFirstMax (Fits r) Route.priority routes route :=
      fun route h => hnone route h.mem h.1
    exact
      { ok := iff_of_false (by simp) fun ⟨route, h, _⟩ => hno route h
        selected := fun h => absurd h (by simp)
        notFound := iff_of_true rfl hnone
        internalServerError := iff_of_false (by simp) fun ⟨route, h, _⟩ => hno route h }
  · rw [hbest]
    have hfound : ¬ ∀ route ∈ routes, ¬ Fits r route := fun h => h route hmax.mem hmax.1
    simp only
    rcases followRoute_cases (r := r) pool hservices (hstrip route hmax.mem) with
      ⟨hlacks, hrc⟩ | ⟨hhas, hrc, hroute, hservice⟩
    · exact
        { ok := by
            refine iff_of_false (by rw [hrc]; simp) ?_
            rintro ⟨other, hother, hhas⟩
            exact hhas (hmax.eq hother ▸ hlacks)
          selected := fun h => absurd (hrc.symm.trans h) (by simp)
          notFound := iff_of_false (by rw [hrc]; simp) hfound
          internalServerError := iff_of_true hrc ⟨route, hmax, hlacks⟩ }
    · exact
        { ok := iff_of_true hrc ⟨route, hmax, hhas⟩
          selected := fun _ => ⟨route, hmax, hroute, hservice⟩
          notFound := iff_of_false (by rw [hrc]; simp) hfound
          internalServerError := by
            refine iff_of_false (by rw [hrc]; simp) ?_
            rintro ⟨other, hother, hlacks⟩
            exact hhas (hmax.eq hother ▸ hlacks) }

end Tables

/-- Two routes that fit, one of greater priority and for the host of the request. -/
theorem router_selects_overlapping :
    ([⟨ascii "/", [], some (ascii "web"), none, false, 1⟩,
      ⟨ascii "/api", ascii "get", some (ascii "api"), some [ascii "a.org"], false, 2⟩] :
        List Route) ≠ [] ∧
      RoutesExactly (Fits ⟨ascii "/api/v1", ascii "GET", some (ascii "A.org"), [], [], [], []⟩)
        [⟨ascii "/", [], some (ascii "web"), none, false, 1⟩,
          ⟨ascii "/api", ascii "get", some (ascii "api"), some [ascii "a.org"], false, 2⟩]
        [⟨ascii "web", [], []⟩, ⟨ascii "api", [], []⟩]
        (router ⟨true, true, true, true, true, true, true, true⟩
          (some { createConf with
            services := some [⟨ascii "web", [], []⟩, ⟨ascii "api", [], []⟩]
            routes := some [⟨ascii "/", [], some (ascii "web"), none, false, 1⟩,
              ⟨ascii "/api", ascii "get", some (ascii "api"), some [ascii "a.org"], false, 2⟩] })
          ⟨ascii "/api/v1", ascii "GET", some (ascii "A.org"), [], [], [], []⟩ .zero) := by
  refine ⟨by decide, router_selects _ rfl rfl (by decide) ⟨by decide, by decide, ?_⟩ ?_ ?_⟩
  · intro host h
    rw [← Option.some.inj h]
    decide
  · intro route h
    rcases List.mem_cons.mp h with rfl | h
    · exact ⟨by decide, by decide, by decide⟩
    · rw [List.mem_singleton.mp h]
      exact ⟨by decide, by decide, by decide⟩
  · decide

/-- A route for an empty host name is not found by a request with an empty host. -/
theorem routesExactly_fails :
    ¬ ∀ (pool : PoolEnv) (kcf : Conf) (routes : List Route) (services : List Service)
        (r : Request), kcf.services = some services → kcf.routes = some routes → routes ≠ [] →
        r.NulFree → (∀ route ∈ routes, route.NulFree) →
        (∀ route ∈ routes, route.stripPath = false) →
        RoutesExactly (FitsAnyHost r) routes services (router pool (some kcf) r .zero) := by
  intro h
  have hout := h ⟨true, true, true, true, true, true, true, true⟩
    { createConf with
      services := some []
      routes := some [⟨ascii "/", [], none, some [[]], false, 0⟩] }
    [⟨ascii "/", [], none, some [[]], false, 0⟩] [] ⟨ascii "/", [], some [], [], [], [], []⟩
    rfl rfl (by decide) ⟨by decide, by decide, by simp⟩
    (by
      intro route hroute
      rw [List.mem_singleton.mp hroute]
      exact ⟨by decide, by decide, by decide⟩)
    (by decide)
  refine hout.notFound.mp (by decide) _ (List.mem_singleton_self _) ⟨⟨?_, Or.inl rfl⟩, Or.inr ?_⟩
  · exact List.prefix_refl _
  · exact ⟨[], rfl, [], List.mem_singleton_self _, rfl⟩

end Dmmr.Gateway
