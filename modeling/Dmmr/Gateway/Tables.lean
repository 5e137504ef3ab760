import Dmmr.Gateway.Directives
import Dmmr.Gateway.Handler
import Dmmr.Gateway.Selection
import Mathlib.Data.List.Find

/-!
# From the configuration file to the upstream

`dmmr_service` and `dmmr_route` may stand in any block, but their setters always get
the main configuration.  So all lines of the file fill one pair of tables, in the order
of the file, and a route written in one server is a route of all of them.

A line gives a path and the name of a service.  No directive sets the method, the
hosts, the priority or the stripping of a route, and of what the router does with these
nothing is left: the first route of the file whose path begins the URI is taken.

`$dmmr_upstream` is computed when it is read, if the handler has not come to it.  So it
has the value the file gives, whatever the handler has decided (`upstream_of_file`).
-/

namespace Dmmr.Gateway

open Words FirstMax

/-! ## Reading the file -/

/-- `ngx_http_dmmr_service`, with the words of the line and whether the array could be
created and grown. -/
def serviceSet (allocated : Bool) (args : List Bytes) (conf : RawConf) :
    Except String RawConf :=
  if !allocated then .error "NGX_CONF_ERROR"
  else
    let service : Service := ⟨args.getD 1 [], args.getD 2 [], args.getD 3 []⟩
    .ok { conf with services := some (conf.services.getD [] ++ [service]) }

/-- `ngx_http_dmmr_route`, where `allocated` stands for the two strings as well. -/
def routeSet (allocated : Bool) (args : List Bytes) (conf : RawConf) : Except String RawConf :=
  if !allocated then .error "NGX_CONF_ERROR"
  else
    let route : Route :=
      { path := args.getD 1 []
        method := []
        serviceName := some (args.getD 2 [])
        hosts := none
        stripPath := false
        priority := 0 }
    .ok { conf with routes := some (conf.routes.getD [] ++ [route]) }

/-- The entries of `ngx_http_dmmr_commands` that fill the tables. -/
inductive TableCommand
  | service
  | route
  deriving DecidableEq, Repr

/-- A line for one of the tables. -/
structure TableLine where
  command : TableCommand
  args : List Bytes
  allocated : Bool
  deriving DecidableEq, Repr

/-- What nginx does with the line; the main configuration is that of the whole file. -/
def TableLine.set (line : TableLine) (conf : RawConf) : Except String RawConf :=
  match line.command with
  | .service =>
      -- `NGX_CONF_TAKE3`
      if line.args.length ≠ 4 then .error "invalid number of arguments"
      else serviceSet line.allocated line.args conf
  | .route =>
      -- `NGX_CONF_TAKE2`
      if line.args.length ≠ 3 then .error "invalid number of arguments"
      else routeSet line.allocated line.args conf

/-- What stands in a block, as far as the tables are concerned: lines and further
blocks. -/
inductive ConfItem
  | line (line : TableLine)
  | block (items : List ConfItem)

mutual

/-- An item is read as `ngx_conf_parse` comes to it. -/
def ConfItem.read : ConfItem → RawConf → Except String RawConf
  | .line line, conf => line.set conf
  | .block items, conf => readItems items conf

/-- `ngx_conf_parse`: the first error ends it. -/
def readItems : List ConfItem → RawConf → Except String RawConf
  | [], conf => .ok conf
  | item :: items, conf => item.read conf >>= readItems items

end

/-- The main configuration of a file. -/
def readFile (file : List ConfItem) : Except String RawConf := readItems file createMainConf

/-! ## `$dmmr_upstream` -/

/-- `ngx_http_dmmr_upstream_variable`: the value, the context and the URI; there is no
value if `not_found` is set. -/
def upstreamVariable (pool : PoolEnv) (uri : Bytes) (ctx : Option Ctx) :
    Option Bytes × Option Ctx × Bytes :=
  match ctx with
  | none => (none, none, uri)
  | some ctx =>
      if ctx.upstreamName = none ∧ ctx.service ≠ none then
        -- the code that `ngx_http_dmmr_upstream` returns is dropped
        let made := upstream pool uri ctx
        (made.2.1.upstreamName, some made.2.1, made.2.2)
      else (ctx.upstreamName, some ctx, uri)

/-! ## What the file says -/

mutual

/-- The lines of an item, in the order of the file. -/
def ConfItem.lines : ConfItem → List TableLine
  | .line line => [line]
  | .block items => linesOf items

/-- The lines of a file, in their order. -/
def linesOf : List ConfItem → List TableLine
  | [] => []
  | item :: items => item.lines ++ linesOf items

end

/-- The service a line describes. -/
def TableLine.service (line : TableLine) : Service :=
  ⟨line.args.getD 1 [], line.args.getD 2 [], line.args.getD 3 []⟩

/-- The path a line gives a service to. -/
def TableLine.path (line : TableLine) : Bytes := line.args.getD 1 []

/-- The name of that service. -/
def TableLine.target (line : TableLine) : Bytes := line.args.getD 2 []

/-- The lines with a given command. -/
def linesFor (command : TableCommand) (lines : List TableLine) : List TableLine :=
  lines.filter fun line => line.command = command

/-- The service for a URI, by the file alone: the first route line whose path begins the
URI, and the first service line with the name it gives. -/
def serviceFor (file : List ConfItem) (uri : Bytes) : Option Service :=
  ((linesFor .route (linesOf file)).find? fun line => line.path.isPrefixOf uri).bind
    fun line => ((linesFor .service (linesOf file)).map TableLine.service).find?
      fun service => service.name == line.target

/-- The upstream of a service. -/
def Service.address (service : Service) : Bytes := service.host ++ ascii ":" ++ service.port

/-- The entry of the table for a route line. -/
def TableLine.route (line : TableLine) : Route :=
  ⟨line.path, [], some line.target, none, false, 0⟩

/-! ## Reading fills the tables -/

mutual

/-- The blocks make no difference. -/
theorem read_eq_foldlM (item : ConfItem) (conf : RawConf) :
    item.read conf = item.lines.foldlM (fun conf line => line.set conf) conf := by
  cases item with
  | line line =>
      rw [ConfItem.read, ConfItem.lines, List.foldlM_cons]
      cases line.set conf <;> rfl
  | block items =>
      rw [ConfItem.read, ConfItem.lines]
      exact readItems_eq_foldlM items conf

theorem readItems_eq_foldlM (items : List ConfItem) (conf : RawConf) :
    readItems items conf = (linesOf items).foldlM (fun conf line => line.set conf) conf := by
  cases items with
  | nil => rfl
  | cons item items =>
      rw [readItems, linesOf, List.foldlM_append, read_eq_foldlM item conf]
      exact congrArg _ (funext fun conf => readItems_eq_foldlM items conf)

end

/-- The tables are those of the lines read, after what was there before. -/
structure Filled (conf conf' : RawConf) (lines : List TableLine) : Prop where
  services : conf'.services.getD [] =
    conf.services.getD [] ++ (linesFor .service lines).map TableLine.service
  routes : conf'.routes.getD [] =
    conf.routes.getD [] ++ (linesFor .route lines).map TableLine.route

theorem set_filled {line : TableLine} {conf conf' : RawConf} (h : line.set conf = .ok conf') :
    Filled conf conf' [line] := by
  obtain ⟨command, args, allocated⟩ := line
  cases command with
  | service =>
      simp only [TableLine.set, serviceSet] at h
      split_ifs at h
      rw [← Except.ok.inj h]
      exact ⟨rfl, (List.append_nil _).symm⟩
  | route =>
      simp only [TableLine.set, routeSet] at h
      split_ifs at h
      rw [← Except.ok.inj h]
      exact ⟨(List.append_nil _).symm, rfl⟩

theorem linesFor_append (command : TableCommand) (lines lines' : List TableLine) :
    linesFor command (lines ++ lines') = linesFor command lines ++ linesFor command lines' :=
  List.filter_append ..

theorem Filled.trans {conf conf' conf'' : RawConf} {lines lines' : List TableLine}
    (h : Filled conf conf' lines) (h' : Filled conf' conf'' lines') :
    Filled conf conf'' (lines ++ lines') where
  services := by
    rw [h'.services, h.services, linesFor_append, List.map_append, List.append_assoc]
  routes := by
    rw [h'.routes, h.routes, linesFor_append, List.map_append, List.append_assoc]

theorem foldlM_filled {lines : List TableLine} {conf conf' : RawConf}
    (h : lines.foldlM (fun conf line => line.set conf) conf = .ok conf') :
    Filled conf conf' lines := by
  induction lines generalizing conf with
  | nil =>
      obtain rfl : conf = conf' := Except.ok.inj h
      exact ⟨(List.append_nil _).symm, (List.append_nil _).symm⟩
  | cons line lines ih =>
      rw [List.foldlM_cons] at h
      obtain ⟨next, hset, hrest⟩ := bind_eq_ok h
      exact (set_filled hset).trans (ih hrest)

/-- A file that is accepted has just its lines in the tables. -/
theorem readFile_filled {file : List ConfItem} {conf : RawConf} (h : readFile file = .ok conf) :
    Filled createMainConf conf (linesOf file) := by
  rw [readFile, readItems_eq_foldlM] at h
  exact foldlM_filled h

/-! ## Routing by the file -/

/-- A route line is put to one test only. -/
theorem routeMatches_route (r : Request) {line : TableLine} (hnul : 0 ∉ line.path) :
    routeMatches r line.route = line.path.isPrefixOf r.uri := by
  have hpath : matchPath r.uri line.route.path = .ok ↔ line.path <+: r.uri :=
    matchPath_eq_ok_iff hnul
  rw [Bool.eq_iff_iff, List.isPrefixOf_iff_prefix, ← hpath]
  by_cases hok : matchPath r.uri line.route.path = .ok
  · refine iff_of_true ?_ hok
    unfold routeMatches
    rw [if_neg (not_not.mpr hok)]
    rfl
  · exact iff_of_false (by simp [routeMatches, hok]) hok

/-- With one priority for all, the first route that matches is the best. -/
theorem bestRoute_map_route (r : Request) {lines : List TableLine}
    (hnul : ∀ line ∈ lines, 0 ∉ line.path) :
    bestRoute r (lines.map TableLine.route) =
      (lines.find? fun line => line.path.isPrefixOf r.uri).map TableLine.route := by
  have hstep : considerRoute r = keep (routeMatches r) Route.priority := by
    funext best route
    unfold considerRoute keep
    cases best <;> rfl
  have htests : (lines.find? fun line => routeMatches r line.route) =
      lines.find? fun line => line.path.isPrefixOf r.uri :=
    List.find?_congr fun line hline => routeMatches_route r (hnul line hline)
  calc bestRoute r (lines.map TableLine.route)
      = (lines.map TableLine.route).find? (routeMatches r) := by
        rw [bestRoute, hstep]
        apply foldl_keep_of_const
        intro route hroute
        obtain ⟨line, -, rfl⟩ := List.mem_map.mp hroute
        rfl
    _ = (lines.find? fun line => routeMatches r line.route).map TableLine.route := by
        rw [List.find?_map]
        rfl
    _ = _ := by rw [htests]

/-- What the context says about the upstream: the service, no other URI, and the
address of the service if there is one yet. -/
structure Resolved (service : Option Service) (ctx : Ctx) : Prop where
  service : ctx.service = service
  newUri : ctx.newUri = none
  upstreamName : ctx.upstreamName = none ∨ ctx.upstreamName = ctx.service.map Service.address

/-- A route of the file is followed to the service it names. -/
theorem resolved_followRoute (pool : PoolEnv) (kcf : Conf) (r : Request) (line : TableLine) :
    Resolved (findService (kcf.services.getD []) line.target)
      (followRoute pool kcf r line.route .zero).2 := by
  have hkeep : ∀ ctx : Ctx, stripPath pool r line.route ctx = (.ok, ctx) := fun ctx => rfl
  unfold followRoute
  cases kcf.services with
  | none => exact ⟨rfl, rfl, .inl rfl⟩
  | some services =>
      simp only [TableLine.route, Ctx.zero, Option.or_none, Option.getD_some]
      split_ifs
      · exact ⟨rfl, rfl, .inl rfl⟩
      · rw [← TableLine.route, hkeep]
        exact ⟨rfl, rfl, .inl rfl⟩

theorem resolved_router {file : List ConfItem} {conf : RawConf} (hread : readFile file = .ok conf)
    (hnul : ∀ line ∈ linesFor .route (linesOf file), 0 ∉ line.path) (pool : PoolEnv)
    (r : Request) :
    Resolved (serviceFor file r.uri) (router pool (some conf.conf) r .zero).2 := by
  have hroutes : conf.conf.routes.getD [] =
      (linesFor .route (linesOf file)).map TableLine.route := (readFile_filled hread).routes
  have hservices : conf.conf.services.getD [] =
      (linesFor .service (linesOf file)).map TableLine.service := (readFile_filled hread).services
  unfold router serviceFor
  simp only [hroutes, bestRoute_map_route r hnul, ← hservices]
  cases hfind : (linesFor .route (linesOf file)).find? fun line => line.path.isPrefixOf r.uri with
  | none =>
      simp only [Option.map_none, Option.bind_none]
      split_ifs
      · exact ⟨rfl, rfl, .inl rfl⟩
      · exact ⟨rfl, rfl, .inl rfl⟩
  | some line =>
      have hne : (linesFor .route (linesOf file)).map TableLine.route ≠ [] :=
        List.ne_nil_of_mem (List.mem_map_of_mem (List.mem_of_find?_eq_some hfind))
      simp only [if_neg hne, Option.map_some, Option.bind_some]
      exact resolved_followRoute pool conf.conf r line

section Stages

variable {service : Option Service} {ctx : Ctx}

theorem Resolved.auth (h : Resolved service ctx) (pool : PoolEnv) (attempts : ℕ → Attempt)
    (conf : Option Conf) (r : Request) :
    Resolved service (auth pool attempts conf r ctx).2 := by
  rcases auth_cases pool attempts conf r ctx with ⟨user, hauth⟩ | ⟨-, hauth⟩
  · rw [hauth]
    exact ⟨h.service, h.newUri, h.upstreamName⟩
  · rw [hauth]
    exact h

/-- The last stage leaves the URI alone.  If it succeeds there is a service, and its
address is recorded. -/
theorem Resolved.upstream (h : Resolved service ctx) (pool : PoolEnv) (uri : Bytes) :
    Resolved service (upstream pool uri ctx).2.1 ∧ (upstream pool uri ctx).2.2 = uri ∧
      ((upstream pool uri ctx).1 = .ok → service.isSome) := by
  have huri : ctx.newUri.getD uri = uri := by rw [h.newUri]; rfl
  unfold Gateway.upstream
  cases hservice : ctx.service with
  | none => exact ⟨h, rfl, by simp⟩
  | some found =>
      have hsome : service.isSome := by simp [← h.service, hservice]
      dsimp only
      split_ifs
      · exact ⟨h, huri, fun _ => hsome⟩
      · exact ⟨h, rfl, by simp⟩
      · exact ⟨h, rfl, by simp⟩
      · exact ⟨⟨hservice.symm.trans h.service, h.newUri, .inr rfl⟩, huri, fun _ => hsome⟩

/-- The variable has the address of the service. -/
theorem Resolved.upstreamVariable (h : Resolved service ctx) {pool : PoolEnv}
    (hname : pool.upstream = true) (hdata : pool.upstreamData = true) (uri : Bytes) :
    (upstreamVariable pool uri (some ctx)).1 = service.map Service.address ∧
      (upstreamVariable pool uri (some ctx)).2.2 = uri := by
  obtain ⟨rfl, hnew, hupstream⟩ := h
  unfold Gateway.upstreamVariable
  dsimp only
  split_ifs with hmake
  · obtain ⟨found, hfound⟩ := Option.ne_none_iff_exists'.mp hmake.2
    simp [Gateway.upstream, hfound, hmake.1, hname, hdata, hnew, Service.address]
  · refine ⟨?_, rfl⟩
    rcases hupstream with hnone | hsome
    · have hservice : ctx.service = none := not_not.mp fun hne => hmake ⟨hnone, hne⟩
      rw [hnone, hservice]
      rfl
    · exact hsome

end Stages

/-- What the handler leaves behind once it has a context. -/
theorem resolved_handler {file : List ConfItem} {conf : RawConf} (hread : readFile file = .ok conf)
    (hnul : ∀ line ∈ linesFor .route (linesOf file), 0 ∉ line.path) (ngx : Ngx)
    {env : RequestEnv} (hctx : env.pool.ctx = true) (loc : Conf) (r : Request)
    (zone : Option RateShctx) :
    ∃ ctx, (handler ngx env (some conf.conf) (some loc.enabled) r zone).ctx = some ctx ∧
      Resolved (serviceFor file r.uri) ctx ∧
      (handler ngx env (some conf.conf) (some loc.enabled) r zone).uri = r.uri ∧
      ((handler ngx env (some conf.conf) (some loc.enabled) r zone).rc = .ok →
        (serviceFor file r.uri).isSome) := by
  have hrouted := resolved_router hread hnul env.pool r
  have hpool : (!env.pool.ctx) = false := by rw [hctx]; rfl
  unfold handler handleRouted handleAuthenticated
  rw [if_neg (by simp [Conf.enabled])]
  simp only [hpool, Bool.false_eq_true, if_false]
  have hchecked := hrouted.auth env.pool env.attempts (some loc.enabled) r
  -- the stage the handler stops at has left the context as it was
  split_ifs with hrouter hauth hlimit hplugins
  · exact ⟨_, rfl, hrouted, rfl, fun hok => absurd hok hrouter⟩
  · exact ⟨_, rfl, hchecked, rfl, fun hok => absurd hok hauth⟩
  · exact ⟨_, rfl, hchecked, rfl, fun hok => absurd hok hlimit⟩
  · exact absurd rfl hplugins
  · obtain ⟨hresolved, huri, hok⟩ := hchecked.upstream env.pool r.uri
    exact ⟨_, rfl, hresolved, huri, hok⟩

/-- **The upstream is the one the file gives.**  Whatever file is accepted and whatever
the handler does with a request, in whichever server: `$dmmr_upstream` is the address of
the first service line with the name that is given by the first route line whose path
begins the URI, and not found if there are no such lines.  The URI stays as it is, and
the handler returns `NGX_OK` only where there is such a service. -/
theorem upstream_of_file {file : List ConfItem} {conf : RawConf} (hread : readFile file = .ok conf)
    (hnul : ∀ line ∈ linesFor .route (linesOf file), 0 ∉ line.path) (ngx : Ngx)
    (env : RequestEnv) (hctx : env.pool.ctx = true) (loc : Conf) (r : Request)
    (zone : Option RateShctx) (pool : PoolEnv) (hname : pool.upstream = true)
    (hdata : pool.upstreamData = true) {out : Outcome}
    (hout : handler ngx env (some conf.conf) (some loc.enabled) r zone = out) :
    (upstreamVariable pool out.uri out.ctx).1 = (serviceFor file r.uri).map Service.address ∧
      (upstreamVariable pool out.uri out.ctx).2.2 = r.uri ∧
      (out.rc = .ok → (serviceFor file r.uri).isSome) := by
  subst hout
  obtain ⟨ctx, hleft, hresolved, huri, hok⟩ := resolved_handler hread hnul ngx hctx loc r zone
  rw [hleft, huri]
  obtain ⟨hvalue, hkept⟩ := hresolved.upstreamVariable hname hdata r.uri
  exact ⟨hvalue, hkept, hok⟩

/-- A file with a route in one server and a service in another; the second route is for
a longer path and is never taken. -/
def splitFile : List ConfItem :=
  [.block [.block [.line ⟨.route, [ascii "dmmr_route", ascii "/", ascii "web"], true⟩],
      .line ⟨.route, [ascii "dmmr_route", ascii "/private", ascii "api"], true⟩],
    .block [.line ⟨.service, [ascii "dmmr_service", ascii "api", ascii "10.0.0.3", ascii "80"],
      true⟩,
      .line ⟨.service, [ascii "dmmr_service", ascii "web", ascii "10.0.0.2", ascii "8080"], true⟩]]

/-- The tables of that file. -/
def splitConf : RawConf :=
  { createMainConf with
    services := some [⟨ascii "api", ascii "10.0.0.3", ascii "80"⟩,
      ⟨ascii "web", ascii "10.0.0.2", ascii "8080"⟩]
    routes := some [⟨ascii "/", [], some (ascii "web"), none, false, 0⟩,
      ⟨ascii "/private", [], some (ascii "api"), none, false, 0⟩] }

/-- The request has no credentials and is refused, and the variable has a value. -/
theorem upstream_of_file_split :
    readFile splitFile = .ok splitConf ∧
      (handler .plain cachelessEnv (some splitConf.conf) (some createConf.enabled) bareRequest
        (some .init)).rc = .unauthorized ∧
      (upstreamVariable cachelessEnv.pool
        (handler .plain cachelessEnv (some splitConf.conf) (some createConf.enabled) bareRequest
          (some .init)).uri
        (handler .plain cachelessEnv (some splitConf.conf) (some createConf.enabled) bareRequest
          (some .init)).ctx).1 = some (ascii "10.0.0.2:8080") := by
  have hread : readFile splitFile = .ok splitConf := rfl
  refine ⟨hread, by decide, ?_⟩
  have hvalue := (upstream_of_file hread (by decide) .plain cachelessEnv rfl createConf
    bareRequest (some .init) cachelessEnv.pool rfl rfl rfl).1
  exact hvalue.trans (by decide)

end Dmmr.Gateway
