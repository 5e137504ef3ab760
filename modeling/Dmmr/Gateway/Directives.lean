import Dmmr.Gateway.Conf
import Dmmr.Lib.Inherit

/-!
# Directives and their inheritance: `ngx_http_dmmr_module.c`

Every `http`, `server` and `location` block has a location configuration of its
own, which the directives of the block are written to.  When the whole `http`
block has been read, nginx merges each of these configurations into those of the
blocks inside, from the outside in.

The merge macros take a value over from outside only where the inner
configuration holds the reserved value for "not set".  The `create` callbacks
put it into `enable`, and leave `cache_addr` at `NULL`, but they put the default
itself into `rate_limit` and `rate_window`.  So a rate given outside the location
never reaches it: a location has the rates it sets itself, or the defaults
(`inherits_iff`).
-/

namespace Dmmr.Gateway

open Words Inherit

/-! ## The configuration of a block -/

/-- `ngx_http_dmmr_conf_t` while the configuration is being read; a string whose
`data` is `NULL` is `none`. -/
structure RawConf where
  enable : Flag
  services : Option (List Service)
  routes : Option (List Route)
  cacheAddr : Option Bytes
  rateLimit : UInt64
  rateWindow : UInt64
  deriving DecidableEq, Repr

/-- The configuration as the handlers read it. -/
def RawConf.conf (raw : RawConf) : Conf where
  enable := raw.enable
  services := raw.services
  routes := raw.routes
  cacheAddr := raw.cacheAddr.getD []
  rateLimit := raw.rateLimit
  rateWindow := raw.rateWindow

/-- `ngx_http_dmmr_create_main_conf`. -/
def createMainConf : RawConf where
  enable := .unset
  services := none
  routes := none
  cacheAddr := none
  rateLimit := 100
  rateWindow := 60000

/-- `ngx_http_dmmr_create_srv_conf`. -/
def createSrvConf : RawConf := createMainConf

/-- `ngx_http_dmmr_create_loc_conf`. -/
def createLocConf : RawConf := createMainConf

theorem conf_createLocConf : createLocConf.conf = createConf := rfl

/-! ## Setters

A setter gets the words of a line, the name of the directive first, and returns
the changed configuration or the text of an error. -/

/-- `ngx_strcmp(s, t) == 0` for a `t` without `NUL`. -/
def strcmpEq (s t : Bytes) : Bool := strncmpEq s t (t.length + 1)

/-- `NGX_MAX_INT_T_VALUE`. -/
def maxIntT : Int := 9223372036854775807

/-- The loop of `ngx_atoi`. -/
def atoiLoop : Int → Bytes → Int
  | value, [] => value
  | value, c :: line =>
      let digit : Int := c.toNat - 48
      if c < 48 ∨ c > 57 then -1
      else if value ≥ maxIntT / 10 ∧ (value > maxIntT / 10 ∨ digit > maxIntT % 10) then -1
      else atoiLoop (value * 10 + digit) line

/-- `ngx_atoi`, where `-1` is `NGX_ERROR`. -/
def atoi (line : Bytes) : Int := if line.length = 0 then -1 else atoiLoop 0 line

/-- `ngx_http_dmmr_enable`. -/
def enableSet (args : List Bytes) (conf : RawConf) : Except String RawConf :=
  match args with
  | [_, value] =>
      if strcmpEq value (ascii "on") then .ok { conf with enable := .on }
      else if strcmpEq value (ascii "off") then .ok { conf with enable := .off }
      else .error "invalid value, must be 'on' or 'off'"
  | _ => .error "invalid number of arguments"

/-- The setters of the two rates, which differ in the field they write. -/
def rateSet (write : UInt64 → RawConf) (args : List Bytes) : Except String RawConf :=
  match args with
  | [_, value] =>
      if atoi value ≤ 0 then .error "invalid value"
      else .ok (write (UInt64.ofNat (atoi value).toNat))
  | _ => .error "invalid number of arguments"

/-- `ngx_http_dmmr_rate_limit_set`. -/
def rateLimitSet (args : List Bytes) (conf : RawConf) : Except String RawConf :=
  rateSet (fun limit => { conf with rateLimit := limit }) args

/-- `ngx_http_dmmr_rate_window_set`. -/
def rateWindowSet (args : List Bytes) (conf : RawConf) : Except String RawConf :=
  rateSet (fun window => { conf with rateWindow := window }) args

/-- `ngx_conf_set_str_slot` at `cache_addr`. -/
def cacheAddrSet (args : List Bytes) (conf : RawConf) : Except String RawConf :=
  if conf.cacheAddr.isSome then .error "is duplicate"
  else .ok { conf with cacheAddr := some (args.getD 1 []) }

/-- The entries of `ngx_http_dmmr_commands` that write to a location
configuration. -/
inductive Command
  | enable
  | cacheAddr
  | rateLimit
  | rateWindow
  deriving DecidableEq, Repr

/-- A line of the configuration with its words, the name of the directive
first. -/
structure Directive where
  command : Command
  args : List Bytes
  deriving DecidableEq, Repr

/-- What nginx does with a line. -/
def Directive.set (line : Directive) (conf : RawConf) : Except String RawConf :=
  -- all four commands are declared with `NGX_CONF_TAKE1`
  if line.args.length ≠ 2 then .error "invalid number of arguments"
  else
    match line.command with
    | .enable => enableSet line.args conf
    | .cacheAddr => cacheAddrSet line.args conf
    | .rateLimit => rateLimitSet line.args conf
    | .rateWindow => rateWindowSet line.args conf

/-- The location configuration of a block with the given lines. -/
def readBlock (block : List Directive) : Except String RawConf :=
  block.foldlM (fun conf line => line.set conf) createLocConf

/-! ## Merging -/

/-- `NGX_CONF_UNSET_UINT` and `NGX_CONF_UNSET_MSEC`. -/
def confUnsetUint : UInt64 := -1

/-- `ngx_conf_merge_value`. -/
def confMergeValue (conf prev fallback : Flag) : Flag := merge .unset fallback prev conf

/-- `ngx_conf_merge_str_value`. -/
def confMergeStrValue (conf prev : Option Bytes) (fallback : Bytes) : Option Bytes :=
  merge none (some fallback) prev conf

/-- `ngx_conf_merge_uint_value`. -/
def confMergeUintValue (conf prev fallback : UInt64) : UInt64 :=
  merge confUnsetUint fallback prev conf

/-- `ngx_conf_merge_msec_value`. -/
def confMergeMsecValue (conf prev fallback : UInt64) : UInt64 :=
  merge confUnsetUint fallback prev conf

/-- `ngx_http_dmmr_merge_srv_conf`. -/
def mergeSrvConf (prev conf : RawConf) : RawConf where
  services := conf.services.or prev.services
  routes := conf.routes.or prev.routes
  cacheAddr := if (conf.cacheAddr.getD []).length = 0 then prev.cacheAddr else conf.cacheAddr
  enable := if conf.enable = .unset then prev.enable else conf.enable
  rateLimit :=
    if conf.rateLimit = 100 ∧ prev.rateLimit ≠ 100 then prev.rateLimit else conf.rateLimit
  rateWindow :=
    if conf.rateWindow = 60000 ∧ prev.rateWindow ≠ 60000 then prev.rateWindow
    else conf.rateWindow

/-- The address of the cache where none is given. -/
def defaultCacheAddr : Bytes := ascii "unix:/tmp/dmmr_cache.sock"

/-- `ngx_http_dmmr_merge_loc_conf`. -/
def mergeLocConf (prev conf : RawConf) : RawConf where
  enable := confMergeValue conf.enable prev.enable .off
  services := conf.services.or prev.services
  routes := conf.routes.or prev.routes
  cacheAddr := confMergeStrValue conf.cacheAddr prev.cacheAddr defaultCacheAddr
  rateLimit := confMergeUintValue conf.rateLimit prev.rateLimit 100
  rateWindow := confMergeMsecValue conf.rateWindow prev.rateWindow 60000

/-- The two configurations of a block that are merged; a location shares the
server's `srvConf`. -/
structure ConfCtx where
  srvConf : RawConf
  locConf : RawConf
  deriving DecidableEq, Repr

/-- `ngx_http_merge_servers`, for one server. -/
def mergeServer (http server : ConfCtx) : ConfCtx :=
  ⟨mergeSrvConf http.srvConf server.srvConf, mergeLocConf http.locConf server.locConf⟩

/-- `ngx_http_merge_locations`, for one location. -/
def mergeLocation (parent : ConfCtx) (locConf : RawConf) : ConfCtx :=
  { parent with locConf := mergeLocConf parent.locConf locConf }

/-- A location with the blocks around it: the lines of each of them.  The
locations it is nested in are listed from the outside in. -/
structure Nesting where
  http : List Directive
  server : List Directive
  around : List (List Directive)
  location : List Directive
  deriving DecidableEq, Repr

/-- The configuration the location ends up with.  If several lines are in error,
the one reported here is the outermost; nginx reports the one it reads first. -/
def Nesting.configure (n : Nesting) : Except String ConfCtx := do
  let http ← readBlock n.http
  let server ← readBlock n.server
  let around ← n.around.mapM readBlock
  let location ← readBlock n.location
  return (around ++ [location]).foldl mergeLocation
    (mergeServer ⟨createSrvConf, http⟩ ⟨createSrvConf, server⟩)

/-! ## What a block sets -/

/-- What the block sets a directive to: the value in its last line for it. -/
def setting (command : Command) (block : List Directive) : Option Bytes :=
  (block.filter fun line => line.command = command).getLast?.map fun line => line.args.getD 1 []

/-- The flag a value stands for. -/
def flagValue (value : Bytes) : Flag := if strcmpEq value (ascii "on") then .on else .off

/-- The number a value stands for. -/
def rateValue (value : Bytes) : UInt64 := UInt64.ofNat (atoi value).toNat

theorem setting_concat (command : Command) (block : List Directive) (line : Directive) :
    setting command (block ++ [line]) =
      if line.command = command then some (line.args.getD 1 []) else setting command block := by
  unfold setting
  rw [List.filter_append, List.filter_singleton]
  by_cases hline : line.command = command
  · simp [hline]
  · simp [hline]

theorem atoiLoop_le {value : Int} (hvalue : value ≤ maxIntT) (line : Bytes) :
    atoiLoop value line ≤ maxIntT := by
  induction line generalizing value with
  | nil => exact hvalue
  | cons c line ih =>
      simp only [atoiLoop]
      split_ifs with hdigit hcut
      · decide
      · decide
      · apply ih
        rw [not_or, UInt8.not_lt, UInt8.not_lt, UInt8.le_iff_toNat_le, UInt8.le_iff_toNat_le]
          at hdigit
        simp only [maxIntT] at hcut ⊢
        have hlow : 48 ≤ c.toNat := hdigit.1
        have hhigh : c.toNat ≤ 57 := hdigit.2
        omega

/-- No value stands for the reserved number. -/
theorem rateValue_ne (value : Bytes) : rateValue value ≠ confUnsetUint := by
  have hle : atoi value ≤ maxIntT := by
    unfold atoi
    split_ifs
    · decide
    · exact atoiLoop_le (by decide) value
  intro heq
  have hnat : (atoi value).toNat % 2 ^ 64 = 2 ^ 64 - 1 := by
    rw [← UInt64.toNat_ofNat']
    exact congrArg UInt64.toNat heq
  simp only [maxIntT] at hle
  omega

theorem getD_rateValue_ne {fallback : UInt64} (h : fallback ≠ confUnsetUint)
    (value : Option Bytes) : (value.map rateValue).getD fallback ≠ confUnsetUint := by
  cases value with
  | none => exact h
  | some value => exact rateValue_ne value

/-- What is in the configuration of a block before anything is merged into it. -/
def blockConf (block : List Directive) : RawConf where
  enable := ((setting .enable block).map flagValue).getD .unset
  services := none
  routes := none
  cacheAddr := setting .cacheAddr block
  rateLimit := ((setting .rateLimit block).map rateValue).getD 100
  rateWindow := ((setting .rateWindow block).map rateValue).getD 60000

/-- What a line that is accepted does. -/
theorem set_cases {line : Directive} {conf conf' : RawConf} (h : line.set conf = .ok conf') :
    (line.command = .enable ∧ conf' = { conf with enable := flagValue (line.args.getD 1 []) }) ∨
    (line.command = .cacheAddr ∧ conf' = { conf with cacheAddr := some (line.args.getD 1 []) }) ∨
    (line.command = .rateLimit ∧
      conf' = { conf with rateLimit := rateValue (line.args.getD 1 []) }) ∨
    (line.command = .rateWindow ∧
      conf' = { conf with rateWindow := rateValue (line.args.getD 1 []) }) := by
  obtain ⟨command, args⟩ := line
  simp only [Directive.set] at h
  split_ifs at h with hlen
  obtain ⟨name, value, rfl⟩ := List.length_eq_two.mp (not_not.mp hlen)
  cases command with
  | enable =>
      refine .inl ⟨rfl, ?_⟩
      simp only [enableSet] at h
      unfold flagValue
      split_ifs at h with hon hoff
      · simpa [hon] using h.symm
      · simpa [hon] using h.symm
  | cacheAddr =>
      refine .inr (.inl ⟨rfl, ?_⟩)
      simp only [cacheAddrSet] at h
      split_ifs at h
      simpa using h.symm
  | rateLimit =>
      refine .inr (.inr (.inl ⟨rfl, ?_⟩))
      simp only [rateLimitSet, rateSet] at h
      split_ifs at h
      simpa [rateValue] using h.symm
  | rateWindow =>
      refine .inr (.inr (.inr ⟨rfl, ?_⟩))
      simp only [rateWindowSet, rateSet] at h
      split_ifs at h
      simpa [rateValue] using h.symm

theorem bind_eq_ok {α β : Type} {x : Except String α} {f : α → Except String β} {b : β}
    (h : x >>= f = .ok b) : ∃ a, x = .ok a ∧ f a = .ok b := by
  cases x with
  | error e => exact absurd h (by simp [bind, Except.bind])
  | ok a => exact ⟨a, rfl, h⟩

/-- A block that is accepted sets what its lines say. -/
theorem readBlock_eq {block : List Directive} {conf : RawConf} (h : readBlock block = .ok conf) :
    conf = blockConf block := by
  induction block using List.reverseRecOn generalizing conf with
  | nil => exact (Except.ok.inj h).symm
  | append_singleton block line ih =>
      unfold readBlock at h
      rw [List.foldlM_append] at h
      obtain ⟨before, hread, hline⟩ := bind_eq_ok h
      obtain ⟨after, hset, hafter⟩ := bind_eq_ok hline
      obtain rfl := ih hread
      obtain rfl := Except.ok.inj hafter
      simp only [blockConf, setting_concat]
      rcases set_cases hset with ⟨hc, rfl⟩ | ⟨hc, rfl⟩ | ⟨hc, rfl⟩ | ⟨hc, rfl⟩ <;>
        simp [hc, blockConf]

theorem mapM_readBlock_eq {blocks : List (List Directive)} {confs : List RawConf}
    (h : blocks.mapM readBlock = .ok confs) : confs = blocks.map blockConf := by
  induction blocks generalizing confs with
  | nil => exact (Except.ok.inj h).symm
  | cons block blocks ih =>
      rw [List.mapM_cons] at h
      obtain ⟨conf, hconf, hrest⟩ := bind_eq_ok h
      obtain ⟨rest, hrest, hconfs⟩ := bind_eq_ok hrest
      rw [← Except.ok.inj hconfs, readBlock_eq hconf, ih hrest]
      rfl

/-! ## What the location ends up with -/

/-- The blocks around the location, from the outside in. -/
def Nesting.outside (n : Nesting) : List (List Directive) := n.http :: n.server :: n.around

/-- The blocks around the location and the location itself. -/
def Nesting.blocks (n : Nesting) : List (List Directive) := n.outside ++ [n.location]

/-- The location's configuration is merged from those of all blocks. -/
theorem locConf_configure {n : Nesting} {ctx : ConfCtx} (h : n.configure = .ok ctx) :
    ctx.locConf = (n.server :: n.around ++ [n.location]).foldl
      (fun conf block => mergeLocConf conf (blockConf block)) (blockConf n.http) := by
  obtain ⟨http, hhttp, h⟩ := bind_eq_ok h
  obtain ⟨server, hserver, h⟩ := bind_eq_ok h
  obtain ⟨around, haround, h⟩ := bind_eq_ok h
  obtain ⟨location, hlocation, h⟩ := bind_eq_ok h
  obtain rfl := Except.ok.inj h
  rw [readBlock_eq hhttp, readBlock_eq hserver, mapM_readBlock_eq haround, readBlock_eq hlocation,
    ← List.map_singleton, ← List.map_append, List.foldl_map]
  exact (List.foldl_hom ConfCtx.locConf fun _ _ => rfl).symm

theorem getD_map_some {α : Type} (o : Option α) (fallback : α) :
    (o.map some).getD (some fallback) = some (o.getD fallback) := by
  cases o <;> rfl

section Fields

variable {n : Nesting} {ctx : ConfCtx} (h : n.configure = .ok ctx)
include h

theorem enable_configure :
    ctx.locConf.enable = ((innermost (setting .enable) n.blocks).map flagValue).getD .off := by
  have hset : ∀ block, ∀ v ∈ (setting .enable block).map flagValue, v ≠ .unset := by
    intro block v hv
    obtain ⟨value, -, rfl⟩ := Option.map_eq_some_iff.mp hv
    unfold flagValue
    split_ifs <;> decide
  rw [locConf_configure h, ← innermost_map]
  refine Eq.trans ?_ (foldl_merge hset (by decide) n.http (n.server :: n.around) n.location)
  exact (List.foldl_hom RawConf.enable fun _ _ => rfl).symm

theorem cacheAddr_configure :
    ctx.locConf.cacheAddr =
      some ((innermost (setting .cacheAddr) n.blocks).getD defaultCacheAddr) := by
  have hset : ∀ block, ∀ v ∈ (setting .cacheAddr block).map some, v ≠ none := by
    intro block v hv
    obtain ⟨value, -, rfl⟩ := Option.map_eq_some_iff.mp hv
    exact Option.some_ne_none value
  have hsome : ∀ block, ((setting .cacheAddr block).map some).getD none =
      setting .cacheAddr block := by
    intro block
    cases setting .cacheAddr block <;> rfl
  have hmerge := foldl_merge hset (Option.some_ne_none defaultCacheAddr) n.http
    (n.server :: n.around) n.location
  simp only [hsome, innermost_map] at hmerge
  rw [locConf_configure h]
  refine Eq.trans ?_ (hmerge.trans (getD_map_some _ _))
  exact (List.foldl_hom RawConf.cacheAddr fun _ _ => rfl).symm

theorem rateLimit_configure :
    ctx.locConf.rateLimit = ((setting .rateLimit n.location).map rateValue).getD 100 := by
  rw [locConf_configure h, List.foldl_append]
  exact merge_of_ne (getD_rateValue_ne (by decide) _) _

theorem rateWindow_configure :
    ctx.locConf.rateWindow = ((setting .rateWindow n.location).map rateValue).getD 60000 := by
  rw [locConf_configure h, List.foldl_append]
  exact merge_of_ne (getD_rateValue_ne (by decide) _) _

end Fields

/-! ## Inheritance -/

/-- Every directive has the value it is set to in the innermost block that sets
it, or its default. -/
structure Inherits (n : Nesting) (conf : RawConf) : Prop where
  enable : conf.enable = ((innermost (setting .enable) n.blocks).map flagValue).getD .off
  cacheAddr :
    conf.cacheAddr = some ((innermost (setting .cacheAddr) n.blocks).getD defaultCacheAddr)
  rateLimit :
    conf.rateLimit = ((innermost (setting .rateLimit) n.blocks).map rateValue).getD 100
  rateWindow :
    conf.rateWindow = ((innermost (setting .rateWindow) n.blocks).map rateValue).getD 60000

/-- The location sets the rate itself, or the blocks around it leave it at its
default. -/
def RateSettled (command : Command) (fallback : UInt64) (n : Nesting) : Prop :=
  (setting command n.location).isSome ∨
    ((innermost (setting command) n.outside).map rateValue).getD fallback = fallback

instance (command : Command) (fallback : UInt64) (n : Nesting) :
    Decidable (RateSettled command fallback n) := inferInstanceAs (Decidable (_ ∨ _))

theorem own_rate_eq_iff (command : Command) (fallback : UInt64) (n : Nesting) :
    ((setting command n.location).map rateValue).getD fallback =
        ((innermost (setting command) n.blocks).map rateValue).getD fallback ↔
      RateSettled command fallback n := by
  unfold RateSettled Nesting.blocks
  rw [innermost_concat]
  cases setting command n.location with
  | some value => simp
  | none =>
      simp only [Option.none_or, Option.map_none, Option.getD_none, Option.isSome_none,
        Bool.false_eq_true, false_or]
      exact eq_comm

/-- **Inheritance of the directives.**  If the configuration is accepted, the
directives that are in force in a location are those of the innermost blocks that
set them if and only if, for each of the two rates, the location sets it itself or
the blocks around it leave it at its default. -/
theorem inherits_iff (n : Nesting) (ctx : ConfCtx) (h : n.configure = .ok ctx) :
    Inherits n ctx.locConf ↔
      RateSettled .rateLimit 100 n ∧ RateSettled .rateWindow 60000 n := by
  rw [← own_rate_eq_iff, ← own_rate_eq_iff, ← rateLimit_configure h, ← rateWindow_configure h]
  constructor
  · exact fun hinherits => ⟨hinherits.rateLimit, hinherits.rateWindow⟩
  · rintro ⟨hlimit, hwindow⟩
    exact ⟨enable_configure h, cacheAddr_configure h, hlimit, hwindow⟩

/-- The module is switched on for the server, and a location of it sets a limit
of its own. -/
def limitInLocation : Nesting where
  http := []
  server := [⟨.enable, [ascii "dmmr_enable", ascii "on"]⟩]
  around := []
  location := [⟨.rateLimit, [ascii "dmmr_rate_limit", ascii "120"]⟩]

theorem inherits_limitInLocation :
    ∃ ctx, limitInLocation.configure = .ok ctx ∧ ctx.locConf.enable = .on ∧
      ctx.locConf.rateLimit = 120 ∧ Inherits limitInLocation ctx.locConf :=
  ⟨_, rfl, by decide, by decide, (inherits_iff limitInLocation _ rfl).mpr (by decide)⟩

/-- The same limit, set for the whole server. -/
def limitInServer : Nesting where
  http := []
  server := [⟨.rateLimit, [ascii "dmmr_rate_limit", ascii "120"]⟩]
  around := []
  location := []

/-- The location is left with the default. -/
theorem inherits_fails :
    ∃ ctx, limitInServer.configure = .ok ctx ∧ ctx.locConf.rateLimit = 100 ∧
      ¬ Inherits limitInServer ctx.locConf := by
  refine ⟨_, rfl, by decide, fun hinherits => ?_⟩
  exact absurd hinherits.rateLimit (by decide)

end Dmmr.Gateway
