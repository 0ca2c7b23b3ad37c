import BrewServer.Lib.Text
import BrewServer.Sip.Trunks

/-!
# Voice routes

The route table of the SIP side. The first route that the origin of a call and the number
it dials satisfy says where the call goes.
-/

namespace BrewServer.Sip

inductive RouteEndpoint
  | sipExtension (user : String)
  | sipTrunk (trunk number : String)
  | brewPrivate (issi : UInt32)
  | brewGroup (gssi : UInt32)

structure VoiceRouteConfig where
  name : String := ""
  matchPattern : String := "*"
  «to» : Option RouteEndpoint := none
  «from» : Option RouteEndpoint := none
  stripPrefix : String := ""
  enabled : Bool := true

inductive CallOrigin
  | sipExtension (user : String)
  | sipTrunk (trunk : String)
  | brewPrivate (issi : UInt32)
  | brewGroup (gssi : UInt32)

def CallOrigin.matches : CallOrigin → RouteEndpoint → Bool
  | .sipExtension a, .sipExtension user => a == user
  | .sipTrunk a, .sipTrunk trunk _ => a == trunk
  | .brewPrivate a, .brewPrivate issi => a == issi
  | .brewGroup a, .brewGroup gssi => a == gssi
  | _, _ => false

def CallOrigin.toLeg : CallOrigin → LegEndpoint
  | .sipExtension a => .sipExtension a
  | .sipTrunk t => .sipTrunk t ""
  | .brewPrivate i => .brewPrivate i
  | .brewGroup g => .brewGroup g

/-- `str::strip_suffix('*')`. -/
def stripStar (pattern : Chars) : Option Chars :=
  if pattern.getLast? = some '*' then some pattern.dropLast else none

/-- `str::strip_prefix`. -/
def stripPrefix (front s : String) : Option String :=
  if front.toList.isPrefixOf s.toList then some (String.ofList (s.toList.drop front.toList.length)) else none

/-- `*` matches anything, a trailing `*` is a prefix match, and anything else is exact. -/
def patternMatches (pattern dialled : String) : Bool :=
  if pattern = "*" then true
  else
    match stripStar pattern.toList with
    | some front => front.isPrefixOf dialled.toList
    | none => pattern == dialled

/-- A trunk is dialled with the number of the route, or else with the one dialled. -/
def resolveEndpoint (ep : RouteEndpoint) (dialled : String) : LegEndpoint :=
  match ep with
  | .sipExtension user => .sipExtension user
  | .sipTrunk trunk number => .sipTrunk trunk (if number.isEmpty then dialled else number)
  | .brewPrivate issi => .brewPrivate issi
  | .brewGroup gssi => .brewGroup gssi

/-- What is left of the number dialled for the endpoint. -/
def VoiceRouteConfig.stripped (route : VoiceRouteConfig) (dialled : String) : String :=
  if route.stripPrefix.isEmpty then dialled else (Sip.stripPrefix route.stripPrefix dialled).getD dialled

/-- Where a call goes, and by which route. -/
def resolve (origin : CallOrigin) (dialled : String) :
    List VoiceRouteConfig → Option (LegEndpoint × VoiceRouteConfig)
  | [] => none
  | route :: routes =>
    if !route.enabled then resolve origin dialled routes
    else if !patternMatches route.matchPattern dialled then resolve origin dialled routes
    else if !route.from.all origin.matches then resolve origin dialled routes
    else
      match route.to with
      | none => resolve origin dialled routes
      | some ep => some (resolveEndpoint ep (route.stripped dialled), route)

/-! ## The first route that applies -/

/-- A route is for a call. -/
structure VoiceRouteConfig.Applies (route : VoiceRouteConfig) (origin : CallOrigin) (dialled : String) : Prop where
  enabled : route.enabled = true
  pattern : patternMatches route.matchPattern dialled = true
  «from» : ∀ ep ∈ route.from, origin.matches ep = true
  «to» : route.to.isSome = true

section Resolve

variable {origin : CallOrigin} {dialled : String} {route : VoiceRouteConfig} {routes : List VoiceRouteConfig}

theorem resolve_cons_of_applies (h : route.Applies origin dialled) :
    resolve origin dialled (route :: routes) =
      route.to.map fun ep => (resolveEndpoint ep (route.stripped dialled), route) := by
  obtain ⟨ep, hto⟩ := Option.isSome_iff_exists.mp h.to
  have hfrom : route.from.all origin.matches = true := by
    rw [Option.all_eq_true]
    exact fun ep hep => h.from ep hep
  rw [resolve, h.enabled, h.pattern, hfrom, hto]
  rfl

theorem resolve_cons_of_not_applies (h : ¬ route.Applies origin dialled) :
    resolve origin dialled (route :: routes) = resolve origin dialled routes := by
  rw [resolve]
  split
  · rfl
  · next henabled =>
    split
    · rfl
    · next hpattern =>
      split
      · rfl
      · next hfrom =>
        cases hto : route.to with
        | none => rfl
        | some ep =>
          simp only [Bool.not_eq_true', Bool.not_eq_false] at henabled hpattern hfrom
          rw [Option.all_eq_true] at hfrom
          exact absurd ⟨henabled, hpattern, hfrom, by rw [hto]; rfl⟩ h

/-- A call goes where the first route that applies sends it. -/
theorem resolve_eq_some_iff {dest : LegEndpoint} :
    resolve origin dialled routes = some (dest, route) ↔
      ∃ before after ep, routes = before ++ route :: after ∧ (∀ r ∈ before, ¬ r.Applies origin dialled) ∧
        route.Applies origin dialled ∧ route.to = some ep ∧ dest = resolveEndpoint ep (route.stripped dialled) := by
  induction routes with
  | nil =>
    constructor
    · intro h
      cases h
    · rintro ⟨before, after, ep, h, -⟩
      exact absurd h.symm (List.append_ne_nil_of_right_ne_nil _ (List.cons_ne_nil _ _))
  | cons r routes ih =>
    by_cases hr : r.Applies origin dialled
    · rw [resolve_cons_of_applies hr, Option.map_eq_some_iff]
      constructor
      · rintro ⟨ep, hto, heq⟩
        cases heq
        exact ⟨[], routes, ep, rfl, fun _ h => absurd h List.not_mem_nil, hr, hto, rfl⟩
      · rintro ⟨before, after, ep, heq, hbefore, -, hto, rfl⟩
        cases before with
        | nil =>
          cases heq
          exact ⟨ep, hto, rfl⟩
        | cons b before =>
          cases heq
          exact absurd hr (hbefore _ List.mem_cons_self)
    · rw [resolve_cons_of_not_applies hr, ih]
      constructor
      · rintro ⟨before, after, ep, rfl, hbefore, hrest⟩
        refine ⟨r :: before, after, ep, rfl, fun r' hr' => ?_, hrest⟩
        rcases List.mem_cons.mp hr' with rfl | hr'
        · exact hr
        · exact hbefore r' hr'
      · rintro ⟨before, after, ep, heq, hbefore, happlies, hrest⟩
        cases before with
        | nil =>
          cases heq
          exact absurd happlies hr
        | cons b before =>
          cases heq
          exact ⟨before, after, ep, rfl, fun r' hr' => hbefore r' (List.mem_cons_of_mem _ hr'), happlies, hrest⟩

/-- Without a route that applies a call goes nowhere. -/
theorem resolve_eq_none_iff :
    resolve origin dialled routes = none ↔ ∀ r ∈ routes, ¬ r.Applies origin dialled := by
  induction routes with
  | nil => exact ⟨fun _ _ h => absurd h List.not_mem_nil, fun _ => rfl⟩
  | cons r routes ih =>
    rw [List.forall_mem_cons]
    by_cases hr : r.Applies origin dialled
    · obtain ⟨ep, hto⟩ := Option.isSome_iff_exists.mp hr.to
      rw [resolve_cons_of_applies hr, hto]
      constructor
      · intro h
        cases h
      · intro h
        exact absurd hr h.1
    · rw [resolve_cons_of_not_applies hr, ih]
      exact (and_iff_right hr).symm

end Resolve

end BrewServer.Sip
