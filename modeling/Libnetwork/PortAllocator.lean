import Mathlib

/-!
# The port allocator

`portallocator/portallocator.go` keeps, for every ip and protocol, the set of
allocated ports and the ranges that dynamic requests scan, each range with
the last port it handed out.  Go's `int` is 64 bits wide here, so ports and
the loop counter of `findPort` are `Int64` and wrap as Go's do.  Maps are
functions, updated with `Function.update`; a `*portMap` or `*portRange` that
the source mutates in place is read, changed and written back.

An ip is given by its `String()` (`none` for a nil ip, which stands for
`0.0.0.0`).  A call that does not return is `none`: `ReleasePort` of an
unknown protocol dereferences the nil map of that protocol, and the scan of
`findPort` never ends when `end - begin` wraps to the largest `int` and no
port is free.

The scan starts after `last` and adds one to the port before it compares it
with `end`; for a range that ends at the largest `int` the port wraps to the
smallest one, which is then handed out.
-/

namespace Libnetwork

/-- `portRange`: a range of ports and the last port handed out from it.  The
source's `end` is `stop`. -/
structure PortRange where
  begin : Int64
  stop : Int64
  last : Int64
  deriving DecidableEq, Repr

/-- `portMap`: the allocated ports of one ip and protocol, the key of the
default range and the ranges by key. -/
structure PortMap where
  p : Int64 → Bool
  defaultRange : String
  portRanges : String → Option PortRange

/-- `PortAllocator`: the port maps by ip and protocol, and the default
range. -/
structure PortAllocator where
  ipMap : String → Option (String → Option PortMap)
  Begin : Int64
  End : Int64

/-- The errors of the package. -/
inductive PortError
  | allPortsAllocated
  | unknownProtocol
  | portAlreadyAllocated (ip : String) (port : Int64)
  | invalidPortRange (key : String)
  deriving DecidableEq, Repr

/-- The text of each error. -/
def PortError.message : PortError → String
  | .allPortsAllocated => "all ports are allocated"
  | .unknownProtocol => "unknown protocol"
  | .portAlreadyAllocated ip port =>
      s!"Bind for {ip}:{port} failed: port is already allocated"
  | .invalidPortRange key => s!"invalid port range: {key}"

/-- `defaultIP.String()`. -/
def defaultIP : String := "0.0.0.0"

def getRangeKey (portStart portEnd : Int64) : String :=
  s!"{portStart}-{portEnd}"

/-- `newPortRange`: a range whose scan starts at its beginning. -/
def newPortRange (portStart portEnd : Int64) : PortRange :=
  ⟨portStart, portEnd, portEnd⟩

/-- `newPortMap`: no port allocated, and the default range. -/
def PortAllocator.newPortMap (p : PortAllocator) : PortMap :=
  let defaultKey := getRangeKey p.Begin p.End
  { p := fun _ => false,
    defaultRange := defaultKey,
    portRanges := fun key =>
      if key = defaultKey then some (newPortRange p.Begin p.End) else none }

/-- `getPortRange`: the key of the range and the range, created when it is
new. -/
def PortMap.getPortRange (pm : PortMap) (portStart portEnd : Int64) :
    Except PortError (PortMap × String × PortRange) :=
  let key :=
    if portStart == 0 && portEnd == 0 then pm.defaultRange
    else getRangeKey portStart portEnd
  if !(portStart == 0 && portEnd == 0) &&
      (portStart == portEnd || portStart == 0 || portEnd == 0 || portEnd < portStart) then
    .error (.invalidPortRange key)
  else
    match pm.portRanges key with
    | some pr => .ok (pm, key, pr)
    | none =>
        let pr := newPortRange portStart portEnd
        .ok ({ pm with portRanges := Function.update pm.portRanges key (some pr) }, key, pr)

/-- The loop of `findPort`, from counter `i` and the previous `port`:
`some (some port)` when it finds a free port, `some none` when the counter
passes `end - begin`, `none` when the fuel runs out.  The fuel is `2 ^ 64`: a
scan that finds nothing in as many steps has visited every port it will ever
visit, and runs forever. -/
def findPortLoop (allocated : Int64 → Bool) (pr : PortRange) :
    ℕ → Int64 → Int64 → Option (Option Int64)
  | 0, _, _ => none
  | fuel + 1, i, port =>
      if i <= pr.stop - pr.begin then
        let port := if port + 1 > pr.stop then pr.begin else port + 1
        if allocated port then findPortLoop allocated pr fuel (i + 1) port
        else some (some port)
      else some none

/-- `findPort`: hand out the first free port after the range's `last`,
cyclically. -/
def PortMap.findPort (pm : PortMap) (portStart portEnd : Int64) :
    Option (PortMap × Except PortError Int64) :=
  match pm.getPortRange portStart portEnd with
  | .error e => some (pm, .error e)
  | .ok (pm, key, pr) =>
      match findPortLoop pm.p pr (2 ^ 64) 0 pr.last with
      | none => none
      | some none => some (pm, .error .allPortsAllocated)
      | some (some port) =>
          some ({ pm with
              p := Function.update pm.p port true,
              portRanges := Function.update pm.portRanges key (some { pr with last := port }) },
            .ok port)

def knownProto (proto : String) : Bool :=
  proto == "tcp" || proto == "udp" || proto == "sctp"

/-- `RequestPortInRange`: the port `portStart` itself when `portStart = portEnd > 0`,
else the next free port of the range (the default range for `0, 0`). -/
def PortAllocator.RequestPortInRange (p : PortAllocator) (ip : Option String)
    (proto : String) (portStart portEnd : Int64) :
    Option (PortAllocator × Except PortError Int64) :=
  if !knownProto proto then some (p, .error .unknownProtocol)
  else
    let ipstr := ip.getD defaultIP
    let protomap : String → Option PortMap :=
      match p.ipMap ipstr with
      | some protomap => protomap
      | none => fun q => if knownProto q then some p.newPortMap else none
    let store (mapping : PortMap) : PortAllocator :=
      { p with
        ipMap :=
          Function.update p.ipMap ipstr (some (Function.update protomap proto (some mapping))) }
    match protomap proto with
    | none => none
    | some mapping =>
        if portStart > 0 && portStart == portEnd then
          if mapping.p portStart then
            some (store mapping, .error (.portAlreadyAllocated ipstr portStart))
          else
            some (store { mapping with p := Function.update mapping.p portStart true },
              .ok portStart)
        else
          match mapping.findPort portStart portEnd with
          | none => none
          | some (mapping, result) => some (store mapping, result)

/-- `RequestPort`: `RequestPortInRange` with a range of one port. -/
def PortAllocator.RequestPort (p : PortAllocator) (ip : Option String) (proto : String)
    (port : Int64) : Option (PortAllocator × Except PortError Int64) :=
  p.RequestPortInRange ip proto port port

/-- `ReleasePort`: forget the allocation of `port`; `none` when the protocol is
unknown for a known ip, whose map is nil. -/
def PortAllocator.ReleasePort (p : PortAllocator) (ip : Option String) (proto : String)
    (port : Int64) : Option PortAllocator :=
  let ipstr := ip.getD defaultIP
  match p.ipMap ipstr with
  | none => some p
  | some protomap =>
      match protomap proto with
      | none => none
      | some mapping =>
          let mapping := { mapping with p := Function.update mapping.p port false }
          some { p with
            ipMap :=
              Function.update p.ipMap ipstr
                (some (Function.update protomap proto (some mapping))) }

/-- Whether `port` of an ip and protocol is allocated. -/
def PortAllocator.allocated (p : PortAllocator) (ip proto : String) (port : Int64) : Bool :=
  match p.ipMap ip with
  | none => false
  | some protomap =>
      match protomap proto with
      | none => false
      | some mapping => mapping.p port

/-! ## What a scan hands out -/

theorem findPortLoop_free {allocated : Int64 → Bool} {pr : PortRange} {fuel : ℕ}
    {i port q : Int64} (h : findPortLoop allocated pr fuel i port = some (some q)) :
    allocated q = false := by
  induction fuel generalizing i port with
  | zero => simp [findPortLoop] at h
  | succ fuel ih =>
      simp only [findPortLoop] at h
      by_cases hi : i ≤ pr.stop - pr.begin
      · rw [if_pos hi] at h
        generalize (if port + 1 > pr.stop then pr.begin else port + 1) = next at h
        by_cases ha : allocated next
        · rw [if_pos ha] at h
          exact ih h
        · rw [if_neg ha] at h
          cases h
          simpa using ha
      · rw [if_neg hi] at h
        cases h

/-! ## What a request and a release change -/

/-- The allocation of a port in the port maps of one ip. -/
def protoAllocated (protomap : String → Option PortMap) (proto : String) (port : Int64) : Bool :=
  match protomap proto with
  | none => false
  | some mapping => mapping.p port

theorem PortAllocator.allocated_of_ipMap {p : PortAllocator} {ip : String}
    {protomap : String → Option PortMap} (h : p.ipMap ip = some protomap) (proto : String) (port : Int64) :
    p.allocated ip proto port = protoAllocated protomap proto port := by
  simp only [PortAllocator.allocated, protoAllocated, h]

theorem PortAllocator.allocated_of_ipMap_none {p : PortAllocator} {ip : String}
    (h : p.ipMap ip = none) (proto : String) (port : Int64) :
    p.allocated ip proto port = false := by
  simp [PortAllocator.allocated, h]

theorem allocated_update_ipMap (p : PortAllocator) (ipstr proto : String)
    (protomap : String → Option PortMap) (mapping : PortMap) (ip' proto' : String) (port' : Int64) :
    (⟨Function.update p.ipMap ipstr (some (Function.update protomap proto (some mapping))),
        p.Begin, p.End⟩ : PortAllocator).allocated ip' proto' port' =
      if ip' = ipstr then
        if proto' = proto then mapping.p port' else protoAllocated protomap proto' port'
      else p.allocated ip' proto' port' := by
  by_cases hip : ip' = ipstr
  · subst hip
    by_cases hp : proto' = proto
    · subst hp
      simp [PortAllocator.allocated]
    · rw [if_pos rfl, if_neg hp]
      simp only [PortAllocator.allocated, protoAllocated, Function.update_self,
        Function.update_of_ne hp]
  · simp [PortAllocator.allocated, hip]

theorem PortMap.getPortRange_p {pm pm' : PortMap} {portStart portEnd : Int64} {key : String}
    {pr : PortRange} (h : pm.getPortRange portStart portEnd = .ok (pm', key, pr)) : pm'.p = pm.p := by
  unfold PortMap.getPortRange at h
  generalize (if portStart == 0 && portEnd == 0 then pm.defaultRange
    else getRangeKey portStart portEnd) = k at h
  split at h
  · cases h
  · dsimp only at h
    split at h <;> cases h <;> rfl

theorem PortMap.findPort_ok {pm pm' : PortMap} {portStart portEnd port : Int64}
    (h : pm.findPort portStart portEnd = some (pm', .ok port)) :
    pm.p port = false ∧ pm'.p = Function.update pm.p port true := by
  unfold PortMap.findPort at h
  split at h
  · cases h
  · rename_i pm₁ key pr hrange
    have hp := PortMap.getPortRange_p hrange
    split at h
    · cases h
    · cases h
    · rename_i q hq
      cases h
      exact ⟨hp ▸ findPortLoop_free hq, by rw [hp]⟩

theorem PortMap.findPort_error {pm pm' : PortMap} {portStart portEnd : Int64} {e : PortError}
    (h : pm.findPort portStart portEnd = some (pm', .error e)) : pm'.p = pm.p := by
  unfold PortMap.findPort at h
  split at h
  · cases h
    rfl
  · rename_i pm₁ key pr hrange
    split at h
    · cases h
    · cases h
      exact PortMap.getPortRange_p hrange
    · cases h

/-- What a request can do: refuse an unknown protocol and change nothing, or
store a port map for its ip and protocol that differs from the one it read
by the port handed out, if any. -/
theorem PortAllocator.RequestPortInRange_cases {p p' : PortAllocator} {ip : Option String}
    {proto : String} {portStart portEnd : Int64} {r : Except PortError Int64}
    (h : p.RequestPortInRange ip proto portStart portEnd = some (p', r)) :
    (p' = p ∧ r = .error .unknownProtocol) ∨
    ∃ protomap mapping,
      (∀ q port, protoAllocated protomap q port = p.allocated (ip.getD defaultIP) q port) ∧
      protomap proto = some mapping ∧ ∃ mapping',
      p' = ⟨Function.update p.ipMap (ip.getD defaultIP)
        (some (Function.update protomap proto (some mapping'))), p.Begin, p.End⟩ ∧
      (∀ port, r = .ok port → mapping.p port = false ∧
        mapping'.p = Function.update mapping.p port true) ∧
      (∀ e, r = .error e → mapping'.p = mapping.p) := by
  unfold PortAllocator.RequestPortInRange at h
  dsimp only at h
  split at h
  · cases h
    exact .inl ⟨rfl, rfl⟩
  split at h
  · cases h
  rename_i mapping hmapping
  refine .inr ⟨_, mapping, ?agree, hmapping, ?_⟩
  case agree =>
    intro q port
    cases hip : p.ipMap (ip.getD defaultIP) with
    | some protomap =>
        simp only
        exact (PortAllocator.allocated_of_ipMap hip q port).symm
    | none =>
        by_cases hq : knownProto q <;>
          simp [PortAllocator.allocated_of_ipMap_none hip, protoAllocated, hq,
            PortAllocator.newPortMap]
  split at h
  · -- the one port asked for
    split at h
    · cases h
      exact ⟨_, rfl, (fun _ h => by cases h), fun _ _ => rfl⟩
    · rename_i hfree
      cases h
      refine ⟨_, rfl, fun port hport => ?_, (fun _ h => by cases h)⟩
      cases hport
      exact ⟨by simpa using hfree, rfl⟩
  · -- a scan of the range
    split at h
    · cases h
    · rename_i mapping' result hscan
      cases h
      refine ⟨_, rfl, fun port hport => ?_, fun e he => ?_⟩
      · subst hport
        exact PortMap.findPort_ok hscan
      · subst he
        exact PortMap.findPort_error hscan

theorem protoAllocated_of_eq_some {protomap : String → Option PortMap} {proto : String}
    {mapping : PortMap} (h : protomap proto = some mapping) (port : Int64) :
    protoAllocated protomap proto port = mapping.p port := by
  simp [protoAllocated, h]

section Allocation

variable {p p' : PortAllocator} {ip : Option String} {proto : String} {port : Int64}

/-- A request that hands out a port hands out one that was free, and marks it
and nothing else. -/
theorem PortAllocator.allocated_RequestPortInRange_ok {portStart portEnd : Int64}
    (h : p.RequestPortInRange ip proto portStart portEnd = some (p', .ok port)) :
    p.allocated (ip.getD defaultIP) proto port = false ∧
    ∀ ip' proto' port', p'.allocated ip' proto' port' =
      if ip' = ip.getD defaultIP ∧ proto' = proto ∧ port' = port then true
      else p.allocated ip' proto' port' := by
  rcases PortAllocator.RequestPortInRange_cases h with
    ⟨-, hr⟩ | ⟨protomap, mapping, hagree, hmapping, mapping', rfl, hok, -⟩
  · cases hr
  obtain ⟨hfree, hp⟩ := hok port rfl
  refine ⟨by rw [← hagree, protoAllocated_of_eq_some hmapping, hfree], fun ip' proto' port' => ?_⟩
  rw [allocated_update_ipMap, hp]
  by_cases hip : ip' = ip.getD defaultIP
  · by_cases hq : proto' = proto
    · by_cases hport : port' = port
      · simp [hip, hq, hport]
      · simp [hip, hq, hport, ← hagree, protoAllocated_of_eq_some hmapping]
    · simp [hip, hq, hagree]
  · simp [hip]

theorem PortAllocator.allocated_RequestPortInRange_error {portStart portEnd : Int64}
    {e : PortError} (h : p.RequestPortInRange ip proto portStart portEnd = some (p', .error e))
    (ip' proto' : String) (port' : Int64) :
    p'.allocated ip' proto' port' = p.allocated ip' proto' port' := by
  rcases PortAllocator.RequestPortInRange_cases h with
    ⟨rfl, -⟩ | ⟨protomap, mapping, hagree, hmapping, mapping', rfl, -, herr⟩
  · rfl
  rw [allocated_update_ipMap, herr e rfl]
  by_cases hip : ip' = ip.getD defaultIP
  · by_cases hq : proto' = proto
    · simp [hip, hq, ← hagree, protoAllocated_of_eq_some hmapping]
    · simp [hip, hq, hagree]
  · simp [hip]

theorem PortAllocator.allocated_ReleasePort (h : p.ReleasePort ip proto port = some p')
    (ip' proto' : String) (port' : Int64) :
    p'.allocated ip' proto' port' =
      if ip' = ip.getD defaultIP ∧ proto' = proto ∧ port' = port then false
      else p.allocated ip' proto' port' := by
  unfold PortAllocator.ReleasePort at h
  dsimp only at h
  split at h
  · -- no port map for the ip: nothing of it is allocated
    rename_i hnone
    cases h
    by_cases hip : ip' = ip.getD defaultIP
    · simp [hip, PortAllocator.allocated_of_ipMap_none hnone]
    · simp [hip]
  · rename_i protomap hprotomap
    split at h
    · cases h
    · rename_i mapping hmapping
      cases h
      rw [allocated_update_ipMap]
      by_cases hip : ip' = ip.getD defaultIP
      · by_cases hq : proto' = proto
        · by_cases hport : port' = port
          · simp [hip, hq, hport]
          · simp [hip, hq, hport, PortAllocator.allocated_of_ipMap hprotomap,
              protoAllocated_of_eq_some hmapping]
        · simp [hip, hq, PortAllocator.allocated_of_ipMap hprotomap]
      · simp [hip]

theorem PortAllocator.allocated_ReleasePort_of_free (h : p.ReleasePort ip proto port = some p')
    (hfree : p.allocated (ip.getD defaultIP) proto port = false) (ip' proto' : String)
    (port' : Int64) : p'.allocated ip' proto' port' = p.allocated ip' proto' port' := by
  rw [PortAllocator.allocated_ReleasePort h]
  by_cases hsame : ip' = ip.getD defaultIP ∧ proto' = proto ∧ port' = port
  · obtain ⟨rfl, rfl, rfl⟩ := hsame
    simp [hfree]
  · simp [hsame]

/-- Releasing the port a request handed out leaves every port's allocation as
it was before the request. -/
theorem PortAllocator.allocated_ReleasePort_RequestPortInRange {p'' : PortAllocator}
    {portStart portEnd : Int64}
    (h : p.RequestPortInRange ip proto portStart portEnd = some (p', .ok port))
    (hrelease : p'.ReleasePort ip proto port = some p'') (ip' proto' : String) (port' : Int64) :
    p''.allocated ip' proto' port' = p.allocated ip' proto' port' := by
  obtain ⟨hfree, hmark⟩ := PortAllocator.allocated_RequestPortInRange_ok h
  rw [PortAllocator.allocated_ReleasePort hrelease, hmark]
  by_cases hsame : ip' = ip.getD defaultIP ∧ proto' = proto ∧ port' = port
  · obtain ⟨rfl, rfl, rfl⟩ := hsame
    simp [hfree]
  · simp [hsame]

/-- The port a request hands out can be released: the request stored a port
map for its protocol. -/
theorem PortAllocator.ReleasePort_isSome_of_RequestPortInRange {portStart portEnd : Int64}
    (h : p.RequestPortInRange ip proto portStart portEnd = some (p', .ok port)) (port' : Int64) :
    (p'.ReleasePort ip proto port').isSome := by
  rcases PortAllocator.RequestPortInRange_cases h with
    ⟨-, hr⟩ | ⟨protomap, mapping, -, -, mapping', rfl, -, -⟩
  · cases hr
  simp [PortAllocator.ReleasePort]

end Allocation

/-- A fresh allocator with the default range, asked for the whole range of
positive `int`s, hands out the smallest `int`: the scan starts after
`last = end`, and `end + 1` wraps without passing `end`. -/
theorem requestPortInRange_wraps_below_range :
    ((⟨fun _ => none, 49153, 65535⟩ : PortAllocator).RequestPortInRange none "tcp" 1
        Int64.maxValue).map Prod.snd = some (.ok Int64.minValue) ∧
      Int64.minValue < 1 :=
  ⟨rfl, by decide⟩

end Libnetwork
