import Libnetwork.Service.Bindings

/-!
# What the bindings keep

Where every endpoint `e` is bound on one network `(home e).1` at one
address `(home e).2`, the bindings keep, in every state the calls lead to:
each service stored is not deleted and has a load balancer, each with a
backend; `ipToEndpoint` of a service maps each address to exactly the
endpoints with an enabled backend at it; and, while the mark counter does
not wrap, distinct load balancers have distinct marks.

Without `home` the index does not hold: an endpoint bound again at another
address keeps its old address in `ipToEndpoint`.  And the counter is 32 bits
wide: once it wraps, a new load balancer can get the mark of one that is
still there.
-/

namespace Libnetwork.ServiceBindings

open GoNet GoMap

/-- The backend of endpoint `e` in the load balancer of network `nID`. -/
def backendOf (loadBalancers : List (String × LoadBalancer)) (nID e : String) :
    Option LbBackend :=
  (get? loadBalancers nID).bind fun lb => get? lb.backEnds e

/-- Endpoint `e` has an enabled backend at address `a` in a load balancer
of `s`. -/
def Service.Serves (s : Service) (a e : String) : Prop :=
  ∃ nID be, backendOf s.loadBalancers nID e = some be ∧ be.disabled = false ∧ IP.String be.ip = a

/-- Each backend of `s` is in the load balancer of its endpoint's network,
at its endpoint's address. -/
def Service.AtHome (home : String → String × IP) (s : Service) : Prop :=
  ∀ lb ∈ s.loadBalancers, ∀ be ∈ lb.2.backEnds, home be.1 = (lb.1, be.2.ip)

/-- `ipToEndpoint` maps each address to the endpoints with an enabled backend
at it. -/
def Service.Indexed (s : Service) : Prop :=
  ∀ a e, Setmatrix.Mem s.ipToEndpoint a e ↔ s.Serves a e

/-- A service as the bindings store it: not deleted, with a load balancer,
each with a backend. -/
structure Service.Live (s : Service) : Prop where
  deleted : s.deleted = false
  loadBalancers : s.loadBalancers ≠ []
  backEnds : ∀ lb ∈ s.loadBalancers, lb.2.backEnds ≠ []

/-- What the bindings keep of each service. -/
structure Service.Inv (home : String → String × IP) (s : Service) : Prop where
  wf : Setmatrix.WF s.ipToEndpoint
  atHome : s.AtHome home
  indexed : s.Indexed

/-- The load balancer of network `nID` of the service of key `k`. -/
def Controller.lbAt (c : Controller) (k : ServiceKey) (nID : String) : Option LoadBalancer :=
  (get? c.serviceBindings k).bind fun s => get? s.loadBalancers nID

/-- Distinct load balancers carry distinct marks. -/
def Controller.MarksDistinct (c : Controller) : Prop :=
  ∀ k₁ n₁ lb₁ k₂ n₂ lb₂, c.lbAt k₁ n₁ = some lb₁ → c.lbAt k₂ n₂ = some lb₂ →
    lb₁.fwMark = lb₂.fwMark → k₁ = k₂ ∧ n₁ = n₂

/-- The calls of a deployment where each endpoint `e` sits on network
`(home e).1` at address `(home e).2`, each add made while the mark counter
is below its largest value, each cleanup in an order of its map walks. -/
def Controller.Consistent (home : String → String × IP) (c : Controller) : Call → Prop
  | .addServiceBinding _ _ nID eID _ _ _ ip => home eID = (nID, ip) ∧ c.fwMarkCtr.toNat + 1 < 2 ^ 32
  | .rmServiceBinding _ nID eID _ ip _ => home eID = (nID, ip)
  | .cleanupServiceBindings cleanupNID walk => walk.Perm (c.cleanupTargets cleanupNID)

/-! ## One service -/

section Service

variable {home : String → String × IP} {s : Service}

theorem Service.AtHome.backendOf (h : s.AtHome home) {nID e : String} {be : LbBackend}
    (hbe : backendOf s.loadBalancers nID e = some be) : home e = (nID, be.ip) := by
  obtain ⟨lb, hlb, hget⟩ := Option.bind_eq_some_iff.mp hbe
  exact h _ (mem_of_get? hlb) _ (mem_of_get? hget)

theorem Service.AtHome.serves (h : s.AtHome home) {a e : String} (hs : s.Serves a e) :
    a = IP.String (home e).2 := by
  obtain ⟨nID, be, hbe, -, rfl⟩ := hs
  rw [h.backendOf hbe]

theorem inv_newService (name id : String) (ingressPorts : List PortConfig)
    (serviceAliases : List String) : (newService name id ingressPorts serviceAliases).Inv home := by
  refine ⟨Setmatrix.wf_nil, (fun _ h => by cases h), fun a e => ?_⟩
  simp [Setmatrix.Mem, Service.Serves, newService, backendOf]


/-! ### Adding a backend -/

variable {nID eID : String} {lb : LoadBalancer} {ip : IP}

@[simp] theorem ipToEndpoint_addBackend :
    (s.addBackend nID lb eID ip).ipToEndpoint =
      (Setmatrix.Insert s.ipToEndpoint (IP.String ip) eID).1 := rfl

/-- The backends after `addBackend` of a load balancer that holds the
backends the service has on `nID`. -/
theorem backendOf_addBackend (hlb : ∀ e, get? lb.backEnds e = backendOf s.loadBalancers nID e)
    (n e : String) :
    backendOf (s.addBackend nID lb eID ip).loadBalancers n e =
      if n = nID ∧ e = eID then some ⟨ip, false⟩ else backendOf s.loadBalancers n e := by
  unfold backendOf Service.addBackend
  dsimp only
  rw [get?_set]
  by_cases hn : n = nID
  · subst hn
    rw [if_pos rfl, Option.bind_some, get?_set]
    by_cases he : e = eID
    · simp [he]
    · rw [if_neg he, if_neg (fun h => he h.2), hlb]
      rfl
  · rw [if_neg hn, if_neg (fun h => hn h.1)]

theorem Service.Inv.addBackend (hs : s.Inv home)
    (hlb : ∀ e, get? lb.backEnds e = backendOf s.loadBalancers nID e)
    (hlbHome : ∀ be ∈ lb.backEnds, home be.1 = (nID, be.2.ip)) (hhome : home eID = (nID, ip)) :
    (s.addBackend nID lb eID ip).Inv home := by
  refine ⟨hs.wf.Insert, ?_, fun a e => ?_⟩
  · intro l hl b hb
    rcases mem_set hl with rfl | hl
    · rcases mem_set hb with rfl | hb
      · exact hhome
      · exact hlbHome b hb
    · exact hs.atHome l hl b hb
  · rw [ipToEndpoint_addBackend, Setmatrix.mem_Insert, hs.indexed]
    by_cases he : e = eID
    · -- the endpoint bound: served at `ip` only, before as after
      subst he
      have hold : s.Serves a e → a = IP.String ip := fun h => by
        rw [hs.atHome.serves h, hhome]
      constructor
      · intro h
        have ha : a = IP.String ip := h.elim hold fun h => h.1
        exact ⟨nID, ⟨ip, false⟩, by simp [backendOf_addBackend hlb], rfl, ha.symm⟩
      · rintro ⟨n, be, hbe, hen, rfl⟩
        rw [backendOf_addBackend hlb] at hbe
        split at hbe
        · cases hbe
          exact .inr ⟨rfl, rfl⟩
        · exact .inl ⟨n, be, hbe, hen, rfl⟩
    · simp only [Service.Serves, backendOf_addBackend hlb, he, and_false, if_false, or_false]

theorem Service.live_addBackend (hdel : s.deleted = false)
    (hbe : ∀ l ∈ s.loadBalancers, l.2.backEnds ≠ []) : (s.addBackend nID lb eID ip).Live := by
  refine ⟨hdel, set_ne_nil, fun l hl => ?_⟩
  rcases mem_set hl with rfl | hl
  · exact set_ne_nil
  · exact hbe l hl

/-! ### Removing a backend -/

variable {lbs : List (String × LoadBalancer)} {be : LbBackend} {fullRemove : Bool}

theorem get?_rmBackEnds (backEnds : List (String × LbBackend)) (e : String) :
    get? (rmBackEnds backEnds eID be fullRemove) e =
      if e = eID then (if fullRemove then none else some { be with disabled := true })
      else get? backEnds e := by
  unfold rmBackEnds
  cases fullRemove with
  | true => simp [get?_delete]
  | false => simp [get?_set]

theorem mem_rmBackEnds {backEnds : List (String × LbBackend)} {b : String × LbBackend}
    (h : b ∈ rmBackEnds backEnds eID be fullRemove) :
    b ∈ backEnds ∨ b = (eID, { be with disabled := true }) := by
  unfold rmBackEnds at h
  split at h
  · exact .inl (mem_of_mem_delete h)
  · exact (mem_set h).symm

theorem rmBackEnds_false_ne_nil (backEnds : List (String × LbBackend)) :
    rmBackEnds backEnds eID be false ≠ [] :=
  set_ne_nil

/-- A load balancer after `rmBackend` is one that was there, or the one of
`nID` with backends left. -/
theorem mem_rmBackend {l : String × LoadBalancer} (h : l ∈ rmBackend lbs nID lb eID be fullRemove) :
    l ∈ lbs ∨ (l = (nID, { lb with backEnds := rmBackEnds lb.backEnds eID be fullRemove }) ∧
      rmBackEnds lb.backEnds eID be fullRemove ≠ []) := by
  unfold rmBackend at h
  dsimp only at h
  split at h
  · exact .inl (mem_of_mem_delete h)
  · next hne =>
      rcases mem_set h with rfl | h
      · exact .inr ⟨rfl, fun h' => hne (by simp [h'])⟩
      · exact .inl h

theorem get?_rmBackend (hlb : get? lbs nID = some lb) {n : String} {l : LoadBalancer}
    (h : get? (rmBackend lbs nID lb eID be fullRemove) n = some l) :
    ∃ l₀, get? lbs n = some l₀ ∧ l₀.fwMark = l.fwMark := by
  unfold rmBackend at h
  dsimp only at h
  split at h
  · rw [get?_delete] at h
    split at h
    · cases h
    · exact ⟨l, h, rfl⟩
  · rw [get?_set] at h
    split at h
    · next hn =>
        cases h
        exact ⟨lb, hn ▸ hlb, rfl⟩
    · exact ⟨l, h, rfl⟩

theorem backendOf_rmBackend (hlb : get? lbs nID = some lb) (n e : String) :
    backendOf (rmBackend lbs nID lb eID be fullRemove) n e =
      if n = nID ∧ e = eID then (if fullRemove then none else some { be with disabled := true })
      else backendOf lbs n e := by
  have hold : ∀ e, backendOf lbs nID e = get? lb.backEnds e := fun e => by
    simp [backendOf, hlb]
  unfold rmBackend
  dsimp only
  split
  · -- the load balancer is left empty and removed: nothing is found on `nID`
    next hlen =>
      have hnil := List.length_eq_zero_iff.mp hlen
      by_cases hn : n = nID
      · subst hn
        have hnone : backendOf (delete lbs n) n e = none := by simp [backendOf, get?_delete]
        have hget : get? (rmBackEnds lb.backEnds eID be fullRemove) e = _ :=
          get?_rmBackEnds lb.backEnds e
        rw [hnil, get?_nil] at hget
        rw [hnone]
        by_cases he : e = eID
        · rw [if_pos ⟨rfl, he⟩]
          rw [if_pos he] at hget
          exact hget
        · rw [if_neg (fun h => he h.2), hold]
          rw [if_neg he] at hget
          exact hget
      · simp only [backendOf, get?_delete, if_neg hn, if_neg (fun h : n = nID ∧ e = eID => hn h.1)]
  · simp only [backendOf, get?_set]
    by_cases hn : n = nID
    · subst hn
      rw [if_pos rfl, Option.bind_some, get?_rmBackEnds]
      by_cases he : e = eID
      · simp [he]
      · rw [if_neg he, if_neg (fun h => he h.2), ← backendOf, hold]
    · rw [if_neg hn, if_neg (fun h => hn h.1)]


theorem Service.Inv.rmBackend (hs : s.Inv home) (hlb : get? s.loadBalancers nID = some lb)
    (hbe : get? lb.backEnds eID = some be) (hhome : home eID = (nID, ip)) :
    ({ s with
        loadBalancers := rmBackend s.loadBalancers nID lb eID be fullRemove
        ipToEndpoint := (Setmatrix.Remove s.ipToEndpoint (IP.String ip) eID).1 } : Service).Inv home := by
  refine ⟨hs.wf.Remove, ?_, fun a e => ?_⟩
  · intro l hl b hb
    rcases mem_rmBackend hl with hl | ⟨rfl, -⟩
    · exact hs.atHome l hl b hb
    · rcases mem_rmBackEnds hb with hb | rfl
      · exact hs.atHome _ (mem_of_get? hlb) b hb
      · exact hs.atHome _ (mem_of_get? hlb) (eID, be) (mem_of_get? hbe)
  · show Setmatrix.Mem (Setmatrix.Remove s.ipToEndpoint (IP.String ip) eID).1 a e ↔ _
    rw [Setmatrix.mem_Remove hs.wf, hs.indexed]
    by_cases he : e = eID
    · -- the endpoint unbound: served nowhere, and no longer indexed
      subst he
      have hold : s.Serves a e → a = IP.String ip := fun h => by
        rw [hs.atHome.serves h, hhome]
      constructor
      · rintro ⟨hserves, hne⟩
        exact absurd ⟨hold hserves, rfl⟩ hne
      · rintro ⟨n, be', hbe', hen, rfl⟩
        rw [backendOf_rmBackend hlb] at hbe'
        split at hbe'
        · next hn =>
            cases fullRemove
            · cases hbe'
              cases hen
            · cases hbe'
        · next hn =>
            have := hs.atHome.backendOf hbe'
            rw [hhome] at this
            exact absurd ⟨(Prod.mk.inj this).1.symm, rfl⟩ hn
    · simp only [Service.Serves, backendOf_rmBackend hlb, he, and_false, if_false, not_false_eq_true,
        and_true]

theorem Service.Live.rmBackend (hlive : s.Live)
    (hne : (rmBackend s.loadBalancers nID lb eID be fullRemove).length ≠ 0)
    (ipToEndpoint : List (String × List String)) :
    ({ s with
        loadBalancers := rmBackend s.loadBalancers nID lb eID be fullRemove
        ipToEndpoint } : Service).Live := by
  refine ⟨hlive.deleted, fun h => hne (List.length_eq_zero_iff.mpr h), fun l hl => ?_⟩
  rcases mem_rmBackend hl with hl | ⟨rfl, hbe⟩
  · exact hlive.backEnds l hl
  · exact hbe

end Service

/-! ## The controller -/

/-- Every service stored is live. -/
def Controller.Live (c : Controller) : Prop :=
  ∀ e ∈ c.serviceBindings, e.2.Live

/-- What the bindings keep where endpoints stay at home: each service's
invariant, marks below the counter, and distinct marks. -/
structure Controller.Inv (home : String → String × IP) (c : Controller) : Prop where
  services : ∀ e ∈ c.serviceBindings, e.2.Inv home
  below : ∀ k n lb, c.lbAt k n = some lb → lb.fwMark.toNat < c.fwMarkCtr.toNat
  marks : c.MarksDistinct

section Controller

variable {home : String → String × IP} {c c' : Controller}

theorem Controller.MarksDistinct.update {k₀ : ServiceKey} {n₀ : String} {lb' : LoadBalancer}
    (hd : c.MarksDistinct)
    (hupd : ∀ k n, c'.lbAt k n = if k = k₀ ∧ n = n₀ then some lb' else c.lbAt k n)
    (hfresh : ∀ k n l, c.lbAt k n = some l → l.fwMark = lb'.fwMark → k = k₀ ∧ n = n₀) :
    c'.MarksDistinct := by
  intro k₁ n₁ l₁ k₂ n₂ l₂ h₁ h₂ heq
  rw [hupd] at h₁ h₂
  split at h₁ <;> split at h₂
  · next hs₁ hs₂ => exact ⟨hs₁.1.trans hs₂.1.symm, hs₁.2.trans hs₂.2.symm⟩
  · next hs₁ _ =>
      cases h₁
      obtain ⟨hk, hn⟩ := hfresh _ _ _ h₂ heq.symm
      exact ⟨hs₁.1.trans hk.symm, hs₁.2.trans hn.symm⟩
  · next _ hs₂ =>
      cases h₂
      obtain ⟨hk, hn⟩ := hfresh _ _ _ h₁ heq
      exact ⟨hk.trans hs₂.1.symm, hn.trans hs₂.2.symm⟩
  · exact hd _ _ _ _ _ _ h₁ h₂ heq

theorem Controller.MarksDistinct.mono (hd : c.MarksDistinct)
    (hsub : ∀ k n l, c'.lbAt k n = some l → ∃ l₀, c.lbAt k n = some l₀ ∧ l₀.fwMark = l.fwMark) :
    c'.MarksDistinct := by
  intro k₁ n₁ l₁ k₂ n₂ l₂ h₁ h₂ heq
  obtain ⟨m₁, hm₁, he₁⟩ := hsub _ _ _ h₁
  obtain ⟨m₂, hm₂, he₂⟩ := hsub _ _ _ h₂
  exact hd _ _ _ _ _ _ hm₁ hm₂ (by rw [he₁, he₂, heq])

/-! ### Adding a binding -/

variable {svcName svcID nID eID : String} {vip ip : IP} {ingressPorts : List PortConfig}
  {serviceAliases : List String}

/-- The service a binding goes to: the one stored under its key, or a new
one. -/
theorem Controller.service_of_key (P : Service → Prop) (hnew : P (newService svcName svcID ingressPorts serviceAliases))
    (hstored : ∀ e ∈ c.serviceBindings, P e.2) :
    P ((get? c.serviceBindings (serviceKeyOf svcID ingressPorts)).getD
      (newService svcName svcID ingressPorts serviceAliases)) := by
  cases hget : get? c.serviceBindings (serviceKeyOf svcID ingressPorts) with
  | none => exact hnew
  | some s => exact hstored _ (mem_of_get? hget)

theorem Controller.lbAt_set {k₀ : ServiceKey} {s : Service} {ctr : UInt32} (k : ServiceKey)
    (n : String) :
    (⟨c.networks, set c.serviceBindings k₀ s, ctr⟩ : Controller).lbAt k n =
      if k = k₀ then get? s.loadBalancers n else c.lbAt k n := by
  unfold Controller.lbAt
  rw [get?_set]
  split <;> rfl


/-- The result of an add that gets past the network check, as a function of
the service and the load balancer it picks. -/
theorem Controller.addServiceBinding_eq {r : Controller × Option String}
    (hadd : c.addServiceBinding svcName svcID nID eID vip ingressPorts serviceAliases ip = some r) :
    r = (c, c.NetworkByID nID) ∨
      ∃ s₀, s₀ = (get? c.serviceBindings (serviceKeyOf svcID ingressPorts)).getD
          (newService svcName svcID ingressPorts serviceAliases) ∧ s₀.deleted = false ∧
        c.NetworkByID nID = none ∧
        ((∃ lb, get? s₀.loadBalancers nID = some lb ∧
            r = (⟨c.networks, set c.serviceBindings (serviceKeyOf svcID ingressPorts)
              (s₀.addBackend nID lb eID ip), c.fwMarkCtr⟩, none)) ∨
          (get? s₀.loadBalancers nID = none ∧
            r = (⟨c.networks, set c.serviceBindings (serviceKeyOf svcID ingressPorts)
              (s₀.addBackend nID ⟨vip, c.fwMarkCtr, []⟩ eID ip), c.fwMarkCtr + 1⟩, none))) := by
  unfold Controller.addServiceBinding at hadd
  split at hadd
  · next err hnet =>
      cases hadd
      exact .inl (by rw [hnet])
  · next hnet =>
      dsimp only at hadd
      split at hadd
      · cases hadd
      · next hdel =>
          refine .inr ⟨_, rfl, by simpa using hdel, hnet, ?_⟩
          cases hl : get? ((get? c.serviceBindings (serviceKeyOf svcID ingressPorts)).getD
            (newService svcName svcID ingressPorts serviceAliases)).loadBalancers nID with
          | some lb =>
              rw [hl] at hadd
              cases hadd
              exact .inl ⟨lb, rfl, rfl⟩
          | none =>
              rw [hl] at hadd
              cases hadd
              exact .inr ⟨rfl, rfl⟩

theorem Controller.Live.addServiceBinding (hc : c.Live) {r : Controller × Option String}
    (hadd : c.addServiceBinding svcName svcID nID eID vip ingressPorts serviceAliases ip = some r) :
    r.1.Live := by
  rcases Controller.addServiceBinding_eq hadd with rfl | ⟨s₀, hs₀, hdel, -, hr⟩
  · exact hc
  · have hbe : ∀ l ∈ s₀.loadBalancers, l.2.backEnds ≠ [] := by
      rw [hs₀]
      exact Controller.service_of_key (fun s => ∀ l ∈ s.loadBalancers, l.2.backEnds ≠ [])
        (fun _ h => nomatch h) fun e he => (hc e he).backEnds
    have hset : ∀ (lb : LoadBalancer) ctr, Controller.Live
        ⟨c.networks, set c.serviceBindings (serviceKeyOf svcID ingressPorts)
          (s₀.addBackend nID lb eID ip), ctr⟩ := fun lb ctr e he => by
      rcases mem_set he with rfl | he
      · exact Service.live_addBackend hdel hbe
      · exact hc e he
    rcases hr with ⟨lb, -, rfl⟩ | ⟨-, rfl⟩ <;> exact hset _ _

/-- An add made at home and below the counter's largest value keeps the
invariant. -/
theorem Controller.Inv.addServiceBinding (hc : c.Inv home) (hhome : home eID = (nID, ip))
    (hctr : c.fwMarkCtr.toNat + 1 < 2 ^ 32) {r : Controller × Option String}
    (hadd : c.addServiceBinding svcName svcID nID eID vip ingressPorts serviceAliases ip = some r) :
    r.1.Inv home := by
  rcases Controller.addServiceBinding_eq hadd with rfl | ⟨s₀, hs₀, -, -, hr⟩
  · exact hc
  have hinv₀ : s₀.Inv home := by
    rw [hs₀]
    exact Controller.service_of_key _ (inv_newService ..) hc.services
  have hlbAt : ∀ n, get? s₀.loadBalancers n = c.lbAt (serviceKeyOf svcID ingressPorts) n := by
    intro n
    rw [hs₀]
    unfold Controller.lbAt
    cases get? c.serviceBindings (serviceKeyOf svcID ingressPorts) <;> rfl
  have hstep : ∀ (lb : LoadBalancer) (ctr : UInt32),
      (∀ e, get? lb.backEnds e = backendOf s₀.loadBalancers nID e) →
      (∀ be ∈ lb.backEnds, home be.1 = (nID, be.2.ip)) →
      lb.fwMark.toNat < ctr.toNat → c.fwMarkCtr.toNat ≤ ctr.toNat →
      (∀ k n l, c.lbAt k n = some l → l.fwMark = lb.fwMark →
        k = serviceKeyOf svcID ingressPorts ∧ n = nID) →
      Controller.Inv home ⟨c.networks, set c.serviceBindings (serviceKeyOf svcID ingressPorts)
        (s₀.addBackend nID lb eID ip), ctr⟩ := by
    intro lb ctr hlb hlbHome hmark hle hfresh
    have hupd : ∀ k n, Controller.lbAt ⟨c.networks, set c.serviceBindings
        (serviceKeyOf svcID ingressPorts) (s₀.addBackend nID lb eID ip), ctr⟩ k n =
        if k = serviceKeyOf svcID ingressPorts ∧ n = nID then
          some { lb with backEnds := set lb.backEnds eID ⟨ip, false⟩ }
        else c.lbAt k n := by
      intro k n
      rw [Controller.lbAt_set]
      by_cases hk : k = serviceKeyOf svcID ingressPorts
      · subst hk
        simp only [Service.addBackend, get?_set, ← hlbAt, true_and, if_true]
      · simp [hk]
    refine ⟨fun e he => ?_, fun k n l h => ?_, hc.marks.update hupd hfresh⟩
    · rcases mem_set he with rfl | he
      · exact hinv₀.addBackend hlb hlbHome hhome
      · exact hc.services e he
    · rw [hupd] at h
      split at h
      · cases h
        exact hmark
      · exact Nat.lt_of_lt_of_le (hc.below k n l h) hle
  have hstored : ∀ {lb}, get? s₀.loadBalancers nID = some lb →
      c.lbAt (serviceKeyOf svcID ingressPorts) nID = some lb := fun hl => by
    rw [← hlbAt]
    exact hl
  rcases hr with ⟨lb, hl, rfl⟩ | ⟨hl, rfl⟩
  · -- the network has its load balancer: its mark and the counter stay
    exact hstep lb c.fwMarkCtr (fun e => by simp [backendOf, hl])
      (hinv₀.atHome _ (mem_of_get? hl)) (hc.below _ _ _ (hstored hl)) (Nat.le_refl _)
      (fun k n l h heq => hc.marks _ _ _ _ _ _ h (hstored hl) heq)
  · -- a new load balancer takes the counter, above every mark there is
    have hsucc : (c.fwMarkCtr + 1).toNat = c.fwMarkCtr.toNat + 1 := by
      rw [UInt32.toNat_add, UInt32.toNat_one, Nat.mod_eq_of_lt hctr]
    refine hstep _ _ (fun e => by simp [backendOf, hl]) (fun _ h => by cases h)
      (by rw [hsucc]; exact Nat.lt_succ_self _) (by rw [hsucc]; exact Nat.le_succ _)
      (fun k n l h heq => ?_)
    have hlt := hc.below k n l h
    rw [heq] at hlt
    exact absurd hlt (Nat.lt_irrefl _)

/-! ### Removing a binding -/

variable {fullRemove : Bool}

/-- The result of a remove that finds its backend, as a function of the
service, load balancer and backend it finds. -/
theorem Controller.rmServiceBinding_eq
    (hrm : c.rmServiceBinding svcID nID eID ingressPorts ip fullRemove = c') :
    c' = c ∨
      ∃ s lb be, get? c.serviceBindings (serviceKeyOf svcID ingressPorts) = some s ∧
        get? s.loadBalancers nID = some lb ∧ get? lb.backEnds eID = some be ∧
        c' = ⟨c.networks,
          if (rmBackend s.loadBalancers nID lb eID be fullRemove).length = 0 then
            delete c.serviceBindings (serviceKeyOf svcID ingressPorts)
          else set c.serviceBindings (serviceKeyOf svcID ingressPorts)
            { s with
              loadBalancers := rmBackend s.loadBalancers nID lb eID be fullRemove
              ipToEndpoint := (Setmatrix.Remove s.ipToEndpoint (IP.String ip) eID).1 },
          c.fwMarkCtr⟩ := by
  unfold Controller.rmServiceBinding at hrm
  dsimp only at hrm
  split at hrm
  · exact .inl hrm.symm
  · next s hs =>
      split at hrm
      · exact .inl hrm.symm
      · next lb hlb =>
          split at hrm
          · exact .inl hrm.symm
          · next be hbe => exact .inr ⟨s, lb, be, hs, hlb, hbe, hrm.symm⟩

/-- A property of every service stored survives a remove that keeps it of
the service it leaves behind. -/
theorem Controller.rmServiceBinding_services (P : Service → Prop)
    (hstored : ∀ e ∈ c.serviceBindings, P e.2)
    (hleft : ∀ s lb be, get? c.serviceBindings (serviceKeyOf svcID ingressPorts) = some s →
      get? s.loadBalancers nID = some lb → get? lb.backEnds eID = some be →
      (rmBackend s.loadBalancers nID lb eID be fullRemove).length ≠ 0 →
      P { s with
        loadBalancers := rmBackend s.loadBalancers nID lb eID be fullRemove
        ipToEndpoint := (Setmatrix.Remove s.ipToEndpoint (IP.String ip) eID).1 })
    (hrm : c.rmServiceBinding svcID nID eID ingressPorts ip fullRemove = c') :
    ∀ e ∈ c'.serviceBindings, P e.2 := by
  rcases Controller.rmServiceBinding_eq hrm with rfl | ⟨s, lb, be, hs, hlb, hbe, rfl⟩
  · exact hstored
  intro e he
  dsimp only at he
  split at he
  · exact hstored e (mem_of_mem_delete he)
  · next hne =>
      rcases mem_set he with rfl | he
      · exact hleft s lb be hs hlb hbe hne
      · exact hstored e he

/-- A remove keeps the counter, and only drops load balancers or changes
their backends. -/
theorem Controller.lbAt_rmServiceBinding
    (hrm : c.rmServiceBinding svcID nID eID ingressPorts ip fullRemove = c') :
    c'.fwMarkCtr = c.fwMarkCtr ∧
      ∀ k n l, c'.lbAt k n = some l → ∃ l₀, c.lbAt k n = some l₀ ∧ l₀.fwMark = l.fwMark := by
  rcases Controller.rmServiceBinding_eq hrm with rfl | ⟨s, lb, be, hs, hlb, hbe, rfl⟩
  · exact ⟨rfl, fun k n l h => ⟨l, h, rfl⟩⟩
  refine ⟨rfl, fun k n l h => ?_⟩
  unfold Controller.lbAt at h ⊢
  dsimp only at h
  split at h
  · rw [get?_delete] at h
    split at h
    · cases h
    · exact ⟨l, h, rfl⟩
  · rw [get?_set] at h
    split at h
    · next hk =>
        subst hk
        rw [Option.bind_some] at h
        rw [hs, Option.bind_some]
        exact get?_rmBackend hlb h
    · exact ⟨l, h, rfl⟩

theorem Controller.Live.rmServiceBinding (hc : c.Live)
    (hrm : c.rmServiceBinding svcID nID eID ingressPorts ip fullRemove = c') : c'.Live :=
  Controller.rmServiceBinding_services Service.Live hc
    (fun _ _ _ hs _ _ hne => (hc _ (mem_of_get? hs)).rmBackend hne _) hrm

theorem Controller.Inv.rmServiceBinding (hc : c.Inv home) (hhome : home eID = (nID, ip))
    (hrm : c.rmServiceBinding svcID nID eID ingressPorts ip fullRemove = c') : c'.Inv home := by
  obtain ⟨hctr, hsub⟩ := Controller.lbAt_rmServiceBinding hrm
  refine ⟨?_, fun k n l h => ?_, hc.marks.mono hsub⟩
  · exact Controller.rmServiceBinding_services (Service.Inv home) hc.services
      (fun s _ _ hs hlb hbe _ => (hc.services _ (mem_of_get? hs)).rmBackend hlb hbe hhome) hrm
  · obtain ⟨l₀, h₀, hmark⟩ := hsub k n l h
    rw [hctr, ← hmark]
    exact hc.below k n l₀ h₀

/-! ### Cleaning up a network -/

theorem Controller.Live.cleanupServiceBindings (hc : c.Live) (walk : List CleanupTarget) :
    (c.cleanupServiceBindings walk).Live := by
  induction walk generalizing c with
  | nil => exact hc
  | cons t walk ih => exact ih (hc.rmServiceBinding rfl)

/-- Each function a cleanup collects removes a backend at its endpoint's
home. -/
theorem Controller.Inv.home_of_mem_cleanupTargets (hc : c.Inv home) {cleanupNID : String}
    {t : CleanupTarget} (ht : t ∈ c.cleanupTargets cleanupNID) : home t.eID = (t.nID, t.ip) := by
  unfold Controller.cleanupTargets at ht
  obtain ⟨e, he, ht⟩ := List.mem_flatMap.mp ht
  split at ht
  · cases ht
  obtain ⟨lb, hlb, ht⟩ := List.mem_flatMap.mp ht
  split at ht
  · cases ht
  obtain ⟨be, hbe, rfl⟩ := List.mem_map.mp ht
  exact (hc.services e he).atHome lb hlb be hbe

theorem Controller.Inv.cleanupServiceBindings {walk : List CleanupTarget} (hc : c.Inv home)
    (hwalk : ∀ t ∈ walk, home t.eID = (t.nID, t.ip)) :
    (c.cleanupServiceBindings walk).Inv home := by
  induction walk generalizing c with
  | nil => exact hc
  | cons t walk ih =>
      exact ih (hc.rmServiceBinding (hwalk t (List.mem_cons_self ..)) rfl)
        fun t' ht' => hwalk t' (List.mem_cons_of_mem t ht')

/-! ### Runs -/

theorem Controller.call_addServiceBinding (P : Controller → Prop) (hloop : P c)
    (hdone : ∀ r, c.addServiceBinding svcName svcID nID eID vip ingressPorts serviceAliases ip =
      some r → P r.1) :
    P (c.call (.addServiceBinding svcName svcID nID eID vip ingressPorts serviceAliases ip)) := by
  cases hadd : c.addServiceBinding svcName svcID nID eID vip ingressPorts serviceAliases ip with
  | none =>
      simp only [Controller.call, hadd]
      exact hloop
  | some r =>
      simp only [Controller.call, hadd]
      exact hdone r hadd

theorem Controller.Live.call (hc : c.Live) (a : Call) : (c.call a).Live := by
  cases a with
  | addServiceBinding svcName svcID nID eID vip ingressPorts serviceAliases ip =>
      exact Controller.call_addServiceBinding Controller.Live hc fun _ hadd => hc.addServiceBinding hadd
  | rmServiceBinding svcID nID eID ingressPorts ip fullRemove => exact hc.rmServiceBinding rfl
  | cleanupServiceBindings cleanupNID walk => exact hc.cleanupServiceBindings walk

theorem Controller.Inv.call (hc : c.Inv home) {a : Call} (ha : c.Consistent home a) :
    (c.call a).Inv home := by
  cases a with
  | addServiceBinding svcName svcID nID eID vip ingressPorts serviceAliases ip =>
      obtain ⟨hhome, hctr⟩ := ha
      exact Controller.call_addServiceBinding (Controller.Inv home) hc
        fun _ hadd => hc.addServiceBinding hhome hctr hadd
  | rmServiceBinding svcID nID eID ingressPorts ip fullRemove => exact hc.rmServiceBinding ha rfl
  | cleanupServiceBindings cleanupNID walk =>
      exact hc.cleanupServiceBindings fun t ht => hc.home_of_mem_cleanupTargets (ha.mem_iff.mp ht)

theorem Controller.live_init (networks : List String) : (⟨networks, [], 256⟩ : Controller).Live :=
  fun _ h => nomatch h

theorem Controller.inv_init (networks : List String) :
    (⟨networks, [], 256⟩ : Controller).Inv home :=
  ⟨fun _ h => (nomatch h), fun _ _ _ h => (by cases h), fun _ _ _ _ _ _ h => (by cases h)⟩

theorem Controller.live_of_run {enabled : Controller → Call → Prop} {networks : List String}
    (h : Transition.GuardedReachable enabled Controller.call ⟨networks, [], 256⟩ c) : c.Live :=
  h.invariant (Controller.live_init networks) fun _ a _ _ hs => hs.call a

theorem Controller.inv_of_run {networks : List String}
    (h : Transition.GuardedReachable (Controller.Consistent home) Controller.call
      ⟨networks, [], 256⟩ c) : c.Inv home :=
  h.invariant (Controller.inv_init networks) fun _ _ _ ha hs => hs.call ha

/-! ### The counter -/

/-- A service new to the bindings, added and fully removed, leaves them as
they were; only the counter has moved on. -/
theorem Controller.rm_add_fresh (hnet : c.NetworkByID nID = none)
    (hnew : get? c.serviceBindings (serviceKeyOf svcID ingressPorts) = none) :
    Transition.run Controller.call c
      [.addServiceBinding svcName svcID nID eID vip ingressPorts serviceAliases ip,
        .rmServiceBinding svcID nID eID ingressPorts ip true] =
      ⟨c.networks, c.serviceBindings, c.fwMarkCtr + 1⟩ := by
  have hadd : c.addServiceBinding svcName svcID nID eID vip ingressPorts serviceAliases ip =
      some (⟨c.networks, set c.serviceBindings (serviceKeyOf svcID ingressPorts)
        ((newService svcName svcID ingressPorts serviceAliases).addBackend nID
          ⟨vip, c.fwMarkCtr, []⟩ eID ip), c.fwMarkCtr + 1⟩, none) := by
    unfold Controller.addServiceBinding
    rw [hnet]
    simp only [hnew, Option.getD_none]
    rfl
  simp only [Transition.run_cons, Transition.run_nil, Controller.call, hadd]
  unfold Controller.rmServiceBinding
  simp only [get?_set, ↓reduceIte, Service.addBackend, newService, rmBackend, rmBackEnds,
    delete_set_of_get?_eq_none get?_nil, delete_set_of_get?_eq_none hnew, List.length_nil]

theorem Controller.run_rm_add_fresh (n : ℕ) (hnet : c.NetworkByID nID = none)
    (hnew : get? c.serviceBindings (serviceKeyOf svcID ingressPorts) = none) :
    Transition.run Controller.call c (List.replicate n
      [.addServiceBinding svcName svcID nID eID vip ingressPorts serviceAliases ip,
        .rmServiceBinding svcID nID eID ingressPorts ip true]).flatten =
      ⟨c.networks, c.serviceBindings, UInt32.ofNat (c.fwMarkCtr.toNat + n)⟩ := by
  induction n generalizing c with
  | zero =>
      rw [List.replicate_zero, List.flatten_nil, Transition.run_nil, Nat.add_zero, UInt32.ofNat_toNat]
  | succ n ih =>
      rw [List.replicate_succ, List.flatten_cons, Transition.run_append,
        Controller.rm_add_fresh hnet hnew, @ih ⟨c.networks, c.serviceBindings, c.fwMarkCtr + 1⟩ hnet hnew]
      congr 1
      apply UInt32.toNat_inj.mp
      simp only [UInt32.toNat_ofNat', UInt32.toNat_add, UInt32.toNat_one, Nat.reducePow]
      omega

end Controller

/-! ## The bindings' invariant -/

/-- Every run keeps each service stored live; a run of consistent calls also
keeps the address index exact and the marks distinct. -/
theorem service_bindings_consistent (home : String → String × IP) :
    (∀ c : Controller, c.Reachable → ∀ e ∈ c.serviceBindings,
      e.2.deleted = false ∧ e.2.loadBalancers ≠ [] ∧ ∀ lb ∈ e.2.loadBalancers, lb.2.backEnds ≠ []) ∧
    (∀ (networks : List String) (c : Controller),
      Transition.GuardedReachable (Controller.Consistent home) Controller.call ⟨networks, [], 256⟩ c →
        (∀ e ∈ c.serviceBindings, ∀ a ep, Setmatrix.Mem e.2.ipToEndpoint a ep ↔ e.2.Serves a ep) ∧
          c.MarksDistinct) := by
  refine ⟨fun c ⟨networks, h⟩ e he => ?_, fun networks c h => ?_⟩
  · have hlive := Controller.live_of_run h e he
    exact ⟨hlive.deleted, hlive.loadBalancers, hlive.backEnds⟩
  · have hinv := Controller.inv_of_run h
    exact ⟨fun e he => (hinv.services e he).indexed, hinv.marks⟩

theorem service_bindings_consistent_disable_enable :
    ∃ c : Controller, c = Transition.run Controller.call ⟨["n1"], [], 256⟩
        [.addServiceBinding "web" "s1" "n1" "e1" (IPv4 10 0 0 100) [] [] (IPv4 10 0 0 2),
          .rmServiceBinding "s1" "n1" "e1" [] (IPv4 10 0 0 2) false,
          .addServiceBinding "web" "s1" "n1" "e2" (IPv4 10 0 0 100) [] [] (IPv4 10 0 0 3)] ∧
      (∀ e ∈ c.serviceBindings, e.2.deleted = false ∧ e.2.loadBalancers ≠ [] ∧
        ∀ lb ∈ e.2.loadBalancers, lb.2.backEnds ≠ []) ∧
      (∀ e ∈ c.serviceBindings, ∀ a ep, Setmatrix.Mem e.2.ipToEndpoint a ep ↔ e.2.Serves a ep) ∧
      c.MarksDistinct := by
  have hthm := service_bindings_consistent fun e =>
    if e = "e1" then ("n1", IPv4 10 0 0 2) else ("n1", IPv4 10 0 0 3)
  refine ⟨_, rfl, hthm.1 _ ⟨["n1"], .run .init ?_⟩, (hthm.2 ["n1"] _ (.run .init ?_)).1,
    (hthm.2 ["n1"] _ (.run .init ?_)).2⟩
  · exact ⟨trivial, trivial, trivial, trivial⟩
  all_goals exact ⟨⟨rfl, by decide⟩, rfl, ⟨rfl, by decide⟩, trivial⟩

/-- Without consistent calls neither holds: an endpoint bound again at
another address stays indexed at the old one, and after `2 ^ 32 - 1`
services come and go a new load balancer gets the mark of one still there. -/
theorem service_bindings_index_and_marks_break :
    (∃ c : Controller, c = Transition.run Controller.call ⟨["n1"], [], 256⟩
        [.addServiceBinding "web" "s1" "n1" "e1" (IPv4 10 0 0 100) [] [] (IPv4 10 0 0 2),
          .addServiceBinding "web" "s1" "n1" "e1" (IPv4 10 0 0 100) [] [] (IPv4 10 0 0 3)] ∧
      c.Reachable ∧ ∃ e ∈ c.serviceBindings,
        Setmatrix.Mem e.2.ipToEndpoint "10.0.0.2" "e1" ∧ ¬ e.2.Serves "10.0.0.2" "e1") ∧
    (∃ c : Controller, c = Transition.run Controller.call ⟨["n1", "n2"], [], 256⟩
        (.addServiceBinding "web" "s1" "n1" "e1" (IPv4 10 0 0 100) [] [] (IPv4 10 0 0 2) ::
          (List.replicate (2 ^ 32 - 1)
            [.addServiceBinding "db" "s2" "n2" "e2" (IPv4 10 0 1 100) [] [] (IPv4 10 0 1 2),
              .rmServiceBinding "s2" "n2" "e2" [] (IPv4 10 0 1 2) true]).flatten ++
          [.addServiceBinding "db" "s2" "n2" "e2" (IPv4 10 0 1 100) [] [] (IPv4 10 0 1 2)]) ∧
      c.Reachable ∧ ¬ c.MarksDistinct) := by
  have hen : ∀ (s : Controller) (a : Call), (∀ cleanupNID walk,
      a ≠ .cleanupServiceBindings cleanupNID walk) → s.WalkEnabled a := by
    intro s a ha
    cases a with
    | cleanupServiceBindings cleanupNID walk => exact absurd rfl (ha cleanupNID walk)
    | _ => trivial
  refine ⟨⟨_, rfl, ⟨["n1"], Transition.GuardedReachable.after .init _ fun s a ha =>
      hen s a (by rintro _ _ rfl; simp at ha)⟩, _, List.mem_cons_self .., by decide, ?_⟩,
    ⟨_, rfl, ⟨["n1", "n2"], Transition.GuardedReachable.after .init _ fun s a ha => hen s a ?_⟩, fun hd => ?_⟩⟩
  · -- the backend of e1 has moved to 10.0.0.3
    rintro ⟨nID, be, hbe, -, hip⟩
    change backendOf [("n1", ⟨IPv4 10 0 0 100, 256, [("e1", ⟨IPv4 10 0 0 3, false⟩)]⟩)] nID "e1" =
      some be at hbe
    unfold backendOf at hbe
    rw [get?_cons, get?_nil] at hbe
    split at hbe
    · cases hbe
      exact absurd hip (by decide)
    · cases hbe
  · -- no call of the run is a cleanup
    rintro _ _ rfl
    rcases List.mem_cons.mp ha with h | ha
    · cases h
    rcases List.mem_append.mp ha with ha | h
    · obtain ⟨l, hl, ha⟩ := List.mem_flatten.mp ha
      rw [(List.mem_replicate.mp hl).2] at ha
      rcases List.mem_cons.mp ha with h | h
      · cases h
      · cases List.mem_singleton.mp h
    · cases List.mem_singleton.mp h
  · -- 2 ^ 32 - 1 services added and removed bring the counter back to the mark of s1's load
    -- balancer, which the next new one then gets
    rw [Transition.run_concat, Transition.run_cons] at hd
    have hnet : (Controller.call ⟨["n1", "n2"], [], 256⟩ (.addServiceBinding "web" "s1" "n1" "e1"
        (IPv4 10 0 0 100) [] [] (IPv4 10 0 0 2))).NetworkByID "n2" = none := by decide
    have hnew : get? (Controller.call ⟨["n1", "n2"], [], 256⟩ (.addServiceBinding "web" "s1" "n1" "e1"
        (IPv4 10 0 0 100) [] [] (IPv4 10 0 0 2))).serviceBindings (serviceKeyOf "s2" []) = none := by
      decide
    rw [Controller.run_rm_add_fresh _ hnet hnew] at hd
    obtain ⟨hk, -⟩ := hd ⟨"s1", ""⟩ "n1" _ ⟨"s2", ""⟩ "n2" _ rfl rfl rfl
    exact absurd hk (by decide)

end Libnetwork.ServiceBindings
