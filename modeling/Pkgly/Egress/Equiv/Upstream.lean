import Pkgly.Egress.Upstream
import Pkgly.Egress.Equiv.Addresses

/-!
# Every connection is covered by the egress policy

A connection is `Permitted` by the settings if its address is globally routable or in an allowed
CIDR, or its host is listed.  What `validateAddress` accepts is permitted, and every address that a
request connects to has passed `validateAddress` with its host: an address in a URL when the URL was
checked, and an address of a domain in the resolver.  The invariant is that the current URL has been
checked, by `execute` or by the policy for redirects.

`connections_permitted` is the result for all runs; `egress_covered` puts it together with the
blocks on which `isGlobal` is false.
-/

namespace Pkgly.Egress

variable {parse : String → Option IpNet} {settings : EgressSettings} {policy : EgressPolicy}

def Permitted (parse : String → Option IpNet) (settings : EgressSettings) (c : Connection) : Prop :=
  isGlobal c.address = true ∨
    (∃ text ∈ settings.allowedCidrs, ∃ network, parse text = some network ∧
      network.contains c.address = true) ∨
    ∃ entry ∈ settings.allowedHosts,
      eqIgnoreAsciiCase (trimEndDots entry) (trimEndDots c.host) = true

/-! ### The policy -/

theorem exists_of_mem_mapM {α β ε : Type} {f : α → Except ε β} {l : List α} {r : List β}
    (h : l.mapM f = .ok r) {b : β} (hb : b ∈ r) : ∃ a ∈ l, f a = .ok b := by
  induction l generalizing r with
  | nil =>
    obtain rfl : [] = r := Except.ok.inj h
    cases hb
  | cons a l ih =>
    rw [List.mapM_cons] at h
    cases hf : f a with
    | error e =>
      rw [hf] at h
      cases h
    | ok b' =>
      cases hl : l.mapM f with
      | error e =>
        rw [hf, hl] at h
        cases h
      | ok r' =>
        rw [hf, hl] at h
        obtain rfl : b' :: r' = r := Except.ok.inj h
        grind

theorem fromSettings_eq_ok (h : EgressPolicy.fromSettings parse settings = .ok policy) :
    (∀ network ∈ policy.allowedCidrs, ∃ text ∈ settings.allowedCidrs,
      parse text = some network) ∧
    ∀ host ∈ policy.allowedHosts, ∃ entry ∈ settings.allowedHosts, normalizeHost entry = host := by
  unfold EgressPolicy.fromSettings at h
  cases hcidrs : settings.allowedCidrs.mapM (EgressPolicy.parseCidr parse) with
  | error e =>
    rw [hcidrs] at h
    cases h
  | ok cidrs =>
    rw [hcidrs] at h
    obtain rfl := Except.ok.inj h
    grind [exists_of_mem_mapM, EgressPolicy.parseCidr, Except.ok.inj, List.mem_of_mem_filter]

theorem permitted_of_validateAddress (h : EgressPolicy.fromSettings parse settings = .ok policy)
    {host : String} {address : IpAddr} (hok : (policy.validateAddress host address).isOk = true) :
    Permitted parse settings ⟨host, address⟩ := by
  obtain ⟨hcidrs, hhosts⟩ := fromSettings_eq_ok h
  unfold EgressPolicy.validateAddress at hok
  dsimp only at hok
  split_ifs at hok with hallowed
  · rw [Bool.or_eq_true, Bool.or_eq_true] at hallowed
    rcases hallowed with (hglobal | hhost) | hrange
    · exact Or.inl hglobal
    · obtain ⟨entry, hentry, heq⟩ := hhosts _ (List.contains_iff_mem.mp hhost)
      exact Or.inr (Or.inr ⟨entry, hentry, beq_iff_eq.mpr heq⟩)
    grind [Permitted]
  · cases hok

theorem validateAddress_of_resolve {host : String} {answer : Option (List IpAddr)}
    {addresses : List IpAddr} (h : policy.resolve host answer = some addresses)
    {address : IpAddr} (haddress : address ∈ addresses) :
    (policy.validateAddress host address).isOk = true := by
  unfold EgressPolicy.resolve at h
  grind

theorem validateAddress_of_validateUrl {url : Url} (h : (policy.validateUrl url).isOk = true) :
    (∀ ip, url.host = some (.ipv4 ip) →
      (policy.validateAddress (url.hostStr.getD "") (.v4 ip)).isOk = true) ∧
    ∀ ip, url.host = some (.ipv6 ip) →
      (policy.validateAddress (url.hostStr.getD "") (.v6 ip)).isOk = true := by
  unfold EgressPolicy.validateUrl at h
  split at h
  · cases h
  · split at h
    · cases h
    · rename_i host hhost
      rw [hhost]
      split at h
      · cases h
      grind

/-! ### Requests -/

namespace Request

variable {s s' : Request} {a : RequestAction}

structure Covered (parse : String → Option IpNet) (settings : EgressSettings)
    (policy : EgressPolicy) (s : Request) : Prop where
  checked : ∀ url, s.current = some url → (policy.validateUrl url).isOk = true
  permitted : ∀ c ∈ s.connections, Permitted parse settings c

theorem Covered.finish (hs : Covered parse settings policy s) :
    Covered parse settings policy s.finish where
  checked _ h := by cases h
  permitted := hs.permitted

theorem Covered.connected (hs : Covered parse settings policy s) {host : String}
    {address : IpAddr} (h : Permitted parse settings ⟨host, address⟩) :
    Covered parse settings policy (s.connected host address) where
  checked := hs.checked
  permitted c hc := by
    rcases List.mem_append.mp hc with hold | hnew
    · exact hs.permitted c hold
    · rw [List.mem_singleton] at hnew
      exact hnew ▸ h

theorem covered_of_stepConnect (hpolicy : EgressPolicy.fromSettings parse settings = .ok policy)
    (hs : Covered parse settings policy s) {url : Url} {answer : Option (List IpAddr)}
    {address : IpAddr} (hurl : s.current = some url)
    (h : stepConnect (clientBuilder policy) s url answer address = some s') :
    Covered parse settings policy s' := by
  obtain ⟨hv4, hv6⟩ := validateAddress_of_validateUrl (hs.checked url hurl)
  unfold stepConnect at h
  split at h
  · split at h
    · obtain rfl := Option.some.inj h
      exact hs.finish
    · rename_i addresses hresolve
      split_ifs at h with hmem
      obtain rfl := Option.some.inj h
      exact hs.connected (permitted_of_validateAddress hpolicy
        (validateAddress_of_resolve hresolve hmem))
  · rename_i ip hip
    split_ifs at h with heq
    obtain rfl := Option.some.inj h
    subst heq
    exact hs.connected (permitted_of_validateAddress hpolicy (hv4 ip hip))
  · rename_i ip hip
    split_ifs at h with heq
    obtain rfl := Option.some.inj h
    subst heq
    exact hs.connected (permitted_of_validateAddress hpolicy (hv6 ip hip))
  · cases h

theorem covered_of_step (hpolicy : EgressPolicy.fromSettings parse settings = .ok policy)
    (hs : Covered parse settings policy s) (h : step (clientBuilder policy) s a = some s') :
    Covered parse settings policy s' := by
  cases a with
  | connect answer address =>
    obtain ⟨url, hurl, h⟩ := Option.bind_eq_some_iff.mp h
    exact covered_of_stepConnect hpolicy hs hurl h
  | redirect location =>
    obtain ⟨url, hurl, h⟩ := Option.bind_eq_some_iff.mp h
    unfold clientBuilder at h
    dsimp only at h
    split_ifs at h with hlimit hvalid
    · obtain rfl := Option.some.inj h
      exact hs.finish
    · obtain rfl := Option.some.inj h
      refine ⟨fun url' hurl' => ?_, hs.permitted⟩
      exact Option.some.inj hurl' ▸ hvalid
    · obtain rfl := Option.some.inj h
      exact hs.finish

theorem covered_of_execute (parse : String → Option IpNet) (settings : EgressSettings) {url : Url}
    (h : execute policy url = .ok s) : Covered parse settings policy s := by
  unfold execute at h
  split at h
  · cases h
  · rename_i hvalid
    obtain rfl := Except.ok.inj h
    refine ⟨fun url' hurl => ?_, fun c hc => by cases hc⟩
    rw [← Option.some.inj hurl, hvalid]
    rfl

theorem connections_permitted (hpolicy : EgressPolicy.fromSettings parse settings = .ok policy)
    {url : Url} (hexecute : execute policy url = .ok s) {as : List RequestAction}
    (hr : run (step (clientBuilder policy)) s as = some s') :
    ∀ c ∈ s'.connections, Permitted parse settings c :=
  (run_invariant (fun _ _ _ hs h => covered_of_step hpolicy hs h)
    (covered_of_execute parse settings hexecute) hr).permitted

end Request

/-- **Main theorem.**  Every connection of a request that `execute` starts, along any chain of
redirects and with any answers of the DNS, is permitted by the settings; and `isGlobal` is false on
the special-purpose blocks that are not globally reachable and on the addresses that embed an IPv4
address. -/
theorem egress_covered :
    (∀ (parse : String → Option IpNet) (settings : EgressSettings) (policy : EgressPolicy)
      (url : Url) (s s' : Request) (as : List RequestAction),
      EgressPolicy.fromSettings parse settings = .ok policy → execute policy url = .ok s →
        run (Request.step (clientBuilder policy)) s as = some s' →
          ∀ c ∈ s'.connections, Permitted parse settings c) ∧
    (∀ address, SpecialPurpose address → isGlobal address = false) ∧
    ∀ address, EmbedsIpv4 address → isGlobal address = false :=
  ⟨fun _ _ _ _ _ _ _ hpolicy hexecute hr => Request.connections_permitted hpolicy hexecute hr,
    fun _ => isGlobal_specialPurpose, fun _ => isGlobal_embedsIpv4⟩

/-- A request to a listed host that resolves to 10.0.0.1, and is redirected to 8.8.8.8. -/
theorem egress_covered_listedHost :
    let parse : String → Option IpNet := fun text =>
      if text = "127.0.0.0/8" then some (.v4 (v4Network 127 0 0 0 8)) else none
    let policy : EgressPolicy := ⟨["internal.example"], [.v4 (v4Network 127 0 0 0 8)]⟩
    let url : Url := ⟨"https", "", none, some "internal.example", some (.domain "internal.example")⟩
    let location : Url := ⟨"https", "", none, some "8.8.8.8", some (.ipv4 0x08080808)⟩
    ∃ s', run (Request.step (clientBuilder policy)) ⟨[], some url, []⟩
        [.connect (some [.v4 0x0a000001]) (.v4 0x0a000001), .redirect location,
          .connect none (.v4 0x08080808)] = some s' ∧
      (∀ c ∈ s'.connections, Permitted parse ⟨["Internal.Example."], ["127.0.0.0/8"]⟩ c) ∧
      isGlobal (.v4 0x7f000001) = false ∧ isGlobal (.v6 0xffff7f000001) = false := by
  intro parse policy url location
  obtain ⟨hcovered, hspecial, hembeds⟩ := egress_covered
  have hsome : (run (Request.step (clientBuilder policy)) ⟨[], some url, []⟩
      [.connect (some [.v4 0x0a000001]) (.v4 0x0a000001), .redirect location,
        .connect none (.v4 0x08080808)]).isSome = true := by decide
  obtain ⟨s', hs'⟩ := Option.isSome_iff_exists.mp hsome
  refine ⟨s', hs', hcovered parse _ policy url _ s' _ ?_ ?_ hs', ?_, ?_⟩
  · rfl
  · rfl
  · exact hspecial _ ⟨v4Network 127 0 0 0 8, by decide, by decide⟩
  · exact hembeds _ ⟨v6Network 0xffff00000000 96, by decide, by decide⟩

end Pkgly.Egress
