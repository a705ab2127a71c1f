import PuppyTalk.Python

namespace PuppyTalk

/-- What the middleware takes from `ipaddress`. -/
structure IpLib (Address Network : Type) where
  ipAddress : String → Option Address
  ipNetwork : String → Option Network
  contains : Network → Address → Bool

structure ProxySettings where
  trustXForwardedFor : Bool
  trustedProxyIps : List String
  apiPrefix : String

/-- An ASGI scope, with the headers as decoded text. -/
structure Scope where
  isHttp : Bool
  path : String
  method : String
  client : Option (String × Nat)
  headers : List (String × String)
  deriving DecidableEq, Repr

def clientIpFromScope (scope : Scope) (default : String) : String :=
  match scope.client with
  | some (ip, _) => if ip = "" then default else ip
  | none => default

namespace ProxyHeadersMiddleware

variable {Address Network : Type} (ip : IpLib Address Network)

/-- `_parse_trusted_networks`; entries that do not parse are dropped. -/
def parseTrustedNetworks (allowed : List String) : List Network :=
  allowed.filterMap fun item =>
    if Python.strip item = "" then none else ip.ipNetwork (Python.strip item)

def isTrustedProxy (directClientIp : String) (networks : List Network) (allowAll : Bool) : Bool :=
  allowAll || (ip.ipAddress directClientIp).any fun client => networks.any (ip.contains · client)

def isForwardedFor (header : String × String) : Bool := Python.lower header.1 = "x-forwarded-for"

def forwardedClient : List (String × String) → Option (String × Nat)
  | [] => none
  | header :: headers =>
    if isForwardedFor header ∧ header.2 ≠ "" then
      let forwarded := Python.strip header.2
      if forwarded ≠ "" then some (Python.strip (Python.beforeComma forwarded), 0) else none
    else forwardedClient headers

def call (settings : ProxySettings) (scope : Scope) : Scope :=
  if scope.isHttp && settings.trustXForwardedFor &&
      isTrustedProxy ip (scope.client.getD ("", 0)).1
        (parseTrustedNetworks ip settings.trustedProxyIps) settings.trustedProxyIps.isEmpty then
    { scope with client := (forwardedClient scope.headers).or scope.client }
  else scope

end ProxyHeadersMiddleware

namespace RateLimitMiddleware

def infraProbePaths : List String := ["/livez", "/readyz", "/metrics"]

def keyPrefix (settings : ProxySettings) (path : String) : String :=
  let base := Python.rstripChar '/' settings.apiPrefix
  let p := Python.rstripChar '/' path
  if p = base ++ "/auth/login" then "login"
  else if p = base ++ "/media/images/signup/presign" ∨ p = base ++ "/media/images/signup/confirm" then
    "signup_upload"
  else "global"

def rateLimitKey (settings : ProxySettings) (scope : Scope) : Option String :=
  if !scope.isHttp ∨ scope.method = "OPTIONS" ∨ scope.path ∈ infraProbePaths then none
  else some (keyPrefix settings scope.path ++ ":" ++ clientIpFromScope scope "unknown")

end RateLimitMiddleware

def getClientIdentifier (scope : Scope) : String :=
  Python.strip (clientIpFromScope scope "0.0.0.0")

/-- The viewer that `get_post` counts a view for. -/
def viewerKey (scope : Scope) (currentUser : Option String) : String :=
  match currentUser with
  | some userId => "u:" ++ userId
  | none => "ip:" ++ getClientIdentifier scope

structure ClientRequest where
  path : String
  method : String
  headers : List (String × String)
  deriving DecidableEq, Repr

namespace ClientRequest

/-- The `X-Forwarded-For` values that the client itself sent. -/
def sent (r : ClientRequest) : List String :=
  (r.headers.filter ProxyHeadersMiddleware.isForwardedFor).map Prod.snd

def plain (r : ClientRequest) : ClientRequest :=
  { r with headers := r.headers.filter fun h => !ProxyHeadersMiddleware.isForwardedFor h }

def viaProxy (proxy : String × Nat) (peer : String) (r : ClientRequest) : Scope where
  isHttp := true
  path := r.path
  method := r.method
  client := some proxy
  headers := r.plain.headers ++ [("x-forwarded-for", ", ".intercalate (r.sent ++ [peer]))]

end ClientRequest

section Text

theorem dropWhile_comma (a y : List Char) :
    (a ++ ',' :: y).dropWhile Python.isSpace = a.dropWhile Python.isSpace ++ ',' :: y := by
  rw [List.dropWhile_append]
  split
  · rename_i h
    rw [List.isEmpty_iff.mp h]
    rfl
  · rfl

theorem stripChars_comma (a y : List Char) :
    ∃ z, stripChars (a ++ ',' :: y) = a.dropWhile Python.isSpace ++ ',' :: z := by
  rw [stripChars, dropWhile_comma, List.reverse_append, List.reverse_cons, List.append_assoc,
    List.singleton_append, dropWhile_comma, List.reverse_append, List.reverse_cons,
    List.reverse_reverse, List.append_assoc, List.singleton_append]
  exact ⟨_, rfl⟩

theorem stripChars_dropWhile (l : List Char) :
    stripChars (l.dropWhile Python.isSpace) = stripChars l := by
  rw [stripChars, stripChars, List.dropWhile_idempotent]

structure AddressText (s : String) : Prop where
  nonempty : s ≠ ""
  plain : ∀ c ∈ s.toList, c ≠ ',' ∧ Python.isSpace c = false

theorem AddressText.strip (h : AddressText s) : Python.strip s = s :=
  strip_of_plain fun c hc => (h.plain c hc).2

theorem AddressText.beforeComma (h : AddressText s) : Python.beforeComma s = s := by
  apply String.toList_injective
  rw [Python.beforeComma, String.toList_ofList]
  exact List.takeWhile_eq_self_iff.mpr fun c hc => decide_eq_true (h.plain c hc).1

theorem toList_comma (v rest : String) :
    ∃ y, (v ++ ", " ++ rest).toList = v.toList.takeWhile (· ≠ ',') ++ ',' :: y := by
  have hv := List.takeWhile_append_dropWhile (p := (· ≠ ',')) (l := v.toList)
  rw [String.toList_append, String.toList_append]
  cases hd : v.toList.dropWhile (· ≠ ',') with
  | nil =>
    rw [hd, List.append_nil] at hv
    rw [hv, List.append_assoc]
    exact ⟨_, rfl⟩
  | cons c more =>
    have hc : c = ',' := by
      have hne : v.toList.dropWhile (· ≠ ',') ≠ [] := by
        rw [hd]
        exact List.cons_ne_nil c more
      have hhead := List.head_dropWhile_not (· ≠ ',') hne
      simp only [hd, List.head_cons] at hhead
      simpa using hhead
    rw [hd, hc] at hv
    refine ⟨more ++ ", ".toList ++ rest.toList, ?_⟩
    conv_lhs => rw [← hv]
    simp

theorem strip_beforeComma (v rest : String) :
    Python.strip (Python.beforeComma (Python.strip (v ++ ", " ++ rest))) =
        Python.strip (Python.beforeComma v) ∧
      Python.strip (v ++ ", " ++ rest) ≠ "" := by
  obtain ⟨y, hy⟩ := toList_comma v rest
  obtain ⟨z, hz⟩ := stripChars_comma (v.toList.takeWhile (· ≠ ',')) y
  have hs : (Python.strip (v ++ ", " ++ rest)).toList =
      (v.toList.takeWhile (· ≠ ',')).dropWhile Python.isSpace ++ ',' :: z := by
    rw [strip_toList, hy, hz]
  have hplain : ∀ c ∈ (v.toList.takeWhile (· ≠ ',')).dropWhile Python.isSpace,
      decide (c ≠ ',') = true := by
    intro c hc
    have hmem := (List.dropWhile_sublist _).mem hc
    exact List.mem_takeWhile_imp (p := (· ≠ ',')) hmem
  constructor
  · apply String.toList_injective
    rw [strip_toList, strip_toList, Python.beforeComma, Python.beforeComma, String.toList_ofList,
      String.toList_ofList, hs, List.takeWhile_append_of_pos hplain,
      List.takeWhile_cons_of_neg (by decide), List.append_nil, stripChars_dropWhile]
  · intro he
    rw [he] at hs
    simp at hs

end Text

section Address

variable {Address Network : Type} (ip : IpLib Address Network) (settings : ProxySettings)

open ProxyHeadersMiddleware

def InTrustedNetworks (peer : String) : Prop :=
  (ip.ipAddress peer).any (fun client =>
    (parseTrustedNetworks ip settings.trustedProxyIps).any (ip.contains · client)) = true

def sentEntry (r : ClientRequest) : Option String :=
  r.sent.head?.map fun v => Python.strip (Python.beforeComma v)

theorem isForwardedFor_sent : isForwardedFor ("x-forwarded-for", v) = true := by
  have hname : Python.lower "x-forwarded-for" = "x-forwarded-for" := by decide
  exact decide_eq_true hname

theorem forwardedClient_append {headers : List (String × String)}
    (h : ∀ x ∈ headers, isForwardedFor x = false) (rest : List (String × String)) :
    forwardedClient (headers ++ rest) = forwardedClient rest := by
  induction headers with
  | nil => rfl
  | cons x headers ih =>
    rw [List.cons_append, forwardedClient, if_neg (by simp [h x List.mem_cons_self])]
    exact ih fun y hy => h y (List.mem_cons_of_mem _ hy)

theorem forwardedClient_viaProxy (proxy : String × Nat) (hpeer : AddressText peer)
    (r : ClientRequest) :
    forwardedClient (r.viaProxy proxy peer).headers = some ((sentEntry r).getD peer, 0) := by
  have hplain : ∀ x ∈ r.plain.headers, isForwardedFor x = false := by
    intro x hx
    simpa using (List.mem_filter.mp hx).2
  rw [ClientRequest.viaProxy, forwardedClient_append hplain, sentEntry]
  cases hsent : r.sent with
  | nil =>
    have hvalue : ", ".intercalate ([] ++ [peer]) = peer := String.intercalate_singleton
    rw [hvalue, forwardedClient, if_pos ⟨isForwardedFor_sent, hpeer.nonempty⟩]
    dsimp only
    rw [if_pos (hpeer.strip.symm ▸ hpeer.nonempty), hpeer.strip, hpeer.beforeComma, hpeer.strip]
    rfl
  | cons v vs =>
    obtain ⟨rest, hvalue⟩ : ∃ rest, ", ".intercalate (v :: vs ++ [peer]) = v ++ ", " ++ rest := by
      cases vs with
      | nil => exact ⟨_, String.intercalate_cons_cons⟩
      | cons w ws => exact ⟨_, String.intercalate_cons_cons⟩
    obtain ⟨hentry, hne⟩ := strip_beforeComma v rest
    have hfull : v ++ ", " ++ rest ≠ "" := by
      intro he
      rw [he] at hne
      exact hne (by decide)
    rw [hvalue, forwardedClient, if_pos ⟨isForwardedFor_sent, hfull⟩]
    dsimp only
    rw [if_pos hne, hentry]
    rfl

theorem call_viaProxy (htrust : settings.trustXForwardedFor = true) (proxy : String × Nat)
    (hproxy : InTrustedNetworks ip settings proxy.1) (hpeer : AddressText peer)
    (r : ClientRequest) :
    (call ip settings (r.viaProxy proxy peer)).client = some ((sentEntry r).getD peer, 0) := by
  have hcond : ((r.viaProxy proxy peer).isHttp && settings.trustXForwardedFor &&
      isTrustedProxy ip ((r.viaProxy proxy peer).client.getD ("", 0)).1
        (parseTrustedNetworks ip settings.trustedProxyIps)
        settings.trustedProxyIps.isEmpty) = true := by
    rw [htrust, isTrustedProxy, Bool.and_eq_true, Bool.or_eq_true]
    exact ⟨rfl, .inr hproxy⟩
  rw [call, if_pos hcond, forwardedClient_viaProxy proxy hpeer]
  rfl

theorem call_of_outside (hne : settings.trustedProxyIps ≠ []) (scope : Scope)
    (hout : ¬ InTrustedNetworks ip settings (scope.client.getD ("", 0)).1) :
    call ip settings scope = scope := by
  rw [call, if_neg]
  rw [Bool.and_eq_true, isTrustedProxy, Bool.or_eq_true]
  rintro ⟨-, hempty | hin⟩
  · exact hne (List.isEmpty_iff.mp hempty)
  · exact hout hin

/-- A client outside the trusted networks cannot choose its address. Behind a proxy two requests
of one peer get the same address exactly if they name the same one first, where a request without
the header names the peer. -/
theorem clientAddress_iff (htrust : settings.trustXForwardedFor = true)
    (hne : settings.trustedProxyIps ≠ []) :
    (∀ scope : Scope, ¬ InTrustedNetworks ip settings (scope.client.getD ("", 0)).1 →
      ∀ headers, let scope' := { scope with headers := headers }
        RateLimitMiddleware.rateLimitKey settings (call ip settings scope') =
            RateLimitMiddleware.rateLimitKey settings (call ip settings scope) ∧
          ∀ currentUser, viewerKey (call ip settings scope') currentUser =
            viewerKey (call ip settings scope) currentUser) ∧
    ∀ proxy proxy', InTrustedNetworks ip settings proxy.1 →
      InTrustedNetworks ip settings proxy'.1 → ∀ peer, AddressText peer →
      ∀ r r' : ClientRequest,
        let scope := call ip settings (r.viaProxy proxy peer)
        let scope' := call ip settings (r'.viaProxy proxy' peer)
        (clientIpFromScope scope "unknown" = clientIpFromScope scope' "unknown" ∧
            getClientIdentifier scope = getClientIdentifier scope') ↔
          (sentEntry r).getD peer = (sentEntry r').getD peer := by
  constructor
  · intro scope hout headers
    dsimp only
    rw [call_of_outside ip settings hne scope hout,
      call_of_outside ip settings hne { scope with headers := headers } hout]
    exact ⟨rfl, fun _ => rfl⟩
  · intro proxy proxy' hproxy hproxy' peer hpeer r r'
    have hc := call_viaProxy ip settings htrust proxy hproxy hpeer r
    have hc' := call_viaProxy ip settings htrust proxy' hproxy' hpeer r'
    simp only [getClientIdentifier, clientIpFromScope, hc, hc']
    constructor
    · rintro ⟨hrate, hview⟩
      by_cases he : (sentEntry r).getD peer = "" <;> by_cases he' : (sentEntry r').getD peer = ""
      · rw [he, he']
      · rw [if_pos he, if_neg he'] at hrate hview
        rw [← hrate] at hview
        exact absurd hview (by decide)
      · rw [if_neg he, if_pos he'] at hrate hview
        rw [hrate] at hview
        exact absurd hview (by decide)
      · rwa [if_neg he, if_neg he'] at hrate
    · intro he
      rw [he]
      exact ⟨rfl, rfl⟩

end Address

section Runs

def plainIps : IpLib String String where
  ipAddress := some
  ipNetwork := some
  contains network client := network == client

def behindProxy : ProxySettings where
  trustXForwardedFor := true
  trustedProxyIps := ["10.0.0.1"]
  apiPrefix := "/v1"

def loginFrom (value : String) : ClientRequest where
  path := "/v1/auth/login"
  method := "POST"
  headers := [("x-forwarded-for", value)]

/-- One peer is counted under two keys. -/
theorem clientAddress_diverges :
    let key value := RateLimitMiddleware.rateLimitKey behindProxy
      (ProxyHeadersMiddleware.call plainIps behindProxy
        ((loginFrom value).viaProxy ("10.0.0.1", 0) "9.9.9.9"))
    key "1.1.1.1" = some "login:1.1.1.1" ∧ key "2.2.2.2" = some "login:2.2.2.2" := by
  decide

theorem clientAddress_iff_behindProxy :
    clientIpFromScope (ProxyHeadersMiddleware.call plainIps behindProxy
        ((loginFrom "9.9.9.9").viaProxy ("10.0.0.1", 0) "9.9.9.9")) "unknown" =
      clientIpFromScope (ProxyHeadersMiddleware.call plainIps behindProxy
        ((loginFrom "9.9.9.9").plain.viaProxy ("10.0.0.1", 0) "9.9.9.9")) "unknown" := by
  have htrusted : InTrustedNetworks plainIps behindProxy "10.0.0.1" := by
    unfold InTrustedNetworks
    decide
  have hpeer : AddressText "9.9.9.9" := by
    constructor
    · decide
    · have hchars : "9.9.9.9".toList = ['9', '.', '9', '.', '9', '.', '9'] := rfl
      rw [hchars]
      simp [Python.isSpace]
  exact (((clientAddress_iff plainIps behindProxy rfl (by decide)).2 ("10.0.0.1", 0) ("10.0.0.1", 0)
    htrusted htrusted "9.9.9.9" hpeer (loginFrom "9.9.9.9")
    (loginFrom "9.9.9.9").plain).mpr (by decide)).1

end Runs

end PuppyTalk
