import AuthServer.Store.World

/-!
# Rate limiting

A counter in Redis for each key, one script per check. Without Redis every request passes.
-/

namespace AuthServer

open Handler

/-- What a check decides. -/
structure RateLimitDecision where
  allowed : Bool
  count : Nat
  retryAfterSeconds : Nat
  deriving DecidableEq

namespace RateLimitDecision

def pass (count : Nat) : RateLimitDecision := ⟨true, count, 0⟩

def denied (count retryAfterSeconds : Nat) : RateLimitDecision := ⟨false, count, retryAfterSeconds⟩

def failOpen : RateLimitDecision := ⟨true, 0, 0⟩

end RateLimitDecision

namespace RateLimiter

/-- The remaining seconds of the counter, or the whole window when Redis does not tell. -/
def readTtlOrDefault (key : String) (fallback : Nat) : Handler Nat := do
  match ← tryRedis (.counter (.ttl key (seconds 1))) with
  | .ok (sec : Int) => return if 0 < sec then sec.toNat else fallback
  | .error _ => return fallback

/-- Count a request under a key; the window is a number of whole seconds. -/
def check (key : String) (limit windowSeconds : Nat) : Handler RateLimitDecision := do
  if key = "" ∨ limit = 0 ∨ windowSeconds = 0 then return .failOpen
  match ← tryRedis (.counter (.incrAndExpire key (seconds windowSeconds))) with
  | .error _ => return .failOpen
  | .ok (count : Nat) =>
    if limit < count then
      let retryAfter ← readTtlOrDefault key windowSeconds
      return .denied count retryAfter
    return .pass count

end RateLimiter

/-- A check whose refusal ends the request. -/
def applyLimit (key : String) (max windowSeconds : Nat) : Handler Unit := do
  let d ← RateLimiter.check key max windowSeconds
  if d.allowed then pure () else throw (.rateLimited d.retryAfterSeconds)

namespace Keys

def rlLoginEmail (email : String) : String := "rl:login:email:" ++ email

def rlLoginIp (ip : String) : String := "rl:login:ip:" ++ ip

def rlSignupIp (ip : String) : String := "rl:signup:ip:" ++ ip

def rlVerifyEmail (ip : String) : String := "rl:verify-email:" ++ ip

end Keys

/-- What the handlers read of a request besides its body: the address of the TCP peer, and headers
and cookies as far as they are present and readable. -/
structure HttpRequest where
  peerAddr : Option String := none
  xForwardedFor : Option String := none
  userAgent : Option String := none
  csrfCookie : Option String := none
  deriving DecidableEq

/-- The first entry of `X-Forwarded-For`, if it names anything. -/
def HttpRequest.forwarded (req : HttpRequest) : Option String :=
  (req.xForwardedFor.map fun s => Text.trim (String.ofList (s.toList.takeWhile fun c => c != ','))).filter
    fun first => first != ""

/-- `client_ip`: the forwarded address before the peer. -/
def HttpRequest.clientIp (req : HttpRequest) : Option String := req.forwarded.or req.peerAddr

/-- A check keyed by the address of the client, if it has one. -/
def applyIpLimit (req : HttpRequest) (key : String → String) (max windowSeconds : Nat) :
    Handler Unit :=
  match req.clientIp.filter fun ip => ip != "" with
  | none => pure ()
  | some ip => applyLimit (key ip) max windowSeconds

end AuthServer
